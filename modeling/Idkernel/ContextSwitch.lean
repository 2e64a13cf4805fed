import Mathlib.Logic.Relation
import Idkernel.X86

/-!
# Switching between kernel contexts

Two records of nine words, and the instructions that save the running context
in the one and load the next from the other, changing the page table and the
stack on the way. Between two switches the running task does as it likes with
everything but the records and stacks of the others.
-/
namespace Idkernel

open Intrusive X86

/-! ## The records -/

structure ContextRegs where
  cr3 : UInt64 := 0
  rbx : UInt64 := 0
  rbp : UInt64 := 0
  r12 : UInt64 := 0
  r13 : UInt64 := 0
  r14 : UInt64 := 0
  r15 : UInt64 := 0
  rsp : UInt64 := 0
  rflags : UInt64 := 0
  deriving DecidableEq, Repr

namespace ContextRegs

/-- The layout in memory. -/
def words (regs : ContextRegs) : List UInt64 :=
  [regs.cr3, regs.rbx, regs.rbp, regs.r12, regs.r13, regs.r14, regs.r15, regs.rsp, regs.rflags]

def offsetCr3 : UInt64 := 0

def offsetRflags : UInt64 := 64

/-- The registers that are exchanged, with their offsets, in the order of the code. -/
def exchanged : List (Reg × UInt64) :=
  [(.rbx, 8), (.rbp, 16), (.r12, 24), (.r13, 32), (.r14, 40), (.r15, 48), (.rsp, 56)]

def pushStack (regs : ContextRegs) (memory : Bytes) (val : UInt64) : ContextRegs × Bytes :=
  let regs := { regs with rsp := regs.rsp - 8 }
  (regs, setWord memory regs.rsp.toNat val)

end ContextRegs

open ContextRegs

/-! ## `switch_task` -/

/-- Save the old value of a register, load the new one. -/
def exchange (r : Reg) (offset : UInt64) (c : Cpu) : Cpu :=
  let c := c.store (c.reg .rdi + offset) (c.reg r)
  c.load r (c.reg .rsi + offset)

def exchangeAll : List (Reg × UInt64) → Cpu → Cpu
  | [], c => c
  | (r, offset) :: rest, c => exchangeAll rest (exchange r offset c)

/-- Load the new page table, unless it is the old one. -/
def switchTable (c : Cpu) : Cpu :=
  let c := c.mov .rcx c.cr3
  let c := c.load .rax (c.reg .rsi + offsetCr3)
  let c := c.cmp (c.reg .rcx) (c.reg .rax)
  if c.zero then c else { c with cr3 := c.reg .rax }

/-- The flags travel over the new stack. -/
def switchFlags (c : Cpu) : Cpu :=
  let c := c.pushfq
  let c := c.popTo (c.reg .rdi + offsetRflags)
  let c := c.push (word c.memory (c.reg .rsi + offsetRflags).toNat)
  c.popfq

/-- Up to the jump to `after_task_switch`. -/
def switchTask (c : Cpu) : Cpu := switchFlags (exchangeAll exchanged (switchTable c))

/-- The thread data are not part of a context. -/
theorem switchTask_fs (c : Cpu) : (switchTask c).fs = c.fs := by
  have hall : ∀ l d, (exchangeAll l d).fs = d.fs := by
    intro l
    induction l with
    | nil => exact fun _ => rfl
    | cons p l ih => exact fun d => ih (exchange p.1 p.2 d)
  have htable : (switchTable c).fs = c.fs := by
    simp only [switchTable]
    split
    · rfl
    · rfl
  have hrun : (switchTask c).fs = (exchangeAll exchanged (switchTable c)).fs := rfl
  rw [hrun, hall, htable]

section Switch

variable {c : Cpu} {old new : Nat}

/-- Two records that do not overlap, in the two argument registers. -/
structure Records (c : Cpu) (old new : Nat) : Prop where
  oldAt : (c.reg .rdi).toNat = old
  newAt : (c.reg .rsi).toNat = new
  oldRoom : old + 72 < 2 ^ 64
  newRoom : new + 72 < 2 ^ 64
  apart : old + 72 ≤ new ∨ new + 72 ≤ old

theorem address {a offset : UInt64} (h : a.toNat + offset.toNat < 2 ^ 64) :
    (a + offset).toNat = a.toNat + offset.toNat := by
  rw [UInt64.toNat_add]
  exact Nat.mod_eq_of_lt h

theorem Records.old_offset (hrec : Records c old new) {offset : UInt64} (h : offset.toNat ≤ 72) :
    (c.reg .rdi + offset).toNat = old + offset.toNat := by
  have hroom := hrec.oldRoom
  rw [address (by rw [hrec.oldAt]; omega), hrec.oldAt]

theorem Records.new_offset (hrec : Records c old new) {offset : UInt64} (h : offset.toNat ≤ 72) :
    (c.reg .rsi + offset).toNat = new + offset.toNat := by
  have hroom := hrec.newRoom
  rw [address (by rw [hrec.newAt]; omega), hrec.newAt]

/-- Other registers, the page table and the flags are not part of an exchange. -/
theorem exchange_other {r q : Reg} (offset : UInt64) (hq : q ≠ r) : (exchange r offset c).reg q = c.reg q :=
  Cpu.mov_other _ _ hq

theorem exchange_spec (hrec : Records c old new) {r : Reg} {offset : UInt64} (hrdi : r ≠ .rdi) (hrsi : r ≠ .rsi)
    (hhigh : offset.toNat + 8 ≤ 72) :
    (exchange r offset c).memory = setWord c.memory (old + offset.toNat) (c.reg r) ∧
      (exchange r offset c).reg r = word c.memory (new + offset.toNat) ∧ Records (exchange r offset c) old new := by
  have hapart := hrec.apart
  have hto : (c.reg .rdi + offset).toNat = old + offset.toNat := hrec.old_offset (by omega)
  have hfrom : (c.reg .rsi + offset).toNat = new + offset.toNat := hrec.new_offset (by omega)
  refine ⟨?_, ?_, { hrec with oldAt := ?_, newAt := ?_ }⟩
  · simp only [exchange, Cpu.load, Cpu.mov_memory, Cpu.store_memory, hto]
  · simp only [exchange, Cpu.load, Cpu.mov_self, Cpu.store_memory, Cpu.store_reg, hto, hfrom]
    exact word_setWord_apart (by omega)
  · rw [exchange_other offset (Ne.symm hrdi), hrec.oldAt]
  · rw [exchange_other offset (Ne.symm hrsi), hrec.newAt]

/-- Old values go to the one record, new ones come from the other, and nothing else changes. -/
theorem exchangeAll_spec {l : List (Reg × UInt64)} (low : Nat) (hrec : Records c old new)
    (hregs : ∀ p ∈ l, p.1 ≠ .rdi ∧ p.1 ≠ .rsi) (hnodup : (l.map Prod.fst).Nodup)
    (hsorted : l.Pairwise fun p q => p.2.toNat + 8 ≤ q.2.toNat)
    (hbounds : ∀ p ∈ l, low ≤ p.2.toNat ∧ p.2.toNat + 8 ≤ 72) :
    (∀ p ∈ l, (exchangeAll l c).reg p.1 = word c.memory (new + p.2.toNat) ∧
      word (exchangeAll l c).memory (old + p.2.toNat) = c.reg p.1) ∧
    (∀ r, r ∉ l.map Prod.fst → (exchangeAll l c).reg r = c.reg r) ∧
    (exchangeAll l c).rflags = c.rflags ∧ (exchangeAll l c).cr3 = c.cr3 ∧
    ∀ x, x < old + low ∨ old + 72 ≤ x → (exchangeAll l c).memory x = c.memory x := by
  induction l generalizing c low with
  | nil => simp [exchangeAll]
  | cons p l ih =>
    obtain ⟨r, offset⟩ := p
    obtain ⟨hlow, hhigh⟩ := hbounds (r, offset) (by simp)
    obtain ⟨hrdi, hrsi⟩ := hregs (r, offset) (by simp)
    obtain ⟨hnotin, hnodup⟩ := List.nodup_cons.mp hnodup
    obtain ⟨hnext, hsorted⟩ := List.pairwise_cons.mp hsorted
    dsimp only at hlow hhigh hrdi hrsi hnotin hnext
    have hapart := hrec.apart
    obtain ⟨hmem, hself, hrec'⟩ := exchange_spec hrec hrdi hrsi hhigh
    obtain ⟨hin, hout, hflags, hcr3, hframe⟩ := ih (offset.toNat + 8) hrec'
      (fun p hp => hregs p (by simp [hp])) hnodup hsorted
      fun p hp => ⟨hnext p hp, (hbounds p (by simp [hp])).2⟩
    refine ⟨?_, ?_, hflags, hcr3, ?_⟩
    · intro p hp
      cases List.mem_cons.mp hp with
      | inl he =>
        subst he
        refine ⟨(hout r hnotin).trans hself, ?_⟩
        have hkept : word (exchangeAll l (exchange r offset c)).memory (old + offset.toNat) =
            word (exchange r offset c).memory (old + offset.toNat) :=
          word_congr fun x _ hx => hframe x (by omega)
        rw [exchangeAll, hkept, hmem, word_setWord]
      | inr hp =>
        have hne : p.1 ≠ r := fun he => hnotin (he ▸ List.mem_map_of_mem hp)
        have hbound := hbounds p (by simp [hp])
        obtain ⟨hload, hstore⟩ := hin p hp
        rw [hmem, word_setWord_apart (by omega)] at hload
        rw [exchange_other offset hne] at hstore
        exact ⟨hload, hstore⟩
    · intro q hq
      obtain ⟨hqr, hql⟩ := not_or.mp (fun h => hq (List.mem_cons.mpr h))
      rw [exchangeAll, hout q hql, exchange_other offset hqr]
    · intro x hx
      rw [exchangeAll, hframe x (by omega), hmem, setWord_outside (by omega)]

theorem switchTable_spec (hrec : Records c old new) :
    (switchTable c).memory = c.memory ∧ (switchTable c).cr3 = word c.memory new ∧
      control (switchTable c).rflags = control c.rflags ∧
      ∀ r, r ≠ .rax → r ≠ .rcx → (switchTable c).reg r = c.reg r := by
  have hfrom : (c.reg .rsi + offsetCr3).toNat = new := hrec.new_offset (by decide)
  obtain ⟨c₁, hc₁⟩ : ∃ c₁, c₁ = (c.mov .rcx c.cr3).load .rax (c.reg .rsi + offsetCr3) := ⟨_, rfl⟩
  have hrax : c₁.reg .rax = word c.memory new := by rw [hc₁, Cpu.load, Cpu.mov_self, Cpu.mov_memory, hfrom]
  have hrcx : c₁.reg .rcx = c.cr3 := by rw [hc₁, Cpu.load, Cpu.mov_other _ _ (by decide), Cpu.mov_self]
  have hreg : ∀ r, r ≠ .rax → r ≠ .rcx → c₁.reg r = c.reg r := by
    intro r hrax hrcx
    rw [hc₁, Cpu.load, Cpu.mov_other _ _ hrax, Cpu.mov_other _ _ hrcx]
  have hmemory : c₁.memory = c.memory := by rw [hc₁, Cpu.load, Cpu.mov_memory, Cpu.mov_memory]
  have hflags : control (c₁.cmp (c₁.reg .rcx) (c₁.reg .rax)).rflags = control c.rflags := by
    rw [Cpu.cmp_control, hc₁]
    rfl
  have hcr3 : c₁.cr3 = c.cr3 := by rw [hc₁]; rfl
  have hrun : switchTable c = if (c₁.cmp (c₁.reg .rcx) (c₁.reg .rax)).zero then c₁.cmp (c₁.reg .rcx) (c₁.reg .rax)
      else { c₁.cmp (c₁.reg .rcx) (c₁.reg .rax) with cr3 := c₁.reg .rax } := by
    rw [switchTable, hc₁]
    rfl
  rw [hrun, Cpu.cmp_zero]
  by_cases hsame : c₁.reg .rcx = c₁.reg .rax
  · rw [decide_eq_true hsame, if_pos rfl]
    refine ⟨hmemory, ?_, hflags, hreg⟩
    rw [Cpu.cmp_cr3, hcr3, ← hrcx, hsame, hrax]
  · rw [decide_eq_false hsame, if_neg Bool.false_ne_true]
    exact ⟨hmemory, hrax, hflags, hreg⟩

/-- The old flags are popped into the old record, by way of the new stack. -/
theorem popFlags_spec (hrec : Records c old new) {top : Nat} (htop : (c.reg .rsp).toNat = top) (hroom : 8 ≤ top) :
    (c.pushfq.popTo (c.pushfq.reg .rdi + offsetRflags)).reg = c.reg ∧
      (c.pushfq.popTo (c.pushfq.reg .rdi + offsetRflags)).memory =
        setWord (setWord c.memory (top - 8) c.rflags) (old + 64) c.rflags := by
  have hsp : (c.reg .rsp - 8).toNat = top - 8 := by rw [Cpu.below (by omega), htop]
  have hto : (c.reg .rdi + offsetRflags).toNat = old + 64 := hrec.old_offset (by decide)
  have hpushed : c.pushfq.reg .rsp = c.reg .rsp - 8 := Cpu.push_rsp _ _
  have hrdi : c.pushfq.reg .rdi = c.reg .rdi := Cpu.push_other _ _ (by decide)
  have hflags : c.pushfq.top = c.rflags := by
    rw [Cpu.top, hpushed]
    exact word_setWord _ _ _
  constructor
  · funext r
    by_cases hr : r = .rsp
    · rw [hr, Cpu.popTo, Cpu.store_reg, Cpu.drop_rsp, hpushed, UInt64.sub_add_cancel]
    · rw [Cpu.popTo, Cpu.store_reg, Cpu.drop_other _ hr]
      exact Cpu.push_other _ _ hr
  · rw [Cpu.popTo, Cpu.store_memory, hflags, hrdi, hto, Cpu.drop_memory, Cpu.pushfq, Cpu.push_memory, hsp]

/-- The stack is as high as before, and what was above it is untouched. -/
theorem switchFlags_spec (hrec : Records c old new) {top : Nat} (htop : (c.reg .rsp).toNat = top)
    (hroom : 8 ≤ top)
    (hold : old + 72 ≤ top - 8 ∨ top ≤ old) (hnew : new + 72 ≤ top - 8 ∨ top ≤ new) :
    (switchFlags c).reg = c.reg ∧ (switchFlags c).cr3 = c.cr3 ∧
    (switchFlags c).rflags = word c.memory (new + 64) ∧
      word (switchFlags c).memory (old + 64) = c.rflags ∧
      ∀ x, x < old + 64 ∨ old + 72 ≤ x → x < top - 8 ∨ top ≤ x → (switchFlags c).memory x = c.memory x := by
  have hsp : (c.reg .rsp - 8).toNat = top - 8 := by rw [Cpu.below (by omega), htop]
  have hfrom : (c.reg .rsi + offsetRflags).toNat = new + 64 := hrec.new_offset (by decide)
  obtain ⟨hregb, hmemb⟩ := popFlags_spec hrec htop hroom
  obtain ⟨b, hb⟩ : ∃ b, b = c.pushfq.popTo (c.pushfq.reg .rdi + offsetRflags) := ⟨_, rfl⟩
  rw [← hb] at hregb hmemb
  have hnext : word b.memory (new + 64) = word c.memory (new + 64) := by
    have hapart := hrec.apart
    rw [hmemb, word_setWord_apart (by omega), word_setWord_apart (by omega)]
  -- the new flags go from the new record through the same slot.
  obtain ⟨d, hd⟩ : ∃ d, d = b.push (word b.memory (b.reg .rsi + offsetRflags).toNat) := ⟨_, rfl⟩
  have hmemd : d.memory = setWord b.memory (top - 8) (word c.memory (new + 64)) := by
    rw [hd, Cpu.push_memory, hregb, hsp, hfrom, hnext]
  have htopd : d.top = word c.memory (new + 64) := by
    have hrsp : d.reg .rsp = c.reg .rsp - 8 := by rw [hd, Cpu.push_rsp, hregb]
    rw [Cpu.top, hrsp, hsp, hmemd, word_setWord]
  have hrun : switchFlags c = d.popfq := by rw [hd, hb]; rfl
  have hmem : (switchFlags c).memory = d.memory := by rw [hrun, Cpu.popfq_memory]
  have hcr3 : (switchFlags c).cr3 = c.cr3 := by
    rw [hrun, Cpu.popfq_cr3, hd, Cpu.push_cr3, hb, Cpu.popTo, Cpu.store_cr3, Cpu.drop_cr3, Cpu.pushfq,
      Cpu.push_cr3]
  refine ⟨?_, hcr3, by rw [hrun, Cpu.popfq_rflags, htopd], ?_, ?_⟩
  · funext r
    by_cases hr : r = .rsp
    · rw [hrun, hr, Cpu.popfq_reg, Cpu.drop_rsp, hd, Cpu.push_rsp, hregb, UInt64.sub_add_cancel]
    · rw [hrun, Cpu.popfq_reg, Cpu.drop_other _ hr, hd, Cpu.push_other _ _ hr, hregb]
  · rw [hmem, hmemd, word_setWord_apart (by omega), hmemb, word_setWord]
  · intro x hx hx'
    rw [hmem, hmemd, setWord_outside (by omega), hmemb, setWord_outside (by omega), setWord_outside (by omega)]

/-- What a switch has done when it jumps to the hook. -/
structure Switched (c c' : Cpu) (old new : Nat) : Prop where
  loaded : ∀ p ∈ exchanged, c'.reg p.1 = word c.memory (new + p.2.toNat)
  saved : ∀ p ∈ exchanged, word c'.memory (old + p.2.toNat) = c.reg p.1
  flags : c'.rflags = word c.memory (new + 64)
  savedFlags : control (word c'.memory (old + 64)) = control c.rflags
  table : c'.cr3 = word c.memory new
  elsewhere : ∀ x, x < old + 8 ∨ old + 72 ≤ x →
    x < (word c.memory (new + 56)).toNat - 8 ∨ (word c.memory (new + 56)).toNat ≤ x → c'.memory x = c.memory x

theorem exchanged_regs : (∀ p ∈ exchanged, p.1 ≠ .rdi ∧ p.1 ≠ .rsi) ∧ (exchanged.map Prod.fst).Nodup ∧
    (exchanged.Pairwise fun p q => p.2.toNat + 8 ≤ q.2.toNat) ∧
    (∀ p ∈ exchanged, 8 ≤ p.2.toNat ∧ p.2.toNat + 8 ≤ 64) ∧ ∀ p ∈ exchanged, p.1 ≠ .rax ∧ p.1 ≠ .rcx := by decide

theorem switchTask_spec (hrec : Records c old new) (hroom : 8 ≤ (word c.memory (new + 56)).toNat)
    (hold : old + 72 ≤ (word c.memory (new + 56)).toNat - 8 ∨ (word c.memory (new + 56)).toNat ≤ old)
    (hnew : new + 72 ≤ (word c.memory (new + 56)).toNat - 8 ∨ (word c.memory (new + 56)).toNat ≤ new) :
    Switched c (switchTask c) old new := by
  obtain ⟨hregs, hnodup, hsorted, hbounds, hscratch⟩ := exchanged_regs
  obtain ⟨hmem₁, hcr3₁, hflags₁, hreg₁⟩ := switchTable_spec hrec
  have hrec₁ : Records (switchTable c) old new :=
    { hrec with
      oldAt := by rw [hreg₁ _ (by decide) (by decide), hrec.oldAt]
      newAt := by rw [hreg₁ _ (by decide) (by decide), hrec.newAt] }
  obtain ⟨hin₂, hout₂, hflags₂, hcr3₂, hframe₂⟩ := exchangeAll_spec 8 hrec₁ hregs hnodup hsorted
    fun p hp => ⟨(hbounds p hp).1, Nat.le_trans (hbounds p hp).2 (by decide)⟩
  rw [hmem₁] at hin₂ hframe₂
  have hrec₂ : Records (exchangeAll exchanged (switchTable c)) old new :=
    { hrec with
      oldAt := by rw [hout₂ _ (by decide), hrec₁.oldAt]
      newAt := by rw [hout₂ _ (by decide), hrec₁.newAt] }
  have hrsp : ((exchangeAll exchanged (switchTable c)).reg .rsp).toNat = (word c.memory (new + 56)).toNat :=
    congrArg UInt64.toNat (hin₂ (.rsp, 56) (by decide)).1
  obtain ⟨hreg₃, hcr3₃, hflags₃, hsaved₃, hframe₃⟩ := switchFlags_spec hrec₂ hrsp hroom hold hnew
  have hnewWord : ∀ a, new ≤ a → a + 8 ≤ new + 72 →
      word (exchangeAll exchanged (switchTable c)).memory a = word c.memory a := by
    intro a hlo hhi
    have hapart := hrec.apart
    exact word_congr fun x hx hx' => hframe₂ x (by omega)
  exact
    { loaded := fun p hp => by rw [switchTask, hreg₃]; exact (hin₂ p hp).1
      saved := by
        intro p hp
        have hbound := hbounds p hp
        have hkept : word (switchTask c).memory (old + p.2.toNat) =
            word (exchangeAll exchanged (switchTable c)).memory (old + p.2.toNat) :=
          word_congr fun x hx hx' => hframe₃ x (by omega) (by omega)
        have hold₁ : (switchTable c).reg p.1 = c.reg p.1 := hreg₁ _ (hscratch p hp).1 (hscratch p hp).2
        rw [hkept, (hin₂ p hp).2, hold₁]
      flags := by rw [switchTask, hflags₃, hnewWord _ (by omega) (by omega)]
      savedFlags := by rw [switchTask, hsaved₃, hflags₂, hflags₁]
      table := by rw [switchTask, hcr3₃, hcr3₂, hcr3₁]
      elsewhere := fun x hx hx' => by rw [switchTask, hframe₃ x (by omega) hx', hframe₂ x hx] }

end Switch

end Idkernel
