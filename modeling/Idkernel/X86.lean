import Mathlib.Algebra.Group.Nat.Defs
import Mathlib.Logic.Function.Basic
import Idkernel.Intrusive

/-!
# Some instructions of x86-64

Words of eight bytes in a memory of bytes, the general-purpose registers, and
the instructions that move words between the two or touch the flags. The words
of the FS segment are kept apart.
-/
namespace X86

open Intrusive

inductive Reg where
  | rax | rbx | rcx | rdx | rbp | rsi | rdi | rsp | r8 | r9 | r10 | r11 | r12 | r13 | r14 | r15
  deriving DecidableEq, Repr

/-! ## Words -/

def word (m : Bytes) (a : Nat) : UInt64 := .ofNat (number m a 8)

def setWord (m : Bytes) (a : Nat) (v : UInt64) : Bytes := setNumber m a 8 v.toNat

theorem word_setWord (m : Bytes) (a : Nat) (v : UInt64) : word (setWord m a v) a = v := by
  have hread : number (setNumber m a 8 v.toNat) a 8 = v.toNat := number_setNumber v.toNat_lt
  simp only [word, setWord, hread, UInt64.ofNat_toNat]

theorem setWord_outside {m : Bytes} {a x : Nat} {v : UInt64} (h : ¬ (a ≤ x ∧ x < a + 8)) :
    setWord m a v x = m x :=
  setNumber_outside h

theorem word_congr {m m' : Bytes} {a : Nat} (h : ∀ x, a ≤ x → x < a + 8 → m' x = m x) : word m' a = word m a := by
  simp only [word, number_congr h]

/-- Words that do not overlap. -/
theorem word_setWord_apart {m : Bytes} {a b : Nat} {v : UInt64} (h : a + 8 ≤ b ∨ b + 8 ≤ a) :
    word (setWord m b v) a = word m a := by
  refine word_congr fun x hx hx' => setWord_outside ?_
  omega

def words (m : Bytes) (a : Nat) : Nat → List UInt64
  | 0 => []
  | n + 1 => word m a :: words m (a + 8) n

theorem words_congr {m m' : Bytes} {a n : Nat} (h : ∀ x, a ≤ x → x < a + 8 * n → m' x = m x) :
    words m' a n = words m a n := by
  induction n generalizing a with
  | zero => rfl
  | succ n ih =>
    have hhead : word m' a = word m a := word_congr fun x hx hx' => h x hx (by omega)
    have htail : words m' (a + 8) n = words m (a + 8) n := ih fun x hx hx' => h x (by omega) (by omega)
    simp only [words, hhead, htail]

def setWords (m : Bytes) (a : Nat) : List UInt64 → Bytes
  | [] => m
  | v :: vs => setWord (setWords m (a + 8) vs) a v

theorem words_setWords (m : Bytes) (a : Nat) (vs : List UInt64) : words (setWords m a vs) a vs.length = vs := by
  induction vs generalizing a with
  | nil => rfl
  | cons v vs ih =>
    have htail : words (setWords m a (v :: vs)) (a + 8) vs.length =
      words (setWords m (a + 8) vs) (a + 8) vs.length :=
      words_congr fun x hx hx' => setWord_outside (by omega)
    rw [List.length_cons, words, htail, ih, setWords, word_setWord]

theorem setWords_outside {m : Bytes} {a x : Nat} {vs : List UInt64} (h : x < a ∨ a + 8 * vs.length ≤ x) :
    setWords m a vs x = m x := by
  induction vs generalizing a with
  | nil => rfl
  | cons v vs ih =>
    have hlen : (v :: vs).length = vs.length + 1 := rfl
    rw [setWords, setWord_outside (by omega), ih (by omega)]

/-! ## The processor -/

structure Cpu where
  reg : Reg → UInt64
  rflags : UInt64
  rip : UInt64
  cr3 : UInt64
  fs : Nat → UInt64
  memory : Bytes

/-- CF, PF, AF, ZF, SF and OF. -/
def ARITHMETIC : UInt64 := 0x8D5

def ZF : UInt64 := 0x40

/-- The flags that arithmetic leaves alone. -/
def control (rflags : UInt64) : UInt64 := rflags &&& ~~~ARITHMETIC

def flag (b : Bool) (mask : UInt64) : UInt64 := if b then mask else 0

/-- How `a - b` comes out. -/
def compared (a b : UInt64) : UInt64 :=
  let sign (v : UInt64) : Bool := v.toNat.testBit 63
  let ones := (List.range 8).countP fun i => (a - b).toNat.testBit i
  flag (decide (a < b)) 0x1 ||| flag (decide (ones % 2 = 0)) 0x4 ||| flag
    (decide (a &&& 0xF < b &&& 0xF)) 0x10 |||
    flag (decide (a = b)) ZF ||| flag (sign (a - b)) 0x80 |||
    flag (sign a != sign b && sign (a - b) != sign a) 0x800

namespace Cpu

def mov (c : Cpu) (r : Reg) (v : UInt64) : Cpu := { c with reg := Function.update c.reg r v }

def load (c : Cpu) (r : Reg) (a : UInt64) : Cpu := c.mov r (word c.memory a.toNat)

def store (c : Cpu) (a v : UInt64) : Cpu := { c with memory := setWord c.memory a.toNat v }

def cmp (c : Cpu) (a b : UInt64) : Cpu := { c with rflags := control c.rflags ||| compared a b }

def push (c : Cpu) (v : UInt64) : Cpu := (c.mov .rsp (c.reg .rsp - 8)).store (c.reg .rsp - 8) v

/-- The word at the top of the stack. -/
def top (c : Cpu) : UInt64 := word c.memory (c.reg .rsp).toNat

def drop (c : Cpu) : Cpu := c.mov .rsp (c.reg .rsp + 8)

def pop (c : Cpu) (r : Reg) : Cpu := c.drop.mov r c.top

def popTo (c : Cpu) (a : UInt64) : Cpu := c.drop.store a c.top

def pushfq (c : Cpu) : Cpu := c.push c.rflags

def popfq (c : Cpu) : Cpu := { c.drop with rflags := c.top }

def call (c : Cpu) (target : UInt64) : Cpu := { c.push c.rip with rip := target }

def ret (c : Cpu) : Cpu := { c.drop with rip := c.top }

def setFs (c : Cpu) (offset : Nat) (v : UInt64) : Cpu := { c with fs := Function.update c.fs offset v }

/-- The return address and the flags go to registers; `mask` are the flags that are cleared. -/
def syscall (c : Cpu) (entry mask : UInt64) : Cpu :=
  { (c.mov .rcx c.rip).mov .r11 c.rflags with rip := entry, rflags := c.rflags &&& ~~~mask }

def sysretq (c : Cpu) : Cpu := { c with rip := c.reg .rcx, rflags := c.reg .r11 &&& 0x3C7FD7 ||| 0x2 }

def zero (c : Cpu) : Bool := c.rflags &&& ZF ≠ 0

end Cpu

/-! ## Flags -/

theorem flags_arithmetic : ∀ b₁ b₂ b₃ b₄ b₅ b₆ : Bool,
    control (flag b₁ 0x1 ||| flag b₂ 0x4 ||| flag b₃ 0x10 ||| flag b₄ ZF ||| flag b₅ 0x80 ||| flag b₆ 0x800) = 0 ∧
    (flag b₁ 0x1 ||| flag b₂ 0x4 ||| flag b₃ 0x10 ||| flag b₄ ZF ||| flag b₅ 0x80 ||| flag b₆ 0x800) &&& ZF =
      flag b₄ ZF := by decide

theorem or_and (x y z : UInt64) : (x ||| y) &&& z = x &&& z ||| y &&& z := by
  refine UInt64.toBitVec_inj.mp ?_
  simp only [UInt64.toBitVec_and, UInt64.toBitVec_or]
  exact BitVec.and_or_distrib_right

theorem control_or (x y : UInt64) : control (x ||| y) = control x ||| control y := or_and x y _

theorem control_control (x : UInt64) : control (control x) = control x := by
  unfold control
  rw [UInt64.and_assoc, UInt64.and_self]

/-- Comparing leaves the other flags alone, -/
theorem Cpu.cmp_control (c : Cpu) (a b : UInt64) : control (c.cmp a b).rflags = control c.rflags := by
  have hclear : control (compared a b) = 0 := (flags_arithmetic _ _ _ _ _ _).1
  rw [cmp, control_or, control_control, hclear, UInt64.or_zero]

/-- and tells equal words from others. -/
theorem Cpu.cmp_zero (c : Cpu) (a b : UInt64) : (c.cmp a b).zero = decide (a = b) := by
  have hother : control c.rflags &&& ZF = 0 := by
    have hmask : ~~~ARITHMETIC &&& ZF = 0 := by decide
    rw [control, UInt64.and_assoc, hmask, UInt64.and_zero]
  have hzf : (c.cmp a b).rflags &&& ZF = flag (decide (a = b)) ZF := by
    rw [cmp, or_and, hother, UInt64.zero_or]
    exact (flags_arithmetic _ _ _ _ _ _).2
  rw [zero, hzf]
  cases decide (a = b)
  · rfl
  · rfl

/-! ## Stacks -/

namespace Cpu

@[simp] theorem mov_self (c : Cpu) (r : Reg) (v : UInt64) : (c.mov r v).reg r = v := Function.update_self ..
@[simp] theorem mov_other (c : Cpu) {r q : Reg} (v : UInt64) (h : q ≠ r) : (c.mov r v).reg q = c.reg q :=
  Function.update_of_ne h ..
@[simp] theorem mov_memory (c : Cpu) (r : Reg) (v : UInt64) : (c.mov r v).memory = c.memory := rfl
@[simp] theorem store_reg (c : Cpu) (a v : UInt64) : (c.store a v).reg = c.reg := rfl
@[simp] theorem store_memory (c : Cpu) (a v : UInt64) : (c.store a v).memory = setWord c.memory a.toNat v := rfl
@[simp] theorem cmp_reg (c : Cpu) (a b : UInt64) : (c.cmp a b).reg = c.reg := rfl
@[simp] theorem cmp_memory (c : Cpu) (a b : UInt64) : (c.cmp a b).memory = c.memory := rfl
@[simp] theorem cmp_cr3 (c : Cpu) (a b : UInt64) : (c.cmp a b).cr3 = c.cr3 := rfl
@[simp] theorem store_cr3 (c : Cpu) (a v : UInt64) : (c.store a v).cr3 = c.cr3 := rfl
@[simp] theorem push_cr3 (c : Cpu) (v : UInt64) : (c.push v).cr3 = c.cr3 := rfl
@[simp] theorem drop_cr3 (c : Cpu) : c.drop.cr3 = c.cr3 := rfl
@[simp] theorem ret_reg (c : Cpu) : c.ret.reg = c.drop.reg := rfl
@[simp] theorem popfq_cr3 (c : Cpu) : c.popfq.cr3 = c.cr3 := rfl
@[simp] theorem popfq_reg (c : Cpu) : c.popfq.reg = c.drop.reg := rfl
@[simp] theorem popfq_memory (c : Cpu) : c.popfq.memory = c.memory := rfl
@[simp] theorem popfq_rflags (c : Cpu) : c.popfq.rflags = c.top := rfl
@[simp] theorem push_rsp (c : Cpu) (v : UInt64) : (c.push v).reg .rsp = c.reg .rsp - 8 := by
  rw [push, store_reg, mov_self]
@[simp] theorem push_other (c : Cpu) {r : Reg} (v : UInt64) (h : r ≠ .rsp) : (c.push v).reg r = c.reg r := by
  rw [push, store_reg, mov_other _ _ h]
@[simp] theorem push_memory (c : Cpu) (v : UInt64) :
    (c.push v).memory = setWord c.memory (c.reg .rsp - 8).toNat v := rfl
@[simp] theorem drop_rsp (c : Cpu) : c.drop.reg .rsp = c.reg .rsp + 8 := mov_self ..
@[simp] theorem drop_other (c : Cpu) {r : Reg} (h : r ≠ .rsp) : c.drop.reg r = c.reg r := mov_other _ _ h
@[simp] theorem sysretq_reg (c : Cpu) : c.sysretq.reg = c.reg := rfl
@[simp] theorem drop_memory (c : Cpu) : c.drop.memory = c.memory := rfl

theorem below {a : UInt64} (h : 8 ≤ a.toNat) : (a - 8).toNat = a.toNat - 8 :=
  UInt64.toNat_sub_of_le a 8 (UInt64.le_iff_toNat_le.mpr h)

theorem above {a : UInt64} (h : a.toNat + 8 < 2 ^ 64) : (a + 8).toNat = a.toNat + 8 := by
  rw [UInt64.toNat_add]
  exact Nat.mod_eq_of_lt h

/-- Pushes the last register first. -/
def pushAll : List Reg → Cpu → Cpu
  | [], c => c
  | r :: rs, c => (pushAll rs c).push ((pushAll rs c).reg r)

def popAll : List Reg → Cpu → Cpu
  | [], c => c
  | r :: rs, c => popAll rs (c.pop r)

def movAll (ps : List (Reg × UInt64)) (c : Cpu) : Cpu := ps.foldl (fun c p => c.mov p.1 p.2) c

theorem movAll_spec {ps : List (Reg × UInt64)} (hnodup : (ps.map Prod.fst).Nodup) (c : Cpu) :
    (∀ p ∈ ps, (movAll ps c).reg p.1 = p.2) ∧ ∀ r, r ∉ ps.map Prod.fst → (movAll ps c).reg r = c.reg r := by
  induction ps generalizing c with
  | nil => exact ⟨fun p hp => by simp at hp, fun _ _ => rfl⟩
  | cons p ps ih =>
    obtain ⟨hnotin, hnodup⟩ := List.nodup_cons.mp hnodup
    obtain ⟨hin, hout⟩ := ih hnodup (c.mov p.1 p.2)
    constructor
    · intro q hq
      cases List.mem_cons.mp hq with
      | inl he =>
        rw [he]
        exact (hout p.1 hnotin).trans (mov_self c p.1 p.2)
      | inr hq => exact hin q hq
    · intro r hr
      obtain ⟨hrp, hrps⟩ := not_or.mp (fun h => hr (List.mem_cons.mpr h))
      exact (hout r hrps).trans (mov_other c p.2 hrp)

theorem movAll_rest (ps : List (Reg × UInt64)) (c : Cpu) :
    (movAll ps c).rflags = c.rflags ∧ (movAll ps c).fs = c.fs ∧ (movAll ps c).rip = c.rip := by
  induction ps generalizing c with
  | nil => exact ⟨rfl, rfl, rfl⟩
  | cons p ps ih => exact ih (c.mov p.1 p.2)

/-- The registers lie above each other in the order of the list. -/
theorem pushAll_spec {rs : List Reg} (hrsp : .rsp ∉ rs) {c : Cpu} (hroom : 8 * rs.length ≤ (c.reg .rsp).toNat) :
    ((pushAll rs c).reg .rsp).toNat = (c.reg .rsp).toNat - 8 * rs.length ∧
      (∀ r, r ≠ .rsp → (pushAll rs c).reg r = c.reg r) ∧
      words (pushAll rs c).memory ((pushAll rs c).reg .rsp).toNat rs.length = rs.map c.reg ∧
      ∀ x, x < (c.reg .rsp).toNat - 8 * rs.length ∨ (c.reg .rsp).toNat ≤ x →
      (pushAll rs c).memory x = c.memory x := by
  induction rs with
  | nil => exact ⟨rfl, fun _ _ => rfl, rfl, fun _ _ => rfl⟩
  | cons r rs ih =>
    have hlen : (r :: rs).length = rs.length + 1 := rfl
    obtain ⟨hr, hrs⟩ := not_or.mp (fun h => hrsp (List.mem_cons.mpr h))
    obtain ⟨hsp, hreg, hwords, hmem⟩ := ih hrs (by omega)
    have hbelow : ((pushAll rs c).reg .rsp - 8).toNat = (c.reg .rsp).toNat - 8 * (r :: rs).length := by
      rw [below (by omega)]
      omega
    refine ⟨by rw [pushAll, push_rsp, hbelow], fun q hq => by rw [pushAll, push_other _ _ hq, hreg q hq], ?_, ?_⟩
    · have hrest : words (setWord (pushAll rs c).memory ((pushAll rs c).reg .rsp - 8).toNat (c.reg r))
          ((pushAll rs c).reg .rsp).toNat rs.length = rs.map c.reg := by
        rw [← hwords]
        exact words_congr fun x hx hx' => setWord_outside (by omega)
      have hnext : ((pushAll rs c).reg .rsp - 8).toNat + 8 = ((pushAll rs c).reg .rsp).toNat := by omega
      rw [pushAll, push_rsp, push_memory, hreg r (Ne.symm hr), hlen, words, word_setWord, hnext, hrest]
      rfl
    · intro x hx
      rw [pushAll, push_memory, setWord_outside (by omega)]
      exact hmem x (by omega)

theorem popAll_spec {rs : List Reg} (hrsp : .rsp ∉ rs) (hnodup : rs.Nodup) {c : Cpu}
    (hroom : (c.reg .rsp).toNat + 8 * rs.length < 2 ^ 64) :
    ((popAll rs c).reg .rsp).toNat = (c.reg .rsp).toNat + 8 * rs.length ∧
      rs.map (popAll rs c).reg = words c.memory (c.reg .rsp).toNat rs.length ∧
      (∀ r, r ∉ rs → r ≠ .rsp → (popAll rs c).reg r = c.reg r) ∧ (popAll rs c).memory = c.memory := by
  induction rs generalizing c with
  | nil => exact ⟨rfl, rfl, fun _ _ _ => rfl, rfl⟩
  | cons r rs ih =>
    have hlen : (r :: rs).length = rs.length + 1 := rfl
    obtain ⟨hr, hrs⟩ := not_or.mp (fun h => hrsp (List.mem_cons.mpr h))
    obtain ⟨hnotin, hnodup⟩ := List.nodup_cons.mp hnodup
    have hsp₁ : ((c.pop r).reg .rsp).toNat = (c.reg .rsp).toNat + 8 := by
      rw [pop, mov_other _ _ hr, drop_rsp, above (by omega)]
    obtain ⟨hsp, hwords, hreg, hmem⟩ := ih (c := c.pop r) hrs hnodup (by omega)
    refine ⟨by rw [popAll, hsp]; omega, ?_, ?_, hmem⟩
    · have hhead : (popAll rs (c.pop r)).reg r = word c.memory (c.reg .rsp).toNat := by
        rw [hreg r hnotin (Ne.symm hr)]
        exact mov_self ..
      have htail : rs.map (popAll rs (c.pop r)).reg = words c.memory ((c.reg .rsp).toNat + 8) rs.length := by
        rw [hwords, hsp₁]
        rfl
      rw [List.map_cons, popAll, hhead, htail, hlen, words]
    · intro q hq hqsp
      obtain ⟨hqr, hqrs⟩ := not_or.mp (fun h => hq (List.mem_cons.mpr h))
      rw [popAll, hreg q hqrs hqsp, pop, mov_other _ _ hqr, drop_other _ hqsp]

theorem pushAll_rest (rs : List Reg) (c : Cpu) :
    (pushAll rs c).rflags = c.rflags ∧ (pushAll rs c).fs = c.fs ∧ (pushAll rs c).rip = c.rip := by
  induction rs with
  | nil => exact ⟨rfl, rfl, rfl⟩
  | cons r rs ih => exact ih

theorem popAll_rest (rs : List Reg) (c : Cpu) :
    (popAll rs c).rflags = c.rflags ∧ (popAll rs c).fs = c.fs ∧ (popAll rs c).memory = c.memory := by
  induction rs generalizing c with
  | nil => exact ⟨rfl, rfl, rfl⟩
  | cons r rs ih => exact ih (c.pop r)

end Cpu

end X86
