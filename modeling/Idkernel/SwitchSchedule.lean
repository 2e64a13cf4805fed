import Idkernel.ContextSwitch

/-!
# Schedules of kernel contexts

Tasks are created, run, and hand over to each other. A task that was switched
out finds, when control comes back, its registers, its flags, its page table
and its stack as they were.
-/
namespace Idkernel

open Intrusive X86 ContextRegs

/-! ## Tasks -/

/-- Where the record and the kernel stack of a task lie. -/
structure Place where
  record : Nat
  stack : Nat
  limit : Nat
  recordRoom : record + 72 < 2 ^ 64
  stackRoom : stack + 16 ≤ limit
  limitRoom : limit < 2 ^ 64
  apart : record + 72 ≤ stack ∨ limit ≤ record

def Place.owns (p : Place) (x : Nat) : Prop := p.record ≤ x ∧ x < p.record + 72 ∨ p.stack ≤ x ∧ x < p.limit

def Place.Apart (p q : Place) : Prop := ∀ x, p.owns x → ¬ q.owns x

theorem Place.Apart.symm {p q : Place} (h : p.Apart q) : q.Apart p := fun x hq hp => h x hp hq

inductive Context where
  | fresh : UInt64 → UInt64 → Context
  | running
  | switchedOut : Cpu → Context

/-- The part of `TaskContext::create` that concerns the context. -/
def createContext (func table : UInt64) (p : Place) (memory : Bytes) : Bytes :=
  let regs : ContextRegs := {}
  let regs := { regs with cr3 := table }
  let regs := { regs with rsp := UInt64.ofNat p.limit }
  let (regs, memory) := regs.pushStack memory func
  setWords memory p.record regs.words

/-! ## Steps -/

structure Schedule (T : Type) where
  cpu : Cpu
  current : T
  tasks : T → Option (Place × Context)

variable {T : Type}

/-- Nothing that belongs to a task other than `t` is touched. -/
def Spares (tasks : T → Option (Place × Context)) (t : T) (m m' : Bytes) : Prop :=
  ∀ u q ctx, tasks u = some (q, ctx) → u ≠ t → ∀ x, q.owns x → m' x = m x

/-- The call of `switch_task` with the two records. -/
def calling (c : Cpu) (old new : Place) (target : UInt64) : Cpu :=
  let c := c.mov .rdi (UInt64.ofNat old.record)
  let c := c.mov .rsi (UInt64.ofNat new.record)
  c.call target

/-- Callee-saved registers. -/
def PRESERVED : List Reg := [.rbx, .rbp, .r12, .r13, .r14, .r15]

/-- The hook is a C function on the stack of task `t`: it leaves alone what callers rely on, and
what belongs to others. -/
structure Hooked (tasks : T → Option (Place × Context)) (t : T) (p : Place) (c c' : Cpu) : Prop where
  preserved : ∀ r ∈ PRESERVED, c'.reg r = c.reg r
  rsp : c'.reg .rsp = c.reg .rsp
  flags : control c'.rflags = control c.rflags
  cr3 : c'.cr3 = c.cr3
  live : ∀ x, (c.reg .rsp).toNat ≤ x → x < p.limit → c'.memory x = c.memory x
  others : Spares tasks t c.memory c'.memory

variable [DecidableEq T]

/-- The tasks after a switch; one that is dying is removed. -/
def handOver (s : Schedule T) (q : Place) (t : T) (p : Place) (dying : Bool) : T → Option (Place × Context) :=
  Function.update (Function.update s.tasks s.current (if dying then none else some (q, .switchedOut s.cpu))) t
    (some (p, .running))

/-- Control goes from the running task to `t`. -/
inductive Switch (s : Schedule T) (t : T) (s' : Schedule T) : Prop where
  | intro {q p : Place} {ctx : Context} {dying : Bool} {target : UInt64} {c : Cpu} :
    s.tasks s.current = some (q, .running) → s.tasks t = some (p, ctx) → t ≠ s.current →
    q.stack + 16 ≤ (s.cpu.reg .rsp).toNat → (s.cpu.reg .rsp).toNat ≤ q.limit →
    Hooked (handOver s q t p dying) t p (switchTask (calling s.cpu q p target)) c →
    s' = ⟨c.ret, t, handOver s q t p dying⟩ → Switch s t s'

inductive Step : Schedule T → Schedule T → Prop where
  | work {s : Schedule T} {c : Cpu} : Spares s.tasks s.current s.cpu.memory c.memory → Step s { s with cpu := c }
  | create {s : Schedule T} {t : T} {p : Place} {func table : UInt64} :
    s.tasks t = none → (∀ u q ctx, s.tasks u = some (q, ctx) → p.Apart q) →
    Step s { s with
      cpu := { s.cpu with memory := createContext func table p s.cpu.memory }
      tasks := Function.update s.tasks t (some (p, .fresh func table)) }
  | switch {s s' : Schedule T} {t : T} : Switch s t s' → Step s s'

/-- Only the initial task is there, and runs. -/
def Schedule.Initial (s : Schedule T) : Prop :=
  ∃ p, s.tasks = fun t => if t = s.current then some (p, .running) else none

/-! ## What a task finds -/

/-- The state a task comes back to, from the one it called `switch_task` in. -/
structure Resumed (p : Place) (before after : Cpu) : Prop where
  preserved : ∀ r ∈ PRESERVED, after.reg r = before.reg r
  rsp : after.reg .rsp = before.reg .rsp
  flags : control after.rflags = control before.rflags
  cr3 : after.cr3 = word before.memory p.record
  rip : after.rip = before.rip
  live : ∀ x, (before.reg .rsp).toNat ≤ x → x < p.limit → after.memory x = before.memory x

/-- The state a task begins in. -/
structure Begun (p : Place) (func table : UInt64) (after : Cpu) : Prop where
  rip : after.rip = func
  rsp : (after.reg .rsp).toNat = p.limit
  cr3 : after.cr3 = table

/-- What the record and the stack of a waiting task hold. -/
def Waiting (p : Place) (m : Bytes) : Context → Prop
  | .fresh func table =>
    word m p.record = table ∧ (word m (p.record + 56)).toNat = p.limit - 8 ∧ word m (p.limit - 8) = func
  | .running => True
  | .switchedOut c =>
    (p.stack + 16 ≤ (c.reg .rsp).toNat ∧ (c.reg .rsp).toNat ≤ p.limit) ∧
    word m p.record = word c.memory p.record ∧
    (∀ r offset, (r, offset) ∈ exchanged → r ≠ .rsp → word m (p.record + offset.toNat) = c.reg r) ∧
    (word m (p.record + 56)).toNat = (c.reg .rsp).toNat - 8 ∧
    control (word m (p.record + 64)) = control c.rflags ∧
    word m ((c.reg .rsp).toNat - 8) = c.rip ∧
    ∀ x, (c.reg .rsp).toNat ≤ x → x < p.limit → m x = c.memory x

theorem Waiting.frame {p : Place} {m m' : Bytes} {ctx : Context} (h : Waiting p m ctx)
    (hsame : ∀ x, p.owns x → m' x = m x) : Waiting p m' ctx := by
  have hrecord : ∀ a, p.record ≤ a → a + 8 ≤ p.record + 72 → word m' a = word m a := fun a hlo hhi =>
    word_congr fun x hx hx' => hsame x (.inl ⟨by omega, by omega⟩)
  have hstack : ∀ a, p.stack ≤ a → a + 8 ≤ p.limit → word m' a = word m a := fun a hlo hhi =>
    word_congr fun x hx hx' => hsame x (.inr ⟨by omega, by omega⟩)
  have hroom := p.stackRoom
  cases ctx with
  | running => trivial
  | fresh func table =>
    obtain ⟨hcr3, hrsp, hfunc⟩ := h
    exact ⟨by rw [hrecord _ (by omega) (by omega), hcr3], by rw [hrecord _ (by omega) (by omega), hrsp],
      by rw [hstack _ (by omega) (by omega), hfunc]⟩
  | switchedOut c =>
    obtain ⟨hin, hcr3, hregs, hrsp, hflags, hrip, hlive⟩ := h
    refine ⟨hin, by rw [hrecord _ (by omega) (by omega), hcr3], ?_, by rw [hrecord _ (by omega) (by omega), hrsp],
      by rw [hrecord _ (by omega) (by omega), hflags], by rw [hstack _ (by omega) (by omega), hrip], ?_⟩
    · intro r offset hmem hne
      have hbound := exchanged_regs.2.2.2.1 _ hmem
      dsimp only at hbound
      rw [hrecord _ (by omega) (by omega), hregs r offset hmem hne]
    · intro x hx hx'
      rw [hsame x (.inr ⟨by omega, hx'⟩), hlive x hx hx']

/-- Every waiting task is intact, and no two tasks share memory. -/
structure Intact (s : Schedule T) : Prop where
  running : ∃ p, s.tasks s.current = some (p, .running)
  waiting : ∀ t p ctx, s.tasks t = some (p, ctx) → t ≠ s.current → ctx ≠ .running ∧ Waiting p s.cpu.memory ctx
  apart : ∀ t u p q ctx ctx', s.tasks t = some (p, ctx) → s.tasks u = some (q, ctx') → t ≠ u → p.Apart q

/-! ## Creating -/

theorem createContext_outside {func table : UInt64} {p : Place} {m : Bytes} {x : Nat} (h : ¬ p.owns x) :
    createContext func table p m x = m x := by
  have hroom := p.stackRoom
  have hlimit := p.limitRoom
  have hsp : (UInt64.ofNat p.limit - 8).toNat = p.limit - 8 := by
    have hnat : (UInt64.ofNat p.limit).toNat = p.limit := UInt64.toNat_ofNat_of_lt hlimit
    rw [Cpu.below (by omega), hnat]
  simp only [Place.owns] at h
  simp only [createContext, pushStack]
  rw [setWords_outside (by simp only [ContextRegs.words, List.length_cons, List.length_nil]; omega), hsp,
    setWord_outside (by omega)]

theorem createContext_waiting (func table : UInt64) (p : Place) (m : Bytes) :
    Waiting p (createContext func table p m) (.fresh func table) := by
  have hroom := p.stackRoom
  have hlimit := p.limitRoom
  have hapart := p.apart
  have hsp : (UInt64.ofNat p.limit - 8).toNat = p.limit - 8 := by
    have hnat : (UInt64.ofNat p.limit).toNat = p.limit := UInt64.toNat_ofNat_of_lt hlimit
    rw [Cpu.below (by omega), hnat]
  have hwords := words_setWords (setWord m (p.limit - 8) func) p.record
    (ContextRegs.words { cr3 := table, rsp := UInt64.ofNat p.limit - 8 })
  simp only [ContextRegs.words, List.length_cons, List.length_nil, Nat.zero_add, Nat.reduceAdd, X86.words,
    Nat.add_assoc, List.cons.injEq] at hwords
  obtain ⟨hcr3, _, _, _, _, _, _, hrsp, _, _⟩ := hwords
  simp only [Waiting, createContext, pushStack, hsp]
  refine ⟨hcr3, (congrArg UInt64.toNat hrsp).trans hsp, ?_⟩
  have hkept : word (setWords (setWord m (p.limit - 8) func) p.record
      (ContextRegs.words { cr3 := table, rsp := UInt64.ofNat p.limit - 8 })) (p.limit - 8) =
      word (setWord m (p.limit - 8) func) (p.limit - 8) := by
    refine word_congr fun x hx hx' => setWords_outside ?_
    simp only [ContextRegs.words, List.length_cons, List.length_nil]
    omega
  exact hkept.trans (word_setWord _ _ _)

/-! ## Switching -/

/-- A waiting task has room for one word below its stack pointer, and a word above it. -/
theorem Waiting.top {p : Place} {m : Bytes} {ctx : Context} (h : Waiting p m ctx) (hctx : ctx ≠ .running) :
    p.stack + 8 ≤ (word m (p.record + 56)).toNat ∧ (word m (p.record + 56)).toNat + 8 ≤ p.limit := by
  have hroom := p.stackRoom
  cases ctx with
  | running => exact absurd rfl hctx
  | fresh func table =>
    obtain ⟨_, hrsp, _⟩ := h
    omega
  | switchedOut c =>
    obtain ⟨hin, _, _, hrsp, _⟩ := h
    omega

/-- Places that are apart have their records and stacks apart. -/
theorem Place.Apart.ranges {p q : Place} (h : p.Apart q) :
    (p.record + 72 ≤ q.record ∨ q.record + 72 ≤ p.record) ∧ (p.record + 72 ≤ q.stack ∨ q.limit ≤ p.record) ∧
      (q.record + 72 ≤ p.stack ∨ p.limit ≤ q.record) ∧ (p.limit ≤ q.stack ∨ q.limit ≤ p.stack) := by
  have hroom := p.stackRoom
  have hroom' := q.stackRoom
  have hat : ∀ x, ¬ (p.owns x ∧ q.owns x) := fun x hx => h x hx.1 hx.2
  simp only [Place.owns] at hat
  have h₁ := hat (max p.record q.record)
  have h₂ := hat (max p.record q.stack)
  have h₃ := hat (max q.record p.stack)
  have h₄ := hat (max p.stack q.stack)
  omega

section Calls

variable {c : Cpu} {q p : Place} {target : UInt64}

theorem calling_records (c : Cpu) (target : UInt64) (hapart : q.Apart p) :
    Records (calling c q p target) q.record p.record where
  oldAt := UInt64.toNat_ofNat_of_lt (Nat.lt_of_le_of_lt (Nat.le_add_right _ 72) q.recordRoom)
  newAt := UInt64.toNat_ofNat_of_lt (Nat.lt_of_le_of_lt (Nat.le_add_right _ 72) p.recordRoom)
  oldRoom := q.recordRoom
  newRoom := p.recordRoom
  apart := hapart.ranges.1

/-- The call leaves the return address below the stack pointer. -/
theorem calling_memory (q p : Place) (target : UInt64) (hroom : 8 ≤ (c.reg .rsp).toNat) :
    (calling c q p target).memory = setWord c.memory ((c.reg .rsp).toNat - 8) c.rip := by
  have hsp : (c.reg .rsp - 8).toNat = (c.reg .rsp).toNat - 8 := Cpu.below hroom
  rw [← hsp]
  rfl

theorem calling_reg {r : Reg} (hrdi : r ≠ .rdi) (hrsi : r ≠ .rsi) (hrsp : r ≠ .rsp) :
    (calling c q p target).reg r = c.reg r := by
  simp only [calling, Cpu.call]
  rw [Cpu.push_other _ _ hrsp, Cpu.mov_other _ _ hrsi, Cpu.mov_other _ _ hrdi]

theorem calling_rsp : (calling c q p target).reg .rsp = c.reg .rsp - 8 := by
  simp only [calling, Cpu.call]
  rw [Cpu.push_rsp, Cpu.mov_other _ _ (by decide), Cpu.mov_other _ _ (by decide)]

end Calls

variable {s s' : Schedule T} {t : T}

omit [DecidableEq T] in
/-- What the switch has done when the hook runs, and what it has left alone. -/
theorem switch_call (target : UInt64) (hI : Intact s) {q p : Place} {ctx : Context}
    (hq : s.tasks s.current = some (q, .running)) (hp : s.tasks t = some (p, ctx)) (hne : t ≠ s.current)
    (hlo : q.stack + 16 ≤ (s.cpu.reg .rsp).toNat) (hhi : (s.cpu.reg .rsp).toNat ≤ q.limit) :
    Switched (calling s.cpu q p target) (switchTask (calling s.cpu q p target)) q.record p.record ∧
      (∀ x, p.owns x → (calling s.cpu q p target).memory x = s.cpu.memory x) ∧
      (∀ x, ¬ q.owns x → ¬ p.owns x → (switchTask (calling s.cpu q p target)).memory x = s.cpu.memory x) ∧
      ∀ x, q.owns x → x < q.record + 8 ∨ q.record + 72 ≤ x →
        (switchTask (calling s.cpu q p target)).memory x = (calling s.cpu q p target).memory x := by
  have hapart : q.Apart p := hI.apart _ _ _ _ _ _ hq hp (Ne.symm hne)
  have hranges := hapart.ranges
  have hown := p.apart
  obtain ⟨hctx, hwait⟩ := hI.waiting t p ctx hp hne
  obtain ⟨htop, htop'⟩ := hwait.top hctx
  have hmem := calling_memory (c := s.cpu) q p target (by omega)
  have hsame : ∀ x, ¬ q.owns x → (calling s.cpu q p target).memory x = s.cpu.memory x := by
    intro x hx
    simp only [Place.owns] at hx
    rw [hmem, setWord_outside (by omega)]
  have hnew : ∀ x, p.owns x → (calling s.cpu q p target).memory x = s.cpu.memory x :=
    fun x hx => hsame x (hapart.symm x hx)
  have hword : word (calling s.cpu q p target).memory (p.record + 56) = word s.cpu.memory (p.record + 56) :=
    word_congr fun x hx hx' => hnew x (.inl ⟨by omega, by omega⟩)
  have hsw := switchTask_spec (calling_records s.cpu target hapart) (by rw [hword]; omega)
    (by rw [hword]; omega) (by rw [hword]; omega)
  have helse := hsw.elsewhere
  rw [hword] at helse
  refine ⟨hsw, hnew, fun x hxq hxp => ?_, fun x hx hout => ?_⟩
  · rw [← hsame x hxq]
    simp only [Place.owns] at hxq hxp
    exact helse x (by omega) (by omega)
  · have hxp := hapart x hx
    simp only [Place.owns] at hxp
    exact helse x hout (by omega)

theorem preserved_exchanged : ∀ r ∈ PRESERVED, r ∈ exchanged.map Prod.fst ∧ r ≠ .rsp := by decide

/-- The machine has what the record of a task holds, and above its stack pointer nothing was written. -/
structure Restored (p : Place) (m : Bytes) (c : Cpu) : Prop where
  rsp : c.reg .rsp = word m (p.record + 56)
  regs : ∀ r ∈ PRESERVED, ∀ offset, (r, offset) ∈ exchanged → c.reg r = word m (p.record + offset.toNat)
  flags : control c.rflags = control (word m (p.record + 64))
  cr3 : c.cr3 = word m p.record
  live : ∀ x, (word m (p.record + 56)).toNat ≤ x → x < p.limit → c.memory x = m x

omit [DecidableEq T] in
/-- The hook returns with the machine as the switch has loaded it. -/
theorem switch_restored {target : UInt64} {tasks : T → Option (Place × Context)} {q p : Place} {c₀ c : Cpu}
    (hapart : q.Apart p)
    (hsw : Switched (calling c₀ q p target) (switchTask (calling c₀ q p target)) q.record p.record)
    (hhook : Hooked tasks t p (switchTask (calling c₀ q p target)) c)
    (htop : p.stack ≤ (word (calling c₀ q p target).memory (p.record + 56)).toNat) :
    Restored p (calling c₀ q p target).memory c where
  rsp := hhook.rsp.trans (hsw.loaded (.rsp, 56) (by decide))
  regs r hr offset hpair := by
    rw [hhook.preserved r hr]
    exact hsw.loaded (r, offset) hpair
  flags := by rw [hhook.flags, hsw.flags]
  cr3 := hhook.cr3.trans hsw.table
  live := by
    intro x hx hx'
    have hloaded : (switchTask (calling c₀ q p target)).reg .rsp = _ := hsw.loaded (.rsp, 56) (by decide)
    have hranges := hapart.ranges
    rw [hhook.live x (by rw [hloaded]; exact hx) hx']
    exact hsw.elsewhere x (by omega) (.inr hx)

namespace Restored

variable {p : Place} {m : Bytes} {c : Cpu}

theorem top (h : Restored p m c) (hroom : (word m (p.record + 56)).toNat + 8 ≤ p.limit) :
    c.top = word m (word m (p.record + 56)).toNat := by
  rw [Cpu.top, h.rsp]
  exact word_congr fun x hx hx' => h.live x hx (by omega)

theorem begins {func table : UInt64} (h : Restored p m c) (hwait : Waiting p m (.fresh func table)) :
    Begun p func table c.ret := by
  obtain ⟨_, hroom⟩ := hwait.top nofun
  obtain ⟨htable, hsp, hfunc⟩ := hwait
  have hlimit := p.limitRoom
  have hdrop : c.ret.reg .rsp = c.reg .rsp + 8 := by rw [Cpu.ret_reg, Cpu.drop_rsp]
  exact
    { rip := by
        rw [← hfunc, ← hsp]
        exact h.top hroom
      rsp := by
        rw [hdrop, h.rsp, Cpu.above (by omega)]
        omega
      cr3 := h.cr3.trans htable }

theorem resumes {before : Cpu} (h : Restored p m c) (hwait : Waiting p m (.switchedOut before)) :
    Resumed p before c.ret := by
  obtain ⟨_, hroom⟩ := hwait.top nofun
  obtain ⟨hin, htable, hregs, hsp, hflags, hret, hmem⟩ := hwait
  have hlimit := p.limitRoom
  have hdrop : c.ret.reg .rsp = c.reg .rsp + 8 := by rw [Cpu.ret_reg, Cpu.drop_rsp]
  exact
    { preserved := by
        intro r hr
        obtain ⟨hmem, hrsp⟩ := preserved_exchanged r hr
        obtain ⟨⟨r', offset⟩, hpair, he⟩ := List.mem_map.mp hmem
        obtain rfl : r' = r := he
        have hkept : c.ret.reg r' = c.reg r' := by rw [Cpu.ret_reg, Cpu.drop_other c hrsp]
        rw [hkept, h.regs _ hr offset hpair, hregs _ offset hpair hrsp]
      rsp := by
        refine UInt64.toNat_inj.mp ?_
        rw [hdrop, h.rsp, Cpu.above (by omega)]
        omega
      flags := by
        have hloaded := h.flags
        rw [hflags] at hloaded
        exact hloaded
      cr3 := h.cr3.trans htable
      rip := by
        rw [← hret, ← hsp]
        exact h.top hroom
      live := fun x hx hx' => (h.live x (by omega) hx').trans (hmem x hx hx') }

end Restored

/-- Control comes back to where it left, or begins at the pushed function. -/
theorem switch_resumes (hI : Intact s) (h : Switch s t s') :
    ∃ p ctx, s.tasks t = some (p, ctx) ∧ match ctx with
      | .switchedOut before => Resumed p before s'.cpu
      | .fresh func table => Begun p func table s'.cpu
      | .running => False := by
  obtain @⟨q, p, ctx, dying, target, c, hq, hp, hne, hlo, hhi, hhook, rfl⟩ := h
  obtain ⟨hsw, hnew, _, _⟩ := switch_call target hI hq hp hne hlo hhi
  obtain ⟨hctx, hwait⟩ := hI.waiting t p ctx hp hne
  have hwait' : Waiting p (calling s.cpu q p target).memory ctx := hwait.frame hnew
  obtain ⟨htop, _⟩ := hwait'.top hctx
  have hapart : q.Apart p := hI.apart _ _ _ _ _ _ hq hp (Ne.symm hne)
  have hrestored := switch_restored hapart hsw hhook (by omega)
  refine ⟨p, ctx, hp, ?_⟩
  cases ctx with
  | running => exact hctx rfl
  | fresh func table => exact hrestored.begins hwait'
  | switchedOut before => exact hrestored.resumes hwait'

/-! ## Runs -/

theorem Schedule.Initial.intact (h : s.Initial) : Intact s := by
  obtain ⟨p, htasks⟩ := h
  have honly : ∀ t q ctx, s.tasks t = some (q, ctx) → t = s.current := by
    intro t q ctx ht
    by_contra hne
    simp [htasks, hne] at ht
  exact
    { running := ⟨p, by simp [htasks]⟩
      waiting := fun t q ctx ht hne => absurd (honly t q ctx ht) hne
      apart := fun t u q r ctx ctx' ht hu hne => absurd
        ((honly t q ctx ht).trans (honly u r ctx' hu).symm) hne }

omit [DecidableEq T] in
theorem work_intact (hI : Intact s) {c : Cpu} (h : Spares s.tasks s.current s.cpu.memory c.memory) :
    Intact { s with cpu := c } where
  running := hI.running
  waiting := fun t p ctx ht hne =>
    ⟨(hI.waiting t p ctx ht hne).1, (hI.waiting t p ctx ht hne).2.frame (h t p ctx ht hne)⟩
  apart := hI.apart

theorem create_intact (hI : Intact s) {p : Place} {func table : UInt64} (hnew : s.tasks t = none)
    (hfree : ∀ u q ctx, s.tasks u = some (q, ctx) → p.Apart q) :
    Intact { s with
      cpu := { s.cpu with memory := createContext func table p s.cpu.memory }
      tasks := Function.update s.tasks t (some (p, .fresh func table)) } := by
  obtain ⟨own, hown⟩ := hI.running
  have hcur : s.current ≠ t := fun he => by simp [he, hnew] at hown
  have hcases : ∀ u q ctx, Function.update s.tasks t (some (p, .fresh func table)) u = some (q, ctx) →
      u = t ∧ q = p ∧ ctx = .fresh func table ∨ u ≠ t ∧ s.tasks u = some (q, ctx) := by
    intro u q ctx hu
    by_cases he : u = t
    · subst he
      rw [Function.update_self] at hu
      cases hu
      exact .inl ⟨rfl, rfl, rfl⟩
    · rw [Function.update_of_ne he] at hu
      exact .inr ⟨he, hu⟩
  refine ⟨⟨own, ?_⟩, fun u q ctx hu hne => ?_, fun u v q r ctx ctx' hu hv hne => ?_⟩
  · dsimp only
    rw [Function.update_of_ne hcur, hown]
  · obtain ⟨rfl, rfl, rfl⟩ | ⟨_, hold⟩ := hcases u q ctx hu
    · exact ⟨Context.noConfusion, createContext_waiting _ _ _ _⟩
    · obtain ⟨hctx, hwait⟩ := hI.waiting u q ctx hold hne
      exact ⟨hctx, hwait.frame fun x hx => createContext_outside fun hp => hfree u q ctx hold x hp hx⟩
  · obtain ⟨rfl, rfl, _⟩ | ⟨_, hold⟩ := hcases u q ctx hu
    · obtain ⟨rfl, _⟩ | ⟨_, hold'⟩ := hcases v r ctx' hv
      · exact absurd rfl hne
      · exact hfree v r ctx' hold'
    · obtain ⟨rfl, rfl, _⟩ | ⟨_, hold'⟩ := hcases v r ctx' hv
      · exact (hfree u q ctx hold).symm
      · exact hI.apart u v q r ctx ctx' hold hold' hne

omit [DecidableEq T] in
/-- A task that hands over leaves its context behind. -/
theorem switch_leaves (hI : Intact s) {q p : Place} {ctx : Context} {target : UInt64}
    (hq : s.tasks s.current = some (q, .running)) (hp : s.tasks t = some (p, ctx)) (hne : t ≠ s.current)
    (hlo : q.stack + 16 ≤ (s.cpu.reg .rsp).toNat) (hhi : (s.cpu.reg .rsp).toNat ≤ q.limit) :
    Waiting q (switchTask (calling s.cpu q p target)).memory (.switchedOut s.cpu) := by
  obtain ⟨hsw, _, _, hold⟩ := switch_call target hI hq hp hne hlo hhi
  have hmem := calling_memory (c := s.cpu) q p target (by omega)
  have hown := q.apart
  have hsp : (s.cpu.reg .rsp - 8).toNat = (s.cpu.reg .rsp).toNat - 8 := Cpu.below (by omega)
  -- the first word of the record is not written, and neither is the stack after the call.
  have hrecord : word (switchTask (calling s.cpu q p target)).memory q.record = word s.cpu.memory q.record := by
    refine word_congr fun x hx hx' => ?_
    rw [hold x (.inl ⟨by omega, by omega⟩) (by omega), hmem, setWord_outside (by omega)]
  have hstack : ∀ x, q.stack ≤ x → x < q.limit →
      (switchTask (calling s.cpu q p target)).memory x = (calling s.cpu q p target).memory x :=
    fun x hx hx' => hold x (.inr ⟨hx, hx'⟩) (by omega)
  have hret : word (switchTask (calling s.cpu q p target)).memory ((s.cpu.reg .rsp).toNat - 8) = s.cpu.rip := by
    have hpushed : word (switchTask (calling s.cpu q p target)).memory ((s.cpu.reg .rsp).toNat - 8) =
        word (calling s.cpu q p target).memory ((s.cpu.reg .rsp).toNat - 8) :=
      word_congr fun x hx hx' => hstack x (by omega) (by omega)
    rw [hpushed, hmem, word_setWord]
  refine ⟨⟨hlo, hhi⟩, hrecord, ?_, ?_, hsw.savedFlags, hret, ?_⟩
  · intro r offset hpair hrsp
    obtain ⟨hrdi, hrsi⟩ := exchanged_regs.1 (r, offset) hpair
    rw [hsw.saved (r, offset) hpair, calling_reg hrdi hrsi hrsp]
  · have hsaved := hsw.saved (.rsp, 56) (by decide)
    rw [calling_rsp] at hsaved
    exact (congrArg UInt64.toNat hsaved).trans hsp
  · intro x hx hx'
    rw [hstack x (by omega) hx', hmem, setWord_outside (by omega)]

theorem handOver_cases {q p : Place} {dying : Bool} {u : T} {r : Place} {ctx : Context}
    (h : handOver s q t p dying u = some (r, ctx)) (hne : u ≠ t) :
    u = s.current ∧ r = q ∧ ctx = .switchedOut s.cpu ∨ u ≠ s.current ∧ s.tasks u = some (r, ctx) := by
  rw [handOver, Function.update_of_ne hne] at h
  by_cases hu : u = s.current
  · subst hu
    rw [Function.update_self] at h
    cases dying with
    | true => cases h
    | false =>
      cases h
      exact .inl ⟨rfl, rfl, rfl⟩
  · rw [Function.update_of_ne hu] at h
    exact .inr ⟨hu, h⟩

/-- Tasks keep their places. -/
theorem handOver_place {q p : Place} {ctx : Context} (hq : s.tasks s.current = some (q, .running))
    (hp : s.tasks t = some (p, ctx)) {dying : Bool} {u : T} {r : Place} {ctx' : Context}
    (hu : handOver s q t p dying u = some (r, ctx')) : ∃ ctx'', s.tasks u = some (r, ctx'') := by
  have hself : handOver s q t p dying t = some (p, .running) := Function.update_self ..
  by_cases hut : u = t
  · subst hut
    obtain ⟨rfl, _⟩ := Prod.mk.inj (Option.some.inj (hself.symm.trans hu))
    exact ⟨ctx, hp⟩
  · obtain ⟨rfl, rfl, _⟩ | ⟨_, hold⟩ := handOver_cases hu hut
    · exact ⟨_, hq⟩
    · exact ⟨_, hold⟩

theorem switch_intact (hI : Intact s) (h : Switch s t s') : Intact s' := by
  obtain @⟨q, p, ctx, dying, target, c, hq, hp, hne, hlo, hhi, hhook, rfl⟩ := h
  obtain ⟨_, _, hothers, _⟩ := switch_call target hI hq hp hne hlo hhi
  have hself : handOver s q t p dying t = some (p, .running) := Function.update_self ..
  refine ⟨⟨p, hself⟩, fun u r ctx' hu hut => ?_, fun u v r r' ctx' ctx'' hu hv huv => ?_⟩
  · have hkept := hhook.others u r ctx' hu hut
    obtain ⟨rfl, rfl, rfl⟩ | ⟨hcur, hold⟩ := handOver_cases hu hut
    · exact ⟨Context.noConfusion, (switch_leaves hI hq hp hne hlo hhi).frame hkept⟩
    · obtain ⟨hctx, hwait⟩ := hI.waiting u r ctx' hold hcur
      refine ⟨hctx, hwait.frame fun x hx => (hkept x hx).trans (hothers x ?_ ?_)⟩
      · exact (hI.apart u s.current r q _ _ hold hq hcur) x hx
      · exact (hI.apart u t r p _ _ hold hp hut) x hx
  · obtain ⟨_, hu⟩ := handOver_place hq hp hu
    obtain ⟨_, hv⟩ := handOver_place hq hp hv
    exact hI.apart u v r r' _ _ hu hv huv

theorem step_intact (hI : Intact s) (h : Step s s') : Intact s' := by
  cases h with
  | work hspares => exact work_intact hI hspares
  | create hnew hfree => exact create_intact hI hnew hfree
  | switch hswitch => exact switch_intact hI hswitch

theorem run_intact {s₀ : Schedule T} (start : s₀.Initial) (h : Relation.ReflTransGen Step s₀ s) : Intact s := by
  induction h with
  | refl => exact start.intact
  | tail _ hstep ih => exact step_intact ih hstep

/-- Whenever control goes to a task, it comes back to the state it left in its last call, or begins
as it was created. -/
theorem context_switch_preserves {s₀ : Schedule T} (start : s₀.Initial) (h : Relation.ReflTransGen Step s₀ s)
    (hswitch : Switch s t s') : ∃ p ctx, s.tasks t = some (p, ctx) ∧ match ctx with
      | .switchedOut before => Resumed p before s'.cpu
      | .fresh func table => Begun p func table s'.cpu
      | .running => False := switch_resumes (run_intact start h) hswitch

/-! ## Two tasks -/

/-- A switch whose hook does nothing. -/
def Schedule.handed (s : Schedule T) (q p : Place) (t : T) (target : UInt64) : Schedule T :=
  ⟨(switchTask (calling s.cpu q p target)).ret, t, handOver s q t p false⟩

theorem handed_switch {q p : Place} {ctx : Context} (target : UInt64)
    (hq : s.tasks s.current = some (q, .running))
    (hp : s.tasks t = some (p, ctx)) (hne : t ≠ s.current) (hlo : q.stack + 16 ≤ (s.cpu.reg .rsp).toNat)
    (hhi : (s.cpu.reg .rsp).toNat ≤ q.limit) : Switch s t (s.handed q p t target) := by
  have hooked : Hooked (handOver s q t p false) t p (switchTask (calling s.cpu q p target))
      (switchTask (calling s.cpu q p target)) :=
    ⟨fun _ _ => rfl, rfl, rfl, rfl, fun _ _ _ => rfl, fun _ _ _ _ _ _ _ => rfl⟩
  exact .intro hq hp hne hlo hhi hooked rfl

theorem handed_fs (q p : Place) (target : UInt64) : (s.handed q p t target).cpu.fs = s.cpu.fs := by
  obtain ⟨c, hc⟩ : ∃ c, c = switchTask (calling s.cpu q p target) := ⟨_, rfl⟩
  have hfs : c.fs = s.cpu.fs := by
    rw [hc, switchTask_fs]
    rfl
  have hrun : (s.handed q p t target).cpu = c.ret := by
    rw [hc]
    rfl
  rw [hrun]
  exact hfs

def firstPlace : Place := ⟨0x1000, 0x8000, 0x9000, by decide, by decide, by decide, .inl (by decide)⟩

def secondPlace : Place := ⟨0x2000, 0xA000, 0xB000, by decide, by decide, by decide, .inl (by decide)⟩

def firstAlone : Schedule Bool where
  cpu := ⟨fun r => if r = .rsp then 0x8F00 else 7, 0x202, 0x100, 0x3000, fun _ => 0, fun _ => 0⟩
  current := false
  tasks := fun t => if t = false then some (firstPlace, .running) else none

def secondCreated : Schedule Bool :=
  { firstAlone with
    cpu := { firstAlone.cpu with memory := createContext 0x500 0x4000 secondPlace firstAlone.cpu.memory }
    tasks := Function.update firstAlone.tasks true (some (secondPlace, .fresh 0x500 0x4000)) }

def secondRuns : Schedule Bool := secondCreated.handed firstPlace secondPlace true 0x600

theorem context_switch_preserves_back : ∃ s s' : Schedule Bool, Relation.ReflTransGen Step firstAlone s ∧
    Switch s false s' ∧ ∃ p ctx, s.tasks false = some (p, ctx) ∧ match ctx with
      | .switchedOut before => Resumed p before s'.cpu
      | .fresh func table => Begun p func table s'.cpu
      | .running => False := by
  have hcreate : Step firstAlone secondCreated := by
    refine .create rfl fun u q ctx hu x hx => ?_
    cases u with
    | true => cases hu
    | false =>
      cases hu
      simp only [Place.owns, firstPlace, secondPlace] at hx ⊢
      omega
  have hto : Switch secondCreated true secondRuns :=
    handed_switch _ rfl rfl (by decide) (by decide) (by decide)
  have hback : Switch secondRuns false (secondRuns.handed secondPlace firstPlace false 0x700) :=
    handed_switch _ rfl rfl (by decide) (by decide +kernel) (by decide +kernel)
  have hrun : Relation.ReflTransGen Step firstAlone secondRuns :=
    (Relation.ReflTransGen.single hcreate).tail (.switch hto)
  exact ⟨_, _, hrun, hback, context_switch_preserves ⟨firstPlace, rfl⟩ hrun hback⟩

end Idkernel
