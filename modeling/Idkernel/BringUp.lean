import Mathlib.Data.List.Nodup
import Mathlib.Tactic.IntervalCases
import Idkernel.MultiCore

/-!
# The other processors come up one by one

Every interleaving is followed. While a processor is being started the boot
processor, the interrupts in flight and that processor are tied to each other;
all others stay where they are.
-/
namespace Idkernel

open Address Traced

namespace MultiCore

open Machine

/-! ## What the start rests on -/

/-- The processors can be told apart by the interrupts that are sent to them, and none is taken for
the boot processor. -/
structure Platform.Addressable (P : Platform) : Prop where
  bounded : ∀ p ∈ P.enabled, p.localApicId < broadcast P.isVer2
  distinct : (P.enabled.map Processor.localApicId).Nodup
  other : ∀ p ∈ P.enabled, p.localApicId ≠ P.bsp

/-- The heap does not have the frame of the trampoline. -/
def Platform.Reserved (P : Platform) : Prop := P.heap (TRAMPOLINE_ADDR / 4096) = false

/-- The address space with the page of the trampoline. -/
def Platform.mapped (P : Platform) : Vm P.paging := (identityMap P.kernel : Ran _ KEvent Empty Unit).state

/-- The address space when these processors have come up, in this order. -/
def Platform.before (P : Platform) (done : List Processor) : Vm P.paging :=
  done.foldl (fun vm p => (P.setUp p.localApicId vm).state) P.mapped

/-- When these have come up, there is a stack for the next one and its thread data can be set up. -/
def Platform.Serves (P : Platform) (done : List Processor) (p : Processor) : Prop :=
  (P.stack p).isSome = true ∧ P.returns (P.before done) p.localApicId = true

instance (P : Platform) (done : List Processor) (p : Processor) : Decidable (P.Serves done p) :=
  inferInstanceAs (Decidable (_ ∧ _))

/-- Memory and address space have room for all that is asked of them, one processor after the other. -/
structure Platform.Served (P : Platform) : Prop where
  page : (identityMap P.kernel : Ran (Vm P.paging) KEvent Empty Unit).outcome = .ok ()
  each : ∀ done p rest, P.enabled = done ++ p :: rest → P.Serves done p

/-- The stacks are what an allocator hands out: they lie in memory and apart from each other. -/
structure Platform.Stacked (P : Platform) : Prop where
  room : ∀ p ∈ P.enabled, ∀ s, P.stack p = some s → s + STACK_SIZE < 2 ^ 64
  apart : ∀ p ∈ P.enabled, ∀ q ∈ P.enabled, p ≠ q → ∀ s t, P.stack p = some s → P.stack q = some t →
    s + STACK_SIZE ≤ t ∨ t + STACK_SIZE ≤ s

/-! ## The way of one processor -/

/-- Where the stack of a processor begins that is given one. -/
def Platform.stackOf (P : Platform) (p : Processor) : Nat := (P.stack p).getD 0

def Platform.stackTop (P : Platform) (p : Processor) : Nat := (P.stackOf p + STACK_SIZE + (2 ^ 64 - 256)) % 2 ^ 64

/-- The program for a processor that is given a stack. -/
def Platform.program (P : Platform) (p : Processor) : List Op := P.startAp p (P.stackOf p)

theorem initApProcessor_given {P : Platform} {p : Processor} (h : (P.stack p).isSome = true) :
    P.initApProcessor p = P.program p := by
  obtain ⟨s, hs⟩ := Option.isSome_iff_exists.mp h
  simp only [Platform.initApProcessor, Platform.program, Platform.stackOf, hs, Option.getD_some]

/-- A processor after its `n`th step. The trampoline only loads the lower half of `Cr3`, and thread data
is only set up if `ok`. -/
def Platform.cpuAt (P : Platform) (p : Processor) (ok : Bool) (n : Nat) : Cpu where
  pc := match n with
    | 0 => .startup
    | 1 => .paging
    | 2 => if P.table < 2 ^ 32 then .stack else .lost
    | 3 => .args
    | 4 => .entry
    | 5 => .signal
    | 6 => .jump
    | 7 => .initIdt
    | 8 => .threadData
    | 9 => if ok then .announce else .panicked
    | 10 => .publish
    | _ => .spin
  cr3 := if n = 0 then 0 else P.table % 2 ^ 32
  rsp := if n ≤ 2 then 0 else P.stackTop p
  rdi := if n ≤ 3 then 0 else Trampoline.cpuId
  rax := if n ≤ 4 then 0 else P.kstartAp
  threadData := if 9 ≤ n ∧ ok then some p.localApicId else none
  announced := if n ≤ 9 then none else some p.localApicId

/-- The last step that a processor takes. -/
def Platform.last (P : Platform) (ok : Bool) : Nat := if P.table < 2 ^ 32 then if ok then 11 else 9 else 2

theorem last_le (P : Platform) (ok : Bool) : P.last ok ≤ 11 := by
  unfold Platform.last
  split
  · split <;> omega
  · omega

/-- Who has come up has been through all of it. -/
theorem last_of_up {P : Platform} {ok : Bool} (h : 11 ≤ P.last ok) : P.table < 2 ^ 32 ∧ ok = true := by
  unfold Platform.last at h
  split at h
  · cases ok with
    | true => exact ⟨by assumption, rfl⟩
    | false => simp at h
  · omega

section Way

variable {P : Platform} {p : Processor} {m : Machine P.paging} {n : Nat} {ok : Bool}

/-- What the page has to say when a processor comes to read it. -/
structure Told (P : Platform) (p : Processor) (m : Machine P.paging) : Prop where
  mapped : m.mapped = true
  cpuId : m.word Trampoline.cpuId = p.localApicId
  pageTable : m.word Trampoline.pageTable = P.table
  stackEnd : m.word Trampoline.stackEnd = P.stackOf p + STACK_SIZE
  code : m.word Trampoline.code = P.kstartAp

/-- The machine after that processor's next step. -/
def advanced (P : Platform) (p : Processor) (ok : Bool) (m : Machine P.paging) (n : Nat) : Machine P.paging :=
  { m with
    cpu := Function.update m.cpu p.localApicId (P.cpuAt p ok (n + 1))
    word := if n = 5 then Function.update m.word Trampoline.ready 1 else m.word
    apReady := if n = 10 then true else m.apReady
    kernel := if n = 8 then (P.setUp p.localApicId m.kernel).state else m.kernel }

theorem apStep_advances (told : Told P p m) (hn : n < P.last ok) (hcpu : m.cpu p.localApicId = P.cpuAt p ok n)
    (hok : n = 8 → P.returns m.kernel p.localApicId = ok) :
    m.apStep P p.localApicId = some (advanced P p ok m n) := by
  obtain ⟨hmapped, hid, htable, hstack, hcode⟩ := told
  unfold apStep
  rw [hcpu]
  by_cases hlow : P.table < 2 ^ 32
  · have hmod : P.table % 4294967296 = P.table := Nat.mod_eq_of_lt hlow
    rw [Platform.last, if_pos hlow] at hn
    have hlow' : P.table < 4294967296 := hlow
    cases ok with
    | true =>
      rw [if_pos rfl] at hn
      interval_cases n <;>
        simp [Platform.cpuAt, advanced, setCpu, onPage, hmapped, hid, htable, hstack, hcode, hmod, hlow', hok,
          Platform.stackTop]
    | false =>
      rw [if_neg Bool.false_ne_true] at hn
      interval_cases n <;>
        simp [Platform.cpuAt, advanced, setCpu, onPage, hmapped, hid, htable, hstack, hcode, hmod, hlow', hok,
          Platform.stackTop]
  · have hmod : P.table % 4294967296 ≠ P.table := by omega
    have hhigh : ¬ P.table < 4294967296 := hlow
    rw [Platform.last, if_neg hlow] at hn
    interval_cases n <;>
      simp [Platform.cpuAt, advanced, setCpu, hmapped, htable, hmod, hhigh]

/-- Behind its last step a processor waits for a flag that nobody sets, or is lost, or has panicked. -/
theorem apStep_ends (hn : n = P.last ok) (hcpu : m.cpu p.localApicId = P.cpuAt p ok n)
    (hnever : m.bspReady = false) : m.apStep P p.localApicId = none := by
  subst hn
  unfold apStep
  rw [hcpu]
  by_cases hlow : P.table < 4294967296 <;> cases ok <;> simp [Platform.last, Platform.cpuAt, hlow, hnever]

end Way

/-! ## The program for one processor -/

def Op.isWriteIcr : Op → Bool
  | .writeIcr _ => true
  | _ => false

/-- The interrupts that are yet to be sent. -/
def unsent (ops : List Op) : Nat := ops.countP Op.isWriteIcr

def initIpi (p : Processor) : Ipi := ⟨p.localApicId, 5, 0⟩
def startIpi (p : Processor) : Ipi := ⟨p.localApicId, 6, 8⟩

/-- What comes next in the program for a processor, and what is then left of it. -/
inductive Next (P : Platform) (p : Processor) : Op → List Op → Prop where
  | store {a v : Nat} {ops : List Op} (left : unsent ops = 2) (clear : .clearApReady ∈ ops) (wait : .waitWord ∈ ops) :
      Next P p (.store a v) ops
  | clear {ops : List Op} (left : unsent ops = 2) (stored : ∀ a v, .store a v ∉ ops) (wait : .waitWord ∈ ops) :
      Next P p .clearApReady ops
  | waitDelivered {ops : List Op} (wait : .waitWord ∈ ops) : Next P p .waitDelivered ops
  | writeIcr {v : Nat} {ops : List Op} (stored : ∀ a w, .store a w ∉ ops) (clear : .clearApReady ∉ ops)
      (wait : .waitWord ∈ ops)
      (sent : unsent ops = 1 ∧ Ipi.decode P.isVer2 v = initIpi p ∨
        unsent ops = 0 ∧ Ipi.decode P.isVer2 v = startIpi p) : Next P p (.writeIcr v) ops
  | waitWord : Next P p .waitWord [.waitApReady]
  | waitApReady : Next P p .waitApReady []

section Program

variable {P : Platform} {p : Processor}

theorem bounded_id (h : p.localApicId < broadcast P.isVer2) :
    p.localApicId < 2 ^ 32 ∧ (if P.isVer2 then p.localApicId else p.localApicId % 2 ^ 8) = p.localApicId := by
  unfold broadcast at h
  cases hv : P.isVer2 with
  | true =>
    rw [hv] at h
    exact ⟨by simp only [if_true] at h; omega, rfl⟩
  | false =>
    rw [hv] at h
    simp only [Bool.false_eq_true, if_false] at h ⊢
    omega

theorem decode_init (h : p.localApicId < broadcast P.isVer2) :
    Ipi.decode P.isVer2 (icr P.isVer2 0x4500 p.localApicId) = initIpi p := by
  rw [decode_icr P.isVer2 p.localApicId (by decide), (bounded_id h).2]
  rfl

theorem decode_start (h : p.localApicId < broadcast P.isVer2) :
    Ipi.decode P.isVer2 (icr P.isVer2 (0x4600 ||| (TRAMPOLINE_ADDR >>> 12 &&& 0xff)) p.localApicId) = startIpi p := by
  rw [decode_icr P.isVer2 p.localApicId (by decide), (bounded_id h).2]
  rfl

/-- Only the processor it is meant for takes the interrupt. -/
theorem accepted_iff (h : p.localApicId < broadcast P.isVer2) {ipi : Ipi} (hdest : ipi.dest = p.localApicId)
    (id : Nat) : ipi.accepted P.isVer2 id ↔ id = p.localApicId := by
  unfold Ipi.accepted
  omega

theorem next_of_suffix (h : p.localApicId < broadcast P.isVer2) {op : Op} {ops : List Op}
    (hops : op :: ops <:+ P.program p) : Next P p op ops := by
  have hinit := decode_init h
  have hstart := decode_start h
  unfold Platform.program Platform.startAp setIcr Platform.setup at hops
  -- every place in the list is looked at
  cases hv : P.isVer2 with
  | true =>
    rw [hv] at hops
    simp only [if_true, List.cons_append, List.nil_append, List.suffix_cons_iff, List.cons.injEq,
      List.suffix_nil, reduceCtorEq, or_false] at hops
    rcases hops with ⟨rfl, rfl⟩ | ⟨rfl, rfl⟩ | ⟨rfl, rfl⟩ | ⟨rfl, rfl⟩ | ⟨rfl, rfl⟩ | ⟨rfl, rfl⟩ | ⟨rfl, rfl⟩ |
      ⟨rfl, rfl⟩ | ⟨rfl, rfl⟩ | ⟨rfl, rfl⟩ | ⟨rfl, rfl⟩
    iterate 6 exact .store rfl (by simp) (by simp)
    · exact .clear rfl (by simp) (by simp)
    · exact .writeIcr (by simp) (by simp) (by simp) (.inl ⟨rfl, hv ▸ hinit⟩)
    · exact .writeIcr (by simp) (by simp) (by simp) (.inr ⟨rfl, hv ▸ hstart⟩)
    · exact .waitWord
    · exact .waitApReady
  | false =>
    rw [hv] at hops
    simp only [Bool.false_eq_true, if_false, List.cons_append, List.nil_append, List.suffix_cons_iff, List.cons.injEq,
      List.suffix_nil, reduceCtorEq, or_false] at hops
    rcases hops with ⟨rfl, rfl⟩ | ⟨rfl, rfl⟩ | ⟨rfl, rfl⟩ | ⟨rfl, rfl⟩ | ⟨rfl, rfl⟩ | ⟨rfl, rfl⟩ | ⟨rfl, rfl⟩ |
      ⟨rfl, rfl⟩ | ⟨rfl, rfl⟩ | ⟨rfl, rfl⟩ | ⟨rfl, rfl⟩ | ⟨rfl, rfl⟩ | ⟨rfl, rfl⟩ | ⟨rfl, rfl⟩ | ⟨rfl, rfl⟩
    iterate 6 exact .store rfl (by simp) (by simp)
    · exact .clear rfl (by simp) (by simp)
    · exact .waitDelivered (by simp)
    · exact .writeIcr (by simp) (by simp) (by simp) (.inl ⟨rfl, hv ▸ hinit⟩)
    · exact .waitDelivered (by simp)
    · exact .waitDelivered (by simp)
    · exact .writeIcr (by simp) (by simp) (by simp) (.inr ⟨rfl, hv ▸ hstart⟩)
    · exact .waitDelivered (by simp)
    · exact .waitWord
    · exact .waitApReady

/-- What is stored are the words of the page. -/
theorem stored_iff {a v : Nat} : .store a v ∈ P.program p ↔
    .store a v ∈ Platform.setup p.localApicId P.table (P.stackOf p) (P.stackOf p + STACK_SIZE) P.kstartAp := by
  unfold Platform.program Platform.startAp setIcr
  cases P.isVer2 <;> simp

/-- A word of the page is written with one value only. -/
theorem stored_unique {a v w : Nat} (hv : .store a v ∈ P.program p) (hw : .store a w ∈ P.program p) : v = w := by
  rw [stored_iff] at hv hw
  simp only [Platform.setup, List.mem_cons, Op.store.injEq, List.not_mem_nil, or_false, Trampoline.ready,
    Trampoline.cpuId, Trampoline.pageTable, Trampoline.stackStart, Trampoline.stackEnd, Trampoline.code] at hv hw
  omega

theorem stored_in_page {a v : Nat} (hv : .store a v ∈ P.program p) : a / 4096 = TRAMPOLINE_ADDR / 4096 := by
  rw [stored_iff] at hv
  simp only [Platform.setup, List.mem_cons, Op.store.injEq, List.not_mem_nil, or_false, Trampoline.ready,
    Trampoline.cpuId, Trampoline.pageTable, Trampoline.stackStart, Trampoline.stackEnd, Trampoline.code,
    TRAMPOLINE_ADDR] at hv ⊢
  omega

theorem unsent_program (P : Platform) (p : Processor) : unsent (P.program p) = 2 := by
  unfold Platform.program Platform.startAp setIcr
  cases P.isVer2 <;> rfl

end Program

/-! ## The invariant -/

/-- All processors but one: those that came up wait, and those to come are off. -/
structure Around (P : Platform) (done : List Processor) (busy : Nat → Prop) (boot : Pc) (m : Machine P.paging) :
    Prop where
  bsp : m.cpu P.bsp = Cpu.blank boot
  parked : ∀ q ∈ done, m.cpu q.localApicId = P.cpuAt q true 11
  off : ∀ id, id ≠ P.bsp → (∀ q ∈ done, id ≠ q.localApicId) → ¬ busy id → m.cpu id = Cpu.blank .off
  never : m.bspReady = false
  /-- Only from a table that its lower half names has anybody come up. -/
  low : done ≠ [] → P.table < 2 ^ 32
  served : ∀ pre q post, done = pre ++ q :: post → P.Serves pre q

/-- What is left when a processor has come up. -/
def Platform.remaining (P : Platform) (rest : List Processor) : List Op :=
  rest.flatMap P.initApProcessor ++ [.unwrite]

/-- Whether thread data can be set up for a processor when its turn comes. -/
def Platform.ok (P : Platform) (done : List Processor) (p : Processor) : Bool :=
  P.returns (P.before done) p.localApicId

/-- While `p` is started: `ops` are left for it, `r` of its two interrupts have arrived, and it has
taken `n` steps. -/
structure Bringing (P : Platform) (done : List Processor) (p : Processor) (rest : List Processor) (ops : List Op)
    (r n : Nat) (m : Machine P.paging) : Prop where
  identity : (identityMap P.kernel : Ran (Vm P.paging) KEvent Empty Unit).outcome = .ok ()
  split : P.enabled = done ++ p :: rest
  given : (P.stack p).isSome = true
  program : m.ops = ops ++ P.remaining rest
  suffix : ops <:+ P.program p
  more : ops ≠ []
  arrived : r + unsent ops ≤ 2
  flight : m.flight = ([initIpi p, startIpi p].take (2 - unsent ops)).drop r
  fresh : r < 2 → n = 0 ∧ m.cpu p.localApicId = Cpu.blank (if r = 0 then .off else .waitForSipi)
  running : r = 2 → n ≤ P.last (P.ok done p) ∧ m.cpu p.localApicId = P.cpuAt p (P.ok done p) n
  around : Around P done (fun id => id = p.localApicId) .running m
  mapped : m.mapped = true
  ready : (∀ v, .store Trampoline.ready v ∉ ops) → m.word Trampoline.ready = if 6 ≤ n then 1 else 0
  told : ∀ a v, .store a v ∈ P.program p → a ≠ Trampoline.ready → .store a v ∉ ops → m.word a = v
  cleared : .clearApReady ∉ ops → m.apReady = decide (n = 11)
  seen : .waitWord ∉ ops → 6 ≤ n
  kernel : m.kernel = if 9 ≤ n then P.before (done ++ [p]) else P.before done

inductive Phase (P : Platform) (m : Machine P.paging) : Prop where
  | initial (program : m.ops = P.init) (flight : m.flight = []) (around : Around P [] (fun _ => False) .running m)
      (kernel : m.kernel = P.kernel) : Phase P m
  | bringing {done rest : List Processor} {p : Processor} {ops : List Op} {r n : Nat}
      (b : Bringing P done p rest ops r n m) : Phase P m
  /-- There is no stack for the next one. -/
  | refused {done rest : List Processor} {p : Processor} (split : P.enabled = done ++ p :: rest)
      (none : (P.stack p).isSome = false) (program : m.ops = .panic :: P.remaining rest) (flight : m.flight = [])
      (around : Around P done (fun _ => False) .running m) : Phase P m
  /-- The boot processor has panicked. -/
  | stopped {done : List Processor} (why : ¬ P.Served) (more : m.ops ≠ []) (flight : m.flight = [])
      (around : Around P done (fun _ => False) .panicked m) : Phase P m
  | finished (page : (identityMap P.kernel : Ran (Vm P.paging) KEvent Empty Unit).outcome = .ok ())
      (program : m.ops = [.unwrite] ∨ m.ops = [] ∧ m.mapped = false) (flight : m.flight = [])
      (around : Around P P.enabled (fun _ => False) .running m) : Phase P m

section Invariant

variable {P : Platform} {m m' : Machine P.paging} {done rest : List Processor} {p : Processor} {ops : List Op}
  {r n : Nat} {busy : Nat → Prop} {boot : Pc}

theorem Platform.Addressable.apart (hP : P.Addressable) (hsplit : P.enabled = done ++ p :: rest) :
    ∀ q ∈ done, p.localApicId ≠ q.localApicId := by
  intro q hq heq
  have hdistinct := hP.distinct
  rw [hsplit, List.map_append, List.map_cons, List.nodup_append] at hdistinct
  exact hdistinct.2.2 q.localApicId (List.mem_map_of_mem hq) p.localApicId List.mem_cons_self heq.symm

theorem Platform.Addressable.bounded_next (hP : P.Addressable) (hsplit : P.enabled = done ++ p :: rest) :
    p.localApicId < broadcast P.isVer2 := hP.bounded p (by rw [hsplit]; simp)

theorem Around.same (h : Around P done busy boot m) (hcpu : m'.cpu = m.cpu)
    (hnever : m'.bspReady = m.bspReady) : Around P done busy boot m' := by
  refine ⟨?_, ?_, ?_, hnever ▸ h.never, h.low, h.served⟩
  · rw [hcpu]
    exact h.bsp
  · rw [hcpu]
    exact h.parked
  · rw [hcpu]
    exact h.off

/-- The boot processor panics, and nobody else. -/
theorem Around.panicked (hP : P.Addressable) (hdone : ∀ q ∈ done, q ∈ P.enabled) (h : Around P done busy .running m)
    (hcpu : m'.cpu = (m.panic P.bsp).cpu) (hnever : m'.bspReady = m.bspReady) : Around P done busy .panicked m' := by
  have hself : m'.cpu P.bsp = Cpu.blank .panicked := by
    rw [hcpu, Machine.panic, h.bsp]
    exact Function.update_self ..
  have hother : ∀ id, id ≠ P.bsp → m'.cpu id = m.cpu id := by
    intro id hid
    rw [hcpu]
    exact Function.update_of_ne hid ..
  refine ⟨hself, fun q hq => ?_, fun id hid hout hbusy => ?_, hnever ▸ h.never, h.low, h.served⟩
  · rw [hother _ (hP.other q (hdone q hq))]
    exact h.parked q hq
  · rw [hother id hid]
    exact h.off id hid hout hbusy

/-- Everybody else has nothing to do. -/
theorem Around.idle (h : Around P done busy boot m) (hboot : boot = .running ∨ boot = .panicked) {id : Nat}
    (hid : ¬ busy id) : m.apStep P id = none := by
  unfold apStep
  by_cases hbsp : id = P.bsp
  · rw [hbsp, h.bsp]
    rcases hboot with rfl | rfl <;> rfl
  by_cases hdone : ∃ q ∈ done, id = q.localApicId
  · obtain ⟨q, hq, rfl⟩ := hdone
    rw [h.parked q hq]
    simp [Platform.cpuAt, h.never]
  · rw [h.off id hbsp (fun q hq he => hdone ⟨q, hq, he⟩) hid]
    rfl

theorem store_ready_mem (P : Platform) (p : Processor) : .store Trampoline.ready 0 ∈ P.program p := by
  simp [Platform.program, Platform.startAp, Platform.setup]

/-- Between two processors the next one is taken, if it can have a stack, or all are up. -/
theorem Phase.next (hP : P.Addressable)
    (page : (identityMap P.kernel : Ran (Vm P.paging) KEvent Empty Unit).outcome = .ok ())
    (split : P.enabled = done ++ rest) (program : m.ops = P.remaining rest) (flight : m.flight = [])
    (around : Around P done (fun _ => False) .running m) (mapped : m.mapped = true)
    (kernel : m.kernel = P.before done) : Phase P m := by
  cases rest with
  | nil =>
    rw [List.append_nil] at split
    exact .finished page (.inl program) flight (split ▸ around)
  | cons p rest =>
    have hbsp : p.localApicId ≠ P.bsp := hP.other p (by rw [split]; simp)
    have hremaining : m.ops = P.initApProcessor p ++ P.remaining rest := by
      rw [program, Platform.remaining, Platform.remaining, List.flatMap_cons, List.append_assoc]
    cases hstack : (P.stack p).isSome with
    | false =>
      have hpanic : P.initApProcessor p = [.panic] := by
        rw [Platform.initApProcessor, Option.isSome_eq_false_iff.mp hstack |> Option.isNone_iff_eq_none.mp]
      rw [hpanic] at hremaining
      exact .refused split hstack hremaining flight around
    | true =>
      rw [initApProcessor_given hstack] at hremaining
      have hfirst := store_ready_mem P p
      have hstart : Bringing P done p rest (P.program p) 0 0 m := {
        identity := page
        split := split
        given := hstack
        program := hremaining
        suffix := List.suffix_rfl
        more := fun h => by rw [h] at hfirst; cases hfirst
        arrived := by rw [unsent_program]
        flight := by rw [unsent_program, flight]; rfl
        fresh := fun _ => ⟨rfl, around.off _ hbsp (hP.apart split) not_false⟩
        running := fun h => absurd h (by decide)
        around := ⟨around.bsp, around.parked, fun id h h' _ => around.off id h h' not_false, around.never,
          around.low, around.served⟩
        mapped := mapped
        ready := fun h => absurd hfirst (h 0)
        told := fun a v h _ h' => absurd h h'
        cleared := fun h => absurd (by simp [Platform.program, Platform.startAp]) h
        seen := fun h => absurd (by simp [Platform.program, Platform.startAp]) h
        kernel := kernel }
      exact .bringing hstart

theorem phase_initial (P : Platform) : Phase P P.initial := by
  refine .initial rfl rfl ⟨?_, nofun, fun id hid _ _ => ?_, rfl, fun h => absurd rfl h, fun pre q post h => ?_⟩ rfl
  · simp only [Platform.initial, Function.update_self]
  · simp only [Platform.initial, Function.update_of_ne hid]
  · simp at h

/-- The boot processor's next operation. -/
theorem bspStep_cases (h : bspStep P m = some m') :
    ∃ op ops m₁, m.ops = op :: ops ∧ perform P m op = some m₁ ∧ m' = { m₁ with ops := ops } := by
  unfold bspStep at h
  split at h
  · cases h
  · cases hops : m.ops with
    | nil =>
      rw [hops] at h
      cases h
    | cons op ops =>
      rw [hops] at h
      obtain ⟨m₁, hm₁, rfl⟩ := Option.map_eq_some_iff.mp h
      exact ⟨op, ops, m₁, rfl, hm₁, rfl⟩

/-- As long as something is unsent, the processor has not begun. -/
theorem Bringing.not_begun (b : Bringing P done p rest ops r n m) (h : unsent ops ≠ 0) : n = 0 := by
  have harrived := b.arrived
  exact (b.fresh (by omega)).1

/-- The operations that only the boot processor notices. -/
theorem Bringing.behind (b : Bringing P done p rest ops r n m) (m₁ : Machine P.paging) {op : Op} {ops' : List Op}
    (hops : ops = op :: ops') (hmore : ops' ≠ []) (hsent : unsent ops' = unsent ops) (hcpu : m₁.cpu = m.cpu)
    (hflight : m₁.flight = m.flight) (hmapped : m₁.mapped = m.mapped) (hnever : m₁.bspReady = m.bspReady)
    (hkernel : m₁.kernel = m.kernel)
    (hready : (∀ v, .store Trampoline.ready v ∉ ops') → m₁.word Trampoline.ready = if 6 ≤ n then 1 else 0)
    (htold : ∀ a v, .store a v ∈ P.program p → a ≠ Trampoline.ready → .store a v ∉ ops' → m₁.word a = v)
    (hcleared : .clearApReady ∉ ops' → m₁.apReady = decide (n = 11)) (hseen : .waitWord ∉ ops' → 6 ≤ n) :
    Phase P { m₁ with ops := ops' ++ P.remaining rest } := by
  refine .bringing {
    identity := b.identity
    split := b.split
    given := b.given
    program := rfl
    suffix := (List.suffix_cons op ops').trans (hops ▸ b.suffix)
    more := hmore
    arrived := hsent ▸ b.arrived
    flight := by rw [hflight, b.flight, hsent]
    fresh := fun h => by rw [hcpu]; exact b.fresh h
    running := fun h => by rw [hcpu]; exact b.running h
    around := b.around.same hcpu hnever
    mapped := hmapped ▸ b.mapped
    ready := hready
    told := htold
    cleared := hcleared
    seen := hseen
    kernel := hkernel.trans b.kernel }

theorem unsent_cons_other {op : Op} (h : op.isWriteIcr = false) (ops : List Op) : unsent (op :: ops) = unsent ops := by
  rw [unsent, unsent, List.countP_cons_of_neg (by simp [h])]

/-- One word of the page is written. -/
theorem Bringing.store {a v : Nat} (b : Bringing P done p rest (.store a v :: ops) r n m) (hbegun : n = 0)
    (hmore : ops ≠ []) (hclear : .clearApReady ∈ ops) (hwait : .waitWord ∈ ops) :
    Phase P { m with word := Function.update m.word a v, ops := ops ++ P.remaining rest } := by
  have hmem : .store a v ∈ P.program p := b.suffix.subset List.mem_cons_self
  refine b.behind { m with word := Function.update m.word a v } rfl hmore (unsent_cons_other rfl ops).symm rfl rfl
    rfl rfl rfl ?_ ?_ (fun h => absurd hclear h) fun h => absurd hwait h
  · intro hno
    subst hbegun
    dsimp only
    by_cases ha : a = Trampoline.ready
    · subst ha
      rw [Function.update_self, stored_unique hmem (store_ready_mem P p), if_neg (by decide)]
    · rw [Function.update_of_ne (Ne.symm ha)]
      refine b.ready fun w hw => ?_
      rcases List.mem_cons.mp hw with he | hw
      · exact ha (Op.store.inj he).1.symm
      · exact hno w hw
  · intro a' v' hmem' hne hno
    dsimp only
    by_cases ha : a' = a
    · subst ha
      rw [Function.update_self, stored_unique hmem hmem']
    · rw [Function.update_of_ne ha]
      refine b.told a' v' hmem' hne fun hin => ?_
      rcases List.mem_cons.mp hin with he | hin
      · exact ha (Op.store.inj he).1
      · exact hno hin

/-- One of the two interrupts is sent. -/
theorem Bringing.writeIcr {v : Nat} (b : Bringing P done p rest (.writeIcr v :: ops) r n m)
    (hstored : ∀ a w, .store a w ∉ ops) (hclear : .clearApReady ∉ ops) (hwait : .waitWord ∈ ops)
    (hsent : unsent ops = 1 ∧ Ipi.decode P.isVer2 v = initIpi p ∨
      unsent ops = 0 ∧ Ipi.decode P.isVer2 v = startIpi p) :
    Phase P { m with flight := m.flight ++ [Ipi.decode P.isVer2 v], ops := ops ++ P.remaining rest } := by
  have hcount : unsent (.writeIcr v :: ops) = unsent ops + 1 := List.countP_cons_of_pos rfl
  have harrived := b.arrived
  have hbegun : n = 0 := b.not_begun (by omega)
  have hno : ∀ a w, .store a w ∉ Op.writeIcr v :: ops := by
    intro a w hin
    rcases List.mem_cons.mp hin with he | hin
    · cases he
    · exact hstored a w hin
  have hnoclear : .clearApReady ∉ Op.writeIcr v :: ops := by
    intro hin
    rcases List.mem_cons.mp hin with he | hin
    · cases he
    · exact hclear hin
  refine .bringing {
    identity := b.identity
    split := b.split
    given := b.given
    program := rfl
    suffix := (List.suffix_cons _ ops).trans b.suffix
    more := List.ne_nil_of_mem hwait
    arrived := by omega
    flight := ?_
    fresh := fun h => b.fresh h
    running := fun h => b.running h
    around := b.around.same rfl rfl
    mapped := b.mapped
    ready := fun _ => b.ready (hno Trampoline.ready)
    told := fun a w h hne _ => b.told a w h hne (hno a w)
    cleared := fun _ => b.cleared hnoclear
    seen := fun h => absurd hwait h
    kernel := b.kernel }
  dsimp only
  rw [b.flight, hcount]
  rcases hsent with ⟨hleft, hipi⟩ | ⟨hleft, hipi⟩
  · obtain rfl : r = 0 := by omega
    rw [hleft, hipi]
    rfl
  · have hr : r = 0 ∨ r = 1 := by omega
    rw [hleft, hipi]
    rcases hr with rfl | rfl <;> rfl

/-- One more has come up. -/
theorem Around.up (b : Bringing P done p rest ops r n m) (hr : r = 2) (hn : n = 11) :
    Around P (done ++ [p]) (fun _ => False) .running m := by
  obtain ⟨hlast, hcpu⟩ := b.running hr
  obtain ⟨hlow, hok⟩ := last_of_up (hn ▸ hlast)
  refine ⟨b.around.bsp, fun q hq => ?_, fun id hid hdone _ => ?_, b.around.never, fun _ => hlow,
    fun pre q post hsplit => ?_⟩
  · rcases List.mem_append.mp hq with hq | hq
    · exact b.around.parked q hq
    · obtain rfl := List.mem_singleton.mp hq
      rwa [hn, hok] at hcpu
  · exact b.around.off id hid (fun q hq => hdone q (List.mem_append_left _ hq))
      (hdone p (List.mem_append_right _ List.mem_cons_self))
  · rcases List.eq_nil_or_concat post with rfl | ⟨post, x, rfl⟩
    · obtain ⟨rfl, rfl⟩ := List.append_singleton_inj.mp hsplit
      exact ⟨b.given, hok⟩
    · have hlonger : done ++ [p] = (pre ++ q :: post) ++ [x] := by rw [hsplit]; simp
      exact b.around.served pre q post (List.append_singleton_inj.mp hlonger).1

/-- The processor has reported, and the boot processor goes on to the next one. -/
theorem Bringing.up (hP : P.Addressable) (b : Bringing P done p rest [.waitApReady] r n m) (h : m.apReady = true) :
    Phase P { m with ops := P.remaining rest } := by
  have hn : n = 11 := by
    have hcleared := b.cleared (by simp)
    rw [h] at hcleared
    exact of_decide_eq_true hcleared.symm
  have hr : r = 2 := by
    by_contra hne
    have harrived := b.arrived
    have := (b.fresh (by omega)).1
    omega
  have hunsent : unsent [.waitApReady] = 0 := rfl
  have hsplit : P.enabled = (done ++ [p]) ++ rest := by rw [b.split, List.append_assoc, List.singleton_append]
  have hflight : m.flight = [] := by
    rw [b.flight, hunsent, hr]
    rfl
  have hkernel : m.kernel = P.before (done ++ [p]) := by rw [b.kernel, if_pos (by omega)]
  exact Phase.next hP b.identity hsplit rfl hflight ((Around.up b hr hn).same rfl rfl) b.mapped hkernel

theorem Bringing.bspStep (hP : P.Addressable) (b : Bringing P done p rest ops r n m)
    (h : bspStep P m = some m') : Phase P m' := by
  obtain ⟨op, left, m₁, hprogram, hperform, rfl⟩ := bspStep_cases h
  cases ops with
  | nil => exact absurd rfl b.more
  | cons op' ops =>
    obtain ⟨rfl, rfl⟩ := List.cons.inj (hprogram.symm.trans b.program)
    cases next_of_suffix (hP.bounded_next b.split) b.suffix with
    | @store a v _ left clear wait =>
      cases hperform
      have hunsent : unsent (.store a v :: ops) = unsent ops := unsent_cons_other rfl ops
      exact b.store (b.not_begun (by omega)) (List.ne_nil_of_mem wait) clear wait
    | clear left stored wait =>
      cases hperform
      have hunsent : unsent (.clearApReady :: ops) = unsent ops := unsent_cons_other rfl ops
      have hbegun : n = 0 := b.not_begun (by omega)
      have hno : ∀ a w, .store a w ∉ Op.clearApReady :: ops := by
        intro a w hin
        rcases List.mem_cons.mp hin with he | hin
        · cases he
        · exact stored a w hin
      refine b.behind { m with apReady := false } rfl (List.ne_nil_of_mem wait) hunsent.symm rfl rfl rfl rfl rfl
        (fun _ => b.ready (hno Trampoline.ready)) (fun a w h hne _ => b.told a w h hne (hno a w)) (fun _ => ?_)
        fun h => absurd wait h
      rw [hbegun]
      rfl
    | waitDelivered wait =>
      dsimp only [perform] at hperform
      split at hperform
      · cases hperform
        refine b.behind m rfl (List.ne_nil_of_mem wait) (unsent_cons_other rfl ops).symm rfl rfl rfl rfl rfl
          (fun h => b.ready fun v hin => ?_) (fun a w hmem hne h => b.told a w hmem hne fun hin => ?_)
          (fun h => b.cleared fun hin => ?_) fun h => absurd wait h
        · exact h v ((List.mem_cons.mp hin).resolve_left nofun)
        · exact h ((List.mem_cons.mp hin).resolve_left nofun)
        · exact h ((List.mem_cons.mp hin).resolve_left nofun)
      · cases hperform
    | writeIcr stored clear wait sent =>
      cases hperform
      exact b.writeIcr stored clear wait sent
    | waitWord =>
      dsimp only [perform] at hperform
      split at hperform
      · rename_i hword
        cases hperform
        have hready := b.ready (by simp)
        refine b.behind m rfl (by simp) rfl rfl rfl rfl rfl rfl (fun _ => hready)
          (fun a w h hne _ => b.told a w h hne (by simp)) (fun _ => b.cleared (by simp)) fun _ => ?_
        by_contra hlow
        rw [if_neg hlow] at hready
        exact hword hready
      · cases hperform
    | waitApReady =>
      dsimp only [perform] at hperform
      split at hperform
      · rename_i hup
        cases hperform
        exact b.up hP hup
      · cases hperform

/-- Nobody but the processor in question has changed. -/
theorem Bringing.around_update (hP : P.Addressable) (b : Bringing P done p rest ops r n m) {cpu : Nat → Cpu}
    (hsame : ∀ id, id ≠ p.localApicId → cpu id = m.cpu id) (hm : m'.cpu = cpu) (hnever : m'.bspReady = m.bspReady) :
    Around P done (fun id => id = p.localApicId) .running m' := by
  have hbsp : P.bsp ≠ p.localApicId := (hP.other p (by rw [b.split]; simp)).symm
  refine ⟨?_, fun q hq => ?_, fun id hid hdone hne => ?_, hnever ▸ b.around.never, b.around.low,
    b.around.served⟩
  · rw [hm, hsame _ hbsp]
    exact b.around.bsp
  · rw [hm, hsame _ (hP.apart b.split q hq).symm]
    exact b.around.parked q hq
  · rw [hm, hsame _ hne]
    exact b.around.off id hid hdone hne

theorem receive_start (P : Platform) (p : Processor) (ok : Bool) :
    (Cpu.blank .waitForSipi).receive (startIpi p) = P.cpuAt p ok 0 := by
  have hpage : 8 * 4096 = TRAMPOLINE_ADDR := by norm_num [TRAMPOLINE_ADDR]
  have hvector : (startIpi p).vector * 4096 = TRAMPOLINE_ADDR := hpage
  unfold Cpu.receive
  rw [if_pos hvector]
  rfl

/-- The next of the two interrupts arrives. -/
theorem Bringing.deliver (hP : P.Addressable) (b : Bringing P done p rest ops r n m)
    (h : m.deliver P = some m') : Bringing P done p rest ops (r + 1) n m' := by
  have harrived := b.arrived
  have hlen : r + unsent ops < 2 := by
    by_contra hno
    have hnil : m.flight = [] := by
      rw [b.flight, List.drop_eq_nil_iff, List.length_take]
      simp only [List.length_cons, List.length_nil]
      omega
    rw [Machine.deliver, hnil] at h
    cases h
  obtain ⟨hbegun, hcpu⟩ := b.fresh (by omega)
  obtain ⟨ipi, later, hflight, hdest, hlater, hreceive⟩ : ∃ ipi later, m.flight = ipi :: later ∧
      ipi.dest = p.localApicId ∧ later = ([initIpi p, startIpi p].take (2 - unsent ops)).drop (r + 1) ∧
      (m.cpu p.localApicId).receive ipi =
        if r + 1 < 2 then Cpu.blank (if r + 1 = 0 then .off else .waitForSipi) else P.cpuAt p (P.ok done p) 0 := by
    rw [b.flight, hcpu]
    have hcases : r = 0 ∧ unsent ops = 1 ∨ r = 0 ∧ unsent ops = 0 ∨ r = 1 ∧ unsent ops = 0 := by omega
    rcases hcases with ⟨rfl, hu⟩ | ⟨rfl, hu⟩ | ⟨rfl, hu⟩
    · rw [hu]
      exact ⟨initIpi p, [], rfl, rfl, rfl, rfl⟩
    · rw [hu]
      exact ⟨initIpi p, [startIpi p], rfl, rfl, rfl, rfl⟩
    · rw [hu]
      refine ⟨startIpi p, [], rfl, rfl, rfl, ?_⟩
      rw [if_neg Nat.one_ne_zero, if_neg (by omega)]
      exact receive_start P p _
  rw [Machine.deliver, hflight] at h
  cases h
  have haccepted := accepted_iff (hP.bounded_next b.split) hdest
  refine {
    identity := b.identity
    split := b.split
    given := b.given
    program := b.program
    suffix := b.suffix
    more := b.more
    arrived := by omega
    flight := hlater
    fresh := fun hr => ⟨hbegun, ?_⟩
    running := fun hr => ?_
    around := b.around_update hP (fun id hne => ?_) rfl rfl
    mapped := b.mapped
    ready := b.ready
    told := b.told
    cleared := b.cleared
    seen := b.seen
    kernel := b.kernel }
  · dsimp only
    rw [if_pos ((haccepted _).mpr rfl), hreceive, if_pos hr]
  · dsimp only
    rw [if_pos ((haccepted _).mpr rfl), hreceive, if_neg (by omega), hbegun]
    exact ⟨Nat.zero_le _, rfl⟩
  · exact if_neg fun hacc => hne ((haccepted id).mp hacc)

/-- With both interrupts sent, the page says what it has to. -/
theorem Bringing.page (b : Bringing P done p rest ops r n m) (hstored : ∀ a v, .store a v ∉ ops) : Told P p m := by
  have htold : ∀ {a v}, .store a v ∈
      Platform.setup p.localApicId P.table (P.stackOf p) (P.stackOf p + STACK_SIZE) P.kstartAp →
      a ≠ Trampoline.ready → m.word a = v := by
    intro a v hmem hne
    exact b.told a v (stored_iff.mpr hmem) hne (hstored a v)
  exact ⟨b.mapped, htold (by simp [Platform.setup]) (by decide), htold (by simp [Platform.setup]) (by decide),
    htold (by simp [Platform.setup]) (by decide), htold (by simp [Platform.setup]) (by decide)⟩

/-- When nothing is unsent, the page has been written and the flag cleared. -/
theorem Bringing.prepared (hP : P.Addressable) (b : Bringing P done p rest ops r n m) (hsent : unsent ops = 0) :
    (∀ a v, .store a v ∉ ops) ∧ .clearApReady ∉ ops := by
  have hbound := hP.bounded_next b.split
  have hall : ∀ ops', ops' <:+ P.program p → unsent ops' = 0 →
      (∀ a v, .store a v ∉ ops') ∧ .clearApReady ∉ ops' := by
    intro ops'
    induction ops' with
    | nil => exact fun _ _ => ⟨nofun, nofun⟩
    | cons op ops' ih =>
      intro hsuffix hzero
      cases hop : op.isWriteIcr with
      | true =>
        have hcount : unsent (op :: ops') = unsent ops' + 1 := List.countP_cons_of_pos hop
        omega
      | false =>
        have hcount := unsent_cons_other hop ops'
        obtain ⟨hstores, hclear⟩ := ih ((List.suffix_cons op ops').trans hsuffix) (by omega)
        have hne : (∀ a v, op ≠ .store a v) ∧ op ≠ .clearApReady := by
          cases next_of_suffix hbound hsuffix with
          | store left _ _ => omega
          | clear left _ _ => omega
          | waitDelivered _ => exact ⟨nofun, nofun⟩
          | writeIcr _ _ _ _ => cases hop
          | waitWord => exact ⟨nofun, nofun⟩
          | waitApReady => exact ⟨nofun, nofun⟩
        refine ⟨fun a v hin => ?_, fun hin => ?_⟩
        · rcases List.mem_cons.mp hin with he | hin
          · exact hne.1 a v he.symm
          · exact hstores a v hin
        · rcases List.mem_cons.mp hin with he | hin
          · exact hne.2 he.symm
          · exact hclear hin
  exact hall ops b.suffix hsent

/-- The processor takes its next step. -/
theorem Bringing.ap (hP : P.Addressable) (b : Bringing P done p rest ops r n m) (hr : r = 2)
    (hn : n < P.last (P.ok done p)) : Bringing P done p rest ops r (n + 1) (advanced P p (P.ok done p) m n) ∧
      m.apStep P p.localApicId = some (advanced P p (P.ok done p) m n) := by
  have harrived := b.arrived
  obtain ⟨hstored, hclear⟩ := b.prepared hP (by omega)
  have hok : n = 8 → P.returns m.kernel p.localApicId = P.ok done p := by
    intro h8
    rw [b.kernel, if_neg (by omega), Platform.ok]
  have hlast := last_le P (P.ok done p)
  refine ⟨{
    identity := b.identity
    split := b.split
    given := b.given
    program := b.program
    suffix := b.suffix
    more := b.more
    arrived := b.arrived
    flight := b.flight
    fresh := fun h => by omega
    running := fun _ => ⟨hn, Function.update_self ..⟩
    around := b.around_update hP (fun id hne => Function.update_of_ne hne ..) rfl rfl
    mapped := b.mapped
    ready := fun _ => ?_
    told := fun a v h hne _ => ?_
    cleared := fun _ => ?_
    seen := fun h => Nat.le_succ_of_le (b.seen h)
    kernel := ?_ }, apStep_advances (b.page hstored) hn (b.running hr).2 hok⟩
  · have hready := b.ready (hstored Trampoline.ready)
    simp only [advanced]
    by_cases h5 : n = 5
    · rw [if_pos h5, Function.update_self, if_pos (by omega)]
    · have hiff : 6 ≤ n + 1 ↔ 6 ≤ n := by omega
      rw [if_neg h5, hready]
      simp only [hiff]
  · have htold := b.told a v h hne (hstored a v)
    simp only [advanced]
    split
    · rw [Function.update_of_ne hne, htold]
    · exact htold
  · have hcleared := b.cleared hclear
    simp only [advanced]
    by_cases h10 : n = 10
    · rw [if_pos h10, h10]
      rfl
    · rw [if_neg h10, hcleared]
      exact decide_eq_decide.mpr (by omega)
  · have hkernel := b.kernel
    simp only [advanced]
    by_cases h8 : n = 8
    · rw [if_neg (by omega)] at hkernel
      rw [if_pos h8, if_pos (by omega), hkernel, Platform.before, Platform.before, List.foldl_append]
      rfl
    · have hiff : 9 ≤ n + 1 ↔ 9 ≤ n := by omega
      rw [if_neg h8, hkernel]
      simp only [hiff]

/-- Before its start, and behind its last step, the processor has none. -/
theorem Bringing.ap_waits (b : Bringing P done p rest ops r n m) (h : ¬ (r = 2 ∧ n < P.last (P.ok done p))) :
    m.apStep P p.localApicId = none := by
  have harrived := b.arrived
  by_cases hr : r = 2
  · obtain ⟨hle, hcpu⟩ := b.running hr
    exact apStep_ends (by omega) hcpu b.around.never
  · obtain ⟨_, hcpu⟩ := b.fresh (by omega)
    unfold apStep
    rw [hcpu]
    split <;> simp_all [Cpu.blank]

/-- The boot processor's first step: the page is mapped, or it panics. -/
theorem Phase.begin (hP : P.Addressable) (program : m.ops = P.init) (flight : m.flight = [])
    (around : Around P [] (fun _ => False) .running m) (kernel : m.kernel = P.kernel)
    (h : Machine.bspStep P m = some m') : Phase P m' := by
  obtain ⟨op, ops, m₁, hops, hperform, rfl⟩ := bspStep_cases h
  obtain ⟨rfl, rfl⟩ := List.cons.inj (hops.symm.trans program)
  simp only [perform, kernel] at hperform
  cases hmap : (identityMap P.kernel : Ran (Vm P.paging) KEvent Empty Unit).outcome with
  | ok _ =>
    rw [hmap] at hperform
    cases hperform
    exact Phase.next hP hmap rfl rfl flight (around.same rfl rfl) rfl rfl
  | err e => cases e
  | panic =>
    rw [hmap] at hperform
    cases hperform
    refine .stopped (fun hserved => ?_) (by simp) flight 
      (around.panicked hP (fun _ hq => absurd hq List.not_mem_nil) rfl rfl)
    cases hmap.symm.trans hserved.page

/-- There is no memory for the next stack. -/
theorem Phase.refuse (hP : P.Addressable) (split : P.enabled = done ++ p :: rest) (none : (P.stack p).isSome = false)
    (program : m.ops = .panic :: P.remaining rest) (flight : m.flight = [])
    (around : Around P done (fun _ => False) .running m) (h : Machine.bspStep P m = some m') : Phase P m' := by
  obtain ⟨op, ops, m₁, hops, hperform, rfl⟩ := bspStep_cases h
  obtain ⟨rfl, rfl⟩ := List.cons.inj (hops.symm.trans program)
  cases hperform
  refine .stopped (fun hserved => ?_) (by simp [Platform.remaining]) flight
    (around.panicked hP (fun q hq => ?_) rfl rfl)
  · cases none.symm.trans (hserved.each done p rest split).1
  · rw [split]
    exact List.mem_append_left _ hq

/-- Nobody else has the words of the page. -/
theorem Phase.heap (hheap : P.Reserved) (h : Phase P m) {addr value : Nat} (hframe : P.heap (addr / 4096) = true) :
    Phase P { m with word := Function.update m.word addr value } := by
  have hword : ∀ a, a / 4096 = TRAMPOLINE_ADDR / 4096 → Function.update m.word addr value a = m.word a := by
    intro a ha
    refine Function.update_of_ne ?_ ..
    rintro rfl
    rw [ha] at hframe
    cases hheap.symm.trans hframe
  cases h with
  | initial program flight around kernel => exact .initial program flight (around.same rfl rfl) kernel
  | refused split none program flight around => exact .refused split none program flight (around.same rfl rfl)
  | stopped why more flight around => exact .stopped why more flight (around.same rfl rfl)
  | finished page program flight around => exact .finished page program flight (around.same rfl rfl)
  | bringing b =>
    refine .bringing { b with
      around := b.around.same rfl rfl
      ready := fun hno => ?_
      told := fun a v hmem hne hno => ?_ }
    · exact (hword _ (by decide)).trans (b.ready hno)
    · exact (hword _ (stored_in_page hmem)).trans (b.told a v hmem hne hno)

theorem Phase.step (hP : P.Addressable) (hheap : P.Reserved) (h : Phase P m) {l : Machine.Label}
    (hstep : step P m l = some m') : Phase P m' := by
  cases l with
  | heap addr value =>
    rw [Machine.step] at hstep
    split at hstep
    · cases hstep
      exact h.heap hheap (by assumption)
    · cases hstep
  | bsp =>
    cases h with
    | initial program flight around kernel => exact Phase.begin hP program flight around kernel hstep
    | bringing b => exact b.bspStep hP hstep
    | refused split none program flight around => exact Phase.refuse hP split none program flight around hstep
    | stopped why more flight around =>
      rw [Machine.step, Machine.bspStep, around.bsp] at hstep
      cases hstep
    | finished page program flight around =>
      obtain ⟨op, ops, m₁, hops, hperform, rfl⟩ := bspStep_cases hstep
      rcases program with program | ⟨program, _⟩
      · obtain ⟨rfl, rfl⟩ := List.cons.inj (hops.symm.trans program)
        cases hperform
        exact .finished page (.inr ⟨rfl, rfl⟩) flight (around.same rfl rfl)
      · rw [program] at hops
        cases hops
  | deliver =>
    have hnone : m.flight ≠ [] := by
      intro hflight
      rw [Machine.step, Machine.deliver, hflight] at hstep
      cases hstep
    cases h with
    | bringing b => exact .bringing (b.deliver hP hstep)
    | initial _ flight _ _ | refused _ _ _ flight _ | stopped _ _ flight _ | finished _ _ flight _ =>
      exact absurd flight hnone
  | ap id =>
    have hidle : ∀ {done boot}, Around P done (fun _ => False) boot m → boot = .running ∨ boot = .panicked →
        Phase P m' := by
      intro done boot around hboot
      rw [Machine.step, around.idle hboot not_false] at hstep
      cases hstep
    cases h with
    | initial _ _ around _ | refused _ _ _ _ around | finished _ _ _ around => exact hidle around (.inl rfl)
    | stopped _ _ _ around => exact hidle around (.inr rfl)
    | @bringing done rest p ops r n b =>
      rw [Machine.step] at hstep
      by_cases hid : id = p.localApicId
      · subst hid
        by_cases hn : r = 2 ∧ n < P.last (P.ok done p)
        · obtain ⟨hnext, hrun⟩ := b.ap hP hn.1 hn.2
          obtain rfl := Option.some.inj (hrun.symm.trans hstep)
          exact .bringing hnext
        · rw [b.ap_waits hn] at hstep
          cases hstep
      · rw [b.around.idle (.inl rfl) hid] at hstep
        cases hstep

theorem reachable_phase (hP : P.Addressable) (hheap : P.Reserved) {ls : List Machine.Label}
    (h : Runs.run (step P) P.initial ls = some m) : Phase P m :=
  Runs.run_invariant (fun _ _ _ ht hstep => ht.step hP hheap hstep) (phase_initial P) h

/-! ## Nothing gets stuck -/

theorem bspStep_run (hbsp : m.cpu P.bsp = Cpu.blank .running) {op : Op} {ops : List Op} (hops : m.ops = op :: ops)
    {m₁ : Machine P.paging} (hperform : perform P m op = some m₁) : bspStep P m = some { m₁ with ops := ops } := by
  rw [Machine.bspStep, hbsp, hops]
  simp [Cpu.blank, hperform]

/-- When the processor is as far as it can come by itself, the boot processor goes on. -/
theorem Bringing.bsp_goes_on (hP : P.Addressable) (b : Bringing P done p rest ops r n m) (hsent : r + unsent ops = 2)
    (hup : r = 2 → n = 11) : ∃ op left m₁, m.ops = op :: left ∧ perform P m op = some m₁ := by
  have hflight : m.flight = [] := by
    rw [b.flight, List.drop_eq_nil_iff, List.length_take]
    omega
  cases ops with
  | nil => exact absurd rfl b.more
  | cons op ops =>
    refine ⟨op, ops ++ P.remaining rest, ?_⟩
    have hready : unsent (op :: ops) = 0 → m.word Trampoline.ready = 1 ∧ m.apReady = true := by
      intro hzero
      have hn : n = 11 := hup (by omega)
      obtain ⟨hstored, hclear⟩ := b.prepared hP hzero
      rw [b.ready (hstored Trampoline.ready), b.cleared hclear, hn]
      exact ⟨rfl, rfl⟩
    cases next_of_suffix (hP.bounded_next b.split) b.suffix with
    | store _ _ _ => exact ⟨_, b.program, rfl⟩
    | clear _ _ _ => exact ⟨_, b.program, rfl⟩
    | waitDelivered _ => exact ⟨m, b.program, if_pos hflight⟩
    | writeIcr _ _ _ _ => exact ⟨_, b.program, rfl⟩
    | waitWord => exact ⟨m, b.program, if_pos (by rw [(hready rfl).1]; decide)⟩
    | waitApReady => exact ⟨m, b.program, if_pos (hready rfl).2⟩

/-- The boot processor can come to the end from here. -/
def Completes (P : Platform) (m : Machine P.paging) : Prop :=
  ∃ ls m', Runs.run (Machine.step P) m ls = some m' ∧ m'.ops = []

theorem Completes.before {l : Machine.Label} (hstep : Machine.step P m l = some m') (h : Completes P m') :
    Completes P m := by
  obtain ⟨ls, m'', hrun, hops⟩ := h
  exact ⟨l :: ls, m'', by simp only [Runs.run, hstep, Option.bind_some, hrun], hops⟩

theorem bsp_completes (hP : P.Addressable) (hheap : P.Reserved) (h : Phase P m)
    (hbsp : m.cpu P.bsp = Cpu.blank .running) {op : Op} {left : List Op} (hops : m.ops = op :: left)
    {m₁ : Machine P.paging} (hperform : perform P m op = some m₁)
    (hrest : ∀ m', Phase P m' → 16 * m'.ops.length + 16 = 16 * m.ops.length → Completes P m') : Completes P m := by
  have hstep : Machine.step P m .bsp = some { m₁ with ops := left } := bspStep_run hbsp hops hperform
  refine .before hstep (hrest _ (h.step hP hheap hstep) ?_)
  rw [hops, List.length_cons]
  dsimp only
  omega

/-- From wherever it has come to, the bring-up can go on to its end. -/
theorem phase_completes (hP : P.Addressable) (hheap : P.Reserved) (hlow : P.table < 2 ^ 32 ∨ P.enabled = [])
    (hserved : P.Served) (N : Nat) :
    (∀ m, Phase P m → 16 * m.ops.length + 13 ≤ N → Completes P m) ∧
      ∀ {m done p rest ops r n}, Bringing P done p rest ops r n m →
        16 * m.ops.length + (2 - r) + (11 - n) ≤ N → Completes P m := by
  induction N using Nat.strong_induction_on with
  | _ N ih =>
    have hbringing : ∀ {m done p rest ops r n}, Bringing P done p rest ops r n m →
        16 * m.ops.length + (2 - r) + (11 - n) ≤ N → Completes P m := by
      intro m done p rest ops r n b hN
      have harrived := b.arrived
      have hok : P.ok done p = true := (hserved.each done p rest b.split).2
      have hlast : P.last (P.ok done p) = 11 := by
        rw [hok]
        exact if_pos (hlow.resolve_right (by rw [b.split]; simp))
      by_cases hsent : r + unsent ops = 2
      · by_cases hn : r = 2 ∧ n < P.last (P.ok done p)
        · obtain ⟨hnext, hrun⟩ := b.ap hP hn.1 hn.2
          have hstep : Machine.step P m (.ap p.localApicId) = some (advanced P p (P.ok done p) m n) := hrun
          have hlen : (advanced P p (P.ok done p) m n).ops = m.ops := rfl
          exact .before hstep ((ih (N - 1) (by omega)).2 hnext (by rw [hlen]; omega))
        · have hup : r = 2 → n = 11 := fun hr => by
            have := (b.running hr).1
            omega
          obtain ⟨op, left, m₁, hops, hperform⟩ := b.bsp_goes_on hP hsent hup
          have hpos : 0 < m.ops.length := by rw [hops]; simp
          refine bsp_completes hP hheap (.bringing b) b.around.bsp hops hperform fun m' hm' hlen => ?_
          exact (ih (N - 1) (by omega)).1 m' hm' (by omega)
      · have hlen : 0 < m.flight.length := by
          rw [b.flight, List.length_drop, List.length_take]
          simp only [List.length_cons, List.length_nil]
          omega
        obtain ⟨ipi, later, hflight⟩ := List.exists_cons_of_length_pos hlen
        have hstep : Machine.step P m .deliver = some { m with
            flight := later
            cpu := fun id => if ipi.accepted P.isVer2 id then (m.cpu id).receive ipi else m.cpu id } := by
          rw [Machine.step, Machine.deliver, hflight]
        exact .before hstep ((ih (N - 1) (by omega)).2 (b.deliver hP hstep) (by dsimp only; omega))
    refine ⟨fun m hm hN => ?_, hbringing⟩
    cases hm with
    | initial program flight around kernel =>
      have hperform : perform P m .writeTrampoline = some { m with
          mapped := true
          kernel := P.mapped
          word := fun a => if a / 4096 = TRAMPOLINE_ADDR / 4096 then 0 else m.word a } := by
        simp only [perform, kernel, hserved.page]
        rfl
      refine bsp_completes hP hheap (.initial program flight around kernel) around.bsp program hperform
        fun m' hm' hlen => ?_
      exact (ih (N - 1) (by omega)).1 m' hm' (by omega)
    | @bringing done rest p ops r n b =>
      have harrived := b.arrived
      exact hbringing b (by omega)
    | @refused done rest p split none program flight around =>
      cases none.symm.trans (hserved.each done p rest split).1
    | stopped why more flight around => exact absurd hserved why
    | finished page program flight around =>
      rcases program with program | ⟨program, _⟩
      · have hstep : Machine.step P m .bsp = some { m with mapped := false, ops := [] } :=
          bspStep_run around.bsp program rfl
        exact .before hstep ⟨[], _, rfl, rfl⟩
      · exact ⟨[], m, rfl, program⟩

/-- The end of the program is only come to when all are up. -/
theorem Phase.over (h : Phase P m) (hover : m.ops = []) :
    (P.enabled ≠ [] → P.table < 2 ^ 32) ∧ P.Served ∧ m.mapped = false ∧
      ∀ p ∈ P.enabled, m.cpu p.localApicId = P.cpuAt p true 11 := by
  cases h with
  | initial program _ _ _ =>
    rw [hover] at program
    cases program
  | bringing b =>
    have hprogram := b.program
    rw [hover] at hprogram
    exact absurd (List.append_eq_nil_iff.mp hprogram.symm).1 b.more
  | refused _ _ program _ _ =>
    rw [hover] at program
    cases program
  | stopped _ more _ _ => exact absurd hover more
  | finished page program _ around =>
    rcases program with program | ⟨_, hmapped⟩
    · rw [hover] at program
      cases program
    · exact ⟨around.low, ⟨page, around.served⟩, hmapped, around.parked⟩

end Invariant

/-! ## The bring-up -/

/-- The stack pointer is in the stack of a processor. -/
def Platform.OnStack (P : Platform) (p : Processor) (rsp : Nat) : Prop :=
  ∃ s, P.stack p = some s ∧ s < rsp ∧ rsp ≤ s + STACK_SIZE

/-- A processor that runs, runs on its own stack, which is nobody else's, and for itself. -/
structure Own (P : Platform) (p : Processor) (c : Cpu) : Prop where
  alive : c.pc ≠ .lost ∧ c.pc ≠ .panicked
  stack : c.rsp = 0 ∨ c.rsp = P.stackTop p ∧ P.OnStack p c.rsp ∧ ∀ q ∈ P.enabled, q ≠ p → ¬ P.OnStack q c.rsp
  number : c.threadData = none ∨ c.threadData = some p.localApicId

/-- It has come up. -/
structure Up (P : Platform) (p : Processor) (c : Cpu) : Prop where
  waits : c.pc = .spin
  table : c.cr3 = P.table
  stack : c.rsp = P.stackTop p ∧ P.OnStack p c.rsp
  number : c.threadData = some p.localApicId ∧ c.announced = some p.localApicId

/-- What has to be there for all processors to come up. -/
structure Platform.Ready (P : Platform) : Prop where
  addressable : P.Addressable
  reserved : P.Reserved
  low : P.table < 2 ^ 32
  served : P.Served
  stacked : P.Stacked

section Ready

variable {P : Platform} {m : Machine P.paging} {p : Processor} {done rest : List Processor} {busy : Nat → Prop}

theorem Platform.Ready.given (hP : P.Ready) (hp : p ∈ P.enabled) : (P.stack p).isSome = true := by
  obtain ⟨done, rest, hsplit⟩ := List.mem_iff_append.mp hp
  exact (hP.served.each done p rest hsplit).1

theorem Platform.Ready.onStack (hP : P.Ready) (hp : p ∈ P.enabled) : P.OnStack p (P.stackTop p) ∧
    ∀ q ∈ P.enabled, q ≠ p → ¬ P.OnStack q (P.stackTop p) := by
  obtain ⟨s, hs⟩ := Option.isSome_iff_exists.mp (hP.given hp)
  have hroom := hP.stacked.room p hp s hs
  have hsize : STACK_SIZE = 131072 := rfl
  have htop : P.stackTop p = s + STACK_SIZE - 256 := by
    unfold Platform.stackTop Platform.stackOf
    rw [hs, Option.getD_some]
    omega
  rw [htop]
  refine ⟨⟨s, hs, by omega, by omega⟩, ?_⟩
  rintro q hq hne ⟨t, ht, hlow, hhigh⟩
  have hapart := hP.stacked.apart p hp q hq hne.symm s t hs ht
  omega

theorem own_blank (P : Platform) (p : Processor) {pc : Pc} (h : pc ≠ .lost ∧ pc ≠ .panicked) : Own P p (.blank pc) :=
  ⟨h, .inl rfl, .inl rfl⟩

theorem own_cpuAt (hP : P.Ready) (hp : p ∈ P.enabled) {n : Nat} (hn : n ≤ 11) : Own P p (P.cpuAt p true n) where
  alive := by
    have hlow' : P.table < 4294967296 := hP.low
    interval_cases n <;> simp [Platform.cpuAt, hlow']
  stack := by
    simp only [Platform.cpuAt]
    split
    · exact .inl rfl
    · exact .inr ⟨rfl, hP.onStack hp⟩
  number := by
    simp only [Platform.cpuAt]
    split
    · exact .inr rfl
    · exact .inl rfl

theorem up_cpuAt (hP : P.Ready) (hp : p ∈ P.enabled) : Up P p (P.cpuAt p true 11) where
  waits := rfl
  table := by
    have hmod : P.table % 2 ^ 32 = P.table := Nat.mod_eq_of_lt hP.low
    simp only [Platform.cpuAt]
    rw [if_neg (by decide), hmod]
  stack := by
    simp only [Platform.cpuAt]
    rw [if_neg (by decide)]
    exact ⟨rfl, (hP.onStack hp).1⟩
  number := ⟨rfl, rfl⟩

theorem around_own (hP : P.Ready) (hdone : ∀ q ∈ done, q ∈ P.enabled) (h : Around P done busy .running m)
    (hp : p ∈ P.enabled) (hbusy : ¬ busy p.localApicId) : Own P p (m.cpu p.localApicId) := by
  by_cases hq : ∃ q ∈ done, p.localApicId = q.localApicId
  · obtain ⟨q, hq, he⟩ := hq
    obtain rfl : p = q := List.inj_on_of_nodup_map hP.addressable.distinct hp (hdone q hq) he
    rw [h.parked p hq]
    exact own_cpuAt hP hp (Nat.le_refl 11)
  · rw [h.off _ (hP.addressable.other p hp) (fun q hq' he => hq ⟨q, hq', he⟩) hbusy]
    exact own_blank P p ⟨nofun, nofun⟩

theorem Bringing.own (hP : P.Ready) {q : Processor} {ops : List Op} {r n : Nat}
    (b : Bringing P done q rest ops r n m) (hp : p ∈ P.enabled) : Own P p (m.cpu p.localApicId) := by
  have hq : q ∈ P.enabled := by rw [b.split]; simp
  by_cases he : p.localApicId = q.localApicId
  · obtain rfl : p = q := List.inj_on_of_nodup_map hP.addressable.distinct hp hq he
    have hok : P.ok done p = true := (hP.served.each done p rest b.split).2
    by_cases hr : r = 2
    · obtain ⟨hn, hcpu⟩ := b.running hr
      rw [hcpu, hok]
      exact own_cpuAt hP hp (Nat.le_trans hn (last_le P _))
    · have harrived := b.arrived
      rw [(b.fresh (by omega)).2]
      split
      · exact own_blank P p ⟨nofun, nofun⟩
      · exact own_blank P p ⟨nofun, nofun⟩
  · exact around_own hP (fun q' hq' => by rw [b.split]; exact List.mem_append_left _ hq') b.around hp he

end Ready

/-- Whoever takes a step when, no processor is lost, panics or takes what was meant for another one, and
when the boot processor is through all of them are up. -/
theorem bring_up_safe {P : Platform} (hP : P.Ready) {ls : List Machine.Label} {m : Machine P.paging}
    (h : Runs.run (Machine.step P) P.initial ls = some m) :
    (m.cpu P.bsp).pc = .running ∧ ∀ p ∈ P.enabled, Own P p (m.cpu p.localApicId) ∧
      (m.ops = [] → Up P p (m.cpu p.localApicId)) := by
  have hphase := reachable_phase hP.addressable hP.reserved h
  refine ⟨?_, fun p hp => ⟨?_, fun hover => ?_⟩⟩
  · have hbsp : m.cpu P.bsp = Cpu.blank .running := by
      cases hphase with
      | initial _ _ around _ | refused _ _ _ _ around | finished _ _ _ around => exact around.bsp
      | bringing b => exact b.around.bsp
      | stopped why => exact absurd hP.served why
    rw [hbsp]
    rfl
  · cases hphase with
    | initial _ _ around _ => exact around_own hP (fun _ hq => absurd hq List.not_mem_nil) around hp not_false
    | bringing b => exact b.own hP hp
    | refused split _ _ _ around =>
      exact around_own hP (fun q hq => by rw [split]; exact List.mem_append_left _ hq) around hp not_false
    | stopped why => exact absurd hP.served why
    | finished _ _ _ around => exact around_own hP (fun _ hq => hq) around hp not_false
  · rw [(hphase.over hover).2.2.2 p hp]
    exact up_cpuAt hP hp

/-- Three processors besides the first one, of which one is not to be used. -/
def smallPlatform : Platform where
  isVer2 := false
  bsp := 0
  table := 0x5000
  kstartAp := 0xffff800000101000
  processors := [⟨1, 4, .waitingForSipi⟩, ⟨2, 5, .disabled⟩, ⟨3, 6, .waitingForSipi⟩]
  stack p := some (0xffffc00000000000 + p.localApicId * STACK_SIZE)
  heap n := decide (100 ≤ n)
  paging := .flat
  arith := .checked
  sections := ThreadData.smallSections
  kernel := ThreadData.Vm.untouched

theorem smallPlatform_ready : smallPlatform.Ready where
  addressable := ⟨by decide, by decide, by decide⟩
  reserved := rfl
  low := by decide
  served := by
    refine ⟨by decide +kernel, fun done p rest hsplit => ?_⟩
    have henabled : smallPlatform.enabled = [⟨1, 4, .waitingForSipi⟩, ⟨3, 6, .waitingForSipi⟩] := rfl
    rw [henabled] at hsplit
    rcases done with _ | ⟨d, _ | ⟨e, done⟩⟩
    · obtain ⟨rfl, _⟩ := List.cons.inj hsplit
      decide +kernel
    · simp only [List.cons_append, List.nil_append, List.cons.injEq] at hsplit
      obtain ⟨rfl, rfl, _⟩ := hsplit
      decide +kernel
    · simp at hsplit
  stacked := by
    have hids : ∀ p ∈ smallPlatform.enabled, p.localApicId ≤ 6 ∧
        ∀ q ∈ smallPlatform.enabled, p ≠ q → p.localApicId ≠ q.localApicId := by decide
    refine ⟨fun p hp s hs => ?_, fun p hp q hq hne s t hs ht => ?_⟩
    · have hle := (hids p hp).1
      obtain rfl := Option.some.inj hs
      unfold STACK_SIZE
      omega
    · have hdistinct := (hids p hp).2 q hq hne
      obtain rfl := Option.some.inj hs
      obtain rfl := Option.some.inj ht
      unfold STACK_SIZE
      omega

/-- The heap is used while the first of the two is started. -/
def smallRun : List Machine.Label :=
  [.bsp] ++ List.replicate 9 .bsp ++ [.deliver] ++ List.replicate 3 .bsp ++ [.deliver, .ap 4, .heap 0x64000 7] ++
    List.replicate 10 (.ap 4) ++ List.replicate 3 .bsp ++ List.replicate 9 .bsp ++ [.deliver] ++
    List.replicate 3 .bsp ++ [.deliver] ++ List.replicate 11 (.ap 6) ++ List.replicate 3 .bsp ++ [.bsp]

theorem bring_up_safe_small : ∃ m, Runs.run (Machine.step smallPlatform) smallPlatform.initial smallRun = some m ∧
    m.ops = [] ∧ (m.cpu smallPlatform.bsp).pc = .running ∧ ∀ p ∈ smallPlatform.enabled,
      Own smallPlatform p (m.cpu p.localApicId) ∧ (m.ops = [] → Up smallPlatform p (m.cpu p.localApicId)) := by
  have hends : (Runs.run (Machine.step smallPlatform) smallPlatform.initial smallRun).any (·.ops == []) = true := by
    decide +kernel
  obtain ⟨m, hrun, hover⟩ := Option.any_eq_true _ _ |>.mp hends
  exact ⟨m, hrun, beq_iff_eq.mp hover, bring_up_safe smallPlatform_ready hrun⟩

/-- Where the heap has the frame of the trampoline, a store to it can lead a processor to another page table. -/
example : (Runs.run (Machine.step { smallPlatform with heap := fun _ => true }) (Platform.initial _)
    (List.replicate 10 .bsp ++ [.deliver] ++ List.replicate 3 .bsp ++
      [.deliver, .heap Trampoline.pageTable 0, .ap 4, .ap 4])).any (fun m => (m.cpu 4).pc == .lost) = true := by
  decide +kernel

/-- Every interleaving can be brought to its end exactly when the page table lies below 4 GiB, or there is
nobody to start, and there is room for all that is asked of memory and of the address space. -/
theorem bring_up_finishes_iff {P : Platform} (hP : P.Addressable) (hheap : P.Reserved) :
    (∀ ls m, Runs.run (Machine.step P) P.initial ls = some m →
      ∃ ls' m', Runs.run (Machine.step P) m ls' = some m' ∧ m'.ops = []) ↔
      (P.table < 2 ^ 32 ∨ P.enabled = []) ∧ P.Served := by
  constructor
  · intro hall
    obtain ⟨ls, m, hrun, hover⟩ := hall [] P.initial rfl
    obtain ⟨hlow, hserved, _⟩ := (reachable_phase hP hheap hrun).over hover
    refine ⟨?_, hserved⟩
    by_cases hsome : P.enabled = []
    · exact .inr hsome
    · exact .inl (hlow hsome)
  · rintro ⟨hlow, hserved⟩ ls m hrun
    exact (phase_completes hP hheap hlow hserved _).1 m (reachable_phase hP hheap hrun) (Nat.le_refl _)

theorem bring_up_finishes_small :
    (∀ ls m, Runs.run (Machine.step smallPlatform) smallPlatform.initial ls = some m →
      ∃ ls' m', Runs.run (Machine.step smallPlatform) m ls' = some m' ∧ m'.ops = []) ↔
      (smallPlatform.table < 2 ^ 32 ∨ smallPlatform.enabled = []) ∧ smallPlatform.Served :=
  bring_up_finishes_iff smallPlatform_ready.addressable smallPlatform_ready.reserved

end MultiCore

end Idkernel
