import Mathlib.Algebra.GroupWithZero.Nat
import Mathlib.Algebra.Order.BigOperators.Group.Finset
import Mathlib.Data.Fintype.Basic
import Mathlib.Logic.Function.Basic
import Idkernel.Runs

/-!
# Printing under interrupts

The kernel prints from everywhere, its interrupt handlers included, and all
processors share one console. A processor runs a list of operations. An
interrupt puts the list of its handler in front; `iretq` comes back to what was
interrupted, with the interrupt flag that it had.
-/
namespace Idkernel

namespace Interrupts

/-! ## Operations -/

inductive Lock where
  | vgaWriter | pics
  deriving DecidableEq, Repr

/-- The interrupts that have a handler. -/
inductive InterruptIndex where
  | timer | keyboard
  deriving DecidableEq, Repr

/-- The pieces that `write_fmt` writes one after the other. -/
abbrev Message := List (List Char)

inductive Op where
  /-- `are_enabled`, kept in a local variable of `without_interrupts` -/
  | readFlag
  /-- `disable`, if interrupts were enabled -/
  | disableSaved
  /-- `enable`, if interrupts were enabled -/
  | restoreSaved
  | acquire (l : Lock)
  | release (l : Lock)
  | writeStr (s : List Char)
  | notifyEndOfInterrupt (irq : InterruptIndex)
  | readPort
  | sti
  | cli
  /-- Anything else that a processor does. -/
  | work
  | breakpoint (m : Message)
  | fault (ms : List Message)
  | iretq
  | hltLoop
  deriving DecidableEq, Repr

def print (m : Message) : List Op :=
  [.readFlag, .disableSaved, .acquire .vgaWriter] ++ m.map .writeStr ++ [.release .vgaWriter, .restoreSaved]

def notify (irq : InterruptIndex) : List Op := [.acquire .pics, .notifyEndOfInterrupt irq, .release .pics]

def dot : Message := [['.']]

def timerInterruptHandler : List Op := print dot ++ notify .timer ++ [.iretq]

def keyboardInterruptHandler : List Op := .readPort :: notify .keyboard ++ [.iretq]

def InterruptIndex.handler : InterruptIndex → List Op
  | .timer => timerInterruptHandler
  | .keyboard => keyboardInterruptHandler

def breakpointHandler (m : Message) : List Op := print m ++ [.iretq]

/-- The handlers that tell what has happened and then stop. -/
def faultHandler (ms : List Message) : List Op := ms.flatMap print ++ [.hltLoop]

/-- What the kernel does between two points at which it may be said to be somewhere. -/
inductive Stmt where
  | print (m : Message)
  | enable
  | disable
  | work
  | breakpoint (m : Message)
  | fault (ms : List Message)
  | hltLoop
  deriving DecidableEq, Repr

/-- The handler of a panic runs with the interrupt flag as it is. -/
def panic (info : Message) : List Stmt := [.print info, .hltLoop]

def Stmt.code : Stmt → List Op
  | .print m => Interrupts.print m
  | .enable => [.sti]
  | .disable => [.cli]
  | .work => [.work]
  | .breakpoint m => [.breakpoint m]
  | .fault ms => [.fault ms]
  | .hltLoop => [.hltLoop]

def code (ss : List Stmt) : List Op := ss.flatMap Stmt.code

/-! ## Processors -/

/-- Why the processor is not where it was. -/
inductive Vector where
  | irq (irq : InterruptIndex)
  | breakpoint
  | fault
  deriving DecidableEq, Repr

/-- What an interrupt or an exception puts on the stack. -/
structure Frame where
  vector : Vector
  ops : List Op
  saved : List Bool
  flag : Bool
  deriving DecidableEq, Repr

structure Cpu where
  ops : List Op
  /-- The local variables of the calls of `without_interrupts`. -/
  saved : List Bool
  /-- The interrupt flag. -/
  flag : Bool
  returns : List Frame
  deriving DecidableEq, Repr

/-- All handlers are behind interrupt gates. -/
def Cpu.enter (c : Cpu) (vector : Vector) (handler ops : List Op) : Cpu :=
  ⟨handler, [], false, ⟨vector, ops, c.saved, c.flag⟩ :: c.returns⟩

structure Machine (ι : Type) where
  cpu : ι → Cpu
  locks : Lock → Option ι
  out : List (List Char)
  /-- The lines that the interrupt controller waits for the end of. -/
  inService : List InterruptIndex

/-- A line is let through when none of the same or of a higher priority is in service. -/
def accepts (inService : List InterruptIndex) : InterruptIndex → Prop
  | .timer => .timer ∉ inService
  | .keyboard => inService = []

instance (inService : List InterruptIndex) (irq : InterruptIndex) : Decidable (accepts inService irq) := by
  cases irq <;> unfold accepts <;> infer_instance

/-- An end of interrupt is for the line of the highest priority that is in service. -/
def endOfInterrupt (inService : List InterruptIndex) : List InterruptIndex :=
  if .timer ∈ inService then inService.erase .timer else inService.erase .keyboard

inductive Label (ι : Type) where
  | run : ι → Label ι
  | interrupt : InterruptIndex → Label ι
  deriving DecidableEq, Repr

namespace Machine

variable {ι : Type} [DecidableEq ι]

def setCpu (m : Machine ι) (i : ι) (c : Cpu) : Machine ι := { m with cpu := Function.update m.cpu i c }

/-- The next operation of a processor. One that spins has no step until the lock is free. -/
def perform (m : Machine ι) (i : ι) : Option (Machine ι) :=
  let c := m.cpu i
  match c.ops with
  | [] => none
  | .readFlag :: ops => some (m.setCpu i { c with ops := ops, saved := c.flag :: c.saved })
  | .disableSaved :: ops => match c.saved with
    | [] => none
    | saved :: _ => some (m.setCpu i { c with ops := ops, flag := if saved then false else c.flag })
  | .restoreSaved :: ops => match c.saved with
    | [] => none
    | saved :: rest => some (m.setCpu i { c with ops := ops, saved := rest, flag := if saved then true else c.flag })
  | .acquire l :: ops =>
    if m.locks l = none then some { m.setCpu i { c with ops := ops } with locks := Function.update m.locks l (some i) }
    else none
  | .release l :: ops => some { m.setCpu i { c with ops := ops } with locks := Function.update m.locks l none }
  | .writeStr s :: ops => some { m.setCpu i { c with ops := ops } with out := m.out ++ [s] }
  | .notifyEndOfInterrupt _ :: ops =>
    some { m.setCpu i { c with ops := ops } with inService := endOfInterrupt m.inService }
  | .readPort :: ops => some (m.setCpu i { c with ops := ops })
  | .sti :: ops => some (m.setCpu i { c with ops := ops, flag := true })
  | .cli :: ops => some (m.setCpu i { c with ops := ops, flag := false })
  | .work :: ops => some (m.setCpu i { c with ops := ops })
  | .breakpoint msg :: ops => some (m.setCpu i (c.enter .breakpoint (breakpointHandler msg) ops))
  | .fault ms :: ops => some (m.setCpu i (c.enter .fault (faultHandler ms) ops))
  | .iretq :: _ => match c.returns with
    | [] => none
    | f :: rest => some (m.setCpu i ⟨f.ops, f.saved, f.flag, rest⟩)
  | .hltLoop :: _ => none

/-- The controller interrupts one processor, `bsp`, if that lets itself be interrupted. -/
def step (bsp : ι) (m : Machine ι) : Label ι → Option (Machine ι)
  | .run i => m.perform i
  | .interrupt irq =>
    if (m.cpu bsp).flag ∧ accepts m.inService irq then
      some { m.setCpu bsp ((m.cpu bsp).enter (.irq irq) irq.handler (m.cpu bsp).ops) with
        inService := irq :: m.inService }
    else none

/-- Every processor is at the start of a program. -/
def initial (program : ι → List Stmt) (flag : ι → Bool) : Machine ι where
  cpu i := ⟨code (program i), [], flag i, []⟩
  locks _ := none
  out := []
  inService := []

end Machine

/-! ## What is still to come -/

/-- The messages of some code, when a part of the first one has been written. -/
def pending : Message → List Op → List Message
  | _, [] => []
  | w, .writeStr s :: ops => pending (w ++ [s]) ops
  | w, .release .vgaWriter :: ops => w :: pending [] ops
  | w, .breakpoint m :: ops => m :: pending w ops
  | _, .fault ms :: _ => ms
  | _, .hltLoop :: _ => []
  | w, _ :: ops => pending w ops

/-- The ends of interrupts that some code is to tell the controller. -/
def owed : List Op → List InterruptIndex
  | [] => []
  | .notifyEndOfInterrupt irq :: ops => irq :: owed ops
  | _ :: ops => owed ops

section Pending

variable {m w : Message} {ops : List Op}

theorem pending_writes : pending w (m.map .writeStr ++ ops) = pending (w ++ m) ops := by
  induction m generalizing w with
  | nil => simp
  | cons s m ih => simp [pending, ih]

@[simp] theorem pending_print : pending [] (print m ++ ops) = m :: pending [] ops := by
  unfold print
  simp only [List.append_assoc, List.cons_append, List.nil_append, pending, pending_writes]

@[simp] theorem owed_append (xs ys : List Op) : owed (xs ++ ys) = owed xs ++ owed ys := by
  induction xs with
  | nil => rfl
  | cons op xs ih => cases op <;> simp [owed, ih]

@[simp] theorem owed_print : owed (print m) = [] := by
  have hwrites : owed (m.map .writeStr) = [] := by
    induction m with
    | nil => rfl
    | cons s m ih => exact ih
  unfold print
  simp [owed, hwrites]

theorem pending_prints {ms : List Message} : pending [] (ms.flatMap print ++ ops) = ms ++ pending [] ops := by
  induction ms with
  | nil => rfl
  | cons m ms ih => rw [List.flatMap_cons, List.append_assoc, pending_print, ih, List.cons_append]

theorem owed_prints (ms : List Message) : owed (ms.flatMap print) = [] := by
  induction ms with
  | nil => rfl
  | cons m ms ih => rw [List.flatMap_cons, owed_append, owed_print, ih, List.nil_append]

theorem pending_breakpointHandler : pending [] (breakpointHandler m) = [m] := by
  rw [breakpointHandler, pending_print]
  rfl

theorem pending_faultHandler (ms : List Message) : pending [] (faultHandler ms) = ms := by
  rw [faultHandler, pending_prints]
  exact List.append_nil ms

theorem pending_handler (irq : InterruptIndex) :
    pending [] irq.handler = List.replicate (if irq = .timer then 1 else 0) dot := by
  cases irq <;> rfl

theorem owed_handler (irq : InterruptIndex) : owed irq.handler = [irq] := by
  cases irq <;> rfl

theorem owed_breakpointHandler : owed (breakpointHandler m) = [] := by
  rw [breakpointHandler, owed_append, owed_print]
  rfl

theorem owed_faultHandler (ms : List Message) : owed (faultHandler ms) = [] := by
  rw [faultHandler, owed_append, owed_prints]
  rfl

end Pending

/-- The messages of a program, up to where it stops. -/
def messages : List Stmt → List Message
  | [] => []
  | .print m :: ss => m :: messages ss
  | .breakpoint m :: ss => m :: messages ss
  | .fault ms :: _ => ms
  | .hltLoop :: _ => []
  | _ :: ss => messages ss

/-- No program talks to the controller. -/
theorem owed_code (ss : List Stmt) : owed (code ss) = [] := by
  induction ss with
  | nil => rfl
  | cons s ss ih =>
    have hcode : code (s :: ss) = s.code ++ code ss := List.flatMap_cons
    rw [hcode, owed_append, ih, List.append_nil]
    cases s with
    | print m => exact owed_print
    | enable | disable | work | breakpoint | fault | hltLoop => rfl

theorem pending_code (ss : List Stmt) : pending [] (code ss) = messages ss := by
  induction ss with
  | nil => rfl
  | cons s ss ih =>
    have hcode : code (s :: ss) = s.code ++ code ss := List.flatMap_cons
    rw [hcode]
    cases s with
    | print m => rw [Stmt.code, pending_print, ih, messages]
    | breakpoint m => exact congrArg (m :: ·) ih
    | fault ms => rfl
    | hltLoop => rfl
    | enable | disable | work => exact ih

/-- The flag that a program ends with. A panic leaves it alone, the handler of a fault is behind a gate that clears
it and never goes back. -/
def lastFlag : Bool → List Stmt → Bool
  | flag, [] => flag
  | flag, .hltLoop :: _ => flag
  | _, .fault _ :: _ => false
  | _, .enable :: ss => lastFlag true ss
  | _, .disable :: ss => lastFlag false ss
  | flag, _ :: ss => lastFlag flag ss

/-! ## Code that fits -/

/-- Code of a program, or of the handler of a vector, that may run on with this flag, these saved flags
and this lock. Locks are only held, one at a time, while interrupts are disabled. -/
inductive Fits (source : Option Vector) (last : Bool) : Bool → List Bool → Option Lock → List Op → Prop where
  | done : source = none → Fits source last last [] none []
  | iretq {f : Bool} {v : Vector} : source = some v → v ≠ .fault → Fits source last f [] none [.iretq]
  | halted : source = some .fault → Fits source last last [] none [.hltLoop]
  | readFlag {f : Bool} {sv : List Bool} {h : Option Lock} {ops : List Op} :
      Fits source last f (f :: sv) h ops → Fits source last f sv h (.readFlag :: ops)
  | disableSaved {f : Bool} {sv : List Bool} {h : Option Lock} {ops : List Op} :
      Fits source last false (f :: sv) h ops → Fits source last f (f :: sv) h (.disableSaved :: ops)
  | restoreSaved {b : Bool} {sv : List Bool} {ops : List Op} :
      Fits source last b sv none ops → Fits source last false (b :: sv) none (.restoreSaved :: ops)
  | acquire {sv : List Bool} {l : Lock} {ops : List Op} :
      Fits source last false sv (some l) ops → Fits source last false sv none (.acquire l :: ops)
  | release {sv : List Bool} {l : Lock} {ops : List Op} :
      Fits source last false sv none ops → Fits source last false sv (some l) (.release l :: ops)
  | writeStr {sv : List Bool} {s : List Char} {ops : List Op} :
      Fits source last false sv (some .vgaWriter) ops →
        Fits source last false sv (some .vgaWriter) (.writeStr s :: ops)
  | notifyEndOfInterrupt {sv : List Bool} {irq : InterruptIndex} {ops : List Op} :
      source = some (.irq irq) → owed ops = [] → Fits source last false sv (some .pics) ops →
        Fits source last false sv (some .pics) (.notifyEndOfInterrupt irq :: ops)
  | readPort {f : Bool} {sv : List Bool} {h : Option Lock} {ops : List Op} :
      Fits source last f sv h ops → Fits source last f sv h (.readPort :: ops)
  | sti {f : Bool} {ops : List Op} :
      source = none → Fits source last true [] none ops → Fits source last f [] none (.sti :: ops)
  | cli {f : Bool} {ops : List Op} :
      source = none → Fits source last false [] none ops → Fits source last f [] none (.cli :: ops)
  | work {f : Bool} {sv : List Bool} {h : Option Lock} {ops : List Op} :
      Fits source last f sv h ops → Fits source last f sv h (.work :: ops)
  | breakpoint {f : Bool} {m : Message} {ops : List Op} :
      source = none → Fits source last f [] none ops → Fits source last f [] none (.breakpoint m :: ops)
  | fault {f : Bool} {ms : List Message} {ops : List Op} :
      source = none → last = false → owed ops = [] → Fits source last f [] none (.fault ms :: ops)
  | hltLoop {ops : List Op} :
      source = none → owed ops = [] → Fits source last last [] none (.hltLoop :: ops)

section Fitting

variable {source : Option Vector} {last f : Bool} {sv : List Bool} {h : Option Lock} {ops : List Op}

theorem fits_writes {m : Message} (hops : Fits source last false sv (some .vgaWriter) ops) :
    Fits source last false sv (some .vgaWriter) (m.map .writeStr ++ ops) := by
  induction m with
  | nil => exact hops
  | cons s m ih => exact .writeStr ih

/-- Printing leaves the flag as it was. -/
theorem fits_print (m : Message) (hops : Fits source last f [] none ops) :
    Fits source last f [] none (print m ++ ops) := by
  unfold print
  simp only [List.append_assoc, List.cons_append, List.nil_append]
  exact .readFlag (.disableSaved (.acquire (fits_writes (.release (.restoreSaved hops)))))

theorem fits_handler (last : Bool) (irq : InterruptIndex) : Fits (some (.irq irq)) last false [] none irq.handler := by
  have hnotify : Fits (some (.irq irq)) last false [] none (notify irq ++ [.iretq]) :=
    .acquire (.notifyEndOfInterrupt rfl rfl (.release (.iretq rfl nofun)))
  cases irq with
  | timer => exact fits_print dot hnotify
  | keyboard => exact .readPort hnotify

theorem fits_breakpointHandler (last : Bool) (m : Message) :
    Fits (some .breakpoint) last false [] none (breakpointHandler m) :=
  fits_print m (.iretq rfl nofun)

theorem fits_faultHandler (ms : List Message) : Fits (some .fault) false false [] none (faultHandler ms) := by
  unfold faultHandler
  induction ms with
  | nil => exact .halted rfl
  | cons m ms ih =>
    rw [List.flatMap_cons, List.append_assoc]
    exact fits_print m ih

theorem fits_code (ss : List Stmt) (f : Bool) : Fits none (lastFlag f ss) f [] none (code ss) := by
  induction ss generalizing f with
  | nil => exact .done rfl
  | cons s ss ih =>
    have hcode : code (s :: ss) = s.code ++ code ss := List.flatMap_cons
    rw [hcode]
    cases s with
    | print m => exact fits_print m (ih f)
    | enable => exact .sti rfl (ih true)
    | disable => exact .cli rfl (ih false)
    | work => exact .work (ih f)
    | breakpoint m => exact .breakpoint rfl (ih f)
    | fault ms => exact .fault rfl rfl (owed_code ss)
    | hltLoop => exact .hltLoop rfl (owed_code ss)

/-- Only the handler of an interrupt has something to tell the controller, and only of that one. -/
theorem Fits.owed_cases (hfits : Fits source last f sv h ops) :
    owed ops = [] ∨ ∃ irq, owed ops = [irq] ∧ source = some (.irq irq) := by
  induction hfits with
  | @notifyEndOfInterrupt _ irq ops hirq howed =>
    have hone : owed (.notifyEndOfInterrupt irq :: ops) = [irq] := congrArg (irq :: ·) howed
    exact .inr ⟨irq, hone, hirq⟩
  | done | iretq | halted => exact .inl rfl
  | readFlag _ ih | disableSaved _ ih | restoreSaved _ ih | acquire _ ih | release _ ih | writeStr _ ih
  | readPort _ ih | work _ ih | sti _ _ ih | cli _ _ ih | breakpoint _ _ ih => exact ih
  | fault _ _ howed | hltLoop _ howed => exact .inl howed

theorem Fits.owed_nil (hfits : Fits source last f sv h ops) (hsource : source = none) : owed ops = [] := by
  rcases hfits.owed_cases with howed | ⟨irq, _, hirq⟩
  · exact howed
  · cases hsource.symm.trans hirq

/-- Who has the console is at a message, of which it has written a part. -/
theorem Fits.current (hfits : Fits source last f sv h ops) (hheld : h = some .vgaWriter) (w : Message) :
    ∃ msg rest, pending w ops = msg :: rest ∧ w <+: msg := by
  induction hfits generalizing w with
  | release =>
    obtain rfl := Option.some.inj hheld
    exact ⟨w, _, rfl, List.prefix_rfl⟩
  | writeStr _ ih =>
    obtain ⟨msg, rest, hpending, hprefix⟩ := ih rfl (w ++ [_])
    exact ⟨msg, rest, hpending, (List.prefix_append w _).trans hprefix⟩
  | readFlag _ ih | disableSaved _ ih | readPort _ ih | work _ ih => exact ih hheld w
  | notifyEndOfInterrupt | done | iretq | halted | restoreSaved | acquire | sti | cli | breakpoint | fault
  | hltLoop => cases hheld

theorem Fits.acquire_inv {l : Lock} (hfits : Fits source last f sv h (.acquire l :: ops)) :
    f = false ∧ h = none ∧ Fits source last f sv (some l) ops := by
  cases hfits with
  | acquire hops => exact ⟨rfl, rfl, hops⟩

theorem Fits.release_inv {l : Lock} (hfits : Fits source last f sv h (.release l :: ops)) :
    f = false ∧ h = some l ∧ Fits source last f sv none ops := by
  cases hfits with
  | release hops => exact ⟨rfl, rfl, hops⟩

theorem Fits.writeStr_inv {s : List Char} (hfits : Fits source last f sv h (.writeStr s :: ops)) :
    f = false ∧ h = some .vgaWriter ∧ Fits source last f sv h ops := by
  cases hfits with
  | writeStr hops => exact ⟨rfl, rfl, hops⟩

theorem Fits.notify_inv {irq : InterruptIndex} (hfits : Fits source last f sv h (.notifyEndOfInterrupt irq :: ops)) :
    f = false ∧ h = some .pics ∧ owed ops = [] ∧ Fits source last f sv h ops := by
  cases hfits with
  | notifyEndOfInterrupt _ howed hops => exact ⟨rfl, rfl, howed, hops⟩

end Fitting

/-! ## What a processor does -/

/-- A step that nobody else sees anything of. -/
inductive Moved : Cpu → Cpu → Prop where
  | readFlag {ops : List Op} {saved : List Bool} {flag : Bool} {returns : List Frame} :
      Moved ⟨.readFlag :: ops, saved, flag, returns⟩ ⟨ops, flag :: saved, flag, returns⟩
  | disableSaved {ops : List Op} {b : Bool} {saved : List Bool} {flag : Bool} {returns : List Frame} :
      Moved ⟨.disableSaved :: ops, b :: saved, flag, returns⟩ ⟨ops, b :: saved, if b then false else flag, returns⟩
  | restoreSaved {ops : List Op} {b : Bool} {saved : List Bool} {flag : Bool} {returns : List Frame} :
      Moved ⟨.restoreSaved :: ops, b :: saved, flag, returns⟩ ⟨ops, saved, if b then true else flag, returns⟩
  | readPort {ops : List Op} {saved : List Bool} {flag : Bool} {returns : List Frame} :
      Moved ⟨.readPort :: ops, saved, flag, returns⟩ ⟨ops, saved, flag, returns⟩
  | work {ops : List Op} {saved : List Bool} {flag : Bool} {returns : List Frame} :
      Moved ⟨.work :: ops, saved, flag, returns⟩ ⟨ops, saved, flag, returns⟩
  | sti {ops : List Op} {saved : List Bool} {flag : Bool} {returns : List Frame} :
      Moved ⟨.sti :: ops, saved, flag, returns⟩ ⟨ops, saved, true, returns⟩
  | cli {ops : List Op} {saved : List Bool} {flag : Bool} {returns : List Frame} :
      Moved ⟨.cli :: ops, saved, flag, returns⟩ ⟨ops, saved, false, returns⟩
  | breakpoint {m : Message} {ops : List Op} {saved : List Bool} {flag : Bool} {returns : List Frame} :
      Moved ⟨.breakpoint m :: ops, saved, flag, returns⟩
        ⟨breakpointHandler m, [], false, ⟨.breakpoint, ops, saved, flag⟩ :: returns⟩
  | fault {ms : List Message} {ops : List Op} {saved : List Bool} {flag : Bool} {returns : List Frame} :
      Moved ⟨.fault ms :: ops, saved, flag, returns⟩
        ⟨faultHandler ms, [], false, ⟨.fault, ops, saved, flag⟩ :: returns⟩
  | iretq {ops : List Op} {saved : List Bool} {flag : Bool} {fr : Frame} {returns : List Frame} :
      Moved ⟨.iretq :: ops, saved, flag, fr :: returns⟩ ⟨fr.ops, fr.saved, fr.flag, returns⟩

section Steps

variable {ι : Type} [DecidableEq ι]

/-- Everything that an operation can be. -/
inductive Stepped (m : Machine ι) : Machine ι → Prop where
  | moved {i : ι} {c : Cpu} : Moved (m.cpu i) c → Stepped m (m.setCpu i c)
  | acquired {i : ι} {l : Lock} {ops : List Op} (next : (m.cpu i).ops = .acquire l :: ops) (free : m.locks l = none) :
      Stepped m
        { m.setCpu i { m.cpu i with ops := ops } with locks := Function.update m.locks l (some i) }
  | released {i : ι} {l : Lock} {ops : List Op} (next : (m.cpu i).ops = .release l :: ops) :
      Stepped m { m.setCpu i { m.cpu i with ops := ops } with locks := Function.update m.locks l none }
  | wrote {i : ι} {s : List Char} {ops : List Op} (next : (m.cpu i).ops = .writeStr s :: ops) :
      Stepped m { m.setCpu i { m.cpu i with ops := ops } with out := m.out ++ [s] }
  | notified {i : ι} {irq : InterruptIndex} {ops : List Op}
      (next : (m.cpu i).ops = .notifyEndOfInterrupt irq :: ops) :
      Stepped m { m.setCpu i { m.cpu i with ops := ops } with inService := endOfInterrupt m.inService }

theorem perform_cases {i : ι} {m m' : Machine ι} (h : m.perform i = some m') : Stepped m m' := by
  have hmoved : ∀ {c c'}, m.cpu i = c → Moved c c' → Stepped m (m.setCpu i c') := by
    rintro c c' rfl hmove
    exact .moved hmove
  rcases hcpu : m.cpu i with ⟨ops, saved, flag, returns⟩
  unfold Machine.perform at h
  rw [hcpu] at h
  have hops : (m.cpu i).ops = ops := by rw [hcpu]
  cases ops with
  | nil => cases h
  | cons op ops =>
    cases op with
    | readFlag => cases h; exact hmoved hcpu .readFlag
    | readPort => cases h; exact hmoved hcpu .readPort
    | work => cases h; exact hmoved hcpu .work
    | sti => cases h; exact hmoved hcpu .sti
    | cli => cases h; exact hmoved hcpu .cli
    | breakpoint msg => cases h; exact hmoved hcpu .breakpoint
    | fault ms => cases h; exact hmoved hcpu .fault
    | hltLoop => cases h
    | disableSaved =>
      cases saved with
      | nil => cases h
      | cons b saved => cases h; exact hmoved hcpu .disableSaved
    | restoreSaved =>
      cases saved with
      | nil => cases h
      | cons b saved => cases h; exact hmoved hcpu .restoreSaved
    | iretq =>
      cases returns with
      | nil => cases h
      | cons fr returns => cases h; exact hmoved hcpu .iretq
    | acquire l =>
      dsimp only at h
      split at h
      · cases h
        have hstep : Stepped m _ := .acquired hops (by assumption)
        rwa [hcpu] at hstep
      · cases h
    | release l =>
      cases h
      have hstep : Stepped m _ := .released hops
      rwa [hcpu] at hstep
    | writeStr s =>
      cases h
      have hstep : Stepped m _ := .wrote hops
      rwa [hcpu] at hstep
    | notifyEndOfInterrupt irq =>
      cases h
      have hstep : Stepped m _ := .notified hops
      rwa [hcpu] at hstep

end Steps

/-! ## One processor -/

/-- The messages that a processor has not finished, when it has written `w` of one: those of its program, or
those of its interrupts. -/
def Cpu.toCome (tick : Bool) (w : Message) (c : Cpu) : List Message :=
  match c.returns with
  | [] => if tick then [] else pending w c.ops
  | f :: _ => match f.vector with
    | .irq _ => if tick then pending w c.ops else pending [] f.ops
    | .breakpoint => if tick then [] else pending w c.ops ++ pending [] f.ops
    | .fault => if tick then [] else pending w c.ops

/-- It is at an interrupt, which is nothing of its program. -/
def Cpu.ticks (c : Cpu) : Bool :=
  match c.returns with
  | [] => false
  | f :: _ => match f.vector with
    | .irq _ => true
    | _ => false

/-- A processor that holds the lock `h`. Handlers are not interrupted. -/
structure CpuFits (last : Bool) (h : Option Lock) (c : Cpu) : Prop where
  code : Fits (c.returns.head?.map Frame.vector) last c.flag c.saved h c.ops
  quiet : c.returns ≠ [] → c.flag = false ∧ ∀ b ∈ c.saved, b = false
  free : c.flag = true → h = none
  frame : ∀ f ∈ c.returns, f.vector ≠ .fault → Fits none last f.flag f.saved none f.ops
  single : c.returns.length ≤ 1

section Processor

variable {last tick : Bool} {h h' : Option Lock} {w w' : Message} {c c' : Cpu}

theorem toCome_congr {ops : List Op} {saved : List Bool} {flag : Bool} (hpending : pending w' ops = pending w c.ops) :
    (⟨ops, saved, flag, c.returns⟩ : Cpu).toCome tick w' = c.toCome tick w := by
  unfold Cpu.toCome
  rw [hpending]

/-- On in the same code. -/
theorem CpuFits.next (hc : CpuFits last h c) {ops : List Op} {saved : List Bool} {flag : Bool}
    (code : Fits (c.returns.head?.map Frame.vector) last flag saved h' ops)
    (quiet : c.returns ≠ [] → flag = false ∧ ∀ b ∈ saved, b = false) (free : flag = true → h' = none) :
    CpuFits last h' ⟨ops, saved, flag, c.returns⟩ where
  code := code
  quiet := quiet
  free := free
  frame := hc.frame
  single := hc.single

/-- Into a handler of its own. -/
theorem CpuFits.trapped {ops : List Op} {saved : List Bool} {flag : Bool} {v : Vector} {handler : List Op}
    (hcode : v ≠ .fault → Fits none last flag saved none ops) (hhandler : Fits (some v) last false [] none handler) :
    CpuFits last none ⟨handler, [], false, [⟨v, ops, saved, flag⟩]⟩ where
  code := hhandler
  quiet _ := ⟨rfl, nofun⟩
  free := nofun
  frame f hf hne := by
    obtain rfl := List.mem_singleton.mp hf
    exact hcode hne
  single := Nat.le_refl 1

/-- A step of its own leaves everything in place. -/
theorem CpuFits.moved (hc : CpuFits last h c) (hw : h ≠ some .vgaWriter → w = []) (hmove : Moved c c') :
    CpuFits last h c' ∧ (∀ tick, c'.toCome tick w = c.toCome tick w) ∧ owed c'.ops = owed c.ops := by
  obtain ⟨ops, saved, flag, returns⟩ := c
  have hcode := hc.code
  have hsingle := hc.single
  have hquiet := hc.quiet
  dsimp only at hcode hsingle hquiet
  cases hmove with
  | readFlag =>
    cases hcode with
    | readFlag hops =>
      refine ⟨hc.next hops (fun hr => ?_) hc.free, fun _ => rfl, rfl⟩
      obtain ⟨hflag, hsaved⟩ := hquiet hr
      exact ⟨hflag, List.forall_mem_cons.mpr ⟨hflag, hsaved⟩⟩
  | disableSaved =>
    cases hcode with
    | disableSaved hops =>
      have hoff : (if flag then false else flag) = false := by cases flag <;> rfl
      dsimp only
      rw [hoff]
      exact ⟨hc.next hops (fun hr => ⟨rfl, (hquiet hr).2⟩) nofun, fun _ => rfl, rfl⟩
  | @restoreSaved ops b saved flag returns =>
    cases hcode with
    | restoreSaved hops =>
      have hback : (if b then true else false) = b := by cases b <;> rfl
      dsimp only
      rw [hback]
      refine ⟨hc.next hops (fun hr => ?_) (fun _ => rfl), fun _ => rfl, rfl⟩
      exact List.forall_mem_cons.mp (hquiet hr).2
  | readPort =>
    cases hcode with
    | readPort hops => exact ⟨hc.next hops hquiet hc.free, fun _ => rfl, rfl⟩
  | work =>
    cases hcode with
    | work hops => exact ⟨hc.next hops hquiet hc.free, fun _ => rfl, rfl⟩
  | @sti ops saved flag returns =>
    cases hcode with
    | sti hmain hops =>
      have hreturns : returns = [] := List.head?_eq_none_iff.mp (Option.map_eq_none_iff.mp hmain)
      exact ⟨hc.next hops (fun hr => absurd hreturns hr) (fun _ => rfl), fun _ => rfl, rfl⟩
  | @cli ops saved flag returns =>
    cases hcode with
    | cli hmain hops =>
      have hreturns : returns = [] := List.head?_eq_none_iff.mp (Option.map_eq_none_iff.mp hmain)
      exact ⟨hc.next hops (fun hr => absurd hreturns hr) (fun _ => rfl), fun _ => rfl, rfl⟩
  | @breakpoint m ops saved flag returns =>
    cases hcode with
    | breakpoint hmain hops =>
      obtain rfl : returns = [] := List.head?_eq_none_iff.mp (Option.map_eq_none_iff.mp hmain)
      obtain rfl := hw nofun
      refine ⟨.trapped (fun _ => hops) (fits_breakpointHandler last m), fun _ => ?_, ?_⟩
      · unfold Cpu.toCome
        dsimp only
        rw [pending_breakpointHandler]
        rfl
      · exact owed_breakpointHandler.trans (hops.owed_nil rfl).symm
  | @fault ms ops saved flag returns =>
    cases hcode with
    | fault hmain hlast howed =>
      obtain rfl : returns = [] := List.head?_eq_none_iff.mp (Option.map_eq_none_iff.mp hmain)
      obtain rfl := hw nofun
      subst hlast
      refine ⟨.trapped (fun hne => absurd rfl hne) (fits_faultHandler ms), fun _ => ?_, ?_⟩
      · unfold Cpu.toCome
        dsimp only
        rw [pending_faultHandler]
        rfl
      · exact (owed_faultHandler ms).trans howed.symm
  | @iretq ops saved flag fr returns =>
    cases hcode with
    | @iretq _ v hv hne =>
      obtain rfl : returns = [] := List.eq_nil_of_length_eq_zero (Nat.le_zero.mp (Nat.le_of_succ_le_succ hsingle))
      obtain rfl : fr.vector = v := Option.some.inj hv
      have hback := hc.frame fr (List.mem_singleton_self fr) hne
      obtain rfl := hw nofun
      refine ⟨⟨hback, fun hr => absurd rfl hr, fun _ => rfl, nofun, Nat.zero_le 1⟩, fun _ => ?_, hback.owed_nil rfl⟩
      unfold Cpu.toCome
      cases hvector : fr.vector with
      | irq irq => simp only [hvector, pending]
      | breakpoint => simp only [hvector, pending, List.nil_append]
      | fault => exact absurd hvector hne

end Processor

/-! ## The whole machine -/

/-- A message that has been written to its end. -/
structure Entry (ι : Type) where
  cpu : ι
  /-- It comes from an interrupt. -/
  tick : Bool
  text : Message

/-- A lock that nobody had, or that `i` had, is nothing to `j`. -/
theorem locks_other {ι : Type} {m : Machine ι} {i j : ι} (hij : j ≠ i) {l : Lock} {a b : Option ι}
    (ha : a = none ∨ a = some i) (hb : b = none ∨ b = some i) (hl : m.locks l = a) (l' : Lock) :
    Function.update m.locks l b l' = some j ↔ m.locks l' = some j := by
  by_cases hll : l' = l
  · subst hll
    rw [Function.update_self, hl]
    have hnot : ∀ {x : Option ι}, x = none ∨ x = some i → x ≠ some j := by
      rintro x (rfl | rfl) hx
      · cases hx
      · exact hij (Option.some.inj hx).symm
    exact ⟨fun hx => absurd hx (hnot hb), fun hx => absurd hx (hnot ha)⟩
  · rw [Function.update_of_ne hll]

section Machines

variable {ι : Type} [DecidableEq ι] {bsp : ι} {program : ι → List Stmt} {flag : ι → Bool} {m m' : Machine ι}
  {es es' : List (Entry ι)} {w w' : Message} {n n' : Nat}

/-- The messages that a processor has written, those of its program or those of its interrupts. -/
def shown (tick : Bool) (i : ι) (es : List (Entry ι)) : List Message :=
  (es.filter fun e => e.cpu = i ∧ e.tick = tick).map Entry.text

theorem shown_snoc (tick : Bool) (i : ι) (es : List (Entry ι)) (e : Entry ι) :
    shown tick i (es ++ [e]) = shown tick i es ++ if e.cpu = i ∧ e.tick = tick then [e.text] else [] := by
  unfold shown
  rw [List.filter_append, List.map_append]
  by_cases h : e.cpu = i ∧ e.tick = tick <;> simp [h]

/-- The messages that a processor is to write, when there have been `n` interrupts of the timer. -/
def due (bsp : ι) (program : ι → List Stmt) (n : Nat) (tick : Bool) (i : ι) : List Message :=
  if tick then List.replicate (if i = bsp then n else 0) dot else messages (program i)

/-- What a processor has written of a message that is not finished. -/
def Machine.part (m : Machine ι) (w : Message) (i : ι) : Message := if m.locks .vgaWriter = some i then w else []

/-- One processor, when `es` and then `w` have been written. -/
structure Fine (bsp : ι) (program : ι → List Stmt) (flag : ι → Bool) (n : Nat) (m : Machine ι) (es : List (Entry ι))
    (w : Message) (i : ι) : Prop where
  fits : ∃ h, (∀ l, m.locks l = some i ↔ h = some l) ∧
    CpuFits (lastFlag (flag i) (program i)) h (m.cpu i)
  order : ∀ tick, shown tick i es ++ (m.cpu i).toCome tick (m.part w i) = due bsp program n tick i
  line : owed (m.cpu i).ops = if i = bsp then m.inService else []

/-- Nothing but whole messages has been written, and a part of one by whoever has the console. -/
structure Told (m : Machine ι) (es : List (Entry ι)) (w : Message) : Prop where
  out : m.out = es.flatMap Entry.text ++ w
  free : m.locks .vgaWriter = none → w = []

/-- A processor that has nothing to do with a step. -/
theorem Fine.other {i : ι} (h : Fine bsp program flag n m es w i) (hcpu : m'.cpu i = m.cpu i)
    (hlocks : ∀ l, m'.locks l = some i ↔ m.locks l = some i) (hw : m.locks .vgaWriter = some i → w' = w)
    (hes : ∀ tick, shown tick i es' = shown tick i es)
    (hline : i = bsp → n' = n ∧ m'.inService = m.inService) : Fine bsp program flag n' m' es' w' i := by
  have hpart : m'.part w' i = m.part w i := by
    unfold Machine.part
    by_cases hheld : m.locks .vgaWriter = some i
    · rw [if_pos hheld, if_pos ((hlocks _).mpr hheld), hw hheld]
    · rw [if_neg hheld, if_neg fun hheld' => hheld ((hlocks _).mp hheld')]
  refine ⟨?_, ?_, ?_⟩
  · obtain ⟨held, hheld, hfits⟩ := h.fits
    rw [hcpu]
    exact ⟨held, fun l => (hlocks l).trans (hheld l), hfits⟩
  · intro tick
    have hdue : due bsp program n' tick i = due bsp program n tick i := by
      unfold due
      by_cases hi : i = bsp
      · rw [(hline hi).1]
      · rw [if_neg hi, if_neg hi]
    rw [hes, hpart, hcpu, hdue]
    exact h.order tick
  · rw [hcpu, h.line]
    by_cases hi : i = bsp
    · rw [if_pos hi, if_pos hi, (hline hi).2]
    · rw [if_neg hi, if_neg hi]

theorem part_of_held {i : ι} {held : Option Lock} (hheld : ∀ l, m.locks l = some i ↔ held = some l) (w : Message) :
    m.part w i = if held = some .vgaWriter then w else [] := by
  unfold Machine.part
  by_cases h : held = some .vgaWriter
  · rw [if_pos h, if_pos ((hheld _).mpr h)]
  · rw [if_neg h, if_neg fun hl => h ((hheld _).mp hl)]

/-- A processor that goes on in the same code and finishes no message. -/
theorem Fine.next {i : ι} {held' : Option Lock} {ops : List Op} (h : Fine bsp program flag n m es w i)
    (hcpu : m'.cpu i = ⟨ops, (m.cpu i).saved, (m.cpu i).flag, (m.cpu i).returns⟩)
    (hheld : ∀ l, m'.locks l = some i ↔ held' = some l)
    (hops : Fits ((m.cpu i).returns.head?.map Frame.vector) (lastFlag (flag i) (program i)) (m.cpu i).flag
      (m.cpu i).saved held' ops)
    (hfree : (m.cpu i).flag = true → held' = none)
    (hpending : pending (m'.part w' i) ops = pending (m.part w i) (m.cpu i).ops)
    (hline : owed ops = if i = bsp then m'.inService else []) : Fine bsp program flag n m' es w' i := by
  obtain ⟨⟨held, -, hfits⟩, horder, -⟩ := h
  refine ⟨⟨held', hheld, ?_⟩, fun tick => ?_, ?_⟩
  · rw [hcpu]
    exact hfits.next hops hfits.quiet hfree
  · rw [hcpu, toCome_congr hpending]
    exact horder tick
  · rw [hcpu]
    exact hline

/-- Every processor is, and so is what they have written. -/
structure Sound (bsp : ι) (program : ι → List Stmt) (flag : ι → Bool) (n : Nat) (m : Machine ι) (es : List (Entry ι))
    (w : Message) : Prop where
  fine : ∀ i, Fine bsp program flag n m es w i
  told : Told m es w

theorem Sound.moved (h : Sound bsp program flag n m es w) {i : ι} {c : Cpu} (hmove : Moved (m.cpu i) c) :
    Sound bsp program flag n (m.setCpu i c) es w := by
  refine ⟨fun j => ?_, h.told.out, h.told.free⟩
  by_cases hj : j = i
  · subst hj
    obtain ⟨⟨held, hheld, hfits⟩, horder, hline⟩ := h.fine j
    have hpart : held ≠ some .vgaWriter → m.part w j = [] := by
      intro hnot
      rw [part_of_held hheld, if_neg hnot]
    obtain ⟨hfits', hcome, howed⟩ := hfits.moved hpart hmove
    have hcpu : (m.setCpu j c).cpu j = c := Function.update_self ..
    refine ⟨⟨held, hheld, ?_⟩, fun tick => ?_, ?_⟩
    · rw [hcpu]
      exact hfits'
    · rw [hcpu]
      exact (congrArg (shown tick j es ++ ·) (hcome tick)).trans (horder tick)
    · rw [hcpu, howed]
      exact hline
  · exact (h.fine j).other (Function.update_of_ne hj ..) (fun _ => Iff.rfl) (fun _ => rfl) (fun _ => rfl)
      fun _ => ⟨rfl, rfl⟩

/-- The lock was free and nothing of a message is written. -/
theorem Sound.acquired (h : Sound bsp program flag n m es w) {i : ι} {l : Lock} {ops : List Op}
    (hnext : (m.cpu i).ops = .acquire l :: ops) (hfree : m.locks l = none) : Sound bsp program flag n
      { m.setCpu i { m.cpu i with ops := ops } with locks := Function.update m.locks l (some i) } es w := by
  let m' : Machine ι := { m.setCpu i { m.cpu i with ops := ops } with locks := Function.update m.locks l (some i) }
  refine ⟨fun j => ?_, h.told.out, fun hnone => ?_⟩
  · by_cases hj : j = i
    · subst hj
      obtain ⟨⟨held, hheld, hfits⟩, -, hline⟩ := h.fine j
      have hcode := hfits.code
      rw [hnext] at hcode hline
      obtain ⟨hoff, rfl, hops⟩ := hcode.acquire_inv
      have hheld' : ∀ l', m'.locks l' = some j ↔ some l = some l' := by
        intro l'
        by_cases hl : l' = l
        · subst hl
          exact ⟨fun _ => rfl, fun _ => Function.update_self ..⟩
        · have hsame : m'.locks l' = m.locks l' := Function.update_of_ne hl ..
          rw [hsame, hheld l']
          exact ⟨nofun, fun hx => absurd (Option.some.inj hx).symm hl⟩
      have hpart' : m'.part w j = [] := by
        rw [part_of_held hheld']
        split
        · rename_i hl
          obtain rfl := Option.some.inj hl
          exact h.told.free hfree
        · rfl
      refine (h.fine j).next (Function.update_self ..) hheld' hops (fun hon => nomatch hoff.symm.trans hon) ?_ hline
      rw [hpart', part_of_held hheld, if_neg nofun, hnext]
      rfl
    · exact (h.fine j).other (Function.update_of_ne hj ..) (locks_other hj (.inl rfl) (.inr rfl) hfree) (fun _ => rfl)
        (fun _ => rfl) fun _ => ⟨rfl, rfl⟩
  · refine h.told.free ?_
    by_cases hl : l = .vgaWriter
    · subst hl
      exact hfree
    · exact (Function.update_of_ne (Ne.symm hl) ..).symm.trans hnone

/-- A piece of the message of whoever has the console. -/
theorem Sound.wrote (h : Sound bsp program flag n m es w) {i : ι} {s : List Char} {ops : List Op}
    (hnext : (m.cpu i).ops = .writeStr s :: ops) : Sound bsp program flag n
      { m.setCpu i { m.cpu i with ops := ops } with out := m.out ++ [s] } es (w ++ [s]) := by
  let m' : Machine ι := { m.setCpu i { m.cpu i with ops := ops } with out := m.out ++ [s] }
  obtain ⟨⟨held, hheld, hfits⟩, -, hline⟩ := h.fine i
  have hcode := hfits.code
  rw [hnext] at hcode hline
  obtain ⟨hoff, rfl, hops⟩ := hcode.writeStr_inv
  have hlock : m.locks .vgaWriter = some i := (hheld .vgaWriter).mpr rfl
  have hpart : m.part w i = w := if_pos hlock
  have hpart' : m'.part (w ++ [s]) i = w ++ [s] := if_pos hlock
  refine ⟨fun j => ?_, ?_, fun hnone => ?_⟩
  · by_cases hj : j = i
    · subst hj
      refine (h.fine j).next (Function.update_self ..) hheld hops (fun hon => nomatch hoff.symm.trans hon) ?_ hline
      rw [hpart', hpart, hnext]
      rfl
    · have hforeign : m.locks .vgaWriter ≠ some j := by
        rw [hlock]
        exact fun hx => hj (Option.some.inj hx).symm
      exact (h.fine j).other (Function.update_of_ne hj ..) (fun _ => Iff.rfl) (fun hx => absurd hx hforeign)
        (fun _ => rfl) fun _ => ⟨rfl, rfl⟩
  · have hout : m'.out = es.flatMap Entry.text ++ w ++ [s] := congrArg (· ++ [s]) h.told.out
    rw [← List.append_assoc]
    exact hout
  · cases hlock.symm.trans hnone

/-- The end of a message, or of a talk with the controller. -/
theorem Sound.released (h : Sound bsp program flag n m es w) {i : ι} {l : Lock} {ops : List Op}
    (hnext : (m.cpu i).ops = .release l :: ops) : ∃ es' w', Sound bsp program flag n
      { m.setCpu i { m.cpu i with ops := ops } with locks := Function.update m.locks l none } es' w' := by
  let m' : Machine ι := { m.setCpu i { m.cpu i with ops := ops } with locks := Function.update m.locks l none }
  obtain ⟨⟨held, hheld, hfits⟩, horder, hline⟩ := h.fine i
  have hcode := hfits.code
  rw [hnext] at hcode hline
  obtain ⟨hoff, rfl, hops⟩ := hcode.release_inv
  have hlock : m.locks l = some i := (hheld l).mpr rfl
  have hcpu : m'.cpu i = ⟨ops, (m.cpu i).saved, (m.cpu i).flag, (m.cpu i).returns⟩ := Function.update_self ..
  have hheld' : ∀ l', m'.locks l' = some i ↔ (none : Option Lock) = some l' := by
    intro l'
    refine ⟨fun hx => ?_, nofun⟩
    by_cases hl : l' = l
    · subst hl
      cases (Function.update_self ..).symm.trans hx
    · have hsame : m'.locks l' = m.locks l' := Function.update_of_ne hl ..
      exact absurd (Option.some.inj ((hheld l').mp (hsame.symm.trans hx))).symm hl
  have hpart' : ∀ w', m'.part w' i = [] := fun w' => (part_of_held hheld' w').trans (if_neg nofun)
  cases l with
  | pics =>
    refine ⟨es, w, fun j => ?_, h.told.out, fun hnone => h.told.free hnone⟩
    by_cases hj : j = i
    · subst hj
      refine (h.fine j).next hcpu hheld' hops (fun _ => rfl) ?_ hline
      rw [hpart', part_of_held hheld, if_neg nofun, hnext]
      rfl
    · exact (h.fine j).other (Function.update_of_ne hj ..) (locks_other hj (.inr rfl) (.inl rfl) hlock) (fun _ => rfl)
        (fun _ => rfl) fun _ => ⟨rfl, rfl⟩
  | vgaWriter =>
    have hpart : m.part w i = w := if_pos hlock
    have hpending : pending w (m.cpu i).ops = w :: pending [] ops := by rw [hnext]; rfl
    let e : Entry ι := ⟨i, (m.cpu i).ticks, w⟩
    refine ⟨es ++ [e], [], fun j => ?_, ?_, fun _ => rfl⟩
    · by_cases hj : j = i
      · subst hj
        refine ⟨⟨none, hheld', ?_⟩, fun tick => ?_, ?_⟩
        · rw [hcpu]
          exact hfits.next hops hfits.quiet fun _ => rfl
        · rw [hcpu, hpart', ← horder, shown_snoc, List.append_assoc, hpart]
          refine congrArg (shown tick j es ++ ·) ?_
          -- the message is one of the program unless an interrupt has brought it
          unfold Cpu.toCome
          rw [hpending]
          simp only [e, Cpu.ticks, true_and]
          rcases (m.cpu j).returns with _ | ⟨⟨v, _, _, _⟩, _⟩
          · cases tick <;> rfl
          · cases v <;> cases tick <;> rfl
        · rw [hcpu]
          exact hline
      · have hforeign : m.locks .vgaWriter ≠ some j := by
          rw [hlock]
          exact fun hx => hj (Option.some.inj hx).symm
        refine (h.fine j).other (Function.update_of_ne hj ..) (locks_other hj (.inr rfl) (.inl rfl) hlock)
          (fun hx => absurd hx hforeign) (fun tick => ?_) fun _ => ⟨rfl, rfl⟩
        rw [shown_snoc, if_neg fun hx => hj hx.1.symm, List.append_nil]
    · have hout : m'.out = es.flatMap Entry.text ++ w := h.told.out
      rw [List.flatMap_append, List.append_nil]
      simpa using hout

/-- Only the processor that was interrupted tells the controller, and of that one interrupt. -/
theorem Sound.notified (h : Sound bsp program flag n m es w) {i : ι} {irq : InterruptIndex} {ops : List Op}
    (hnext : (m.cpu i).ops = .notifyEndOfInterrupt irq :: ops) : Sound bsp program flag n
      { m.setCpu i { m.cpu i with ops := ops } with inService := endOfInterrupt m.inService } es w := by
  let m' : Machine ι := { m.setCpu i { m.cpu i with ops := ops } with inService := endOfInterrupt m.inService }
  obtain ⟨⟨held, hheld, hfits⟩, -, hline⟩ := h.fine i
  have hcode := hfits.code
  rw [hnext] at hcode hline
  obtain ⟨hoff, rfl, howed, hops⟩ := hcode.notify_inv
  have hbsp : i = bsp := by
    by_contra hi
    rw [if_neg hi] at hline
    cases hline
  have hservice : m.inService = [irq] := by
    rw [if_pos hbsp, owed, howed] at hline
    exact hline.symm
  have hpart : m.part w i = [] := by rw [part_of_held hheld, if_neg nofun]
  have hpart' : m'.part w i = [] := hpart
  refine ⟨fun j => ?_, h.told.out, h.told.free⟩
  by_cases hj : j = i
  · subst hj
    refine (h.fine j).next (Function.update_self ..) hheld hops (fun hon => nomatch hoff.symm.trans hon) ?_ ?_
    · rw [hpart', hpart, hnext]
      rfl
    · have hended : endOfInterrupt m.inService = [] := by
        rw [hservice]
        cases irq <;> rfl
      rw [if_pos hbsp]
      exact howed.trans hended.symm
  · exact (h.fine j).other (Function.update_of_ne hj ..) (fun _ => Iff.rfl) (fun _ => rfl) (fun _ => rfl)
      fun hx => absurd (hx.trans hbsp.symm) hj

/-- Who lets itself be interrupted holds no lock and is in no handler. -/
theorem Sound.interrupted (h : Sound bsp program flag n m es w) {irq : InterruptIndex}
    (hon : (m.cpu bsp).flag = true) : Sound bsp program flag (n + if irq = .timer then 1 else 0)
      { m.setCpu bsp ((m.cpu bsp).enter (.irq irq) irq.handler (m.cpu bsp).ops) with
        inService := irq :: m.inService } es w := by
  let m' : Machine ι := { m.setCpu bsp ((m.cpu bsp).enter (.irq irq) irq.handler (m.cpu bsp).ops) with
    inService := irq :: m.inService }
  obtain ⟨⟨held, hheld, hfits⟩, horder, hline⟩ := h.fine bsp
  obtain rfl : held = none := hfits.free hon
  have hreturns : (m.cpu bsp).returns = [] := by
    by_contra hr
    cases (hfits.quiet hr).1.symm.trans hon
  have hcode := hfits.code
  rw [hreturns] at hcode
  have hservice : m.inService = [] := by
    rw [if_pos rfl, hcode.owed_nil rfl] at hline
    exact hline.symm
  have hcpu : m'.cpu bsp =
      ⟨irq.handler, [], false, [⟨.irq irq, (m.cpu bsp).ops, (m.cpu bsp).saved, (m.cpu bsp).flag⟩]⟩ := by
    refine (Function.update_self ..).trans ?_
    unfold Cpu.enter
    rw [hreturns]
  have hpart : m.part w bsp = [] := by rw [part_of_held hheld, if_neg nofun]
  have hpart' : m'.part w bsp = [] := hpart
  refine ⟨fun j => ?_, h.told.out, h.told.free⟩
  by_cases hj : j = bsp
  · subst hj
    refine ⟨⟨none, hheld, ?_⟩, fun tick => ?_, ?_⟩
    · rw [hcpu]
      exact .trapped (fun _ => hcode) (fits_handler _ irq)
    · have hbefore := horder tick
      unfold Cpu.toCome at hbefore
      rw [hpart, hreturns] at hbefore
      rw [hcpu, hpart']
      cases tick with
      | false => exact hbefore
      | true =>
        have hcount : due j program (n + if irq = .timer then 1 else 0) true j =
            due j program n true j ++ List.replicate (if irq = .timer then 1 else 0) dot := by
          simp only [due, if_pos, List.replicate_append_replicate]
        rw [hcount, ← hbefore, List.append_assoc]
        exact congrArg (shown true j es ++ ·) (pending_handler irq)
    · rw [hcpu, if_pos rfl]
      exact (owed_handler irq).trans (congrArg (irq :: ·) hservice).symm
  · exact (h.fine j).other (Function.update_of_ne hj ..) (fun _ => Iff.rfl) (fun _ => rfl) (fun _ => rfl)
      fun hx => absurd hx hj

/-- The interrupts of the timer. -/
def Label.beats : Label ι → Nat
  | .run _ => 0
  | .interrupt irq => if irq = .timer then 1 else 0

theorem Sound.step (h : Sound bsp program flag n m es w) {l : Label ι} (hstep : m.step bsp l = some m') :
    ∃ es' w', Sound bsp program flag (n + l.beats) m' es' w' := by
  cases l with
  | run i =>
    cases perform_cases hstep with
    | moved hmove => exact ⟨es, w, h.moved hmove⟩
    | acquired next free => exact ⟨es, w, h.acquired next free⟩
    | released next => exact h.released next
    | wrote next => exact ⟨es, _, h.wrote next⟩
    | notified next => exact ⟨es, w, h.notified next⟩
  | interrupt irq =>
    unfold Machine.step at hstep
    dsimp only at hstep
    split at hstep
    · rename_i hcan
      cases hstep
      exact ⟨es, w, h.interrupted hcan.1⟩
    · cases hstep

theorem sound_initial (bsp : ι) (program : ι → List Stmt) (flag : ι → Bool) :
    Sound bsp program flag 0 (.initial program flag) [] [] := by
  have hpart : ∀ i, (Machine.initial program flag).part [] i = [] := fun i => ite_self _
  refine ⟨fun i => ⟨⟨none, fun l => ⟨nofun, nofun⟩, ?_⟩, fun tick => ?_, ?_⟩, rfl, fun _ => rfl⟩
  · exact ⟨fits_code _ _, fun hr => absurd rfl hr, fun _ => rfl, nofun, Nat.zero_le 1⟩
  · rw [hpart]
    cases tick with
    | false => exact pending_code (program i)
    | true => exact (congrArg (List.replicate · dot) (ite_self 0)).symm
  · exact ((fits_code (program i) (flag i)).owed_nil rfl).trans (ite_self _).symm

theorem sound_run {ls : List (Label ι)} (h : Runs.run (Machine.step bsp) (.initial program flag) ls = some m) :
    ∃ es w, Sound bsp program flag (ls.map Label.beats).sum m es w := by
  refine Runs.run_induction (I := fun ls m => ∃ es w, Sound bsp program flag (ls.map Label.beats).sum m es w)
    ⟨[], [], sound_initial bsp program flag⟩ ?_ ls m h
  rintro ls t l u - ⟨es, w, hs⟩ hstep
  rw [List.map_append, List.sum_append]
  exact hs.step hstep

/-- What has been written of a message is the start of the next one that is due. -/
theorem Sound.current (h : Sound bsp program flag n m es w) {i : ι} (hlock : m.locks .vgaWriter = some i) :
    ∃ msg, w <+: msg ∧ shown (m.cpu i).ticks i es ++ [msg] <+: due bsp program n (m.cpu i).ticks i := by
  obtain ⟨⟨held, hheld, hfits⟩, horder, -⟩ := h.fine i
  obtain ⟨msg, rest, hpending, hprefix⟩ := hfits.code.current ((hheld _).mp hlock) w
  have hpart : m.part w i = w := if_pos hlock
  have hcome : ∃ rest', (m.cpu i).toCome (m.cpu i).ticks w = msg :: rest' := by
    unfold Cpu.toCome Cpu.ticks
    rw [hpending]
    rcases (m.cpu i).returns with _ | ⟨⟨v, ops, _, _⟩, _⟩
    · exact ⟨rest, rfl⟩
    · cases v with
      | irq irq => exact ⟨rest, rfl⟩
      | breakpoint => exact ⟨rest ++ pending [] ops, rfl⟩
      | fault => exact ⟨rest, rfl⟩
  obtain ⟨rest', hcome⟩ := hcome
  refine ⟨msg, hprefix, ⟨rest', ?_⟩⟩
  rw [← horder, hpart, hcome, List.append_assoc]
  rfl

/-- The controller waits for the one interrupt that is being handled. -/
theorem Sound.inService (h : Sound bsp program flag n m es w) :
    m.inService = [] ∨ ∃ irq, m.inService = [irq] ∧ (m.cpu bsp).returns.head?.map Frame.vector = some (.irq irq) := by
  obtain ⟨⟨held, _, hfits⟩, -, hline⟩ := h.fine bsp
  rw [if_pos rfl] at hline
  rw [← hline]
  exact hfits.code.owed_cases

/-- Who has a lock is not interrupted and waits for no other. -/
theorem Sound.holder (h : Sound bsp program flag n m es w) {l : Lock} {i : ι} (hlock : m.locks l = some i) :
    (m.cpu i).flag = false ∧ ∀ l', (m.cpu i).ops.head? ≠ some (.acquire l') := by
  obtain ⟨⟨held, hheld, hfits⟩, -, -⟩ := h.fine i
  obtain rfl : held = some l := (hheld l).mp hlock
  refine ⟨?_, fun l' hnext => ?_⟩
  · by_contra hon
    cases hfits.free (Bool.eq_true_of_not_eq_false hon)
  · obtain ⟨ops, hops⟩ := List.head?_eq_some_iff.mp hnext
    have hcode := hfits.code
    rw [hops] at hcode
    cases hcode.acquire_inv.2.1

/-- However the processors take their turns and whenever the interrupts come: a processor that has a lock is not
interrupted and does not wait. What is on the console are whole messages and a part of the next one of the processor
that has the console. With those still to come they are, of each processor, the messages of its program and a dot for
each interrupt of the timer, in order and each once. -/
theorem prints_stay_whole {ls : List (Label ι)}
    (h : Runs.run (Machine.step bsp) (.initial program flag) ls = some m) :
    (∀ l i, m.locks l = some i → (m.cpu i).flag = false ∧ ∀ l', (m.cpu i).ops.head? ≠ some (.acquire l')) ∧
      (m.inService = [] ∨
        ∃ irq, m.inService = [irq] ∧ (m.cpu bsp).returns.head?.map Frame.vector = some (.irq irq)) ∧
      ∃ es w, m.out = es.flatMap Entry.text ++ w ∧ (m.locks .vgaWriter = none → w = []) ∧
        (∀ tick i, shown tick i es ++ (m.cpu i).toCome tick (m.part w i) =
          due bsp program (ls.map Label.beats).sum tick i) ∧
        ∀ i, m.locks .vgaWriter = some i → ∃ msg, w <+: msg ∧
          shown (m.cpu i).ticks i es ++ [msg] <+: due bsp program (ls.map Label.beats).sum (m.cpu i).ticks i := by
  obtain ⟨es, w, hsound⟩ := sound_run h
  refine ⟨fun l i hlock => hsound.holder hlock, hsound.inService, es, w, hsound.told.out, hsound.told.free, ?_, ?_⟩
  · exact fun tick i => (hsound.fine i).order tick
  · exact fun i hlock => hsound.current hlock

end Machines

/-- Two processors that each have one message. -/
def smallProgram : Fin 2 → List Stmt
  | 0 => [.print [['a'], ['b']]]
  | 1 => [.print [['c']]]

/-- The timer comes between reading and clearing the flag, and the other processor before the dot is over. -/
def smallRun : List (Label (Fin 2)) :=
  [.run 0, .interrupt .timer, .run 0, .run 0, .run 0, .run 1, .run 1, .run 0]

theorem prints_stay_whole_two :
    ∃ m es w, Runs.run (Machine.step 0) (.initial smallProgram (· == 0)) smallRun = some m ∧
      (∀ l i, m.locks l = some i → (m.cpu i).flag = false) ∧ m.out = es.flatMap Entry.text ++ w ∧
      ∀ tick i, shown tick i es ++ (m.cpu i).toCome tick (m.part w i) = due 0 smallProgram 1 tick i := by
  have hruns : (Runs.run (Machine.step 0) (.initial smallProgram (· == 0)) smallRun).isSome = true := by decide +kernel
  obtain ⟨m, hrun⟩ := Option.isSome_iff_exists.mp hruns
  obtain ⟨hheld, _, es, w, hout, _, hdue, _⟩ := prints_stay_whole hrun
  exact ⟨m, es, w, hrun, fun l i hlock => (hheld l i hlock).1, hout, hdue⟩

/-! ## The end -/

/-- A processor that does nothing more on its own. -/
def Cpu.over (c : Cpu) : Bool :=
  match c.ops with
  | [] => true
  | .hltLoop :: _ => true
  | _ => false

/-- The steps that some code takes on its own. -/
def cost : List Op → Nat
  | [] => 0
  | .breakpoint m :: ops => (breakpointHandler m).length + cost ops + 1
  | .fault ms :: ops => (faultHandler ms).length + cost ops + 1
  | _ :: ops => cost ops + 1

theorem cost_print (m : Message) (ops : List Op) : cost (print m ++ ops) = (print m).length + cost ops := by
  have hwrites : ∀ ops, cost (m.map .writeStr ++ ops) = m.length + cost ops := by
    intro ops
    induction m with
    | nil => exact (Nat.zero_add _).symm
    | cons s m ih =>
      simp only [List.map_cons, List.cons_append, List.length_cons, cost, ih]
      omega
  unfold print
  simp only [List.append_assoc, List.cons_append, List.nil_append, cost, hwrites, List.length_cons, List.length_append,
    List.length_map, List.length_nil]
  omega

theorem cost_breakpointHandler (m : Message) : cost (breakpointHandler m) = (breakpointHandler m).length := by
  rw [breakpointHandler, cost_print, List.length_append]
  rfl

theorem cost_faultHandler (ms : List Message) : cost (faultHandler ms) = (faultHandler ms).length := by
  unfold faultHandler
  induction ms with
  | nil => rfl
  | cons m ms ih =>
    rw [List.flatMap_cons, List.append_assoc, cost_print, ih]
    exact List.length_append.symm

/-- The steps that a processor takes on its own, back from where it is included. -/
def Cpu.left (c : Cpu) : Nat := cost c.ops + (c.returns.map fun f => cost f.ops).sum

theorem Moved.left_lt {c c' : Cpu} (h : Moved c c') : c'.left < c.left := by
  cases h with
  | breakpoint =>
    unfold Cpu.left
    simp only [cost_breakpointHandler, cost, List.map_cons, List.sum_cons]
    omega
  | fault =>
    unfold Cpu.left
    simp only [cost_faultHandler, cost, List.map_cons, List.sum_cons]
    omega
  | iretq =>
    unfold Cpu.left
    simp only [cost, List.map_cons, List.sum_cons]
    omega
  | readFlag | disableSaved | restoreSaved | readPort | work | sti | cli =>
    unfold Cpu.left
    simp only [cost]
    omega

section Ends

variable {ι : Type} [DecidableEq ι] {bsp : ι} {program : ι → List Stmt} {flag : ι → Bool} {m m' : Machine ι}
  {es : List (Entry ι)} {w : Message} {n : Nat}

/-- What an operation does to the processors. -/
theorem Stepped.left_lt (h : Stepped m m') : ∃ i c, m'.cpu = Function.update m.cpu i c ∧ c.left < (m.cpu i).left := by
  have hnext : ∀ i op ops, (m.cpu i).ops = op :: ops → (∀ ops, cost (op :: ops) = cost ops + 1) →
      ∃ j c, Function.update m.cpu i { m.cpu i with ops := ops } = Function.update m.cpu j c ∧
        c.left < (m.cpu j).left := by
    intro i op ops hops hcost
    refine ⟨i, _, rfl, ?_⟩
    unfold Cpu.left
    rw [hops, hcost]
    dsimp only
    omega
  cases h with
  | moved hmove => exact ⟨_, _, rfl, hmove.left_lt⟩
  | acquired next => exact hnext _ _ _ next fun _ => rfl
  | released next => exact hnext _ _ _ next fun _ => rfl
  | wrote next => exact hnext _ _ _ next fun _ => rfl
  | notified next => exact hnext _ _ _ next fun _ => rfl

/-- The steps that all processors take on their own. -/
def Machine.left [Fintype ι] (m : Machine ι) : Nat := ∑ i, (m.cpu i).left

theorem perform_left_lt [Fintype ι] {i : ι} (h : m.perform i = some m') : m'.left < m.left := by
  obtain ⟨j, c, hcpu, hlt⟩ := (perform_cases h).left_lt
  have hj : m'.cpu j = c := by rw [hcpu, Function.update_self]
  refine Finset.sum_lt_sum (fun k _ => ?_) ⟨j, Finset.mem_univ j, by rw [hj]; exact hlt⟩
  by_cases hk : k = j
  · subst hk
    rw [hj]
    exact Nat.le_of_lt hlt
  · rw [hcpu, Function.update_of_ne hk]

/-- A processor goes on unless it is over or waits for a lock. In the last two cases it has none. -/
theorem CpuFits.goes {last : Bool} {held : Option Lock} {i : ι} (hc : CpuFits last held (m.cpu i)) :
    (∃ m', m.perform i = some m') ∨ held = none ∧
      ((m.cpu i).over = true ∨ ∃ l ops, (m.cpu i).ops = .acquire l :: ops ∧ m.locks l ≠ none) := by
  have hcode := hc.code
  have hsource : ∀ v, (m.cpu i).returns.head?.map Frame.vector = some v → (m.cpu i).returns ≠ [] := by
    intro v hv hr
    rw [hr] at hv
    cases hv
  rcases hcpu : m.cpu i with ⟨ops, saved, flag, returns⟩
  rw [hcpu] at hcode hsource
  dsimp only at hcode hsource
  unfold Machine.perform
  rw [hcpu]
  cases hcode with
  | done => exact .inr ⟨rfl, .inl rfl⟩
  | halted | hltLoop => exact .inr ⟨rfl, .inl rfl⟩
  | acquire =>
    rename_i l ops _
    by_cases hfree : m.locks l = none
    · exact .inl ⟨_, if_pos hfree⟩
    · exact .inr ⟨rfl, .inr ⟨l, ops, rfl, hfree⟩⟩
  | iretq hv =>
    cases returns with
    | nil => exact absurd rfl (hsource _ hv)
    | cons f rest => exact .inl ⟨_, rfl⟩
  | readFlag | disableSaved | restoreSaved | release | writeStr | notifyEndOfInterrupt | readPort | sti | cli | work
  | breakpoint | fault => exact .inl ⟨_, rfl⟩

/-- Where nobody goes on, all are over: whoever has a lock would go on. -/
theorem Sound.stuck (h : Sound bsp program flag n m es w) (hstuck : ∀ i, m.perform i = none) :
    (∀ l, m.locks l = none) ∧ ∀ i, (m.cpu i).over = true := by
  have hends : ∀ i, (∀ l, m.locks l ≠ some i) ∧
      ((m.cpu i).over = true ∨ ∃ l ops, (m.cpu i).ops = .acquire l :: ops ∧ m.locks l ≠ none) := by
    intro i
    obtain ⟨⟨held, hheld, hfits⟩, -, -⟩ := h.fine i
    rcases hfits.goes with ⟨m', hm'⟩ | ⟨rfl, hends⟩
    · cases (hstuck i).symm.trans hm'
    · exact ⟨fun l hl => (nomatch (hheld l).mp hl), hends⟩
  have hfree : ∀ l, m.locks l = none := fun l => Option.eq_none_iff_forall_ne_some.mpr fun i => (hends i).1 l
  refine ⟨hfree, fun i => ?_⟩
  rcases (hends i).2 with hover | ⟨l, ops, _, hheld⟩
  · exact hover
  · exact absurd (hfree l) hheld

/-- A processor that is over has nothing left to tell anyone. -/
theorem CpuFits.at_end {last : Bool} {held : Option Lock} {c : Cpu} (hc : CpuFits last held c)
    (hover : c.over = true) : (∀ tick, c.toCome tick [] = []) ∧ owed c.ops = [] ∧ c.flag = last := by
  obtain ⟨ops, saved, flag, returns⟩ := c
  have hcode := hc.code
  dsimp only at hcode
  cases hcode with
  | done hmain =>
    obtain rfl : returns = [] := List.head?_eq_none_iff.mp (Option.map_eq_none_iff.mp hmain)
    exact ⟨fun _ => ite_self _, rfl, rfl⟩
  | hltLoop hmain howed =>
    obtain rfl : returns = [] := List.head?_eq_none_iff.mp (Option.map_eq_none_iff.mp hmain)
    exact ⟨fun _ => ite_self _, howed, rfl⟩
  | halted hfault =>
    cases returns with
    | nil => cases hfault
    | cons f rest =>
      have hvector : f.vector = .fault := Option.some.inj hfault
      refine ⟨fun tick => ?_, rfl, rfl⟩
      unfold Cpu.toCome
      simp only [hvector]
      exact ite_self _
  | iretq | acquire | readFlag | disableSaved | restoreSaved | release | writeStr | notifyEndOfInterrupt | readPort
  | sti | cli | work | breakpoint | fault => cases hover

/-- When no more interrupts come, every order of turns ends, after at most as many steps as there are, and never
before all processors are over. Then the locks are free, the controller waits for nothing, every message is on the
console once and interrupts are as the programs have left them. -/
theorem prints_come_to_an_end [Fintype ι] {ls : List (Label ι)}
    (h : Runs.run (Machine.step bsp) (.initial program flag) ls = some m) :
    (∀ (turns : List ι) (m' : Machine ι), Runs.run (Machine.step bsp) m (turns.map .run) = some m' →
        turns.length ≤ m.left) ∧
      ((∀ i, m.perform i = none) → (∀ l, m.locks l = none) ∧ m.inService = [] ∧
        (∀ i, (m.cpu i).over = true ∧ (m.cpu i).flag = lastFlag (flag i) (program i)) ∧
        ∃ es, m.out = es.flatMap Entry.text ∧
          ∀ tick i, shown tick i es = due bsp program (ls.map Label.beats).sum tick i) := by
  constructor
  · intro turns m' hrun
    have hturns : ∀ l ∈ turns.map Label.run, ∃ i, l = .run i := by
      intro l hl
      obtain ⟨i, _, rfl⟩ := List.mem_map.mp hl
      exact ⟨i, rfl⟩
    have hdown : ∀ t l u, (∃ i, l = .run i) → Machine.step bsp t l = some u → u.left < t.left := by
      rintro t l u ⟨i, rfl⟩ hstep
      exact perform_left_lt hstep
    have hlen := Runs.run_length_le hdown hturns hrun
    rw [List.length_map] at hlen
    omega
  · intro hstuck
    obtain ⟨es, w, hsound⟩ := sound_run h
    obtain ⟨hfree, hover⟩ := hsound.stuck hstuck
    obtain rfl := hsound.told.free (hfree .vgaWriter)
    refine ⟨hfree, ?_, fun i => ⟨hover i, ?_⟩, es, ?_, fun tick i => ?_⟩
    · obtain ⟨⟨held, _, hfits⟩, _, hline⟩ := hsound.fine bsp
      rw [if_pos rfl] at hline
      exact hline.symm.trans (hfits.at_end (hover bsp)).2.1
    · obtain ⟨held, _, hfits⟩ := (hsound.fine i).fits
      exact (hfits.at_end (hover i)).2.2
    · exact hsound.told.out.trans (List.append_nil _)
    · obtain ⟨held, _, hfits⟩ := (hsound.fine i).fits
      have horder := (hsound.fine i).order tick
      have hpart : m.part [] i = [] := ite_self _
      rw [hpart, (hfits.at_end (hover i)).1, List.append_nil] at horder
      exact horder

end Ends

/-- One processor panics with interrupts enabled, the other one enables them and has a fault. -/
def endingProgram : Fin 2 → List Stmt
  | 0 => .print [['a']] :: panic [['p']] ++ [.print [['b']]]
  | 1 => [.enable, .fault [[['f']], []], .print [['c']]]

/-- The timer comes in the middle of a message of the other processor. -/
def endingRun : List (Label (Fin 2)) :=
  [.run 1, .run 1, .run 1, .run 1, .run 1, .interrupt .timer]

/-- The rest of that run. -/
def endingTurns : List (Fin 2) := [0, 0, 1, 1] ++ List.replicate 20 0 ++ List.replicate 6 1

theorem prints_come_to_an_end_two :
    ∃ m es, Runs.run (Machine.step 0) (.initial endingProgram (· == 0)) (endingRun ++ endingTurns.map .run) = some m ∧
      (∀ l, m.locks l = none) ∧ (m.cpu 0).flag = true ∧ (m.cpu 1).flag = false ∧ m.out = es.flatMap Entry.text ∧
      ∀ tick i, shown tick i es = due 0 endingProgram 1 tick i := by
  have hends : (Runs.run (Machine.step 0) (.initial endingProgram (· == 0)) (endingRun ++ endingTurns.map .run)).any
      (fun m => (m.perform 0).isNone && (m.perform 1).isNone) = true := by decide +kernel
  obtain ⟨m, hrun, hover⟩ := Option.any_eq_true _ _ |>.mp hends
  rw [Bool.and_eq_true, Option.isNone_iff_eq_none, Option.isNone_iff_eq_none] at hover
  have hstuck : ∀ i, m.perform i = none := Fin.forall_fin_two.mpr hover
  obtain ⟨hfree, _, hflags, es, hout, hdue⟩ := (prints_come_to_an_end hrun).2 hstuck
  exact ⟨m, es, hrun, hfree, (hflags 0).2, (hflags 1).2, hout, hdue⟩

end Interrupts

end Idkernel
