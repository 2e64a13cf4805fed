import Mathlib.Data.Nat.Bitwise
import Idkernel.Locks
import Idkernel.Address
import Idkernel.Abi

/-!
# Page tables and frames as the kernel uses them

The mapper and the frame allocator are parameters: an address space is whatever
the mapper makes of it, observed only through the leaf a page has. What the
callers rely on is stated once, as `Paging.Lawful` and `Paging.Fresh`.
-/
namespace Idkernel

open Address Traced Locks

/-- The locks the kernel spins on. -/
inductive LockName where
  | registry
  | task : TaskId → LockName
  | rootFs : TaskId → LockName
  | frameAllocator
  deriving DecidableEq, Repr

/-- What is logged besides locking: each page a mapping is requested for. -/
inductive Note where
  | mapRequest : Page → PhysFrame → Note
  deriving DecidableEq, Repr

abbrev KEvent := Locks.Event LockName Note

abbrev PageTableFlags := UInt64

namespace PageTableFlags

def PRESENT : PageTableFlags := 0x1
def WRITABLE : PageTableFlags := 0x2
def USER_ACCESSIBLE : PageTableFlags := 0x4
def BIT_10 : PageTableFlags := 0x400
def NO_EXECUTE : PageTableFlags := 0x8000000000000000

end PageTableFlags

inductive MapToError where
  | frameAllocationFailed
  | parentEntryHugePage
  | pageAlreadyMapped : PhysFrame → MapToError
  deriving DecidableEq, Repr

structure Paging where
  Table : Type
  Frames : Type
  allocateFrame : Frames → Option PhysFrame × Frames
  /-- The page, its frame, the flags of the leaf and those of missing parent tables. -/
  mapTo : Table → Frames → Page → PhysFrame → PageTableFlags → PageTableFlags →
    Except MapToError Unit × Table × Frames
  leaf : Table → Page → Option (PhysFrame × PageTableFlags)
  /-- `Drop for UserPageTable` -/
  dropTable : Table → Frames → Frames

/-- Mapping a page that has no leaf gives it the requested one or fails, and no other leaf
changes; a page that has a leaf is refused. -/
structure Paging.Lawful (pg : Paging) : Prop where
  mapped : ∀ t fs p f fl pfl t' fs', pg.mapTo t fs p f fl pfl = (.ok (), t', fs') →
    pg.leaf t p = none ∧ pg.leaf t' = Function.update (pg.leaf t) p (some (f, fl))
  failed : ∀ t fs p f fl pfl e t' fs', pg.mapTo t fs p f fl pfl = (.error e, t', fs') →
    pg.leaf t' = pg.leaf t

/-- A frame that was handed out is not handed out again. -/
structure Paging.Fresh (pg : Paging) where
  unused : pg.Frames → PhysFrame → Prop
  allocated : ∀ fs f fs', pg.allocateFrame fs = (some f, fs') →
    unused fs f ∧ ¬ unused fs' f ∧ ∀ g, unused fs' g → unused fs g
  mapped : ∀ t fs p f fl pfl r t' fs', pg.mapTo t fs p f fl pfl = (r, t', fs') →
    ∀ g, unused fs' g → unused fs g

/-! ### The simplest paging

A table that is its leaves, and frames handed out in increasing order: what is asked of
a mapper and an allocator can be had. -/

def frameAt (n : Nat) (h : n < 2 ^ 40) : PhysFrame :=
  ⟨⟨n * 4096, by omega⟩, by dsimp only; omega⟩

abbrev FlatTable := Page → Option (PhysFrame × PageTableFlags)

def flatAllocate (n : Nat) : Option PhysFrame × Nat :=
  if h : n < 2 ^ 40 then (some (frameAt n h), n + 1) else (none, n)

def flatMapTo (t : FlatTable) (n : Nat) (page : Page) (frame : PhysFrame) (flags : PageTableFlags) :
    Except MapToError Unit × FlatTable × Nat :=
  match t page with
  | some leaf => (.error (.pageAlreadyMapped leaf.1), t, n)
  | none => (.ok (), Function.update t page (some (frame, flags)), n)

def Paging.flat : Paging where
  Table := FlatTable
  Frames := Nat
  allocateFrame := flatAllocate
  mapTo t n page frame flags _ := flatMapTo t n page frame flags
  leaf t page := t page
  dropTable _ n := n

theorem flatAllocate_cases {n n' : Nat} {f : PhysFrame} (h : flatAllocate n = (some f, n')) :
    f.start.raw = n * 4096 ∧ n' = n + 1 := by
  unfold flatAllocate at h
  split at h
  · cases h; exact ⟨rfl, rfl⟩
  · cases h

theorem flatMapTo_cases {t t' : FlatTable} {n n' : Nat} {p : Page} {f : PhysFrame} {fl : PageTableFlags}
    {r : Except MapToError Unit} (h : flatMapTo t n p f fl = (r, t', n')) :
    n' = n ∧ (r = .ok () ∧ t p = none ∧ t' = Function.update t p (some (f, fl)) ∨ r ≠ .ok () ∧ t' = t) := by
  unfold flatMapTo at h
  split at h
  · cases h; exact ⟨rfl, .inr ⟨by simp, rfl⟩⟩
  · cases h; exact ⟨rfl, .inl ⟨rfl, by assumption, rfl⟩⟩

theorem Paging.flat_lawful : Paging.flat.Lawful where
  mapped t fs p f fl pfl t' fs' h := by
    rcases (flatMapTo_cases h).2 with ⟨_, hp, ht⟩ | ⟨hne, _⟩
    · exact ⟨hp, ht⟩
    · exact absurd rfl hne
  failed t fs p f fl pfl e t' fs' h := by
    rcases (flatMapTo_cases h).2 with ⟨he, _⟩ | ⟨_, ht⟩
    · cases he
    · exact ht

def Paging.flat_fresh : Paging.flat.Fresh where
  unused n f := Nat.le n (f.start.raw / 4096)
  allocated n f n' h := by
    obtain ⟨hf, rfl⟩ := flatAllocate_cases h
    have hdiv : f.start.raw / 4096 = n := by rw [hf]; exact Nat.mul_div_cancel n (by decide)
    refine ⟨Nat.le_of_eq hdiv.symm, ?_, fun g hg => Nat.le_of_succ_le hg⟩
    rw [hdiv]
    exact Nat.not_succ_le_self n
  mapped t n p f fl pfl r t' n' h g hg := (flatMapTo_cases h).1 ▸ hg

/-- Physical memory, by address; the kernel reaches it through its direct map. -/
abbrev Memory := Nat → UInt8

def Memory.fill (m : Memory) (start len : Nat) (x : UInt8) : Memory := fun a =>
  if start ≤ a ∧ a < start + len then x else m a

def Memory.copy (m : Memory) (start : Nat) (bytes : List UInt8) : Memory := fun a =>
  if start ≤ a ∧ a < start + bytes.length then bytes.getD (a - start) 0 else m a

/-- One address space, with the frame supply and the memory all of them share. -/
structure Vm (pg : Paging) where
  table : pg.Table
  frames : pg.Frames
  memory : Memory

abbrev VmM (pg : Paging) (ε : Type) := Comp (Vm pg) KEvent ε

variable {pg : Paging} {ε : Type}

def allocateFrame : VmM pg ε (Option PhysFrame) := do
  let (frame, frames) ← Comp.read fun v => pg.allocateFrame v.frames
  Comp.write fun v => { v with frames := frames }
  return frame

def mapTo (page : Page) (frame : PhysFrame) (flags parentFlags : PageTableFlags) :
    VmM pg ε (Except MapToError Unit) := do
  Comp.emit (.note (.mapRequest page frame))
  let (r, table, frames) ← Comp.read fun v => pg.mapTo v.table v.frames page frame flags parentFlags
  Comp.write fun v => { v with table := table, frames := frames }
  return r

theorem allocateFrame_run (v : Vm pg) : (allocateFrame v : Ran _ _ ε _) =
    ⟨.ok (pg.allocateFrame v.frames).1, { v with frames := (pg.allocateFrame v.frames).2 }, []⟩ := rfl

theorem mapTo_run (page : Page) (frame : PhysFrame) (flags parentFlags : PageTableFlags) (v : Vm pg) :
    (mapTo page frame flags parentFlags v : Ran _ _ ε _) =
      let r := pg.mapTo v.table v.frames page frame flags parentFlags
      ⟨.ok r.1, { v with table := r.2.1, frames := r.2.2 }, [.note (.mapRequest page frame)]⟩ := rfl

/-- The one test of a user address: its top bit. -/
def checkAddrUserspace (addr : Nat) : Except SyscallError Unit :=
  if addr &&& 1 <<< 63 = 0 then .ok () else .error .wrongParameters

theorem checkAddrUserspace_ok {addr : Nat} (h : addr < 2 ^ 64) :
    checkAddrUserspace addr = .ok () ↔ addr < 2 ^ 63 := by
  have hbit : addr &&& 1 <<< 63 = (decide (addr / 2 ^ 63 % 2 = 1)).toNat * 2 ^ 63 := by
    rw [Nat.one_shiftLeft, Nat.and_two_pow, Nat.testBit_eq_decide_div_mod_eq]
  unfold checkAddrUserspace
  rw [hbit]
  simp
  omega

end Idkernel
