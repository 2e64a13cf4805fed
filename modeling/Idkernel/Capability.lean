import Idkernel.Address
import Idkernel.Abi

/-!
# Capabilities and the storage a task keeps them in

Storage operations return the storage they leave behind, also when they fail:
a refused reservation has already advanced the handle counter.
-/
namespace Idkernel

open Address

structure CapabilityPerms where
  bits : UInt32
  deriving DecidableEq, Repr

namespace CapabilityPerms

def DUPLICATE : CapabilityPerms := ⟨0x1⟩
def SHAREABLE : CapabilityPerms := ⟨0x2⟩
def TRANSFER : CapabilityPerms := ⟨0x4⟩

def contains (p q : CapabilityPerms) : Bool := p.bits &&& q.bits = q.bits

end CapabilityPerms

inductive CapabilityType where
  | mapPhysical : PhysAddr → PhysAddr → CapabilityType
  | mapVirtualToRam
  | processSpawn
  | channelCreate
  deriving DecidableEq, Repr

def CapabilityType.capId : CapabilityType → Nat
  | .mapPhysical _ _ => 1
  | .mapVirtualToRam => 2
  | .processSpawn => 3
  | .channelCreate => 4

structure Capability where
  perms : CapabilityPerms
  ctype : CapabilityType
  deriving DecidableEq, Repr

abbrev CapabilityHandle := Nat

structure TaskCapabilityStorage where
  nextHandle : CapabilityHandle
  handles : List (CapabilityHandle × Capability)
  deriving DecidableEq, Repr

namespace TaskCapabilityStorage

def empty : TaskCapabilityStorage := ⟨0, []⟩

/-- `reserve` is what `try_reserve(1)` answers; `none` is the overflow panic of the counter. -/
def insert (ar : Arith) (reserve : Bool) (cap : Capability) (self : TaskCapabilityStorage) :
    Option (Except SyscallError CapabilityHandle × TaskCapabilityStorage) :=
  (ar.add self.nextHandle 1).map fun next =>
    if reserve then (.ok self.nextHandle, ⟨next, self.handles ++ [(self.nextHandle, cap)]⟩)
    else (.error .noMemory, ⟨next, self.handles⟩)

def position (handle : CapabilityHandle) (self : TaskCapabilityStorage) : Option Nat :=
  self.handles.findIdx? fun x => x.1 = handle

def get (handle : CapabilityHandle) (self : TaskCapabilityStorage) : Option Capability :=
  (self.handles.find? fun x => x.1 = handle).map fun x => x.2

/-- `get_mut`: the capability, and what the storage becomes when it is overwritten. -/
def getMut (handle : CapabilityHandle) (self : TaskCapabilityStorage) :
    Option (Capability × (Capability → TaskCapabilityStorage)) := do
  let index ← self.position handle
  let entry ← self.handles[index]?
  return (entry.2, fun cap => ⟨self.nextHandle, self.handles.set index (entry.1, cap)⟩)

def delete (handle : CapabilityHandle) (self : TaskCapabilityStorage) :
    Except SyscallError Capability × TaskCapabilityStorage :=
  match self.position handle with
  | none => (.error .wrongCapability, self)
  | some index => match self.handles[index]? with
    | none => (.error .wrongCapability, self)
    | some entry => (.ok entry.2, ⟨self.nextHandle, self.handles.eraseIdx index⟩)

/-- A found handle splits the list at its first entry. -/
theorem position_split {handle : CapabilityHandle} {self : TaskCapabilityStorage} {i : Nat}
    (h : self.position handle = some i) :
    ∃ cap before after, self.handles = before ++ (handle, cap) :: after ∧ before.length = i ∧
      ∀ e ∈ before, e.1 ≠ handle := by
  obtain ⟨hi, hp, hb⟩ := List.findIdx?_eq_some_iff_getElem.mp h
  have he : self.handles[i].1 = handle := of_decide_eq_true hp
  refine ⟨self.handles[i].2, self.handles.take i, self.handles.drop (i + 1), ?_, ?_, ?_⟩
  · have hsplit : self.handles = self.handles.take i ++ self.handles[i] :: self.handles.drop (i + 1) := by
      rw [List.getElem_cons_drop, List.take_append_drop]
    conv => lhs; rw [hsplit]
    rw [← he]
  · simp only [List.length_take]; omega
  · intro e hm
    obtain ⟨j, hj, rfl⟩ := List.mem_take_iff_getElem.mp hm
    have := hb j (by omega)
    simpa using this

/-- A storage has a handle exactly when it has a position for it. -/
theorem get_isSome {handle : CapabilityHandle} {self : TaskCapabilityStorage} :
    (self.get handle).isSome = (self.position handle).isSome := by
  have hfind : ∀ l : List (CapabilityHandle × Capability),
      (l.find? fun x => decide (x.1 = handle)).isSome = l.any fun x => decide (x.1 = handle) := by
    intro l
    induction l with
    | nil => rfl
    | cons e l ih => by_cases he : e.1 = handle <;> simp [he, ih]
  simp [get, position, hfind]

theorem get_split {handle : CapabilityHandle} {cap : Capability}
    {before after : List (CapabilityHandle × Capability)} {next : CapabilityHandle}
    (hb : ∀ e ∈ before, e.1 ≠ handle) :
    get handle ⟨next, before ++ (handle, cap) :: after⟩ = some cap := by
  have hnone : (before.find? fun x => decide (x.1 = handle)) = none := by simpa using hb
  simp [get, List.find?_append, hnone]

/-- What a handle denotes is its first entry. -/
theorem get_cases {handle : CapabilityHandle} {self : TaskCapabilityStorage} {cap : Capability}
    (h : self.get handle = some cap) :
    ∃ before after, self.handles = before ++ (handle, cap) :: after ∧ ∀ e ∈ before, e.1 ≠ handle := by
  have hsome : (self.position handle).isSome = true := by rw [← get_isSome, h]; rfl
  obtain ⟨i, hp⟩ := Option.isSome_iff_exists.mp hsome
  obtain ⟨cap', before, after, hs, _, hb⟩ := position_split hp
  obtain ⟨next, handles⟩ := self
  subst hs
  obtain rfl : cap' = cap := Option.some.inj ((get_split hb).symm.trans h)
  exact ⟨before, after, rfl, hb⟩

theorem mem_of_get {handle : CapabilityHandle} {self : TaskCapabilityStorage} {cap : Capability}
    (h : self.get handle = some cap) : (handle, cap) ∈ self.handles := by
  obtain ⟨before, after, hs, _⟩ := get_cases h
  rw [hs]
  simp

theorem insert_cases {ar : Arith} {reserve : Bool} {cap : Capability} {self caps : TaskCapabilityStorage}
    {r : Except SyscallError CapabilityHandle} (h : self.insert ar reserve cap = some (r, caps)) :
    reserve = true ∧ r = .ok self.nextHandle ∧ caps.handles = self.handles ++ [(self.nextHandle, cap)] ∨
      reserve = false ∧ r = .error .noMemory ∧ caps.handles = self.handles := by
  obtain ⟨next, _, he⟩ := Option.map_eq_some_iff.mp h
  cases reserve with
  | true =>
    obtain ⟨rfl, rfl⟩ := Prod.mk.inj he
    exact .inl ⟨rfl, rfl, rfl⟩
  | false =>
    obtain ⟨rfl, rfl⟩ := Prod.mk.inj he
    exact .inr ⟨rfl, rfl, rfl⟩

theorem delete_cases {handle : CapabilityHandle} {self caps : TaskCapabilityStorage}
    {r : Except SyscallError Capability} (h : self.delete handle = (r, caps)) :
    (self.get handle = none ∧ r = .error .wrongCapability ∧ caps = self) ∨
      ∃ cap before after, self.get handle = some cap ∧ r = .ok cap ∧ (∀ e ∈ before, e.1 ≠ handle) ∧
        self.handles = before ++ (handle, cap) :: after ∧ caps.handles = before ++ after := by
  unfold delete at h
  cases hp : self.position handle with
  | none =>
    have hg : self.get handle = none := by
      have hsome : (self.get handle).isSome = (self.position handle).isSome := get_isSome
      simpa [hp] using hsome
    simp_all
  | some i =>
    right
    obtain ⟨cap, before, after, hs, hl, hb⟩ := position_split hp
    obtain ⟨next, handles⟩ := self
    subst hs hl
    simp only [hp, List.getElem?_append_right, Nat.le_refl, Nat.sub_self,
      List.getElem?_cons_zero] at h
    obtain ⟨rfl, rfl⟩ := Prod.mk.inj h
    exact ⟨cap, before, after, get_split hb, rfl, hb, rfl, by simp [List.eraseIdx_append_of_length_le]⟩

theorem getMut_cases {handle : CapabilityHandle} {self : TaskCapabilityStorage} {cap : Capability}
    {put : Capability → TaskCapabilityStorage} (h : self.getMut handle = some (cap, put)) :
    ∃ before after, self.handles = before ++ (handle, cap) :: after ∧
      ∀ c, (put c).handles = before ++ (handle, c) :: after := by
  obtain ⟨i, hp, h⟩ := Option.bind_eq_some_iff.mp h
  obtain ⟨x, before, after, hs, hl, _⟩ := position_split hp
  obtain ⟨next, handles⟩ := self
  subst hs hl
  simp only [List.getElem?_append_right, Nat.le_refl, Nat.sub_self, List.getElem?_cons_zero,
    Option.bind_eq_bind, Option.bind_some, Option.pure_def, Option.some.injEq, Prod.mk.injEq] at h
  obtain ⟨rfl, rfl⟩ := h
  exact ⟨before, after, rfl, fun c => by simp⟩

end TaskCapabilityStorage

end Idkernel
