import Idkernel.CapabilityCalls
import Idkernel.Numbered

/-!
# Histories of a capability storage

Insertions, refused ones too, move the counter; deletions keep the order. So
the handles stay sorted, and the two ways of listing them tell the same.
-/
namespace Idkernel

open Address Traced Locks Numbered Runs

namespace TaskCapabilityStorage

theorem insert_checked {s caps : TaskCapabilityStorage} {reserve : Bool} {cap : Capability}
    {r : Except SyscallError CapabilityHandle} (h : s.insert .checked reserve cap = some (r, caps)) :
    caps.nextHandle = s.nextHandle + 1 := by
  obtain ⟨next, hnext, he⟩ := Option.map_eq_some_iff.mp h
  have hsum : next = s.nextHandle + 1 := by
    rcases Arith.add_cases hnext with ⟨hsum, _⟩ | ⟨hw, _⟩
    · exact hsum
    · cases hw
  cases reserve with
  | true =>
    obtain ⟨_, rfl⟩ := Prod.mk.inj he
    exact hsum
  | false =>
    obtain ⟨_, rfl⟩ := Prod.mk.inj he
    exact hsum

theorem getMut_some {s : TaskCapabilityStorage} {h : CapabilityHandle} {cap : Capability}
    {put : Capability → TaskCapabilityStorage} (hm : s.getMut h = some (cap, put)) :
    (s.get h).isSome = true := by
  obtain ⟨i, hp, _⟩ := Option.bind_eq_some_iff.mp hm
  rw [get_isSome, hp]
  rfl

theorem getMut_none {s : TaskCapabilityStorage} {h : CapabilityHandle} (hm : s.getMut h = none) :
    (s.get h).isSome = false := by
  rw [get_isSome]
  cases hp : s.position h with
  | none => rfl
  | some i =>
    obtain ⟨cap, before, after, hs, hl, _⟩ := position_split hp
    have hi : s.handles[i]? = some (h, cap) := by
      rw [hs, ← hl, List.getElem?_append_right (Nat.le_refl _), Nat.sub_self, List.getElem?_cons_zero]
    simp [getMut, hp, hi] at hm

theorem getMut_next {s : TaskCapabilityStorage} {h : CapabilityHandle} {cap : Capability}
    {put : Capability → TaskCapabilityStorage} (hm : s.getMut h = some (cap, put)) (c : Capability) :
    (put c).nextHandle = s.nextHandle := by
  obtain ⟨i, _, hm⟩ := Option.bind_eq_some_iff.mp hm
  obtain ⟨entry, _, hm⟩ := Option.bind_eq_some_iff.mp hm
  cases hm
  rfl

theorem delete_next {s caps : TaskCapabilityStorage} {h : CapabilityHandle} {r : Except SyscallError Capability}
    (hd : s.delete h = (r, caps)) : caps.nextHandle = s.nextHandle := by
  unfold delete at hd
  split at hd
  · cases hd; rfl
  · split at hd
    · cases hd; rfl
    · cases hd; rfl

/-- What is put replaces the entry that was found. -/
theorem getMut_put {s : TaskCapabilityStorage} {h : CapabilityHandle} {cap : Capability}
    {put : Capability → TaskCapabilityStorage} (hm : s.getMut h = some (cap, put)) :
    ∃ before after, s.handles = before ++ (h, cap) :: after ∧
      ∀ c, put c = ⟨s.nextHandle, before ++ (h, c) :: after⟩ := by
  obtain ⟨before, after, hs, hput⟩ := getMut_cases hm
  refine ⟨before, after, hs, fun c => ?_⟩
  have hnext := getMut_next hm c
  have hhandles := hput c
  cases hp : put c with
  | mk next handles =>
    rw [hp] at hnext hhandles
    exact congrArg₂ _ hnext hhandles

/-- The table that a storage keeps. -/
def table (s : TaskCapabilityStorage) : Table Capability := ⟨s.nextHandle, s.handles⟩

theorem insert_changes {s s' : TaskCapabilityStorage} {reserve : Bool} {cap : Capability}
    {r : Except SyscallError CapabilityHandle} (h : s.insert .checked reserve cap = some (r, s')) :
    Changes s.table (if reserve then .push cap else .keep) s'.table := by
  obtain ⟨next', handles'⟩ := s'
  obtain rfl : next' = s.nextHandle + 1 := insert_checked h
  rcases insert_cases h with ⟨rfl, rfl, hh⟩ | ⟨rfl, rfl, hh⟩
  · obtain rfl : handles' = _ := hh
    exact .push (Nat.lt_succ_self _)
  · obtain rfl : handles' = _ := hh
    exact .keep (Nat.le_succ _)

theorem delete_changes {s s' : TaskCapabilityStorage} {handle : CapabilityHandle}
    {r : Except SyscallError Capability} (h : s.delete handle = (r, s')) :
    Changes s.table (if (s.get handle).isSome then .remove handle else .keep) s'.table := by
  obtain ⟨next, handles⟩ := s
  obtain ⟨next', handles'⟩ := s'
  obtain rfl : next' = next := delete_next h
  rcases delete_cases h with ⟨hg, rfl, hs⟩ | ⟨cap, before, after, hg, rfl, _, hs, hs'⟩
  · cases hs
    rw [hg]
    exact .keep (Nat.le_refl _)
  · obtain rfl : handles = _ := hs
    obtain rfl : handles' = _ := hs'
    rw [hg]
    exact .remove

theorem put_changes {s : TaskCapabilityStorage} {handle : CapabilityHandle} {cap : Capability}
    {put : Capability → TaskCapabilityStorage} (h : s.getMut handle = some (cap, put)) (c : Capability) :
    Changes s.table (.replace handle) (put c).table := by
  obtain ⟨before, after, hs, hput⟩ := getMut_put h
  obtain ⟨next, handles⟩ := s
  obtain rfl : handles = _ := hs
  rw [hput c]
  exact .replace

end TaskCapabilityStorage

inductive StorageOp where
  /-- with the answer of the reservation -/
  | insert : Bool → Capability → StorageOp
  | delete : CapabilityHandle → StorageOp
  | restrict : CapabilityHandle → (Capability → Capability) → StorageOp

/-- The handle that an operation is about. -/
def StorageOp.handle : StorageOp → Option CapabilityHandle
  | .insert _ _ => none
  | .delete handle => some handle
  | .restrict handle _ => some handle

/-- A storage with the handles that `insert` returned so far and those that were deleted. -/
structure CapHistory where
  storage : TaskCapabilityStorage
  returned : List CapabilityHandle
  deleted : List CapabilityHandle

namespace CapHistory

def start : CapHistory := ⟨.empty, [], []⟩

def step (ar : Arith) (w : CapHistory) : StorageOp → Option CapHistory
  | .insert reserve cap => (w.storage.insert ar reserve cap).map fun r =>
    match r.1 with
    | .ok handle => { w with storage := r.2, returned := w.returned ++ [handle] }
    | .error _ => { w with storage := r.2 }
  | .delete handle =>
    match w.storage.delete handle with
    | (.ok _, storage) => some { w with storage := storage, deleted := w.deleted ++ [handle] }
    | (.error _, storage) => some { w with storage := storage }
  | .restrict handle f =>
    match w.storage.getMut handle with
    | some (cap, put) => some { w with storage := put (f cap) }
    | none => some w

/-! ## The table behind it -/

def view (w : CapHistory) : Table Capability := ⟨w.storage.nextHandle, w.storage.handles⟩

def effect (w : CapHistory) : StorageOp → Change Capability
  | .insert reserve cap => if reserve then .push cap else .keep
  | .delete handle => if (w.storage.get handle).isSome then .remove handle else .keep
  | .restrict handle _ => if (w.storage.get handle).isSome then .replace handle else .keep

theorem touched_effect {w : CapHistory} {op : StorageOp} {h : CapabilityHandle}
    (hop : (effect w op).touched = some h) :
    op.handle = some h := by
  cases op with
  | insert reserve cap => cases reserve <;> simp [effect, Change.touched] at hop
  | delete handle =>
    cases hsome : (w.storage.get handle).isSome with
    | false => simp [effect, hsome, Change.touched] at hop
    | true => simpa [effect, hsome, Change.touched, StorageOp.handle] using hop
  | restrict handle f =>
    cases hsome : (w.storage.get handle).isSome with
    | false => simp [effect, hsome, Change.touched] at hop
    | true => simpa [effect, hsome, Change.touched, StorageOp.handle] using hop

/-- The three kinds of operations change the table in the three ways there are. -/
theorem step_changes {w w' : CapHistory} {op : StorageOp} (h : step .checked w op = some w') :
    Changes w.view (effect w op) w'.view := by
  cases op with
  | insert reserve cap =>
    obtain ⟨⟨r, storage⟩, hins, rfl⟩ := Option.map_eq_some_iff.mp h
    cases r <;> exact TaskCapabilityStorage.insert_changes hins
  | delete handle =>
    simp only [step] at h
    rcases hd : w.storage.delete handle with ⟨r, storage⟩
    rw [hd] at h
    cases r <;> cases h <;> exact TaskCapabilityStorage.delete_changes hd
  | restrict handle f =>
    simp only [step] at h
    cases hm : w.storage.getMut handle with
    | none =>
      simp only [hm] at h
      cases h
      rw [effect, TaskCapabilityStorage.getMut_none hm]
      exact .keep (Nat.le_refl _)
    | some r =>
      simp only [hm] at h
      cases h
      rw [effect, TaskCapabilityStorage.getMut_some hm]
      exact TaskCapabilityStorage.put_changes hm (f r.1)

/-! ## Along a history -/

structure Inv (w : CapHistory) : Prop where
  ordered : w.view.Ordered
  fresh : w.returned.Nodup
  issued : ∀ h ∈ w.returned, h < w.storage.nextHandle
  gone : ∀ h ∈ w.deleted, h < w.view.next ∧ w.view.lookup h = none

theorem start_inv : Inv start where
  ordered := ⟨.nil, by simp [view, start, TaskCapabilityStorage.empty]⟩
  fresh := .nil
  issued := by simp [start]
  gone := by simp [start]

theorem Inv.step {w w' : CapHistory} {op : StorageOp} (hw : Inv w)
    (h : CapHistory.step .checked w op = some w') :
    Inv w' := by
  have hc := step_changes h
  have hgone : ∀ h ∈ w.deleted, h < w'.view.next ∧ w'.view.lookup h = none := fun k hk =>
    ⟨Nat.lt_of_lt_of_le (hw.gone k hk).1 hc.next_le, hc.lookup_none (hw.gone k hk).1 (hw.gone k hk).2⟩
  have hissued : ∀ h ∈ w.returned, h < w'.storage.nextHandle := fun k hk =>
    Nat.lt_of_lt_of_le (hw.issued k hk) hc.next_le
  have hordered := hc.ordered hw.ordered
  cases op with
  | insert reserve cap =>
    obtain ⟨⟨r, caps⟩, hins, rfl⟩ := Option.map_eq_some_iff.mp h
    have hnext := TaskCapabilityStorage.insert_checked hins
    rcases TaskCapabilityStorage.insert_cases hins with ⟨rfl, rfl, _⟩ | ⟨rfl, rfl, _⟩
    · refine ⟨hordered, List.nodup_append.mpr ⟨hw.fresh, by simp, fun x hx y hy => ?_⟩, fun x hx => ?_, hgone⟩
      · rw [List.mem_singleton.mp hy]
        exact Nat.ne_of_lt (hw.issued x hx)
      · rcases List.mem_append.mp hx with hx | hx
        · exact hissued x hx
        · rw [List.mem_singleton.mp hx]
          dsimp only
          rw [hnext]
          exact Nat.lt_succ_self _
    · exact ⟨hordered, hw.fresh, hissued, hgone⟩
  | delete handle =>
    simp only [CapHistory.step] at h
    rcases hd : w.storage.delete handle with ⟨r, caps⟩
    rcases TaskCapabilityStorage.delete_cases hd with ⟨hg, rfl, _⟩ | ⟨cap, before, after, hg, rfl, _⟩
    · simp only [hd] at h
      cases h
      exact ⟨hordered, hw.fresh, hissued, hgone⟩
    · simp only [hd] at h
      cases h
      refine ⟨hordered, hw.fresh, hissued, fun x hx => ?_⟩
      rcases List.mem_append.mp hx with hx | hx
      · exact hgone x hx
      · rw [List.mem_singleton.mp hx]
        rw [effect, hg] at hc
        exact hc.removed hw.ordered
  | restrict handle f =>
    simp only [CapHistory.step] at h
    cases hm : w.storage.getMut handle with
    | none =>
      simp only [hm] at h
      cases h
      exact hw
    | some r =>
      simp only [hm] at h
      cases h
      exact ⟨hordered, hw.fresh, hissued, hgone⟩

/-- Below the end of the counter no build makes a difference, and nothing panics. -/
theorem step_any (ar : Arith) {w : CapHistory} (op : StorageOp) (h : w.view.next + 1 < 2 ^ 64) :
    step ar w op = step .checked w op ∧
      ∃ w', step .checked w op = some w' ∧ w'.view.next ≤ w.view.next + 1 := by
  cases op with
  | insert reserve cap =>
    have hadd : ∀ ar' : Arith, ar'.add w.storage.nextHandle 1 = some (w.storage.nextHandle + 1) :=
      fun ar' => ar'.add_of_lt h
    cases reserve with
    | true =>
      simp only [step, TaskCapabilityStorage.insert, hadd, Option.map_some, if_true]
      exact ⟨trivial, _, rfl, Nat.le_refl _⟩
    | false =>
      simp only [step, TaskCapabilityStorage.insert, hadd, Option.map_some]
      exact ⟨trivial, _, rfl, Nat.le_refl _⟩
  | delete handle =>
    refine ⟨rfl, ?_⟩
    rcases hd : w.storage.delete handle with ⟨r, caps⟩
    have hle : caps.nextHandle ≤ w.view.next + 1 := TaskCapabilityStorage.delete_next hd ▸ Nat.le_succ _
    simp only [step, hd]
    cases r with
    | ok cap => exact ⟨_, rfl, hle⟩
    | error e => exact ⟨_, rfl, hle⟩
  | restrict handle f =>
    refine ⟨rfl, ?_⟩
    simp only [step]
    cases hm : w.storage.getMut handle with
    | none => exact ⟨w, rfl, Nat.le_succ _⟩
    | some r =>
      have hnext : (r.2 (f r.1)).nextHandle = w.storage.nextHandle :=
        TaskCapabilityStorage.getMut_next hm (f r.1)
      exact ⟨_, rfl, Nat.le_of_eq hnext |>.trans (Nat.le_succ _)⟩

theorem run_any (ar : Arith) {ops : List StorageOp} {w : CapHistory} (h : w.view.next + ops.length < 2 ^ 64) :
    run (step ar) w ops = run (step .checked) w ops ∧ ∃ w', run (step .checked) w ops = some w' := by
  induction ops generalizing w with
  | nil => exact ⟨rfl, w, rfl⟩
  | cons op ops ih =>
    rw [List.length_cons] at h
    obtain ⟨hsame, w', hw', hle⟩ := step_any ar op (w := w) (by omega)
    have hrest := ih (w := w') (by omega)
    simpa only [run, hsame, hw', Option.bind_some] using hrest

theorem start_next : start.view.next = 0 := rfl

end CapHistory

/-! ## What is listed -/

/-- What a task sees of its capabilities by their places and by their handles. -/
structure Enumerates {pg : Paging} (k : Kernel pg) (caps : TaskCapabilityStorage) : Prop where
  count : ∀ index, (CapCall.inspect 0 index k).outcome = .ok (caps.handles.length, 0)
  listed : ∀ h, (caps.get h).isSome ↔
    ∃ i < caps.handles.length, ∃ id, (CapCall.inspect 1 i k).outcome = .ok (h, id)
  once : ∀ i j h id id', (CapCall.inspect 1 i k).outcome = .ok (h, id) →
    (CapCall.inspect 1 j k).outcome = .ok (h, id') → i = j
  agree : ∀ i h id, (CapCall.inspect 1 i k).outcome = .ok (h, id) →
    ∃ perms, (CapCall.inspect 2 h k).outcome = .ok (perms, id)

section Enumerates

variable {pg : Paging} {k : Kernel pg} {t : TaskId} {task : TaskContext pg t}

theorem inspect_count (hcur : k.taskId = some t) (htask : k.tasks.lookup t = some task) (index : Nat) :
    (CapCall.inspect 0 index k).outcome = .ok (task.capabilities.handles.length, 0) := by
  rw [CapCall.inspect, currentTask_bind hcur htask, after_outcome, withGuard_outcome, getTask_bind htask]
  rfl

theorem inspect_place (hcur : k.taskId = some t) (htask : k.tasks.lookup t = some task) (i : Nat) :
    (CapCall.inspect 1 i k).outcome =
      match task.capabilities.handles[i]? with
      | some e => .ok (e.1, e.2.ctype.capId)
      | none => .err .wrongParameters := by
  rw [CapCall.inspect, currentTask_bind hcur htask, after_outcome, withGuard_outcome, getTask_bind htask]
  cases task.capabilities.handles[i]? <;> rfl

theorem inspect_handle (hcur : k.taskId = some t) (htask : k.tasks.lookup t = some task) (h : Nat) :
    (CapCall.inspect 2 h k).outcome =
      match task.capabilities.get h with
      | some cap => .ok (cap.perms.bits.toNat, cap.ctype.capId)
      | none => .err .wrongCapability := by
  rw [CapCall.inspect, currentTask_bind hcur htask, after_outcome, withGuard_outcome, getTask_bind htask]
  cases task.capabilities.get h <;> rfl

theorem enumerates_of_sorted (hcur : k.taskId = some t) (htask : k.tasks.lookup t = some task)
    (hs : task.capabilities.handles.Pairwise fun x y => x.1 < y.1) : Enumerates k task.capabilities := by
  have hplace : ∀ {i h id}, (CapCall.inspect 1 i k).outcome = .ok (h, id) →
      ∃ cap : Capability, task.capabilities.handles[i]? = some (h, cap) ∧ cap.ctype.capId = id := by
    intro i h id hi
    rw [inspect_place hcur htask] at hi
    cases he : task.capabilities.handles[i]? with
    | none => simp [he] at hi
    | some e =>
      simp only [he, Outcome.ok.injEq, Prod.mk.injEq] at hi
      exact ⟨e.2, by rw [← hi.1], hi.2⟩
  constructor
  · exact inspect_count hcur htask
  · intro h
    constructor
    · intro hsome
      obtain ⟨cap, hcap⟩ := Option.isSome_iff_exists.mp hsome
      obtain ⟨i, hi, he⟩ := List.getElem_of_mem (TaskCapabilityStorage.mem_of_get hcap)
      refine ⟨i, hi, cap.ctype.capId, ?_⟩
      rw [inspect_place hcur htask, List.getElem?_eq_getElem hi, he]
    · rintro ⟨i, _, id, hi⟩
      obtain ⟨cap, hmem, _⟩ := hplace hi
      have hfind : task.capabilities.get h = some cap := find_of_mem hs (List.mem_of_getElem? hmem)
      rw [hfind]
      rfl
  · intro i j h id id' hi hj
    obtain ⟨cap, hi, _⟩ := hplace hi
    obtain ⟨cap', hj, _⟩ := hplace hj
    obtain ⟨hilt, hi⟩ := List.getElem?_eq_some_iff.mp hi
    obtain ⟨hjlt, hj⟩ := List.getElem?_eq_some_iff.mp hj
    have hsorted := List.pairwise_iff_getElem.mp hs
    rcases Nat.lt_trichotomy i j with hlt | heq | hlt
    · have hlt := hsorted i j hilt hjlt hlt
      rw [hi, hj] at hlt
      exact absurd hlt (Nat.lt_irrefl _)
    · exact heq
    · have hlt := hsorted j i hjlt hilt hlt
      rw [hi, hj] at hlt
      exact absurd hlt (Nat.lt_irrefl _)
  · intro i h id hi
    obtain ⟨cap, hmem, rfl⟩ := hplace hi
    have hfind : task.capabilities.get h = some cap := find_of_mem hs (List.mem_of_getElem? hmem)
    exact ⟨cap.perms.bits.toNat, by rw [inspect_handle hcur htask, hfind]⟩

end Enumerates

/-! ## The laws -/

/-- Where a history has led to. -/
structure HandleLaws (ar : Arith) (ops : List StorageOp) (w : CapHistory) : Prop where
  sorted : (w.storage.handles.map Prod.fst).Pairwise (· < ·)
  below : ∀ h ∈ w.storage.handles.map Prod.fst, h < w.storage.nextHandle
  returnedOnce : w.returned.Nodup
  neverAgain : ∀ h ∈ w.deleted, w.storage.get h = none
  stable : ∀ as bs v h cap, ops = as ++ bs → run (CapHistory.step ar) .start as = some v →
    v.storage.get h = some cap → (∀ op ∈ bs, op.handle ≠ some h) → w.storage.get h = some cap
  listed : ∀ {pg : Paging} (k : Kernel pg) (t : TaskId) (task : TaskContext pg t), k.taskId = some t →
    k.tasks.lookup t = some task → task.capabilities = w.storage → Enumerates k w.storage

theorem handles_never_reused (ar : Arith) {ops : List StorageOp} (hops : ops.length < 2 ^ 64) :
    ∃ w, run (CapHistory.step ar) .start ops = some w ∧ HandleLaws ar ops w := by
  have hroom : CapHistory.start.view.next + ops.length < 2 ^ 64 := by
    rw [CapHistory.start_next]
    omega
  obtain ⟨hsame, w, hw⟩ := CapHistory.run_any ar hroom
  have hinv : CapHistory.Inv w :=
    run_invariant (I := CapHistory.Inv) (fun _ _ _ hi hl => hi.step hl) CapHistory.start_inv hw
  refine ⟨w, hsame.trans hw, ?_⟩
  exact
    { sorted := List.pairwise_map.mpr hinv.ordered.sorted
      below := by
        intro h hh
        obtain ⟨e, he, rfl⟩ := List.mem_map.mp hh
        exact hinv.ordered.below e he
      returnedOnce := hinv.fresh
      neverAgain := fun h hh => (hinv.gone h hh).2
      stable := by
        rintro as bs v h cap rfl hv hcap hother
        rw [List.length_append] at hops
        have hfront : CapHistory.start.view.next + as.length < 2 ^ 64 := by
          rw [CapHistory.start_next]
          omega
        have has := CapHistory.run_any ar hfront
        obtain ⟨v', hv', hrest⟩ := run_front hw
        obtain rfl : v = v' := Option.some.inj (hv.symm.trans (has.1.trans hv'))
        have hstep : ∀ (u : CapHistory) (op : StorageOp) (u' : CapHistory), True →
            CapHistory.step .checked u op = some u' → True ∧ ∃ c, Changes u.view c u'.view ∧
              ∀ h, c.touched = some h → op.handle = some h := fun _ _ _ _ hs =>
          ⟨trivial, _, CapHistory.step_changes hs, fun _ => CapHistory.touched_effect⟩
        exact run_lookup_kept hstep trivial hother hcap hrest
      listed := by
        rintro pg k t task hcur htask he
        rw [← he]
        exact enumerates_of_sorted hcur htask (he ▸ hinv.ordered.sorted) }

/-- A refused insertion costs a handle, and a deleted one is not given out again. -/
theorem short_history :
    let cap : Capability := ⟨.DUPLICATE, .processSpawn⟩
    let ops := [.insert true cap, .insert false cap, .delete 0, .restrict 1 id, .insert true cap]
    ∃ w, run (CapHistory.step .wrapping) .start ops = some w ∧ HandleLaws .wrapping ops w :=
  handles_never_reused .wrapping (by decide)

end Idkernel
