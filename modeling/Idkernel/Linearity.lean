import Mathlib.Algebra.Order.BigOperators.Group.Finset
import Idkernel.Effects

/-!
# Capabilities that cannot be copied

A count over all tasks. Cloning needs `DUPLICATE`, sharing needs `SHAREABLE`,
and a transfer takes a capability out of its caller before the target is looked
at, so of the capabilities with neither bit there are never more than before.
-/
namespace Idkernel

open Address Traced Locks

variable {pg : Paging} {ε : Type}

/-! ## Totals -/

/-- The weight of all that the registered tasks hold. -/
def Kernel.total (w : Handles → Nat) (k : Kernel pg) : Nat := ∑ id ∈ k.tasks.keys, w (k.heldBy id)

section Totals

variable {w : Handles → Nat} {k k' : Kernel pg}

theorem mem_keys {id : TaskId} : id ∈ k.tasks.keys ↔ k.tasks.lookup id ≠ none := by
  rw [Finmap.mem_keys, ← Finmap.lookup_isSome, Option.isSome_iff_ne_none]

/-- Tasks that are not registered add nothing. -/
theorem total_over (hw : w [] = 0) {S : Finset TaskId} (hS : k.tasks.keys ⊆ S) :
    k.total w = ∑ id ∈ S, w (k.heldBy id) := by
  refine Finset.sum_subset hS fun id _ hid => ?_
  have hmissing : k.tasks.lookup id = none := by
    by_contra hne
    exact hid (mem_keys.mpr hne)
  rw [heldBy_missing hmissing, hw]

theorem total_le (hw : w [] = 0) (h : ∀ id, w (k'.heldBy id) ≤ w (k.heldBy id)) : k'.total w ≤ k.total w := by
  have hleft : k'.tasks.keys ⊆ k'.tasks.keys ∪ k.tasks.keys := Finset.subset_union_left
  have hright : k.tasks.keys ⊆ k'.tasks.keys ∪ k.tasks.keys := Finset.subset_union_right
  rw [total_over hw hleft, total_over hw hright]
  exact Finset.sum_le_sum fun id _ => h id

/-- Replacing one context exchanges its weight. -/
theorem Touches.total {a : TaskId} {R : TaskContext pg a → TaskContext pg a → Prop} (h : Touches a R k k')
    (w : Handles → Nat) : ∃ task task', k.tasks.lookup a = some task ∧ R task task' ∧
      k'.total w + w task.capabilities.handles = k.total w + w task'.capabilities.handles := by
  obtain ⟨task, task', hfound, hfound', hrel⟩ := h.related
  refine ⟨task, task', hfound, hrel, ?_⟩
  have hkeys : k'.tasks.keys = k.tasks.keys := by
    ext id
    rw [mem_keys, mem_keys]
    by_cases hid : id = a
    · subst hid
      simp [hfound, hfound']
    · rw [h.others id hid]
  have hmem : a ∈ k.tasks.keys := mem_keys.mpr (by simp [hfound])
  have hrest : ∑ id ∈ k.tasks.keys.erase a, w (k'.heldBy id) = ∑ id ∈ k.tasks.keys.erase a, w (k.heldBy id) := by
    refine Finset.sum_congr rfl fun id hid => ?_
    rw [heldBy_congr (h.others id (Finset.ne_of_mem_erase hid))]
  have hbefore := Finset.add_sum_erase k.tasks.keys (fun id => w (k.heldBy id)) hmem
  have hafter := Finset.add_sum_erase k.tasks.keys (fun id => w (k'.heldBy id)) hmem
  rw [heldBy_found hfound] at hbefore
  rw [heldBy_found hfound'] at hafter
  unfold Kernel.total
  rw [hkeys]
  omega

end Totals

/-! ## Linear permissions -/

/-- Neither `DUPLICATE` nor `SHAREABLE`. -/
def CapabilityPerms.Linear (p : CapabilityPerms) : Prop :=
  p.contains .DUPLICATE = false ∧ p.contains .SHAREABLE = false

/-- How many of the entries have these permissions and this kind. -/
def tally (p : CapabilityPerms) (kind : Nat) (hs : Handles) : Nat :=
  hs.countP fun x => x.2.perms = p ∧ x.2.ctype.capId = kind

/-- The capabilities of the whole system with these permissions and this constructor. -/
def Kernel.countOf (k : Kernel pg) (p : CapabilityPerms) (kind : Nat) : Nat := k.total (tally p kind)

section Tally

variable {p : CapabilityPerms} {kind : Nat}

@[simp] theorem tally_nil : tally p kind [] = 0 := rfl

@[simp] theorem tally_append (hs hs' : Handles) : tally p kind (hs ++ hs') = tally p kind hs + tally p kind hs' :=
  List.countP_append

theorem tally_cons (x : CapabilityHandle × Capability) (hs : Handles) :
    tally p kind (x :: hs) = tally p kind [x] + tally p kind hs := tally_append [x] hs

/-- Only permissions and kind count, not the handle or the range. -/
theorem tally_same (handle : CapabilityHandle) {handle' : CapabilityHandle} {cap cap' : Capability}
    (hperms : cap'.perms = cap.perms) (hkind : cap'.ctype.capId = cap.ctype.capId) :
    tally p kind [(handle', cap')] = tally p kind [(handle, cap)] := by
  simp [tally, List.countP_cons, hperms, hkind]

theorem tally_other {handle : CapabilityHandle} {cap : Capability} (h : cap.perms ≠ p) :
    tally p kind [(handle, cap)] = 0 := by
  simp [tally, h]

theorem OwnStep.tally_le {hs hs' : Handles} (h : OwnStep hs hs') (hp : p.Linear) :
    tally p kind hs' ≤ tally p kind hs := by
  cases h with
  | refl => exact Nat.le_refl _
  | @cloned _ old new cap held may =>
    have hne : cap.perms ≠ p := by
      rintro rfl
      simp [hp.1] at may
    rw [tally_append, tally_other hne]
    exact Nat.le_refl _
  | @narrowed before after handle cap cap' perms sameKind =>
    rw [tally_append, tally_append, tally_cons, tally_cons (handle, cap), tally_same handle perms sameKind]
  | @removed before after x =>
    rw [tally_append, tally_append, tally_cons]
    omega

theorem Given.tally_le {env : Env pg} {a b : TaskId} {cap : Capability} {target target' : TaskContext pg b}
    (h : Given env a cap target target') (p : CapabilityPerms) (kind : Nat) (handle : CapabilityHandle) :
    tally p kind target'.capabilities.handles ≤
      tally p kind target.capabilities.handles + tally p kind [(handle, cap)] := by
  obtain ⟨_, _, hlist | ⟨_, new, hlist⟩⟩ := h
  · rw [hlist]
    omega
  · rw [hlist, tally_append, tally_same handle rfl rfl]

end Tally

/-! ## One call -/

section Calls

variable {a : TaskId} {p : CapabilityPerms} {kind : Nat} {k k' : Kernel pg}

theorem Works.countOf_le (h : Works a k k') (hp : p.Linear) : k'.countOf p kind ≤ k.countOf p kind := by
  rcases h with rfl | h
  · exact Nat.le_refl _
  · obtain ⟨task, task', _, hown, htotal⟩ := h.total (tally p kind)
    have hle : tally p kind task'.capabilities.handles ≤ tally p kind task.capabilities.handles :=
      hown.tally_le hp
    unfold Kernel.countOf
    omega

theorem Effect.countOf_le {env : Env pg} {h : Handler} (he : Effect env a k h k') (hp : p.Linear) :
    k'.countOf p kind ≤ k.countOf p kind := by
  cases he with
  | works own => exact own.countOf_le hp
  | @given b handle transfer cap k₁ k' other parted given =>
    obtain ⟨target, target', _, hgiven, htarget⟩ := given.total (tally p kind)
    have hadded := hgiven.tally_le p kind handle
    unfold Kernel.countOf
    cases parted with
    | copied found held may =>
      have hne : cap.perms ≠ p := by
        rintro rfl
        simp [hp.2] at may
      rw [tally_other hne] at hadded
      omega
    | moved taken =>
      -- what the target gets is no more than what the caller has lost
      obtain ⟨task, task₁, _, ⟨_, before, after, hs, hs₁⟩, htaken⟩ := taken.total (tally p kind)
      rw [hs, hs₁, tally_append, tally_append, tally_cons] at htaken
      omega
  | @spawned id child task frames found fresh pid parent caps =>
    refine total_le tally_nil fun i => ?_
    rw [adopt_heldBy found fresh caps]
  | loaded own loaded =>
    obtain ⟨target, target', _, ⟨_, _, _, _, rfl⟩, htarget⟩ := loaded.total (tally p kind)
    have hown : _ ≤ k.countOf p kind := own.countOf_le hp
    unfold Kernel.countOf at hown ⊢
    dsimp only at htarget
    omega

theorem switch_countOf_le (h : (switchToNextTask k : Ran _ _ ε Bool).outcome ≠ .panic) :
    (switchToNextTask k : Ran _ _ ε Bool).state.countOf p kind ≤ k.countOf p kind := by
  obtain ⟨start, task, hcur, hfound, ⟨_, hs⟩ | ⟨_, _, ⟨_, hs⟩ | ⟨_, hs⟩⟩⟩ := switch_cases h
  · rw [hs]
    exact Nat.le_refl _
  · rw [hs]
    exact Nat.le_refl _
  · rw [hs]
    refine total_le tally_nil fun i => ?_
    cases hi : (k.buried task).tasks.lookup i with
    | none =>
      rw [heldBy_missing hi]
      exact Nat.zero_le _
    | some t' =>
      obtain ⟨_, t, children, ht, rfl⟩ := without_lookup_cases (k := k.switched task) hi
      have hbefore : k.tasks.lookup i = some t := ht
      rw [heldBy_found hi, heldBy_found hbefore]

end Calls

/-! ## Runs -/

/-- A service asked for by a task of anyone's choice. -/
structure Invocation (pg : Paging) where
  caller : TaskId
  env : Env pg
  service : Service

/-- An error leaves whatever the service had done; after a panic nothing runs. -/
def Invocation.step (k : Kernel pg) (v : Invocation pg) : Option (Kernel pg) :=
  let ran := v.service.call v.env { k with taskId := some v.caller }
  match ran.outcome with
  | .panic => none
  | _ => some ran.state

theorem Invocation.step_cases {k k' : Kernel pg} {v : Invocation pg} (h : v.step k = some k') :
    (v.service.call v.env { k with taskId := some v.caller }).outcome ≠ .panic ∧
      k' = (v.service.call v.env { k with taskId := some v.caller }).state := by
  unfold Invocation.step at h
  dsimp only at h
  split at h
  · cases h
  · next hne => exact ⟨hne, (Option.some.inj h).symm⟩

theorem Invocation.step_countOf_le {p : CapabilityPerms} {kind : Nat} (hp : p.Linear) {k k' : Kernel pg}
    {v : Invocation pg} (h : v.step k = some k') : k'.countOf p kind ≤ k.countOf p kind := by
  obtain ⟨ho, rfl⟩ := v.step_cases h
  let called : Kernel pg := { k with taskId := some v.caller }
  have hcalled : called.countOf p kind = k.countOf p kind := rfl
  rw [← hcalled]
  rcases service_cases ho with ⟨_, hs⟩ | ⟨hd, _, hcall, hs⟩ | ⟨_, hswitch, hs⟩ |
    ⟨_, t, task, _, hfound, hswitch, hs⟩
  · rw [hs]
  · rw [hs]
    exact (hd.effect_state rfl v.env hcall).countOf_le hp
  · rw [hs]
    exact switch_countOf_le hswitch
  · rw [hs]
    refine Nat.le_trans (switch_countOf_le hswitch) (total_le tally_nil fun i => ?_)
    have hmarked : (called.marked task).tasks = called.tasks.insert _ task.dying := rfl
    have hsame := handlesOf_insert hmarked hfound rfl i
    rw [Kernel.heldBy, hsame, Kernel.heldBy]

/-- No run of services, by whoever and in whatever order, makes more of the capabilities
that may neither be duplicated nor shared. -/
theorem linear_capabilities_never_increase (k₀ k : Kernel pg) (vs : List (Invocation pg))
    (h : Runs.run Invocation.step k₀ vs = some k) (p : CapabilityPerms) (hp : p.Linear) (kind : Nat) :
    k.countOf p kind ≤ k₀.countOf p kind := by
  refine Runs.run_invariant (I := fun k => k.countOf p kind ≤ k₀.countOf p kind) ?_ (Nat.le_refl _) h
  intro t v u hI hs
  exact Nat.le_trans (Invocation.step_countOf_le hp hs) hI

/-- A parent that may only pass its channel on. -/
def Kernel.passing : Kernel .flat := Kernel.family ⟨1, [(0, ⟨.TRANSFER, .channelCreate⟩)]⟩

/-- It fails to clone the channel and to share it, and passes it on. -/
def passedOn : List (Invocation .flat) :=
  [⟨parentId, .plain, .handler (.clone 0)⟩, ⟨parentId, .plain, .handler (.processShareTransfer 3 0 false)⟩,
    ⟨parentId, .plain, .handler (.processShareTransfer 3 0 true)⟩]

theorem linear_capabilities_passedOn : ∃ k, Runs.run Invocation.step Kernel.passing passedOn = some k ∧
    k.countOf .TRANSFER 4 ≤ Kernel.passing.countOf .TRANSFER 4 :=
  ⟨_, rfl, linear_capabilities_never_increase Kernel.passing _ passedOn rfl .TRANSFER ⟨by decide, by decide⟩ 4⟩

end Idkernel
