import Idkernel.Attenuation
import Idkernel.Effects

/-!
# Capabilities that should stay with their owner

A share tests `SHAREABLE`, a transfer tests nothing. A capability with neither
`SHAREABLE` nor `TRANSFER` leaves its owner through a transfer to a child that
takes it, and through nothing else.
-/
namespace Idkernel

open Address Traced Locks

variable {pg : Paging}

/-- Neither `SHAREABLE` nor `TRANSFER`. -/
def CapabilityPerms.Bound (p : CapabilityPerms) : Prop :=
  p.contains .SHAREABLE = false ∧ p.contains .TRANSFER = false

/-- Nobody but the owner holds a bound capability. -/
def Confined (owner : TaskId) (k : Kernel pg) : Prop := ∀ id, id ≠ owner → ∀ x ∈ k.heldBy id, ¬ x.2.perms.Bound

/-- The request transfers a bound capability of its caller to a child that takes it. -/
def PassesBound (k : Kernel pg) (r : Request pg) : Prop :=
  ∃ target handle cap task, r.handler = .processShareTransfer target.raw handle true ∧ target ≠ r.caller ∧
    k.tasks.lookup r.caller = some task ∧ task.capabilities.get handle = some cap ∧ cap.perms.Bound ∧
    ¬ Refuses r.env { k with taskId := some r.caller } r.caller target

/-! ## All other calls -/

section Calls

variable {env : Env pg} {a owner : TaskId} {k k' : Kernel pg}

/-- Only the context that was replaced has to be looked at. -/
theorem Touches.confined {R : TaskContext pg a → TaskContext pg a → Prop} (h : Touches a R k k')
    (hk : Confined owner k) (hR : ∀ task task', k.tasks.lookup a = some task → R task task' →
      (∀ x ∈ task.capabilities.handles, ¬ x.2.perms.Bound) →
      ∀ x ∈ task'.capabilities.handles, ¬ x.2.perms.Bound) :
    Confined owner k' := by
  intro id hid x hx
  by_cases ha : id = a
  · subst ha
    obtain ⟨task, task', hfound, hfound', hrel⟩ := h.related
    rw [heldBy_found hfound'] at hx
    exact hR task task' hfound hrel (heldBy_found hfound ▸ hk id hid) x hx
  · rw [heldBy_congr (h.others id ha)] at hx
    exact hk id hid x hx

/-- A task's own work brings in no new permissions. -/
theorem OwnStep.perms {hs hs' : Handles} (h : OwnStep hs hs') : ∀ x ∈ hs', ∃ y ∈ hs, y.2.perms = x.2.perms := by
  intro x hx
  cases h with
  | refl => exact ⟨x, hx, rfl⟩
  | @cloned _ old new cap held may =>
    rcases List.mem_append.mp hx with hx | hx
    · exact ⟨x, hx, rfl⟩
    · obtain rfl := List.mem_singleton.mp hx
      exact ⟨(old, cap), held, rfl⟩
  | @narrowed before after handle cap cap' perms kind =>
    rcases List.mem_append.mp hx with hx | hx
    · exact ⟨x, List.mem_append_left _ hx, rfl⟩
    rcases List.mem_cons.mp hx with rfl | hx
    · exact ⟨(handle, cap), by simp, perms.symm⟩
    · exact ⟨x, by simp [hx], rfl⟩
  | @removed before after y =>
    rcases List.mem_append.mp hx with hx | hx
    · exact ⟨x, List.mem_append_left _ hx, rfl⟩
    · exact ⟨x, by simp [hx], rfl⟩

theorem Works.confined (h : Works a k k') (hk : Confined owner k) : Confined owner k' := by
  rcases h with rfl | h
  · exact hk
  · refine h.confined hk fun task task' _ hown hheld x hx => ?_
    obtain ⟨y, hy, hperms⟩ := hown.perms x hx
    rw [← hperms]
    exact hheld y hy

/-- Whatever is called, as long as no child takes a bound capability in a transfer. -/
theorem Effect.confined {h : Handler} (he : Effect env a k h k') (hk : Confined owner k)
    (hno : ∀ (b : TaskId) handle cap task, h = .processShareTransfer b.raw handle true → b ≠ a →
      k.tasks.lookup a = some task → task.capabilities.get handle = some cap → cap.perms.Bound →
        Refuses env k a b) : Confined owner k' := by
  cases he with
  | works own => exact own.confined hk
  | @given b handle transfer cap k₁ k' other parted given =>
    refine given.confined (parted.works.confined hk) fun target target' hfound hgiven hheld x hx => ?_
    obtain ⟨hparent, _, hlist | ⟨hreserve, new, hlist⟩⟩ := hgiven
    · rw [hlist] at hx
      exact hheld x hx
    rw [hlist, List.mem_append, List.mem_singleton] at hx
    rcases hx with hx | rfl
    · exact hheld x hx
    intro hbound
    cases parted with
    | copied found held may => simp [hbound.1] at may
    | moved taken =>
      obtain ⟨task, task₁, hcaller, _, hget, _⟩ := taken.related
      rw [taken.others b other] at hfound
      rcases hno b handle cap task rfl other hcaller hget hbound with hnone | ⟨t, ht, hbad⟩
      · rw [hnone] at hfound
        cases hfound
      · obtain rfl : target = t := Option.some.inj (hfound.symm.trans ht)
        rcases hbad with hp | ⟨hfull, _⟩
        · exact hp hparent
        · rw [hreserve] at hfull
          cases hfull
  | @spawned id child task frames found fresh pid parent caps =>
    intro i hi x hx
    rw [adopt_heldBy found fresh caps] at hx
    exact hk i hi x hx
  | loaded own loaded =>
    refine loaded.confined (own.confined hk) ?_
    rintro target target' _ ⟨_, _, _, _, rfl⟩ hheld
    exact hheld

/-- A transfer that the target takes ends with the capability there. -/
theorem transfer_arrives {target : TaskId} {task : TaskContext pg a} {handle : CapabilityHandle}
    {cap : Capability}
    (hcur : k.taskId = some a) (hne : target ≠ a) (hfound : k.tasks.lookup a = some task)
    (hget : task.capabilities.get handle = some cap) (haccept : ¬ Refuses env k a target)
    (ho : (CapCall.processShareTransfer env target.raw handle true k).outcome ≠ .panic) :
    ∃ new, (new, cap) ∈ (CapCall.processShareTransfer env target.raw handle true k).state.heldBy target := by
  rw [processShareTransfer_run hcur hne] at ho ⊢
  rw [if_pos rfl] at ho ⊢
  rcases hd : task.capabilities.delete handle with ⟨r, caps⟩
  obtain ⟨htake, hstate⟩ := takeTransferred_run hcur hfound hd
  rcases TaskCapabilityStorage.delete_cases hd with ⟨hnone, _⟩ | ⟨cap', before, after, hget', rfl, _⟩
  · rw [hget] at hnone
    cases hnone
  obtain rfl : cap = cap' := Option.some.inj (hget.symm.trans hget')
  rw [Comp.bind_ok htake] at ho ⊢
  rw [after_outcome] at ho
  rw [after_state]
  generalize (CapCall.takeTransferred handle k).state = k₁ at hstate ho ⊢
  have hcur₁ : k₁.taskId = some a := by rw [hstate]; exact hcur
  have haccept₁ : ¬ Refuses env k₁ a target := by
    have hsame : k₁.tasks.lookup target = k.tasks.lookup target := by
      rw [hstate]
      exact Finmap.lookup_insert_of_ne _ hne
    unfold Refuses at haccept ⊢
    rwa [hsame]
  rcases giveTo_accepted cap hcur₁ haccept₁ with hp | ⟨_, hs, new, _, hnew, _⟩
  · exact absurd hp ho
  · refine ⟨new, ?_⟩
    simp [Kernel.heldBy, hnew]

end Calls

/-! ## Runs -/

theorem Request.step_confined {owner : TaskId} {k k' : Kernel pg} {r : Request pg} (hk : Confined owner k)
    (h : r.step k = some k') : Confined owner k' ↔ ¬ PassesBound k r := by
  obtain ⟨ho, rfl⟩ := r.step_cases h
  let called : Kernel pg := { k with taskId := some r.caller }
  have hcalled : Confined owner called := hk
  constructor
  · rintro hconf ⟨target, handle, cap, task, hr, hne, hfound, hget, hbound, haccept⟩
    -- the caller holds a bound capability, so it is the owner
    have howner : r.caller = owner := by
      by_contra hother
      refine hk r.caller hother (handle, cap) ?_ hbound
      rw [heldBy_found hfound]
      exact TaskCapabilityStorage.mem_of_get hget
    rw [hr] at ho hconf
    have ho' := thenReply_outcome (m := CapCall.processShareTransfer r.env target.raw handle true) ho
    obtain ⟨new, hnew⟩ := transfer_arrives (k := called) rfl hne hfound hget haccept ho'
    have hstate : (Handler.call r.env (.processShareTransfer target.raw handle true) called).state =
        (CapCall.processShareTransfer r.env target.raw handle true called).state := thenReply_state _ _ _
    exact hconf target (howner ▸ hne) (new, cap) (hstate ▸ hnew) hbound
  · intro hno
    refine (r.handler.effect_state rfl r.env ho).confined hcalled ?_
    intro b handle cap task hh hne hfound hget hbound
    by_contra haccept
    exact hno ⟨b, handle, cap, task, hh, hne, hfound, hget, hbound, haccept⟩

/-- Bound capabilities stay with their owner through a whole run exactly when no step of it
transfers one to a child that takes it. -/
theorem run_confined (owner : TaskId) (k₀ k : Kernel pg) (rs : List (Request pg)) (hstart : Confined owner k₀)
    (hrun : Runs.run Request.step k₀ rs = some k) :
    (∀ as bs t, rs = as ++ bs → Runs.run Request.step k₀ as = some t → Confined owner t) ↔
      ∀ as r bs t, rs = as ++ r :: bs → Runs.run Request.step k₀ as = some t → ¬ PassesBound t r :=
  Runs.run_invariant_iff (fun _ _ _ hI hs => Request.step_confined hI hs) hstart hrun

/-- The owner of these and of nothing else has a child. -/
theorem family_confined (caps : TaskCapabilityStorage) : Confined parentId (Kernel.family caps) := by
  intro id hid x hx
  by_cases hc : id = childId
  · subst hc
    have hchild : (Kernel.family caps).heldBy childId = [] := rfl
    rw [hchild] at hx
    cases hx
  · have hnone : (Kernel.family caps).tasks.lookup id = none :=
      (Finmap.lookup_insert_of_ne _ hid).trans ((Finmap.lookup_insert_of_ne _ hc).trans (Finmap.lookup_empty _))
    rw [heldBy_missing hnone] at hx
    cases hx

/-- A parent that may do nothing with its channel, and share its memory. -/
def Kernel.sharing : Kernel .flat :=
  Kernel.family ⟨2, [(0, ⟨⟨0⟩, .channelCreate⟩), (1, ⟨.SHAREABLE, .mapVirtualToRam⟩)]⟩

/-- The memory is shared and then given away, and the channel is dropped. -/
def partings : List (Request .flat) :=
  [⟨parentId, .plain, .processShareTransfer 3 1 false⟩, ⟨parentId, .plain, .processShareTransfer 3 1 true⟩,
    ⟨parentId, .plain, .cdrop 0⟩]

theorem run_confined_partings : ∃ k, Runs.run Request.step Kernel.sharing partings = some k ∧
    (k.heldBy childId).length = 2 ∧ k.heldBy parentId = [] ∧
    ((∀ as bs t, partings = as ++ bs → Runs.run Request.step Kernel.sharing as = some t → Confined parentId t) ↔
      ∀ as r bs t, partings = as ++ r :: bs → Runs.run Request.step Kernel.sharing as = some t →
        ¬ PassesBound t r) := by
  obtain ⟨k, hrun, hchild, hparent⟩ : ∃ k, Runs.run Request.step Kernel.sharing partings = some k ∧
      (k.heldBy childId).length = 2 ∧ k.heldBy parentId = [] := ⟨_, rfl, rfl, rfl⟩
  exact ⟨k, hrun, hchild, hparent, run_confined parentId Kernel.sharing k partings (family_confined _) hrun⟩

/-- A parent that may do nothing with its channel. -/
def Kernel.bound : Kernel .flat := Kernel.family ⟨1, [(0, ⟨⟨0⟩, .channelCreate⟩)]⟩

/-- It transfers the channel to its child all the same. -/
theorem transfer_unbinds : ∃ k, Confined parentId Kernel.bound ∧
    Runs.run Request.step Kernel.bound [⟨parentId, .plain, .processShareTransfer 3 0 true⟩] = some k ∧
      ¬ Confined parentId k := by
  refine ⟨_, family_confined _, rfl, fun h => ?_⟩
  exact h childId (by decide) _ (List.mem_singleton.mpr rfl) ⟨by decide, by decide⟩

end Idkernel
