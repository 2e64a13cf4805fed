import Idkernel.Changes
import Idkernel.Runs

/-!
# Attenuation of capabilities

Any task may be the caller at any moment, with any arguments. A capability held
at the end of a run descends from one held at its start, through copies, moves
and narrowings.
-/
namespace Idkernel

open Address Traced Locks

variable {pg : Paging}

/-! ## Descent -/

/-- The same kind of authority, over a part of the range. -/
def CapabilityType.Within : CapabilityType → CapabilityType → Prop
  | .mapPhysical f t, .mapPhysical f₀ t₀ => f₀ ≤ f ∧ t ≤ t₀ ∧ (f₀ ≤ t₀ → f ≤ t)
  | .mapVirtualToRam, .mapVirtualToRam => True
  | .processSpawn, .processSpawn => True
  | .channelCreate, .channelCreate => True
  | _, _ => False

def Capability.Descends (cap cap₀ : Capability) : Prop :=
  cap.perms = cap₀.perms ∧ cap.ctype.Within cap₀.ctype

theorem CapabilityType.within_refl (c : CapabilityType) : c.Within c := by
  cases c with
  | mapPhysical f t => exact ⟨le_refl f, le_refl t, id⟩
  | mapVirtualToRam => trivial
  | processSpawn => trivial
  | channelCreate => trivial

theorem CapabilityType.within_trans {a b c : CapabilityType} (hab : a.Within b) (hbc : b.Within c) :
    a.Within c := by
  cases a with
  | mapPhysical f t =>
    cases b with
    | mapPhysical f₁ t₁ =>
      cases c with
      | mapPhysical f₀ t₀ =>
        obtain ⟨hf, ht, hft⟩ := hab
        obtain ⟨hf₁, ht₁, hft₁⟩ := hbc
        exact ⟨le_trans hf₁ hf, le_trans ht ht₁, fun h => hft (hft₁ h)⟩
      | _ => exact hbc.elim
    | _ => exact hab.elim
  | _ => cases b <;> first | exact hab.elim | exact hbc

theorem Capability.descends_refl (cap : Capability) : cap.Descends cap := ⟨rfl, cap.ctype.within_refl⟩

theorem Capability.descends_trans {a b c : Capability} (hab : a.Descends b) (hbc : b.Descends c) :
    a.Descends c := ⟨hab.1.trans hbc.1, CapabilityType.within_trans hab.2 hbc.2⟩

/-- Narrowing a range is a descent. -/
theorem Capability.descends_narrow (p : CapabilityPerms) {f t f' t' : PhysAddr} (hf : f ≤ f') (ht : t' ≤ t)
    (hft : f' ≤ t') : Descends ⟨p, .mapPhysical f' t'⟩ ⟨p, .mapPhysical f t⟩ :=
  ⟨rfl, hf, ht, fun _ => hft⟩

/-! ## What a system holds -/

/-- Some registered task holds the capability. -/
def Kernel.Holds (k : Kernel pg) (cap : Capability) : Prop :=
  ∃ id task, k.tasks.lookup id = some task ∧ ∃ x ∈ task.capabilities.handles, x.2 = cap

/-- A task with these permission bits over this physical address exists. -/
def Kernel.Reaches (k : Kernel pg) (perms : CapabilityPerms) (addr : PhysAddr) : Prop :=
  ∃ cap f t, k.Holds cap ∧ cap.perms.contains perms = true ∧ cap.ctype = .mapPhysical f t ∧
    f ≤ addr ∧ addr ≤ t

/-- Every capability held descends from one of `k₀`. -/
def Attenuated (k₀ k : Kernel pg) : Prop :=
  ∀ cap, k.Holds cap → ∃ cap₀, k₀.Holds cap₀ ∧ cap.Descends cap₀

theorem attenuated_start (k₀ : Kernel pg) : Attenuated k₀ k₀ := fun cap h => ⟨cap, h, cap.descends_refl⟩

theorem Attenuated.reaches {k₀ k : Kernel pg} (h : Attenuated k₀ k) {perms : CapabilityPerms}
    {addr : PhysAddr} (hr : k.Reaches perms addr) : k₀.Reaches perms addr := by
  obtain ⟨⟨p, c⟩, f, t, hheld, hperms, hrange, hf, ht⟩ := hr
  obtain ⟨⟨p₀, c₀⟩, hheld₀, hp, hwithin⟩ := h _ hheld
  dsimp only at hrange hp hwithin
  subst hp hrange
  cases c₀ with
  | mapPhysical f₀ t₀ =>
    exact ⟨_, f₀, t₀, hheld₀, hperms, rfl, le_trans hwithin.1 hf, le_trans ht hwithin.2.1⟩
  | mapVirtualToRam => exact absurd hwithin id
  | processSpawn => exact absurd hwithin id
  | channelCreate => exact absurd hwithin id

/-- The capabilities that may be handed out in a system that started as `k₀`. -/
def Granted (k₀ : Kernel pg) (cap : Capability) : Prop := ∃ cap₀, k₀.Holds cap₀ ∧ cap.Descends cap₀

/-- What a task holds after its context was replaced. -/
theorem holds_insert {k k' : Kernel pg} {id : TaskId} {task : TaskContext pg id} {cap : Capability}
    (hk : k'.tasks = k.tasks.insert id task) (h : k'.Holds cap) :
    (∃ x ∈ task.capabilities.handles, x.2 = cap) ∨ k.Holds cap := by
  obtain ⟨id', task', hfound, hx⟩ := h
  rw [hk] at hfound
  by_cases he : id' = id
  · subst he
    rw [Finmap.lookup_insert, Option.some.injEq] at hfound
    exact .inl (hfound ▸ hx)
  · rw [Finmap.lookup_insert_of_ne _ he] at hfound
    exact .inr ⟨id', task', hfound, hx⟩

theorem Attenuated.kept (k₀ : Kernel pg) : Kept (Granted k₀) (Attenuated k₀) where
  change k k' hI hc := by
    intro cap hheld
    cases hc with
    | @update id cur task task' frames memory current touched found parent children state caps =>
      rcases holds_insert rfl hheld with ⟨x, hx, rfl⟩ | hheld
      · rcases caps x hx with hx | hx
        · exact hI _ ⟨id, task, found, x, hx, rfl⟩
        · exact hx
      · exact hI cap hheld
    | @spawned id cur child task frames current found fresh pid room parent state caps =>
      let added : Kernel pg := { k with tasks := k.tasks.insert id child }
      have hadopt : ((k.created id frames).adopt child task).tasks =
          added.tasks.insert cur { task with children := task.children ++ [id] } := rfl
      have hadded : added.tasks = k.tasks.insert id child := rfl
      rcases holds_insert hadopt hheld with ⟨x, hx, rfl⟩ | hheld
      · exact hI _ ⟨cur, task, found, x, hx, rfl⟩
      rcases holds_insert hadded hheld with ⟨x, hx, _⟩ | hheld
      · rw [caps] at hx
        cases hx
      · exact hI cap hheld
  held k hI id task hfound x hx := hI x.2 ⟨id, task, hfound, x, hx, rfl⟩
  narrow p f t f' t' hG hf ht hft := by
    obtain ⟨cap₀, hheld, hdesc⟩ := hG
    exact ⟨cap₀, hheld, Capability.descends_trans (Capability.descends_narrow p hf ht hft) hdesc⟩

/-! ## Runs of requests -/

/-- A handler called by a task of anyone's choice. -/
structure Request (pg : Paging) where
  caller : TaskId
  env : Env pg
  handler : Handler

/-- An error leaves whatever the handler had done; after a panic nothing runs. -/
def Request.step (k : Kernel pg) (r : Request pg) : Option (Kernel pg) :=
  let ran := r.handler.call r.env { k with taskId := some r.caller }
  match ran.outcome with
  | .panic => none
  | _ => some ran.state

theorem Request.step_cases {k k' : Kernel pg} {r : Request pg} (h : r.step k = some k') :
    (r.handler.call r.env { k with taskId := some r.caller }).outcome ≠ .panic ∧
      k' = (r.handler.call r.env { k with taskId := some r.caller }).state := by
  unfold Request.step at h
  dsimp only at h
  split at h
  · cases h
  · next hne => exact ⟨hne, (Option.some.inj h).symm⟩

theorem Request.step_keeps {G : Capability → Prop} {I : Kernel pg → Prop} (inv : Kept G I)
    (hpush : ∀ id s, Child I id s → I { s with executableTasks := s.executableTasks ++ [id] })
    (hcaller : ∀ s t, I s → I { s with taskId := some t }) (k : Kernel pg) (r : Request pg) (k' : Kernel pg)
    (hI : I k) (h : r.step k = some k') : I k' := by
  obtain ⟨ho, rfl⟩ := r.step_cases h
  have hk := Handler.keeps inv r.env r.handler (fun _ h => h) (fun _ _ id s _ _ => hpush id s) _
    (hcaller k r.caller hI)
  cases hout : (r.handler.call r.env { k with taskId := some r.caller }).outcome with
  | ok a => simpa only [hout] using hk
  | err e => simpa only [hout] using hk
  | panic => exact absurd hout ho

theorem run_attenuated (k₀ k : Kernel pg) (rs : List (Request pg))
    (h : Runs.run Request.step k₀ rs = some k) : Attenuated k₀ k := by
  refine Runs.run_invariant (I := Attenuated k₀) ?_ (attenuated_start k₀) h
  intro t r u hI hs
  exact Request.step_keeps (Attenuated.kept k₀) (fun _ _ hc => hc.1) (fun _ _ hI => hI) t r u hI hs

/-- No run enlarges what a task may do, or what all of them together may reach. -/
theorem capabilities_attenuate (k₀ k : Kernel pg) (rs : List (Request pg))
    (h : Runs.run Request.step k₀ rs = some k) :
    (∀ cap, k.Holds cap → ∃ cap₀, k₀.Holds cap₀ ∧ cap.Descends cap₀) ∧
      ∀ perms addr, k.Reaches perms addr → k₀.Reaches perms addr := by
  have hall := run_attenuated k₀ k rs h
  exact ⟨hall, fun perms addr hr => hall.reaches hr⟩

/-- A range of two frames, cloned, halved and given away. -/
def givenAway : List (Request .flat) :=
  [⟨parentId, .plain, .clone 0⟩, ⟨parentId, .plain, .restrict 1 0x1000 0x1fff⟩,
    ⟨parentId, .plain, .processShareTransfer 3 1 true⟩]

theorem capabilities_attenuate_givenAway : ∃ k, Runs.run Request.step
    (Kernel.family twoFrames) givenAway = some k ∧
    ∃ cap₀, (Kernel.family twoFrames).Holds cap₀ ∧
      Capability.Descends ⟨.DUPLICATE, .mapPhysical ⟨0x1000, by decide⟩ ⟨0x1fff, by decide⟩⟩ cap₀ := by
  refine ⟨_, rfl, (capabilities_attenuate (Kernel.family twoFrames) _ givenAway rfl).1 _ ?_⟩
  exact ⟨childId, _, rfl, _, List.mem_singleton.mpr rfl, rfl⟩

end Idkernel
