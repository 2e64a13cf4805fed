import Idkernel.MemoryCalls

/-!
# The authority behind a physical mapping

What `map_phys` leaves in a page table is followed from the loop over the two
zipped ranges to the whole call. A capability is checked once, for the two ends
of the range, and covers every frame that the loop comes to.
-/
namespace Idkernel

open Address Traced Locks

variable {pg : Paging} {ε : Type}

/-! ## The loop -/

/-- A leaf that is not as it was is an item of the zipped ranges. -/
def InstalledFrom (xs : List (Page × PhysFrame)) (old new : pg.Table) : Prop :=
  ∀ p, pg.leaf new p ≠ pg.leaf old p → ∃ (i : Nat) (frame : PhysFrame) (flags : PageTableFlags),
    xs[i]? = some (p, frame) ∧
    pg.leaf new p = some (frame, flags)

/-- One round of the loop installs its own item or nothing. -/
theorem mapPhysPage_installs (hpg : pg.Lawful) {xs : List (Page × PhysFrame)} {x : Page × PhysFrame}
    (hx : x ∈ xs) (flags : PageTableFlags) {old : pg.Table} {v : Vm pg} (hv : InstalledFrom xs old v.table) :
    InstalledFrom xs old (mapPhysPage flags x v).state.table := by
  obtain ⟨i, hi⟩ := List.mem_iff_getElem?.mp hx
  have hstate : (mapPhysPage flags x v).state.table =
      (pg.mapTo v.table v.frames x.1 x.2 flags parentTableFlags).2.1 := by
    unfold mapPhysPage
    rw [Comp.bind_state]
    exact congrArg Vm.table (Comp.Still.ofExcept _ _).1
  rw [hstate]
  rcases hmap : pg.mapTo v.table v.frames x.1 x.2 flags parentTableFlags with ⟨r, table, frames⟩
  cases r with
  | ok u =>
    obtain ⟨_, hleaf⟩ := hpg.mapped _ _ _ _ _ _ _ _ hmap
    intro p hp
    dsimp only at hp ⊢
    rw [hleaf] at hp ⊢
    by_cases he : p = x.1
    · subst he
      exact ⟨i, x.2, flags, hi, Function.update_self _ _ _⟩
    · rw [Function.update_of_ne he] at hp ⊢
      exact hv p hp
  | error e =>
    have hleaf := hpg.failed _ _ _ _ _ _ _ _ _ hmap
    intro p hp
    dsimp only at hp ⊢
    rw [hleaf] at hp ⊢
    exact hv p hp

/-- However the loop ends, it has installed items only. -/
theorem mapPhysLoop_installs (hpg : pg.Lawful) (xs : List (Page × PhysFrame)) (flags : PageTableFlags)
    (v : Vm pg) :
    InstalledFrom xs v.table (Comp.forEach xs (mapPhysPage flags) v).state.table := by
  let I : Vm pg → Prop := fun w => InstalledFrom xs v.table w.table
  have hstart : I v := fun p hp => absurd rfl hp
  have hloop : Comp.Triple I (Comp.forEach xs (mapPhysPage flags)) (fun _ => I) I I :=
    Comp.Triple.forEach fun x hx => Comp.Triple.ofState fun w hw => mapPhysPage_installs hpg hx flags hw
  exact hloop.state hstart

/-! ## The call -/

/-- The `i`-th page of the parsed range maps the `i`-th frame after `physAt`, and one of the
capabilities covers that frame. -/
def Authorised (ar : Arith) (virtAt virtLen physAt : Nat) (k : Kernel pg) (caps : TaskCapabilityStorage)
    (table : pg.Table) (p : Page) : Prop :=
  ∃ a b i frame flags, (parsePageRange ar virtAt virtLen k : Ran _ KEvent _ _).outcome = .ok (a, b) ∧
    (Page.range ar a b)[i]? = some p ∧ pg.leaf table p = some (frame, flags) ∧
    frame.start.raw = physAt % 2 ^ 52 + 4096 * i ∧
    ∃ x ∈ caps.handles, ∃ f t, x.2.ctype = .mapPhysical f t ∧ f.raw ≤ frame.start.raw ∧
      frame.start.raw + 4095 ≤ t.raw

/-- The frames of a parsed range lie between its two ends. -/
theorem frames_covered {ar : Arith} {len physAt : Nat} {s : Kernel pg} {p q : PhysAddr} {f g frame : PhysFrame}
    {i : Nat} (hparse : (parseFrameRange ar len physAt s : Ran _ KEvent _ _).outcome = .ok (p, q, f, g))
    (hframe : (PhysFrame.range ar f g)[i]? = some frame) :
    frame.start.raw = physAt % 2 ^ 52 + 4096 * i ∧ p.raw ≤ frame.start.raw ∧ frame.start.raw + 4095 ≤ q.raw := by
  obtain ⟨hp, hf, hg⟩ := parseFrameRange_raw hparse
  obtain ⟨hindex, hlast⟩ := PhysFrame.getElem?_range.mp hframe
  have h₁ := f.raw_index
  have h₂ := g.raw_index
  have h₃ := frame.raw_index
  omega

/-- What the call does to the page tables. -/
def Installs (ar : Arith) (virtAt virtLen physAt : Nat) (k k' : Kernel pg) : Prop :=
  ∀ id (task task' : TaskContext pg id) p, k.tasks.lookup id = some task → k'.tasks.lookup id = some task' →
    pg.leaf task'.pageTable p ≠ pg.leaf task.pageTable p →
      k.taskId = some id ∧ Authorised ar virtAt virtLen physAt k task.capabilities task'.pageTable p

theorem installs_nothing (ar : Arith) (virtAt virtLen physAt : Nat) (k : Kernel pg) :
    Installs ar virtAt virtLen physAt k k := by
  intro id task task' p hfound hfound' hne
  obtain rfl : task = task' := Option.some.inj (hfound.symm.trans hfound')
  exact absurd rfl hne

/-- Working on the caller's table, it installs what the loop installs. -/
theorem inTable_installs (hpg : pg.Lawful) {ar : Arith} {virtAt virtLen physAt : Nat} {k : Kernel pg}
    {a b : Page} {p q : PhysAddr} {f g : PhysFrame} {t : TaskId} {task : TaskContext pg t}
    (flags : PageTableFlags)
    (hpages : (parsePageRange ar virtAt virtLen k : Ran _ KEvent _ _).outcome = .ok (a, b))
    (hframes : (parseFrameRange ar virtLen physAt k : Ran _ KEvent _ _).outcome = .ok (p, q, f, g))
    (hcur : k.taskId = some t) (hfound : k.tasks.lookup t = some task)
    (hcap : ∃ x ∈ task.capabilities.handles, x.2.ctype.covers p q) :
    Installs ar virtAt virtLen physAt k (inTable task
    (Comp.forEach ((Page.range ar a b).zip (PhysFrame.range ar f g))
      (mapPhysPage flags)) k : Ran _ _ SyscallError Unit).state := by
  have hloop := mapPhysLoop_installs hpg ((Page.range ar a b).zip (PhysFrame.range ar f g)) flags
    ⟨task.pageTable, k.frames, k.memory⟩
  intro id task₀ task' page hfound₀ hfound' hne
  by_cases hid : id = t
  · subst hid
    obtain rfl : task = task₀ := Option.some.inj (hfound.symm.trans hfound₀)
    have htask' := Option.some.inj ((Finmap.lookup_insert _).symm.trans hfound')
    rw [← htask'] at hne ⊢
    obtain ⟨i, frame, fl, hzip, hleaf⟩ := hloop page hne
    obtain ⟨hpage, hframe⟩ := List.getElem?_zip_eq_some.mp hzip
    obtain ⟨hraw, hlow, hhigh⟩ := frames_covered hframes hframe
    obtain ⟨x, hx, hcovers⟩ := hcap
    refine ⟨hcur, a, b, i, frame, fl, hpages, hpage, hleaf, hraw, x, hx, ?_⟩
    cases hc : x.2.ctype with
    | mapPhysical lo hi =>
      rw [hc] at hcovers
      obtain ⟨hlo, hhi⟩ := hcovers
      rw [PhysAddr.le_def] at hlo hhi
      exact ⟨lo, hi, rfl, Nat.le_trans hlo hlow, Nat.le_trans hhigh hhi⟩
    | mapVirtualToRam => rw [hc] at hcovers; exact hcovers.elim
    | processSpawn => rw [hc] at hcovers; exact hcovers.elim
    | channelCreate => rw [hc] at hcovers; exact hcovers.elim
  · have hsame := (Finmap.lookup_insert_of_ne _ hid).symm.trans hfound'
    obtain rfl : task₀ = task' := Option.some.inj (hfound₀.symm.trans hsame)
    exact absurd rfl hne

/-- Everything before the loop leaves the state alone, so there is nothing else to follow. -/
theorem mapPhys_installs (hpg : pg.Lawful) (env : Env pg) (virtAt virtLen perms physAt : Nat) (k : Kernel pg) :
    Installs env.arith virtAt virtLen physAt k (MemoryCall.mapPhys env virtAt virtLen perms physAt k).state := by
  let I : Kernel pg → Prop := Installs env.arith virtAt virtLen physAt k
  have hI : ∀ s, s = k → I s := by
    rintro s rfl
    exact installs_nothing _ _ _ _ _
  refine Comp.Triple.state (P := fun s => s = k) (I := I) ?_ rfl
  unfold MemoryCall.mapPhys
  apply Comp.Triple.bind (Comp.Triple.steady (fun s => (parsePageRange_still _ _ _ s).1) hI hI)
  rintro ⟨a, b⟩
  apply Comp.Triple.bind (Comp.Triple.steady (fun s => (parseFrameRange_still _ _ _ s).1)
    (fun s h => hI s h.1) fun s h => hI s h.1)
  rintro ⟨p, q, f, g⟩
  apply Comp.Triple.bind (Comp.Triple.steady currentTask_state (fun s h => hI s h.1.1) fun s h => hI s h.1.1)
  intro t
  apply Triple.withGuard
  apply Comp.Triple.bind (Comp.Triple.steady (fun s => (getTask_still t s).1) (fun s h => hI s h.1.1.1)
    fun s h => hI s h.1.1.1)
  intro task
  apply Comp.Triple.bind (Comp.Triple.require fun s h _ => hI s h.1.1.1.1)
  intro _
  apply Comp.Triple.bind (Comp.Triple.ofExcept fun s h => hI s h.1.1.1.1.1)
  intro flags
  apply Triple.withGuard
  apply Comp.Triple.ofState
  rintro s ⟨⟨⟨⟨⟨⟨rfl, hpages⟩, hframes⟩, hcur⟩, hfound⟩, hcap⟩, _⟩
  exact inTable_installs hpg flags hpages hframes (currentTask_ok hcur) (getTask_ok hfound) hcap

/-- No leaf appears without a capability over its whole frame, in any build and however the
call ends. -/
theorem mapPhys_authorised (hpg : pg.Lawful) (env : Env pg) (virtAt virtLen perms physAt : Nat) (k : Kernel pg)
    (id : TaskId) (task task' : TaskContext pg id) (p : Page) (hbefore : k.tasks.lookup id = some task)
    (hafter : (MemoryCall.mapPhys env virtAt virtLen perms physAt k).state.tasks.lookup id = some task')
    (hnew : pg.leaf task'.pageTable p ≠ pg.leaf task.pageTable p) :
    k.taskId = some id ∧
      Authorised env.arith virtAt virtLen physAt k task.capabilities task'.pageTable p :=
  mapPhys_installs hpg env virtAt virtLen perms physAt k id task task' p hbefore hafter hnew

/-- The second of the two frames, mapped at the first page. -/
theorem mapPhys_authorised_second : ∃ k', k' = (MemoryCall.mapPhys .plain 0x1000 0x1000 1 0x2000
    (Kernel.family twoFrames)).state ∧
    ∃ task', k'.tasks.lookup parentId = some task' ∧
      Authorised .checked 0x1000 0x1000 0x2000 (Kernel.family twoFrames) twoFrames task'.pageTable
        ⟨⟨0x1000, by decide⟩, by decide⟩ := by
  refine ⟨_, rfl, _, rfl, (mapPhys_authorised Paging.flat_lawful .plain 0x1000 0x1000 1 0x2000
    (Kernel.family twoFrames) parentId _ _ _ rfl rfl ?_).2⟩
  decide

end Idkernel
