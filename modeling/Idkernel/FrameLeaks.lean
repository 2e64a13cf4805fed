import Mathlib.Data.Finset.Card
import Idkernel.FreshPages

/-!
# Frames that `map_virt` takes

A frame is taken before its page is mapped. Where the mapping fails, the frame
is in no table and does not go back. Whether that happens can be read off the
frames that are left and the tables that are missing.
-/
namespace Idkernel

open Address Traced Locks

/-! ## Frames and tables of a mapper -/

/-- The levels at which a table is missing on the way to a page. -/
def missingLevels (entry : Nat → Nat → TableEntry) (page : Page) : List Nat :=
  Boot.UPPER.filter fun l => entry l (page.index / 512 ^ l) = .unused

def InHugePage (entry : Nat → Nat → TableEntry) (page : Page) : Prop :=
  ∃ l ∈ Boot.UPPER, entry l (page.index / 512 ^ l) = .huge

instance (entry : Nat → Nat → TableEntry) (page : Page) : Decidable (InHugePage entry page) :=
  inferInstanceAs (Decidable (∃ l ∈ Boot.UPPER, _))

/-- The frames an allocator has left, and the tables of an address space, named by their level and
by the number of their part of it. Mapping a page takes a frame for each table that is missing on its
way, from the root down. A page that is mapped, or that lies in a huge one, is refused. -/
structure Paging.Walks (pg : Paging) where
  supply : pg.Frames → List PhysFrame
  entry : pg.Table → Nat → Nat → TableEntry
  /-- The frames of the tables that are reached from the root. -/
  tables : pg.Table → PhysFrame → Prop
  head : ∀ fs, (pg.allocateFrame fs).1 = (supply fs).head?
  tail : ∀ fs, supply (pg.allocateFrame fs).2 = (supply fs).tail
  refused : ∀ t fs p f fl pfl, pg.leaf t p ≠ none ∨ InHugePage (entry t) p →
    ∃ e t' fs', pg.mapTo t fs p f fl pfl = (.error e, t', fs') ∧ supply fs' = supply fs ∧
      pg.leaf t' = pg.leaf t ∧ tables t' = tables t
  exhausted : ∀ t fs p f fl pfl, pg.leaf t p = none → ¬ InHugePage (entry t) p →
    (supply fs).length < (missingLevels (entry t) p).length →
    ∃ t' fs', pg.mapTo t fs p f fl pfl = (.error .frameAllocationFailed, t', fs') ∧ supply fs' = [] ∧
      pg.leaf t' = pg.leaf t ∧ tables t' = fun g => tables t g ∨ g ∈ supply fs
  mapped : ∀ t fs p f fl pfl, pg.leaf t p = none → ¬ InHugePage (entry t) p →
    (missingLevels (entry t) p).length ≤ (supply fs).length →
    ∃ t' fs', pg.mapTo t fs p f fl pfl = (.ok (), t', fs') ∧
      supply fs' = (supply fs).drop (missingLevels (entry t) p).length ∧
      pg.leaf t' = Function.update (pg.leaf t) p (some (f, fl)) ∧
      (tables t' = fun g => tables t g ∨ g ∈ (supply fs).take (missingLevels (entry t) p).length) ∧
      entry t' = fun l n =>
        if l ∈ missingLevels (entry t) p ∧ n = p.index / 512 ^ l then .table else entry t l n

namespace Paging.Walks

variable {pg : Paging} (w : pg.Walks)

/-- The page is mapped, or it is in a huge one. -/
def Blocked (t : pg.Table) (p : Page) : Prop := pg.leaf t p ≠ none ∨ InHugePage (w.entry t) p

/-- The names of the tables that are missing for a page. -/
def missing (t : pg.Table) (p : Page) : Finset (Nat × Nat) :=
  ((missingLevels (w.entry t) p).map fun l => (l, p.index / 512 ^ l)).toFinset

def missingFor (t : pg.Table) : List Page → Finset (Nat × Nat)
  | [] => ∅
  | p :: ps => w.missing t p ∪ missingFor t ps

/-- A frame for each page, and one for each table that is missing for any of them. -/
def needs (t : pg.Table) (ps : List Page) : Nat := ps.length + (w.missingFor t ps).card

/-- The pages up to one that is blocked, or some of them, need exactly the frames there are, or all
pages can be mapped. -/
def Suffices (t : pg.Table) (frames : Nat) (ps : List Page) : Prop :=
  ∃ i ≤ ps.length, (∀ p ∈ ps.take i, ¬ w.Blocked t p) ∧
    (w.needs t (ps.take i) = frames ∨ i = ps.length ∧ w.needs t ps ≤ frames)

/-- A frame that is no longer in the supply is the target of one new leaf in the range, or the frame
of a table. -/
def Accounted (range : Page → Prop) (t t' : pg.Table) (fs fs' : pg.Frames) : Prop :=
  ∀ g ∈ w.supply fs, g ∈ w.supply fs' ∨ w.tables t' g ∨
    ∃! p, range p ∧ pg.leaf t p = none ∧ ∃ fl, pg.leaf t' p = some (g, fl) ∧ fl &&& PageTableFlags.PRESENT ≠ 0

/-- The allocator hands out every frame once, and none that is in use. -/
structure Unused (t : pg.Table) (fs : pg.Frames) : Prop where
  nodup : (w.supply fs).Nodup
  unused : ∀ g ∈ w.supply fs, ¬ w.tables t g

section Counting

variable {t t' : pg.Table} {p q : Page} {ps : List Page}

theorem mem_missing {x : Nat × Nat} : x ∈ w.missing t p ↔
    x.1 ∈ Boot.UPPER ∧ x.2 = p.index / 512 ^ x.1 ∧ w.entry t x.1 x.2 = .unused := by
  obtain ⟨l, n⟩ := x
  simp only [missing, missingLevels, List.mem_toFinset, List.mem_map, List.mem_filter, decide_eq_true_eq,
    Prod.mk.injEq]
  constructor
  · rintro ⟨k, ⟨hk, hentry⟩, rfl, rfl⟩
    exact ⟨hk, rfl, hentry⟩
  · rintro ⟨hl, rfl, hentry⟩
    exact ⟨l, ⟨hl, hentry⟩, rfl, rfl⟩

theorem card_missing (t : pg.Table) (p : Page) :
    (w.missing t p).card = (missingLevels (w.entry t) p).length := by
  have hupper : Boot.UPPER.Nodup := by decide
  have hnodup : ((missingLevels (w.entry t) p).map fun l => (l, p.index / 512 ^ l)).Nodup :=
    (hupper.filter _).map fun a b h => (Prod.mk.inj h).1
  rw [missing, List.toFinset_card_of_nodup hnodup, List.length_map]

/-- The tables after a page has been mapped. -/
def Made (t t' : pg.Table) (p : Page) : Prop :=
  w.entry t' = fun l n =>
    if l ∈ missingLevels (w.entry t) p ∧ n = p.index / 512 ^ l then .table else w.entry t l n

variable {w}

theorem Made.missing (h : w.Made t t' p) (q : Page) : w.missing t' q = w.missing t q \ w.missing t p := by
  ext ⟨l, n⟩
  simp only [mem_missing, Finset.mem_sdiff, congrFun (congrFun h l) n]
  by_cases hn : n = p.index / 512 ^ l
  · by_cases hentry : w.entry t l n = .unused
    · simp [missingLevels, ← hn, hentry, and_assoc]
    · simp [missingLevels, ← hn, hentry]
  · simp [hn]

theorem Made.missingFor (h : w.Made t t' p) (ps : List Page) :
    w.missingFor t' ps = w.missingFor t ps \ w.missing t p := by
  induction ps with
  | nil => simp [Walks.missingFor]
  | cons q ps ih => rw [Walks.missingFor, Walks.missingFor, h.missing, ih, Finset.union_sdiff_distrib]

theorem Made.needs (h : w.Made t t' p) (ps : List Page) :
    w.needs t (p :: ps) = 1 + (w.missing t p).card + w.needs t' ps := by
  have hsum := Finset.card_sdiff_add_card (w.missingFor t ps) (w.missing t p)
  rw [← h.missingFor, Finset.union_comm] at hsum
  simp only [Walks.needs, Walks.missingFor, List.length_cons]
  omega

theorem Made.blocked (h : w.Made t t' p) {leaf : PhysFrame × PageTableFlags}
    (hleaf : pg.leaf t' = Function.update (pg.leaf t) p (some leaf)) (hq : q ≠ p) :
    w.Blocked t' q ↔ w.Blocked t q := by
  have hentry : ∀ l n, w.entry t' l n = .huge ↔ w.entry t l n = .huge := by
    intro l n
    rw [congrFun (congrFun h l) n]
    split
    · rename_i hmade
      have hunused : w.entry t l n = .unused := by
        rw [hmade.2]
        simpa using (List.mem_filter.mp hmade.1).2
      simp [hunused]
    · rfl
  simp only [Blocked, InHugePage, hleaf, Function.update_of_ne hq, hentry]

/-- After a page has been mapped, the rest has to suffice for the rest. -/
theorem Made.suffices (h : w.Made t t' p) {leaf : PhysFrame × PageTableFlags}
    (hleaf : pg.leaf t' = Function.update (pg.leaf t) p (some leaf)) (hfree : ¬ w.Blocked t p) {n : Nat}
    (hn : (w.missing t p).card ≤ n) (hps : p ∉ ps) :
    w.Suffices t (n + 1) (p :: ps) ↔ w.Suffices t' (n - (w.missing t p).card) ps := by
  have hblocked : ∀ i, (∀ q ∈ ps.take i, ¬ w.Blocked t' q) ↔ ∀ q ∈ (p :: ps).take (i + 1), ¬ w.Blocked t q := by
    intro i
    rw [List.take_succ_cons, List.forall_mem_cons]
    have hrest : ∀ q ∈ ps.take i, (w.Blocked t' q ↔ w.Blocked t q) := fun q hq =>
      h.blocked hleaf fun he => hps (he ▸ List.mem_of_mem_take hq)
    constructor
    · intro hall
      exact ⟨hfree, fun q hq => (hrest q hq).not.mp (hall q hq)⟩
    · intro hall q hq
      exact (hrest q hq).not.mpr (hall.2 q hq)
  constructor
  · rintro ⟨i, hi, hall, hcount⟩
    cases i with
    | zero => simp [Walks.needs, Walks.missingFor] at hcount
    | succ i =>
      simp only [List.length_cons, List.take_succ_cons, h.needs] at hi hcount
      refine ⟨i, by omega, (hblocked i).mpr hall, ?_⟩
      omega
  · rintro ⟨i, hi, hall, hcount⟩
    refine ⟨i + 1, by simpa using hi, (hblocked i).mp hall, ?_⟩
    simp only [List.length_cons, List.take_succ_cons, h.needs]
    omega

theorem suffices_none (t : pg.Table) (ps : List Page) : w.Suffices t 0 ps :=
  ⟨0, Nat.zero_le _, by simp, .inl rfl⟩

/-- With a frame in hand and no way to map its page, the frames do not come out even. -/
theorem not_suffices {n : Nat} (h : w.Blocked t p ∨ n < (w.missing t p).card) :
    ¬ w.Suffices t (n + 1) (p :: ps) := by
  rintro ⟨i, hi, hall, hcount⟩
  cases i with
  | zero => simp [Walks.needs, Walks.missingFor] at hcount
  | succ i =>
    rw [List.take_succ_cons] at hall hcount
    have hcard : ∀ qs, (w.missing t p).card + 1 ≤ w.needs t (p :: qs) := by
      intro qs
      have hle : (w.missing t p).card ≤ (w.missing t p ∪ w.missingFor t qs).card :=
        Finset.card_le_card Finset.subset_union_left
      simp only [Walks.needs, Walks.missingFor, List.length_cons]
      omega
    rcases h with hblocked | hshort
    · exact hall p (by simp) hblocked
    · have hfirst := hcard (ps.take i)
      have hwhole := hcard ps
      omega

end Counting

/-! ## The loop -/

section Loop

variable {v : Vm pg} {flags : PageTableFlags} {page : Page} {f : PhysFrame} {rest : List PhysFrame}

variable (flags page) in
theorem mapVirtPage_empty (h : w.supply v.frames = []) :
    (mapVirtPage flags page v).outcome = .err .noMemory ∧ (mapVirtPage flags page v).state.table = v.table ∧
      w.supply (mapVirtPage flags page v).state.frames = [] := by
  have hnone : (pg.allocateFrame v.frames).1 = none := by rw [w.head, h, List.head?_nil]
  have hleft : w.supply (pg.allocateFrame v.frames).2 = [] := by rw [w.tail, h, List.tail_nil]
  unfold mapVirtPage
  rw [Comp.bind_ok (congrArg Ran.outcome (allocateFrame_run v)), allocateFrame_run, hnone]
  exact ⟨rfl, rfl, hleft⟩

theorem mapFrame_run {r : Except MapToError Unit} {t' : pg.Table} {fs' : pg.Frames}
    (h : pg.mapTo v.table v.frames page f flags parentTableFlags = (r, t', fs')) :
    let c : VmM pg SyscallError Unit := do
      let r ← Idkernel.mapTo page f flags parentTableFlags
      Comp.ofExcept (mapError r)
    (c v).outcome = Outcome.ofExcept (mapError r) ∧ (c v).state = ⟨t', fs', v.memory⟩ := by
  dsimp only
  rw [Comp.bind_ok (congrArg Ran.outcome (mapTo_run page f flags parentTableFlags v)), mapTo_run, h]
  cases mapError r <;> exact ⟨rfl, rfl⟩

variable (flags page) in
theorem mapVirtPage_frame (h : w.supply v.frames = f :: rest) :
    w.supply (pg.allocateFrame v.frames).2 = rest ∧
    mapVirtPage flags page v = (do
      let r ← Idkernel.mapTo page f flags parentTableFlags
      Comp.ofExcept (mapError r) : VmM pg SyscallError Unit)
        { v with frames := (pg.allocateFrame v.frames).2 } := by
  have hsome : (pg.allocateFrame v.frames).1 = some f := by rw [w.head, h, List.head?_cons]
  have hleft : w.supply (pg.allocateFrame v.frames).2 = rest := by rw [w.tail, h, List.tail_cons]
  unfold mapVirtPage
  rw [Comp.bind_ok (congrArg Ran.outcome (allocateFrame_run v)), allocateFrame_run, hsome]
  exact ⟨hleft, rfl⟩

variable (flags) in
/-- A page that cannot be mapped gets no leaf, and its frame goes nowhere. -/
theorem mapVirtPage_refused (h : w.supply v.frames = f :: rest)
    (hno : w.Blocked v.table page ∨ rest.length < (w.missing v.table page).card) :
    (∃ e, (mapVirtPage flags page v).outcome = .err e) ∧
      pg.leaf (mapVirtPage flags page v).state.table = pg.leaf v.table ∧
      (∀ g, w.tables v.table g → w.tables (mapVirtPage flags page v).state.table g) ∧
      (∀ g, w.tables (mapVirtPage flags page v).state.table g → w.tables v.table g ∨ g ∈ rest) ∧
      ∀ g ∈ w.supply (mapVirtPage flags page v).state.frames, g ∈ rest := by
  obtain ⟨hleft, hrun⟩ := w.mapVirtPage_frame flags page h
  rw [hrun]
  by_cases hblocked : w.Blocked v.table page
  · obtain ⟨e, t', fs', hmap, hsupply, hleaf, htables⟩ :=
      w.refused v.table (pg.allocateFrame v.frames).2 page f flags parentTableFlags hblocked
    obtain ⟨hout, hstate⟩ := mapFrame_run (v := { v with frames := (pg.allocateFrame v.frames).2 }) hmap
    rw [hout, hstate, htables, hsupply, hleft]
    refine ⟨?_, hleaf, fun g hg => hg, fun g hg => .inl hg, fun g hg => hg⟩
    cases e <;> exact ⟨_, rfl⟩
  · have hshort := hno.resolve_left hblocked
    rw [w.card_missing, ← hleft] at hshort
    simp only [Blocked, not_or, not_not] at hblocked
    obtain ⟨t', fs', hmap, hsupply, hleaf, htables⟩ :=
      w.exhausted v.table (pg.allocateFrame v.frames).2 page f flags parentTableFlags hblocked.1
        hblocked.2 hshort
    obtain ⟨hout, hstate⟩ := mapFrame_run (v := { v with frames := (pg.allocateFrame v.frames).2 }) hmap
    rw [hout, hstate, htables, hsupply, hleft]
    exact ⟨⟨_, rfl⟩, hleaf, fun g hg => .inl hg, fun g hg => hg, by simp⟩

variable (flags) in
/-- A page that can be mapped takes its frame and those of its tables. -/
theorem mapVirtPage_mapped (h : w.supply v.frames = f :: rest) (hfree : ¬ w.Blocked v.table page)
    (henough : (w.missing v.table page).card ≤ rest.length) :
    (mapVirtPage flags page v).outcome = .ok () ∧
      w.supply (mapVirtPage flags page v).state.frames = rest.drop (w.missing v.table page).card ∧
      pg.leaf (mapVirtPage flags page v).state.table =
        Function.update (pg.leaf v.table) page (some (f, flags)) ∧
      (∀ g, w.tables (mapVirtPage flags page v).state.table g ↔
        w.tables v.table g ∨ g ∈ rest.take (w.missing v.table page).card) ∧
      w.Made v.table (mapVirtPage flags page v).state.table page := by
  obtain ⟨hleft, hrun⟩ := w.mapVirtPage_frame flags page h
  simp only [Blocked, not_or, not_not] at hfree
  rw [w.card_missing, ← hleft] at henough
  rw [w.card_missing, hrun, ← hleft]
  obtain ⟨t', fs', hmap, hsupply, hleaf, htables, hentry⟩ :=
    w.mapped v.table (pg.allocateFrame v.frames).2 page f flags parentTableFlags hfree.1 hfree.2 henough
  obtain ⟨hout, hstate⟩ := mapFrame_run (v := { v with frames := (pg.allocateFrame v.frames).2 }) hmap
  rw [hout, hstate, htables]
  exact ⟨rfl, hsupply, hleaf, fun g => Iff.rfl, hentry⟩

/-- What some pages leave of the leaves, the tables and the frames. -/
structure Effect (flags : PageTableFlags) (v s : Vm pg) : Prop where
  leaf : ∀ q, pg.leaf s.table q = pg.leaf v.table q ∨
    pg.leaf v.table q = none ∧ ∃ g ∈ w.supply v.frames, pg.leaf s.table q = some (g, flags)
  tables : ∀ g, w.tables v.table g → w.tables s.table g
  supply : ∀ g ∈ w.supply s.frames, g ∈ w.supply v.frames

/-- A page that is mapped leaves its leaf, takes the frames of its tables and keeps the rest. -/
theorem Effect.mapped {s : Vm pg} {f : PhysFrame} {rest : List PhysFrame}
    (hframes : w.supply v.frames = f :: rest) (hfree : ¬ w.Blocked v.table page)
    (henough : (w.missing v.table page).card ≤ rest.length)
    (hrest : w.Effect flags (mapVirtPage flags page v).state s) : w.Effect flags v s := by
  obtain ⟨_, hsupply, hleaf, htables, _⟩ := w.mapVirtPage_mapped flags hframes hfree henough
  have hsub : ∀ g ∈ w.supply (mapVirtPage flags page v).state.frames, g ∈ w.supply v.frames := by
    intro g hg
    rw [hsupply] at hg
    simp [hframes, List.mem_of_mem_drop hg]
  have hnone : pg.leaf v.table page = none := by
    simpa only [Blocked, not_or, not_not] using (not_or.mp hfree).1
  constructor
  · intro q
    have hstep := hrest.leaf q
    rw [hleaf] at hstep
    by_cases hq : q = page
    · subst hq
      rw [Function.update_self] at hstep
      cases hstep with
      | inl hsame => exact .inr ⟨hnone, f, by simp [hframes], hsame⟩
      | inr hfresh => cases hfresh.1
    · rw [Function.update_of_ne hq] at hstep
      cases hstep with
      | inl hsame => exact .inl hsame
      | inr hfresh =>
        obtain ⟨hq, g, hg, htarget⟩ := hfresh
        exact .inr ⟨hq, g, hsub g hg, htarget⟩
  · intro g hg
    exact hrest.tables g ((htables g).mpr (.inl hg))
  · intro g hg
    exact hsub g (hrest.supply g hg)

theorem mapPages_effect (flags : PageTableFlags) (ps : List Page) (v : Vm pg) :
    w.Effect flags v (Comp.forEach ps (mapVirtPage flags) v).state := by
  induction ps generalizing v with
  | nil => exact ⟨fun q => .inl rfl, fun g hg => hg, fun g hg => hg⟩
  | cons page ps ih =>
    cases hframes : w.supply v.frames with
    | nil =>
      obtain ⟨hout, htable, hsupply⟩ := w.mapVirtPage_empty flags page hframes
      rw [Comp.forEach, Comp.bind_err hout]
      exact ⟨fun q => .inl (congrArg (pg.leaf · q) htable), fun g hg => htable ▸ hg, by simp [hsupply]⟩
    | cons f rest =>
      by_cases hno : w.Blocked v.table page ∨ rest.length < (w.missing v.table page).card
      · obtain ⟨⟨e, hout⟩, hleaf, hkept, _, hsupply⟩ := w.mapVirtPage_refused flags hframes hno
        rw [Comp.forEach, Comp.bind_err hout]
        exact ⟨fun q => .inl (congrFun hleaf q), hkept, fun g hg => by simp [hframes, hsupply g hg]⟩
      · simp only [not_or, Nat.not_lt] at hno
        obtain ⟨hout, _⟩ := w.mapVirtPage_mapped flags hframes hno.1 hno.2
        rw [Comp.forEach, Comp.bind_ok hout, after_state]
        exact (ih (mapVirtPage flags page v).state).mapped w hframes hno.1 hno.2

section Mapped

variable {s : Vm pg} (hsupply : w.Unused v.table v.frames) (hframes : w.supply v.frames = f :: rest)
  (hfree : ¬ w.Blocked v.table page) (henough : (w.missing v.table page).card ≤ rest.length)
  (hrest : w.Effect flags (mapVirtPage flags page v).state s)

include hframes hfree henough

/-- The frame in hand is not in what is left of the supply. -/
theorem mapped_apart (hsupply : w.Unused v.table v.frames) {g : PhysFrame}
    (hg : g ∈ w.supply (mapVirtPage flags page v).state.frames) : g ≠ f := by
  obtain ⟨_, hleft, _⟩ := w.mapVirtPage_mapped flags hframes hfree henough
  have hnodup := hsupply.nodup
  rw [hframes] at hnodup
  obtain ⟨hf, _⟩ := List.nodup_cons.mp hnodup
  rw [hleft] at hg
  exact fun he => hf (he ▸ List.mem_of_mem_drop hg)

include hrest

/-- The pages that follow leave the page its frame. -/
theorem mapped_leaf : pg.leaf s.table page = some (f, flags) := by
  obtain ⟨_, _, hleaf, _⟩ := w.mapVirtPage_mapped flags hframes hfree henough
  have hstep := hrest.leaf page
  rw [hleaf, Function.update_self] at hstep
  exact hstep.resolve_right fun h => by cases h.1

include hsupply

/-- No other page gets the frame. -/
theorem mapped_only {q : Page} {fl : PageTableFlags} (hq : pg.leaf v.table q = none)
    (htarget : pg.leaf s.table q = some (f, fl)) : q = page := by
  obtain ⟨_, _, hleaf, _⟩ := w.mapVirtPage_mapped flags hframes hfree henough
  by_contra hne
  have hstep := hrest.leaf q
  rw [hleaf, Function.update_of_ne hne, hq, htarget] at hstep
  rcases hstep with hsome | ⟨_, g, hg, heq⟩
  · cases hsome
  · cases heq
    exact w.mapped_apart hframes hfree henough hsupply hg rfl

/-- A page that has been mapped adds its frame and those of its tables to what is accounted for. -/
theorem accounted_step {range : Page → Prop} (hflags : flags &&& PageTableFlags.PRESENT ≠ 0)
    (hrange : range page) :
    w.Accounted range v.table s.table v.frames s.frames ↔
      w.Accounted range (mapVirtPage flags page v).state.table s.table
        (mapVirtPage flags page v).state.frames s.frames := by
  obtain ⟨_, hleft, hleaf, htables, _⟩ := w.mapVirtPage_mapped flags hframes hfree henough
  have hself := w.mapped_leaf hframes hfree henough hrest
  have hother : ∀ g ∈ w.supply (mapVirtPage flags page v).state.frames, g ≠ f := fun g hg =>
    w.mapped_apart hframes hfree henough hsupply hg
  -- a leaf with another frame is new in the rest exactly when it is new
  have hsame : ∀ g, g ≠ f → ∀ q,
      ((range q ∧ pg.leaf v.table q = none ∧
        ∃ fl, pg.leaf s.table q = some (g, fl) ∧ fl &&& PageTableFlags.PRESENT ≠ 0) ↔
      (range q ∧ pg.leaf (mapVirtPage flags page v).state.table q = none ∧
        ∃ fl, pg.leaf s.table q = some (g, fl) ∧ fl &&& PageTableFlags.PRESENT ≠ 0)) := by
    intro g hg q
    by_cases hq : q = page
    · subst hq
      have hne : f ≠ g := fun he => hg he.symm
      simp [hself, hne]
    · rw [hleaf, Function.update_of_ne hq]
  constructor
  · intro h g hg
    have hmem : g ∈ w.supply v.frames := by
      rw [hleft] at hg
      simp [hframes, List.mem_of_mem_drop hg]
    have hcase := h g hmem
    rwa [existsUnique_congr (hsame g (hother g hg))] at hcase
  · intro h g hg
    rw [hframes, List.mem_cons, ← List.take_append_drop (w.missing v.table page).card rest, List.mem_append] at hg
    rcases hg with rfl | hg | hg
    · have hnone : pg.leaf v.table page = none := by
        simpa only [Blocked, not_or, not_not] using (not_or.mp hfree).1
      refine .inr (.inr ⟨page, ⟨hrange, hnone, flags, hself, hflags⟩, ?_⟩)
      rintro q ⟨_, hq, fl, htarget, _⟩
      exact w.mapped_only hsupply hframes hfree henough hrest hq htarget
    · exact .inr (.inl (hrest.tables g ((htables g).mpr (.inr hg))))
    · have hmem : g ∈ w.supply (mapVirtPage flags page v).state.frames := hleft ▸ hg
      have hcase := h g hmem
      rwa [← existsUnique_congr (hsame g (hother g hmem))] at hcase

end Mapped

variable (flags) in
/-- What is left of the supply stays out of use. -/
theorem mapVirtPage_unused (hsupply : w.Unused v.table v.frames) (hframes : w.supply v.frames = f :: rest)
    (hfree : ¬ w.Blocked v.table page) (henough : (w.missing v.table page).card ≤ rest.length) :
    w.Unused (mapVirtPage flags page v).state.table (mapVirtPage flags page v).state.frames := by
  obtain ⟨_, hleft, _, htables, _⟩ := w.mapVirtPage_mapped flags hframes hfree henough
  have hnodup := hsupply.nodup
  rw [hframes, List.nodup_cons, ← List.take_append_drop (w.missing v.table page).card rest] at hnodup
  obtain ⟨_, hdrop, hapart⟩ := List.nodup_append.mp hnodup.2
  constructor
  · rwa [hleft]
  · intro g hg htable
    rw [hleft] at hg
    rcases (htables g).mp htable with hold | hnew
    · exact hsupply.unused g (by simp [hframes, List.mem_of_mem_drop hg]) hold
    · exact hapart g hnew g hg rfl

variable (flags) in
/-- The frame in hand is lost when its page is refused. -/
theorem mapVirtPage_loses (range : Page → Prop) (hsupply : w.Unused v.table v.frames)
    (hframes : w.supply v.frames = f :: rest)
    (hno : w.Blocked v.table page ∨ rest.length < (w.missing v.table page).card) :
    ¬ w.Accounted range v.table (mapVirtPage flags page v).state.table v.frames
      (mapVirtPage flags page v).state.frames := by
  intro h
  obtain ⟨_, hleaf, _, htables, hleft⟩ := w.mapVirtPage_refused flags hframes hno
  have hnodup := hsupply.nodup
  rw [hframes] at hnodup
  obtain ⟨hf, _⟩ := List.nodup_cons.mp hnodup
  rcases h f (by simp [hframes]) with hback | htable | ⟨q, ⟨_, hq, fl, htarget, _⟩, _⟩
  · exact hf (hleft f hback)
  · rcases htables f htable with hold | hnew
    · exact hsupply.unused f (by simp [hframes]) hold
    · exact hf hnew
  · have hsame : pg.leaf (mapVirtPage flags page v).state.table q = pg.leaf v.table q := congrFun hleaf q
    rw [hq] at hsame
    cases hsame.symm.trans htarget

/-- Over the pages of the range, every frame is accounted for exactly when the frames come out even. -/
theorem mapPages_accounted_iff {range : Page → Prop} (hflags : flags &&& PageTableFlags.PRESENT ≠ 0)
    {ps : List Page} (hps : ps.Nodup) (hrange : ∀ p ∈ ps, range p) (hsupply : w.Unused v.table v.frames) :
    w.Accounted range v.table (Comp.forEach ps (mapVirtPage flags) v).state.table v.frames
      (Comp.forEach ps (mapVirtPage flags) v).state.frames ↔
      w.Suffices v.table (w.supply v.frames).length ps := by
  induction ps generalizing v with
  | nil =>
    have hall : w.Suffices v.table (w.supply v.frames).length [] :=
      ⟨0, Nat.le_refl _, by simp, .inr ⟨rfl, Nat.zero_le _⟩⟩
    exact iff_of_true (fun g hg => .inl hg) hall
  | cons page ps ih =>
    obtain ⟨hpage, hps⟩ := List.nodup_cons.mp hps
    obtain ⟨hfirst, hrange⟩ := List.forall_mem_cons.mp hrange
    cases hframes : w.supply v.frames with
    | nil => exact iff_of_true (fun g hg => by simp [hframes] at hg) (suffices_none _ _)
    | cons f rest =>
      by_cases hno : w.Blocked v.table page ∨ rest.length < (w.missing v.table page).card
      · have hlost := w.mapVirtPage_loses flags range hsupply hframes hno
        obtain ⟨⟨e, hout⟩, _⟩ := w.mapVirtPage_refused flags hframes hno
        rw [Comp.forEach, Comp.bind_err hout]
        exact iff_of_false hlost (not_suffices hno)
      · simp only [not_or, Nat.not_lt] at hno
        obtain ⟨hout, hleft, hleaf, _, hmade⟩ := w.mapVirtPage_mapped flags hframes hno.1 hno.2
        have hunused := w.mapVirtPage_unused flags hsupply hframes hno.1 hno.2
        have heffect := w.mapPages_effect flags ps (mapVirtPage flags page v).state
        rw [Comp.forEach, Comp.bind_ok hout, after_state,
          w.accounted_step hsupply hframes hno.1 hno.2 heffect hflags hfirst, ih hps hrange hunused, hleft,
          List.length_drop, List.length_cons, hmade.suffices hleaf hno.1 hno.2 hpage]

end Loop

end Paging.Walks

/-! ## The call -/

section Calls

variable {pg : Paging} {env : Env pg} {pos len perms : Nat} {k : Kernel pg}

/-- A call that does not come to its loop changes nothing. -/
theorem mapVirt_idle (h : ∀ t task a b flags, ¬ Admitted env pos len perms k t task a b flags) :
    (MemoryCall.mapVirt env pos len perms k).state = k := by
  unfold MemoryCall.mapVirt
  have hparse := parsePageRange_still (κ := KEvent) env.arith pos len k
  cases ho : (parsePageRange env.arith pos len k : Ran _ KEvent _ _).outcome with
  | err e => rw [Comp.bind_err ho, hparse.1]
  | panic => rw [Comp.bind_panic ho, hparse.1]
  | ok range =>
    obtain ⟨a, b⟩ := range
    rw [(parsePageRange_still _ _ _).bind_ok ho]
    dsimp only
    cases hcur : (currentTask k : Ran _ _ SyscallError _).outcome with
    | err e => rw [Comp.bind_err hcur, currentTask_state]
    | panic => rw [Comp.bind_panic hcur, currentTask_state]
    | ok t =>
      rw [Comp.bind_ok hcur, after_state, currentTask_state, withGuard_state]
      cases hfound : k.tasks.lookup t with
      | none => rw [getTask_missing hfound]
      | some task =>
        rw [getTask_bind hfound]
        by_cases hcap : ∃ x ∈ task.capabilities.handles, x.2.ctype = .mapVirtualToRam
        · rw [Comp.require_true hcap, Comp.ret_bind]
          cases hflags : memoryFlags perms with
          | error e => rfl
          | ok flags => exact absurd ⟨ho, currentTask_ok hcur, hfound, hcap, hflags⟩ (h t task a b flags)
        · rw [Comp.require_false hcap]
          rfl

/-- A page of the range that the arguments name. -/
def Requested (env : Env pg) (pos len : Nat) (k : Kernel pg) (p : Page) : Prop :=
  ∃ a b, (parsePageRange env.arith pos len k : Ran _ KEvent _ _).outcome = .ok (a, b) ∧
    p ∈ Page.range env.arith a b

/-- Every frame that the call takes off the supply is accounted for in the caller's address space. -/
def LeaksNothing (w : pg.Walks) (env : Env pg) (pos len perms : Nat) (k : Kernel pg) : Prop :=
  ∀ t task task', k.taskId = some t → k.tasks.lookup t = some task →
    (MemoryCall.mapVirt env pos len perms k).state.tasks.lookup t = some task' →
    w.Accounted (Requested env pos len k) task.pageTable task'.pageTable k.frames
      (MemoryCall.mapVirt env pos len perms k).state.frames

variable {w : pg.Walks} {t : TaskId} {task : TaskContext pg t}

/-- What a call leaves to the caller is what its loop leaves. -/
theorem Admitted.leaksNothing_iff {a b : Page} {flags : PageTableFlags}
    (h : Admitted env pos len perms k t task a b flags) :
    LeaksNothing w env pos len perms k ↔
      w.Accounted (Requested env pos len k) task.pageTable (mapLoop env a b flags (k.space task)).state.table
        k.frames (mapLoop env a b flags (k.space task)).state.frames := by
  obtain ⟨_, hstate⟩ := h.run
  have hlookup : (k.withSpace task (mapLoop env a b flags (k.space task)).state).tasks.lookup t =
      some { task with pageTable := (mapLoop env a b flags (k.space task)).state.table } :=
    Finmap.lookup_insert _
  constructor
  · intro hall
    have hcase := hall t task _ h.current h.found (hstate ▸ hlookup)
    rw [hstate] at hcase
    exact hcase
  · intro hloop t₁ task₁ task' hcur hfound hthere
    cases h.current.symm.trans hcur
    cases h.found.symm.trans hfound
    rw [hstate] at hthere ⊢
    cases hlookup.symm.trans hthere
    exact hloop

/-- Nothing is lost exactly when the call does not come to its loop, or the frames come out even there:
all pages are free and there are frames enough, or the frames end with the needs of some first pages,
all of them free. -/
theorem mapVirt_leaksNothing_iff (w : pg.Walks) (env : Env pg) (pos len perms : Nat) {k : Kernel pg}
    {t : TaskId}
    {task : TaskContext pg t} (hcur : k.taskId = some t) (hfound : k.tasks.lookup t = some task)
    (hsupply : w.Unused task.pageTable k.frames) :
    LeaksNothing w env pos len perms k ↔ ∀ a b flags, Admitted env pos len perms k t task a b flags →
      w.Suffices task.pageTable (w.supply k.frames).length (Page.range env.arith a b) := by
  by_cases hadmitted : ∃ a b flags, Admitted env pos len perms k t task a b flags
  · obtain ⟨a, b, flags, hadmitted⟩ := hadmitted
    have hpresent := (memoryFlags_user hadmitted.allowed).1
    have hnodup := Page.nodup_range env.arith a b
    have hrange : ∀ p ∈ Page.range env.arith a b, Requested env pos len k p := fun p hp =>
      ⟨a, b, hadmitted.parsed, hp⟩
    have hloop := w.mapPages_accounted_iff (v := k.space task) hpresent hnodup hrange hsupply
    rw [hadmitted.leaksNothing_iff]
    refine Iff.trans hloop ?_
    constructor
    · intro h a' b' flags' hadmitted'
      cases hadmitted.parsed.symm.trans hadmitted'.parsed
      exact h
    · intro h
      exact h a b flags hadmitted
  · have hidle : (MemoryCall.mapVirt env pos len perms k).state = k := by
      refine mapVirt_idle fun t₁ task₁ a b flags h => hadmitted ?_
      cases hcur.symm.trans h.current
      cases hfound.symm.trans h.found
      exact ⟨a, b, flags, h⟩
    refine iff_of_true ?_ fun a b flags h => absurd ⟨a, b, flags, h⟩ hadmitted
    intro t₁ task₁ task' _ _ _ g hg
    rw [hidle]
    exact .inl hg

end Calls

/-! ## A mapper that counts -/

/-- Tables are known by their names, and their frames by a list. -/
structure CountedTable where
  entry : Nat → Nat → TableEntry
  tables : List PhysFrame
  leaf : Page → Option (PhysFrame × PageTableFlags)

namespace CountedTable

/-- The first of the missing tables are there, in these frames. -/
def link (t : CountedTable) (page : Page) (fs : List PhysFrame) : CountedTable where
  entry l n :=
    if l ∈ (missingLevels t.entry page).take fs.length ∧ n = page.index / 512 ^ l then .table else t.entry l n
  tables := t.tables ++ fs
  leaf := t.leaf

def mapTo (t : CountedTable) (fs : List PhysFrame) (page : Page) (frame : PhysFrame) (flags : PageTableFlags) :
    Except MapToError Unit × CountedTable × List PhysFrame :=
  if InHugePage t.entry page then (.error .parentEntryHugePage, t, fs)
  else if (t.leaf page).isSome then (.error (.pageAlreadyMapped frame), t, fs)
  else if fs.length < (missingLevels t.entry page).length then
    (.error .frameAllocationFailed, t.link page fs, [])
  else
    let linked := t.link page (fs.take (missingLevels t.entry page).length)
    (.ok (), { linked with leaf := Function.update t.leaf page (some (frame, flags)) },
      fs.drop (missingLevels t.entry page).length)

end CountedTable

def Paging.counted : Paging where
  Table := CountedTable
  Frames := List PhysFrame
  allocateFrame fs := (fs.head?, fs.tail)
  mapTo t fs page frame flags _ := t.mapTo fs page frame flags
  leaf t page := t.leaf page
  dropTable _ fs := fs

theorem CountedTable.mapTo_refused (t : CountedTable) (fs : List PhysFrame) (page : Page) (frame : PhysFrame)
    (flags : PageTableFlags)
    (h : t.leaf page ≠ none ∨ InHugePage t.entry page) :
    ∃ e, t.mapTo fs page frame flags = (.error e, t, fs) := by
  unfold CountedTable.mapTo
  by_cases hhuge : InHugePage t.entry page
  · exact ⟨_, if_pos hhuge⟩
  · have hleaf : (t.leaf page).isSome = true := Option.isSome_iff_ne_none.mpr (h.resolve_right hhuge)
    exact ⟨_, (if_neg hhuge).trans (if_pos hleaf)⟩

theorem CountedTable.mapTo_free (t : CountedTable) (fs : List PhysFrame) (page : Page) (frame : PhysFrame)
    (flags : PageTableFlags) (hleaf : t.leaf page = none)
    (hhuge : ¬ InHugePage t.entry page) :
    t.mapTo fs page frame flags =
      if fs.length < (missingLevels t.entry page).length then
      (.error .frameAllocationFailed, t.link page fs, [])
      else (.ok (), { t.link page (fs.take (missingLevels t.entry page).length) with
        leaf := Function.update t.leaf page (some (frame, flags)) },
        fs.drop (missingLevels t.entry page).length) := by
  have hfree : ¬ (t.leaf page).isSome = true := by simp [hleaf]
  unfold CountedTable.mapTo
  rw [if_neg hhuge, if_neg hfree]

theorem CountedTable.mapTo_short (t : CountedTable) (fs : List PhysFrame) (page : Page) (frame : PhysFrame)
    (flags : PageTableFlags) (hleaf : t.leaf page = none)
    (hhuge : ¬ InHugePage t.entry page)
    (hshort : fs.length < (missingLevels t.entry page).length) :
    ∃ t' fs', t.mapTo fs page frame flags = (.error .frameAllocationFailed, t', fs') ∧ fs' = [] ∧
      t'.leaf = t.leaf ∧ (fun g => g ∈ t'.tables) = fun g => g ∈ t.tables ∨ g ∈ fs := by
  refine ⟨t.link page fs, [], (t.mapTo_free fs page frame flags hleaf hhuge).trans (if_pos hshort), rfl,
    rfl, ?_⟩
  funext g
  exact propext List.mem_append

theorem CountedTable.mapTo_enough (t : CountedTable) (fs : List PhysFrame) (page : Page) (frame : PhysFrame)
    (flags : PageTableFlags) (hleaf : t.leaf page = none)
    (hhuge : ¬ InHugePage t.entry page)
    (henough : (missingLevels t.entry page).length ≤ fs.length) :
    ∃ t' fs', t.mapTo fs page frame flags = (.ok (), t', fs') ∧
    fs' = fs.drop (missingLevels t.entry page).length ∧
      t'.leaf = Function.update t.leaf page (some (frame, flags)) ∧
      ((fun g => g ∈ t'.tables) = fun g => g ∈ t.tables ∨ g ∈ fs.take (missingLevels t.entry page).length) ∧
      t'.entry = fun l n =>
        if l ∈ missingLevels t.entry page ∧ n = page.index / 512 ^ l then .table else t.entry l n := by
  refine ⟨_, _, (t.mapTo_free fs page frame flags hleaf hhuge).trans (if_neg (Nat.not_lt.mpr henough)),
    rfl, rfl,
    ?_, ?_⟩
  · funext g
    exact propext List.mem_append
  · have hall : (missingLevels t.entry page).take (fs.take (missingLevels t.entry page).length).length =
      missingLevels t.entry page := by
      rw [List.length_take, Nat.min_eq_left henough, List.take_length]
    simp only [CountedTable.link, hall]

theorem CountedTable.mapTo_blocked (t : CountedTable) (fs : List PhysFrame) (page : Page) (frame : PhysFrame)
    (flags : PageTableFlags)
    (h : t.leaf page ≠ none ∨ InHugePage t.entry page) :
    ∃ e t' fs', t.mapTo fs page frame flags = (.error e, t', fs') ∧ fs' = fs ∧ t'.leaf = t.leaf ∧
      (fun g => g ∈ t'.tables) = fun g => g ∈ t.tables := by
  obtain ⟨e, hrun⟩ := t.mapTo_refused fs page frame flags h
  exact ⟨e, t, fs, hrun, rfl, rfl, rfl⟩

def countedWalks : Paging.counted.Walks where
  supply (fs : List PhysFrame) := fs
  entry (t : CountedTable) := t.entry
  tables (t : CountedTable) g := g ∈ t.tables
  head _ := rfl
  tail _ := rfl
  refused t fs page frame flags _ := CountedTable.mapTo_blocked t fs page frame flags
  exhausted t fs page frame flags _ := CountedTable.mapTo_short t fs page frame flags
  mapped t fs page frame flags _ := CountedTable.mapTo_enough t fs page frame flags

def Env.counting : Env .counted where
  arith := .checked
  tryReserve := true
  newTable fs := some (⟨fun _ _ => .unused, [], fun _ => none⟩, fs)
  readFileToMemory h := some (.error .noMemory, h)
  userString _ _ := none

/-- One task, which may map memory. -/
def Kernel.alone (table : CountedTable) (frames : List PhysFrame) : Kernel .counted :=
  let task : TaskContext .counted parentId :=
    { TaskContext.fresh initId parentId table with
      capabilities := ⟨1, [(0, ⟨.DUPLICATE, .mapVirtualToRam⟩)]⟩ }
  { tasks := Finmap.insert parentId task ∅
    executableTasks := []
    taskId := some parentId
    taskSwitchLocks := none
    nextPid := 4
    roots := ∅
    frames := frames
    memory := fun _ => 0 }

/-- Frames from 1 MiB on. -/
def someFrames (n : Nat) : List PhysFrame :=
  (List.range n).map fun i => .containingAddress (.newTruncate (0x100000 + 4096 * i))

def noTables : CountedTable := ⟨fun _ _ => .unused, [], fun _ => none⟩

theorem someFrames_unused : countedWalks.Unused noTables (someFrames 5) := by
  constructor
  · change (someFrames 5).Nodup
    decide
  · intro g _ htable
    exact absurd htable List.not_mem_nil

/-- Two pages and three tables: five frames are just enough. -/
theorem mapVirt_leaksNothing_iff_five :
    LeaksNothing countedWalks .counting 0x400000 0x2000 1 (Kernel.alone noTables (someFrames 5)) ↔
      ∀ a b flags, Admitted .counting 0x400000 0x2000 1 (Kernel.alone noTables (someFrames 5)) parentId
        { TaskContext.fresh initId parentId noTables with
          capabilities := ⟨1, [(0, ⟨.DUPLICATE, .mapVirtualToRam⟩)]⟩ } a b flags →
        countedWalks.Suffices noTables 5 (Page.range .checked a b) :=
  mapVirt_leaksNothing_iff countedWalks .counting 0x400000 0x2000 1 rfl
    (Finmap.lookup_insert _) someFrames_unused

/-- All tables, and one page that is mapped. -/
def onePage : CountedTable where
  entry _ _ := .table
  tables := []
  leaf p := if p.start.raw = 0x400000 then some (.containingAddress (.newTruncate 0x8000), 7) else none

theorem someFrames_unused_onePage : countedWalks.Unused onePage (someFrames 1) := by
  constructor
  · change (someFrames 1).Nodup
    decide
  · intro g _ htable
    exact absurd htable List.not_mem_nil

/-- A page that is mapped already is refused, and the frame is gone. -/
theorem mapped_page_loses_frame :
    (MemoryCall.mapVirt .counting 0x400000 0x1000 1 (Kernel.alone onePage (someFrames 1))).outcome =
      .err .memoryAlreadyMapped ∧
    countedWalks.Unused onePage (someFrames 1) ∧
    ¬ LeaksNothing countedWalks .counting 0x400000 0x1000 1 (Kernel.alone onePage (someFrames 1)) := by
  refine ⟨by decide +kernel, someFrames_unused_onePage, fun h => ?_⟩
  let task : TaskContext .counted parentId :=
    { TaskContext.fresh initId parentId onePage with
      capabilities := ⟨1, [(0, ⟨.DUPLICATE, .mapVirtualToRam⟩)]⟩ }
  have hcase := h parentId task task rfl (Finmap.lookup_insert _) rfl
    (.containingAddress (.newTruncate 0x100000))
    (List.mem_singleton_self _)
  rcases hcase with hback | htable | ⟨q, ⟨_, hq, fl, htarget, _⟩, _⟩
  · exact absurd hback List.not_mem_nil
  · exact absurd htable List.not_mem_nil
  · cases hq.symm.trans htarget

end Idkernel
