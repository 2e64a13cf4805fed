import Idkernel.PageTables

/-!
# Dropping a user page table

The lower half of a dropped table is walked in depth, and each table is given
back behind everything below it. What a frame holds once it was given back is
the heap's business; the walk never looks there again.
-/
namespace Idkernel

open Address Traced PhysMemory

/-- Where frames are given back to, which may write to memory that is not in use. -/
structure FrameDeallocator where
  State : Type
  deallocateFrame : PhysFrame → State → PhysMemory → State × PhysMemory

/-- Other frames in use stay in use, with what they hold. -/
structure FrameDeallocator.Lawful (D : FrameDeallocator) (InUse : D.State → PhysFrame → Prop) : Prop where
  kept : ∀ s m f g, InUse s f → InUse s g → g ≠ f →
    InUse (D.deallocateFrame f s m).1 g ∧ ∀ i, (D.deallocateFrame f s m).2 (g, i) = m (g, i)

structure Tables (D : FrameDeallocator) where
  frames : D.State
  memory : PhysMemory

inductive TableEvent where
  | read : Slot → TableEvent
  | deallocated : PhysFrame → TableEvent

abbrev TableM (D : FrameDeallocator) (ε : Type) := Comp (Tables D) TableEvent ε

namespace UserPageTable

variable {D : FrameDeallocator} {ε : Type}

def readEntry (slot : Slot) : TableM D ε PageTableEntry := do
  Comp.emit (.read slot)
  Comp.read fun w => w.memory slot

def deallocateFrame (frame : PhysFrame) : TableM D ε Unit := do
  Comp.emit (.deallocated frame)
  Comp.write fun w =>
    let (frames, memory) := D.deallocateFrame frame w.frames w.memory
    ⟨frames, memory⟩

/-- The entries of the table below, unless that is of the lowest level. -/
def unmapLower (worker : Slot → TableM D ε Unit) (lower : Nat) (slot : Slot) : TableM D ε Unit :=
  if lower = 1 then Comp.ret ()
  else do
    Comp.expect (lower ≠ 0)
    let entry ← readEntry slot
    Comp.forEach indices fun i => worker (entry.target, i)

/-- Levels are counted from one, the lowest. -/
def unmapWorker : Nat → Slot → TableM D ε Unit
  | 0, _ => Comp.abort
  | lower + 1, slot => do
    let entry ← readEntry slot
    if ¬ entry.present ∨ entry.huge then return ()
    else do
      unmapLower (unmapWorker lower) lower slot
      -- the entry may have been read before its tables were given back
      let entry ← readEntry slot
      let frame ← Comp.unwrap entry.frame
      deallocateFrame frame

/-- `Drop for UserPageTable`, of the table in a frame -/
def drop (table : PhysFrame) : TableM D ε Unit :=
  Comp.forEach lowerIndices fun i => unmapWorker 4 (table, i)

/-- The entries of the kernel's half are copied, not their tables. -/
def newFrom (table : PageTableIndex → PageTableEntry) : PageTableIndex → PageTableEntry := fun i =>
  if 256 ≤ i.val then table i else 0

theorem readEntry_run (slot : Slot) (w : Tables D) :
    (readEntry slot w : Ran _ _ ε _) = ⟨.ok (w.memory slot), w, [.read slot]⟩ := rfl

theorem deallocateFrame_run (f : PhysFrame) (w : Tables D) :
    (deallocateFrame f w : Ran _ _ ε _) =
      ⟨.ok (), ⟨(D.deallocateFrame f w.frames w.memory).1, (D.deallocateFrame f w.frames w.memory).2⟩,
        [.deallocated f]⟩ := rfl

end UserPageTable

/-! ## The tables under an entry -/

namespace PhysMemory

variable {m : PhysMemory} {root : PhysFrame}

/-- In the order in which they are given back. -/
def tablesUnder (m : PhysMemory) : Nat → Slot → List PhysFrame
  | 0, _ => []
  | n + 1, slot =>
    match (m slot).frame with
    | none => []
    | some t => (PhysMemory.indices.flatMap fun i => tablesUnder m n (t, i)) ++ [t]

def lowerTables (m : PhysMemory) (root : PhysFrame) : List PhysFrame :=
  lowerIndices.flatMap fun i => m.tablesUnder 3 (root, i)

theorem tablesUnder_none {n : Nat} {slot : Slot} (h : (m slot).frame = none) : m.tablesUnder n slot = [] := by
  cases n with
  | zero => rfl
  | succ n => simp only [tablesUnder, h]

theorem tablesUnder_some {n : Nat} {slot : Slot} {t : PhysFrame} (h : (m slot).frame = some t) :
    m.tablesUnder (n + 1) slot = (PhysMemory.indices.flatMap fun i => m.tablesUnder n (t, i)) ++ [t] := by
  simp only [tablesUnder, h]

end PhysMemory

/-! ## The walk -/

def TableEvent.deallocated? : TableEvent → Option PhysFrame
  | .read _ => none
  | .deallocated f => some f

/-- The calls of `deallocate_frame`, in order. -/
def deallocations (events : List TableEvent) : List PhysFrame := events.filterMap TableEvent.deallocated?

/-- Nothing is read from a frame that was given back, before or on the way. -/
def ReadsInUse : List PhysFrame → List TableEvent → Prop
  | _, [] => True
  | gone, .read slot :: es => slot.1 ∉ gone ∧ ReadsInUse gone es
  | gone, .deallocated f :: es => ReadsInUse (gone ++ [f]) es

theorem ReadsInUse.append {gone : List PhysFrame} {es fs : List TableEvent} (h : ReadsInUse gone es)
    (h' : ReadsInUse (gone ++ deallocations es) fs) : ReadsInUse gone (es ++ fs) := by
  induction es generalizing gone with
  | nil => simpa [deallocations] using h'
  | cons e es ih =>
    cases e with
    | read slot => exact ⟨h.1, ih h.2 h'⟩
    | deallocated f =>
      have hrest : ReadsInUse ((gone ++ [f]) ++ deallocations es) fs := by
        rw [List.append_assoc]
        exact h'
      exact ih h hrest

theorem ReadsInUse.not_read {gone : List PhysFrame} {es : List TableEvent} (h : ReadsInUse gone es)
    {f : PhysFrame} (hf : f ∈ gone) (i : PageTableIndex) : .read (f, i) ∉ es := by
  induction es generalizing gone with
  | nil => simp
  | cons e es ih =>
    cases e with
    | read slot =>
      intro hmem
      rcases List.mem_cons.mp hmem with heq | hrest
      · cases heq
        exact h.1 hf
      · exact ih h.2 hf hrest
    | deallocated g =>
      intro hmem
      rcases List.mem_cons.mp hmem with heq | hrest
      · cases heq
      · exact ih h (List.mem_append_left _ hf) hrest

theorem ReadsInUse.after {gone : List PhysFrame} {as bs : List TableEvent} {f : PhysFrame}
    (h : ReadsInUse gone (as ++ .deallocated f :: bs)) (i : PageTableIndex) : .read (f, i) ∉ bs := by
  induction as generalizing gone with
  | nil =>
    have hrest : ReadsInUse (gone ++ [f]) bs := h
    exact hrest.not_read (by simp) i
  | cons e as ih =>
    cases e with
    | read slot => exact ih h.2
    | deallocated g => exact ih h

section Walk

variable {D : FrameDeallocator} {ε : Type} {InUse : D.State → PhysFrame → Prop} {m : PhysMemory}
  {Mine : PhysFrame → Prop} {gone : List PhysFrame}

/-- Of the frames in question those that are not gone are in use and as they were. -/
def Tended (InUse : D.State → PhysFrame → Prop) (m : PhysMemory) (Mine : PhysFrame → Prop)
    (gone : List PhysFrame)
    (w : Tables D) : Prop :=
  ∀ f, Mine f → f ∉ gone → InUse w.frames f ∧ ∀ i, w.memory (f, i) = m (f, i)

/-- A part of the walk has given back these tables and spoiled no others. -/
structure GaveBack (InUse : D.State → PhysFrame → Prop) (m : PhysMemory) (Mine : PhysFrame → Prop)
    (gone tables : List PhysFrame) (r : Ran (Tables D) TableEvent ε Unit) : Prop where
  returned : r.outcome = .ok ()
  deallocations : deallocations r.events = tables
  reads : ReadsInUse gone r.events
  intact : Tended InUse m Mine (gone ++ tables) r.state

theorem GaveBack.bind {a : TableM D ε Unit} {b : Unit → TableM D ε Unit} {w : Tables D} {ts us : List PhysFrame}
    (ha : GaveBack InUse m Mine gone ts (a w)) (hb : GaveBack InUse m Mine (gone ++ ts) us (b () (a w).state)) :
    GaveBack InUse m Mine gone (ts ++ us) ((a >>= b) w) := by
  rw [Comp.bind_ok ha.returned]
  exact
    { returned := hb.returned
      deallocations := by
        rw [after_events, Idkernel.deallocations, List.filterMap_append]
        exact congrArg₂ _ ha.deallocations hb.deallocations
      reads := by
        refine ha.reads.append ?_
        rw [ha.deallocations]
        exact hb.reads
      intact := by
        rw [after_state, ← List.append_assoc]
        exact hb.intact }

theorem GaveBack.not_read {r : Ran (Tables D) TableEvent ε Unit} {ts : List PhysFrame}
    (h : GaveBack InUse m Mine gone ts r) {as bs : List TableEvent} {f : PhysFrame}
    (hevents : r.events = as ++ .deallocated f :: bs) (i : PageTableIndex) : .read (f, i) ∉ bs := by
  have hreads : ReadsInUse gone (as ++ .deallocated f :: bs) := hevents ▸ h.reads
  exact hreads.after i

theorem GaveBack.nothing {w : Tables D} (h : Tended InUse m Mine gone w) :
    GaveBack InUse m Mine gone [] (Comp.ret () w : Ran _ _ ε _) :=
  ⟨rfl, rfl, trivial, by simpa using h⟩

theorem readEntry_gaveBack {slot : Slot} {w : Tables D} {b : PageTableEntry → TableM D ε Unit}
    {us : List PhysFrame}
    (hw : Tended InUse m Mine gone w) (hmine : Mine slot.1) (hgone : slot.1 ∉ gone)
    (hb : GaveBack InUse m Mine gone us (b (m slot) w)) :
    GaveBack InUse m Mine gone us ((UserPageTable.readEntry slot >>= b) w) := by
  have hsame : w.memory slot = m slot := (hw slot.1 hmine hgone).2 slot.2
  have hrun := UserPageTable.readEntry_run (ε := ε) slot w
  rw [Comp.bind_ok (congrArg Ran.outcome hrun), hrun]
  dsimp only
  rw [hsame]
  exact ⟨hb.returned, hb.deallocations, ⟨hgone, hb.reads⟩, hb.intact⟩

theorem deallocateFrame_gaveBack (hD : D.Lawful InUse) {t : PhysFrame} {w : Tables D}
    (hw : Tended InUse m Mine gone w) (hmine : Mine t) (hgone : t ∉ gone) :
    GaveBack InUse m Mine gone [t] (UserPageTable.deallocateFrame t w : Ran _ _ ε _) := by
  rw [UserPageTable.deallocateFrame_run]
  refine ⟨rfl, rfl, trivial, fun g hg hin => ?_⟩
  rw [List.mem_append, List.mem_singleton, not_or] at hin
  obtain ⟨huse, hsame⟩ := hw g hg hin.1
  obtain ⟨huse', hsame'⟩ := hD.kept _ w.memory t g (hw t hmine hgone).1 huse hin.2
  exact ⟨huse', fun i => (hsame' i).trans (hsame i)⟩

/-- Entries of one table, each with the tables under it. -/
theorem forEach_gaveBack {l : List PageTableIndex} {f : PageTableIndex → TableM D ε Unit}
    {under : PageTableIndex → List PhysFrame}
    (hf : ∀ i ∈ l, ∀ gone' w, Tended InUse m Mine gone' w → (∀ g ∈ under i, g ∉ gone') →
      (∀ g ∈ gone', g ∈ gone ∨ ∃ j ∈ l, g ∈ under j) → GaveBack InUse m Mine gone' (under i) (f i w))
    (hnodup : (l.flatMap under).Nodup) {w : Tables D} (hw : Tended InUse m Mine gone w)
    (hfresh : ∀ g ∈ l.flatMap under, g ∉ gone) :
    GaveBack InUse m Mine gone (l.flatMap under) (Comp.forEach l f w) := by
  induction l generalizing gone w with
  | nil => exact .nothing hw
  | cons i l ih =>
    rw [List.flatMap_cons, List.nodup_append] at hnodup
    obtain ⟨_, hrest, hapart⟩ := hnodup
    have hfirst := hf i (by simp) gone w hw (fun g hg => hfresh g (by simp [hg])) fun g hg => .inl hg
    rw [List.flatMap_cons]
    refine hfirst.bind (ih ?_ hrest hfirst.intact ?_)
    · intro j hj gone' w' hw' hnew hfrom
      refine hf j (by simp [hj]) gone' w' hw' hnew fun g hg => ?_
      rcases hfrom g hg with hin | ⟨k, hk, hin⟩
      · rcases List.mem_append.mp hin with hin | hin
        · exact .inl hin
        · exact .inr ⟨i, by simp, hin⟩
      · exact .inr ⟨k, by simp [hk], hin⟩
    · intro g hg hin
      rcases List.mem_append.mp hin with hin | hin
      · exact hfresh g (by simp [List.mem_flatMap.mp hg]) hin
      · exact hapart g hin g hg rfl

/-- Behind the tables under it a table is given back itself. -/
theorem table_gaveBack (hD : D.Lawful InUse) {slot : Slot} {t : PhysFrame} {w : Tables D} {ts : List PhysFrame}
    {lower : TableM D ε Unit} (hframe : (m slot).frame = some t)
    (hlower : GaveBack InUse m Mine gone ts (lower w))
    (hslot : Mine slot.1) (hgone : slot.1 ∉ gone ++ ts) (hmine : Mine t) (ht : t ∉ gone ++ ts) :
    GaveBack InUse m Mine gone (ts ++ [t])
      ((lower >>= fun _ => UserPageTable.readEntry slot >>= fun entry =>
        Comp.unwrap entry.frame >>= UserPageTable.deallocateFrame) w) := by
  refine hlower.bind (readEntry_gaveBack hlower.intact hslot hgone ?_)
  rw [hframe, Comp.unwrap_some, Comp.ret_bind]
  exact deallocateFrame_gaveBack hD hlower.intact hmine ht

theorem skipped_of_frame {e : PageTableEntry} (h : e.frame = none) : ¬ e.present = true ∨ e.huge = true := by
  unfold PageTableEntry.frame at h
  cases hp : e.present <;> cases hh : e.huge <;> simp_all

theorem not_skipped_of_frame {e : PageTableEntry} {t : PhysFrame} (h : e.frame = some t) :
    ¬ (¬ e.present = true ∨ e.huge = true) := by
  obtain ⟨hp, hh, _⟩ := PageTableEntry.frame_eq_some.mp h
  simp [hp, hh]

/-- An entry that refers to no table is passed over, and a table is given back behind those under it. -/
theorem entry_gaveBack (hD : D.Lawful InUse) {n : Nat} {slot : Slot} {w : Tables D}
    (hw : Tended InUse m Mine gone w) (hslot : Mine slot.1) (hgone : slot.1 ∉ gone)
    (hunder : ∀ f ∈ m.tablesUnder (n + 1) slot, Mine f ∧ f ∉ gone)
    (hself : slot.1 ∉ m.tablesUnder (n + 1) slot) (hnodup : (m.tablesUnder (n + 1) slot).Nodup)
    (hlower : ∀ t ts, (m slot).frame = some t → m.tablesUnder (n + 1) slot = ts ++ [t] →
      GaveBack InUse m Mine gone ts
        (UserPageTable.unmapLower (UserPageTable.unmapWorker (n + 1)) (n + 1) slot w : Ran _ _ ε _)) :
    GaveBack InUse m Mine gone (m.tablesUnder (n + 1) slot)
      (UserPageTable.unmapWorker (n + 2) slot w : Ran _ _ ε _) := by
  rw [UserPageTable.unmapWorker]
  refine readEntry_gaveBack hw hslot hgone ?_
  cases hframe : (m slot).frame with
  | none =>
    rw [if_pos (skipped_of_frame hframe), PhysMemory.tablesUnder_none hframe]
    exact .nothing hw
  | some t =>
    have hall := PhysMemory.tablesUnder_some (n := n) hframe
    have hbehind := hlower t _ hframe hall
    rw [hall] at hunder hself hnodup ⊢
    obtain ⟨_, _, hlast⟩ := List.nodup_append.mp hnodup
    have ht := hunder t (List.mem_append_right _ (List.mem_singleton_self t))
    rw [if_neg (not_skipped_of_frame hframe)]
    exact table_gaveBack hD hframe hbehind hslot
      (List.not_mem_append hgone fun hin => hself (List.mem_append_left _ hin)) ht.1
      (List.not_mem_append ht.2 fun hin => hlast t hin t (List.mem_singleton_self t) rfl)

/-- The worker at an entry gives back the tables under it. -/
theorem unmapWorker_gaveBack (hD : D.Lawful InUse) {n : Nat} {slot : Slot} {w : Tables D}
    (hw : Tended InUse m Mine gone w) (hslot : Mine slot.1) (hgone : slot.1 ∉ gone)
    (hunder : ∀ f ∈ m.tablesUnder (n + 1) slot, Mine f ∧ f ∉ gone)
    (hself : slot.1 ∉ m.tablesUnder (n + 1) slot) (hnodup : (m.tablesUnder (n + 1) slot).Nodup) :
    GaveBack InUse m Mine gone (m.tablesUnder (n + 1) slot)
      (UserPageTable.unmapWorker (n + 2) slot w : Ran _ _ ε _) := by
  induction n generalizing slot w gone with
  | zero =>
    refine entry_gaveBack hD hw hslot hgone hunder hself hnodup fun t ts hframe hall => ?_
    rw [PhysMemory.tablesUnder_some hframe] at hall
    have hnone : ts = [] := by
      rw [← (List.append_inj' hall rfl).1]
      simp [PhysMemory.tablesUnder]
    rw [hnone, UserPageTable.unmapLower, if_pos rfl]
    exact .nothing hw
  | succ n ih =>
    refine entry_gaveBack hD hw hslot hgone hunder hself hnodup fun t ts hframe hall => ?_
    rw [hall] at hunder hnodup
    rw [PhysMemory.tablesUnder_some hframe] at hall
    obtain rfl : _ = ts := (List.append_inj' hall rfl).1
    obtain ⟨hnodup, _, hlast⟩ := List.nodup_append.mp hnodup
    have ht := hunder t (by simp)
    have hlevel : ¬ n + 2 = 1 := by omega
    rw [UserPageTable.unmapLower, if_neg hlevel, Comp.expect_true (by omega), Comp.ret_bind]
    refine readEntry_gaveBack hw hslot hgone ?_
    rw [(PageTableEntry.frame_eq_some.mp hframe).2.2]
    refine forEach_gaveBack ?_ hnodup hw fun g hg => (hunder g (List.mem_append_left _ hg)).2
    intro i hi gone' w' hw' hnew hfrom
    have hin : ∀ g ∈ m.tablesUnder (n + 1) (t, i),
        g ∈ PhysMemory.indices.flatMap fun i => m.tablesUnder (n + 1) (t, i) :=
      fun g hg => List.mem_flatMap.mpr ⟨i, hi, hg⟩
    refine ih hw' ht.1 (fun hgone' => ?_) (fun g hg => ⟨(hunder g (by simp [hin g hg])).1, hnew g hg⟩)
      (fun hg => hlast t (hin t hg) t (by simp) rfl) ((List.nodup_flatMap.mp hnodup).1 i hi)
    rcases hfrom t hgone' with hold | ⟨j, hj, hg⟩
    · exact ht.2 hold
    · exact hlast t (List.mem_flatMap.mpr ⟨j, hj, hg⟩) t (by simp) rfl

theorem drop_gaveBack (hD : D.Lawful InUse) {root : PhysFrame} {w : Tables D} (hw : Tended InUse m Mine [] w)
    (hroot : Mine root) (hunder : ∀ f ∈ m.lowerTables root, Mine f ∧ f ≠ root)
    (hnodup : (m.lowerTables root).Nodup) :
    GaveBack InUse m Mine [] (m.lowerTables root) (UserPageTable.drop root w : Ran _ _ ε _) := by
  refine forEach_gaveBack ?_ hnodup hw (by simp)
  intro i hi gone w' hw' hnew hfrom
  have hin : ∀ f ∈ m.tablesUnder 3 (root, i), f ∈ m.lowerTables root :=
    fun f hf => List.mem_flatMap.mpr ⟨i, hi, hf⟩
  refine unmapWorker_gaveBack hD hw' hroot ?_ (fun f hf => ⟨(hunder f (hin f hf)).1, hnew f hf⟩)
    (fun hself => (hunder root (hin root hself)).2 rfl) ((List.nodup_flatMap.mp hnodup).1 i hi)
  intro hgone
  rcases hfrom root hgone with hnone | ⟨j, hj, hself⟩
  · cases hnone
  · exact (hunder root (List.mem_flatMap.mpr ⟨j, hj, hself⟩)).2 rfl

end Walk

/-! ## Trees -/

namespace PhysMemory

variable {m : PhysMemory} {root f : PhysFrame}

variable {old : PhysFrame}

theorem lowerTables_newFrom (h : ∀ i, m (root, i) = UserPageTable.newFrom (fun i => m (old, i)) i) :
    m.lowerTables root = [] := by
  refine List.flatMap_eq_nil_iff.mpr fun i hi => tablesUnder_none ?_
  have hlow : ¬ 256 ≤ i.val := Nat.not_le_of_lt (mem_lowerIndices.mp hi)
  rw [h, UserPageTable.newFrom, if_neg hlow]
  decide

/-- The kernel's half of a new table is that of the old one, down to the tables. -/
theorem newFrom_shares (h : ∀ i, m (root, i) = UserPageTable.newFrom (fun i => m (old, i)) i) :
    m.TableOf root HigherIndex f ↔ m.TableOf old HigherIndex f := by
  have hsame : ∀ p, TablePath HigherIndex p → m.follow root p = m.follow old p := by
    rintro p ⟨⟨i, hi, hhigh⟩, _⟩
    cases p with
    | nil => cases hi
    | cons j p =>
      obtain rfl : j = i := Option.some.inj hi
      have hentry : m (root, j) = m (old, j) := (h j).trans (if_pos hhigh)
      simp only [along, hentry]
  constructor
  · rintro ⟨p, hp, hfollow⟩
    exact ⟨p, hp, hsame p hp ▸ hfollow⟩
  · rintro ⟨p, hp, hfollow⟩
    exact ⟨p, hp, (hsame p hp).symm ▸ hfollow⟩

end PhysMemory

/-! ## The drop -/

variable {D : FrameDeallocator} {InUse : D.State → PhysFrame → Prop} {m : PhysMemory} {root : PhysFrame}

/-- A table with nothing in its lower half gives nothing back. -/
theorem drop_newFrom (hD : D.Lawful InUse) {frames : D.State} (hroot : InUse frames root) {old : PhysFrame}
    (h : ∀ i, m (root, i) = UserPageTable.newFrom (fun i => m (old, i)) i) :
    deallocations (UserPageTable.drop root ⟨frames, m⟩ : Ran (Tables D) TableEvent Empty Unit).events = [] := by
  have hnone := PhysMemory.lowerTables_newFrom h
  have hintact : Tended InUse m (fun f => f = root) [] ⟨frames, m⟩ := by
    rintro f rfl _
    exact ⟨hroot, fun _ => rfl⟩
  rw [(drop_gaveBack (ε := Empty) hD hintact rfl (by simp [hnone]) (by simp [hnone])).deallocations, hnone]

end Idkernel
