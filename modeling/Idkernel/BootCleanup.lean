import Mathlib.Logic.Function.Basic
import Idkernel.PageTables

/-!
# The boot loader's mappings

The lower half of the boot loader's tables is cleared entry by entry. What is a
leaf is told from its level and the GLOBAL bit, so a huge page without that bit
is taken for a table, and its memory for entries.
-/
namespace Idkernel

open Address Traced PhysMemory

variable {κ ε : Type}

/-- Levels are counted from one, the lowest. -/
def clearLeaf : Nat → Slot → Comp PhysMemory κ ε Unit
  | 0, _ => Comp.abort
  | lower + 1, slot => do
    let entry ← Comp.read fun m => m slot
    if ¬ entry.present then return ()
    else if entry.isGlobal = false ∧ lower ≠ 0 then
      Comp.forEach indices fun i => clearLeaf lower (entry.target, i)
    else Comp.write fun m =>
      Function.update m slot (entry.setFlags (entry.flags.without PageTableFlags.PRESENT))

def fixBootloaderPollution (root : PhysFrame) : Comp PhysMemory κ ε Unit :=
  Comp.forEach lowerIndices fun i => clearLeaf 4 (root, i)

namespace PageTableEntry

theorem not_present_cleared (e : PageTableEntry) :
    (e.setFlags (e.flags.without PageTableFlags.PRESENT)).present = false := by
  have haddress : (e &&& ADDRESS) &&& (PageTableFlags.all &&& PageTableFlags.PRESENT) = 0 := by
    rw [UInt64.and_assoc]
    exact UInt64.and_zero
  have hflags : (e.flags &&& ~~~PageTableFlags.PRESENT) &&&
    (PageTableFlags.all &&& PageTableFlags.PRESENT) = 0 := by
    rw [UInt64.and_assoc]
    exact UInt64.and_zero
  have hbit : ((e &&& ADDRESS) ||| (e.flags &&& ~~~PageTableFlags.PRESENT)) &&&
      (PageTableFlags.all &&& PageTableFlags.PRESENT) = 0 := by
    refine UInt64.toBitVec_inj.mp ?_
    rw [UInt64.toBitVec_and, UInt64.toBitVec_or, BitVec.and_or_distrib_right, ← UInt64.toBitVec_and,
      ← UInt64.toBitVec_and, haddress, hflags]
    rfl
  unfold present setFlags PageTableFlags.without
  rw [flags, PageTableFlags.contains, UInt64.and_assoc, hbit]
  decide

/-- The table that the cleanup goes on to from an entry. -/
def next (e : PageTableEntry) : Option PhysFrame :=
  if e.present ∧ e.isGlobal = false then some e.target else none

/-- The same, where it really is a table. -/
def localFrame (e : PageTableEntry) : Option PhysFrame := if e.isGlobal then none else e.frame

theorem next_eq_some {e : PageTableEntry} {f : PhysFrame} :
    e.next = some f ↔ e.present = true ∧ e.isGlobal = false ∧ e.target = f := by
  unfold next
  cases hp : e.present <;> cases hg : e.isGlobal <;> simp

theorem localFrame_eq_some {e : PageTableEntry} {f : PhysFrame} :
    e.localFrame = some f ↔ e.next = some f ∧ e.huge = false := by
  unfold localFrame next frame
  cases hp : e.present <;> cases hg : e.isGlobal <;> cases hh : e.huge <;> simp

theorem frame_of_localFrame {e : PageTableEntry} {f : PhysFrame} (h : e.localFrame = some f) :
    e.frame = some f := by
  obtain ⟨hnext, hhuge⟩ := localFrame_eq_some.mp h
  obtain ⟨hpresent, _, htarget⟩ := next_eq_some.mp hnext
  exact frame_eq_some.mpr ⟨hpresent, hhuge, htarget⟩

end PageTableEntry

open PageTableEntry

namespace PhysMemory

variable {m m' m'' : PhysMemory} {root t : PhysFrame}

/-! ## What is wanted -/

/-- The lower half is gone, the higher half is as it was, and only tables of the lower half
were written. -/
structure Cleaned (m m' : PhysMemory) (root : PhysFrame) : Prop where
  lower : ∀ v : VirtAddr, v.LowerHalf → m'.translate 4 root v.raw = none
  higher : ∀ v : VirtAddr, ¬ v.LowerHalf → m'.translate 4 root v.raw = m.translate 4 root v.raw
  untouched : ∀ slot, m' slot ≠ m slot → slot.1 = root ∧ LowerIndex slot.2 ∨ m.TableOf root LowerIndex slot.1

/-- No table is in both halves, and no entry of the root is a huge page. -/
structure BootTree (m : PhysMemory) (root : PhysFrame) : Prop extends m.Tree root where
  highest : ∀ i, LowerIndex i → (m (root, i)).present = true → (m (root, i)).huge = false
  notShared : ∀ f, f = root ∨ m.TableOf root LowerIndex f → ¬ m.TableOf root HigherIndex f

def StartsLow (p : List PageTableIndex) : Prop := ∃ i, p.head? = some i ∧ LowerIndex i

/-- Huge pages have the GLOBAL bit, those that are reached without it. -/
def HugeIsGlobal (m : PhysMemory) (root : PhysFrame) : Prop :=
  ∀ q k t, StartsLow (q ++ [k]) → q.length ≤ 2 → m.along localFrame root q = some t →
    (m (t, k)).present = true → (m (t, k)).huge = true → (m (t, k)).isGlobal = true

/-- What the cleanup takes for a table without being led there by tables is none of the tables. -/
def Unmistaken (m : PhysMemory) (root : PhysFrame) : Prop :=
  ∀ q f, TablePath LowerIndex q → m.along next root q = some f → m.follow root q = some f ∨
    f ≠ root ∧ ¬ m.TableOf root LowerIndex f

/-! ## What is done -/

/-- Entries only lose their PRESENT bit. -/
def Cleared (m m' : PhysMemory) : Prop := ∀ slot, (m' slot).present = true → m' slot = m slot

theorem Cleared.refl (m : PhysMemory) : Cleared m m := fun _ _ => rfl

theorem Cleared.trans (h : Cleared m m') (h' : Cleared m' m'') : Cleared m m'' := by
  intro slot hpresent
  have hsame := h' slot hpresent
  rw [hsame] at hpresent ⊢
  exact h slot hpresent

/-- Nothing translates under an entry of a level any more. -/
def Gone (m : PhysMemory) : Nat → Slot → Prop
  | 0, _ => False
  | level + 1, slot => (m slot).present = false ∨ (m slot).huge = false ∧ ∀ i, Gone m level ((m slot).target, i)

theorem Gone.cleared (h : Cleared m m') {level : Nat} {slot : Slot} (hgone : m.Gone level slot) :
    m'.Gone level slot := by
  induction level generalizing slot with
  | zero => exact hgone
  | succ level ih =>
    cases hpresent : (m' slot).present with
    | false => exact .inl hpresent
    | true =>
      have hsame := h slot hpresent
      rcases hgone with habsent | ⟨hhuge, hunder⟩
      · rw [hsame, habsent] at hpresent
        cases hpresent
      · refine .inr ⟨hsame ▸ hhuge, fun i => ih ?_⟩
        rw [hsame]
        exact hunder i

theorem Gone.translate {level v : Nat} (h : m.Gone (level + 1) (t, indexAt level v)) :
    m.translate (level + 1) t v = none := by
  induction level generalizing t with
  | zero =>
    rcases h with habsent | ⟨_, hunder⟩
    · exact translate_absent habsent
    · exact (hunder 0).elim
  | succ level ih =>
    rcases h with habsent | ⟨hhuge, hunder⟩
    · exact translate_absent habsent
    cases hpresent : (m (t, indexAt (level + 1) v)).present with
    | false => exact translate_absent hpresent
    | true =>
      have hframe := frame_eq_some.mpr ⟨hpresent, hhuge, rfl⟩
      rw [translate_table hframe (by omega), ih (hunder (indexAt level v)), Option.map_none]

/-- An entry that the cleanup comes to, with the number of levels below it. -/
def Visited (m : PhysMemory) (root : PhysFrame) (below : Nat) (slot : Slot) : Prop :=
  ∃ q, q.length + below = 3 ∧ StartsLow (q ++ [slot.2]) ∧ m.along next root q = some slot.1

theorem Visited.start {i : PageTableIndex} (h : LowerIndex i) : m.Visited root 3 (root, i) :=
  ⟨[], rfl, ⟨i, rfl, h⟩, rfl⟩

theorem Visited.step {below : Nat} {slot : Slot} (h : m.Visited root (below + 1) slot)
    (hnext : (m slot).next = some t) (i : PageTableIndex) : m.Visited root below (t, i) := by
  obtain ⟨q, hlen, ⟨k, hk, hlow⟩, hq⟩ := h
  refine ⟨q ++ [slot.2], ?_, ⟨k, ?_, hlow⟩, along_snoc.mpr ⟨slot.1, hq, hnext⟩⟩
  · rw [List.length_append, List.length_singleton]
    omega
  · rw [List.head?_append_of_ne_nil _ (by simp), hk]

/-- The entries that the cleanup may clear. -/
def Clearable (m : PhysMemory) (root : PhysFrame) (slot : Slot) : Prop :=
  ∃ below, m.Visited root below slot ∧ ((m slot).isGlobal = true ∨ below = 0)

/-- A part of the cleanup, from a state on the way. -/
structure Cleans (m : PhysMemory) (root : PhysFrame) (Done : PhysMemory → Prop) (now : PhysMemory)
    (r : Ran PhysMemory κ ε Unit) : Prop where
  returned : r.outcome = .ok ()
  cleared : Cleared now r.state
  changed : ∀ slot, r.state slot ≠ now slot → m.Clearable root slot
  done : m.HugeIsGlobal root → Done r.state

theorem Cleans.nothing {now : PhysMemory} {Done : PhysMemory → Prop} (h : Done now) :
    Cleans m root Done now (Comp.ret () now : Ran _ κ ε _) :=
  ⟨rfl, .refl _, fun _ hne => absurd rfl hne, fun _ => h⟩

theorem Cleans.bind {Done Done' : PhysMemory → Prop} {a : Comp PhysMemory κ ε Unit}
    {b : Unit → Comp PhysMemory κ ε Unit} {now : PhysMemory} (ha : Cleans m root Done now (a now))
    (hb : Cleans m root Done' (a now).state (b () (a now).state))
    (hkeep : ∀ n n', Cleared n n' → Done n → Done n') :
    Cleans m root (fun n => Done n ∧ Done' n) now ((a >>= b) now) := by
  rw [Comp.bind_ok ha.returned]
  exact
    { returned := hb.returned
      cleared := ha.cleared.trans hb.cleared
      changed := by
        intro slot hne
        by_cases hsame : (a now).state slot = now slot
        · exact hb.changed slot (by rwa [hsame])
        · exact ha.changed slot hsame
      done := by
        intro hhuge
        exact ⟨hkeep _ _ hb.cleared (ha.done hhuge), hb.done hhuge⟩ }

theorem forEach_cleans {l : List PageTableIndex} {f : PageTableIndex → Comp PhysMemory κ ε Unit} {level : Nat}
    {now : PhysMemory} (hnow : Cleared m now)
    (hf : ∀ i ∈ l, ∀ n, Cleared m n → Cleans m root (fun n => n.Gone level (t, i)) n (f i n)) :
    Cleans m root (fun n => ∀ i ∈ l, n.Gone level (t, i)) now (Comp.forEach l f now) := by
  induction l generalizing now with
  | nil => exact .nothing (by simp)
  | cons i l ih =>
    have hfirst := hf i (by simp) now hnow
    have hrest := ih (hnow.trans hfirst.cleared) fun j hj => hf j (by simp [hj])
    have hboth := hfirst.bind (b := fun _ => Comp.forEach l f) hrest fun _ _ hc hg => hg.cleared hc
    exact ⟨hboth.returned, hboth.cleared, hboth.changed, fun hhuge =>
      List.forall_mem_cons.mpr (hboth.done hhuge)⟩

theorem StartsLow.front {q : List PageTableIndex} {k : PageTableIndex} (h : StartsLow (q ++ [k]))
    (hq : q ≠ []) :
    StartsLow q := by
  obtain ⟨i, hi, hlow⟩ := h
  rw [List.head?_append_of_ne_nil _ hq] at hi
  exact ⟨i, hi, hlow⟩

/-- Where huge pages are GLOBAL, the cleanup follows tables only. -/
theorem HugeIsGlobal.along_local (h : m.HugeIsGlobal root) {q : List PageTableIndex} (hlen : q.length ≤ 3)
    (hlow : q ≠ [] → StartsLow q) (hq : m.along next root q = some t) : m.along localFrame root q = some t := by
  induction q using List.reverseRecOn generalizing t with
  | nil => exact hq
  | append_singleton q k ih =>
    obtain ⟨u, hu, hnext⟩ := along_snoc.mp hq
    have hstart := hlow (by simp)
    rw [List.length_append, List.length_singleton] at hlen
    have hlocal := ih (by omega) (fun hne => hstart.front hne) hu
    obtain ⟨hpresent, hglobal, _⟩ := next_eq_some.mp hnext
    have hhuge : (m (u, k)).huge = false := by
      cases hh : (m (u, k)).huge with
      | false => rfl
      | true => rw [h q k u hstart (by omega) hlocal hpresent hh] at hglobal; cases hglobal
    exact along_snoc.mpr ⟨u, hlocal, localFrame_eq_some.mpr ⟨hnext, hhuge⟩⟩

theorem Visited.along_local (h : m.HugeIsGlobal root) {below : Nat} {slot : Slot}
    (hv : m.Visited root below slot) :
    ∃ q, q.length + below = 3 ∧ StartsLow (q ++ [slot.2]) ∧ m.along localFrame root q = some slot.1 := by
  obtain ⟨q, hlen, hlow, hq⟩ := hv
  exact ⟨q, hlen, hlow, h.along_local (by omega) (fun hne => hlow.front hne) hq⟩

theorem clear_cleans {below : Nat} {slot : Slot} (now : PhysMemory) (hv : m.Visited root below slot)
    (hlast : (m slot).isGlobal = true ∨ below = 0) (e : PageTableEntry) :
    Cleans m root (fun n => n.Gone (below + 1) slot) now
      (Comp.write (fun n => Function.update n slot (e.setFlags (e.flags.without PageTableFlags.PRESENT))) now :
        Ran _ κ ε _) := by
  exact
    { returned := rfl
      cleared := by
        intro x hpresent
        rw [Comp.write_run] at hpresent ⊢
        dsimp only at hpresent ⊢
        by_cases hx : x = slot
        · rw [hx, Function.update_self, not_present_cleared] at hpresent
          cases hpresent
        · exact Function.update_of_ne hx _ _
      changed := by
        intro x hne
        by_cases hx : x = slot
        · exact ⟨below, hx ▸ hv, hx ▸ hlast⟩
        · exact absurd (Function.update_of_ne hx _ _) hne
      done := by
        intro _
        left
        rw [Comp.write_run]
        dsimp only
        rw [Function.update_self, not_present_cleared] }

/-- A present entry that is not global refers to a table, if huge pages are global. -/
theorem Visited.not_huge (h : m.HugeIsGlobal root) {below : Nat} {slot : Slot} (hv : m.Visited root (below + 1) slot)
    (hpresent : (m slot).present = true) (hglobal : (m slot).isGlobal = false) : (m slot).huge = false := by
  obtain ⟨q, hlen, hlow, hq⟩ := hv.along_local h
  cases hhuge : (m slot).huge with
  | false => rfl
  | true =>
    rw [h q slot.2 slot.1 hlow (by omega) hq hpresent hhuge] at hglobal
    cases hglobal

theorem clearLeaf_cleans {below : Nat} {slot : Slot} {now : PhysMemory} (hnow : Cleared m now)
    (hv : m.Visited root below slot) :
    Cleans m root (fun n => n.Gone (below + 1) slot) now (clearLeaf (below + 1) slot now : Ran _ κ ε _) := by
  induction below generalizing slot now with
  | zero =>
    rw [clearLeaf, Comp.read_bind]
    cases hpresent : (now slot).present with
    | false => exact .nothing (.inl hpresent)
    | true =>
      rw [if_neg (by simp), if_neg (by simp)]
      exact clear_cleans now hv (.inr rfl) _
  | succ below ih =>
    rw [clearLeaf, Comp.read_bind]
    cases hpresent : (now slot).present with
    | false => exact .nothing (.inl hpresent)
    | true =>
      have hsame := hnow slot hpresent
      rw [if_neg (by simp), hsame]
      cases hglobal : (m slot).isGlobal with
      | true =>
        rw [if_neg (by simp)]
        exact clear_cleans now hv (.inl hglobal) _
      | false =>
        rw [if_pos (by simp)]
        have hnext : (m slot).next = some (m slot).target :=
          next_eq_some.mpr ⟨hsame ▸ hpresent, hglobal, rfl⟩
        have hall : Cleans m root (fun n => ∀ i ∈ indices, n.Gone (below + 1) ((m slot).target, i)) now _ :=
          forEach_cleans hnow fun i _ n hn => ih hn (hv.step hnext i)
        refine ⟨hall.returned, hall.cleared, hall.changed, fun hhuge => ?_⟩
        have hplain := hv.not_huge hhuge (hsame ▸ hpresent) hglobal
        have hunder := hall.done hhuge
        cases hstill : ((Comp.forEach indices fun i =>
          clearLeaf (below + 1) ((m slot).target, i) : Comp _ κ ε _)
            now).state slot |>.present with
        | false => exact .inl hstill
        | true =>
          have hkept := (hnow.trans hall.cleared) slot hstill
          refine .inr ⟨by rw [hkept, hplain], fun i => ?_⟩
          rw [hkept]
          exact hunder i (List.mem_finRange i)

theorem fixBootloaderPollution_cleans (m : PhysMemory) (root : PhysFrame) :
    Cleans m root (fun n => ∀ i ∈ lowerIndices, n.Gone 4 (root, i)) m
      (fixBootloaderPollution root m : Ran _ κ ε _) :=
  forEach_cleans (.refl m) fun _ hi _ hn => clearLeaf_cleans hn (.start (mem_lowerIndices.mp hi))

/-! ## What it is worth -/

section Worth

variable {Done : PhysMemory → Prop} {r : Ran PhysMemory κ ε Unit} {slot : Slot} {i k : PageTableIndex}

theorem along_follow {p : List PageTableIndex} (h : m.along localFrame root p = some t) :
    m.follow root p = some t := by
  induction p generalizing root with
  | nil => exact h
  | cons i p ih =>
    obtain ⟨u, hu, hp⟩ := along_cons.mp h
    exact along_cons.mpr ⟨u, frame_of_localFrame hu, ih hp⟩

theorem Clearable.lower (hhuge : m.HugeIsGlobal root) (h : m.Clearable root slot) :
    slot.1 = root ∧ LowerIndex slot.2 ∨ m.TableOf root LowerIndex slot.1 := by
  obtain ⟨below, hv, _⟩ := h
  obtain ⟨q, hlen, hlow, hq⟩ := hv.along_local hhuge
  by_cases hnil : q = []
  · subst hnil
    obtain ⟨j, hj, hlow⟩ := hlow
    obtain rfl : slot.2 = j := Option.some.inj hj
    exact .inl ⟨(Option.some.inj hq).symm, hlow⟩
  · exact .inr ⟨q, ⟨hlow.front hnil, by omega⟩, along_follow hq⟩

theorem BootTree.cleaned (htree : m.BootTree root) (hhuge : m.HugeIsGlobal root)
    (hr : Cleans m root (fun n => ∀ i ∈ lowerIndices, n.Gone 4 (root, i)) m r) : Cleaned m r.state root := by
  have hkept : ∀ slot : Slot, ¬ (slot.1 = root ∧ LowerIndex slot.2 ∨ m.TableOf root LowerIndex slot.1) →
      r.state slot = m slot := by
    intro slot hnot
    by_contra hne
    exact hnot (Clearable.lower hhuge (hr.changed slot hne))
  constructor
  · intro v hv
    exact (hr.done hhuge _ (mem_lowerIndices.mpr ((lowerIndex_indexAt v).mpr hv))).translate
  · intro v hv
    have hindex : ¬ LowerIndex (indexAt 3 v.raw) := fun h => hv ((lowerIndex_indexAt v).mp h)
    refine translate_step_congr (hkept _ ?_) fun u hu => translate_congr fun p f hp hf j => hkept (f, j) ?_
    · rintro (⟨_, hlow⟩ | htable)
      · exact hindex hlow
      · exact htree.rootApart htable
    · have hhigher : m.TableOf root HigherIndex f :=
        ⟨indexAt 3 v.raw :: p, ⟨⟨_, rfl, Nat.le_of_not_lt hindex⟩, Nat.succ_le_of_lt hp⟩,
          along_cons.mpr ⟨u, hu, hf⟩⟩
      rintro (⟨he, _⟩ | htable)
      · exact htree.notShared f (.inl he) hhigher
      · exact htree.notShared f (.inr htable) hhigher
  · intro slot hne
    by_contra hnot
    exact hne (hkept slot hnot)

/-- The entries on the way to a huge page without the GLOBAL bit stay. -/
theorem BootTree.kept (htree : m.BootTree root) (hu : m.Unmistaken root) (hr : Cleans m root Done m r)
    {p : List PageTableIndex} (hlen : p.length ≤ 2) (hlow : StartsLow (p ++ [k]))
    (hp : m.along localFrame root p = some t) (hlocal : (m (t, k)).isGlobal = false) :
    r.state (t, k) = m (t, k) := by
  by_contra hne
  obtain ⟨below, ⟨q, hql, hqlow, hq⟩, hlast⟩ := hr.changed _ hne
  have hbelow : below = 0 := hlast.resolve_left (by simp [hlocal])
  have hqn : q ≠ [] := fun h => by simp [h, hbelow] at hql
  have hpath : TablePath LowerIndex q := ⟨hqlow.front hqn, by omega⟩
  rcases hu q t hpath hq with hfollow | ⟨hroot, htable⟩
  · by_cases hpn : p = []
    · obtain rfl : root = t := by simpa [hpn] using hp
      exact htree.rootApart ⟨q, hpath, hfollow⟩
    · have hsame := htree.path_unique ⟨hlow.front hpn, by omega⟩ hpath (along_follow hp) hfollow
      rw [hsame] at hlen
      omega
  · by_cases hpn : p = []
    · exact hroot (by simpa [hpn] using hp.symm)
    · exact htable ⟨p, ⟨hlow.front hpn, by omega⟩, along_follow hp⟩

theorem address_bound (i j k : PageTableIndex) (h : LowerIndex i) :
    i.val * 2 ^ 39 + j.val * 2 ^ 30 + k.val * 2 ^ 21 < 2 ^ 47 := by
  unfold LowerIndex at h
  omega

/-- The first address under three entries. -/
def addressOf (i j k : PageTableIndex) (h : LowerIndex i) : VirtAddr :=
  ⟨i.val * 2 ^ 39 + j.val * 2 ^ 30 + k.val * 2 ^ 21, .inl (address_bound i j k h)⟩

theorem addressOf_lower {i j k : PageTableIndex} (h : LowerIndex i) : (addressOf i j k h).LowerHalf :=
  address_bound i j k h

theorem indexAt_addressOf {i j k : PageTableIndex} (h : LowerIndex i) : indexAt 3 (addressOf i j k h).raw = i ∧
    indexAt 2 (addressOf i j k h).raw = j ∧ indexAt 1 (addressOf i j k h).raw = k := by
  unfold indexAt addressOf pageSize
  refine ⟨Fin.ext ?_, Fin.ext ?_, Fin.ext ?_⟩
  all_goals dsimp only
  all_goals omega

/-- A huge page under one or two entries is translated. -/
theorem translate_leaf {q : List PageTableIndex} (hlow : StartsLow (q ++ [k])) (hq : m.follow root q = some t)
    (hlen : q.length = 1 ∨ q.length = 2) (hpresent : (m (t, k)).present = true)
    (hhuge : (m (t, k)).huge = true) :
    ∃ v : VirtAddr, v.LowerHalf ∧ m.translate 4 root v.raw ≠ none := by
  obtain ⟨i, hi, hlow⟩ := hlow
  rcases q with _ | ⟨i', _ | ⟨j, _ | ⟨l, q⟩⟩⟩
  · simp at hlen
  · obtain rfl : i' = i := Option.some.inj hi
    obtain ⟨u, hu, hut⟩ := along_cons.mp hq
    obtain rfl : u = t := Option.some.inj hut
    obtain ⟨h3, h2, _⟩ := indexAt_addressOf (j := k) (k := 0) hlow
    refine ⟨addressOf i' k 0 hlow, addressOf_lower hlow, ?_⟩
    rw [translate_table (u := u) (by rw [h3]; exact hu) (by omega)]
    have hleaf : m.translate 3 u (addressOf i' k 0 hlow).raw ≠ none :=
      translate_huge (by rw [h2]; exact hpresent) (by rw [h2]; exact hhuge) (by omega)
    simpa using hleaf
  · obtain rfl : i' = i := Option.some.inj hi
    obtain ⟨s, hs, hst⟩ := along_cons.mp hq
    obtain ⟨u, hu, hut⟩ := along_cons.mp hst
    obtain rfl : u = t := Option.some.inj hut
    obtain ⟨h3, h2, h1⟩ := indexAt_addressOf (j := j) (k := k) hlow
    refine ⟨addressOf i' j k hlow, addressOf_lower hlow, ?_⟩
    rw [translate_table (u := s) (by rw [h3]; exact hs) (by omega),
      translate_table (u := u) (by rw [h2]; exact hu) (by omega)]
    have hleaf : m.translate 2 u (addressOf i' j k hlow).raw ≠ none :=
      translate_huge (by rw [h1]; exact hpresent) (by rw [h1]; exact hhuge) (by omega)
    simpa using hleaf
  · simp at hlen

/-- Memory that agrees on the entries of a path has the path. -/
theorem along_local_kept {p : List PageTableIndex} (hp : m.along localFrame root p = some t)
    (h : ∀ q k u, q ++ [k] <+: p → m.along localFrame root q = some u → (m (u, k)).isGlobal = false →
      m' (u, k) = m (u, k)) : m'.along localFrame root p = some t := by
  induction p using List.reverseRecOn generalizing t with
  | nil => exact hp
  | append_singleton p k ih =>
    obtain ⟨u, hu, hframe⟩ := along_snoc.mp hp
    have hprev := ih hu fun q l s hq => h q l s (hq.trans (List.prefix_append p [k]))
    have hlocal := (next_eq_some.mp (localFrame_eq_some.mp hframe).1).2.1
    exact along_snoc.mpr ⟨u, hprev, by rw [h p k u (List.prefix_refl _) hu hlocal]; exact hframe⟩

theorem BootTree.huge_global (htree : m.BootTree root) (hu : m.Unmistaken root) (hr : Cleans m root Done m r)
    (hclean : Cleaned m r.state root) : m.HugeIsGlobal root := by
  intro q k t hlow hlen hq hpresent hhuge
  by_contra hlocal
  rw [Bool.not_eq_true] at hlocal
  have hqn : q.length ≠ 0 := by
    intro h0
    obtain rfl := List.eq_nil_of_length_eq_zero h0
    obtain rfl : root = t := Option.some.inj hq
    obtain ⟨j, hj, hlow⟩ := hlow
    obtain rfl : k = j := Option.some.inj hj
    rw [htree.highest k hlow hpresent] at hhuge
    cases hhuge
  have hleaf := htree.kept hu hr hlen hlow hq hlocal
  have hpath : r.state.follow root q = some t := by
    refine along_follow (along_local_kept hq fun p l u hp hu' hl => ?_)
    obtain ⟨rest, rfl⟩ := hp
    have hstart : StartsLow (p ++ [l]) := by
      obtain ⟨j, hj, hlow⟩ := hlow
      rw [List.append_assoc, List.head?_append_of_ne_nil _ (by simp)] at hj
      exact ⟨j, hj, hlow⟩
    simp only [List.length_append] at hlen
    exact htree.kept hu hr (by omega) hstart hu' hl
  obtain ⟨v, hv, htranslate⟩ := translate_leaf hlow hpath (by omega) (by rw [hleaf]; exact hpresent)
    (by rw [hleaf]; exact hhuge)
  exact htranslate (hclean.lower v hv)

end Worth

end PhysMemory

/-- The cleanup removes the lower half and nothing else where huge pages are GLOBAL, and only
there if it does not come across a table by mistake. -/
theorem fixBootloaderPollution_cleaned {m : PhysMemory} {root : PhysFrame} (htree : m.BootTree root) :
    let r : Ran PhysMemory Empty Empty Unit := fixBootloaderPollution root m
    r.outcome = .ok () ∧ (m.HugeIsGlobal root → Cleaned m r.state root) ∧
      (m.Unmistaken root → (Cleaned m r.state root ↔ m.HugeIsGlobal root)) := by
  have hr := fixBootloaderPollution_cleans (κ := Empty) (ε := Empty) m root
  exact ⟨hr.returned, fun hhuge => htree.cleaned hhuge hr,
    fun hu => ⟨fun hclean => htree.huge_global hu hr hclean, fun hhuge => htree.cleaned hhuge hr⟩⟩

/-! ### A huge page -/

theorem clearLeaf_absent {m : PhysMemory} {slot : Slot} (below : Nat) (h : (m slot).present = false) :
    (clearLeaf (below + 1) slot m : Ran _ κ ε _) = Comp.ret () m := by
  rw [clearLeaf, Comp.read_bind, h]
  rfl

theorem clearLeaf_next {m : PhysMemory} {slot : Slot} {t : PhysFrame} (below : Nat) (h : (m slot).next = some t) :
    (clearLeaf (below + 2) slot m : Ran _ κ ε _) =
      Comp.forEach indices (fun i => clearLeaf (below + 1) (t, i)) m := by
  obtain ⟨hpresent, hglobal, rfl⟩ := PageTableEntry.next_eq_some.mp h
  rw [clearLeaf, Comp.read_bind, hpresent, hglobal, if_neg (by simp), if_pos (by simp)]

theorem clearLeaf_clears {m : PhysMemory} {slot : Slot} (below : Nat) (hpresent : (m slot).present = true)
    (hlast : (m slot).isGlobal = true ∨ below = 0) :
    (clearLeaf (below + 1) slot m : Ran _ κ ε _) =
      ⟨.ok (), Function.update m slot ((m slot).setFlags ((m slot).flags.without PageTableFlags.PRESENT)), []⟩ := by
  rw [clearLeaf, Comp.read_bind, hpresent, if_neg (by simp), if_neg (by grind)]
  rfl

/-- A table with one entry. -/
theorem clearLeaf_alone {m m' : PhysMemory} {t : PhysFrame} {k : PageTableIndex} {below : Nat}
    {l : List PageTableIndex} (hl : l.Nodup) (hk : k ∈ l) (hcleared : Cleared m m')
    (hrun : (clearLeaf (below + 1) (t, k) m : Ran _ κ ε _) = ⟨.ok (), m', []⟩)
    (habsent : ∀ j, j ≠ k → (m (t, j)).present = false) :
    (Comp.forEach l (fun i => clearLeaf (below + 1) (t, i)) m : Ran _ κ ε _) = ⟨.ok (), m', []⟩ := by
  refine Comp.forEach_only hl hk hrun (fun j _ hj => clearLeaf_absent below (habsent j hj)) fun j _ hj => ?_
  refine clearLeaf_absent below (Bool.eq_false_iff.mpr fun hpresent => ?_)
  have hsame := hcleared (t, j) hpresent
  rw [hsame, habsent j hj] at hpresent
  cases hpresent

/-- One huge page of 1 GiB, and a word of data in it. -/
def hugeTree (leaf : PageTableEntry) : PhysMemory := fun slot =>
  match slot.1.index, slot.2.val with
  | 1, 0 => 0x2003
  | 2, 0 => leaf
  | 0x40000, 3 => 0x101
  | _, _ => 0

variable {leaf : PageTableEntry}

theorem hugeTree_frame (hleaf : leaf.huge = true) {t f : PhysFrame} {k : PageTableIndex}
    (h : (hugeTree leaf (t, k)).frame = some f) :
    (t.index, k.val, f.index) ∈ ([(1, 0, 2), (0x40000, 3, 0)] : List (Nat × Nat × Nat)) := by
  unfold hugeTree at h
  split at h
  · have htarget : ∀ n ∈ (0x2003 : PageTableEntry).frame, n.index = 2 := by decide
    simp_all
  · rw [(frame_eq_some.mp h).2.1] at hleaf
    cases hleaf
  · have htarget : ∀ n ∈ (0x101 : PageTableEntry).frame, n.index = 0 := by decide
    simp_all
  · have hnone : (0 : PageTableEntry).frame = none := by decide
    simp_all

theorem hugeTree_follow (hleaf : leaf.huge = true) {p : List PageTableIndex} {t : PhysFrame}
    (h : (hugeTree leaf).follow (frameOf 1) p = some t) :
    t.index = p.length + 1 ∧ p.length ≤ 1 ∧ ∀ i ∈ p, i = 0 := by
  induction p using List.reverseRecOn generalizing t with
  | nil =>
    cases h
    exact ⟨by decide, by simp, by simp⟩
  | append_singleton p k ih =>
    obtain ⟨u, hu, hframe⟩ := along_snoc.mp h
    obtain ⟨hindex, hlen, hzero⟩ := ih hu
    have hentry := hugeTree_frame hleaf hframe
    simp only [List.mem_cons, Prod.mk.injEq, List.not_mem_nil, or_false] at hentry
    have hk : k = 0 := Fin.ext (by simp only [Fin.val_zero]; omega)
    rw [List.length_append, List.length_singleton]
    refine ⟨by omega, by omega, fun i hi => ?_⟩
    rcases List.mem_append.mp hi with hi | hi
    · exact hzero i hi
    · rw [List.mem_singleton.mp hi, hk]

theorem hugeTree_tree (hleaf : leaf.huge = true) : (hugeTree leaf).BootTree (frameOf 1) where
  referencedOnce p q k l t u f _ _ _ _ hk hl := by
    have hk := hugeTree_frame hleaf hk
    have hl := hugeTree_frame hleaf hl
    simp only [List.mem_cons, Prod.mk.injEq, List.not_mem_nil, or_false] at hk hl
    exact ⟨PhysFrame.index_inj (by omega), Fin.ext (by omega)⟩
  rootApart := by
    rintro ⟨p, ⟨⟨i, hi, _⟩, _⟩, hroot⟩
    have hindex : (frameOf 1).index = 1 := by decide
    have hlen : p.length ≠ 0 := fun h0 => by simp [List.eq_nil_of_length_eq_zero h0] at hi
    have hdepth := hugeTree_follow hleaf hroot
    omega
  highest i _ _ := by
    have hindex : (frameOf 1).index = 1 := by decide
    unfold hugeTree
    split
    · decide
    · simp_all
    · simp_all
    · decide
  notShared f _ := by
    rintro ⟨p, ⟨⟨i, hi, hhigh⟩, _⟩, hfollow⟩
    obtain rfl := (hugeTree_follow hleaf hfollow).2.2 i (List.mem_of_head? hi)
    exact absurd hhigh (by unfold HigherIndex; decide)

/-- Data that looks like a last entry is cleared through the huge page it is in. -/
theorem hugeTree_run : (fixBootloaderPollution (frameOf 1) (hugeTree 0x40000083) : Ran _ κ ε _) =
    ⟨.ok (), Function.update (hugeTree 0x40000083) (frameOf 0x40000, 3) 0x100, []⟩ := by
  have habsent : ∀ {t : PhysFrame} {k : PageTableIndex}, (t.index, k.val) ∈ [(1, 0), (2, 0), (0x40000, 3)] →
      ∀ j, j ≠ k → (hugeTree 0x40000083 (t, j)).present = false := by
    intro t k hk j hj
    have hval : j.val ≠ k.val := fun h => hj (Fin.ext h)
    simp only [List.mem_cons, Prod.mk.injEq, List.not_mem_nil, or_false] at hk
    unfold hugeTree
    dsimp only
    split
    · omega
    · omega
    · omega
    · decide
  have hcleared : Cleared (hugeTree 0x40000083)
      (Function.update (hugeTree 0x40000083) (frameOf 0x40000, 3) 0x100) := by
    intro slot hpresent
    by_cases hslot : slot = (frameOf 0x40000, 3)
    · rw [hslot, Function.update_self] at hpresent
      cases hpresent
    · exact Function.update_of_ne hslot _ _
  have hlow : LowerIndex 0 := by unfold LowerIndex; decide
  have hnodup : indices.Nodup := List.nodup_finRange 512
  have hlast : (clearLeaf 2 (frameOf 0x40000, 3) (hugeTree 0x40000083) : Ran _ κ ε _) = _ :=
    clearLeaf_clears 1 (by decide) (by decide)
  have hpage : (clearLeaf 3 (frameOf 2, 0) (hugeTree 0x40000083) : Ran _ κ ε _) = _ :=
    (clearLeaf_next 1 (by decide)).trans
      (clearLeaf_alone hnodup (List.mem_finRange 3) hcleared hlast (habsent (by decide)))
  have htable : (clearLeaf 4 (frameOf 1, 0) (hugeTree 0x40000083) : Ran _ κ ε _) = _ :=
    (clearLeaf_next 2 (by decide)).trans
      (clearLeaf_alone hnodup (List.mem_finRange 0) hcleared hpage (habsent (by decide)))
  exact clearLeaf_alone lowerIndices_nodup (mem_lowerIndices.mpr hlow) hcleared htable
    (habsent (by decide))

/-- The huge page is still there afterwards, and what was in it has changed. -/
theorem huge_page_stays :
    let m := hugeTree 0x40000083
    let r : Ran PhysMemory Empty Empty Unit := fixBootloaderPollution (frameOf 1) m
    m.BootTree (frameOf 1) ∧ r.state (frameOf 0x40000, 3) ≠ m (frameOf 0x40000, 3) ∧
      ¬ Cleaned m r.state (frameOf 1) := by
  dsimp only
  rw [show fixBootloaderPollution (frameOf 1) (hugeTree 0x40000083) = _ from hugeTree_run]
  refine ⟨hugeTree_tree (by decide), by decide, fun h => ?_⟩
  have hzero := h.lower .zero (by decide)
  revert hzero
  decide +kernel

/-- With the GLOBAL bit it is gone. -/
theorem global_page_cleaned :
    let m := hugeTree 0x40000183
    let r : Ran PhysMemory Empty Empty Unit := fixBootloaderPollution (frameOf 1) m
    r.outcome = .ok () ∧ Cleaned m r.state (frameOf 1) := by
  have htree : (hugeTree 0x40000183).BootTree (frameOf 1) := hugeTree_tree (by decide)
  have hhuge : (hugeTree 0x40000183).HugeIsGlobal (frameOf 1) := by
    intro q k t _ _ _ _ hhuge
    unfold hugeTree at hhuge ⊢
    split <;> simp_all <;> revert hhuge <;> decide
  exact ⟨(fixBootloaderPollution_cleaned htree).1, (fixBootloaderPollution_cleaned htree).2.1 hhuge⟩

end Idkernel
