import Mathlib.Logic.Function.Basic
import Idkernel.PageTables
import Idkernel.Traced

/-!
# The GLOBAL bit of the kernel's half

The walk over the higher half sets one bit of every entry that it comes to. The
bit plays no part in the walk itself, nor in a translation, so the entries that
it comes to are those of the tables as they were.
-/
namespace Idkernel

open Address Traced PhysMemory

variable {ε : Type}

/-- The slots that are written are logged. -/
def putEntry (slot : Slot) (entry : PageTableEntry) : Comp PhysMemory Slot ε Unit := do
  Comp.write fun m => Function.update m slot entry
  Comp.emit slot

def setGlobal (slot : Slot) (entry : PageTableEntry) : Comp PhysMemory Slot ε Unit :=
  if entry.isGlobal then Comp.ret ()
  else putEntry slot (entry.setFlags (entry.flags ||| PageTableFlags.GLOBAL))

/-- Levels are counted from one, the lowest. -/
def globalizeLeaf : Nat → Slot → Comp PhysMemory Slot ε Unit
  | 0, _ => Comp.abort
  | lower + 1, slot => do
    let entry ← Comp.read fun m => m slot
    if ¬ entry.present then return ()
    else do
      setGlobal slot entry
      let entry ← Comp.read fun m => m slot
      if entry.huge then return ()
      else if lower = 0 then return ()
      else Comp.forEach indices fun i => globalizeLeaf lower (entry.target, i)

def higherIndices : List PageTableIndex := indices.drop 256

def globalizeKernelspace (root : PhysFrame) : Comp PhysMemory Slot ε Unit :=
  Comp.forEach higherIndices fun i => globalizeLeaf 4 (root, i)

theorem mem_higherIndices {i : PageTableIndex} : i ∈ higherIndices ↔ HigherIndex i := by
  unfold higherIndices indices HigherIndex
  rw [List.mem_drop_iff_getElem]
  constructor
  · rintro ⟨j, hj, rfl⟩
    simp only [List.getElem_finRange]
    exact Nat.le_add_right 256 j
  · intro hi
    refine ⟨i.val - 256, ?_, ?_⟩
    · rw [List.length_finRange]
      omega
    · apply Fin.ext
      simp only [List.getElem_finRange, Fin.val_cast]
      omega

/-! ## The bit -/

namespace PageTableEntry

def globalized (e : PageTableEntry) : PageTableEntry := e.setFlags (e.flags ||| PageTableFlags.GLOBAL)

theorem or_and (a b c : UInt64) : (a ||| b) &&& c = a &&& c ||| b &&& c := by
  refine UInt64.toBitVec_inj.mp ?_
  rw [UInt64.toBitVec_and, UInt64.toBitVec_or, BitVec.and_or_distrib_right, ← UInt64.toBitVec_and,
    ← UInt64.toBitVec_and, ← UInt64.toBitVec_or]

/-- A mask sees the address, the flags or the new bit. -/
theorem globalized_and (e : PageTableEntry) (mask : UInt64) : e.globalized &&& mask =
    e &&& (ADDRESS &&& mask) ||| (e &&& (PageTableFlags.all &&& mask) ||| PageTableFlags.GLOBAL &&& mask) := by
  rw [globalized, setFlags, flags, or_and, or_and, UInt64.and_assoc, UInt64.and_assoc]

theorem globalized_flags (e : PageTableEntry) : e.globalized.flags = e.flags ||| PageTableFlags.GLOBAL := by
  have haddress : ADDRESS &&& PageTableFlags.all = 0 := by decide
  have hflag : PageTableFlags.GLOBAL &&& PageTableFlags.all = PageTableFlags.GLOBAL := by decide
  rw [flags, globalized_and, haddress, UInt64.and_self, hflag, UInt64.and_zero, UInt64.zero_or]
  rfl

theorem globalized_address (e : PageTableEntry) : e.globalized &&& ADDRESS = e &&& ADDRESS := by
  have hall : PageTableFlags.all &&& ADDRESS = 0 := by decide
  have hflag : PageTableFlags.GLOBAL &&& ADDRESS = 0 := by decide
  rw [globalized_and, UInt64.and_self, hall, hflag, UInt64.and_zero, UInt64.or_zero, UInt64.or_zero]

end PageTableEntry

namespace PageTableFlags

/-- Setting a flag leaves one alone that has no bit in common with it. -/
theorem or_contains {flags flag other : PageTableFlags} (h : flag &&& other = 0) :
    (flags ||| flag).contains other = flags.contains other := by
  rw [contains, contains, PageTableEntry.or_and, h, UInt64.or_zero]

theorem or_contains_self (flags flag : PageTableFlags) : (flags ||| flag).contains flag = true := by
  rw [contains, PageTableEntry.or_and, UInt64.and_self, UInt64.or_comm]
  refine decide_eq_true (UInt64.toBitVec_inj.mp ?_)
  ext i
  simp

theorem or_without (flags flag : PageTableFlags) : (flags ||| flag).without flag = flags.without flag := by
  rw [without, without, PageTableEntry.or_and]
  have hnone : flag &&& ~~~flag = 0 := by simp
  rw [hnone, UInt64.or_zero]

end PageTableFlags

namespace PageTableEntry

@[simp] theorem globalized_present (e : PageTableEntry) : e.globalized.present = e.present := by
  rw [present, present, globalized_flags, PageTableFlags.or_contains (by decide)]

@[simp] theorem globalized_huge (e : PageTableEntry) : e.globalized.huge = e.huge := by
  rw [huge, huge, globalized_flags, PageTableFlags.or_contains (by decide)]

@[simp] theorem globalized_isGlobal (e : PageTableEntry) : e.globalized.isGlobal = true := by
  rw [isGlobal, globalized_flags, PageTableFlags.or_contains_self]

@[simp] theorem globalized_addr (e : PageTableEntry) : e.globalized.addr = e.addr :=
  PhysAddr.ext (congrArg UInt64.toNat e.globalized_address)

@[simp] theorem globalized_target (e : PageTableEntry) : e.globalized.target = e.target := by
  rw [target, target, globalized_addr]

@[simp] theorem globalized_frame (e : PageTableEntry) : e.globalized.frame = e.frame := by
  rw [frame, frame, globalized_present, globalized_huge, globalized_target]

end PageTableEntry

open PageTableEntry

namespace PhysMemory

variable {m m' m'' now : PhysMemory} {root t : PhysFrame}

/-! ## Memory with more GLOBAL bits -/

/-- Entries have only got the bit. -/
def Globalized (m m' : PhysMemory) : Prop := ∀ slot, m' slot = m slot ∨ m' slot = (m slot).globalized

theorem Globalized.refl (m : PhysMemory) : Globalized m m := fun _ => .inl rfl

theorem globalized_twice (e : PageTableEntry) : e.globalized.globalized = e.globalized := by
  have haddress := e.globalized_address
  have hflags : e.globalized.flags ||| PageTableFlags.GLOBAL = e.globalized.flags := by
    rw [globalized_flags, UInt64.or_assoc, UInt64.or_self]
  conv => lhs; rw [globalized, setFlags, haddress, hflags, globalized_flags]
  rfl

theorem Globalized.trans (h : Globalized m m') (h' : Globalized m' m'') : Globalized m m'' := by
  intro slot
  rcases h' slot with hsame | hset
  · rw [hsame]
    exact h slot
  · rcases h slot with hsame | hset'
    · exact .inr (by rw [hset, hsame])
    · exact .inr (by rw [hset, hset', globalized_twice])

theorem Globalized.present (h : Globalized m m') (slot : Slot) : (m' slot).present = (m slot).present := by
  rcases h slot with hs | hs <;> simp [hs]

theorem Globalized.huge (h : Globalized m m') (slot : Slot) : (m' slot).huge = (m slot).huge := by
  rcases h slot with hs | hs <;> simp [hs]

theorem Globalized.addr (h : Globalized m m') (slot : Slot) : (m' slot).addr = (m slot).addr := by
  rcases h slot with hs | hs <;> simp [hs]

theorem Globalized.target (h : Globalized m m') (slot : Slot) : (m' slot).target = (m slot).target := by
  rw [PageTableEntry.target, h.addr slot]
  rfl

theorem Globalized.isGlobal (h : Globalized m m') {slot : Slot} (hg : (m slot).isGlobal = true) :
    (m' slot).isGlobal = true := by
  rcases h slot with hs | hs
  · rw [hs, hg]
  · rw [hs, globalized_isGlobal]

theorem Globalized.otherFlags (h : Globalized m m') (slot : Slot) :
    (m' slot).flags.without PageTableFlags.GLOBAL = (m slot).flags.without PageTableFlags.GLOBAL := by
  rcases h slot with hs | hs
  · rw [hs]
  · rw [hs, globalized_flags, PageTableFlags.or_without]

/-- What a translation says apart from the GLOBAL bits. -/
def apartFromGlobal (r : Nat × List PageTableFlags) : Nat × List PageTableFlags :=
  (r.1, r.2.map fun flags => flags.without PageTableFlags.GLOBAL)

/-- The bit plays no part in a translation. -/
theorem Globalized.translate (h : Globalized m m') (level : Nat) (t : PhysFrame) (v : Nat) :
    (m'.translate level t v).map apartFromGlobal = (m.translate level t v).map apartFromGlobal := by
  induction level generalizing t with
  | zero => rfl
  | succ level ih =>
    have hnext := ih (m (t, indexAt level v)).target
    simp only [PhysMemory.translate, h.present, h.huge, h.addr, h.target]
    have hcons : ∀ (flags : PageTableFlags) (o : Option (Nat × List PageTableFlags)),
        (o.map fun r => (r.1, flags :: r.2)).map apartFromGlobal =
          (o.map apartFromGlobal).map fun r => (r.1, flags.without PageTableFlags.GLOBAL :: r.2) := by
      intro flags o
      cases o <;> rfl
    by_cases hpresent : (m (t, indexAt level v)).present = true
    · by_cases hleaf : level = 0 ∨ level < 3 ∧ (m (t, indexAt level v)).huge = true
      · simp only [hpresent, not_true_eq_false, if_false, if_pos hleaf, Option.map_some, apartFromGlobal,
          List.map_cons, List.map_nil, h.otherFlags]
      · simp only [hpresent, not_true_eq_false, if_false, if_neg hleaf]
        by_cases hhuge : (m (t, indexAt level v)).huge = true
        · rw [if_pos hhuge, if_pos hhuge]
        · rw [if_neg hhuge, if_neg hhuge, hcons, hcons, hnext, h.otherFlags]
    · simp [hpresent]

/-- The same paths of tables. -/
theorem Globalized.follow (h : Globalized m m') (t : PhysFrame) (p : List PageTableIndex) :
    m'.follow t p = m.follow t p := by
  induction p generalizing t with
  | nil => rfl
  | cons i p ih =>
    have hframe : (m' (t, i)).frame = (m (t, i)).frame := by
      rcases h (t, i) with hs | hs <;> simp [hs]
    simp only [PhysMemory.follow, along, hframe]
    cases (m (t, i)).frame with
    | none => rfl
    | some u => exact ih u

/-! ## What the walk leaves -/

/-- Every present entry under an entry of a level has the bit, and so has the entry. -/
def Marked (m : PhysMemory) : Nat → Slot → Prop
  | 0, _ => True
  | level + 1, slot => (m slot).present = true → (m slot).isGlobal = true ∧
      ((m slot).huge = false → ∀ i, Marked m level ((m slot).target, i))

theorem Marked.globalized (h : Globalized m m') {level : Nat} {slot : Slot} (hmarked : m.Marked level slot) :
    m'.Marked level slot := by
  induction level generalizing slot with
  | zero => trivial
  | succ level ih =>
    intro hpresent
    obtain ⟨hglobal, hunder⟩ := hmarked (h.present slot ▸ hpresent)
    refine ⟨h.isGlobal hglobal, fun hhuge i => ?_⟩
    rw [h.target]
    exact ih (hunder (h.huge slot ▸ hhuge) i)

/-- A translation through marked entries meets the bit everywhere. -/
theorem Marked.translate {level v : Nat} {r : Nat × List PageTableFlags}
    (hmarked : m.Marked level (t, indexAt (level - 1) v)) (h : m.translate level t v = some r) :
    ∀ flags ∈ r.2, flags.contains PageTableFlags.GLOBAL = true := by
  induction level generalizing t r with
  | zero => cases h
  | succ level ih =>
    rw [Nat.add_sub_cancel] at hmarked
    rw [PhysMemory.translate] at h
    split at h
    · cases h
    rename_i hpresent
    obtain ⟨hglobal, hunder⟩ := hmarked (by simpa using hpresent)
    split at h
    · obtain rfl := Option.some.inj h
      exact fun flags hf => List.mem_singleton.mp hf ▸ hglobal
    rename_i hinner
    split at h
    · cases h
    rename_i hhuge
    obtain ⟨r', hr', rfl⟩ := Option.map_eq_some_iff.mp h
    have hrest := ih (hunder (by simpa using hhuge) _) hr'
    exact List.forall_mem_cons.mpr ⟨hglobal, hrest⟩

/-- An entry of the higher half, with the number of levels below it. -/
def OfHigher (m : PhysMemory) (root : PhysFrame) (below : Nat) (slot : Slot) : Prop :=
  ∃ q, q.length + below = 3 ∧ (∃ i, (q ++ [slot.2]).head? = some i ∧ HigherIndex i) ∧ m.follow root q = some slot.1

theorem OfHigher.start {i : PageTableIndex} (h : HigherIndex i) : m.OfHigher root 3 (root, i) :=
  ⟨[], rfl, ⟨i, rfl, h⟩, rfl⟩

theorem OfHigher.step {below : Nat} {slot : Slot} (h : m.OfHigher root (below + 1) slot)
    (hframe : (m slot).frame = some t) (i : PageTableIndex) : m.OfHigher root below (t, i) := by
  obtain ⟨q, hlen, ⟨k, hk, hhigh⟩, hq⟩ := h
  refine ⟨q ++ [slot.2], ?_, ⟨k, ?_, hhigh⟩, along_snoc.mpr ⟨slot.1, hq, hframe⟩⟩
  · rw [List.length_append, List.length_singleton]
    omega
  · rw [List.head?_append_of_ne_nil _ (by simp), hk]

/-- An entry of the root's higher half, or of a table under one. -/
def HigherEntry (m : PhysMemory) (root : PhysFrame) (slot : Slot) : Prop :=
  slot.1 = root ∧ HigherIndex slot.2 ∨ m.TableOf root HigherIndex slot.1

theorem OfHigher.entry {below : Nat} {slot : Slot} (h : m.OfHigher root below slot) : m.HigherEntry root slot := by
  obtain ⟨q, hlen, ⟨i, hi, hhigh⟩, hq⟩ := h
  by_cases hnil : q = []
  · subst hnil
    obtain rfl := Option.some.inj hi
    exact .inl ⟨(Option.some.inj hq).symm, hhigh⟩
  · rw [List.head?_append_of_ne_nil _ hnil] at hi
    exact .inr ⟨q, ⟨⟨i, hi, hhigh⟩, by omega⟩, hq⟩

/-- A part of the walk, from a state on the way. -/
structure Globalizes (m : PhysMemory) (root : PhysFrame) (Done : PhysMemory → Prop) (now : PhysMemory)
    (r : Ran PhysMemory Slot ε Unit) : Prop where
  returned : r.outcome = .ok ()
  globalized : Globalized now r.state
  written : ∀ slot ∈ r.events, m.HigherEntry root slot
  changed : ∀ slot, r.state slot ≠ now slot → slot ∈ r.events
  done : Done r.state

theorem Globalizes.nothing {Done : PhysMemory → Prop} (h : Done now) :
    Globalizes m root Done now (Comp.ret () now : Ran _ _ ε _) :=
  ⟨rfl, .refl _, fun _ hin => (List.not_mem_nil hin).elim, fun _ hne => absurd rfl hne, h⟩

theorem Globalizes.bind {Done : PhysMemory → Prop} (Done' : PhysMemory → Prop) {a : Comp PhysMemory Slot ε Unit}
    {b : Unit → Comp PhysMemory Slot ε Unit} (ha : Globalizes m root Done now (a now))
    (hb : Globalizes m root Done' (a now).state (b () (a now).state)) :
    Globalizes m root (fun n => Done' n ∧ ∃ n', Globalized n' n ∧ Done n') now ((a >>= b) now) := by
  rw [Comp.bind_ok ha.returned]
  exact
    { returned := hb.returned
      globalized := ha.globalized.trans hb.globalized
      written := by
        intro slot hin
        exact (List.mem_append.mp hin).elim (ha.written slot) (hb.written slot)
      changed := by
        intro slot hne
        by_cases hsame : (a now).state slot = now slot
        · exact List.mem_append_right _ (hb.changed slot (by rwa [hsame]))
        · exact List.mem_append_left _ (ha.changed slot hsame)
      done := ⟨hb.done, _, hb.globalized, ha.done⟩ }

theorem Globalizes.weaken {Done Done' : PhysMemory → Prop} {r : Ran PhysMemory Slot ε Unit}
    (h : Globalizes m root Done now r) (hd : Globalized now r.state → Done r.state → Done' r.state) :
    Globalizes m root Done' now r :=
  ⟨h.returned, h.globalized, h.written, h.changed, hd h.globalized h.done⟩

theorem forEach_globalizes {l : List PageTableIndex} {f : PageTableIndex → Comp PhysMemory Slot ε Unit}
    {level : Nat} (hnow : Globalized m now)
    (hf : ∀ i ∈ l, ∀ n, Globalized m n → Globalizes m root (fun n => n.Marked level (t, i)) n (f i n)) :
    Globalizes m root (fun n => ∀ i ∈ l, n.Marked level (t, i)) now (Comp.forEach l f now) := by
  induction l generalizing now with
  | nil => exact .nothing (by simp)
  | cons i l ih =>
    have hfirst := hf i (by simp) now hnow
    have hrest := ih (hnow.trans hfirst.globalized) fun j hj => hf j (by simp [hj])
    refine (hfirst.bind _ (b := fun _ => Comp.forEach l f) hrest).weaken ?_
    rintro _ ⟨hl, n, hn, hi⟩
    exact List.forall_mem_cons.mpr ⟨hi.globalized hn, hl⟩

theorem putEntry_globalizes {slot : Slot} (hslot : m.HigherEntry root slot) :
    Globalizes m root (fun n => (n slot).isGlobal = true) now
      (putEntry slot (now slot).globalized now : Ran _ _ ε _) := by
  exact
    { returned := rfl
      globalized := by
        intro x
        by_cases hx : x = slot
        · exact .inr (by rw [hx]; exact Function.update_self _ _ _)
        · exact .inl (Function.update_of_ne hx _ _)
      written := by
        intro x hx
        obtain rfl := List.mem_singleton.mp hx
        exact hslot
      changed := by
        intro x hne
        by_cases hx : x = slot
        · exact List.mem_singleton.mpr hx
        · exact absurd (Function.update_of_ne hx _ _) hne
      done := by
        have hself : (putEntry slot (now slot).globalized now : Ran _ _ ε _).state slot = (now slot).globalized :=
          Function.update_self _ _ _
        rw [hself, globalized_isGlobal] }

theorem setGlobal_globalizes {slot : Slot} (hslot : m.HigherEntry root slot) :
    Globalizes m root (fun n => (n slot).isGlobal = true) now (setGlobal slot (now slot) now : Ran _ _ ε _) := by
  unfold setGlobal
  cases hglobal : (now slot).isGlobal with
  | true => exact .nothing hglobal
  | false => exact putEntry_globalizes hslot

/-- An entry is done when it has the bit and the table that it leads to is done. -/
theorem globalizeLeaf_entry {lower : Nat} {slot : Slot} (hnow : Globalized m now) (hslot : m.HigherEntry root slot)
    (hunder : ∀ n, Globalized m n → (n slot).present = true → (n slot).huge = false → lower ≠ 0 →
      Globalizes m root (fun n' => ∀ i ∈ indices, n'.Marked lower ((n slot).target, i)) n
        (Comp.forEach indices (fun i => globalizeLeaf lower ((n slot).target, i)) n : Ran _ _ ε _)) :
    Globalizes m root (fun n => n.Marked (lower + 1) slot) now (globalizeLeaf (lower + 1) slot now : Ran _ _ ε _) := by
  rw [globalizeLeaf, Comp.read_bind]
  by_cases hpresent : (now slot).present = true
  · rw [if_neg (by simp [hpresent])]
    have hmark : Globalizes m root (fun n => (n slot).isGlobal = true) now
        (setGlobal slot (now slot) now : Ran _ _ ε _) := setGlobal_globalizes hslot
    have hthere := (hmark.globalized.present slot).trans hpresent
    have hrest := hunder _ (hnow.trans hmark.globalized) hthere
    refine (hmark.bind (fun n' => (n' slot).huge = false → ∀ i, n'.Marked lower ((n' slot).target, i)) ?_).weaken ?_
    · rw [Comp.read_bind]
      split
      · next hhuge => exact .nothing fun h => by rw [h] at hhuge; cases hhuge
      · next hhuge =>
        split
        · next hlast => exact .nothing fun _ i => hlast ▸ trivial
        · next hlast =>
          refine (hrest (by simpa using hhuge) hlast).weaken fun hg hall _ i => ?_
          rw [hg.target]
          exact hall i (List.mem_finRange i)
    · rintro hg ⟨hall, n, hn, hglobal⟩ _
      exact ⟨hn.isGlobal hglobal, hall⟩
  · rw [if_pos hpresent]
    exact .nothing fun h => absurd h hpresent

theorem globalizeLeaf_globalizes {below : Nat} {slot : Slot} (hnow : Globalized m now)
    (hslot : m.OfHigher root below slot) :
    Globalizes m root (fun n => n.Marked (below + 1) slot) now (globalizeLeaf (below + 1) slot now : Ran _ _ ε _) := by
  induction below generalizing slot now with
  | zero => exact globalizeLeaf_entry hnow hslot.entry fun _ _ _ _ h => absurd rfl h
  | succ below ih =>
    refine globalizeLeaf_entry hnow hslot.entry fun n hn hpresent hhuge _ => ?_
    have hframe : (m slot).frame = some (n slot).target :=
      frame_eq_some.mpr ⟨hn.present slot ▸ hpresent, hn.huge slot ▸ hhuge, (hn.target slot).symm⟩
    exact forEach_globalizes hn fun i _ n' hn' => ih hn' (hslot.step hframe i)

theorem globalizeKernelspace_globalizes (m : PhysMemory) (root : PhysFrame) :
    Globalizes m root (fun n => ∀ i ∈ higherIndices, n.Marked 4 (root, i)) m
      (globalizeKernelspace root m : Ran _ _ ε _) :=
  forEach_globalizes (.refl m) fun _ hi _ hn => globalizeLeaf_globalizes hn (.start (mem_higherIndices.mp hi))

/-! ## What it is worth -/

/-- No table is in both halves, and nothing leads back to the root. -/
structure HalvesApart (m : PhysMemory) (root : PhysFrame) : Prop where
  apart : ∀ f, m.TableOf root LowerIndex f → ¬ m.TableOf root HigherIndex f
  rootLow : ¬ m.TableOf root LowerIndex root
  rootHigh : ¬ m.TableOf root HigherIndex root

/-- The halves of a tree, where one path leads to each table, are apart. -/
theorem halvesApart_of_paths (h : ∀ p q f, p.length ≤ 3 → q.length ≤ 3 → m.follow root p = some f →
    m.follow root q = some f → p = q) : m.HalvesApart root := by
  have hroot : ∀ Half : PageTableIndex → Prop, ¬ m.TableOf root Half root := by
    rintro Half ⟨q, hq, hqf⟩
    obtain ⟨j, hj, _⟩ := hq.half
    obtain rfl := h [] q root (by simp) hq.length rfl hqf
    cases hj
  refine ⟨?_, hroot _, hroot _⟩
  rintro f ⟨p, hp, hpf⟩ ⟨q, hq, hqf⟩
  obtain rfl := h p q f hp.length hq.length hpf hqf
  obtain ⟨i, hi, hlower⟩ := hp.half
  obtain ⟨j, hj, hhigh⟩ := hq.half
  obtain rfl := Option.some.inj (hi.symm.trans hj)
  exact absurd hlower (Nat.not_lt.mpr hhigh)

/-- The leaves of the higher half have the bit, and otherwise all addresses translate as before. The lower half
is not touched, and only entries of the higher half are written. -/
structure KernelGlobal (m m' : PhysMemory) (root : PhysFrame) (written : List Slot) : Prop where
  leaves : ∀ v : VirtAddr, ¬ v.LowerHalf → ∀ r, m'.translate 4 root v.raw = some r →
    ∃ flags, r.2.getLast? = some flags ∧ flags.contains PageTableFlags.GLOBAL = true
  same : ∀ v : VirtAddr, (m'.translate 4 root v.raw).map apartFromGlobal =
    (m.translate 4 root v.raw).map apartFromGlobal
  lower : ∀ slot, slot.1 = root ∧ LowerIndex slot.2 ∨ m.TableOf root LowerIndex slot.1 → m' slot = m slot
  entries : ∀ slot ∈ written, m.HigherEntry root slot
  untouched : ∀ slot, m' slot ≠ m slot → slot ∈ written

theorem translate_ends {level v : Nat} {r : Nat × List PageTableFlags} (h : m.translate level t v = some r) :
    r.2 ≠ [] := by
  cases level with
  | zero => cases h
  | succ level =>
    rw [PhysMemory.translate] at h
    split at h
    · cases h
    split at h
    · obtain rfl := Option.some.inj h
      exact List.cons_ne_nil _ _
    split at h
    · cases h
    obtain ⟨_, _, rfl⟩ := Option.map_eq_some_iff.mp h
    exact List.cons_ne_nil _ _

/-- An entry of the lower half is none of the higher half. -/
theorem HalvesApart.lower {slot : Slot} (h : m.HalvesApart root)
    (hlow : slot.1 = root ∧ LowerIndex slot.2 ∨ m.TableOf root LowerIndex slot.1) : ¬ m.HigherEntry root slot := by
  intro hhigh
  rcases hlow with ⟨hroot, hlow⟩ | hlow
  · rcases hhigh with ⟨_, hhigh⟩ | hhigh
    · exact absurd hlow (Nat.not_lt.mpr hhigh)
    · exact h.rootHigh (hroot ▸ hhigh)
  · rcases hhigh with ⟨hroot, _⟩ | hhigh
    · exact h.rootLow (hroot ▸ hlow)
    · exact h.apart slot.1 hlow hhigh

theorem higherIndex_indexAt {v : VirtAddr} (h : ¬ v.LowerHalf) : HigherIndex (indexAt 3 v.raw) :=
  Nat.not_lt.mp fun hlow => h ((lowerIndex_indexAt v).mp hlow)

end PhysMemory

/-- Globalizing ends, and it changes the GLOBAL bit of higher-half entries and nothing else. -/
theorem globalizeKernelspace_global (m : PhysMemory) (root : PhysFrame) (hapart : m.HalvesApart root) :
    (globalizeKernelspace root m : Ran _ _ Empty _).outcome = .ok () ∧
      KernelGlobal m (globalizeKernelspace root m : Ran _ _ Empty _).state root
        (globalizeKernelspace root m : Ran _ _ Empty _).events := by
  have hrun := globalizeKernelspace_globalizes (ε := Empty) m root
  refine ⟨hrun.returned, ?_, ?_, ?_, hrun.written, hrun.changed⟩
  · intro v hv r hr
    have hmarked := hrun.done _ (mem_higherIndices.mpr (higherIndex_indexAt hv))
    have hall := hmarked.translate hr
    exact ⟨_, List.getLast?_eq_some_getLast (translate_ends hr), hall _ (List.getLast_mem _)⟩
  · intro v
    exact hrun.globalized.translate 4 root v.raw
  · intro slot hlow
    by_contra hne
    exact hapart.lower hlow (hrun.written slot (hrun.changed slot hne))

/-- A table of the higher half with one huge page, and data in the page that looks like an entry. -/
def kernelHalf : PhysMemory := fun slot =>
  match slot.1.index, slot.2.val with
  | 1, 256 => 0x2003
  | 2, 0 => 0x40000083
  | 0x40000, 3 => 0x3
  | _, _ => 0

theorem kernelHalf_frame {t f : PhysFrame} {k : PageTableIndex} (h : (kernelHalf (t, k)).frame = some f) :
    (t.index, k.val, f.index) ∈ ([(1, 256, 2), (0x40000, 3, 0)] : List (Nat × Nat × Nat)) := by
  unfold kernelHalf at h
  split at h
  · have htarget : ∀ n ∈ (0x2003 : PageTableEntry).frame, n.index = 2 := by decide
    simp_all
  · have hnone : (0x40000083 : PageTableEntry).frame = none := by decide
    simp_all
  · have htarget : ∀ n ∈ (0x3 : PageTableEntry).frame, n.index = 0 := by decide
    simp_all
  · have hnone : (0 : PageTableEntry).frame = none := by decide
    simp_all

theorem kernelHalf_follow {p : List PageTableIndex} {t : PhysFrame}
    (h : kernelHalf.follow (frameOf 1) p = some t) : p = [] ∧ t.index = 1 ∨ p = [256] ∧ t.index = 2 := by
  induction p using List.reverseRecOn generalizing t with
  | nil =>
    cases h
    exact .inl ⟨rfl, by decide⟩
  | append_singleton p k ih =>
    obtain ⟨u, hu, hframe⟩ := along_snoc.mp h
    have hentry := kernelHalf_frame hframe
    simp only [List.mem_cons, Prod.mk.injEq, List.not_mem_nil, or_false] at hentry
    rcases ih hu with ⟨rfl, hindex⟩ | ⟨rfl, hindex⟩
    · have hk : k = 256 := Fin.ext (by change k.val = 256; omega)
      exact .inr ⟨by rw [hk, List.nil_append], by omega⟩
    · omega

theorem kernelHalf_apart : kernelHalf.HalvesApart (frameOf 1) := by
  have hroot : (frameOf 1).index = 1 := by decide
  have htable : ∀ {Half : PageTableIndex → Prop} {f : PhysFrame}, kernelHalf.TableOf (frameOf 1) Half f →
      f.index = 2 ∧ Half 256 := by
    rintro Half f ⟨p, hp, hf⟩
    obtain ⟨i, hi, hhalf⟩ := hp.half
    rcases kernelHalf_follow hf with ⟨rfl, _⟩ | ⟨rfl, hindex⟩
    · cases hi
    · cases hi
      exact ⟨hindex, hhalf⟩
  refine ⟨fun f hlow _ => ?_, fun h => ?_, fun h => ?_⟩
  · exact absurd (htable hlow).2 (by unfold LowerIndex; decide)
  · have hindex := (htable h).1
    omega
  · have hindex := (htable h).1
    omega

theorem globalizeKernelspace_global_half :
    (globalizeKernelspace (frameOf 1) kernelHalf : Ran _ _ Empty _).outcome = .ok () ∧
      KernelGlobal kernelHalf (globalizeKernelspace (frameOf 1) kernelHalf : Ran _ _ Empty _).state (frameOf 1)
        (globalizeKernelspace (frameOf 1) kernelHalf : Ran _ _ Empty _).events :=
  globalizeKernelspace_global kernelHalf (frameOf 1) kernelHalf_apart

end Idkernel
