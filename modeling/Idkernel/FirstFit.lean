import Idkernel.LinkedList
import Idkernel.Runs

/-!
# Safety of the first-fit heap

The free list is unlinked in its middle while it is walked, and it lives in the
regions it describes. A region is taken off it and split at an aligned address;
what is cut off in front is forgotten, and what is left behind is either empty
or has room for a node.
-/
namespace Idkernel

open Address Objects Runs

open ListNode (SIZE ALIGN)

namespace LinkedListAllocator

/-! ## The free list in memory -/

/-- From this reference on one comes past exactly these regions. -/
def Chain (m : Memory ListNode) : Option Nat → List Block → Prop
  | head, [] => head = none
  | head, (p, n) :: rest => head = some p ∧ ∃ next, get SIZE m p = some ⟨n, next⟩ ∧ Chain m next rest

def InNode (p x : Nat) : Prop := p ≤ x ∧ x < p + SIZE

/-- Two nodes share no byte. -/
def Clear (p q : Nat) : Prop := p + SIZE ≤ q ∨ q + SIZE ≤ p

theorem Clear.symm {p q : Nat} (h : Clear p q) : Clear q p := Or.symm h

theorem size_pos : 0 < SIZE := by decide

section Chains

variable {m m' : Memory ListNode} {head : Option Nat} {bs : List Block} {s : LinkedListAllocator}
  {n : ListNode} {place : Option Nat} {p x : Nat}

theorem Chain.frame (h : Chain m head bs) (hsame : ∀ b ∈ bs, ∀ x, InNode b.1 x → m' x = m x) :
    Chain m' head bs := by
  induction bs generalizing head with
  | nil => exact h
  | cons b bs ih =>
    obtain ⟨hhead, next, hget, hrest⟩ := h
    have hnode : get SIZE m' b.1 = get SIZE m b.1 :=
      get_congr size_pos fun x hx hx' => hsame b (by simp) x ⟨hx, hx'⟩
    exact ⟨hhead, next, by rw [hnode, hget], ih hrest fun c hc => hsame c (by simp [hc])⟩

theorem node_setNode (s : LinkedListAllocator) (n : ListNode) (place : Option Nat) :
    (s.setNode n place).node place = some n := by
  cases place with
  | none => rfl
  | some p => exact get_put size_pos

theorem node_setNode_clear (h : ∀ q, place = some q → Clear q p) :
    (s.setNode n place).node (some p) = s.node (some p) := by
  cases place with
  | none => rfl
  | some q => exact get_put_apart size_pos (h q rfl)

theorem setNode_memory (h : ∀ q, place = some q → ¬ InNode q x) :
    (s.setNode n place).memory x = s.memory x := by
  cases place with
  | none => rfl
  | some q => exact put_outside (h q rfl)

theorem setNode_head (h : place ≠ none) : (s.setNode n place).head = s.head := by
  cases place with
  | none => exact absurd rfl h
  | some q => rfl

theorem setNext_run (next : Option Nat) (h : s.node place = some n) :
    s.setNext place next = some (s.setNode { n with next := next } place) := by
  simp only [setNext, h, Option.bind_eq_bind, Option.bind_some]

theorem Clear.not_inNode {q : Nat} (h : Clear p q) (hx : InNode q x) : ¬ InNode p x := by
  unfold Clear at h
  unfold InNode at *
  omega

end Chains

/-! ## Taking a region off the list -/

/-- The region at `p` has been taken out of the list behind `place`; nothing but the nodes of that
list has been written. -/
structure Unlinked (s s' : LinkedListAllocator) (place : Option Nat) (cur : ListNode) (bs : List Block)
    (taken : Block) (left : List Block) : Prop where
  size : get SIZE s'.memory taken.1 = some ⟨taken.2, none⟩
  chain : ∃ next, s'.node place = some ⟨cur.size, next⟩ ∧ Chain s'.memory next left
  head : place ≠ none → s'.head = s.head
  memory : ∀ x, (∀ q, place = some q → ¬ InNode q x) → (∀ b ∈ bs, ¬ InNode b.1 x) → s'.memory x = s.memory x

section Unlinking

variable {s : LinkedListAllocator} {place : Option Nat} {cur : ListNode} {p n : Nat} {next : Option Nat}
  {rest : List Block}

/-- The first region behind a place is unlinked. -/
theorem unlink_first (hcur : s.node place = some cur) (hnode : s.node (some p) = some ⟨n, next⟩)
    (hrest : Chain s.memory next rest) (hplace : ∀ q, place = some q → Clear q p ∧ ∀ b ∈ rest, Clear q b.1)
    (hclear : ∀ b ∈ rest, Clear p b.1) :
    ∃ s₁ s₂ s₃, s.setNext (some p) none = some s₁ ∧ s₁.setNext place none = some s₂ ∧
      s₂.setNext place next = some s₃ ∧ Unlinked s s₃ place cur ((p, n) :: rest) (p, n) rest := by
  have hcur₁ : (s.setNode ⟨n, none⟩ (some p)).node place = some cur := by
    cases place with
    | none => exact hcur
    | some q =>
      rw [node_setNode_clear, hcur]
      intro q' hq'
      cases hq'
      exact (hplace q rfl).1.symm
  have hfirst := setNext_run none hnode
  have hsecond := setNext_run none hcur₁
  have hthird := setNext_run next (node_setNode (s.setNode ⟨n, none⟩ (some p)) ⟨cur.size, none⟩ place)
  have hmemory : ∀ x, (∀ q, place = some q → ¬ InNode q x) → ¬ InNode p x →
      (((s.setNode ⟨n, none⟩ (some p)).setNode ⟨cur.size, none⟩ place).setNode
        ⟨cur.size, next⟩ place).memory x =
        s.memory x := by
    intro x hx hp
    rw [setNode_memory hx, setNode_memory hx, setNode_memory]
    intro q hq
    cases hq
    exact hp
  refine ⟨_, _, _, hfirst, hsecond, hthird, ?_, ⟨next, node_setNode _ _ _, ?_⟩, ?_, ?_⟩
  · have hclearp : ∀ q, place = some q → Clear q p := fun q hq => (hplace q hq).1
    have hlast := node_setNode_clear (s := (s.setNode ⟨n, none⟩ (some p)).setNode ⟨cur.size, none⟩ place)
      (n := ⟨cur.size, next⟩) hclearp
    have hmiddle := node_setNode_clear (s := s.setNode ⟨n, none⟩ (some p)) (n := ⟨cur.size, none⟩) hclearp
    have hown := node_setNode s ⟨n, none⟩ (some p)
    exact hlast.trans (hmiddle.trans hown)
  · refine hrest.frame fun b hb x hx => hmemory x (fun q hq => ?_) ((hclear b hb).not_inNode hx)
    exact ((hplace q hq).2 b hb).not_inNode hx
  · intro hne
    rw [setNode_head hne, setNode_head hne, setNode_head (by simp)]
  · intro x hx hbs
    exact hmemory x hx (hbs (p, n) (by simp))

/-- Unlinking behind the first region of a list is unlinking in the list. -/
theorem Unlinked.cons {s' : LinkedListAllocator} {taken : Block} {left : List Block}
    (h : Unlinked s s' (some p) ⟨n, next⟩ rest taken left) (hcur : s.node place = some cur)
    (hhead : cur.next = some p)
    (hplace : ∀ q, place = some q → Clear q p ∧ ∀ b ∈ rest, Clear q b.1) :
    Unlinked s s' place cur ((p, n) :: rest) taken ((p, n) :: left) := by
  have hsame : s'.node place = s.node place := by
    cases place with
    | none =>
      have hs := h.head (by simp)
      simp only [node, hs]
    | some q =>
      refine get_congr size_pos fun x hx hx' => h.memory x (fun q' hq' => ?_) fun b hb => ?_
      · cases hq'
        exact (hplace q rfl).1.symm.not_inNode ⟨hx, hx'⟩
      · exact ((hplace q rfl).2 b hb).symm.not_inNode ⟨hx, hx'⟩
  obtain ⟨next', hnode, hchain⟩ := h.chain
  constructor
  · exact h.size
  · exact ⟨some p, by rw [hsame, hcur, ← hhead], rfl, next', hnode, hchain⟩
  · intro _
    exact h.head (by simp)
  · intro x _ hbs
    refine h.memory x (fun q hq => ?_) fun b hb => hbs b (by simp [hb])
    cases hq
    exact hbs (p, n) (by simp)

end Unlinking

/-- An allocation of this size at `a` is aligned and lies in the region, and what is behind it is
nothing or has room for a node. -/
structure FitsAt (region : Block) (size align a : Nat) : Prop where
  aligned : align ∣ a
  start_le : region.1 ≤ a
  rest : a + size = region.1 + region.2 ∨ a + size + SIZE ≤ region.1 + region.2

theorem Room.fitsAt {size align : Nat} {region : Block} (h : Room size align region)
    (halign : ∃ k, align = 2 ^ k) :
    FitsAt region size align (roundUp region.1 align) := by
  obtain ⟨k, rfl⟩ := halign
  obtain ⟨hdvd, hle, _⟩ := roundUp_spec region.1 (Nat.two_pow_pos k)
  exact ⟨hdvd, hle, h⟩

/-- The first region with room is taken, from its first aligned address on. -/
theorem findRegion_spec (size : Nat) {align : Nat} (halign : ∃ k, align = 2 ^ k) {fuel : Nat}
    {place : Option Nat}
    {s : LinkedListAllocator} {cur : ListNode} {bs : List Block} (hcur : s.node place = some cur)
    (hchain : Chain s.memory cur.next bs) (hfuel : bs.length < fuel)
    (hclear : bs.Pairwise fun a b => Clear a.1 b.1) (hplace : ∀ q, place = some q → ∀ b ∈ bs, Clear q b.1) :
    findRegion .naturals size align fuel place s = some (none, s) ∧ (∀ b ∈ bs, ¬ Room size align b) ∨
      ∃ pre taken post s', bs = pre ++ taken :: post ∧ (∀ b ∈ pre, ¬ Room size align b) ∧
        Room size align taken ∧
        findRegion .naturals size align fuel place s = some (some (taken.1, roundUp taken.1 align), s') ∧
        Unlinked s s' place cur bs taken (pre ++ post) := by
  induction bs generalizing fuel place cur with
  | nil =>
    obtain ⟨fuel, rfl⟩ := Nat.exists_eq_succ_of_ne_zero (Nat.ne_of_gt hfuel)
    left
    have hnone : cur.next = none := hchain
    simp [findRegion, hcur, hnone]
  | cons b bs ih =>
    obtain ⟨p, n⟩ := b
    obtain ⟨fuel, rfl⟩ := Nat.exists_eq_succ_of_ne_zero (Nat.ne_of_gt (Nat.zero_lt_of_lt hfuel))
    obtain ⟨hhead, next, hget, hrest⟩ := hchain
    obtain ⟨hfirst, hclear⟩ := List.pairwise_cons.mp hclear
    have hnode : s.node (some p) = some ⟨n, next⟩ := hget
    have hplace' : ∀ q, place = some q → Clear q p ∧ ∀ b ∈ bs, Clear q b.1 := fun q hq =>
      ⟨hplace q hq (p, n) (by simp), fun b hb => hplace q hq b (by simp [hb])⟩
    have hfit := allocFromRegion_naturals p ⟨n, next⟩ size halign
    by_cases hroom : Room size align (p, n)
    · right
      rw [if_pos hroom] at hfit
      obtain ⟨s₁, s₂, s₃, h₁, h₂, h₃, hun⟩ := unlink_first hcur hnode hrest hplace' hfirst
      refine ⟨[], (p, n), bs, s₃, rfl, by simp, hroom, ?_, hun⟩
      simp only [findRegion, hcur, hhead, hnode, hfit, h₁, h₂, h₃, Option.bind_eq_bind, Option.bind_some]
    · rw [if_neg hroom] at hfit
      have hstep : findRegion .naturals size align (fuel + 1) place s =
          findRegion .naturals size align fuel (some p) s := by
        simp only [findRegion, hcur, hhead, hnode, hfit, Option.bind_eq_bind, Option.bind_some]
      rw [hstep]
      have hlen : bs.length < fuel := Nat.lt_of_succ_lt_succ hfuel
      rcases ih hnode hrest hlen hclear (by rintro q hq; cases hq; exact hfirst) with hnone | hfound
      · exact .inl ⟨hnone.1, List.forall_mem_cons.mpr ⟨hroom, hnone.2⟩⟩
      · obtain ⟨pre, taken, post, s', rfl, hbefore, htaken, hrun, hun⟩ := hfound
        exact .inr ⟨(p, n) :: pre, taken, post, s', rfl, List.forall_mem_cons.mpr ⟨hroom, hbefore⟩, htaken,
          hrun, hun.cons hcur hhead hplace'⟩

/-- A region put in front of the list. -/
theorem Chain.push {m : Memory ListNode} {head : Option Nat} {bs : List Block} {p n : Nat} (h : Chain m head bs)
    (hp : p ≠ 0) (hclear : ∀ b ∈ bs, Clear p b.1) :
    Chain (put SIZE m p ⟨n, head⟩) (reference p) ((p, n) :: bs) := by
  have hrest : Chain (put SIZE m p ⟨n, head⟩) head bs :=
    h.frame fun b hb x hx => put_outside ((hclear b hb).not_inNode hx)
  exact ⟨if_neg hp, head, get_put size_pos, hrest⟩

/-! ## Callers -/

/-- What an allocation takes from the heap. -/
def adjusted (layout : Layout) : Nat := ((sizeAlign layout).map Prod.fst).getD 0

def footprint (a : Nat × Layout) : Block := (a.1, adjusted a.2)

theorem adjusted_eq {layout : Layout} {size align : Nat} (h : sizeAlign layout = some (size, align)) :
    adjusted layout = size := by
  simp [adjusted, h]

theorem pairwise_middle {pre post rest : List Block} {b : Block}
    (h : ((pre ++ b :: post) ++ rest).Pairwise Objects.Apart) :
    (∀ c ∈ (pre ++ post) ++ rest, Objects.Apart b c) ∧ ((pre ++ post) ++ rest).Pairwise Objects.Apart := by
  have hperm : ((pre ++ b :: post) ++ rest).Perm (b :: ((pre ++ post) ++ rest)) :=
    List.perm_middle.append_right rest
  exact List.pairwise_cons.mp ((hperm.pairwise_iff Objects.Apart.symm).mp h)

end LinkedListAllocator

open LinkedListAllocator

/-- The heap and the allocations that are live. -/
structure FirstFitWorld where
  heap : LinkedListAllocator
  live : List (Nat × Layout)

inductive FirstFitOp where
  | alloc : Layout → FirstFitOp
  | dealloc : Nat → Layout → FirstFitOp
  | store : Nat → UInt8 → FirstFitOp

namespace FirstFitWorld

/-- Callers free what is live with its own layout, and write to what is live. -/
def Permits (w : FirstFitWorld) : FirstFitOp → Prop
  | .alloc layout => (sizeAlign layout).isSome
  | .dealloc ptr layout => (ptr, layout) ∈ w.live
  | .store x _ => ∃ a ∈ w.live, a.1 ≤ x ∧ x < a.1 + a.2.size

/-- `none` is a failed assertion, a failed `expect`, or a node that has been written over. -/
def step (fuel : Nat) (w : FirstFitWorld) : FirstFitOp → Option FirstFitWorld
  | .alloc layout => (alloc .naturals fuel layout w.heap).map fun r =>
    ⟨r.2, if r.1 = 0 then w.live else (r.1, layout) :: w.live⟩
  | .dealloc ptr layout => (dealloc .naturals ptr layout w.heap).map fun heap =>
        ⟨heap, w.live.erase (ptr, layout)⟩
  | .store x b => some { w with heap := { w.heap with memory := Function.update w.heap.memory x (.byte b) } }

def ready (heapStart heapSize : Nat) (memory : Memory ListNode) : Option FirstFitWorld :=
  (init .naturals heapStart heapSize (new memory)).map fun heap => ⟨heap, []⟩

def Legal (fuel : Nat) (w : FirstFitWorld) (ops : List FirstFitOp) : Prop :=
  ∀ as op bs u, ops = as ++ op :: bs → run (step fuel) w as = some u → u.Permits op

end FirstFitWorld

/-- The regions of the free list and the live allocations share no byte and lie in the heap. -/
structure FirstFitSafe (whole : Block) (w : FirstFitWorld) (free : List Block) : Prop where
  listed : Chain w.heap.memory w.heap.head.next free
  apart : (free ++ w.live.map footprint).Pairwise Objects.Apart
  inside : ∀ b ∈ free ++ w.live.map footprint, Inside b whole
  room : ∀ b ∈ free, ALIGN ∣ b.1 ∧ SIZE ≤ b.2
  placed : ∀ a ∈ w.live, a.2.align ∣ a.1 ∧ a.2.size ≤ adjusted a.2
  sized : ∀ a ∈ w.live, (sizeAlign a.2).isSome ∧ ALIGN ∣ a.1
  nonnull : ∀ b ∈ free ++ w.live.map footprint, b.1 ≠ 0

namespace FirstFitSafe

variable {whole : Block} {w : FirstFitWorld} {free : List Block} {fuel : Nat} {layout : Layout}

theorem clear_of_apart {b c : Block} (h : Objects.Apart b c) (hb : SIZE ≤ b.2) (hc : SIZE ≤ c.2) :
    Clear b.1 c.1 := by
  unfold Objects.Apart at h
  unfold Clear
  omega

theorem free_clear (h : FirstFitSafe whole w free) : free.Pairwise fun a b => Clear a.1 b.1 :=
  (List.pairwise_append.mp h.apart).1.imp_of_mem fun ha hb hab =>
    clear_of_apart hab (h.room _ ha).2 (h.room _ hb).2

/-- The walk is short: every region has room for a node of its own. -/
theorem free_length (h : FirstFitSafe whole w free) : free.length ≤ whole.2 := by
  refine length_le (List.pairwise_append.mp h.apart).1 (fun b hb => h.inside b (List.mem_append_left _ hb))
    fun b hb => ?_
  have hroom := (h.room b hb).2
  exact Nat.lt_of_lt_of_le size_pos hroom

/-- Nothing is left of a region behind `stop`, or one region of its own up to the end. -/
def Behind (region : Block) (stop : Nat) (more : List Block) : Prop :=
  more = [] ∧ stop = region.1 + region.2 ∨
    ∃ excess, more = [(stop, excess)] ∧ SIZE ≤ excess ∧ stop + excess = region.1 + region.2

theorem giveBack_spec {s : LinkedListAllocator} {region : Block} {size align a : Nat} {rest : List Block}
    (hnode : get SIZE s.memory region.1 = some ⟨region.2, none⟩) (hchain : Chain s.memory s.head.next rest)
    (hfits : FitsAt region size align a) (halign : ALIGN ∣ a + size) (hsize : SIZE ≤ size)
    (hclear : ∀ b ∈ rest, Objects.Apart region b ∧ SIZE ≤ b.2) :
    ∃ s' more, giveBack .naturals region.1 (a + size) s = some s' ∧
      Chain s'.memory s'.head.next (more ++ rest) ∧ Behind region (a + size) more := by
  have hend := hfits.rest
  have hle : a + size ≤ region.1 + region.2 := by omega
  have hread : s.node (some region.1) = some ⟨region.2, none⟩ := hnode
  by_cases hexcess : region.1 + region.2 - (a + size) > 0
  · have hroom : SIZE ≤ region.1 + region.2 - (a + size) := by omega
    have hrun : giveBack .naturals region.1 (a + size) s =
        addFreeRegion .naturals (a + size) (region.1 + region.2 - (a + size)) s := by
      simp only [giveBack, hread, ListNode.endAddr, Words.add, Words.sub, Option.bind_eq_bind, Option.bind_some,
        if_pos hle, if_pos hexcess]
    rw [addFreeRegion_naturals halign hroom] at hrun
    have hstart := hfits.start_le
    have hne : a + size ≠ 0 := by
      have hpos := size_pos
      omega
    have hin : Inside (a + size, region.1 + region.2 - (a + size)) region := by
      unfold Inside
      omega
    have hpush := hchain.push (n := region.1 + region.2 - (a + size)) hne fun b hb =>
      clear_of_apart ((hclear b hb).1.inside hin) hroom (hclear b hb).2
    exact ⟨_, [(a + size, region.1 + region.2 - (a + size))], hrun, hpush, .inr ⟨_, rfl, hroom, by omega⟩⟩
  · refine ⟨s, [], ?_, hchain, .inl ⟨rfl, by omega⟩⟩
    simp only [giveBack, hread, ListNode.endAddr, Words.add, Words.sub, Option.bind_eq_bind, Option.bind_some,
      if_pos hle, if_neg hexcess]

/-- Pieces of a region in its place share no byte with anything either. -/
theorem apart_pieces {region : Block} {pieces rest : List Block} (hregion : ∀ c ∈ rest, Objects.Apart region c)
    (hrest : rest.Pairwise Objects.Apart) (hin : ∀ b ∈ pieces, Inside b region)
    (hpieces : pieces.Pairwise Objects.Apart) :
    (pieces ++ rest).Pairwise Objects.Apart :=
  List.pairwise_append.mpr ⟨hpieces, hrest, fun _ hb c hc => (hregion c hc).inside (hin _ hb)⟩

section Behind

variable {region : Block} {more : List Block} {size align a : Nat}

/-- The two pieces of a region that is split. -/
theorem Behind.inside (h : Behind region (a + size) more) (hfits : FitsAt region size align a) :
    ∀ b ∈ more ++ [(a, size)], Inside b region := by
  have hstart := hfits.start_le
  have hrest := hfits.rest
  intro b hb
  unfold Inside
  rcases h with ⟨rfl, _⟩ | ⟨excess, rfl, hexcess, hsum⟩
  · obtain rfl : b = (a, size) := by simpa using hb
    constructor <;> simp only <;> omega
  · have hcases : b = (a + size, excess) ∨ b = (a, size) := by simpa using hb
    rcases hcases with rfl | rfl <;> constructor <;> simp only <;> omega

theorem Behind.apart (h : Behind region (a + size) more) : (more ++ [(a, size)]).Pairwise Objects.Apart := by
  rcases h with ⟨rfl, _⟩ | ⟨excess, rfl, _⟩
  · simp
  · have hap : Objects.Apart (a + size, excess) (a, size) := .inr (Nat.le_refl _)
    simpa using hap

theorem Behind.room (h : Behind region (a + size) more) (haligned : ALIGN ∣ a + size) :
    ∀ b ∈ more, ALIGN ∣ b.1 ∧ SIZE ≤ b.2 := by
  intro b hb
  rcases h with ⟨rfl, _⟩ | ⟨excess, rfl, hexcess, _⟩
  · cases hb
  · obtain rfl : b = (a + size, excess) := by simpa using hb
    exact ⟨haligned, hexcess⟩

end Behind

/-- A free region becomes an allocation and what is left behind it. -/
theorem split_safe {pre post more : List Block} {region : Block} {size align a : Nat}
    {heap : LinkedListAllocator}
    (h : FirstFitSafe whole w (pre ++ region :: post)) (hsize : sizeAlign layout = some (size, align))
    (hfits : FitsAt region size align a) (hlisted : Chain heap.memory heap.head.next (more ++ (pre ++ post)))
    (hmore : Behind region (a + size) more) :
    FirstFitSafe whole ⟨heap, (a, layout) :: w.live⟩ (more ++ (pre ++ post)) := by
  obtain ⟨_, halign, hlalign, hle, hroom, hmult⟩ := sizeAlign_spec hsize
  obtain ⟨hregion, hrest⟩ := pairwise_middle h.apart
  have hres : footprint (a, layout) = (a, size) := by simp [footprint, adjusted_eq hsize]
  have hmem : ∀ b ∈ (pre ++ post) ++ w.live.map footprint,
    b ∈ (pre ++ region :: post) ++ w.live.map footprint := by
    intro b hb
    simp only [List.mem_append, List.mem_cons] at hb ⊢
    tauto
  have hregionmem : region ∈ (pre ++ region :: post) ++ w.live.map footprint := by simp
  have hnonnull := h.nonnull region hregionmem
  have hpieces := hmore.inside hfits
  -- the new pieces come first, then everything that was there before
  have hperm : ((more ++ (pre ++ post)) ++ ((a, layout) :: w.live).map footprint).Perm
      ((more ++ [(a, size)]) ++ ((pre ++ post) ++ w.live.map footprint)) := by
    rw [List.map_cons, hres, List.append_assoc more (pre ++ post), List.append_assoc more [(a, size)]]
    exact List.Perm.append_left more List.perm_middle
  have hall : ∀ P : Block → Prop, (∀ b ∈ more ++ [(a, size)], P b) →
      (∀ b ∈ (pre ++ post) ++ w.live.map footprint, P b) →
      ∀ b ∈ (more ++ (pre ++ post)) ++ ((a, layout) :: w.live).map footprint, P b := by
    intro P hnew hold b hb
    rcases List.mem_append.mp (hperm.mem_iff.mp hb) with hb | hb
    · exact hnew b hb
    · exact hold b hb
  exact
    { listed := hlisted
      apart := by
        exact (hperm.pairwise_iff Objects.Apart.symm).mpr
          (apart_pieces hregion hrest hpieces hmore.apart)
      inside := hall _ (fun b hb => (hpieces b hb).trans (h.inside _ hregionmem)) fun b hb => h.inside b (hmem b hb)
      room := by
        intro b hb
        rcases List.mem_append.mp hb with hb | hb
        · exact hmore.room (Nat.dvd_add (Nat.dvd_trans halign hfits.aligned) hmult) b hb
        · have hb' : b ∈ pre ++ region :: post := by
            simp only [List.mem_append, List.mem_cons] at hb ⊢
            tauto
          exact h.room b hb'
      placed := by
        exact List.forall_mem_cons.mpr
          ⟨⟨Nat.dvd_trans hlalign hfits.aligned, by rw [adjusted_eq hsize]; exact hle⟩, h.placed⟩
      sized := List.forall_mem_cons.mpr ⟨⟨by simp [hsize], Nat.dvd_trans halign hfits.aligned⟩, h.sized⟩
      nonnull := by
        refine hall _ (fun b hb => ?_) fun b hb => h.nonnull b (hmem b hb)
        have hstart := (hpieces b hb).1
        omega }

/-- An allocation finds no region with room and changes nothing, or it splits the first that has. -/
theorem alloc_spec (h : FirstFitSafe whole w free) (hfuel : whole.2 < fuel) {size align : Nat}
    (hsize : sizeAlign layout = some (size, align)) :
    alloc .naturals fuel layout w.heap = some (0, w.heap) ∧ (∀ b ∈ free, ¬ Room size align b) ∨
      ∃ pre region post more heap, free = pre ++ region :: post ∧ (∀ b ∈ pre, ¬ Room size align b) ∧
        Room size align region ∧
        alloc .naturals fuel layout w.heap = some (roundUp region.1 align, heap) ∧
        Behind region (roundUp region.1 align + size) more ∧
        FirstFitSafe whole ⟨heap, (roundUp region.1 align, layout) :: w.live⟩ (more ++ (pre ++ post)) := by
  obtain ⟨hpower, halign, _, _, hroom, hmult⟩ := sizeAlign_spec hsize
  have hlen := h.free_length
  have hcur : w.heap.node none = some w.heap.head := rfl
  have hfind := findRegion_spec size hpower hcur h.listed (Nat.lt_of_le_of_lt hlen hfuel) h.free_clear
    (by simp)
  rcases hfind with ⟨hnone, hfull⟩ | ⟨pre, region, post, s, rfl, hbefore, htaken, hrun, hun⟩
  · left
    refine ⟨?_, hfull⟩
    simp only [alloc, hsize, hnone, Option.bind_eq_bind, Option.bind_some]
  · right
    have hfits := htaken.fitsAt hpower
    obtain ⟨next, hhead, hchain⟩ := hun.chain
    have hnext : s.head.next = next := by rw [Option.some.inj hhead]
    rw [← hnext] at hchain
    have hend : ALIGN ∣ roundUp region.1 align + size := Nat.dvd_add (Nat.dvd_trans halign hfits.aligned) hmult
    have hclear : ∀ b ∈ pre ++ post, Objects.Apart region b ∧ SIZE ≤ b.2 := by
      intro b hb
      have hb' : b ∈ pre ++ region :: post := by
        simp only [List.mem_append, List.mem_cons] at hb ⊢
        tauto
      exact ⟨(pairwise_middle h.apart).1 b (List.mem_append_left _ hb), (h.room b hb').2⟩
    obtain ⟨s', more, hback, hlisted, hmore⟩ := giveBack_spec hun.size hchain hfits hend hroom hclear
    have hsafe := h.split_safe hsize hfits hlisted hmore
    refine ⟨pre, region, post, more, s', rfl, hbefore, htaken, ?_, hmore, hsafe⟩
    simp only [alloc, hsize, hrun, Words.checkedAdd, hback, Option.bind_eq_bind, Option.bind_some]

/-- An allocation finds nothing and changes nothing, or gets a part of a free region. -/
theorem alloc_safe (h : FirstFitSafe whole w free) (hfuel : whole.2 < fuel)
    (hlayout : (sizeAlign layout).isSome) :
    alloc .naturals fuel layout w.heap = some (0, w.heap) ∨
      ∃ ptr heap free', alloc .naturals fuel layout w.heap = some (ptr, heap) ∧ ptr ≠ 0 ∧
        FirstFitSafe whole ⟨heap, (ptr, layout) :: w.live⟩ free' := by
  obtain ⟨⟨size, align⟩, hsize⟩ := Option.isSome_iff_exists.mp hlayout
  rcases h.alloc_spec hfuel hsize with ⟨hnull, _⟩ | ⟨pre, region, post, more, heap, _, _, _, hrun, _, hsafe⟩
  · exact .inl hnull
  · have hne := hsafe.nonnull (footprint (roundUp region.1 align, layout)) (by simp)
    exact .inr ⟨_, heap, _, hrun, hne, hsafe⟩

/-- A freed allocation becomes the first region of the list. -/
theorem dealloc_safe (h : FirstFitSafe whole w free) {ptr : Nat} (hlive : (ptr, layout) ∈ w.live) :
    ∃ heap, dealloc .naturals ptr layout w.heap = some heap ∧
      FirstFitSafe whole ⟨heap, w.live.erase (ptr, layout)⟩ ((ptr, adjusted layout) :: free) := by
  obtain ⟨hlayout, halign⟩ := h.sized _ hlive
  obtain ⟨⟨size, align⟩, hsize⟩ := Option.isSome_iff_exists.mp hlayout
  have hroom : SIZE ≤ size := (sizeAlign_spec hsize).2.2.2.2.1
  have hadj : adjusted layout = size := adjusted_eq hsize
  have hlivemap : (w.live.map footprint).Perm ((ptr, size) :: (w.live.erase (ptr, layout)).map footprint) := by
    have hperm := (List.perm_cons_erase hlive).map footprint
    rwa [List.map_cons, footprint, hadj] at hperm
  have hperm : (((ptr, size) :: free) ++ (w.live.erase (ptr, layout)).map footprint).Perm
      (free ++ w.live.map footprint) :=
    (List.perm_middle.symm.trans (hlivemap.symm.append_left free))
  have hmem : (ptr, size) ∈ free ++ w.live.map footprint := hperm.mem_iff.mp (by simp)
  have hapart : (((ptr, size) :: free) ++ (w.live.erase (ptr, layout)).map footprint).Pairwise Objects.Apart :=
    (hperm.pairwise_iff Objects.Apart.symm).mpr h.apart
  have hclear : ∀ b ∈ free, Clear ptr b.1 := fun b hb =>
    clear_of_apart ((List.pairwise_cons.mp hapart).1 b (List.mem_append_left _ hb)) hroom (h.room b hb).2
  have hne : ptr ≠ 0 := h.nonnull _ hmem
  have hpush := h.listed.push (n := size) hne hclear
  rw [hadj]
  refine ⟨⟨{ w.heap.head with next := reference ptr },
    put SIZE w.heap.memory ptr ⟨size, w.heap.head.next⟩⟩, ?_, ?_⟩
  · simp only [dealloc, hsize, Option.bind_eq_bind, Option.bind_some]
    exact addFreeRegion_naturals halign hroom w.heap
  · exact
      { listed := hpush
        apart := hapart
        inside := fun b hb => h.inside b (hperm.mem_iff.mp hb)
        room := List.forall_mem_cons.mpr ⟨⟨halign, hroom⟩, h.room⟩
        placed := fun a ha => h.placed a (List.mem_of_mem_erase ha)
        sized := fun a ha => h.sized a (List.mem_of_mem_erase ha)
        nonnull := fun b hb => h.nonnull b (hperm.mem_iff.mp hb) }

/-- What callers write does not reach a node. -/
theorem store_safe (h : FirstFitSafe whole w free) {x : Nat} {c : Cell ListNode}
    (hlive : ∃ a ∈ w.live, a.1 ≤ x ∧ x < a.1 + a.2.size) :
    FirstFitSafe whole ⟨{ w.heap with memory := Function.update w.heap.memory x c }, w.live⟩ free := by
  obtain ⟨a, ha, hx, hx'⟩ := hlive
  have hle := (h.placed a ha).2
  have hlisted : Chain (Function.update w.heap.memory x c) w.heap.head.next free := by
    refine h.listed.frame fun b hb y hy => Function.update_of_ne ?_ _ _
    rintro rfl
    have hapart := (List.pairwise_append.mp h.apart).2.2 b hb _ (List.mem_map_of_mem ha)
    have hroom := (h.room b hb).2
    unfold Objects.Apart footprint at hapart
    unfold InNode at hy
    omega
  exact { h with listed := hlisted }

/-- The first region is the heap itself. At the null address nothing is a region. -/
theorem ready_safe {heapStart heapSize : Nat} (memory : Memory ListNode) (hstart : ALIGN ∣ heapStart)
    (hsize : SIZE ≤ heapSize) :
    ∃ w free, FirstFitWorld.ready heapStart heapSize memory = some w ∧
    FirstFitSafe (heapStart, heapSize) w free := by
  have hinit : FirstFitWorld.ready heapStart heapSize memory =
      some ⟨⟨⟨0, reference heapStart⟩, put SIZE memory heapStart ⟨heapSize, none⟩⟩, []⟩ := by
    simp only [FirstFitWorld.ready, init, addFreeRegion_naturals hstart hsize, new, Option.map_some]
  by_cases hzero : heapStart = 0
  · have hlisted : Chain (put SIZE memory heapStart ⟨heapSize, none⟩) (reference heapStart) [] := if_pos hzero
    exact ⟨_, [], hinit,
      { listed := hlisted
        apart := by simp
        inside := by simp
        room := by simp
        placed := by simp
        sized := by simp
        nonnull := by simp }⟩
  · have hnil : Chain memory none [] := rfl
    have hlisted := hnil.push (n := heapSize) hzero (by simp)
    exact ⟨_, [(heapStart, heapSize)], hinit,
      { listed := hlisted
        apart := by simp
        inside := by simp [Inside]
        room := by simp [hstart, hsize]
        placed := by simp
        sized := by simp
        nonnull := by simp [hzero] }⟩

end FirstFitSafe

namespace FirstFitWorld

open FirstFitSafe

variable {whole : Block} {w : FirstFitWorld} {fuel : Nat}

/-- A permitted call never fails, and what it leaves is safe again. -/
theorem step_safe {free : List Block} {op : FirstFitOp} (hfuel : whole.2 < fuel) (h : FirstFitSafe whole w free)
    (hop : w.Permits op) : ∃ u free', step fuel w op = some u ∧ FirstFitSafe whole u free' := by
  cases op with
  | alloc layout =>
    rcases h.alloc_safe hfuel hop with hnull | ⟨ptr, heap, free', hrun, hne, hsafe⟩
    · exact ⟨w, free, by simp [step, hnull], h⟩
    · exact ⟨_, free', by simp [step, hrun, hne], hsafe⟩
  | dealloc ptr layout =>
    obtain ⟨heap, hrun, hsafe⟩ := h.dealloc_safe hop
    exact ⟨_, _, by simp [step, hrun], hsafe⟩
  | store x b => exact ⟨_, free, rfl, h.store_safe hop⟩

theorem run_safe {w₀ : FirstFitWorld} {free : List Block} (hfuel : whole.2 < fuel)
    (h : FirstFitSafe whole w₀ free)
    (ops : List FirstFitOp) (hlegal : Legal fuel w₀ ops) :
    ∃ u free', run (step fuel) w₀ ops = some u ∧ FirstFitSafe whole u free' := by
  induction ops using List.reverseRecOn with
  | nil => exact ⟨w₀, free, rfl, h⟩
  | append_singleton ops op ih =>
    have hfront : Legal fuel w₀ ops := fun as op' bs t hops ht =>
      hlegal as op' (bs ++ [op]) t (by rw [hops]; simp) ht
    obtain ⟨t, free', ht, hsafe⟩ := ih hfront
    have hop : t.Permits op := hlegal ops op [] t (by simp) ht
    obtain ⟨u, free'', hu, hsafe'⟩ := step_safe hfuel hsafe hop
    exact ⟨u, free'', run_snoc.mpr ⟨t, ht, hu⟩, hsafe'⟩

end FirstFitWorld

/-- Along every legal history nothing fails, the free regions and the live allocations share no
byte, and the next allocation is null and changes nothing, or is a new aligned block. -/
theorem first_fit_safe {heapStart heapSize fuel : Nat} (memory : Memory ListNode) (hstart : ALIGN ∣ heapStart)
    (hsize : SIZE ≤ heapSize) (hfuel : heapSize < fuel) :
    ∃ w₀, FirstFitWorld.ready heapStart heapSize memory = some w₀ ∧
      ∀ ops, FirstFitWorld.Legal fuel w₀ ops → ∃ w, run (FirstFitWorld.step fuel) w₀ ops = some w ∧
        (∃ free, FirstFitSafe (heapStart, heapSize) w free) ∧
        ∀ layout, (sizeAlign layout).isSome → ∃ ptr heap,
        alloc .naturals fuel layout w.heap = some (ptr, heap) ∧
          (ptr = 0 → heap = w.heap) ∧
          (ptr ≠ 0 → layout.align ∣ ptr ∧ layout.size ≤ adjusted layout ∧
            ∃ free, FirstFitSafe (heapStart, heapSize) ⟨heap, (ptr, layout) :: w.live⟩ free) := by
  obtain ⟨w₀, free₀, hready, hsafe₀⟩ := FirstFitSafe.ready_safe memory hstart hsize
  refine ⟨w₀, hready, fun ops hlegal => ?_⟩
  obtain ⟨w, free, hrun, hsafe⟩ := FirstFitWorld.run_safe hfuel hsafe₀ ops hlegal
  refine ⟨w, hrun, ⟨free, hsafe⟩, fun layout hlayout => ?_⟩
  rcases hsafe.alloc_safe hfuel hlayout with hnull | ⟨ptr, heap, free', halloc, hne, hsafe'⟩
  · exact ⟨0, w.heap, hnull, fun _ => rfl, fun hne => absurd rfl hne⟩
  · have hplaced := hsafe'.placed (ptr, layout) (by simp)
    exact ⟨ptr, heap, halloc, fun h0 => absurd h0 hne, fun _ => ⟨hplaced.1, hplaced.2, free', hsafe'⟩⟩

def blank : Memory ListNode := fun _ => .byte 0

theorem small_heap_safe :
    ∃ w₀, FirstFitWorld.ready 4096 64 blank = some w₀ ∧
      ∀ ops, FirstFitWorld.Legal 65 w₀ ops → ∃ w, run (FirstFitWorld.step 65) w₀ ops = some w ∧
        (∃ free, FirstFitSafe (4096, 64) w free) ∧
        ∀ layout, (sizeAlign layout).isSome → ∃ ptr heap, alloc .naturals 65 layout w.heap = some (ptr, heap) ∧
          (ptr = 0 → heap = w.heap) ∧
          (ptr ≠ 0 → layout.align ∣ ptr ∧ layout.size ≤ adjusted layout ∧
            ∃ free, FirstFitSafe (4096, 64) ⟨heap, (ptr, layout) :: w.live⟩ free) :=
  first_fit_safe blank (by decide) (by decide) (by decide)

/-- The second block is aligned to its 32 bytes, past the end of the first. -/
example : ((FirstFitWorld.ready 4096 64 blank).bind fun w =>
    (run (FirstFitWorld.step 65) w [.alloc (Layout.block ⟨1, by decide⟩),
    .alloc (Layout.block ⟨2, by decide⟩)]).map fun w =>
      w.live.map Prod.fst) = some [4128, 4096] := by decide +kernel

end Idkernel
