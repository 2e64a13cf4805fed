import Idkernel.FirstFit

/-!
# What the first-fit heap keeps

Free regions and live allocations together are as long as the heap until an
allocation takes a region that does not begin at a multiple of its alignment.
The bytes in front of it are never given back.
-/
namespace Idkernel

open Address Objects Runs LinkedListAllocator

open ListNode (SIZE ALIGN)

/-! ## Words of 64 bits -/

namespace Words

/-- A number is a word. -/
def Fits : Words → Nat → Prop
  | naturals, _ => True
  | machine _, n => n < 2 ^ 64

/-- The sum that `align_up` begins with can be taken. Words that wrap come back to the right place from the
end of the address space itself. -/
def Rounds : Words → Nat → Nat → Prop
  | naturals, _, _ => True
  | machine .checked, addr, align => addr + align < 2 ^ 64
  | machine .wrapping, addr, align => addr + align ≤ 2 ^ 64

section Sums

variable {ws : Words} {a b n : Nat}

theorem Fits.mono (h : ws.Fits n) (hle : a ≤ n) : ws.Fits a := by
  cases ws with
  | naturals => trivial
  | machine ar => exact Nat.lt_of_le_of_lt hle h

theorem Fits.of_lt (h : n < 2 ^ 64) : ws.Fits n := by
  cases ws with
  | naturals => trivial
  | machine ar => exact h

theorem Fits.rounds (h : ws.Fits (a + b)) : ws.Rounds a b := by
  cases ws with
  | naturals => trivial
  | machine ar => cases ar with
    | checked => exact h
    | wrapping => exact Nat.le_of_lt h

theorem add_fits (h : ws.Fits (a + b)) : ws.add a b = some (a + b) := by
  cases ws with
  | naturals => rfl
  | machine ar => exact ar.add_of_lt h

theorem checkedAdd_fits (h : ws.Fits (a + b)) : ws.checkedAdd a b = some (a + b) := by
  cases ws with
  | naturals => rfl
  | machine ar => exact if_pos h

@[simp] theorem naturals_add (a b : Nat) : naturals.add a b = some (a + b) := rfl

@[simp] theorem naturals_checkedAdd (a b : Nat) : naturals.checkedAdd a b = some (a + b) := rfl

theorem sub_le (h : b ≤ a) : ws.sub a b = some (a - b) := by
  cases ws with
  | naturals => exact if_pos h
  | machine ar => exact if_pos h

end Sums

end Words

namespace LinkedListAllocator

section Machine

variable {ws : Words} {size align : Nat} {s : LinkedListAllocator}

/-- Where the sum can be taken, words round as natural numbers do. -/
theorem alignUp_rounds (addr : Nat) (h : ∃ k, align = 2 ^ k) (hrounds : ws.Rounds addr align) :
    alignUp ws addr align = some (roundUp addr align) := by
  obtain ⟨k, rfl⟩ := h
  have hmask : 1 ≤ 2 ^ k := Nat.two_pow_pos k
  have hlast : 1 ≤ addr + 2 ^ k := by omega
  by_cases hfits : ws.Fits (addr + 2 ^ k)
  · simp only [alignUp, roundUp, Words.add_fits hfits, Words.sub_le hlast, Words.sub_le hmask,
      Option.bind_eq_bind, Option.bind_some, clearBits_two_pow]
  cases ws with
  | naturals => exact absurd trivial hfits
  | machine ar => cases ar with
    | checked => exact absurd hrounds hfits
    | wrapping =>
      have hsum : addr + 2 ^ k = 2 ^ 64 := Nat.le_antisymm hrounds (Nat.le_of_not_lt hfits)
      have hadd : (Words.machine .wrapping).add addr (2 ^ k) = some 0 := by
        simp only [Words.add, Arith.add, hsum, Nat.lt_irrefl, if_false, Nat.mod_self]
      have hsub : (Words.machine .wrapping).sub 0 1 = some (2 ^ 64 - 1) := by decide
      simp only [alignUp, roundUp, hadd, hsub, hsum, Words.sub_le hmask, Option.bind_eq_bind, Option.bind_some,
        clearBits_two_pow]

/-- A sum that leaves the word stops a kernel that checks. -/
theorem alignUp_checked {addr : Nat} (hsum : 2 ^ 64 ≤ addr + align) :
    alignUp (.machine .checked) addr align = none := by
  have hadd : (Words.machine .checked).add addr align = none := if_neg (Nat.not_lt.mpr hsum)
  simp only [alignUp, hadd, Option.bind_eq_bind, Option.bind_none]

/-- A kernel that wraps goes on at the null pointer, in front of the region. -/
theorem alignUp_wrapping {addr : Nat} (hstart : addr < 2 ^ 64) (hpower : ∃ k, align = 2 ^ k)
    (hword : align < 2 ^ 64) (hsum : 2 ^ 64 < addr + align) : alignUp (.machine .wrapping) addr align = some 0 := by
  obtain ⟨k, rfl⟩ := hpower
  obtain ⟨excess, hexcess⟩ := Nat.exists_eq_add_of_lt hsum
  have hlarge : ¬ 2 ^ 64 + excess + 1 < 2 ^ 64 := by omega
  have hwrapped : (2 ^ 64 + excess + 1) % 2 ^ 64 = excess + 1 := by omega
  have hadd : (Words.machine .wrapping).add addr (2 ^ k) = some (excess + 1) := by
    simp only [Words.add, Arith.add, hexcess, if_neg hlarge, hwrapped]
  have hmask : 1 ≤ 2 ^ k := Nat.two_pow_pos k
  have hlast : 1 ≤ excess + 1 := by omega
  have hbelow : excess / 2 ^ k = 0 := Nat.div_eq_of_lt (by omega)
  simp only [alignUp, hadd, Words.sub_le hlast, Words.sub_le hmask, Option.bind_eq_bind, Option.bind_some,
    clearBits_two_pow, Nat.add_sub_cancel, hbelow, Nat.zero_mul]

theorem addFreeRegion_fits {addr : Nat} (hfits : ws.Fits (addr + SIZE)) :
    addFreeRegion ws addr size s = addFreeRegion .naturals addr size s := by
  have hpower : ∃ k, ALIGN = 2 ^ k := ⟨3, rfl⟩
  have hle : addr + ALIGN ≤ addr + SIZE := Nat.add_le_add_left (by decide) addr
  have hup := alignUp_rounds addr hpower (hfits.mono hle).rounds
  simp only [addFreeRegion, hup, alignUp_naturals addr hpower]

/-- A sum that leaves the word is past the end of every region. -/
theorem allocFromRegion_rounds (size : Nat) {p : Nat} {r : ListNode} (h : ∃ k, align = 2 ^ k)
    (hstart : ws.Rounds p align) (hend : ws.Fits (p + r.size)) :
    allocFromRegion ws p r size align = allocFromRegion .naturals p r size align := by
  have hup := alignUp_rounds p h hstart
  by_cases hsum : ws.Fits (roundUp p align + size)
  · simp only [allocFromRegion, hup, alignUp_naturals p h, Words.checkedAdd_fits hsum, ListNode.endAddr,
      Words.add_fits hend, Option.bind_eq_bind, Option.bind_some]
    by_cases hle : roundUp p align + size > p + r.size
    · simp [hle]
    · have hsub : roundUp p align + size ≤ p + r.size := by omega
      simp [hle, Words.sub_le hsub]
  · cases ws with
    | naturals => exact absurd trivial hsum
    | machine ar =>
      have hlarge : roundUp p align + size > p + r.size := Nat.lt_of_lt_of_le hend (Nat.le_of_not_lt hsum)
      have hnone : (Words.machine ar).checkedAdd (roundUp p align) size = none := if_neg hsum
      simp [allocFromRegion, hup, alignUp_naturals p h, hnone, ListNode.endAddr, hlarge]

/-- A region is tried after regions that have no room. -/
def Tried (size align : Nat) (bs : List Block) (b : Block) : Prop :=
  ∃ pre post, bs = pre ++ b :: post ∧ ∀ c ∈ pre, ¬ Room size align c

theorem Tried.first {b : Block} {bs : List Block} : Tried size align (b :: bs) b :=
  ⟨[], bs, rfl, fun _ hc => absurd hc List.not_mem_nil⟩

theorem Tried.later {b c : Block} {bs : List Block} (hb : ¬ Room size align b) (h : Tried size align bs c) :
    Tried size align (b :: bs) c := by
  obtain ⟨pre, post, rfl, hpre⟩ := h
  exact ⟨b :: pre, post, rfl, List.forall_mem_cons.mpr ⟨hb, hpre⟩⟩

theorem Tried.cases {b c : Block} {bs : List Block} (h : Tried size align (b :: bs) c) :
    c = b ∨ ¬ Room size align b ∧ Tried size align bs c := by
  obtain ⟨pre, post, hbs, hpre⟩ := h
  cases pre with
  | nil => exact .inl (List.cons.inj hbs).1.symm
  | cons d pre =>
    obtain ⟨rfl, rfl⟩ := List.cons.inj hbs
    obtain ⟨hb, hpre⟩ := List.forall_mem_cons.mp hpre
    exact .inr ⟨hb, pre, post, rfl, hpre⟩

theorem findRegion_rounds (size : Nat) (halign : ∃ k, align = 2 ^ k) {place : Option Nat} {cur : ListNode}
    {bs : List Block} (hcur : s.node place = some cur) (hchain : Chain s.memory cur.next bs)
    (hends : ∀ b ∈ bs, ws.Fits (b.1 + b.2)) (hrounds : ∀ b, Tried size align bs b → ws.Rounds b.1 align)
    (fuel : Nat) : findRegion ws size align fuel place s = findRegion .naturals size align fuel place s := by
  induction bs generalizing fuel place cur with
  | nil =>
    have hnone : cur.next = none := hchain
    cases fuel with
    | zero => rfl
    | succ fuel => simp only [findRegion, hcur, hnone, Option.bind_eq_bind, Option.bind_some]
  | cons b bs ih =>
    obtain ⟨p, n⟩ := b
    obtain ⟨hhead, next, hget, hrest⟩ := hchain
    obtain ⟨hend, hends⟩ := List.forall_mem_cons.mp hends
    have hnode : s.node (some p) = some ⟨n, next⟩ := hget
    have hsame := allocFromRegion_rounds size (r := ⟨n, next⟩) halign (hrounds _ .first) hend
    have hfit := allocFromRegion_naturals p ⟨n, next⟩ size halign
    cases fuel with
    | zero => rfl
    | succ fuel =>
      by_cases hroom : Room size align (p, n)
      · rw [if_pos hroom] at hfit
        simp only [findRegion, hcur, hhead, hnode, hsame, hfit, Option.bind_eq_bind, Option.bind_some]
      · have hnext := ih hnode hrest hends (fun c hc => hrounds c (hc.later hroom)) fuel
        rw [if_neg hroom] at hfit
        simp only [findRegion, hcur, hhead, hnode, hsame, hfit, hnext, Option.bind_eq_bind, Option.bind_some]

theorem giveBack_fits {region : Block} {stop : Nat}
    (hnode : get SIZE s.memory region.1 = some ⟨region.2, none⟩) (hfits : ws.Fits (region.1 + region.2))
    (hrest : stop = region.1 + region.2 ∨ stop + SIZE ≤ region.1 + region.2) :
    giveBack ws region.1 stop s = giveBack .naturals region.1 stop s := by
  have hread : s.node (some region.1) = some ⟨region.2, none⟩ := hnode
  have hle : stop ≤ region.1 + region.2 := by omega
  simp only [giveBack, hread, ListNode.endAddr, Words.add_fits hfits, Words.naturals_add, Words.sub_le hle,
    Option.bind_eq_bind, Option.bind_some]
  by_cases hexcess : region.1 + region.2 - stop > 0
  · have hroom : stop + SIZE ≤ region.1 + region.2 := by omega
    rw [if_pos hexcess, if_pos hexcess, addFreeRegion_fits (hfits.mono hroom)]
  · rw [if_neg hexcess, if_neg hexcess]

section Adjusted

variable {layout : Layout}

theorem sizeAlign_eq (h : layout.size + max layout.align ALIGN ≤ 2 ^ 63) :
    sizeAlign layout =
      some (max (padToAlign layout.size (max layout.align ALIGN)) SIZE, max layout.align ALIGN) := by
  simp only [sizeAlign, Layout.alignTo, if_pos h, Option.bind_eq_bind, Option.bind_some]

theorem sizeAlign_isSome : (sizeAlign layout).isSome ↔ layout.size + max layout.align ALIGN ≤ 2 ^ 63 := by
  constructor
  · intro hsome
    by_contra hlarge
    simp only [sizeAlign, Layout.alignTo, if_neg hlarge, Option.bind_eq_bind, Option.bind_none] at hsome
    cases hsome
  · intro hfit
    simp [sizeAlign_eq hfit]

theorem sizeAlign_align (h : sizeAlign layout = some (size, align)) : align = max layout.align ALIGN := by
  have hfit : layout.size + max layout.align ALIGN ≤ 2 ^ 63 := sizeAlign_isSome.mp (by simp [h])
  rw [sizeAlign_eq hfit] at h
  injection h with h
  injection h with _ halign
  exact halign.symm

/-- Padding stays below the greatest size, because aligning was checked. -/
theorem sizeAlign_lt (h : sizeAlign layout = some (size, align)) : size < 2 ^ 63 ∧ align ≤ 2 ^ 63 := by
  have hfit : layout.size + max layout.align ALIGN ≤ 2 ^ 63 := sizeAlign_isSome.mp (by simp [h])
  have hpower := (sizeAlign_spec h).1
  have halign := sizeAlign_align h
  have hpos : 0 < align := by
    obtain ⟨k, rfl⟩ := hpower
    exact Nat.two_pow_pos k
  have hround := (roundUp_spec layout.size hpos).2.2
  have hpad : padToAlign layout.size align = roundUp layout.size align := by
    obtain ⟨k, rfl⟩ := hpower
    rw [padToAlign, clearBits_two_pow, roundUp]
  have hsize : size = max (padToAlign layout.size align) SIZE := by
    rw [sizeAlign_eq hfit, ← halign] at h
    injection h with h
    injection h with hsize
    exact hsize.symm
  have hnode : SIZE = 16 := rfl
  rw [hpad] at hsize
  omega

end Adjusted

/-- There is one list of regions from a reference on. -/
theorem Chain.unique {m : Memory ListNode} {head : Option Nat} {as bs : List Block}
    (h : Chain m head as) (h' : Chain m head bs) : as = bs := by
  induction as generalizing head bs with
  | nil =>
    have hnone : head = none := h
    cases bs with
    | nil => rfl
    | cons b bs =>
      have hsome := h'.1
      rw [hnone] at hsome
      cases hsome
  | cons a as ih =>
    obtain ⟨hhead, next, hget, hrest⟩ := h
    cases bs with
    | nil =>
      have hnone : head = none := h'
      rw [hhead] at hnone
      cases hnone
    | cons b bs =>
      obtain ⟨hhead', next', hget', hrest'⟩ := h'
      have hfst : a.1 = b.1 := Option.some.inj (hhead.symm.trans hhead')
      rw [hfst] at hget
      have hnode := Option.some.inj (hget.symm.trans hget')
      simp only [ListNode.mk.injEq] at hnode
      obtain ⟨hsnd, rfl⟩ := hnode
      have htail := ih hrest hrest'
      rw [Prod.ext hfst hsnd, htail]

/-- The end of a list is a list. -/
theorem Chain.behind {m : Memory ListNode} {head : Option Nat} {as bs : List Block} (h : Chain m head (as ++ bs)) :
    ∃ head', Chain m head' bs := by
  induction as generalizing head with
  | nil => exact ⟨head, h⟩
  | cons a as ih =>
    obtain ⟨_, next, _, hrest⟩ := h
    exact ih hrest

/-- A node that is put in front of a list is in nobody's way, or the list has no end. -/
theorem Chain.pushed {m : Memory ListNode} {head : Option Nat} {p n : Nat} {bs : List Block}
    (h : Chain (put SIZE m p ⟨n, head⟩) (some p) bs) : ∃ rest, bs = (p, n) :: rest ∧ Chain m head rest := by
  cases bs with
  | nil => cases h
  | cons b rest =>
    obtain ⟨hhead, next, hget, hrest⟩ := h
    obtain ⟨q, k⟩ := b
    obtain rfl : p = q := Option.some.inj hhead
    obtain ⟨rfl, rfl⟩ := ListNode.mk.inj (Option.some.inj ((get_put size_pos).symm.trans hget))
    have hclear : ∀ c ∈ rest, Clear p c.1 := by
      intro c hc
      by_contra hnear
      obtain ⟨as, cs, rfl⟩ := List.append_of_mem hc
      obtain ⟨_, _, next, hnode, hcs⟩ := hrest.behind
      unfold Clear at hnear
      obtain ⟨_, hsame⟩ := get_put_overlap hnode (by omega) (by omega)
      obtain ⟨_, rfl⟩ := ListNode.mk.inj hsame
      have hloop := congrArg List.length (hcs.unique hrest)
      simp only [List.length_append, List.length_cons] at hloop
      omega
    exact ⟨rest, rfl, hrest.frame fun c hc x hx => (put_outside ((hclear c hc).not_inNode hx)).symm⟩

/-! ## A sum that leaves the word -/

/-- The region is close to the end of the address space. -/
theorem not_rounds {p : Nat} (h : ¬ ws.Rounds p align) : 2 ^ 64 ≤ p + align := by
  cases ws with
  | naturals => exact absurd trivial h
  | machine ar => cases ar with
    | checked => exact Nat.le_of_not_lt h
    | wrapping => exact Nat.le_of_lt (Nat.lt_of_not_le h)

/-- A region from which rounding fails stops the kernel or is entered at the null pointer. -/
theorem allocFromRegion_stray (size : Nat) {p : Nat} {r : ListNode} (halign : ∃ k, align = 2 ^ k)
    (hword : align ≤ 2 ^ 63) (hsize : size < 2 ^ 63) (hnode : SIZE ≤ r.size) (hend : p + r.size < 2 ^ 64)
    (h : ¬ ws.Rounds p align) :
    allocFromRegion ws p r size align = none ∨ allocFromRegion ws p r size align = some (.ok 0) := by
  cases ws with
  | naturals => exact absurd trivial h
  | machine ar => cases ar with
    | checked =>
      left
      simp only [allocFromRegion, alignUp_checked (Nat.le_of_not_lt h), Option.bind_eq_bind, Option.bind_none]
    | wrapping =>
      right
      have hsum : 2 ^ 64 < p + align := Nat.lt_of_not_le h
      have hup : alignUp (.machine .wrapping) p align = some 0 :=
        alignUp_wrapping (by omega) halign (by omega) hsum
      have hadd : (Words.machine .wrapping).checkedAdd 0 size = some (0 + size) :=
        Words.checkedAdd_fits (Words.Fits.of_lt (by omega))
      have hfits : (Words.machine .wrapping).Fits (p + r.size) := hend
      have hsixteen : SIZE = 16 := rfl
      have hle : ¬ 0 + size > p + r.size := by omega
      have hsub : 0 + size ≤ p + r.size := by omega
      have hexcess : ¬ (p + r.size - (0 + size) > 0 ∧ p + r.size - (0 + size) < SIZE) := by omega
      simp only [allocFromRegion, hup, hadd, ListNode.endAddr, Words.add_fits hfits, Words.sub_le hsub, if_neg hle,
        if_neg hexcess, Option.bind_eq_bind, Option.bind_some]

/-- So does the walk that comes to such a region. -/
theorem findRegion_stray {size : Nat} (halign : ∃ k, align = 2 ^ k) (hword : align ≤ 2 ^ 63) (hsize : size < 2 ^ 63)
    {fuel : Nat} {place : Option Nat} {cur : ListNode} {bs : List Block} (hcur : s.node place = some cur)
    (hchain : Chain s.memory cur.next bs) (hfuel : bs.length < fuel)
    (hclear : bs.Pairwise fun a b => Clear a.1 b.1) (hplace : ∀ q, place = some q → ∀ b ∈ bs, Clear q b.1)
    (hroom : ∀ b ∈ bs, SIZE ≤ b.2 ∧ ws.Fits (b.1 + b.2) ∧ b.1 + b.2 < 2 ^ 64)
    (h : ∃ b, Tried size align bs b ∧ ¬ ws.Rounds b.1 align) :
    findRegion ws size align fuel place s = none ∨ ∃ pre taken post s', bs = pre ++ taken :: post ∧
      ¬ ws.Rounds taken.1 align ∧ findRegion ws size align fuel place s = some (some (taken.1, 0), s') ∧
      Unlinked s s' place cur bs taken (pre ++ post) := by
  induction bs generalizing fuel place cur with
  | nil =>
    obtain ⟨b, ⟨pre, post, hnil, _⟩, _⟩ := h
    simp at hnil
  | cons b bs ih =>
    obtain ⟨p, n⟩ := b
    obtain ⟨fuel, rfl⟩ := Nat.exists_eq_succ_of_ne_zero (Nat.ne_of_gt (Nat.zero_lt_of_lt hfuel))
    obtain ⟨hhead, next, hget, hrest⟩ := hchain
    obtain ⟨hfirst, hclear⟩ := List.pairwise_cons.mp hclear
    obtain ⟨⟨hnodeSize, hend, hlast⟩, hroom⟩ := List.forall_mem_cons.mp hroom
    have hnode : s.node (some p) = some ⟨n, next⟩ := hget
    have hplace' : ∀ q, place = some q → Clear q p ∧ ∀ b ∈ bs, Clear q b.1 := fun q hq =>
      ⟨hplace q hq (p, n) (by simp), fun b hb => hplace q hq b (by simp [hb])⟩
    by_cases hrounds : ws.Rounds p align
    · have hsame := allocFromRegion_rounds size (r := ⟨n, next⟩) halign hrounds hend
      obtain ⟨c, hc, hstray⟩ := h
      obtain ⟨hnoroom, hlater⟩ := hc.cases.resolve_left (by rintro rfl; exact hstray hrounds)
      have hfit := allocFromRegion_naturals p ⟨n, next⟩ size halign
      rw [if_neg hnoroom] at hfit
      have hstep : findRegion ws size align (fuel + 1) place s = findRegion ws size align fuel (some p) s := by
        simp only [findRegion, hcur, hhead, hnode, hsame, hfit, Option.bind_eq_bind, Option.bind_some]
      have hlen : bs.length < fuel := Nat.lt_of_succ_lt_succ hfuel
      rw [hstep]
      rcases ih hnode hrest hlen hclear (by rintro q hq; cases hq; exact hfirst) hroom ⟨c, hlater, hstray⟩ with
        hnone | ⟨pre, taken, post, s', rfl, htaken, hrun, hun⟩
      · exact .inl hnone
      · exact .inr ⟨(p, n) :: pre, taken, post, s', rfl, htaken, hrun, hun.cons hcur hhead hplace'⟩
    · rcases allocFromRegion_stray size (r := ⟨n, next⟩) halign hword hsize hnodeSize hlast hrounds with hfit | hfit
      · left
        simp only [findRegion, hcur, hhead, hnode, hfit, Option.bind_eq_bind, Option.bind_some, Option.bind_none]
      · right
        obtain ⟨s₁, s₂, s₃, h₁, h₂, h₃, hun⟩ := unlink_first hcur hnode hrest hplace' hfirst
        refine ⟨[], (p, n), bs, s₃, rfl, hrounds, ?_, hun⟩
        simp only [findRegion, hcur, hhead, hnode, hfit, h₁, h₂, h₃, Option.bind_eq_bind, Option.bind_some]

end Machine

end LinkedListAllocator

namespace FirstFitSafe

variable {ws : Words} {whole : Block} {w : FirstFitWorld} {free : List Block} {fuel : Nat} {layout : Layout}

theorem free_fits (h : FirstFitSafe whole w free) (hend : ws.Fits (whole.1 + whole.2)) :
    ∀ b ∈ free, ws.Fits (b.1 + b.2) := by
  intro b hb
  have hin := h.inside b (List.mem_append_left _ hb)
  unfold Inside at hin
  exact hend.mono (by omega)

theorem alloc_rounds (h : FirstFitSafe whole w free) (hfuel : whole.2 < fuel) {size align : Nat}
    (hsize : sizeAlign layout = some (size, align)) (hend : ws.Fits (whole.1 + whole.2))
    (hrounds : ∀ b, Tried size align free b → ws.Rounds b.1 align) :
    alloc ws fuel layout w.heap = alloc .naturals fuel layout w.heap := by
  have hpower := (sizeAlign_spec hsize).1
  have hcur : w.heap.node none = some w.heap.head := rfl
  have hsame := findRegion_rounds size hpower hcur h.listed (h.free_fits hend) hrounds fuel
  have hfind := findRegion_spec size hpower hcur h.listed (Nat.lt_of_le_of_lt h.free_length hfuel) h.free_clear
    (by simp)
  rcases hfind with ⟨hnone, _⟩ | ⟨pre, region, post, s, rfl, _, htaken, hrun, hun⟩
  · simp only [alloc, hsize, hsame, hnone, Option.bind_eq_bind, Option.bind_some]
  · have hfits := h.free_fits hend region (by simp)
    have hback := giveBack_fits hun.size hfits htaken
    have hstop : roundUp region.1 align + size ≤ region.1 + region.2 := by
      unfold Room at htaken
      omega
    have hadd := Words.checkedAdd_fits (hfits.mono hstop)
    simp only [alloc, hsize, hsame, hrun, hadd, Words.naturals_checkedAdd, hback, Option.bind_eq_bind,
      Option.bind_some]

/-- An allocation that comes to a region from which rounding fails stops the kernel. Otherwise it gives what
is left of the address space behind the null pointer back for the region. -/
theorem alloc_stray (h : FirstFitSafe whole w free) (hfuel : whole.2 < fuel) {size align : Nat}
    (hsize : sizeAlign layout = some (size, align)) (hend : whole.1 + whole.2 < 2 ^ 64)
    (hstray : ∃ b, Tried size align free b ∧ ¬ ws.Rounds b.1 align) :
    alloc ws fuel layout w.heap = none ∨ ∃ pre taken post excess heap, free = pre ++ taken :: post ∧
      taken.2 < excess ∧ alloc ws fuel layout w.heap = some (0, heap) ∧
      ∀ bs, Chain heap.memory heap.head.next bs → bs = (size, excess) :: (pre ++ post) := by
  obtain ⟨hpower, _, _, _, hroom, hdvd⟩ := sizeAlign_spec hsize
  obtain ⟨hword, hpowerWord⟩ := sizeAlign_lt hsize
  have hcur : w.heap.node none = some w.heap.head := rfl
  have hregions : ∀ b ∈ free, SIZE ≤ b.2 ∧ ws.Fits (b.1 + b.2) ∧ b.1 + b.2 < 2 ^ 64 := by
    intro b hb
    have hin := h.inside b (List.mem_append_left _ hb)
    unfold Inside at hin
    exact ⟨(h.room b hb).2, Words.Fits.of_lt (by omega), by omega⟩
  rcases findRegion_stray hpower hpowerWord hword hcur h.listed (Nat.lt_of_le_of_lt h.free_length hfuel)
    h.free_clear (by simp) hregions hstray with hnone | ⟨pre, taken, post, s, rfl, htaken, hrun, hun⟩
  · left
    simp only [alloc, hsize, hnone, Option.bind_eq_bind, Option.bind_some, Option.bind_none]
  right
  obtain ⟨hnode, hfits, hlast⟩ := hregions taken (by simp)
  obtain ⟨next, hplace, hothers⟩ := hun.chain
  have hnext : s.head.next = next := congrArg ListNode.next (Option.some.inj hplace)
  have hsum := not_rounds htaken
  have hsixteen : SIZE = 16 := rfl
  have hread : s.node (some taken.1) = some ⟨taken.2, none⟩ := hun.size
  have hle : size ≤ taken.1 + taken.2 := by omega
  have hexcess : taken.1 + taken.2 - size > 0 := by omega
  have hadd : ws.checkedAdd 0 size = some size := by
    rw [Words.checkedAdd_fits (Words.Fits.of_lt (by omega)), Nat.zero_add]
  have hleft : SIZE ≤ taken.1 + taken.2 - size := by omega
  have hroomy : ws.Fits (size + SIZE) := Words.Fits.of_lt (by omega)
  have hregion := (addFreeRegion_fits hroomy).trans (addFreeRegion_naturals hdvd hleft s)
  have hreference : reference size = some size := if_neg (by omega)
  refine ⟨pre, taken, post, taken.1 + taken.2 - size, ⟨{ s.head with next := reference size },
    put SIZE s.memory size ⟨taken.1 + taken.2 - size, s.head.next⟩⟩, rfl, by omega, ?_, fun bs hbs => ?_⟩
  · simp only [alloc, hsize, hrun, hadd, giveBack, hread, ListNode.endAddr, Words.add_fits hfits, Words.sub_le hle,
      if_pos hexcess, hregion, Option.bind_eq_bind, Option.bind_some]
  · dsimp only at hbs
    rw [hreference] at hbs
    obtain ⟨rest, rfl, hrest⟩ := hbs.pushed
    rw [hnext] at hrest
    rw [hrest.unique hothers]

theorem dealloc_fits (h : FirstFitSafe whole w free) (hfits : ws.Fits (whole.1 + whole.2)) {ptr : Nat}
    (hlive : (ptr, layout) ∈ w.live) :
    dealloc ws ptr layout w.heap = dealloc .naturals ptr layout w.heap := by
  obtain ⟨⟨size, align⟩, hsize⟩ := Option.isSome_iff_exists.mp (h.sized _ hlive).1
  have hroom : SIZE ≤ size := (sizeAlign_spec hsize).2.2.2.2.1
  have hin := h.inside (footprint (ptr, layout)) (List.mem_append_right _ (List.mem_map_of_mem hlive))
  simp only [Inside, footprint, adjusted_eq hsize] at hin
  have hnode : ws.Fits (ptr + SIZE) := hfits.mono (by omega)
  simp only [dealloc, hsize, Option.bind_eq_bind, Option.bind_some, addFreeRegion_fits hnode]

end FirstFitSafe

namespace FirstFitWorld

/-! ## Runs -/

/-- `step` on addresses of either kind. -/
def stepOn (ws : Words) (fuel : Nat) (w : FirstFitWorld) : FirstFitOp → Option FirstFitWorld
  | .alloc layout => (alloc ws fuel layout w.heap).map fun r =>
    ⟨r.2, if r.1 = 0 then w.live else (r.1, layout) :: w.live⟩
  | .dealloc ptr layout => (dealloc ws ptr layout w.heap).map fun heap =>
        ⟨heap, w.live.erase (ptr, layout)⟩
  | .store x b => some { w with heap := { w.heap with memory := Function.update w.heap.memory x (.byte b) } }

def readyOn (ws : Words) (heapStart heapSize : Nat) (memory : Memory ListNode) : Option FirstFitWorld :=
  (init ws heapStart heapSize (new memory)).map fun heap => ⟨heap, []⟩

/-- Callers free what is live with its own layout, write to what is live, and ask for anything. -/
def Uses (w : FirstFitWorld) : FirstFitOp → Prop
  | .alloc _ => True
  | .dealloc ptr layout => (ptr, layout) ∈ w.live
  | .store x _ => ∃ a ∈ w.live, a.1 ≤ x ∧ x < a.1 + a.2.size

def LegalOn (ws : Words) (fuel : Nat) (w : FirstFitWorld) (ops : List FirstFitOp) : Prop :=
  ∀ as op bs u, ops = as ++ op :: bs → run (stepOn ws fuel) w as = some u → u.Uses op

/-- The free regions and the live allocations are as long as the heap, and free regions alone
cover it. -/
def Conserved (whole : Block) (w : FirstFitWorld) : Prop :=
  ∃ free, Chain w.heap.memory w.heap.head.next free ∧
    sizes free + sizes (w.live.map footprint) = whole.2 ∧
    (w.live = [] → ∀ x, whole.1 ≤ x → x < whole.1 + whole.2 → ∃ b ∈ free, b.1 ≤ x ∧ x < b.1 + b.2)

/-- The size and the alignment that a request comes to can be computed. From each free region that is tried for
them the start can be rounded up, and the first region with room begins at a multiple of the alignment. -/
def FirstAligned (ws : Words) (w : FirstFitWorld) (layout : Layout) : Prop :=
  ∃ size align, sizeAlign layout = some (size, align) ∧ ∀ free, Chain w.heap.memory w.heap.head.next free →
    (∀ b, Tried size align free b → ws.Rounds b.1 align) ∧
      ∀ region, (free.find? fun b => Room size align b) = some region → align ∣ region.1

def KeepsAligned (ws : Words) (w : FirstFitWorld) : FirstFitOp → Prop
  | .alloc layout => w.FirstAligned ws layout
  | .dealloc _ _ => True
  | .store _ _ => True

section Steps

variable {ws : Words} {whole : Block} {w : FirstFitWorld} {free : List Block} {fuel : Nat}

theorem conserved_iff (h : FirstFitSafe whole w free) :
    Conserved whole w ↔ sizes (free ++ w.live.map footprint) = whole.2 := by
  rw [sizes_append]
  constructor
  · intro ⟨free', hlisted, hsum, _⟩
    rwa [← hlisted.unique h.listed]
  · intro hsum
    refine ⟨free, h.listed, hsum, fun hlive x hlow hhigh => ?_⟩
    have hapart : free.Pairwise Objects.Apart := (List.pairwise_append.mp h.apart).1
    have hin : ∀ b ∈ free, Inside b whole := fun b hb => h.inside b (List.mem_append_left _ hb)
    have hall : sizes free = whole.2 := by simpa [hlive] using hsum
    exact covers_of_sizes hapart hin hall hlow hhigh

/-- The bytes in front of an allocation are lost, and no others. -/
theorem split_sizes (pre post live : List Block) {more : List Block} {region : Block} {size a : Nat}
    (hle : region.1 ≤ a) (hmore : FirstFitSafe.Behind region (a + size) more) :
    sizes ((more ++ (pre ++ post)) ++ (a, size) :: live) + (a - region.1) =
      sizes ((pre ++ region :: post) ++ live) := by
  rcases hmore with ⟨rfl, hstop⟩ | ⟨excess, rfl, _, hstop⟩
  · simp only [sizes_append, sizes_cons, sizes_nil]
    omega
  · simp only [sizes_append, sizes_cons, sizes_nil]
    omega

theorem firstAligned_iff (h : FirstFitSafe whole w free) {layout : Layout} {size align : Nat}
    (hsize : sizeAlign layout = some (size, align)) :
    w.FirstAligned ws layout ↔ (∀ b, Tried size align free b → ws.Rounds b.1 align) ∧
      ∀ region, (free.find? fun b => Room size align b) = some region → align ∣ region.1 := by
  constructor
  · rintro ⟨size', align', hsize', hall⟩
    cases hsize.symm.trans hsize'
    exact hall free h.listed
  · intro hall
    refine ⟨size, align, hsize, fun free' hlisted => ?_⟩
    rwa [hlisted.unique h.listed]

/-- An allocation from regions that can all be rounded up from succeeds, and it loses the bytes in front of
the aligned start. -/
theorem alloc_sizes (hfuel : whole.2 < fuel) (h : FirstFitSafe whole w free) (hend : ws.Fits (whole.1 + whole.2))
    {layout : Layout} {size align : Nat} (hsize : sizeAlign layout = some (size, align))
    (hrounds : ∀ b, Tried size align free b → ws.Rounds b.1 align) :
    ∃ u free' lost, stepOn ws fuel w (.alloc layout) = some u ∧ FirstFitSafe whole u free' ∧
      sizes (free' ++ u.live.map footprint) + lost = sizes (free ++ w.live.map footprint) ∧
      (lost = 0 ↔ ∀ region, (free.find? fun b => Room size align b) = some region → align ∣ region.1) := by
  obtain ⟨hpower, _⟩ := sizeAlign_spec hsize
  have hsame := h.alloc_rounds hfuel hsize hend hrounds
  rcases h.alloc_spec hfuel hsize with ⟨hnull, hfull⟩ | ⟨pre, region, post, more, heap, rfl, hbefore, hroom,
    hrun, hmore, hsafe⟩
  · have hnone : (free.find? fun b => Room size align b) = none :=
      List.find?_eq_none.mpr fun b hb => by simpa using hfull b hb
    exact ⟨w, free, 0, by simp [stepOn, hsame, hnull], h, rfl, by simp [hnone]⟩
  obtain ⟨k, rfl⟩ := hpower
  have hpos := Nat.two_pow_pos k
  obtain ⟨_, hle, _⟩ := roundUp_spec region.1 hpos
  have hne := hsafe.nonnull (footprint (roundUp region.1 (2 ^ k), layout)) (by simp)
  simp only [footprint] at hne
  have hfind : ((pre ++ region :: post).find? fun b => Room size (2 ^ k) b) = some region :=
    List.find?_eq_some_iff_append.mpr ⟨decide_eq_true hroom, pre, post, rfl, fun b hb => by
      simpa using hbefore b hb⟩
  have hlost : roundUp region.1 (2 ^ k) - region.1 = 0 ↔ 2 ^ k ∣ region.1 := by
    rw [← roundUp_eq_iff hpos]
    omega
  have hsum := split_sizes pre post (w.live.map footprint) hle hmore
  refine ⟨_, _, roundUp region.1 (2 ^ k) - region.1, ?_, hsafe, ?_, ?_⟩
  · simp only [stepOn, hsame, hrun, Option.map_some, if_neg hne]
  · rwa [List.map_cons, footprint, adjusted_eq hsize]
  · rw [hlost, hfind]
    simp

/-- An allocation that fails to round adds more than a region to the free list. -/
theorem alloc_stray_sizes (hfuel : whole.2 < fuel) (h : FirstFitSafe whole w free)
    (hend : whole.1 + whole.2 < 2 ^ 64) {layout : Layout} {size align : Nat}
    (hsize : sizeAlign layout = some (size, align)) (hkept : Conserved whole w)
    (hstray : ∃ b, Tried size align free b ∧ ¬ ws.Rounds b.1 align) {u : FirstFitWorld}
    (hu : stepOn ws fuel w (.alloc layout) = some u) : ¬ Conserved whole u := by
  rw [conserved_iff h] at hkept
  rcases h.alloc_stray hfuel hsize hend hstray with hnone | ⟨pre, taken, post, excess, heap, rfl, hmore, hrun, hlist⟩
  · simp only [stepOn, hnone, Option.map_none, reduceCtorEq] at hu
  · simp only [stepOn, hrun, Option.map_some, if_true, Option.some.injEq] at hu
    subst hu
    rintro ⟨free', hlisted, hsum, _⟩
    rw [hlist free' hlisted] at hsum
    simp only [sizes_append, sizes_cons] at hsum hkept
    omega

/-- A step that is good succeeds, keeps the heap safe and loses nothing. -/
theorem stepOn_good {op : FirstFitOp} (hfuel : whole.2 < fuel) (h : FirstFitSafe whole w free)
    (hend : ws.Fits (whole.1 + whole.2)) (hop : w.Uses op) (hgood : w.KeepsAligned ws op) :
    ∃ u free', stepOn ws fuel w op = some u ∧ FirstFitSafe whole u free' ∧
      sizes (free' ++ u.live.map footprint) = sizes (free ++ w.live.map footprint) := by
  cases op with
  | alloc layout =>
    have hgood : w.FirstAligned ws layout := hgood
    obtain ⟨size, align, hsize, _⟩ := id hgood
    obtain ⟨hrounds, haligned⟩ := (firstAligned_iff h hsize).mp hgood
    obtain ⟨u, free', lost, hu, hsafe, hsum, hlost⟩ := alloc_sizes hfuel h hend hsize hrounds
    rw [hlost.mpr haligned] at hsum
    exact ⟨u, free', hu, hsafe, hsum⟩
  | dealloc ptr layout =>
    obtain ⟨heap, hrun, hsafe⟩ := h.dealloc_safe hop
    have hsame := h.dealloc_fits hend hop
    refine ⟨_, _, by simp [stepOn, hsame, hrun], hsafe, ?_⟩
    have hperm := sizes_perm ((List.perm_cons_erase hop).map footprint)
    simp only [List.map_cons, footprint, sizes_cons] at hperm
    simp only [sizes_append, sizes_cons, hperm]
    omega
  | store x b => exact ⟨_, free, rfl, h.store_safe hop, rfl⟩

/-- And only such a step succeeds without losing or making up bytes. -/
theorem stepOn_iff {op : FirstFitOp} (hfuel : whole.2 < fuel) (h : FirstFitSafe whole w free)
    (hend : whole.1 + whole.2 < 2 ^ 64 ∨ ws = .naturals) (hop : w.Uses op) (hkept : Conserved whole w) :
    (∃ u, stepOn ws fuel w op = some u ∧ Conserved whole u) ↔ w.KeepsAligned ws op := by
  have hfits : ws.Fits (whole.1 + whole.2) := by
    rcases hend with hlt | rfl
    · exact Words.Fits.of_lt hlt
    · trivial
  constructor
  · rintro ⟨u, hu, hconserved⟩
    cases op with
    | dealloc ptr layout => trivial
    | store x b => trivial
    | alloc layout =>
      obtain hnone | ⟨⟨size, align⟩, hsize⟩ := Option.eq_none_or_eq_some (sizeAlign layout)
      · simp only [stepOn, alloc, hnone, Option.bind_eq_bind, Option.bind_none, Option.map_none, reduceCtorEq] at hu
      refine (firstAligned_iff h hsize).mpr ?_
      by_cases hrounds : ∀ b, Tried size align free b → ws.Rounds b.1 align
      · refine ⟨hrounds, ?_⟩
        obtain ⟨u', free', lost, hu', hsafe, hsum, hlost⟩ := alloc_sizes hfuel h hfits hsize hrounds
        obtain rfl : u = u' := Option.some.inj (hu.symm.trans hu')
        rw [conserved_iff h] at hkept
        rw [conserved_iff hsafe] at hconserved
        exact hlost.mp (by omega)
      · push Not at hrounds
        rcases hend with hlt | rfl
        · exact absurd hconserved (alloc_stray_sizes hfuel h hlt hsize hkept hrounds hu)
        · obtain ⟨b, _, hb⟩ := hrounds
          exact absurd trivial hb
  · intro hgood
    obtain ⟨u, free', hu, hsafe, hsum⟩ := stepOn_good hfuel h hfits hop hgood
    rw [conserved_iff h] at hkept
    exact ⟨u, hu, (conserved_iff hsafe).mpr (hsum.trans hkept)⟩

end Steps

theorem readyOn_conserved {ws : Words} {heapStart heapSize : Nat} (memory : Memory ListNode)
    (hnull : heapStart ≠ 0) (hstart : ALIGN ∣ heapStart) (hsize : SIZE ≤ heapSize)
    (hend : ws.Fits (heapStart + heapSize)) :
    ∃ w₀ free, readyOn ws heapStart heapSize memory = some w₀ ∧
      FirstFitSafe (heapStart, heapSize) w₀ free ∧ Conserved (heapStart, heapSize) w₀ := by
  obtain ⟨w₀, free, hready, hsafe⟩ := FirstFitSafe.ready_safe memory hstart hsize
  have hnode : ws.Fits (heapStart + SIZE) := hend.mono (Nat.add_le_add_left hsize heapStart)
  have hsame : readyOn ws heapStart heapSize memory = some w₀ := by
    rw [← hready]
    simp only [readyOn, ready, init, addFreeRegion_fits hnode]
  refine ⟨w₀, free, hsame, hsafe, (conserved_iff hsafe).mpr ?_⟩
  simp only [ready, init, addFreeRegion_naturals hstart hsize, new, Option.map_some, Option.some.injEq]
    at hready
  have hnil : Chain memory none [] := rfl
  have hwhole := hnil.push (n := heapSize) hnull (by simp)
  have hlisted := hsafe.listed
  rw [← hready] at hlisted ⊢
  simp [hlisted.unique hwhole]

end FirstFitWorld

/-- A legal history is carried out with the free regions and the live allocations adding up to the heap in every
state exactly when each request can be adjusted and rounded to, and finds its first region with room aligned. -/
theorem first_fit_conserves_iff (ws : Words) {heapStart heapSize fuel : Nat} (memory : Memory ListNode)
    (hnull : heapStart ≠ 0) (hstart : ALIGN ∣ heapStart) (hsize : SIZE ≤ heapSize)
    (hend : ws.Fits (heapStart + heapSize)) (hfuel : heapSize < fuel) :
    ∃ w₀, FirstFitWorld.readyOn ws heapStart heapSize memory = some w₀ ∧
      ∀ ops, FirstFitWorld.LegalOn ws fuel w₀ ops →
        ((∃ u, run (FirstFitWorld.stepOn ws fuel) w₀ ops = some u) ∧
            (∀ as bs w, ops = as ++ bs → run (FirstFitWorld.stepOn ws fuel) w₀ as = some w →
              FirstFitWorld.Conserved (heapStart, heapSize) w) ↔
          ∀ as op bs w, ops = as ++ op :: bs → run (FirstFitWorld.stepOn ws fuel) w₀ as = some w →
            w.KeepsAligned ws op) := by
  obtain ⟨w₀, free, hready, hsafe, hkept⟩ := FirstFitWorld.readyOn_conserved memory hnull hstart hsize hend
  have hlast : heapStart + heapSize < 2 ^ 64 ∨ ws = .naturals := by
    cases ws with
    | naturals => exact .inr rfl
    | machine ar => exact .inl hend
  refine ⟨w₀, hready, fun ops hlegal => ?_⟩
  refine run_made_iff (J := fun w => ∃ free, FirstFitSafe (heapStart, heapSize) w free) ?_ ?_ hkept ⟨free, hsafe⟩
  · rintro as op bs t hops ht hkept ⟨free, hsafe⟩
    exact FirstFitWorld.stepOn_iff hfuel hsafe hlast (hlegal as op bs t hops ht) hkept
  · rintro as op bs t v hops ht ⟨free, hsafe⟩ hgood hv
    obtain ⟨v', free', hv', hsafe', _⟩ :=
      FirstFitWorld.stepOn_good hfuel hsafe hend (hlegal as op bs t hops ht) hgood
    obtain rfl : v = v' := Option.some.inj (hv.symm.trans hv')
    exact ⟨free', hsafe'⟩

theorem first_fit_conserves_iff_page :
    ∃ w₀, FirstFitWorld.readyOn (.machine .checked) 0xFFFFC00000000000 4096 blank = some w₀ ∧
      ∀ ops, FirstFitWorld.LegalOn (.machine .checked) 4097 w₀ ops →
        ((∃ u, run (FirstFitWorld.stepOn (.machine .checked) 4097) w₀ ops = some u) ∧
            (∀ as bs w, ops = as ++ bs →
              run (FirstFitWorld.stepOn (.machine .checked) 4097) w₀ as = some w →
                FirstFitWorld.Conserved (0xFFFFC00000000000, 4096) w) ↔
          ∀ as op bs w, ops = as ++ op :: bs →
            run (FirstFitWorld.stepOn (.machine .checked) 4097) w₀ as = some w →
              w.KeepsAligned (.machine .checked) op) := by
  have hend : (Words.machine .checked).Fits (0xFFFFC00000000000 + 4096) := by
    unfold Words.Fits
    decide
  exact first_fit_conserves_iff _ blank (by decide) (by decide) (by decide) hend (by decide)

/-! ## The gap in front of an aligned block -/

/-- The regions from a reference on, as far as they can be read. -/
def LinkedListAllocator.freeList (m : Memory ListNode) : Nat → Option Nat → Option (List Block)
  | _, none => some []
  | 0, some _ => none
  | fuel + 1, some p => do
    let n ← get SIZE m p
    let rest ← freeList m fuel n.next
    some ((p, n.size) :: rest)

theorem LinkedListAllocator.freeList_chain {m : Memory ListNode} {fuel : Nat} {head : Option Nat}
    {bs : List Block} (h : freeList m fuel head = some bs) : Chain m head bs := by
  induction fuel generalizing head bs with
  | zero =>
    cases head with
    | none =>
      cases h
      rfl
    | some p => cases h
  | succ fuel ih =>
    cases head with
    | none =>
      cases h
      rfl
    | some p =>
      obtain ⟨n, hget, h⟩ := Option.bind_eq_some_iff.mp h
      obtain ⟨rest, hrest, h⟩ := Option.bind_eq_some_iff.mp h
      cases h
      exact ⟨rfl, n.next, hget, ih hrest⟩

namespace FirstFitWorld

instance (w : FirstFitWorld) : (op : FirstFitOp) → Decidable (w.Uses op)
  | .alloc _ => inferInstanceAs (Decidable True)
  | .dealloc ptr layout => inferInstanceAs (Decidable ((ptr, layout) ∈ w.live))
  | .store x _ => inferInstanceAs (Decidable (∃ a ∈ w.live, a.1 ≤ x ∧ x < a.1 + a.2.size))

/-- The world after operations that are all permitted. -/
def runLegal (ws : Words) (fuel : Nat) : FirstFitWorld → List FirstFitOp → Option FirstFitWorld
  | w, [] => some w
  | w, op :: ops => if w.Uses op then (stepOn ws fuel w op).bind fun u => runLegal ws fuel u ops else none

theorem runLegal_spec {ws : Words} {fuel : Nat} {w u : FirstFitWorld} {ops : List FirstFitOp}
    (h : runLegal ws fuel w ops = some u) : LegalOn ws fuel w ops ∧ run (stepOn ws fuel) w ops = some u := by
  induction ops generalizing w with
  | nil =>
    refine ⟨fun as op bs t hops _ => ?_, h⟩
    simp at hops
  | cons op ops ih =>
    unfold runLegal at h
    split at h
    · rename_i hop
      obtain ⟨v, hv, hrest⟩ := Option.bind_eq_some_iff.mp h
      obtain ⟨hlegal, hrun⟩ := ih hrest
      refine ⟨fun as op' bs t hops ht => ?_, by simp [run, hv, hrun]⟩
      cases as with
      | nil =>
        cases hops
        cases ht
        exact hop
      | cons a as =>
        cases hops
        rw [run, hv] at ht
        exact hlegal as op' bs t rfl ht
    · cases h

end FirstFitWorld

/-- Sixteen bytes and then thirty-two are allocated and freed. The sixteen bytes between the two
blocks are in no region afterwards. -/
theorem aligned_block_leaves_gap :
    ∃ w₀ w, FirstFitWorld.readyOn (.machine .checked) 0xFFFFC00000000000 4096 blank = some w₀ ∧
      FirstFitWorld.LegalOn (.machine .checked) 4097 w₀
        [.alloc (Layout.block ⟨1, by decide⟩), .alloc (Layout.block ⟨2, by decide⟩),
          .dealloc 0xFFFFC00000000000 (Layout.block ⟨1, by decide⟩),
          .dealloc 0xFFFFC00000000020 (Layout.block ⟨2, by decide⟩)] ∧
      run (FirstFitWorld.stepOn (.machine .checked) 4097) w₀
        [.alloc (Layout.block ⟨1, by decide⟩), .alloc (Layout.block ⟨2, by decide⟩),
          .dealloc 0xFFFFC00000000000 (Layout.block ⟨1, by decide⟩),
          .dealloc 0xFFFFC00000000020 (Layout.block ⟨2, by decide⟩)] = some w ∧
      w.live = [] ∧ ¬ FirstFitWorld.Conserved (0xFFFFC00000000000, 4096) w := by
  have hlist : ((FirstFitWorld.readyOn (.machine .checked) 0xFFFFC00000000000 4096 blank).bind fun w₀ =>
      (FirstFitWorld.runLegal (.machine .checked) 4097 w₀
        [.alloc (Layout.block ⟨1, by decide⟩), .alloc (Layout.block ⟨2, by decide⟩),
          .dealloc 0xFFFFC00000000000 (Layout.block ⟨1, by decide⟩),
          .dealloc 0xFFFFC00000000020 (Layout.block ⟨2, by decide⟩)]).bind fun w =>
        (freeList w.heap.memory 4 w.heap.head.next).map fun free => (w.live, free)) =
      some ([], [(0xFFFFC00000000020, 32), (0xFFFFC00000000000, 16), (0xFFFFC00000000040, 4032)]) := by
    decide +kernel
  obtain ⟨w₀, hready, h⟩ := Option.bind_eq_some_iff.mp hlist
  obtain ⟨w, hrun, h⟩ := Option.bind_eq_some_iff.mp h
  obtain ⟨free, hfree, h⟩ := Option.map_eq_some_iff.mp h
  obtain ⟨hlegal, hrun⟩ := FirstFitWorld.runLegal_spec hrun
  simp only [Prod.mk.injEq] at h
  obtain ⟨hlive, rfl⟩ := h
  refine ⟨w₀, w, hready, hlegal, hrun, hlive, ?_⟩
  rintro ⟨free', hlisted, hsum, _⟩
  rw [hlisted.unique (freeList_chain hfree), hlive] at hsum
  simp at hsum

end Idkernel
