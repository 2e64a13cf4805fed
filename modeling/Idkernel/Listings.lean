import Idkernel.FileReads
import Idkernel.Lines

/-!
# Directory listings

A directory is read as the names of its entries, each followed by a newline. The
handle gives one byte to each call, whatever the buffer, and writes it without
looking at the length of the buffer.
-/
namespace Idkernel

open Address Lines

namespace Listing

def NEWLINE : UInt8 := '\n'.toUInt8

/-- `str::as_bytes` -/
def asBytes (name : Str) : List UInt8 := name.flatMap String.utf8EncodeChar

/-- `str::from_utf8` -/
def fromUtf8 (bytes : List UInt8) : Option Str := bytes.toByteArray.utf8Decode?.map Array.toList

/-- Every name followed by a newline. -/
def listing (names : List Str) : List UInt8 := terminated NEWLINE (names.map asBytes)

def listingLength (names : List Str) : Nat := (names.map fun n => (asBytes n).length + 1).sum

theorem length_listing (names : List Str) : (listing names).length = listingLength names := by
  rw [listing, length_terminated, List.map_map]
  rfl

/-- The iterators yield the names and the newlines in turn. -/
theorem interleaveShortest_flatten (xss : List (List UInt8)) (sep : UInt8) :
    (interleaveShortest xss [sep]).flatten = terminated sep xss := by
  induction xss with
  | nil => rfl
  | cons xs xss ih => rw [interleaveShortest, List.flatten_cons, List.flatten_cons, ih, terminated_cons]; rfl

theorem dirNamesToHandle_eq (names : List Str) : dirNamesToHandle names = .iterator (listing names) :=
  congrArg FileHandle.iterator (interleaveShortest_flatten (names.map asBytes) NEWLINE)

/-! ## Names and their bytes -/

theorem or_ne_newline (x : UInt8) {mask : UInt8} (h : 0x80 ≤ mask.toNat) : x ||| mask ≠ NEWLINE := by
  intro heq
  have hle : mask.toNat ≤ x.toNat ||| mask.toNat := Nat.right_le_or
  have hten : (x ||| mask).toNat = 10 := congrArg UInt8.toNat heq
  rw [UInt8.toNat_or] at hten
  omega

/-- Only the newline has the byte of the newline in its encoding. -/
theorem newline_notin_char {c : Char} (hc : c ≠ '\n') : NEWLINE ∉ String.utf8EncodeChar c := by
  intro hin
  cases Char.utf8Size_eq c with
  | inl hone =>
    have hval : c.val ≤ 127 := Char.utf8Size_eq_one_iff.mp hone
    have hle : c.val.toNat ≤ 127 := UInt32.le_iff_toNat_le.mp hval
    rw [String.utf8EncodeChar_eq_singleton hone, List.mem_singleton] at hin
    have hbyte : 10 = c.val.toNat % 256 := congrArg UInt8.toNat hin
    have hnat : c.val.toNat = '\n'.val.toNat := by
      have hten : '\n'.val.toNat = 10 := rfl
      omega
    exact hc (Char.ext (UInt32.toNat_inj.mp hnat))
  | inr hmore =>
    -- each byte has its highest bit from a mask
    rcases hmore with htwo | hthree | hfour
    · rw [String.utf8EncodeChar_eq_cons_cons htwo] at hin
      simp only [List.mem_cons, List.not_mem_nil, or_false] at hin
      rcases hin with hin | hin <;> exact or_ne_newline _ (by decide) hin.symm
    · rw [String.utf8EncodeChar_eq_cons_cons_cons hthree] at hin
      simp only [List.mem_cons, List.not_mem_nil, or_false] at hin
      rcases hin with hin | hin | hin <;> exact or_ne_newline _ (by decide) hin.symm
    · rw [String.utf8EncodeChar_eq_cons_cons_cons_cons hfour] at hin
      simp only [List.mem_cons, List.not_mem_nil, or_false] at hin
      rcases hin with hin | hin | hin | hin <;> exact or_ne_newline _ (by decide) hin.symm

theorem newline_notin {name : Str} (h : '\n' ∉ name) : NEWLINE ∉ asBytes name := by
  intro hin
  obtain ⟨c, hc, hbyte⟩ := List.mem_flatMap.mp hin
  exact newline_notin_char (fun heq => h (heq ▸ hc)) hbyte

theorem fromUtf8_asBytes (name : Str) : fromUtf8 (asBytes name) = some name := by
  have hdecode : (asBytes name).toByteArray.utf8Decode? = some name.toArray := List.utf8Decode?_utf8Encode
  rw [fromUtf8, hdecode, Option.map_some]

/-- Splitting the whole listing gives the names back. -/
theorem lines_listing {names : List Str} (h : ∀ name ∈ names, '\n' ∉ name) :
    (lines NEWLINE (listing names)).map fromUtf8 = names.map some := by
  have hplain : ∀ xs ∈ names.map asBytes, NEWLINE ∉ xs := by
    intro xs hxs
    obtain ⟨name, hname, rfl⟩ := List.mem_map.mp hxs
    exact newline_notin (h name hname)
  rw [listing, lines_terminated hplain, List.map_map]
  exact List.map_congr_left fun name _ => fromUtf8_asBytes name

/-! ## Calls -/

/-- The bytes a call has returned. -/
def returnedBy : HandleReply → List UInt8
  | .sought _ => []
  | .filled n buffer => buffer.take n

def returned (replies : List (HandleReply × FileHandle)) : List UInt8 :=
  replies.flatMap fun reply => returnedBy reply.1

/-- What the calls answer when each of them gives the next byte. -/
def delivered : List UInt8 → List (List UInt8) → List (HandleReply × FileHandle)
  | _, [] => []
  | rest, buffer :: buffers =>
    (.filled (rest.take 1).length (rest.take 1 ++ buffer.drop (rest.take 1).length), .iterator (rest.drop 1)) ::
      delivered (rest.drop 1) buffers

/-- An empty buffer comes after as many others as there are bytes. -/
def EmptyAfter (left : Nat) (buffers : List (List UInt8)) : Prop :=
  ∀ i, buffers[i]? = some [] → left ≤ ((buffers.take i).filter (· ≠ [])).length

section Calls

variable {ar : Arith} {rest : List UInt8} {buffers : List (List UInt8)}

theorem emptyAfter_cons {left : Nat} {buffer : List UInt8} :
    EmptyAfter left (buffer :: buffers) ↔ (buffer = [] → left = 0) ∧ EmptyAfter (left - 1) buffers := by
  constructor
  · intro h
    refine ⟨fun hempty => ?_, fun i hi => ?_⟩
    · have hzero := h 0 (by rw [hempty]; rfl)
      simpa using hzero
    · have hnext := h (i + 1) hi
      rw [List.take_succ_cons, List.filter_cons] at hnext
      split at hnext
      · rw [List.length_cons] at hnext
        omega
      · omega
  · intro ⟨hfirst, hrest⟩ i hi
    cases i with
    | zero =>
      have hempty : buffer = [] := Option.some.inj hi
      rw [hfirst hempty]
      exact Nat.zero_le _
    | succ i =>
      have hnext := hrest i hi
      rw [List.take_succ_cons, List.filter_cons]
      split
      · rw [List.length_cons]
        omega
      · rename_i hempty
        have hzero := hfirst (by simpa using hempty)
        omega

/-- A byte without room for it is the only thing that stops a call. -/
theorem read_call (ar : Arith) (rest buffer : List UInt8) :
    (FileHandle.iterator rest).call ar (.read buffer) =
      if buffer = [] ∧ rest ≠ [] then none
      else some (.filled (rest.take 1).length (rest.take 1 ++ buffer.drop (rest.take 1).length),
        .iterator (rest.drop 1)) := by
  cases rest with
  | nil => simp [FileHandle.call, FileHandle.read]
  | cons x rest => cases buffer <;> simp [FileHandle.call, FileHandle.read]

theorem calls_delivered (h : EmptyAfter rest.length buffers) :
    (FileHandle.iterator rest).calls ar (buffers.map .read) = some (delivered rest buffers) := by
  induction buffers generalizing rest with
  | nil => rfl
  | cons buffer buffers ih =>
    obtain ⟨hfirst, hrest⟩ := emptyAfter_cons.mp h
    have hroom : ¬ (buffer = [] ∧ rest ≠ []) := fun hno => hno.2 (List.length_eq_zero_iff.mp (hfirst hno.1))
    rw [← List.length_drop] at hrest
    simp only [List.map_cons, FileHandle.calls, read_call, if_neg hroom, ih hrest, Option.bind_eq_bind,
      Option.bind_some, delivered]

theorem emptyAfter_of_calls {replies : List (HandleReply × FileHandle)}
    (h : (FileHandle.iterator rest).calls ar (buffers.map .read) = some replies) :
    EmptyAfter rest.length buffers := by
  induction buffers generalizing rest replies with
  | nil =>
    intro i hi
    cases hi
  | cons buffer buffers ih =>
    by_cases hpanic : buffer = [] ∧ rest ≠ []
    · simp [FileHandle.calls, read_call, hpanic] at h
    · simp only [List.map_cons, FileHandle.calls, read_call, if_neg hpanic, Option.bind_eq_bind,
        Option.bind_some] at h
      obtain ⟨later, hlater, _⟩ := Option.bind_eq_some_iff.mp h
      have hnext := ih hlater
      rw [List.length_drop] at hnext
      refine emptyAfter_cons.mpr ⟨fun hempty => ?_, hnext⟩
      by_contra hsome
      exact hpanic ⟨hempty, fun hnil => hsome (by rw [hnil]; rfl)⟩

theorem length_delivered : (delivered rest buffers).length = buffers.length := by
  induction buffers generalizing rest with
  | nil => rfl
  | cons buffer buffers ih => rw [delivered, List.length_cons, ih, List.length_cons]

/-- The call of a number has the byte of that number. -/
theorem delivered_getElem? {i : Nat} {buffer : List UInt8} {reply : HandleReply × FileHandle}
    (hbuffer : buffers[i]? = some buffer) (hreply : (delivered rest buffers)[i]? = some reply) :
    reply = (.filled ((rest.drop i).take 1).length
      ((rest.drop i).take 1 ++ buffer.drop ((rest.drop i).take 1).length), .iterator (rest.drop (i + 1))) := by
  induction buffers generalizing rest i with
  | nil => cases hbuffer
  | cons first buffers ih =>
    cases i with
    | zero =>
      cases hbuffer
      cases hreply
      rfl
    | succ i =>
      have hnext := ih hbuffer (hreply : (delivered (rest.drop 1) buffers)[i]? = some reply)
      rw [List.drop_drop, List.drop_drop, Nat.add_comm 1 i, Nat.add_comm 1 (i + 1)] at hnext
      exact hnext

theorem returned_take (rest : List UInt8) (buffers : List (List UInt8)) (i : Nat) :
    returned ((delivered rest buffers).take i) = rest.take (min i buffers.length) := by
  induction buffers generalizing rest i with
  | nil => simp [delivered, returned]
  | cons buffer buffers ih =>
    cases i with
    | zero => simp [returned]
    | succ i =>
      have hnext := ih (rest.drop 1) i
      have hmin : min (i + 1) (buffers.length + 1) = 1 + min i buffers.length := by omega
      rw [returned] at hnext
      rw [delivered, List.take_succ_cons, returned, List.flatMap_cons, hnext, returnedBy, List.take_left,
        List.length_cons, hmin, List.take_add]

end Calls

/-! ## Listings -/

/-- What reading a listing in any pieces comes to. -/
structure ReadsListing (names : List Str) (buffers : List (List UInt8))
    (replies : List (HandleReply × FileHandle)) : Prop where
  answered : replies.length = buffers.length
  filled : ∀ (i : Nat) (buffer : List UInt8) (reply : HandleReply × FileHandle),
    buffers[i]? = some buffer → replies[i]? = some reply → ∃ written : List UInt8,
      reply.1 = .filled written.length (written ++ buffer.drop written.length) ∧ written.length ≤ buffer.length
  stops : ∀ (i : Nat) (buffer left : List UInt8) (handle : FileHandle),
    buffers[i]? = some buffer → replies[i]? = some (.filled 0 left, handle) →
      buffer = [] ∨ returned (replies.take i) = listing names
  ordered : ∀ i : Nat, returned (replies.take i) <+: listing names
  kept : ∀ (i : Nat) (reply : HandleReply × FileHandle), replies[i]? = some reply →
    ∃ rest, reply.2 = .iterator rest ∧ returned (replies.take (i + 1)) ++ rest = listing names

theorem delivered_readsListing {names : List Str} {buffers : List (List UInt8)}
    (h : EmptyAfter (listing names).length buffers) :
    ReadsListing names buffers (delivered (listing names) buffers) where
  answered := length_delivered
  filled := by
    intro i buffer reply hbuffer hreply
    rw [delivered_getElem? hbuffer hreply]
    refine ⟨_, rfl, ?_⟩
    rw [List.length_take]
    by_cases hempty : buffer = []
    · subst hempty
      have hleft := h i hbuffer
      have hcount := List.length_filter_le (· ≠ []) (buffers.take i)
      rw [List.length_take] at hcount
      rw [List.length_drop]
      omega
    · have hroom := List.length_pos_iff.mpr hempty
      omega
  stops := by
    intro i buffer left handle hbuffer hreply
    have hzero := congrArg Prod.fst (delivered_getElem? hbuffer hreply)
    injection hzero with hzero
    rw [List.length_take, List.length_drop] at hzero
    have hend : listing names = (listing names).take i := by
      rw [List.take_of_length_le (by omega)]
    obtain ⟨hlt, _⟩ := List.getElem?_eq_some_iff.mp hbuffer
    right
    rw [returned_take, Nat.min_eq_left (Nat.le_of_lt hlt), ← hend]
  ordered := by
    intro i
    rw [returned_take]
    exact List.take_prefix _ _
  kept := by
    intro i reply hreply
    obtain ⟨hlt, _⟩ := List.getElem?_eq_some_iff.mp hreply
    rw [length_delivered] at hlt
    have hbuffer := List.getElem?_eq_getElem hlt
    rw [delivered_getElem? hbuffer hreply, returned_take, Nat.min_eq_left hlt]
    exact ⟨_, rfl, List.take_append_drop _ _⟩

/-- A listing can be read in any pieces exactly when the empty ones come after the end, and has the names as
its lines. -/
theorem listing_read (ar : Arith) (names : List Str) (buffers : List (List UInt8)) :
    ((∃ replies, (dirNamesToHandle names).calls ar (buffers.map .read) = some replies ∧
        ReadsListing names buffers replies) ↔ EmptyAfter (listingLength names) buffers) ∧
      ((∀ name ∈ names, '\n' ∉ name) → (lines NEWLINE (listing names)).map fromUtf8 = names.map some) := by
  refine ⟨?_, lines_listing⟩
  rw [dirNamesToHandle_eq, ← length_listing]
  constructor
  · intro ⟨replies, hcalls, _⟩
    exact emptyAfter_of_calls hcalls
  · intro h
    exact ⟨_, calls_delivered h, delivered_readsListing h⟩

/-- An empty buffer at the start of a listing that is not empty stops the kernel. -/
theorem empty_buffer_panics :
    (dirNamesToHandle ["init".toList]).calls .checked [.read []] = none ∧
      ¬ ∃ replies, (dirNamesToHandle ["init".toList]).calls .checked ([[]].map .read) = some replies ∧
        ReadsListing ["init".toList] [[]] replies := by
  have hpanic : (dirNamesToHandle ["init".toList]).calls .checked [.read []] = none := by decide
  refine ⟨hpanic, ?_⟩
  intro ⟨replies, hcalls, _⟩
  have hnone := hpanic.symm.trans hcalls
  cases hnone

end Listing

end Idkernel
