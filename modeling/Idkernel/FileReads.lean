import Idkernel.Traced
import Idkernel.Abi
import Idkernel.Files
import Mathlib.Data.Seq.Basic

/-!
# Reading a file piece by piece and as a whole

What a reader expects of an open file is a cursor: a read gives the bytes after
the position and moves it behind them. The handle on an embedded file keeps to
this only while nothing is read, because a read never moves its index and its
slice ends at the length of the read instead of the index plus that length.

The second half is the loop that reads a whole file for `exec`, over any handle
that is a byte stream.
-/
namespace Idkernel

open Address Traced
open Stream' (Seq)

/-! ## Calls on an open file -/

inductive HandleCall where
  | seek (pos : Nat)
  | read (buffer : List UInt8)

inductive HandleReply where
  | sought (r : Except FileHandleError Unit)
  /-- The returned count and the buffer as the call leaves it. -/
  | filled (n : Nat) (buffer : List UInt8)

/-- `none` is a panic. -/
def FileHandle.call (ar : Arith) (h : FileHandle) : HandleCall → Option (HandleReply × FileHandle)
  | .seek pos => match h.seek pos with
    | .ok h' => some (.sought (.ok ()), h')
    | .error e => some (.sought (.error e), h)
  | .read buffer => do
    let (bytes, h') ← h.read ar buffer.length
    some (.filled bytes.length (bytes ++ buffer.drop bytes.length), h')

/-- Each call's reply with the handle after it; `none` if any call panics. -/
def FileHandle.calls (ar : Arith) (h : FileHandle) : List HandleCall → Option (List (HandleReply × FileHandle))
  | [] => some []
  | c :: cs => do
    let (reply, h') ← h.call ar c
    let rest ← h'.calls ar cs
    some ((reply, h') :: rest)

/-! ## The cursor a reader expects -/

structure Cursor where
  content : List UInt8
  pos : Nat

namespace Cursor

def room (c : Cursor) (buffer : List UInt8) : Nat := min buffer.length (c.content.length - c.pos)

def fill (c : Cursor) (buffer : List UInt8) : List UInt8 :=
  (c.content.drop c.pos).take (c.room buffer) ++ buffer.drop (c.room buffer)

def call (c : Cursor) : HandleCall → HandleReply × Cursor
  | .seek pos =>
    if pos ≤ c.content.length then (.sought (.ok ()), ⟨c.content, pos⟩)
    else (.sought (.error .seekOutOfRange), c)
  | .read buffer => (.filled (c.room buffer) (c.fill buffer), ⟨c.content, c.pos + c.room buffer⟩)

def calls (c : Cursor) : List HandleCall → List (HandleReply × Cursor)
  | [] => []
  | x :: xs => c.call x :: (c.call x).2.calls xs

def handle (c : Cursor) : FileHandle := .initFs c.content c.pos

def asHandle (p : HandleReply × Cursor) : HandleReply × FileHandle := (p.1, p.2.handle)

theorem room_le (c : Cursor) (buffer : List UInt8) : c.room buffer ≤ buffer.length := Nat.min_le_left _ _

theorem room_le_left (c : Cursor) (buffer : List UInt8) :
    c.room buffer ≤ c.content.length - c.pos := Nat.min_le_right _ _

theorem taken_length (c : Cursor) (buffer : List UInt8) :
    ((c.content.drop c.pos).take (c.room buffer)).length = c.room buffer := by
  have h := c.room_le_left buffer
  simp only [List.length_take, List.length_drop]
  omega

theorem fill_length (c : Cursor) (buffer : List UInt8) : (c.fill buffer).length = buffer.length := by
  have h := c.room_le buffer
  unfold fill
  rw [List.length_append, taken_length, List.length_drop]
  omega

theorem fill_take (c : Cursor) (buffer : List UInt8) :
    (c.fill buffer).take (c.room buffer) = (c.content.drop c.pos).take (c.room buffer) := by
  unfold fill
  exact List.take_left' (c.taken_length buffer)

end Cursor

/-! ## Where the handle and the cursor agree -/

/-- A call that reads no byte, and that reads it at the start of the file. -/
def ReadsNothing (c : Cursor) : HandleCall → Prop
  | .seek _ => True
  | .read buffer => c.pos = 0 ∧ (buffer = [] ∨ c.content = [])

/-- Every read of the sequence comes while the last accepted `seek` is to the start, and has
nothing to read. -/
def AlwaysReadsNothing (file : List UInt8) (pos : Nat) : List HandleCall → Prop
  | [] => True
  | .seek k :: rest => AlwaysReadsNothing file (if k ≤ file.length then k else pos) rest
  | .read buffer :: rest => (pos = 0 ∧ (buffer = [] ∨ file = [])) ∧ AlwaysReadsNothing file pos rest

theorem seek_call (ar : Arith) (c : Cursor) (k : Nat) :
    c.handle.call ar (.seek k) = some (Cursor.asHandle (c.call (.seek k))) := by
  by_cases h : k ≤ c.content.length
  · have hn : ¬ k > c.content.length := by omega
    simp [FileHandle.call, FileHandle.seek, Cursor.handle, Cursor.call, Cursor.asHandle, h, hn]
  · have hn : k > c.content.length := by omega
    simp [FileHandle.call, FileHandle.seek, Cursor.handle, Cursor.call, Cursor.asHandle, h, hn]

/-- At the start of the file the bytes are right and the index stays where it was. -/
theorem read_start (ar : Arith) (file : List UInt8) (room : Nat) :
    (FileHandle.initFs file 0).read ar room = some (file.take room, .initFs file 0) := by
  have hs : ar.sub file.length 0 = some file.length := by simp [Arith.sub]
  have hm : min room file.length ≤ file.length := Nat.min_le_right _ _
  simp only [FileHandle.read, hs, Option.bind_eq_bind, Option.bind_some]
  rw [if_pos ⟨Nat.zero_le _, hm, Nat.sub_zero _⟩, List.drop_zero, ← List.take_eq_take_min]

/-- Past the start every read panics, whatever the length. -/
theorem read_past_start (ar : Arith) (file : List UInt8) {pos : Nat} (room : Nat) (h : 0 < pos) :
    (FileHandle.initFs file pos).read ar room = none := by
  cases hs : ar.sub file.length pos with
  | none => simp [FileHandle.read, hs]
  | some left =>
    have hn : ¬ (pos ≤ min room left ∧ min room left ≤ file.length ∧ min room left - pos = min room left) := by
      omega
    simp only [FileHandle.read, hs, Option.bind_eq_bind, Option.bind_some]
    rw [if_neg hn]

theorem read_call_iff (ar : Arith) (c : Cursor) (buffer : List UInt8) :
    c.handle.call ar (.read buffer) = some (Cursor.asHandle (c.call (.read buffer))) ↔
      ReadsNothing c (.read buffer) := by
  obtain ⟨file, pos⟩ := c
  cases pos with
  | succ pos =>
    have hr := read_past_start ar file buffer.length (Nat.succ_pos pos)
    simp [FileHandle.call, Cursor.handle, ReadsNothing, hr]
  | zero =>
    have hr := read_start ar file buffer.length
    have hroom : Cursor.room ⟨file, 0⟩ buffer = min buffer.length file.length := rfl
    have hmin : min buffer.length file.length = 0 ↔ buffer = [] ∨ file = [] := by
      rw [← List.length_eq_zero_iff, ← List.length_eq_zero_iff]
      omega
    simp only [FileHandle.call, Cursor.handle, Cursor.call, Cursor.asHandle, hr, Option.bind_eq_bind,
      Option.bind_some, Option.some.injEq, Prod.mk.injEq, FileHandle.initFs.injEq, true_and, hroom,
      ReadsNothing, Nat.zero_add, ← hmin]
    constructor
    · intro h
      exact h.2.symm
    · intro h
      rw [h]
      rcases hmin.mp h with h' | h' <;> simp [h', Cursor.fill, Cursor.room]

/-- One call of the handle is one call of the cursor exactly when it reads nothing. -/
theorem call_iff (ar : Arith) (c : Cursor) (x : HandleCall) :
    c.handle.call ar x = some (Cursor.asHandle (c.call x)) ↔ ReadsNothing c x := by
  cases x with
  | seek k => exact iff_of_true (seek_call ar c k) trivial
  | read buffer => exact read_call_iff ar c buffer

theorem alwaysReadsNothing_cons (file : List UInt8) (pos : Nat) (x : HandleCall) (xs : List HandleCall) :
    AlwaysReadsNothing file pos (x :: xs) ↔
      ReadsNothing ⟨file, pos⟩ x ∧ AlwaysReadsNothing file (Cursor.call ⟨file, pos⟩ x).2.pos xs := by
  cases x with
  | seek k => by_cases h : k ≤ file.length <;> simp [AlwaysReadsNothing, ReadsNothing, Cursor.call, h]
  | read buffer =>
    simp only [AlwaysReadsNothing, ReadsNothing, Cursor.call, Cursor.room]
    constructor
    · intro h
      have hz : min buffer.length (file.length - pos) = 0 := by
        rcases h.1.2 with h' | h' <;> simp [h']
      simpa [hz] using h
    · intro h
      have hz : min buffer.length (file.length - pos) = 0 := by
        rcases h.1.2 with h' | h' <;> simp [h']
      simpa [hz] using h

theorem call_content (c : Cursor) (x : HandleCall) : (c.call x).2.content = c.content := by
  cases x with
  | seek k => by_cases h : k ≤ c.content.length <;> simp [Cursor.call, h]
  | read buffer => rfl

/-- A history of a file handle is the cursor's history exactly when nothing is read in it. -/
theorem initFs_calls (ar : Arith) (file : List UInt8) (pos : Nat) (xs : List HandleCall) :
    (FileHandle.initFs file pos).calls ar xs =
        some ((Cursor.calls ⟨file, pos⟩ xs).map Cursor.asHandle) ↔
      AlwaysReadsNothing file pos xs := by
  induction xs generalizing pos with
  | nil => simp [FileHandle.calls, Cursor.calls, AlwaysReadsNothing]
  | cons x xs ih =>
    have hstep := call_iff ar ⟨file, pos⟩ x
    have hc := call_content ⟨file, pos⟩ x
    rw [alwaysReadsNothing_cons, ← hstep, ← ih]
    generalize hq : Cursor.call ⟨file, pos⟩ x = q at hc
    obtain ⟨reply, content, pos'⟩ := q
    cases hc
    simp only [FileHandle.calls, Cursor.calls, hq, Cursor.handle, Cursor.asHandle, List.map_cons,
      Option.bind_eq_bind]
    cases hcall : (FileHandle.initFs file pos).call ar x with
    | none => simp
    | some p =>
      simp only [Option.bind_some, Option.some.injEq]
      constructor
      · intro h
        cases hrest : p.2.calls ar xs with
        | none => rw [hrest] at h; cases h
        | some rest =>
          rw [hrest] at h
          simp only [Option.bind_some, Option.some.injEq, List.cons.injEq] at h
          have hp : p = (reply, FileHandle.initFs file pos') := h.1
          subst hp
          exact ⟨rfl, by rw [hrest, h.2]⟩
      · intro h
        obtain ⟨hp, hrest⟩ := h
        subst hp
        rw [hrest]
        rfl

/-- The second byte of a file is out of reach: a read behind a seek panics. -/
theorem read_behind_seek_panics :
    ¬ ∀ (file : List UInt8) (xs : List HandleCall), (FileHandle.initFs file 0).calls .checked xs =
      some ((Cursor.calls ⟨file, 0⟩ xs).map Cursor.asHandle) := by
  intro h
  have hpanic : (FileHandle.initFs [1, 2] 0).calls .checked [.seek 1, .read [0]] = none := rfl
  have hn := h [1, 2] [.seek 1, .read [0]]
  rw [hpanic] at hn
  cases hn

/-! ## A whole file into memory -/

/-- A handle whose reads give the next bytes of a stream, at least one where there are any. -/
structure ByteStream where
  Handle : Type
  content : Handle → Seq UInt8
  read : Handle → List UInt8 → Nat × List UInt8 × Handle
  read_le : ∀ h buffer, (read h buffer).1 ≤ buffer.length
  same_room : ∀ h buffer, (read h buffer).2.1.length = buffer.length
  next_bytes : ∀ h buffer, content h =
    (Seq.ofList ((read h buffer).2.1.take (read h buffer).1)).append (content (read h buffer).2.2)
  progress : ∀ h buffer, (read h buffer).1 = 0 → buffer = [] ∨ content h = Seq.nil

/-- `Vec::resize`. -/
def resize (v : List UInt8) (n : Nat) (x : UInt8) : List UInt8 :=
  if n ≤ v.length then v.take n else v ++ List.replicate (n - v.length) x

/-- `tryReserve` gets the length and the room asked for; `none` is a loop that has not ended. -/
def readFileLoop (s : ByteStream) (ar : Arith) (tryReserve : Nat → Nat → Except SyscallError Unit) (limit : Nat) :
    Nat → List UInt8 → s.Handle → Option (Outcome SyscallError (List UInt8) × s.Handle)
  | 0, _, _ => none
  | fuel + 1, buffer, fh =>
    match ar.sub limit buffer.length with
    | none => some (.panic, fh)
    | some left =>
      let readN := min 4096 left
      if readN = 0 then some (.err .noMemory, fh)
      else match tryReserve buffer.length readN with
        | .error e => some (.err e, fh)
        | .ok () =>
          let oldLen := buffer.length
          let buffer := resize buffer oldLen 0
          let (read, slice, fh) := s.read fh (buffer.drop oldLen)
          let buffer := buffer.take oldLen ++ slice
          let buffer := if read ≠ readN then buffer.take (oldLen + read) else buffer
          if read = 0 then some (.ok buffer, fh) else readFileLoop s ar tryReserve limit fuel buffer fh

def readFileToMemory (s : ByteStream) (ar : Arith) (tryReserve : Nat → Nat → Except SyscallError Unit)
    (fuel : Nat) (fh : s.Handle) (limit : Nat) : Option (Outcome SyscallError (List UInt8) × s.Handle) :=
  readFileLoop s ar tryReserve limit fuel [] fh

/-- What a whole read is for: a shorter file is returned, a longer one refused. -/
structure ReadsWhole (content : Seq UInt8) (limit : Nat) (r : Outcome SyscallError (List UInt8)) : Prop where
  shorter : ∀ bytes, content = Seq.ofList bytes → bytes.length < limit → r = .ok bytes
  longer : (limit : ℕ∞) < content.length' → r = .err .noMemory

/-- Growing a vector to the length it has leaves no room behind it. -/
theorem resize_same (v : List UInt8) (x : UInt8) : resize v v.length x = v := by
  unfold resize
  rw [if_pos (Nat.le_refl _), List.take_length]

theorem ByteStream.read_nothing (s : ByteStream) (fh : s.Handle) : (s.read fh []).1 = 0 :=
  Nat.le_zero.mp (s.read_le fh [])

/-- The first round reads into an empty slice and ends the loop. -/
theorem readFileToMemory_round (s : ByteStream) (ar : Arith) {tryReserve : Nat → Nat → Except SyscallError Unit}
    (hres : ∀ len n, tryReserve len n = .ok ()) (fuel : Nat) (fh : s.Handle) (limit : Nat) :
    readFileToMemory s ar tryReserve (fuel + 1) fh limit =
      some (if limit = 0 then (.err .noMemory, fh) else (.ok [], (s.read fh []).2.2)) := by
  have hsub : ar.sub limit 0 = some limit := by simp [Arith.sub]
  have hread := s.read_nothing fh
  have hslice : (s.read fh []).2.1 = [] := List.length_eq_zero_iff.mp (s.same_room fh [])
  have hsame := resize_same [] 0
  by_cases h : limit = 0
  · subst h
    simp [readFileToMemory, readFileLoop, hsub]
  · have hn : min 4096 limit ≠ 0 := by omega
    simp only [List.length_nil] at hsame
    simp [readFileToMemory, readFileLoop, hsub, h, hres, hsame, hread, hslice]

theorem length'_ofList (bytes : List UInt8) : (Seq.ofList bytes).length' = bytes.length := by
  have hlen := Seq.length_toList (Seq.ofList bytes) (Seq.terminates_ofList bytes)
  rw [Seq.toList_ofList] at hlen
  rw [Seq.length'_of_terminates (Seq.terminates_ofList bytes), ← hlen]

/-- A stream that is no longer than a number is a list. -/
theorem exists_ofList {content : Seq UInt8} {n : Nat} (h : content.length' ≤ n) :
    ∃ bytes, content = Seq.ofList bytes ∧ bytes.length ≤ n := by
  have hterm : content.Terminates := ⟨n, Seq.length'_le_iff.mp h⟩
  have hof := Seq.ofList_toList content hterm
  have hlen := length'_ofList (content.toList hterm)
  rw [hof] at hlen
  rw [hlen] at h
  exact ⟨content.toList hterm, hof.symm, Nat.cast_le.mp h⟩

/-- An empty result is what a reader wants of an empty stream only, or where nothing is asked. -/
theorem readsWhole_nil {content : Seq UInt8} {limit : Nat} :
    ReadsWhole content limit (.ok []) ↔ content = Seq.nil ∨ content.length' = limit := by
  constructor
  · intro hw
    have hle : content.length' ≤ limit := by
      by_contra hlt
      cases hw.longer (not_le.mp hlt)
    obtain ⟨bytes, hbytes, hlen⟩ := exists_ofList hle
    by_cases hlt : bytes.length < limit
    · have hnil := hw.shorter bytes hbytes hlt
      cases hnil
      exact .inl (by rw [hbytes, Seq.ofList_nil])
    · have heq : bytes.length = limit := by omega
      exact .inr (by rw [hbytes, length'_ofList, heq])
  · intro hc
    rcases hc with hnil | hlen
    · constructor
      · intro bytes hbytes _
        rw [hnil, ← Seq.ofList_nil] at hbytes
        rw [← Seq.ofList_injective hbytes]
      · intro hlt
        rw [hnil, Seq.length'_nil] at hlt
        exact absurd hlt (by simp)
    · constructor
      · intro bytes hbytes hlt
        rw [hbytes, length'_ofList, Nat.cast_inj] at hlen
        omega
      · intro hlt
        exact absurd hlt (by simp [hlen])

theorem readsWhole_refused {content : Seq UInt8} : ReadsWhole content 0 (.err .noMemory) := by
  constructor
  · intro bytes _ hlt
    exact absurd hlt (Nat.not_lt_zero _)
  · intro _
    rfl

/-- The loop always ends, in its first round, and what it returns is the whole file only where
there is nothing to return. -/
theorem readFileToMemory_whole (s : ByteStream) (ar : Arith) (tryReserve : Nat → Nat → Except SyscallError Unit)
    (hres : ∀ len n, tryReserve len n = .ok ()) (fh : s.Handle) (limit : Nat) :
    ∃ r fh', (∀ fuel, readFileToMemory s ar tryReserve (fuel + 1) fh limit = some (r, fh')) ∧
      (ReadsWhole (s.content fh) limit r ↔
        limit = 0 ∨ s.content fh = Seq.nil ∨ (s.content fh).length' = limit) := by
  have hround := fun fuel => readFileToMemory_round s ar hres fuel fh limit
  by_cases h : limit = 0
  · simp only [h, if_true] at hround
    exact ⟨_, _, by rw [h]; exact hround, by rw [h]; exact iff_of_true readsWhole_refused (.inl rfl)⟩
  · simp only [h, if_false] at hround
    exact ⟨_, _, hround, readsWhole_nil.trans (by simp only [h, false_or])⟩

/-! ## The cursor is a byte stream -/

def Cursor.stream (c : Cursor) : Seq UInt8 := Seq.ofList (c.content.drop c.pos)

def Cursor.readBuffer (c : Cursor) (buffer : List UInt8) : Nat × List UInt8 × Cursor :=
  (c.room buffer, c.fill buffer, ⟨c.content, c.pos + c.room buffer⟩)

theorem Cursor.next_bytes (c : Cursor) (buffer : List UInt8) : c.stream =
    (Seq.ofList ((c.readBuffer buffer).2.1.take (c.readBuffer buffer).1)).append
      (c.readBuffer buffer).2.2.stream := by
  have hsplit := List.take_append_drop (c.room buffer) (c.content.drop c.pos)
  rw [List.drop_drop] at hsplit
  unfold stream readBuffer
  rw [fill_take, ← Seq.ofList_append, hsplit]

theorem Cursor.progress (c : Cursor) (buffer : List UInt8) (h : c.room buffer = 0) :
    buffer = [] ∨ c.stream = Seq.nil := by
  by_cases hb : buffer.length = 0
  · exact .inl (List.length_eq_zero_iff.mp hb)
  · have hleft : c.content.length ≤ c.pos := by
      unfold room at h
      omega
    right
    rw [stream, List.drop_of_length_le hleft, Seq.ofList_nil]

/-- The reference cursor behaves as the loop expects of its handle. -/
def cursorStream : ByteStream where
  Handle := Cursor
  content := Cursor.stream
  read := Cursor.readBuffer
  read_le := Cursor.room_le
  same_room := Cursor.fill_length
  next_bytes := Cursor.next_bytes
  progress := Cursor.progress

def alwaysReserves (_ _ : Nat) : Except SyscallError Unit := .ok ()

theorem one_byte_whole :
    ∃ r fh', (∀ fuel, readFileToMemory cursorStream .checked alwaysReserves (fuel + 1) ⟨[7], 0⟩ 1 =
        some (r, fh')) ∧
      (ReadsWhole (Cursor.stream ⟨[7], 0⟩) 1 r ↔
        1 = 0 ∨ Cursor.stream ⟨[7], 0⟩ = Seq.nil ∨ (Cursor.stream ⟨[7], 0⟩).length' = (1 : Nat)) :=
  readFileToMemory_whole cursorStream .checked alwaysReserves (fun _ _ => rfl) ⟨[7], 0⟩ 1

/-- Of a file of one byte nothing is read. -/
theorem one_byte_lost :
    ¬ ∀ (s : ByteStream) (fh : s.Handle) (limit : Nat), ∃ fuel r fh',
      readFileToMemory s .checked alwaysReserves fuel fh limit = some (r, fh') ∧
        ReadsWhole (s.content fh) limit r := by
  intro h
  obtain ⟨fuel, r, fh', hrun, hwhole⟩ := h cursorStream ⟨[7], 0⟩ 16
  cases fuel with
  | zero => cases hrun
  | succ fuel =>
    have hround := readFileToMemory_round cursorStream .checked (fun _ _ => rfl : ∀ len n,
      alwaysReserves len n = .ok ()) fuel ⟨[7], 0⟩ 16
    rw [hrun] at hround
    cases hround
    cases hwhole.shorter [7] rfl (by decide)

end Idkernel
