import Idkernel.Address

/-!
# Paths, file handles and the embedded init directory

Strings are lists of characters and file contents lists of bytes. A handle is
one of the two kinds the kernel builds: a cursor into an embedded file, or the
rest of a directory listing.
-/
namespace Idkernel

open Address

abbrev Str := List Char

/-- `str::split_once`. -/
def splitOnce (c : Char) : Str → Option (Str × Str)
  | [] => none
  | x :: xs => if x = c then some ([], xs) else (splitOnce c xs).map fun p => (x :: p.1, p.2)

inductive PathNavigatorStep where
  | current
  | parent
  | relCh : Str → PathNavigatorStep
  deriving DecidableEq, Repr

def pathStep (path : Str) : PathNavigatorStep × Str :=
  let (curr, rem) := (splitOnce '/' path).getD (path, [])
  let step :=
    if curr = [] ∨ curr = ['.'] then .current
    else if curr = ['.', '.'] then .parent
    else .relCh curr
  (step, rem)

theorem splitOnce_shorter {c : Char} {path a b : Str} (h : splitOnce c path = some (a, b)) :
    b.length < path.length := by
  induction path generalizing a b with
  | nil => cases h
  | cons x xs ih =>
    unfold splitOnce at h
    split at h
    · cases h; simp
    · obtain ⟨⟨a', b'⟩, hp, he⟩ := Option.map_eq_some_iff.mp h
      cases he
      have := ih hp
      simp only [List.length_cons]
      omega

/-- Each step consumes at least one character, so every walk along a path ends. -/
theorem pathStep_shorter {path : Str} (h : path ≠ []) : (pathStep path).2.length < path.length := by
  unfold pathStep
  cases hs : splitOnce '/' path with
  | none => simpa using List.length_pos_iff.mpr h
  | some p => exact splitOnce_shorter (a := p.1) (b := p.2) hs

inductive PathOpenError where
  | invalidPath | folderNotFound | pathIsFile | parentingNotSupported
  deriving DecidableEq, Repr

inductive FileHandleError where
  | notSeekable | seekOutOfRange
  deriving DecidableEq, Repr

/-! ## Open files -/

inductive FileHandle where
  | initFs (file : List UInt8) (index : Nat)
  | iterator (rest : List UInt8)
  deriving DecidableEq, Repr

def FileHandle.seek (h : FileHandle) (pos : Nat) : Except FileHandleError FileHandle :=
  match h with
  | .initFs file _ => if pos > file.length then .error .seekOutOfRange else .ok (.initFs file pos)
  | .iterator _ => .error .notSeekable

/-- What is written at the start of a buffer of length `room`; `none` is a panic. The
source range of the copy ends at `len`, not at `index + len`, and both the slicing
and the copy panic unless the two lengths agree. -/
def FileHandle.read (ar : Arith) (h : FileHandle) (room : Nat) : Option (List UInt8 × FileHandle) :=
  match h with
  | .initFs file index => do
    let left ← ar.sub file.length index
    let len := min room left
    if index ≤ len ∧ len ≤ file.length ∧ len - index = len then
      some ((file.take len).drop index, .initFs file index)
    else none
  | .iterator [] => some ([], .iterator [])
  | .iterator (x :: rest) => if room = 0 then none else some ([x], .iterator rest)

/-- `interleave_shortest` with an endless repetition of `y`: it ends with `xs`. -/
def interleaveShortest {α : Type} : List α → α → List α
  | [], _ => []
  | x :: xs, y => x :: y :: interleaveShortest xs y

def dirNamesToHandle (names : List Str) : FileHandle :=
  let asBytes := names.map fun n => n.flatMap String.utf8EncodeChar
  .iterator (interleaveShortest asBytes ['\n'.toUInt8]).flatten

/-! ## The embedded directory tree -/

inductive InitDirEntry where
  | file : List UInt8 → InitDirEntry
  | folder : List (Str × InitDirEntry) → InitDirEntry

abbrev InitDir := List (Str × InitDirEntry)

structure InitFsFolderHandle where
  path : Str
  folder : InitDir
  file : Option (Str × List UInt8)

namespace InitFsFolderHandle

def fromInitDir (initDir : InitDir) (mountPath : Str) : InitFsFolderHandle := ⟨mountPath, initDir, none⟩

def relOpen (self : InitFsFolderHandle) (x : Str) : Except PathOpenError InitFsFolderHandle :=
  if self.file.isNone then .error .pathIsFile
  else match self.folder.find? fun y => y.1 = x with
    | none => .error .folderNotFound
    | some (name, .file bytes) => .ok ⟨self.path ++ x, self.folder, some (name, bytes)⟩
    | some (_, .folder dir) => .ok ⟨self.path ++ x, dir, none⟩

def openDir (folder : InitFsFolderHandle) (remaining : Str) : Except PathOpenError InitFsFolderHandle :=
  if _ : remaining = [] then .ok folder
  else match (pathStep remaining).1 with
    | .current => openDir folder (pathStep remaining).2
    | .parent => .error .parentingNotSupported
    | .relCh rel => do
      let folder ← folder.relOpen rel
      openDir folder (pathStep remaining).2
termination_by remaining.length
decreasing_by all_goals exact pathStep_shorter (by assumption)

def read (self : InitFsFolderHandle) : FileHandle :=
  match self.file with
  | some file => .initFs file.2 0
  | none => dirNamesToHandle (self.folder.map fun x => x.1)

end InitFsFolderHandle

end Idkernel
