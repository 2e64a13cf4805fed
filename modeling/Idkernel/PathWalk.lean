import Idkernel.Files

/-!
# Paths in the embedded tree

The meaning of a path is a walk along its components. The folder handle splits
the path the same way, but refuses to open anything from a handle that is not a
file, so it follows the walk only where no name has to be opened, or where the
walk fails in the same way.
-/
namespace Idkernel

/-! ## The walk -/

def parentComponent : Str := ['.', '.']

def Ignored (c : Str) : Prop := c = [] ∨ c = ['.']

instance (c : Str) : Decidable (Ignored c) := inferInstanceAs (Decidable (c = [] ∨ c = ['.']))

/-- The components of a path, without empty ones and dots. -/
def components (path : Str) : List Str := (path.splitOn '/').filter fun c => ¬ Ignored c

/-- Descending by the first entry of each name. A parent component is answered alike in a folder and below a
file: `path_step` tells it from a name, and `open_dir` answers it, before it matters what the handle is of. -/
def walk : InitDirEntry → List Str → Except PathOpenError InitDirEntry
  | entry, [] => .ok entry
  | entry, c :: cs =>
    if c = parentComponent then .error .parentingNotSupported
    else match entry with
      | .file _ => .error .pathIsFile
      | .folder dir => match dir.find? fun y => y.1 = c with
        | none => .error .folderNotFound
        | some (_, next) => walk next cs

/-- A handle to the file's bytes for a file, a handle of the folder for a folder, and the same error. -/
def Answers : Except PathOpenError InitFsFolderHandle → Except PathOpenError InitDirEntry → Prop
  | .ok handle, .ok (.file bytes) => ∃ name, handle.file = some (name, bytes)
  | .ok handle, .ok (.folder dir) => handle.file = none ∧ handle.folder = dir
  | .error e, .error e' => e = e'
  | _, _ => False

/-- A beginning of the components leads to a file, and a name comes after it. For a parent component that
comes after a file there is the answer of the parent component. -/
def BelowFile (entry : InitDirEntry) (cs : List Str) : Prop :=
  ∃ front bytes c rest, cs = front ++ c :: rest ∧ c ≠ parentComponent ∧ walk entry front = .ok (.file bytes)

theorem walk_pathIsFile {entry : InitDirEntry} {cs : List Str} :
    walk entry cs = .error .pathIsFile ↔ BelowFile entry cs := by
  induction cs generalizing entry with
  | nil => simp [walk, BelowFile]
  | cons c cs ih =>
    by_cases hc : c = parentComponent
    · simp only [walk, if_pos hc, Except.error.injEq, reduceCtorEq, false_iff]
      rintro ⟨front, bytes, d, rest, hsplit, hd, hwalk⟩
      cases front with
      | nil => exact hd ((List.cons.inj hsplit).1 ▸ hc)
      | cons f front =>
        obtain rfl : c = f := (List.cons.inj hsplit).1
        simp [walk, hc] at hwalk
    cases entry with
    | file bytes =>
      simp only [walk, if_neg hc, true_iff]
      exact ⟨[], bytes, c, cs, rfl, hc, rfl⟩
    | folder dir =>
      cases hfind : dir.find? fun y => y.1 = c with
      | none =>
        simp only [walk, if_neg hc, hfind, Except.error.injEq, reduceCtorEq, false_iff]
        rintro ⟨front, bytes, d, rest, hsplit, hd, hwalk⟩
        cases front with
        | nil => simp [walk] at hwalk
        | cons f front =>
          obtain rfl : c = f := (List.cons.inj hsplit).1
          simp [walk, hc, hfind] at hwalk
      | some found =>
        obtain ⟨name, next⟩ := found
        have hstep : ∀ ds, walk (.folder dir) (c :: ds) = walk next ds := fun ds => by simp [walk, hc, hfind]
        rw [hstep, ih]
        constructor
        · rintro ⟨front, bytes, d, rest, rfl, hd, hwalk⟩
          exact ⟨c :: front, bytes, d, rest, rfl, hd, (hstep front).trans hwalk⟩
        · rintro ⟨front, bytes, d, rest, hsplit, hd, hwalk⟩
          cases front with
          | nil => simp [walk] at hwalk
          | cons f front =>
            obtain ⟨rfl, rfl⟩ := List.cons.inj hsplit
            exact ⟨front, bytes, d, rest, rfl, hd, (hstep front).symm.trans hwalk⟩

/-! ## The handle's own splitting -/

theorem splitOn_splitOnce {c : Char} {path : Str} :
    path.splitOn c = match splitOnce c path with
      | some (a, b) => a :: b.splitOn c
      | none => [path] := by
  induction path with
  | nil => rfl
  | cons x xs ih =>
    by_cases hx : x = c
    · simp [List.splitOn_cons_eq_if_modifyHead, splitOnce, hx]
    rw [List.splitOn_cons_eq_if_modifyHead, ih]
    cases hs : splitOnce c xs with
    | none => simp [splitOnce, hx, hs]
    | some p => simp [splitOnce, hx, hs]

/-- What is in front of the first slash, and what is behind it. -/
theorem components_split (path : Str) :
    components path = (if Ignored ((splitOnce '/' path).getD (path, [])).1 then []
      else [((splitOnce '/' path).getD (path, [])).1]) ++ components
      ((splitOnce '/' path).getD (path, [])).2 := by
  have hkeep : ∀ (c : Str) (cs : List Str), (c :: cs).filter (fun c => ¬ Ignored c) =
      (if Ignored c then [] else [c]) ++ cs.filter fun c => ¬ Ignored c := by
    intro c cs
    by_cases hc : Ignored c <;> simp [hc]
  unfold components
  conv => lhs; rw [splitOn_splitOnce]
  cases splitOnce '/' path with
  | none => exact hkeep path []
  | some p => exact hkeep p.1 (p.2.splitOn '/')

theorem pathStep_split (path : Str) :
    pathStep path = (if Ignored ((splitOnce '/' path).getD (path, [])).1 then .current
      else if ((splitOnce '/' path).getD (path, [])).1 = parentComponent then .parent
      else .relCh ((splitOnce '/' path).getD (path, [])).1, ((splitOnce '/' path).getD (path, [])).2) := rfl

/-- One step of the handle takes the first component off, unless it is ignored. -/
theorem components_step (path : Str) :
    components path = match (pathStep path).1 with
      | .current => components (pathStep path).2
      | .parent => parentComponent :: components (pathStep path).2
      | .relCh c => c :: components (pathStep path).2 := by
  rw [components_split path, pathStep_split]
  generalize (splitOnce '/' path).getD (path, []) = split
  by_cases hskip : Ignored split.1
  · simp only [if_pos hskip, List.nil_append]
  by_cases hup : split.1 = parentComponent
  · simp only [if_neg hskip, if_pos hup, List.singleton_append]
    rw [hup]
  · simp only [if_neg hskip, if_neg hup, List.singleton_append]

theorem pathStep_relCh {path c : Str} (h : (pathStep path).1 = .relCh c) : c ≠ parentComponent := by
  rw [pathStep_split] at h
  dsimp only at h
  split at h
  · cases h
  split at h
  · cases h
  · next hup =>
    cases h
    exact hup

namespace InitFsFolderHandle

theorem relOpen_folder {self : InitFsFolderHandle} (h : self.file = none) (x : Str) :
    self.relOpen x = .error .pathIsFile := by
  simp [relOpen, h]

/-- From a folder, the first component alone decides. -/
theorem openDir_folder {folder : InitFsFolderHandle} (h : folder.file = none) (path : Str) :
    folder.openDir path = match components path with
      | [] => .ok folder
      | c :: _ => if c = parentComponent then .error .parentingNotSupported else .error .pathIsFile := by
  induction hn : path.length using Nat.strongRecOn generalizing path with
  | ind n ih =>
    rw [openDir]
    by_cases hnil : path = []
    · subst hnil
      rfl
    rw [dif_neg hnil, components_step path]
    have hshorter := pathStep_shorter hnil
    cases hstep : (pathStep path).1 with
    | current => exact ih _ (hn ▸ hshorter) _ rfl
    | parent => simp
    | relCh c =>
      simp only [relOpen_folder h, if_neg (pathStep_relCh hstep)]
      rfl

end InitFsFolderHandle

/-- The paths on which the handle and the walk give the same result. -/
def ResolvesAlike (dir : InitDir) (path : Str) : Prop :=
  components path = [] ∨ (∃ rest, components path = parentComponent :: rest) ∨
    BelowFile (.folder dir) (components path)

/-- The handle of a tree follows the walk exactly on the paths without a name before their
end or their first parent component, and below files. -/
theorem openDir_follows_walk (dir : InitDir) (mountPath path : Str) :
    Answers ((InitFsFolderHandle.fromInitDir dir mountPath).openDir path) (walk (.folder dir) (components path)) ↔
      ResolvesAlike dir path := by
  have hroot : (InitFsFolderHandle.fromInitDir dir mountPath).file = none := rfl
  rw [InitFsFolderHandle.openDir_folder hroot, ResolvesAlike, ← walk_pathIsFile]
  cases components path with
  | nil => exact iff_of_true ⟨rfl, rfl⟩ (.inl rfl)
  | cons c cs =>
    by_cases hc : c = parentComponent
    · subst hc
      refine iff_of_true ?_ (.inr (.inl ⟨cs, rfl⟩))
      simp [walk, Answers]
    simp only [if_neg hc]
    have hno : ¬ ∃ rest, c :: cs = parentComponent :: rest := by
      rintro ⟨rest, hsplit⟩
      exact hc (List.cons.inj hsplit).1
    cases hw : walk (.folder dir) (c :: cs) with
    | ok entry => simp [Answers, hc]
    | error e =>
      simp only [Answers, hno, reduceCtorEq, false_or, Except.error.injEq]
      exact eq_comm

/-- A file in the root folder cannot be opened. -/
theorem root_file_not_found :
    (InitFsFolderHandle.fromInitDir [(['a'], .file [1])] []).openDir ['a'] = .error .pathIsFile ∧
      walk (.folder [(['a'], .file [1])]) (components ['a']) = .ok (.file [1]) ∧
      ¬ Answers ((InitFsFolderHandle.fromInitDir [(['a'], .file [1])] []).openDir ['a'])
        (walk (.folder [(['a'], .file [1])]) (components ['a'])) := by
  have hroot : (InitFsFolderHandle.fromInitDir [(['a'], .file [1])] []).file = none := rfl
  have hopen : (InitFsFolderHandle.fromInitDir [(['a'], .file [1])] []).openDir ['a'] = .error .pathIsFile := by
    rw [InitFsFolderHandle.openDir_folder hroot]
    rfl
  have hwalk : walk (.folder [(['a'], .file [1])]) (components ['a']) = .ok (.file [1]) := rfl
  refine ⟨hopen, hwalk, ?_⟩
  rw [hopen, hwalk]
  exact id

end Idkernel
