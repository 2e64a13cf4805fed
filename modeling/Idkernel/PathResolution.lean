import Idkernel.FileCalls
import Idkernel.PathWalk

/-!
# Paths from a process root

A path is resolved by the first mount that it names, on the part behind that
name, and so on through mounted roots until a folder of the init directory
takes the rest. Mounts may lead back to a root; every hand-over still leaves
less of the path.
-/
namespace Idkernel

open Address Traced Locks

/-! ## The reference -/

/-- The components of a path, from the first one on that is not empty and no dot. -/
def named (path : Str) : List Str := (path.splitOn '/').dropWhile fun c => Ignored c

theorem named_split (path : Str) :
    named path = match splitOnce '/' path with
      | some (a, b) => if Ignored a then named b else a :: b.splitOn '/'
      | none => if Ignored path then [] else [path] := by
  unfold named
  conv => lhs; rw [splitOn_splitOnce]
  cases splitOnce '/' path with
  | none => by_cases h : Ignored path <;> simp [h]
  | some p => by_cases h : Ignored p.1 <;> simp [h]

/-- Behind the first named component is less than there was. -/
theorem named_shorter {path c : Str} {rest : List Str} (h : named path = c :: rest) :
    (['/'].intercalate rest).length < path.length := by
  induction hn : path.length using Nat.strongRecOn generalizing path with
  | ind n ih =>
    rw [named_split] at h
    cases hs : splitOnce '/' path with
    | none =>
      simp only [hs] at h
      by_cases hskip : Ignored path
      · simp [hskip] at h
      · obtain ⟨rfl, rfl⟩ : path = c ∧ [] = rest := by simpa [hskip] using h
        have hne : path ≠ [] := fun he => hskip (.inl he)
        have hpos := List.length_pos_iff.mpr hne
        simp
        omega
    | some p =>
      have hshorter := splitOnce_shorter (a := p.1) (b := p.2) hs
      simp only [hs] at h
      by_cases hskip : Ignored p.1
      · rw [if_pos hskip] at h
        have hrest := ih _ (hn ▸ hshorter) h rfl
        omega
      · rw [if_neg hskip] at h
        obtain ⟨_, rfl⟩ := List.cons.inj h
        rw [List.intercalate_splitOn]
        omega

/-- Leading empty components and dots do not count; the first other component names a mount, which resolves
what is behind the component's slash. -/
def resolve (mounts : TaskId → List (Str × PathHandle)) : PathHandle → Str → Except PathOpenError PathHandle
  | .initFs folder, path => (folder.openDir path).map .initFs
  | .procRoot root, path =>
    match _h : named path with
    | [] => .ok (.procRoot root)
    | c :: rest =>
      if c = parentComponent then .error .parentingNotSupported
      else match (mounts root).find? fun x => x.1 = c with
        | none => .error .invalidPath
        | some (_, next) => resolve mounts next (['/'].intercalate rest)
termination_by _ path => path.length
decreasing_by exact named_shorter _h

/-! ## The scan of a root -/

/-- The component at which the scan of a root stops, and what is left of the path. -/
def scanned (path : Str) : Except PathOpenError (Option (Str × Str)) :=
  (procScan path).map fun o => o.map fun p => (p.1, p.2.1)

theorem scanned_step {path : Str} (h : path ≠ []) :
    scanned path = match (pathStep path).1 with
      | .current => scanned (pathStep path).2
      | .parent => .error .parentingNotSupported
      | .relCh rel => .ok (some (rel, (pathStep path).2)) := by
  unfold scanned
  conv => lhs; rw [procScan, dif_neg h]
  cases (pathStep path).1 with
  | parent => rfl
  | relCh rel => rfl
  | current =>
    dsimp only
    cases procScan (pathStep path).2 with
    | error e => rfl
    | ok o => cases o <;> rfl

/-- The scan stops at the first named component and keeps what is behind its slash. -/
theorem scanned_named (path : Str) :
    scanned path = match named path with
      | [] => .ok none
      | c :: rest =>
        if c = parentComponent then .error .parentingNotSupported
        else .ok (some (c, ['/'].intercalate rest)) := by
  induction hn : path.length using Nat.strongRecOn generalizing path with
  | ind n ih =>
    by_cases hnil : path = []
    · subst hnil
      simp [scanned, procScan, named_split, splitOnce, Ignored]
      rfl
    have hshorter := pathStep_shorter hnil
    rw [scanned_step hnil, pathStep_split, named_split]
    cases hs : splitOnce '/' path with
    | none =>
      simp only [Option.getD_none]
      by_cases hskip : Ignored path
      · simp only [if_pos hskip]
        simp [scanned, procScan]
        rfl
      · simp only [if_neg hskip]
        by_cases hup : path = parentComponent
        · simp only [if_pos hup]
        · simp [if_neg hup]
    | some p =>
      obtain ⟨a, b⟩ := p
      simp only [Option.getD_some]
      by_cases hskip : Ignored a
      · simp only [if_pos hskip]
        exact ih _ (hn ▸ splitOnce_shorter hs) b rfl
      · simp only [if_neg hskip]
        by_cases hup : a = parentComponent
        · simp only [if_pos hup]
        · simp only [if_neg hup, List.intercalate_splitOn]

/-! ## Opening a path -/

variable {pg : Paging} {k : Kernel pg} {root : TaskId} {fs : ProcRootFs}

/-- A path is opened with this result, and nothing changes. -/
def Opens (k : Kernel pg) (handle : PathHandle) (path : Str) (r : Except PathOpenError PathHandle) : Prop :=
  (openPathFull handle path k).outcome = .ofExcept r ∧ (openPathFull handle path k).state = k

theorem opens_folder (folder : InitFsFolderHandle) (path : Str) :
    Opens k (.initFs folder) path ((folder.openDir path).map .initFs) := by
  rw [Opens, openPathFull, PathHandle.openDir]
  cases folder.openDir path <;> exact ⟨rfl, rfl⟩

theorem getRoot_run (h : k.roots.lookup root = some fs) :
    (getRoot root k : Ran _ _ PathOpenError _) = ⟨.ok fs, k, []⟩ := by
  rw [getRoot, Comp.read_bind, h]
  rfl

/-- A root hands what it has not scanned to the mount of the name. -/
theorem opens_root (h : k.roots.lookup root = some fs) (path : Str) :
    match scanned path with
      | .error e => Opens k (.procRoot root) path (.error e)
      | .ok none => Opens k (.procRoot root) path (.ok (.procRoot root))
      | .ok (some (rel, rem)) => match fs.find rel with
        | none => Opens k (.procRoot root) path (.error .invalidPath)
        | some ch => ∀ r, Opens k ch rem r → Opens k (.procRoot root) path r := by
  simp only [Opens]
  rw [openPathFull, PathHandle.openDir, scanned]
  cases procScan path with
  | error e => exact ⟨rfl, rfl⟩
  | ok o =>
    cases o with
    | none => exact ⟨rfl, rfl⟩
    | some p =>
      obtain ⟨rel, rem, hlt⟩ := p
      have hroot := getRoot_run h
      simp only [Except.map, Option.map_some, Comp.ofExcept_ok, Comp.bind_outcome, Comp.bind_state, Comp.ret_run,
        withGuard_outcome, withGuard_state, hroot]
      cases fs.find rel with
      | none => exact ⟨rfl, rfl⟩
      | some ch => exact fun r hr => hr

/-! ## Resolution -/

/-- Handles are counted references, so the root of a mounted handle is there. -/
def MountsAlive (k : Kernel pg) : Prop :=
  ∀ root fs, k.roots.lookup root = some fs → ∀ name next, (name, .procRoot next) ∈ fs.mounts →
    ∃ fs', k.roots.lookup next = some fs'

def mountTable (k : Kernel pg) (root : TaskId) : List (Str × PathHandle) :=
  ((k.roots.lookup root).map ProcRootFs.mounts).getD []

theorem opens_resolve (hmounts : MountsAlive k) {handle : PathHandle}
    (halive : ∀ root, handle = .procRoot root → ∃ fs, k.roots.lookup root = some fs) (path : Str) :
    Opens k handle path (resolve (mountTable k) handle path) := by
  induction hn : path.length using Nat.strongRecOn generalizing path handle with
  | ind n ih =>
    cases handle with
    | initFs folder =>
      rw [resolve]
      exact opens_folder folder path
    | procRoot root =>
      obtain ⟨fs, hfs⟩ := halive root rfl
      have hroot := opens_root hfs path
      rw [scanned_named] at hroot
      rw [resolve]
      split
      · next hnamed =>
        rw [hnamed] at hroot
        exact hroot
      · next c rest hnamed =>
        rw [hnamed] at hroot
        dsimp only at hroot
        by_cases hup : c = parentComponent
        · rw [if_pos hup] at hroot ⊢
          exact hroot
        rw [if_neg hup] at hroot ⊢
        have htable : mountTable k root = fs.mounts := by rw [mountTable, hfs]; rfl
        rw [htable]
        dsimp only [ProcRootFs.find] at hroot
        cases hfind : fs.mounts.find? fun x => x.1 = c with
        | none =>
          rw [hfind] at hroot
          exact hroot
        | some m =>
          obtain ⟨name, next⟩ := m
          rw [hfind] at hroot
          refine hroot _ (ih _ (hn ▸ named_shorter hnamed) ?_ _ rfl)
          rintro next' rfl
          exact hmounts root fs hfs name next' (List.mem_of_find?_eq_some hfind)

/-- From the root of a process a path is opened as the reference resolves it, and nothing changes. -/
theorem openPathFull_resolves (k : Kernel pg) (hmounts : MountsAlive k) (root : TaskId) (fs : ProcRootFs)
    (hroot : k.roots.lookup root = some fs) (path : Str) :
    (openPathFull (.procRoot root) path k).outcome = .ofExcept (resolve (mountTable k) (.procRoot root) path) ∧
      (openPathFull (.procRoot root) path k).state = k := by
  refine opens_resolve hmounts ?_ path
  intro r hr
  cases hr
  exact ⟨fs, hroot⟩

/-- A root that is mounted in itself. -/
def loopedRoot : ProcRootFs := ⟨parentId, [(['a'], .procRoot parentId), (['a'], .initFs (.fromInitDir [] []))]⟩

def Kernel.looped : Kernel .flat :=
  { Kernel.family .empty with roots := (∅ : Finmap fun _ : TaskId => ProcRootFs).insert parentId loopedRoot }

theorem looped_root : Kernel.looped.roots.lookup parentId = some loopedRoot := Finmap.lookup_insert _

/-- The path `./a//a/` leads around the loop twice. -/
theorem openPathFull_resolves_looped :
    (openPathFull (.procRoot parentId) ['.', '/', 'a', '/', '/', 'a', '/'] Kernel.looped).outcome =
        .ofExcept (resolve (mountTable Kernel.looped) (.procRoot parentId) ['.', '/', 'a', '/', '/', 'a', '/']) ∧
      (openPathFull (.procRoot parentId) ['.', '/', 'a', '/', '/', 'a', '/'] Kernel.looped).state =
        Kernel.looped := by
  refine openPathFull_resolves Kernel.looped ?_ parentId loopedRoot looped_root _
  intro root fs hfs name next hmem
  by_cases hroot : root = parentId
  · subst hroot
    rw [looped_root] at hfs
    obtain rfl := Option.some.inj hfs
    simp only [loopedRoot, List.mem_cons, Prod.mk.injEq, PathHandle.procRoot.injEq, reduceCtorEq, and_false,
      List.not_mem_nil, or_false] at hmem
    obtain ⟨_, rfl⟩ := hmem
    exact ⟨loopedRoot, looped_root⟩
  · simp [Kernel.looped, hroot] at hfs

end Idkernel
