import Idkernel.Effects
import Idkernel.Numbered

/-!
# The descriptors of a task

The four file calls change the table of the running task in one place, or not
at all where they fail. A descriptor is counted off when the file is open, so a
path that leads nowhere costs none.
-/
namespace Idkernel

open Address Traced Locks Runs

variable {pg : Paging} {α : Type}

inductive FileOp where
  | openPath (pathPtr pathLen mode : Nat)
  | seek (fd index : Nat)
  | read (fd pos length : Nat)
  | close (fd : Nat)
  deriving DecidableEq, Repr

namespace FileOp

def handler : FileOp → Handler
  | .openPath pathPtr pathLen mode => .openPath pathPtr pathLen mode
  | .seek fd index => .seek fd index
  | .read fd pos length => .read fd pos length
  | .close fd => .close fd

def fd : FileOp → Option Nat
  | .openPath _ _ _ => none
  | .seek fd _ => some fd
  | .read fd _ _ => some fd
  | .close fd => some fd

def call (env : Env pg) (op : FileOp) : KernelM pg SyscallError Reply := op.handler.call env

end FileOp

/-- A call that returns, whatever it meets outside the kernel. -/
def fileStep (k : Kernel pg) (l : Env pg × FileOp) : Option (Kernel pg) :=
  match (l.2.call l.1 k).outcome with
  | .panic => none
  | _ => some (l.2.call l.1 k).state

/-! ## The table of a task -/

def TaskFileStorage.table (files : TaskFileStorage) : Numbered.Table FileHandle :=
  ⟨files.nextDescriptor.raw, files.handles.map fun x => (x.1.raw, x.2)⟩

def Kernel.filesOf (k : Kernel pg) (a : TaskId) : Numbered.Table FileHandle :=
  ((k.tasks.lookup a).map fun task => task.files.table).getD ⟨0, []⟩

/-- The open handle behind a descriptor. -/
def Kernel.openHandle (k : Kernel pg) (a : TaskId) (fd : Nat) : Option FileHandle := (k.filesOf a).lookup fd

def Kernel.withFiles {a : TaskId} (k : Kernel pg) (task : TaskContext pg a) (files : TaskFileStorage) :
    Kernel pg :=
  { k with tasks := k.tasks.insert a { task with files := files } }

section Tables

variable {a : TaskId} {k : Kernel pg} {task : TaskContext pg a} {files : TaskFileStorage} {fd : Nat}

theorem filesOf_found (h : k.tasks.lookup a = some task) : k.filesOf a = task.files.table := by
  rw [Kernel.filesOf, h]
  rfl

theorem filesOf_withFiles : (k.withFiles task files).filesOf a = files.table := by
  rw [Kernel.filesOf, Kernel.withFiles, Finmap.lookup_insert]
  rfl

theorem map_findIdx {i : Nat} {l : List (FileDescriptor × FileHandle)}
    (h : (l.findIdx? fun x => decide (x.1.raw = fd)) = some i) :
    ∃ d handle before after, l = before ++ (d, handle) :: after ∧ d.raw = fd ∧ before.length = i := by
  obtain ⟨hi, hp, _⟩ := List.findIdx?_eq_some_iff_getElem.mp h
  refine ⟨l[i].1, l[i].2, l.take i, l.drop (i + 1), ?_, of_decide_eq_true hp, ?_⟩
  · have hsplit : l = l.take i ++ l[i] :: l.drop (i + 1) := by
      rw [List.getElem_cons_drop, List.take_append_drop]
    exact hsplit
  · rw [List.length_take]
    omega

theorem findHandle_cases {handle : FileHandle} {put : FileHandle → TaskFileStorage}
    (h : ProcCall.findHandle files fd = some (handle, put)) (handle' : FileHandle) :
    Numbered.Changes files.table (.replace fd) (put handle').table := by
  obtain ⟨i, hi, h⟩ := Option.bind_eq_some_iff.mp h
  obtain ⟨d, h₀, before, after, hs, rfl, rfl⟩ := map_findIdx hi
  obtain ⟨root, handles, next⟩ := files
  dsimp only at hs
  subst hs
  simp only [List.getElem?_append_right, Nat.le_refl, Nat.sub_self, List.getElem?_cons_zero,
    Option.bind_eq_bind,
    Option.bind_some, Option.pure_def, Option.some.injEq, Prod.mk.injEq] at h
  obtain ⟨rfl, rfl⟩ := h
  simp only [TaskFileStorage.table, List.map_append, List.map_cons, List.set_append_right _ _ (Nat.le_refl _),
    Nat.sub_self, List.set_cons_zero]
  exact .replace

theorem close_changes {i : Nat} (h : (files.handles.findIdx? fun x => decide (x.1.raw = fd)) = some i) :
    Numbered.Changes files.table (.remove fd)
      ({ files with handles := files.handles.eraseIdx i } : TaskFileStorage).table := by
  obtain ⟨d, h₀, before, after, hs, rfl, rfl⟩ := map_findIdx h
  obtain ⟨root, handles, next⟩ := files
  dsimp only at hs
  subst hs
  simp only [TaskFileStorage.table, List.map_append, List.map_cons,
    List.eraseIdx_append_of_length_le (Nat.le_refl _),
    Nat.sub_self, List.eraseIdx_cons_zero]
  exact .remove

theorem findIdx_none (h : files.table.lookup fd = none) :
    (files.handles.findIdx? fun x => decide (x.1.raw = fd)) = none := by
  rw [List.findIdx?_eq_none_iff]
  intro x hx
  have hne := Numbered.find_none.mp h (x.1.raw, x.2) (List.mem_map_of_mem hx)
  simpa using hne

theorem findHandle_none (h : files.table.lookup fd = none) : ProcCall.findHandle files fd = none := by
  unfold ProcCall.findHandle
  rw [findIdx_none h]
  rfl

end Tables

/-! ## The calls -/

/-- From `k`, a call that fails leaves everything as it was. -/
abbrev OrSame (k : Kernel pg) (m : KernelM pg SyscallError α) (Q : α → Kernel pg → Prop) : Prop :=
  Comp.Triple (fun s => s = k) m Q (fun s => s = k) fun _ => True

section Calls

variable {a : TaskId} {k : Kernel pg}

/-- The table of `a` in a state after a call. -/
def Filed (a : TaskId) (k : Kernel pg) (R : TaskFileStorage → TaskFileStorage → Prop) (k' : Kernel pg) : Prop :=
  ∃ (task : TaskContext pg a) (files : TaskFileStorage), k.tasks.lookup a = some task ∧ R task.files files ∧
    k' = k.withFiles task files

theorem openPath_spec (hcur : k.taskId = some a) (env : Env pg) (pathPtr pathLen mode : Nat) :
    OrSame k (FileCall.openPath env pathPtr pathLen mode) fun d => Filed a k fun files files' =>
      d = files.nextDescriptor ∧ ∃ handle next, (env.arith.add d.raw 1).bind FileDescriptor.new = some next ∧
        files' = ⟨files.root, files.handles ++ [(d, handle)], next⟩ := by
  unfold FileCall.openPath
  apply Comp.Triple.bind (Comp.Triple.ofExcept fun _ h => h)
  intro _
  apply Comp.Triple.bind (Comp.Triple.unwrap fun _ _ => trivial)
  intro stop
  apply Comp.Triple.bind (Comp.Triple.ofExcept fun _ h => h.1.1)
  intro _
  apply Comp.Triple.bind (Comp.Triple.okOr fun _ h => h.1.1.1)
  intro path
  apply Comp.Triple.bind (Comp.Triple.expect fun _ _ _ => trivial)
  rintro _ s ⟨⟨⟨⟨⟨rfl, _⟩, _⟩, _⟩, _⟩, _⟩
  refine locked_from (E := (· = s)) hcur (fun task hfound => ?_) s rfl
  apply Comp.Triple.bind (Comp.Triple.mapErr (openPathFull_keeps (fun _ h => h) _ _))
  intro pathHandle
  apply Comp.Triple.bind (PathHandle.read_keeps pathHandle)
  intro fileHandle
  apply Comp.Triple.bind (Comp.Triple.unwrap fun _ _ => trivial)
  intro next
  refine Comp.Triple.bind (Q := fun _ => _) (Comp.Triple.write ?_) fun _ => Comp.Triple.ret fun _ h => h
  rintro s' ⟨rfl, hnext⟩
  exact ⟨task, _, hfound, ⟨rfl, fileHandle, next, hnext, rfl⟩, rfl⟩

theorem seek_spec (hcur : k.taskId = some a) (fd index : Nat) :
    OrSame k (FileCall.seek fd index : KernelM pg _ _) fun _ => Filed a k fun files files' =>
      Numbered.Changes files.table (.replace fd) files'.table := by
  refine locked_from hcur fun task hfound => ?_
  apply Comp.Triple.bind (Comp.Triple.okOr fun _ h => h)
  rintro ⟨handle, put⟩
  apply Comp.Triple.bind (Comp.Triple.mapErr (Comp.Triple.ofExcept fun _ h => h.1))
  intro handle'
  apply Comp.Triple.write
  rintro s ⟨⟨rfl, hfind⟩, _⟩
  exact ⟨task, put handle', hfound, findHandle_cases hfind handle', rfl⟩

theorem read_spec (hcur : k.taskId = some a) (env : Env pg) (fd pos length : Nat) :
    OrSame k (FileCall.read env fd pos length) fun _ => Filed a k fun files files' =>
      Numbered.Changes files.table (.replace fd) files'.table := by
  unfold FileCall.read
  apply Comp.Triple.bind (Comp.Triple.ofExcept fun _ h => h)
  intro _
  apply Comp.Triple.bind (Comp.Triple.unwrap fun _ _ => trivial)
  intro stop
  apply Comp.Triple.bind (Comp.Triple.ofExcept fun _ h => h.1.1)
  rintro _ s ⟨⟨⟨rfl, _⟩, _⟩, _⟩
  refine locked_from (E := (· = s)) hcur (fun task hfound => ?_) s rfl
  apply Comp.Triple.bind (Comp.Triple.okOr fun _ h => h)
  rintro ⟨handle, put⟩
  apply Comp.Triple.bind (Comp.Triple.unwrap fun _ _ => trivial)
  rintro ⟨bytes, handle'⟩
  refine Comp.Triple.bind (Q := fun _ => _) (Comp.Triple.write ?_) fun _ => Comp.Triple.ret fun _ h => h
  rintro s' ⟨⟨rfl, hfind⟩, _⟩
  exact ⟨task, put handle', hfound, findHandle_cases hfind handle', rfl⟩

theorem close_spec (hcur : k.taskId = some a) (fd : Nat) :
    OrSame k (FileCall.close fd : KernelM pg _ _) fun _ => Filed a k fun files files' =>
      Numbered.Changes files.table (.remove fd) files'.table := by
  refine locked_from hcur fun task hfound => ?_
  apply Comp.Triple.bind (Comp.Triple.okOr fun _ h => h)
  intro index
  apply Comp.Triple.write
  rintro s ⟨rfl, hindex⟩
  exact ⟨task, _, hfound, close_changes hindex, rfl⟩

end Calls

/-! ## Histories -/

/-- The task runs, and its counter has not come to its end. -/
def Serving (a : TaskId) (k : Kernel pg) : Prop :=
  k.taskId = some a ∧ (k.tasks.lookup a).isSome ∧ (k.filesOf a).next < 2 ^ 64

section Histories

variable {a : TaskId} {k k' : Kernel pg}

theorem Filed.serving {R : TaskFileStorage → TaskFileStorage → Prop} (h : Filed a k R k') (hk : Serving a k)
    (hR : ∀ files files', R files files' → files.table.next < 2 ^ 64 → files'.table.next < 2 ^ 64) :
    Serving a k' := by
  obtain ⟨task, files, hfound, hrel, rfl⟩ := h
  refine ⟨hk.1, ?_, ?_⟩
  · rw [Kernel.withFiles, Finmap.lookup_insert]
    rfl
  · rw [filesOf_withFiles]
    exact hR _ _ hrel (filesOf_found hfound ▸ hk.2.2)

theorem Filed.changes {c : Numbered.Change FileHandle}
    (h : Filed a k (fun files files' => Numbered.Changes files.table c files'.table) k') :
    Numbered.Changes (k.filesOf a) c (k'.filesOf a) := by
  obtain ⟨task, files, hfound, hc, rfl⟩ := h
  rw [filesOf_found hfound, filesOf_withFiles]
  exact hc

/-- The counter stays in 64 bits, or the call does not return. -/
theorem next_descriptor {ar : Arith} {d next : FileDescriptor} (hlt : d.raw < 2 ^ 64)
    (h : (ar.add d.raw 1).bind FileDescriptor.new = some next) : next.raw = d.raw + 1 ∧ next.raw < 2 ^ 64 := by
  obtain ⟨n, hn, hnew⟩ := Option.bind_eq_some_iff.mp h
  unfold FileDescriptor.new at hnew
  split at hnew
  · obtain rfl := Option.some.inj hnew
    rename_i hpos
    rcases Arith.add_cases hn with ⟨rfl, hlt⟩ | ⟨_, rfl, hge⟩
    · exact ⟨rfl, hlt⟩
    · omega
  · cases hnew

/-- What a call that returned has done to the table. -/
structure Filing (a : TaskId) (op : FileOp) (k k' : Kernel pg) : Prop where
  serving : Serving a k'
  changes : ∃ c, Numbered.Changes (k.filesOf a) c (k'.filesOf a) ∧ ∀ fd, c.touched = some fd → op.fd = some fd

theorem Filing.same (op : FileOp) (hk : Serving a k) : Filing a op k k :=
  ⟨hk, .keep, .keep (Nat.le_refl _), fun _ h => nomatch h⟩

theorem Filing.of_changes {op : FileOp} {c : Numbered.Change FileHandle} (hk : Serving a k)
    (h : Filed a k (fun files files' => Numbered.Changes files.table c files'.table) k')
    (hc : c.touched = op.fd)
    (hsame : ∀ t t' : Numbered.Table FileHandle, Numbered.Changes t c t' → t'.next = t.next) :
    Filing a op k k' :=
  ⟨h.serving hk fun _ _ hR hlt => hsame _ _ hR ▸ hlt, c, h.changes, fun _ ht => hc ▸ ht⟩

theorem replace_next {t t' : Numbered.Table FileHandle} {fd : Nat} (h : Numbered.Changes t (.replace fd) t') :
    t'.next = t.next := by
  cases h
  rfl

theorem remove_next {t t' : Numbered.Table FileHandle} {fd : Nat} (h : Numbered.Changes t (.remove fd) t') :
    t'.next = t.next := by
  cases h
  rfl

theorem OrSame.reply {m : KernelM pg SyscallError α} {Q : Kernel pg → Prop} (f : α → Reply)
    (h : OrSame k m fun _ => Q) : OrSame k (m >>= fun x => pure (f x)) fun _ => Q :=
  Comp.Triple.bind h fun _ => Comp.Triple.ret fun _ h => h

theorem OrSame.state {m : KernelM pg SyscallError α} {Q : Kernel pg → Prop} (h : OrSame k m fun _ => Q)
    (hne : (m k).outcome ≠ .panic) : (m k).state = k ∨ Q (m k).state := by
  have hk := h k rfl
  cases ho : (m k).outcome with
  | ok x => exact .inr (by simpa [ho] using hk)
  | err e => exact .inl (by simpa [ho] using hk)
  | panic => exact absurd ho hne

theorem call_seek (hcur : k.taskId = some a) (env : Env pg) (fd index : Nat) :
    OrSame k ((FileOp.seek fd index).call env) fun _ => Filed a k fun files files' =>
      Numbered.Changes files.table (.replace fd) files'.table := (seek_spec hcur fd index).reply _

theorem call_read (hcur : k.taskId = some a) (env : Env pg) (fd pos length : Nat) :
    OrSame k ((FileOp.read fd pos length).call env) fun _ => Filed a k fun files files' =>
      Numbered.Changes files.table (.replace fd) files'.table :=
  OrSame.reply (Q := Filed a k _) _ (read_spec hcur env fd pos length)

theorem call_close (hcur : k.taskId = some a) (env : Env pg) (fd : Nat) :
    OrSame k ((FileOp.close fd).call env) fun _ => Filed a k fun files files' =>
      Numbered.Changes files.table (.remove fd) files'.table := (close_spec hcur fd).reply _

/-- A call that fails changes nothing, and one that does not changes its own entry. -/
theorem call_orSame (hk : Serving a k) (env : Env pg) (op : FileOp) :
    OrSame k (op.call env) fun _ k' => Filing a op k k' := by
  cases op with
  | openPath pathPtr pathLen mode =>
    refine OrSame.reply _ ((openPath_spec hk.1 env pathPtr pathLen mode).conseq (fun _ h => h)
      (fun d k' h => ?_)
      (fun _ h => h) fun _ h => h)
    have hboth := h
    obtain ⟨task, files, hfound, ⟨rfl, handle, next, hnext, rfl⟩, rfl⟩ := hboth
    have hlt : task.files.nextDescriptor.raw < 2 ^ 64 := by
      have hlt := hk.2.2
      rw [filesOf_found hfound] at hlt
      exact hlt
    obtain ⟨hsucc, hlt'⟩ := next_descriptor hlt hnext
    refine ⟨h.serving hk ?_, .push handle, ?_, fun _ ht => nomatch ht⟩
    · rintro files files' ⟨_, handle', next', hnext', rfl⟩ _
      exact (next_descriptor hlt hnext').2
    · rw [filesOf_found hfound, filesOf_withFiles]
      simp only [TaskFileStorage.table, List.map_append, List.map_cons, List.map_nil]
      exact .push (by omega)
  | seek fd index =>
    exact (call_seek hk.1 env fd index).conseq (fun _ h => h)
      (fun _ k' h => .of_changes hk h rfl fun _ _ => replace_next) (fun _ h => h) fun _ h => h
  | read fd pos length =>
    exact (call_read hk.1 env fd pos length).conseq (fun _ h => h)
      (fun _ k' h => .of_changes hk h rfl fun _ _ => replace_next) (fun _ h => h) fun _ h => h
  | close fd =>
    exact (call_close hk.1 env fd).conseq (fun _ h => h)
      (fun _ k' h => .of_changes hk h rfl fun _ _ => remove_next) (fun _ h => h) fun _ h => h

theorem fileStep_cases {l : Env pg × FileOp} (h : fileStep k l = some k') :
    (l.2.call l.1 k).outcome ≠ .panic ∧ (l.2.call l.1 k).state = k' := by
  unfold fileStep at h
  split at h
  · cases h
  · rename_i hne
    exact ⟨hne, Option.some.inj h⟩

theorem call_filing (hk : Serving a k) (env : Env pg) (op : FileOp) (hne : (op.call env k).outcome ≠ .panic) :
    Filing a op k (op.call env k).state := by
  rcases (call_orSame hk env op).state hne with hsame | hfiling
  · rw [hsame]
    exact .same op hk
  · exact hfiling

/-- Other handles do not notice a call that replaces one. -/
theorem openHandle_kept {m : KernelM pg SyscallError Reply} {fd other : Nat}
    (h : OrSame k m fun _ => Filed a k fun files files' =>
      Numbered.Changes files.table (.replace fd) files'.table)
    (hne : (m k).outcome ≠ .panic) (hother : other ≠ fd) :
    (m k).state.openHandle a other = k.openHandle a other := by
  rcases h.state hne with hsame | hfiled
  · rw [hsame]
  · exact hfiled.changes.lookup_replace hother

theorem fileStep_filing (hk : Serving a k) {l : Env pg × FileOp} (h : fileStep k l = some k') :
    Filing a l.2 k k' := by
  obtain ⟨hne, rfl⟩ := fileStep_cases h
  exact call_filing hk l.1 l.2 hne

/-! ## A descriptor that is not open -/

/-- The range of a buffer passes the two tests made of it. -/
def ValidBuffer (env : Env pg) (pos length : Nat) : Prop :=
  checkAddrUserspace pos = .ok () ∧ ∃ stop, env.arith.add pos length = some stop ∧
    checkAddrUserspace stop = .ok ()

/-- Whatever is asked of a descriptor, it is not there. -/
structure Unknown (k : Kernel pg) (fd : Nat) : Prop where
  seek : ∀ env index, ((FileOp.seek fd index).call env k).outcome = .err .wrongDescriptor
  read : ∀ env pos length, ValidBuffer env pos length →
    ((FileOp.read fd pos length).call env k).outcome = .err .wrongDescriptor
  close : ∀ env, ((FileOp.close fd).call env k).outcome = .err .wrongDescriptor

theorem unknown_of_lookup {fd : Nat} (hk : Serving a k) (h : k.openHandle a fd = none) : Unknown k fd := by
  obtain ⟨task, hfound⟩ := Option.isSome_iff_exists.mp hk.2.1
  have hnone : task.files.table.lookup fd = none := by
    rw [← filesOf_found hfound]
    exact h
  constructor
  · intro env index
    refine congrArg Ran.outcome (Comp.bind_err ?_)
    rw [FileCall.seek, currentTask_bind hk.1 hfound, after_outcome, withGuard_outcome, getTask_bind hfound,
      findHandle_none hnone]
    rfl
  · rintro env pos length ⟨hpos, stop, hadd, hstop⟩
    refine congrArg Ran.outcome (Comp.bind_err ?_)
    rw [FileCall.read, hpos, Comp.ofExcept_ok, Comp.ret_bind, hadd, Comp.unwrap_some, Comp.ret_bind, hstop,
      Comp.ofExcept_ok, Comp.ret_bind, currentTask_bind hk.1 hfound, after_outcome, withGuard_outcome,
      getTask_bind hfound, findHandle_none hnone]
    rfl
  · intro env
    refine congrArg Ran.outcome (Comp.bind_err ?_)
    rw [FileCall.close, currentTask_bind hk.1 hfound, after_outcome, withGuard_outcome, getTask_bind hfound,
      findIdx_none hnone]
    rfl

end Histories

/-! ## The laws -/

/-- Where the calls of a task that started without open files have led to. -/
structure DescriptorLaws (a : TaskId) (k₀ : Kernel pg) (ops : List (Env pg × FileOp)) (k : Kernel pg) :
    Prop where
  sorted : ((k.filesOf a).entries.map Prod.fst).Pairwise (· < ·)
  bounds : ∀ d ∈ (k.filesOf a).entries.map Prod.fst, 0 < d ∧ d < (k.filesOf a).next
  failedOpen : ∀ env pathPtr pathLen mode e,
    ((FileOp.openPath pathPtr pathLen mode).call env k).outcome = .err e →
    ((FileOp.openPath pathPtr pathLen mode).call env k).state = k
  isolated : ∀ env (op : FileOp) fd other,
    (∃ index, op = .seek fd index) ∨ (∃ pos length, op = .read fd pos length) →
    (op.call env k).outcome ≠ .panic → other ≠ fd →
      (op.call env k).state.openHandle a other = k.openHandle a other
  closed : ∀ as env fd bs u r, ops = as ++ (env, .close fd) :: bs → run fileStep k₀ as = some u →
    ((FileOp.close fd).call env u).outcome = .ok r → Unknown k fd

section Laws

variable {a root : TaskId} {k₀ k : Kernel pg} {task : TaskContext pg a} {ops : List (Env pg × FileOp)}

theorem serving_start (hcur : k₀.taskId = some a) (hfound : k₀.tasks.lookup a = some task)
    (hfiles : task.files = .new root) : Serving a k₀ ∧ (k₀.filesOf a).Ordered ∧
      ∀ x ∈ (k₀.filesOf a).entries, 0 < x.1 := by
  have htable : k₀.filesOf a = ⟨1, []⟩ := by
    rw [filesOf_found hfound, hfiles]
    rfl
  rw [htable]
  refine ⟨⟨hcur, by rw [hfound]; rfl, by rw [htable]; decide⟩, ⟨.nil, by simp⟩, by simp⟩

theorem positive_entries (k : Kernel pg) (a : TaskId) : ∀ d ∈ (k.filesOf a).entries.map Prod.fst, 0 < d := by
  intro d hd
  obtain ⟨x, hx, rfl⟩ := List.mem_map.mp hd
  cases hfound : k.tasks.lookup a with
  | none =>
    rw [Kernel.filesOf, hfound] at hx
    cases hx
  | some task =>
    rw [filesOf_found hfound] at hx
    obtain ⟨y, _, rfl⟩ := List.mem_map.mp hx
    exact y.1.nonzero

theorem descriptors_never_reused (hcur : k₀.taskId = some a) (hfound : k₀.tasks.lookup a = some task)
    (hfiles : task.files = .new root) (hrun : run fileStep k₀ ops = some k) : DescriptorLaws a k₀ ops k := by
  obtain ⟨hserve, hordered, _⟩ := serving_start hcur hfound hfiles
  have hstep : ∀ s (l : Env pg × FileOp) s', Serving a s → fileStep s l = some s' → Serving a s' ∧
      ∃ c, Numbered.Changes (s.filesOf a) c (s'.filesOf a) ∧ ∀ fd, c.touched = some fd → l.2.fd = some fd := by
    intro s l s' hs hl
    have hf := fileStep_filing hs hl
    exact ⟨hf.serving, hf.changes⟩
  obtain ⟨hk, hsorted⟩ := Numbered.run_ordered hstep hserve hordered hrun
  exact
    { sorted := List.pairwise_map.mpr hsorted.sorted
      bounds := by
        intro d hd
        refine ⟨positive_entries k a d hd, ?_⟩
        obtain ⟨x, hx, rfl⟩ := List.mem_map.mp hd
        exact hsorted.below x hx
      failedOpen := by
        intro env pathPtr pathLen mode e he
        have h := call_orSame hk env (.openPath pathPtr pathLen mode) k rfl
        rw [he] at h
        exact h
      isolated := by
        rintro env op fd other (⟨index, rfl⟩ | ⟨pos, length, rfl⟩) hne hother
        · exact openHandle_kept (call_seek hk.1 env fd index) hne hother
        · exact openHandle_kept (call_read hk.1 env fd pos length) hne hother
      closed := by
        rintro as env fd bs u r rfl hu hclose
        obtain ⟨u', hu', hrest⟩ := run_front hrun
        obtain rfl : u = u' := Option.some.inj (hu.symm.trans hu')
        obtain ⟨v, hv, hrest⟩ := Option.bind_eq_some_iff.mp hrest
        obtain ⟨hserve', hsorted'⟩ := Numbered.run_ordered hstep hserve hordered hu
        have hchanges := call_close hserve'.1 env fd u rfl
        rw [hclose] at hchanges
        obtain ⟨_, hstate⟩ := fileStep_cases hv
        dsimp only at hstate
        rw [hstate] at hchanges
        obtain ⟨hlt, hnone⟩ := hchanges.changes.removed hsorted'
        exact unknown_of_lookup hk (Numbered.run_lookup_none hstep (hstep u _ v hserve' hv).1 hlt hnone hrest) }

end Laws

/-! ### One file -/

/-- Every path is empty. -/
def Env.emptyPaths : Env .flat := { Env.plain with userString := fun _ _ => some [] }

def Kernel.reader : Kernel .flat :=
  { Kernel.family .empty with
    roots := (∅ : Finmap fun _ : TaskId => ProcRootFs).insert parentId ⟨parentId, []⟩ }

def readerTask (files : TaskFileStorage) : TaskContext .flat parentId :=
  { TaskContext.fresh initId parentId (fun _ => none) with children := [childId], files := files }

/-- The reader with its root open as the first file. -/
def Kernel.reading : Kernel .flat :=
  Kernel.reader.withFiles (readerTask (.new parentId))
    ⟨parentId, [(⟨1, Nat.one_pos⟩, dirNamesToHandle [])], ⟨2, Nat.two_pos⟩⟩

theorem reader_opens : Comp.Yields (FileCall.openPath .emptyPaths 0 0 0) Kernel.reader
    ⟨1, Nat.one_pos⟩ Kernel.reading := by
  unfold FileCall.openPath
  iterate 6 refine Comp.Yields.bind (Comp.Yields.of_eq rfl) ?_
  refine Yields.withGuard (Comp.Yields.bind (Comp.Yields.of_eq rfl) ?_)
  rw [openPathFull_nil]
  exact Comp.Yields.of_eq rfl

theorem reader_step : fileStep Kernel.reader (.emptyPaths, .openPath 0 0 0) = some Kernel.reading := by
  let reply (fd : FileDescriptor) : KernelM .flat SyscallError Reply := Comp.ret { rdi := some fd.raw }
  have hcall : Comp.Yields ((FileOp.openPath 0 0 0).call .emptyPaths) Kernel.reader
    { rdi := some 1 } Kernel.reading :=
    Comp.Yields.bind (f := reply) reader_opens (Comp.Yields.of_eq rfl)
  unfold fileStep
  rw [hcall.outcome, hcall.state]

theorem reader_run :
    ∃ k, run fileStep Kernel.reader [(.emptyPaths, .openPath 0 0 0), (.emptyPaths, .close 1)] = some k := by
  rw [run, reader_step, Option.bind_some]
  exact ⟨_, rfl⟩

/-- The laws hold of a file that was opened and closed. -/
theorem reader_laws : ∃ k,
    run fileStep Kernel.reader [(.emptyPaths, .openPath 0 0 0), (.emptyPaths, .close 1)] = some k ∧
    DescriptorLaws parentId Kernel.reader [(.emptyPaths, .openPath 0 0 0), (.emptyPaths, .close 1)] k := by
  obtain ⟨k, hk⟩ := reader_run
  have hfound : Kernel.reader.tasks.lookup parentId = some (readerTask (.new parentId)) := rfl
  have hfiles : (readerTask (.new parentId)).files = .new parentId := rfl
  exact ⟨k, hk, descriptors_never_reused rfl hfound hfiles hk⟩

/-- A buffer in the kernel's half is noticed before the closed descriptor. -/
theorem closed_read_with_bad_buffer :
    fileStep Kernel.reader (.emptyPaths, .openPath 0 0 0) = some Kernel.reading ∧
      ((FileOp.close 1).call .emptyPaths Kernel.reading).outcome = .ok {} ∧
      ((FileOp.read 1 (2 ^ 63) 0).call .emptyPaths
        ((FileOp.close 1).call .emptyPaths Kernel.reading).state).outcome = .err .wrongParameters :=
  ⟨reader_step, rfl, rfl⟩

end Idkernel
