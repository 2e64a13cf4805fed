import Idkernel.Effects

/-!
# What one task can do to another

Whatever state a syscall is made in, it leaves the tasks other than its caller
alone, except that a parent may give its child a capability or start it.
-/
namespace Idkernel

open Address Traced Locks

variable {pg : Paging} {ε : Type}

/-- Storage, open files, entry point and parent are what they were. -/
def Untouched {b : TaskId} (task task' : TaskContext pg b) : Prop :=
  task'.capabilities = task.capabilities ∧ task'.files = task.files ∧
    task'.userEntryPoint = task.userEntryPoint ∧ task'.parent = task.parent

/-- At most one capability is appended, and nothing else is changed. -/
def Endowed {b : TaskId} (task task' : TaskContext pg b) : Prop :=
  ∃ caps added, task' = { task with capabilities := caps } ∧
    caps.handles = task.capabilities.handles ++ added ∧ added.length ≤ 1

/-- A task without an entry point gets one, and a page table, and nothing else is changed. -/
def Started {b : TaskId} (task task' : TaskContext pg b) : Prop :=
  task.userEntryPoint = .zero ∧ ∃ table entry, task' = { task with pageTable := table, userEntryPoint := entry }

theorem Untouched.rfl {b : TaskId} {task : TaskContext pg b} : Untouched task task :=
  ⟨.refl _, .refl _, .refl _, .refl _⟩

/-- The syscall is `code` and its first argument is the number of `b`. -/
def AllSavedRegisters.Names (regs : AllSavedRegisters) (code : SyscallCode) (b : TaskId) : Prop :=
  SyscallCode.tryFrom regs.rax.toNat = some code ∧ regs.rdi.toNat = b.raw

/-! ## Through the dispatcher -/

section Dispatch

variable {regs : AllSavedRegisters} {b : TaskId}

theorem service_shareTransfer {handle : Nat} {transfer : Bool}
    (h : regs.service = .handler (.processShareTransfer b.raw handle transfer)) :
    regs.Names .processCapShare b ∨ regs.Names .processCapTransfer b := by
  unfold AllSavedRegisters.service at h
  cases hcode : SyscallCode.tryFrom regs.rax.toNat with
  | none =>
    rw [hcode] at h
    cases h
  | some code =>
    rw [hcode] at h
    cases code <;> simp only [SyscallCode.service, reduceCtorEq, Service.handler.injEq,
      Handler.processShareTransfer.injEq] at h
    · exact .inl ⟨hcode, h.1⟩
    · exact .inr ⟨hcode, h.1⟩

theorem service_exec {fd : Nat} (h : regs.service = .handler (.exec b.raw fd)) : regs.Names .processExec b := by
  unfold AllSavedRegisters.service at h
  cases hcode : SyscallCode.tryFrom regs.rax.toNat with
  | none =>
    rw [hcode] at h
    cases h
  | some code =>
    rw [hcode] at h
    cases code <;> simp only [SyscallCode.service, reduceCtorEq, Service.handler.injEq, Handler.exec.injEq] at h
    exact ⟨hcode, h.1⟩

end Dispatch

/-! ## Other tasks -/

/-- What a handler can do to a task other than its caller. -/
inductive DoneTo (a : TaskId) {b : TaskId} (task : TaskContext pg b) : Handler → TaskContext pg b → Prop where
  | untouched {h : Handler} {task' : TaskContext pg b} (same : Untouched task task') : DoneTo a task h task'
  | endowed {handle : Nat} {transfer : Bool} {task' : TaskContext pg b} (parent : task.parent = some a)
      (endowed : Endowed task task') : DoneTo a task (.processShareTransfer b.raw handle transfer) task'
  | started {fd : Nat} {task' : TaskContext pg b} (parent : task.parent = some a)
      (started : Started task task') : DoneTo a task (.exec b.raw fd) task'

section Others

variable {a b : TaskId} {k k' : Kernel pg} {task task' : TaskContext pg b}

theorem Works.other (h : Works a k k') (hb : b ≠ a) : k'.tasks.lookup b = k.tasks.lookup b := by
  rcases h with rfl | h
  · rfl
  · exact h.others b hb

/-- A context that has not been replaced. -/
theorem Touches.elsewhere {b' : TaskId} {R : TaskContext pg b' → TaskContext pg b' → Prop} (h : Touches b' R k k')
    (hb : b ≠ b') (hbefore : k.tasks.lookup b = some task) (hafter : k'.tasks.lookup b = some task') :
    Untouched task task' := by
  obtain rfl : task = task' := Option.some.inj (hbefore.symm.trans ((h.others b hb).symm.trans hafter))
  exact .rfl

theorem Effect.doneTo {h : Handler} {env : Env pg} (he : Effect env a k h k') (hb : b ≠ a)
    (hbefore : k.tasks.lookup b = some task) (hafter : k'.tasks.lookup b = some task') :
    DoneTo a task h task' := by
  cases he with
  | works own =>
    obtain rfl : task = task' := Option.some.inj (hbefore.symm.trans ((own.other hb).symm.trans hafter))
    exact .untouched .rfl
  | @given target handle transfer cap k₁ k' other parted given =>
    have hmid : k₁.tasks.lookup b = some task := (parted.works.other hb).trans hbefore
    by_cases htarget : b = target
    · subst htarget
      obtain ⟨hparent, ⟨caps, rfl⟩, hlist⟩ := given.here hmid hafter
      refine .endowed hparent ?_
      rcases hlist with hlist | ⟨_, new, hlist⟩
      · exact ⟨caps, [], rfl, by rw [hlist, List.append_nil], by simp⟩
      · exact ⟨caps, [(new, cap)], rfl, hlist, by simp⟩
    · exact .untouched (given.elsewhere htarget hmid hafter)
  | @spawned id child caller frames found fresh pid parent caps =>
    have hid : b ≠ id := by
      rintro rfl
      rw [fresh] at hbefore
      cases hbefore
    have hsame : ((k.created id frames).adopt child caller).tasks.lookup b = k.tasks.lookup b :=
      (Finmap.lookup_insert_of_ne _ hb).trans (Finmap.lookup_insert_of_ne _ hid)
    obtain rfl : task = task' := Option.some.inj (hbefore.symm.trans (hsame.symm.trans hafter))
    exact .untouched .rfl
  | @loaded target fd k₁ k' own loaded =>
    have hmid : k₁.tasks.lookup b = some task := (own.other hb).trans hbefore
    by_cases htarget : b = target
    · subst htarget
      obtain ⟨hparent, hstarted⟩ := loaded.here hmid hafter
      exact .started hparent hstarted
    · exact .untouched (loaded.elsewhere htarget hmid hafter)

/-- A switch may take a child off its parent's list, and nothing else. -/
theorem switch_untouched (h : (switchToNextTask k : Ran _ _ ε Bool).outcome ≠ .panic)
    (hbefore : k.tasks.lookup b = some task)
    (hafter : (switchToNextTask k : Ran _ _ ε Bool).state.tasks.lookup b = some task') :
    Untouched task task' := by
  have hsame (he : (switchToNextTask k : Ran _ _ ε Bool).state.tasks = k.tasks) : Untouched task task' := by
    obtain rfl : task = task' := Option.some.inj (hbefore.symm.trans (he ▸ hafter))
    exact .rfl
  obtain ⟨start, running, hcur, hfound, ⟨_, hs⟩ | ⟨_, _, ⟨_, hs⟩ | ⟨_, hs⟩⟩⟩ := switch_cases h
  · exact hsame (by rw [hs]; rfl)
  · exact hsame (by rw [hs]; rfl)
  · rw [hs] at hafter
    obtain ⟨_, t, children, ht, rfl⟩ := without_lookup_cases (k := k.switched running) hafter
    obtain rfl : task = t := Option.some.inj (hbefore.symm.trans ht)
    exact ⟨rfl, rfl, rfl, rfl⟩

/-- A syscall changes no other task, unless a parent shares, transfers or executes into its child. -/
theorem syscall_isolates (env : Env pg) (regs : AllSavedRegisters) (hcur : k.taskId = some a) (hb : b ≠ a)
    (hstep : settle (onSymcall1 env regs) k = some k') (hbefore : k.tasks.lookup b = some task)
    (hafter : k'.tasks.lookup b = some task') :
    Untouched task task' ∨ task.parent = some a ∧
      ((regs.Names .processCapShare b ∨ regs.Names .processCapTransfer b) ∧ Endowed task task' ∨
        regs.Names .processExec b ∧ Started task task') := by
  obtain ⟨ho, rfl⟩ := onSymcall1_cases hstep
  rcases service_cases ho with ⟨_, hs⟩ | ⟨hd, hserv, hcall, hs⟩ | ⟨_, hswitch, hs⟩ |
    ⟨_, t, dying, hcur', hfound, hswitch, hs⟩
  · obtain rfl : task = task' := Option.some.inj (hbefore.symm.trans (hs ▸ hafter))
    exact .inl .rfl
  · have heffect := hd.effect_state hcur env hcall
    rw [hs] at hafter
    cases heffect.doneTo hb hbefore hafter with
    | untouched same => exact .inl same
    | endowed parent endowed => exact .inr ⟨parent, .inl ⟨service_shareTransfer hserv, endowed⟩⟩
    | started parent started => exact .inr ⟨parent, .inr ⟨service_exec hserv, started⟩⟩
  · rw [hs] at hafter
    exact .inl (switch_untouched hswitch hbefore hafter)
  · obtain rfl : a = t := Option.some.inj (hcur.symm.trans hcur')
    rw [hs] at hafter
    have hmarked : (k.marked dying).tasks.lookup b = some task := (Finmap.lookup_insert_of_ne _ hb).trans hbefore
    exact .inl (switch_untouched hswitch hmarked hafter)

end Others

/-- `ProcessCapTransfer` of the first capability to the child. -/
def transferToChild : AllSavedRegisters := .request 0x403 3 0

theorem syscall_isolates_transfer : ∃ k' task task',
    settle (onSymcall1 Env.plain transferToChild) (Kernel.family twoFrames) = some k' ∧
      (Kernel.family twoFrames).tasks.lookup childId = some task ∧ k'.tasks.lookup childId = some task' ∧
      (Untouched task task' ∨ task.parent = some parentId ∧
        ((transferToChild.Names .processCapShare childId ∨ transferToChild.Names .processCapTransfer childId) ∧
            Endowed task task' ∨
          transferToChild.Names .processExec childId ∧ Started task task')) := by
  let k' : Kernel .flat := (onSymcall1 Env.plain transferToChild
    (Kernel.family twoFrames) : Ran _ _ Empty _).state
  have hstep : settle (onSymcall1 Env.plain transferToChild) (Kernel.family twoFrames) = some k' := rfl
  obtain ⟨task, hbefore⟩ : ∃ task, (Kernel.family twoFrames).tasks.lookup childId = some task := ⟨_, rfl⟩
  obtain ⟨task', hafter⟩ : ∃ task', k'.tasks.lookup childId = some task' := ⟨_, rfl⟩
  exact ⟨k', task, task', hstep, hbefore, hafter, syscall_isolates .plain transferToChild rfl
    (by decide) hstep hbefore hafter⟩

/-! ## Newcomers -/

section Newcomers

variable {a b c : TaskId} {k k' : Kernel pg}

theorem Touches.found {R : TaskContext pg a → TaskContext pg a → Prop} (h : Touches a R k k')
    {task' : TaskContext pg c} (hin : k'.tasks.lookup c = some task') : k.tasks.lookup c ≠ none := by
  by_cases hc : c = a
  · subst hc
    obtain ⟨task, _, hfound, _⟩ := h.related
    simp [hfound]
  · rw [← h.others c hc, hin]
    simp

theorem Works.found (h : Works a k k') {task' : TaskContext pg c} (hin : k'.tasks.lookup c = some task') :
    k.tasks.lookup c ≠ none := by
  rcases h with rfl | h
  · simp [hin]
  · exact h.found hin

theorem switch_found (h : (switchToNextTask k : Ran _ _ ε Bool).outcome ≠ .panic) {task' : TaskContext pg c}
    (hin : (switchToNextTask k : Ran _ _ ε Bool).state.tasks.lookup c = some task') :
    k.tasks.lookup c ≠ none := by
  obtain ⟨start, running, hcur, hfound, ⟨_, hs⟩ | ⟨_, _, ⟨_, hs⟩ | ⟨_, hs⟩⟩⟩ := switch_cases h
  · rw [hs, Kernel.popped_tasks] at hin
    simp [hin]
  · have hsame : (k.switched running).tasks = k.tasks := rfl
    rw [hs, hsame] at hin
    simp [hin]
  · rw [hs] at hin
    obtain ⟨_, t, children, ht, _⟩ := without_lookup_cases (k := k.switched running) hin
    exact Option.ne_none_iff_exists'.mpr ⟨t, ht⟩

/-- A newcomer is spawned under the next number, and is nobody's parent. -/
theorem Effect.newcomer {h : Handler} {env : Env pg} (he : Effect env a k h k') (hk : Numbered k)
    (hnew : k.tasks.lookup c = none)
    {task : TaskContext pg c} (hin : k'.tasks.lookup c = some task) {child : TaskContext pg b}
    (hchild : k'.tasks.lookup b = some child) : child.parent ≠ some c := by
  cases he with
  | works own => exact absurd hnew (own.found hin)
  | given other parted given =>
    obtain ⟨t, ht⟩ := Option.ne_none_iff_exists'.mp (given.found hin)
    exact absurd hnew (parted.works.found ht)
  | loaded own loaded =>
    obtain ⟨t, ht⟩ := Option.ne_none_iff_exists'.mp (loaded.found hin)
    exact absurd hnew (own.found ht)
  | @spawned id fresh caller frames found unused pid parent caps =>
    rcases adopt_cases (k := k.created id frames) found hin with ⟨rfl, _⟩ | ⟨t, ht, _⟩
    · rcases adopt_cases (k := k.created c frames) found hchild with ⟨rfl, hp⟩ | ⟨t, ht, hp, _⟩
      · rw [hp, parent]
        intro he
        obtain rfl : a = b := Option.some.inj he
        rw [hnew] at found
        cases found
      · rw [hp]
        intro he
        have := hk.parents b t c ht he
        omega
    · rw [Kernel.created_tasks, hnew] at ht
      cases ht

/-- Nobody inherits the children of a task that is gone: in a reachable state, the task that
a syscall brings in is nobody's parent. -/
theorem newcomer_childless (hk : Reachable k) (hcur : k.taskId = some a) (env : Env pg) (regs : AllSavedRegisters)
    (hstep : kernelStep k (.syscall env regs) = some k') (hnew : k.tasks.lookup c = none)
    {task : TaskContext pg c} (hin : k'.tasks.lookup c = some task) {child : TaskContext pg b}
    (hchild : k'.tasks.lookup b = some child) : child.parent ≠ some c := by
  unfold kernelStep at hstep
  dsimp only at hstep
  split at hstep
  · cases hstep
  obtain ⟨ho, rfl⟩ := onSymcall1_cases hstep
  rcases service_cases ho with ⟨_, hs⟩ | ⟨hd, _, hcall, hs⟩ | ⟨_, hswitch, hs⟩ |
    ⟨_, t, dying, _, hfound, hswitch, hs⟩
  · rw [hs, hnew] at hin
    cases hin
  · rw [hs] at hin hchild
    exact (hd.effect_state hcur env hcall).newcomer hk.numbered hnew hin hchild
  · rw [hs] at hin
    exact absurd hnew (switch_found hswitch hin)
  · rw [hs] at hin
    obtain ⟨t', ht'⟩ := Option.ne_none_iff_exists'.mp (switch_found hswitch hin)
    have hparent : dying.dying.parent = dying.parent := rfl
    obtain ⟨t₀, ht₀, _⟩ := lookup_insert_parent hfound hparent c t' ht'
    rw [hnew] at ht₀
    cases ht₀

end Newcomers

end Idkernel
