import Idkernel.Traced

/-!
# Spin locks on one CPU

Guards are not taken from a lock table while a computation runs: every
acquisition and release is logged, and the log is replayed on the guards the
CPU holds. The CPU spins forever exactly at the first acquisition that
conflicts with a guard it still holds, which is where the replay gets stuck.
Read locks are shared; a mutex is a lock that is only ever taken for writing.
-/
namespace Locks

open Traced

variable {L κ σ ε α β : Type}

inductive Mode where
  | read | write
  deriving DecidableEq, Repr

inductive Event (L κ : Type) where
  | acquire : L → Mode → Event L κ
  | release : L → Mode → Event L κ
  | note : κ → Event L κ
  deriving DecidableEq, Repr

/-- What is logged besides the lock operations. -/
def notes : List (Event L κ) → List κ
  | [] => []
  | .note k :: es => k :: notes es
  | _ :: es => notes es

@[simp] theorem notes_nil : notes ([] : List (Event L κ)) = [] := rfl
@[simp] theorem notes_note (k : κ) (es : List (Event L κ)) : notes (.note k :: es) = k :: notes es := rfl
@[simp] theorem notes_acquire (l : L) (m : Mode) (es : List (Event L κ)) :
    notes (.acquire l m :: es) = notes es := rfl
@[simp] theorem notes_release (l : L) (m : Mode) (es : List (Event L κ)) :
    notes (.release l m :: es) = notes es := rfl

@[simp] theorem notes_append (es fs : List (Event L κ)) : notes (es ++ fs) = notes es ++ notes fs := by
  induction es with
  | nil => rfl
  | cons e es ih => cases e <;> simp [ih]

/-- A scope that owns a guard: released at its end, also on an early return, but not
by a panic, which stops the CPU. -/
def withGuard (l : L) (m : Mode) (body : Comp σ (Event L κ) ε α) : Comp σ (Event L κ) ε α := fun s =>
  let r := body s
  ⟨r.outcome, r.state, .acquire l m :: (r.events ++
    match r.outcome with
    | .panic => []
    | _ => [.release l m])⟩

@[simp] theorem withGuard_outcome (l : L) (m : Mode) (body : Comp σ (Event L κ) ε α) (s : σ) :
    (withGuard l m body s).outcome = (body s).outcome := rfl

@[simp] theorem withGuard_state (l : L) (m : Mode) (body : Comp σ (Event L κ) ε α) (s : σ) :
    (withGuard l m body s).state = (body s).state := rfl

theorem withGuard_congr {l : L} {m : Mode} {body body' : Comp σ (Event L κ) ε α} {s : σ}
    (h : body s = body' s) : withGuard l m body s = withGuard l m body' s := by
  unfold withGuard
  rw [h]

theorem withGuard_ok {l : L} {m : Mode} {body : Comp σ (Event L κ) ε α} {s s' : σ} {a : α}
    (es : List (Event L κ)) (h : body s = ⟨.ok a, s', es⟩) :
    withGuard l m body s = ⟨.ok a, s', .acquire l m :: (es ++ [.release l m])⟩ := by
  unfold withGuard
  rw [h]

theorem withGuard_err {l : L} {m : Mode} {body : Comp σ (Event L κ) ε α} {s s' : σ} {e : ε}
    (es : List (Event L κ)) (h : body s = ⟨.err e, s', es⟩) :
    withGuard l m body s = ⟨.err e, s', .acquire l m :: (es ++ [.release l m])⟩ := by
  unfold withGuard
  rw [h]

theorem Yields.withGuard {l : L} {m : Mode} {body : Comp σ (Event L κ) ε α} {s s' : σ} {a : α}
    (h : Comp.Yields body s a s') : Comp.Yields (withGuard l m body) s a s' := by
  obtain ⟨es, he⟩ := h
  exact ⟨_, withGuard_ok es he⟩

@[simp] theorem withGuard_notes (l : L) (m : Mode) (body : Comp σ (Event L κ) ε α) (s : σ) :
    notes (withGuard l m body s).events = notes (body s).events := by
  cases h : (body s).outcome <;> simp [withGuard, h]

/-- Guards are invisible to a property of the data alone. -/
theorem Triple.withGuard {P : σ → Prop} {Q : α → σ → Prop} {E F : σ → Prop} {l : L} {m : Mode}
    {body : Comp σ (Event L κ) ε α} (h : Comp.Triple P body Q E F) :
    Comp.Triple P (withGuard l m body) Q E F := h

/-- A note is made behind a part that makes none only if that part came to its end. -/
theorem mem_notes_bind {m : Comp σ (Event L κ) ε α} {f : α → Comp σ (Event L κ) ε β} {s : σ} {n : κ}
    (hm : notes (m s).events = []) (h : n ∈ notes ((m >>= f) s).events) :
    ∃ a, (m s).outcome = .ok a ∧ n ∈ notes (f a (m s).state).events := by
  rw [Comp.bind_run] at h
  cases ho : (m s).outcome with
  | ok a =>
    rw [ho] at h
    simp only [after_events, notes_append, hm, List.nil_append] at h
    exact ⟨a, rfl, h⟩
  | err e => simp [ho, hm] at h
  | panic => simp [ho, hm] at h

theorem mem_notes_decide {m : Comp σ (Event L κ) ε α} {f : α → Comp σ (Event L κ) ε β} {s : σ} {n : κ}
    (hm : Comp.Still m) (h : n ∈ notes ((m >>= f) s).events) :
    ∃ a, (m s).outcome = .ok a ∧ n ∈ notes (f a s).events := by
  obtain ⟨a, ha, hn⟩ := mem_notes_bind (by rw [(hm s).2]; rfl) h
  exact ⟨a, ha, by rwa [(hm s).1] at hn⟩

/-- A second part that makes no notes adds none. -/
theorem notes_bind_quiet {m : Comp σ (Event L κ) ε α} {f : α → Comp σ (Event L κ) ε β}
    (hf : ∀ a s, notes (f a s).events = []) (s : σ) : notes ((m >>= f) s).events = notes (m s).events := by
  rw [Comp.bind_run]
  cases (m s).outcome with
  | ok a => simp [hf a]
  | err e => rfl
  | panic => rfl

theorem notes_still {m : Comp σ (Event L κ) ε α} (hm : Comp.Still m) (s : σ) : notes (m s).events = [] := by
  rw [(hm s).2]
  rfl

/-- A loop makes the notes of its bodies. -/
theorem mem_notes_forEach {xs : List α} {f : α → Comp σ (Event L κ) ε Unit} {s : σ} {n : κ}
    (h : n ∈ notes (Comp.forEach xs f s).events) : ∃ x ∈ xs, ∃ s', n ∈ notes (f x s').events := by
  induction xs generalizing s with
  | nil => cases h
  | cons x rest ih =>
    simp only [Comp.forEach, Comp.bind_run] at h
    cases ho : (f x s).outcome with
    | ok a =>
      rw [ho] at h
      simp only [after_events, notes_append, List.mem_append] at h
      rcases h with h | h
      · exact ⟨x, by simp, s, h⟩
      · obtain ⟨y, hy, s', hn⟩ := ih h
        exact ⟨y, by simp [hy], s', hn⟩
    | err e =>
      rw [ho] at h
      exact ⟨x, by simp, s, h⟩
    | panic =>
      rw [ho] at h
      exact ⟨x, by simp, s, h⟩

theorem mem_notes {n : κ} {es : List (Event L κ)} : n ∈ notes es ↔ .note n ∈ es := by
  induction es with
  | nil => simp
  | cons e es ih => cases e <;> simp [ih]

/-! ## Computations without locks -/

/-- It takes no lock and gives none back. -/
def Lockless (m : Comp σ (Event L κ) ε α) : Prop := ∀ s, ∀ e ∈ (m s).events, ∃ k, e = .note k

theorem Lockless.silent {m : Comp σ (Event L κ) ε α} (h : ∀ s, (m s).events = []) : Lockless m := by
  intro s e he
  rw [h s] at he
  cases he

theorem Lockless.still {m : Comp σ (Event L κ) ε α} (h : Comp.Still m) : Lockless m :=
  Lockless.silent fun s => (h s).2

theorem Lockless.note (k : κ) : Lockless (Comp.emit (.note k) : Comp σ (Event L κ) ε Unit) := by
  intro s e he
  exact ⟨k, List.mem_singleton.mp he⟩

theorem Lockless.bind {m : Comp σ (Event L κ) ε α} {f : α → Comp σ (Event L κ) ε β} (hm : Lockless m)
    (hf : ∀ a, Lockless (f a)) : Lockless (m >>= f) := by
  intro s e he
  rw [Comp.bind_run] at he
  cases ho : (m s).outcome with
  | ok a =>
    rw [ho] at he
    rcases List.mem_append.mp he with he | he
    · exact hm s e he
    · exact hf a _ e he
  | err x =>
    rw [ho] at he
    exact hm s e he
  | panic =>
    rw [ho] at he
    exact hm s e he

theorem Lockless.mapErr {ε' : Type} {f : ε → ε'} {m : Comp σ (Event L κ) ε α} (h : Lockless m) :
    Lockless (Comp.mapErr f m) := by
  intro s e he
  rw [Comp.mapErr_events] at he
  exact h s e he

theorem Lockless.forEach {xs : List α} {f : α → Comp σ (Event L κ) ε Unit} (hf : ∀ x, Lockless (f x)) :
    Lockless (Comp.forEach xs f) := by
  induction xs with
  | nil => exact Lockless.silent fun _ => rfl
  | cons x rest ih => exact Lockless.bind (hf x) fun _ => ih

theorem Lockless.zoom {τ : Type} {get : σ → τ} {put : τ → σ → σ} {m : Comp τ (Event L κ) ε α}
    (h : Lockless m) : Lockless (Comp.zoom get put m) := fun s => h (get s)

/-! ## Replaying the log -/

variable [DecidableEq L]

abbrev Held (L : Type) := List (L × Mode)

/-- A new guard conflicts with a held one on the same lock unless both are readers. -/
def Conflicts (held : Held L) (l : L) (m : Mode) : Prop :=
  ∃ g ∈ held, g.1 = l ∧ (m = .write ∨ g.2 = .write)

instance (held : Held L) (l : L) (m : Mode) : Decidable (Conflicts held l m) :=
  inferInstanceAs (Decidable (∃ g ∈ held, _))

/-- `none`: the CPU spins forever, or gives back a guard it does not hold. -/
def replayStep (held : Held L) : Event L κ → Option (Held L)
  | .acquire l m => if Conflicts held l m then none else some ((l, m) :: held)
  | .release l m => if (l, m) ∈ held then some (held.erase (l, m)) else none
  | .note _ => some held

def replay : Held L → List (Event L κ) → Option (Held L)
  | held, [] => some held
  | held, e :: es => (replayStep held e).bind fun held' => replay held' es

@[simp] theorem replay_nil (held : Held L) : replay held ([] : List (Event L κ)) = some held := rfl
@[simp] theorem replay_note (held : Held L) (k : κ) (es : List (Event L κ)) :
    replay held (.note k :: es) = replay held es := rfl

theorem replay_acquire {held : Held L} {l : L} {m : Mode} (h : ¬ Conflicts held l m)
    (es : List (Event L κ)) : replay held (.acquire l m :: es) = replay ((l, m) :: held) es := by
  simp [replay, replayStep, h]

theorem replay_conflict {held : Held L} {l : L} {m : Mode} (h : Conflicts held l m)
    (es : List (Event L κ)) : replay held (.acquire l m :: es) = none := by
  simp [replay, replayStep, h]

@[simp] theorem replay_release_head (held : Held L) (l : L) (m : Mode) (es : List (Event L κ)) :
    replay ((l, m) :: held) (.release l m :: es) = replay held es := by
  simp [replay, replayStep]

theorem replay_append (held : Held L) (es fs : List (Event L κ)) :
    replay held (es ++ fs) = (replay held es).bind fun held' => replay held' fs := by
  induction es generalizing held with
  | nil => rfl
  | cons e es ih =>
    simp only [List.cons_append, replay]
    cases replayStep held e with
    | none => rfl
    | some held' => exact ih held'

/-! ## The guard discipline -/

/-- Run by a CPU holding `held`, the computation never spins on its own guards, and if
it comes back it holds `held` again. -/
def Guarded (held : Held L) (m : Comp σ (Event L κ) ε α) (s : σ) : Prop :=
  ∃ held', replay held (m s).events = some held' ∧ ((m s).outcome ≠ .panic → held' = held)

/-- The CPU spins forever on a lock it holds itself. -/
def Stuck (held : Held L) (m : Comp σ (Event L κ) ε α) (s : σ) : Prop :=
  replay held (m s).events = none

theorem Guarded.not_stuck {held : Held L} {m : Comp σ (Event L κ) ε α} {s : σ}
    (h : Guarded held m s) : ¬ Stuck held m s := by
  obtain ⟨held', he, _⟩ := h
  simp [Stuck, he]

theorem Lockless.guarded {held : Held L} {m : Comp σ (Event L κ) ε α} (h : Lockless m) (s : σ) :
    Guarded held m s := by
  refine ⟨held, ?_, fun _ => rfl⟩
  have hnotes := h s
  generalize (m s).events = es at hnotes
  induction es with
  | nil => rfl
  | cons e es ih =>
    obtain ⟨k, rfl⟩ := hnotes e (by simp)
    exact ih fun e' he' => hnotes e' (by simp [he'])

theorem Guarded.bind {held : Held L} {m : Comp σ (Event L κ) ε α} {f : α → Comp σ (Event L κ) ε β}
    {s : σ} (hm : Guarded held m s)
    (hf : ∀ a, (m s).outcome = .ok a → Guarded held (f a) (m s).state) : Guarded held (m >>= f) s := by
  obtain ⟨h₁, he, hh⟩ := hm
  cases ho : (m s).outcome with
  | ok a =>
    obtain ⟨h₂, hfe, hfh⟩ := hf a ho
    have hk : h₁ = held := hh (by simp [ho])
    subst hk
    refine ⟨h₂, ?_, ?_⟩
    · rw [Comp.bind_ok ho, after_events, replay_append, he]
      exact hfe
    · rw [Comp.bind_ok ho]
      exact hfh
  | err e =>
    refine ⟨h₁, ?_, fun _ => hh (by simp [ho])⟩
    rw [Comp.bind_err ho]
    exact he
  | panic =>
    refine ⟨h₁, ?_, ?_⟩
    · rw [Comp.bind_panic ho]
      exact he
    · simp [Comp.bind_panic ho]

theorem Guarded.withGuard {held : Held L} {l : L} {md : Mode} {body : Comp σ (Event L κ) ε α} {s : σ}
    (hc : ¬ Conflicts held l md) (hb : Guarded ((l, md) :: held) body s) :
    Guarded held (withGuard l md body) s := by
  obtain ⟨h₁, he, hh⟩ := hb
  by_cases hp : (body s).outcome = .panic
  · refine ⟨h₁, ?_, by simp [hp]⟩
    simp only [Locks.withGuard, hp, List.append_nil]
    rw [replay_acquire hc, he]
  · have hk := hh hp
    subst hk
    refine ⟨held, ?_, fun _ => rfl⟩
    have hev : (Locks.withGuard l md body s).events =
        .acquire l md :: ((body s).events ++ [.release l md]) := by
      cases ho : (body s).outcome with
      | panic => exact absurd ho hp
      | _ => simp [Locks.withGuard, ho]
    rw [hev, replay_acquire hc, replay_append, he]
    exact replay_release_head held l md []

theorem Guarded.mapErr {ε' : Type} {held : Held L} {f : ε → ε'} {m : Comp σ (Event L κ) ε α} {s : σ}
    (h : Guarded held m s) : Guarded held (Comp.mapErr f m) s := by
  obtain ⟨h₁, he, hh⟩ := h
  cases ho : (m s).outcome with
  | panic => exact ⟨h₁, by simpa [Comp.mapErr, ho] using he, by simp [Comp.mapErr, ho]⟩
  | _ => exact ⟨h₁, by simpa [Comp.mapErr, ho] using he, fun _ => hh (by simp [ho])⟩

/-- The bind rule behind a computation that only decides. -/
theorem Guarded.decide {held : Held L} {m : Comp σ (Event L κ) ε α} {f : α → Comp σ (Event L κ) ε β} {s : σ}
    (hm : Comp.Still m) (hf : ∀ a, (m s).outcome = .ok a → Guarded held (f a) s) : Guarded held (m >>= f) s := by
  apply Guarded.bind ((Lockless.still hm).guarded s)
  intro a ho
  rw [(hm s).1]
  exact hf a ho

theorem Guarded.zoom {τ : Type} {held : Held L} {get : σ → τ} {put : τ → σ → σ}
    {m : Comp τ (Event L κ) ε α} {s : σ} (h : Guarded held m (get s)) :
    Guarded held (Comp.zoom get put m) s := h

theorem Stuck.left {held : Held L} {m : Comp σ (Event L κ) ε α} {f : α → Comp σ (Event L κ) ε β}
    {s : σ} (h : Stuck held m s) : Stuck held (m >>= f) s := by
  unfold Stuck at h ⊢
  cases ho : (m s).outcome with
  | ok a => rw [Comp.bind_ok ho, after_events, replay_append, h]; rfl
  | err e => rw [Comp.bind_err ho]; exact h
  | panic => rw [Comp.bind_panic ho]; exact h

theorem Stuck.right {held : Held L} {m : Comp σ (Event L κ) ε α} {f : α → Comp σ (Event L κ) ε β}
    {s : σ} {a : α} (hm : Guarded held m s) (ho : (m s).outcome = .ok a)
    (hf : Stuck held (f a) (m s).state) : Stuck held (m >>= f) s := by
  obtain ⟨h₁, he, hh⟩ := hm
  have hk : h₁ = held := hh (by simp [ho])
  subst hk
  unfold Stuck at hf ⊢
  rw [Comp.bind_ok ho, after_events, replay_append, he]
  exact hf

theorem Stuck.inside {held : Held L} {l : L} {md : Mode} {body : Comp σ (Event L κ) ε α} {s : σ}
    (hc : ¬ Conflicts held l md) (hb : Stuck ((l, md) :: held) body s) :
    Stuck held (withGuard l md body) s := by
  unfold Stuck at hb ⊢
  simp only [withGuard]
  rw [replay_acquire hc, replay_append, hb]
  rfl

end Locks
