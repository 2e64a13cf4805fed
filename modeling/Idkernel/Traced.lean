import Mathlib.Logic.Basic

/-!
# Computations that log, fail and panic

A computation reads and writes a state, appends to an event log, and ends in a
value, in an error that its caller sees, or in a panic that nobody sees. A
panic keeps the state and the log of the moment it happened, so a property of
everything that was done before it can still be stated.
-/
namespace Traced

variable {σ κ ε ε' α β γ : Type}

inductive Outcome (ε α : Type) where
  | ok : α → Outcome ε α
  | err : ε → Outcome ε α
  | panic : Outcome ε α
  deriving DecidableEq, Repr

def Outcome.ofExcept : Except ε α → Outcome ε α
  | .ok a => .ok a
  | .error e => .err e

structure Ran (σ κ ε α : Type) where
  outcome : Outcome ε α
  state : σ
  events : List κ

def Comp (σ κ ε α : Type) := σ → Ran σ κ ε α

/-- Put what was logged earlier in front of a later log. -/
def Ran.after (es : List κ) (r : Ran σ κ ε α) : Ran σ κ ε α := ⟨r.outcome, r.state, es ++ r.events⟩

@[simp] theorem after_outcome (es : List κ) (r : Ran σ κ ε α) : (r.after es).outcome = r.outcome := rfl
@[simp] theorem after_state (es : List κ) (r : Ran σ κ ε α) : (r.after es).state = r.state := rfl
@[simp] theorem after_events (es : List κ) (r : Ran σ κ ε α) :
    (r.after es).events = es ++ r.events := rfl
@[simp] theorem after_nil (r : Ran σ κ ε α) : r.after [] = r := rfl
@[simp] theorem after_after (es fs : List κ) (r : Ran σ κ ε α) :
    (r.after fs).after es = r.after (es ++ fs) := by simp [Ran.after]

namespace Comp

def ret (a : α) : Comp σ κ ε α := fun s => ⟨.ok a, s, []⟩

def bind (m : Comp σ κ ε α) (f : α → Comp σ κ ε β) : Comp σ κ ε β := fun s =>
  match (m s).outcome with
  | .ok a => (f a (m s).state).after (m s).events
  | .err e => ⟨.err e, (m s).state, (m s).events⟩
  | .panic => ⟨.panic, (m s).state, (m s).events⟩

instance : Monad (Comp σ κ ε) where
  pure := ret
  bind := bind

def fail (e : ε) : Comp σ κ ε α := fun s => ⟨.err e, s, []⟩

def abort : Comp σ κ ε α := fun s => ⟨.panic, s, []⟩

def read (f : σ → α) : Comp σ κ ε α := fun s => ⟨.ok (f s), s, []⟩

def write (f : σ → σ) : Comp σ κ ε Unit := fun s => ⟨.ok (), f s, []⟩

def emit (e : κ) : Comp σ κ ε Unit := fun s => ⟨.ok (), s, [e]⟩

/-- `ok_or`: a missing value is the caller's error. -/
def okOr (o : Option α) (e : ε) : Comp σ κ ε α :=
  match o with
  | some a => ret a
  | none => fail e

/-- `unwrap`: a missing value is a panic. -/
def unwrap (o : Option α) : Comp σ κ ε α :=
  match o with
  | some a => ret a
  | none => abort

/-- An early `return Err(e)` unless `p` holds. -/
def require (p : Prop) [Decidable p] (e : ε) : Comp σ κ ε Unit := if p then ret () else fail e

/-- An assertion: a panic unless `p` holds. -/
def expect (p : Prop) [Decidable p] : Comp σ κ ε Unit := if p then ret () else abort

/-- The `From` conversion that `?` applies to an error. -/
def mapErr (f : ε → ε') (m : Comp σ κ ε α) : Comp σ κ ε' α := fun s =>
  match (m s).outcome with
  | .ok a => ⟨.ok a, (m s).state, (m s).events⟩
  | .err e => ⟨.err (f e), (m s).state, (m s).events⟩
  | .panic => ⟨.panic, (m s).state, (m s).events⟩

/-- The result of a fallible operation that was modelled as a plain function. -/
def ofExcept (r : Except ε α) : Comp σ κ ε α :=
  match r with
  | .ok a => ret a
  | .error e => fail e

/-- Hand an error to the caller as a value. -/
def attempt (m : Comp σ κ ε α) : Comp σ κ ε' (Except ε α) := fun s =>
  match (m s).outcome with
  | .ok a => ⟨.ok (.ok a), (m s).state, (m s).events⟩
  | .err e => ⟨.ok (.error e), (m s).state, (m s).events⟩
  | .panic => ⟨.panic, (m s).state, (m s).events⟩

/-- Work on a part of the state. -/
def zoom {τ : Type} (get : σ → τ) (put : τ → σ → σ) (m : Comp τ κ ε α) : Comp σ κ ε α := fun s =>
  ⟨(m (get s)).outcome, put (m (get s)).state s, (m (get s)).events⟩

/-- A loop body run over the items in order, up to the first error or panic. -/
def forEach (xs : List α) (f : α → Comp σ κ ε Unit) : Comp σ κ ε Unit :=
  match xs with
  | [] => ret ()
  | x :: rest => f x >>= fun _ => forEach rest f

@[simp] theorem pure_run (a : α) (s : σ) : (pure a : Comp σ κ ε α) s = ⟨.ok a, s, []⟩ := rfl
@[simp] theorem ret_run (a : α) (s : σ) : (ret a : Comp σ κ ε α) s = ⟨.ok a, s, []⟩ := rfl
@[simp] theorem fail_run (e : ε) (s : σ) : (fail e : Comp σ κ ε α) s = ⟨.err e, s, []⟩ := rfl
@[simp] theorem abort_run (s : σ) : (abort : Comp σ κ ε α) s = ⟨.panic, s, []⟩ := rfl
@[simp] theorem read_run (f : σ → α) (s : σ) : (read f : Comp σ κ ε α) s = ⟨.ok (f s), s, []⟩ := rfl
@[simp] theorem write_run (f : σ → σ) (s : σ) : (write f : Comp σ κ ε Unit) s = ⟨.ok (), f s, []⟩ := rfl
@[simp] theorem emit_run (e : κ) (s : σ) : (emit e : Comp σ κ ε Unit) s = ⟨.ok (), s, [e]⟩ := rfl

@[simp] theorem zoom_run {τ : Type} (get : σ → τ) (put : τ → σ → σ) (m : Comp τ κ ε α) (s : σ) :
    zoom get put m s = ⟨(m (get s)).outcome, put (m (get s)).state s, (m (get s)).events⟩ := rfl

@[simp] theorem attempt_state (m : Comp σ κ ε α) (s : σ) :
    (attempt m s : Ran σ κ ε' (Except ε α)).state = (m s).state := by
  unfold attempt
  cases (m s).outcome <;> rfl
@[simp] theorem mapErr_events (f : ε → ε') (m : Comp σ κ ε α) (s : σ) :
    (mapErr f m s).events = (m s).events := by
  unfold mapErr
  cases (m s).outcome <;> rfl

theorem bind_run (m : Comp σ κ ε α) (f : α → Comp σ κ ε β) (s : σ) :
    (m >>= f) s = match (m s).outcome with
      | .ok a => (f a (m s).state).after (m s).events
      | .err e => ⟨.err e, (m s).state, (m s).events⟩
      | .panic => ⟨.panic, (m s).state, (m s).events⟩ := rfl

theorem bind_ok {m : Comp σ κ ε α} {f : α → Comp σ κ ε β} {s : σ} {a : α}
    (h : (m s).outcome = .ok a) : (m >>= f) s = (f a (m s).state).after (m s).events := by
  rw [bind_run, h]

theorem bind_err {m : Comp σ κ ε α} {f : α → Comp σ κ ε β} {s : σ} {e : ε}
    (h : (m s).outcome = .err e) : (m >>= f) s = ⟨.err e, (m s).state, (m s).events⟩ := by
  rw [bind_run, h]

theorem bind_panic {m : Comp σ κ ε α} {f : α → Comp σ κ ε β} {s : σ}
    (h : (m s).outcome = .panic) : (m >>= f) s = ⟨.panic, (m s).state, (m s).events⟩ := by
  rw [bind_run, h]

@[simp] theorem read_bind (f : σ → α) (g : α → Comp σ κ ε β) (s : σ) :
    (read f >>= g) s = g (f s) s := rfl
@[simp] theorem write_bind (f : σ → σ) (g : Unit → Comp σ κ ε β) (s : σ) :
    (write f >>= g) s = g () (f s) := rfl
@[simp] theorem emit_bind (e : κ) (g : Unit → Comp σ κ ε β) (s : σ) :
    (emit e >>= g) s = (g () s).after [e] := rfl
@[simp] theorem ret_bind (a : α) (g : α → Comp σ κ ε β) (s : σ) : (ret a >>= g) s = g a s := rfl
@[simp] theorem fail_bind (e : ε) (g : α → Comp σ κ ε β) (s : σ) :
    (fail e >>= g) s = ⟨.err e, s, []⟩ := rfl
@[simp] theorem abort_bind (g : α → Comp σ κ ε β) (s : σ) :
    (abort >>= g) s = ⟨.panic, s, []⟩ := rfl

theorem bind_assoc (m : Comp σ κ ε α) (f : α → Comp σ κ ε β) (g : β → Comp σ κ ε γ) :
    (m >>= f) >>= g = m >>= fun a => f a >>= g := by
  funext s
  cases h : (m s).outcome with
  | ok a =>
    rw [bind_ok h]
    cases hf : (f a (m s).state).outcome with
    | ok b =>
      have hmf : ((m >>= f) s).outcome = .ok b := by rw [bind_ok h, after_outcome, hf]
      rw [bind_ok hmf, bind_ok hf, bind_ok h]
      simp
    | err e =>
      have hmf : ((m >>= f) s).outcome = .err e := by rw [bind_ok h, after_outcome, hf]
      rw [bind_err hmf, bind_err hf, bind_ok h]
      rfl
    | panic =>
      have hmf : ((m >>= f) s).outcome = .panic := by rw [bind_ok h, after_outcome, hf]
      rw [bind_panic hmf, bind_panic hf, bind_ok h]
      rfl
  | err e =>
    have hmf : ((m >>= f) s).outcome = .err e := by rw [bind_err h]
    rw [bind_err hmf, bind_err h, bind_err h]
  | panic =>
    have hmf : ((m >>= f) s).outcome = .panic := by rw [bind_panic h]
    rw [bind_panic hmf, bind_panic h, bind_panic h]

instance : LawfulMonad (Comp σ κ ε) := LawfulMonad.mk' (Comp σ κ ε)
  (by
    intro α m
    funext s
    change (m >>= fun a => ret a) s = m s
    cases h : (m s).outcome with
    | ok a => rw [bind_ok h]; simp [Ran.after, ← h]
    | err e => rw [bind_err h, ← h]
    | panic => rw [bind_panic h, ← h])
  (by intro α β a f; funext s; rfl)
  (by intro α β γ m f g; exact bind_assoc m f g)

theorem bind_outcome (m : Comp σ κ ε α) (f : α → Comp σ κ ε β) (s : σ) :
    ((m >>= f) s).outcome = match (m s).outcome with
      | .ok a => (f a (m s).state).outcome
      | .err e => .err e
      | .panic => .panic := by
  rw [bind_run]
  cases (m s).outcome <;> rfl

theorem bind_state (m : Comp σ κ ε α) (f : α → Comp σ κ ε β) (s : σ) :
    ((m >>= f) s).state = match (m s).outcome with
      | .ok a => (f a (m s).state).state
      | _ => (m s).state := by
  rw [bind_run]
  cases (m s).outcome <;> rfl

/-- Whatever comes back has come through the first part. -/
theorem bind_inv {m : Comp σ κ ε α} {f : α → Comp σ κ ε β} {s : σ} {b : β}
    (h : ((m >>= f) s).outcome = .ok b) :
    ∃ a, (m s).outcome = .ok a ∧ (f a (m s).state).outcome = .ok b := by
  rw [bind_outcome] at h
  cases ho : (m s).outcome with
  | ok a => exact ⟨a, rfl, by simpa only [ho] using h⟩
  | err e => simp [ho] at h
  | panic => simp [ho] at h

/-- So it has, and the second part has had the last word. -/
theorem bind_through {m : Comp σ κ ε α} {f : α → Comp σ κ ε β} {s : σ} {b : β}
    (h : ((m >>= f) s).outcome = .ok b) : ∃ a, (m s).outcome = .ok a ∧ (f a (m s).state).outcome = .ok b ∧
      ((m >>= f) s).state = (f a (m s).state).state := by
  obtain ⟨a, ha, hb⟩ := bind_inv h
  exact ⟨a, ha, hb, by rw [bind_ok ha, after_state]⟩

@[simp] theorem require_true {p : Prop} [Decidable p] (h : p) (e : ε) :
    (require p e : Comp σ κ ε Unit) = ret () := by simp [require, h]
@[simp] theorem require_false {p : Prop} [Decidable p] (h : ¬ p) (e : ε) :
    (require p e : Comp σ κ ε Unit) = fail e := by simp [require, h]
@[simp] theorem expect_true {p : Prop} [Decidable p] (h : p) :
    (expect p : Comp σ κ ε Unit) = ret () := by simp [expect, h]
@[simp] theorem expect_false {p : Prop} [Decidable p] (h : ¬ p) :
    (expect p : Comp σ κ ε Unit) = abort := by simp [expect, h]
@[simp] theorem okOr_some (a : α) (e : ε) : (okOr (some a) e : Comp σ κ ε α) = ret a := rfl
@[simp] theorem okOr_none (e : ε) : (okOr none e : Comp σ κ ε α) = fail e := rfl
@[simp] theorem ofExcept_ok (a : α) : (ofExcept (.ok a) : Comp σ κ ε α) = ret a := rfl
@[simp] theorem ofExcept_error (e : ε) : (ofExcept (.error e) : Comp σ κ ε α) = fail e := rfl
@[simp] theorem unwrap_some (a : α) : (unwrap (some a) : Comp σ κ ε α) = ret a := rfl
@[simp] theorem unwrap_none : (unwrap none : Comp σ κ ε α) = abort := rfl

/-! ## Known runs -/

/-- From `s` it returns `a` in the state `s'`, whatever it logs. -/
def Yields (m : Comp σ κ ε α) (s : σ) (a : α) (s' : σ) : Prop := ∃ es, m s = ⟨.ok a, s', es⟩

theorem Yields.of_eq {m : Comp σ κ ε α} {s s' : σ} {a : α} {es : List κ} (h : m s = ⟨.ok a, s', es⟩) :
    Yields m s a s' := ⟨es, h⟩

theorem Yields.outcome {m : Comp σ κ ε α} {s s' : σ} {a : α} (h : Yields m s a s') :
    (m s).outcome = .ok a := by
  obtain ⟨es, he⟩ := h
  rw [he]

theorem Yields.state {m : Comp σ κ ε α} {s s' : σ} {a : α} (h : Yields m s a s') : (m s).state = s' := by
  obtain ⟨es, he⟩ := h
  rw [he]

theorem Yields.bind {m : Comp σ κ ε α} {f : α → Comp σ κ ε β} {s s' s'' : σ} {a : α} {b : β}
    (hm : Yields m s a s') (hf : Yields (f a) s' b s'') : Yields (m >>= f) s b s'' := by
  obtain ⟨es, he⟩ := hm
  obtain ⟨fs, hfs⟩ := hf
  exact ⟨es ++ fs, by rw [bind_run, he]; simp only [hfs]; rfl⟩

theorem Yields.bind_outcome {m : Comp σ κ ε α} {f : α → Comp σ κ ε β} {s s' : σ} {a : α}
    (h : Yields m s a s') : ((m >>= f) s).outcome = (f a s').outcome := by
  obtain ⟨es, he⟩ := h
  rw [bind_run, he]
  rfl

/-! ## Computations that only decide -/

/-- It neither changes the state nor logs anything. -/
def Still (m : Comp σ κ ε α) : Prop := ∀ s, (m s).state = s ∧ (m s).events = []

theorem Still.bind {m : Comp σ κ ε α} {f : α → Comp σ κ ε β} (hm : Still m) (hf : ∀ a, Still (f a)) :
    Still (m >>= f) := by
  intro s
  obtain ⟨hs, he⟩ := hm s
  rw [bind_run]
  cases ho : (m s).outcome with
  | ok a =>
    obtain ⟨hfs, hfe⟩ := hf a (m s).state
    exact ⟨hfs.trans hs, by simp only [after_events, hfe, he, List.append_nil]⟩
  | err e => exact ⟨hs, he⟩
  | panic => exact ⟨hs, he⟩

theorem Still.ret (a : α) : Still (ret a : Comp σ κ ε α) := fun _ => ⟨rfl, rfl⟩

theorem Still.read (f : σ → α) : Still (read f : Comp σ κ ε α) := fun _ => ⟨rfl, rfl⟩

theorem Still.require {p : Prop} [Decidable p] {e : ε} : Still (require p e : Comp σ κ ε Unit) := by
  intro s
  by_cases h : p <;> simp [h]

theorem Still.expect {p : Prop} [Decidable p] : Still (expect p : Comp σ κ ε Unit) := by
  intro s
  by_cases h : p <;> simp [h]

theorem Still.okOr (o : Option α) (e : ε) : Still (okOr o e : Comp σ κ ε α) := by
  cases o <;> exact fun _ => ⟨rfl, rfl⟩

theorem Still.unwrap (o : Option α) : Still (unwrap o : Comp σ κ ε α) := by
  cases o <;> exact fun _ => ⟨rfl, rfl⟩

theorem Still.ofExcept (r : Except ε α) : Still (ofExcept r : Comp σ κ ε α) := by
  cases r <;> exact fun _ => ⟨rfl, rfl⟩

theorem Still.bind_ok {m : Comp σ κ ε α} {f : α → Comp σ κ ε β} {s : σ} {a : α} (hm : Still m)
    (h : (m s).outcome = .ok a) : (m >>= f) s = f a s := by
  rw [Comp.bind_ok h, (hm s).1, (hm s).2, after_nil]

theorem Still.bind_inv {m : Comp σ κ ε α} {f : α → Comp σ κ ε β} {s : σ} {b : β} (hm : Still m)
    (h : ((m >>= f) s).outcome = .ok b) : ∃ a, (m s).outcome = .ok a ∧ (f a s).outcome = .ok b := by
  obtain ⟨a, ha, hf⟩ := Comp.bind_inv h
  exact ⟨a, ha, by rwa [(hm s).1] at hf⟩

/-- A condition that was tested and found to hold. -/
theorem require_ok {p : Prop} [Decidable p] {e : ε} {s : σ} {u : Unit}
    (h : (require p e s : Ran σ κ ε Unit).outcome = .ok u) : p := by
  by_cases hp : p
  · exact hp
  · simp [hp] at h

theorem expect_ok {p : Prop} [Decidable p] {s : σ} {u : Unit}
    (h : (expect p s : Ran σ κ ε Unit).outcome = .ok u) : p := by
  by_cases hp : p
  · exact hp
  · simp [hp] at h

theorem okOr_ok {o : Option α} {e : ε} {s : σ} {a : α} (h : (okOr o e s : Ran σ κ ε α).outcome = .ok a) :
    o = some a := by
  cases o with
  | none => simp at h
  | some b => simpa using h

theorem ofExcept_ok_inv {r : Except ε α} {s : σ} {a : α} (h : (ofExcept r s : Ran σ κ ε α).outcome = .ok a) :
    r = .ok a := by
  cases r with
  | error e => simp at h
  | ok b => simpa using h

theorem mapErr_ok {f : ε → ε'} {m : Comp σ κ ε α} {s : σ} {a : α} (h : (mapErr f m s).outcome = .ok a) :
    (m s).outcome = .ok a := by
  unfold mapErr at h
  cases ho : (m s).outcome with
  | ok b =>
    rw [ho] at h
    cases h
    rfl
  | err e => simp [ho] at h
  | panic => simp [ho] at h

theorem unwrap_ok {o : Option α} {s : σ} {a : α} (h : (unwrap o s : Ran σ κ ε α).outcome = .ok a) :
    o = some a := by
  cases o with
  | none => simp at h
  | some b => simpa using h

/-! ## Computations that do not panic -/

/-- It comes back with a value, or with one of the errors. -/
def Settles (m : Comp σ κ ε α) (E : ε → Prop) (s : σ) : Prop :=
  match (m s).outcome with
  | .ok _ => True
  | .err e => E e
  | .panic => False

section Settles

variable {E : ε → Prop} {s : σ}

theorem settles_not_panic {m : Comp σ κ ε α} (h : Settles m E s) : (m s).outcome ≠ .panic := by
  intro hp
  rw [Settles, hp] at h
  exact h

theorem settles_pure (a : α) : Settles (pure a : Comp σ κ ε α) E s := trivial

theorem settles_unwrap_bind {o : Option α} {f : α → Comp σ κ ε β} :
    Settles (unwrap o >>= f) E s ↔ ∃ a, o = some a ∧ Settles (f a) E s := by
  cases o with
  | none => simp [Settles]
  | some a => simp [Settles]

theorem settles_okOr_bind {o : Option α} {e : ε} {f : α → Comp σ κ ε β} (he : E e) :
    Settles (okOr o e >>= f) E s ↔ ∀ a, o = some a → Settles (f a) E s := by
  cases o with
  | none => simp [Settles, he]
  | some a => simp [Settles]

theorem settles_check_bind {r : Except ε Unit} {f : Unit → Comp σ κ ε β} (hr : ∀ e, r = .error e → E e) :
    Settles (ofExcept r >>= f) E s ↔ (r = .ok () → Settles (f ()) E s) := by
  cases r with
  | error e => simp [Settles, hr e rfl]
  | ok a => simp [Settles]

theorem Still.settles_bind {m : Comp σ κ ε α} {f : α → Comp σ κ ε β} (hm : Still m) :
    Settles (m >>= f) E s ↔ Settles m E s ∧ ∀ a, (m s).outcome = .ok a → Settles (f a) E s := by
  unfold Settles
  rw [Comp.bind_outcome, (hm s).1]
  cases (m s).outcome <;> simp

end Settles

/-! ## Preconditions and postconditions -/

/-- From every state in `P`, a value is returned in a state related to it by `Q`, an
error leaves a state in `E`, and a panic one in `F`. -/
def Triple (P : σ → Prop) (m : Comp σ κ ε α) (Q : α → σ → Prop) (E F : σ → Prop) : Prop :=
  ∀ s, P s → match (m s).outcome with
    | .ok a => Q a (m s).state
    | .err _ => E (m s).state
    | .panic => F (m s).state

variable {P P' : σ → Prop} {E E' F F' : σ → Prop} {Q Q' : α → σ → Prop} {R : β → σ → Prop}

theorem Triple.bind {m : Comp σ κ ε α} {f : α → Comp σ κ ε β}
    (hm : Triple P m Q E F) (hf : ∀ a, Triple (Q a) (f a) R E F) : Triple P (m >>= f) R E F := by
  intro s hs
  have h := hm s hs
  rw [bind_outcome, bind_state]
  cases ho : (m s).outcome with
  | ok a =>
    rw [ho] at h
    exact hf a _ h
  | err e => simpa only [ho] using h
  | panic => simpa only [ho] using h

theorem Triple.conseq {m : Comp σ κ ε α} (hm : Triple P m Q E F) (hP : ∀ s, P' s → P s)
    (hQ : ∀ a s, Q a s → Q' a s) (hE : ∀ s, E s → E' s) (hF : ∀ s, F s → F' s) :
    Triple P' m Q' E' F' := by
  intro s hs
  have h := hm s (hP s hs)
  cases ho : (m s).outcome with
  | ok a => rw [ho] at h; exact hQ a _ h
  | err e => rw [ho] at h; exact hE _ h
  | panic => rw [ho] at h; exact hF _ h

theorem Triple.ret {a : α} (h : ∀ s, P s → Q a s) : Triple P (ret a : Comp σ κ ε α) Q E F := h
theorem Triple.fail {e : ε} (h : ∀ s, P s → E s) : Triple P (fail e : Comp σ κ ε α) Q E F := h
theorem Triple.abort (h : ∀ s, P s → F s) : Triple P (abort : Comp σ κ ε α) Q E F := h

theorem Triple.read (f : σ → α) :
    Triple P (read f : Comp σ κ ε α) (fun a s => P s ∧ a = f s) E F := fun _ hs => ⟨hs, rfl⟩

theorem Triple.write {f : σ → σ} {Q : Unit → σ → Prop} (h : ∀ s, P s → Q () (f s)) :
    Triple P (write f : Comp σ κ ε Unit) Q E F := h

theorem Triple.require {p : Prop} [Decidable p] {e : ε} (h : ∀ s, P s → ¬ p → E s) :
    Triple P (require p e : Comp σ κ ε Unit) (fun _ s => P s ∧ p) E F := by
  intro s hs
  by_cases hp : p
  · simpa [hp] using hs
  · simpa [hp] using h s hs hp

theorem Triple.expect {p : Prop} [Decidable p] (h : ∀ s, P s → ¬ p → F s) :
    Triple P (expect p : Comp σ κ ε Unit) (fun _ s => P s ∧ p) E F := by
  intro s hs
  by_cases hp : p
  · simpa [hp] using hs
  · simpa [hp] using h s hs hp

theorem Triple.okOr {o : Option α} {e : ε} (h : ∀ s, P s → E s) :
    Triple P (okOr o e : Comp σ κ ε α) (fun a s => P s ∧ o = some a) E F := by
  intro s hs
  cases o with
  | some a => exact ⟨hs, rfl⟩
  | none => exact h s hs

theorem Triple.unwrap {o : Option α} (h : ∀ s, P s → F s) :
    Triple P (unwrap o : Comp σ κ ε α) (fun a s => P s ∧ o = some a) E F := by
  intro s hs
  cases o with
  | some a => exact ⟨hs, rfl⟩
  | none => exact h s hs

theorem Triple.ofExcept {r : Except ε α} (h : ∀ s, P s → E s) :
    Triple P (ofExcept r : Comp σ κ ε α) (fun a s => P s ∧ r = .ok a) E F := by
  intro s hs
  cases r with
  | ok a => exact ⟨hs, rfl⟩
  | error e => exact h s hs

/-- Behind a computation that leaves the state alone. -/
theorem Triple.steady {m : Comp σ κ ε α} (hm : ∀ s, (m s).state = s) (hE : ∀ s, P s → E s)
    (hF : ∀ s, P s → F s) : Triple P m (fun a s => P s ∧ (m s).outcome = .ok a) E F := by
  intro s hs
  rw [hm s]
  cases ho : (m s).outcome with
  | ok a => exact ⟨hs, ho⟩
  | err e => exact hE s hs
  | panic => exact hF s hs

/-- However it ends, it leaves a state in `I`. -/
theorem Triple.ofState {I : σ → Prop} {m : Comp σ κ ε α} (h : ∀ s, P s → I (m s).state) :
    Triple P m (fun _ => I) I I := by
  intro s hs
  have hI := h s hs
  cases (m s).outcome <;> exact hI

theorem Triple.state {I : σ → Prop} {m : Comp σ κ ε α} (h : Triple P m (fun _ => I) I I) {s : σ} (hs : P s) :
    I (m s).state := by
  have hm := h s hs
  cases ho : (m s).outcome with
  | ok a => rw [ho] at hm; exact hm
  | err e => rw [ho] at hm; exact hm
  | panic => rw [ho] at hm; exact hm

theorem Triple.mapErr {f : ε → ε'} {m : Comp σ κ ε α} (h : Triple P m Q E F) :
    Triple P (mapErr f m) Q E F := by
  intro s hs
  have hm := h s hs
  unfold Comp.mapErr
  cases ho : (m s).outcome <;> simpa only [ho] using hm

/-- What a part of the state is left with decides what the whole satisfies. -/
theorem Triple.zoom {τ : Type} {get : σ → τ} {put : τ → σ → σ} {m : Comp τ κ ε α}
    {I : σ → Prop} (h : ∀ s t, P s → I (put t s)) (hE : ∀ s, I s → E s) (hF : ∀ s, I s → F s) :
    Triple P (zoom get put m) (fun _ => I) E F := by
  intro s hs
  have hI := h s (m (get s)).state hs
  rw [zoom_run]
  cases (m (get s)).outcome with
  | ok a => exact hI
  | err e => exact hE _ hI
  | panic => exact hF _ hI

/-- The loop rule: what every body keeps, the loop keeps. -/
theorem Triple.forEach {I : σ → Prop} {xs : List α} {f : α → Comp σ κ ε Unit}
    (hf : ∀ x ∈ xs, Triple I (f x) (fun _ => I) E F) :
    Triple I (forEach xs f) (fun _ => I) E F := by
  induction xs with
  | nil => exact Triple.ret fun _ hs => hs
  | cons x rest ih =>
    exact Triple.bind (hf x (by simp)) fun _ => ih fun y hy => hf y (by simp [hy])

/-- A loop that nothing stops comes to every item, with what its bodies keep up. -/
theorem forEach_visits {I : List α → σ → Prop} {f : α → Comp σ κ ε Unit}
    (hstep : ∀ x rest s, I (x :: rest) s → (f x s).outcome = .ok () ∧ I rest (f x s).state) {xs : List α} {s : σ}
    (h : I xs s) {x : α} (hx : x ∈ xs) :
    ∃ rest s', I (x :: rest) s' ∧ ∀ e ∈ (f x s').events, e ∈ (forEach xs f s).events := by
  induction xs generalizing s with
  | nil => cases hx
  | cons y ys ih =>
    obtain ⟨hok, hrest⟩ := hstep y ys s h
    have hrun : (forEach (y :: ys) f) s = (forEach ys f (f y s).state).after (f y s).events := Comp.bind_ok hok
    rw [hrun, after_events]
    rcases List.mem_cons.mp hx with rfl | hx
    · exact ⟨ys, s, h, fun e he => List.mem_append_left _ he⟩
    · obtain ⟨rest, s', hI, hevents⟩ := ih hrest hx
      exact ⟨rest, s', hI, fun e he => List.mem_append_right _ (hevents e he)⟩

/-- What every finished body keeps, a finished loop keeps. -/
theorem forEach_keeps {K : σ → Prop} {f : α → Comp σ κ ε Unit} {xs : List α} {s : σ}
    (hkeep : ∀ x ∈ xs, ∀ s, (f x s).outcome = .ok () → K s → K (f x s).state)
    (h : (forEach xs f s).outcome = .ok ()) (hs : K s) : K (forEach xs f s).state := by
  induction xs generalizing s with
  | nil => exact hs
  | cons x rest ih =>
    obtain ⟨_, hx, hrest⟩ := bind_inv h
    have hrun : (forEach (x :: rest) f) s = (forEach rest f (f x s).state).after (f x s).events := Comp.bind_ok hx
    rw [hrun, after_state]
    exact ih (fun y hy => hkeep y (by simp [hy])) hrest (hkeep x (by simp) s hx hs)

/-- A loop over consecutive numbers, with an invariant that counts along. -/
theorem forEach_counts {I : Nat → σ → Prop} {f : Nat → Comp σ κ ε Unit} {k n : Nat} {s : σ}
    (hstep : ∀ i, k ≤ i → i < k + n → ∀ s, I i s → (f i s).outcome = .ok () → I (i + 1) (f i s).state)
    (h : (forEach (List.range' k n) f s).outcome = .ok ()) (hs : I k s) :
    I (k + n) (forEach (List.range' k n) f s).state := by
  induction n generalizing k s with
  | zero => exact hs
  | succ n ih =>
    rw [List.range'_succ] at h ⊢
    obtain ⟨_, hk, hrest⟩ := bind_inv h
    have hrun : forEach (k :: List.range' (k + 1) n) f s =
      (forEach (List.range' (k + 1) n) f (f k s).state).after (f k s).events := bind_ok hk
    rw [hrun, after_state]
    have hnext := ih (fun i hi hlt => hstep i (by omega) (by omega)) hrest (hstep k (Nat.le_refl k) (by omega) s hs hk)
    have hsum : k + (n + 1) = k + 1 + n := by omega
    rwa [hsum]

/-- What each body of a finished loop has set up is there at its end, if the others keep it. -/
theorem forEach_gathers {G : α → σ → Prop} {f : α → Comp σ κ ε Unit} {xs : List α} {s : σ}
    (hgain : ∀ x ∈ xs, ∀ s, (f x s).outcome = .ok () → G x (f x s).state)
    (hkeep : ∀ x ∈ xs, ∀ y s, (f x s).outcome = .ok () → G y s → G y (f x s).state)
    (h : (forEach xs f s).outcome = .ok ()) : ∀ x ∈ xs, G x (forEach xs f s).state := by
  induction xs generalizing s with
  | nil => simp
  | cons x rest ih =>
    obtain ⟨_, hx, hrest⟩ := bind_inv h
    have hrun : (forEach (x :: rest) f) s = (forEach rest f (f x s).state).after (f x s).events := Comp.bind_ok hx
    rw [hrun, after_state]
    intro y hy
    rcases List.mem_cons.mp hy with rfl | hy
    · exact forEach_keeps (fun z hz => hkeep z (by simp [hz]) y) hrest (hgain y (by simp) s hx)
    · exact ih (fun z hz => hgain z (by simp [hz])) (fun z hz => hkeep z (by simp [hz])) hrest y hy

/-- Bodies that do nothing. -/
theorem forEach_idle {f : α → Comp σ κ ε Unit} {xs : List α} {s : σ} (h : ∀ x ∈ xs, f x s = ret () s) :
    forEach xs f s = ret () s := by
  induction xs with
  | nil => rfl
  | cons x rest ih =>
    have hx : f x s = ret () s := h x (by simp)
    have hrest : forEach rest f s = ret () s := ih fun y hy => h y (by simp [hy])
    rw [forEach, bind_run, hx]
    exact hrest

/-- A loop of which one body alone does something. -/
theorem forEach_only {f : α → Comp σ κ ε Unit} {xs : List α} {x : α} {s t : σ} (hxs : xs.Nodup) (hx : x ∈ xs)
    (hrun : f x s = ⟨.ok (), t, []⟩) (hbefore : ∀ y ∈ xs, y ≠ x → f y s = ret () s)
    (hafter : ∀ y ∈ xs, y ≠ x → f y t = ret () t) : forEach xs f s = ⟨.ok (), t, []⟩ := by
  induction xs with
  | nil => cases hx
  | cons y rest ih =>
    obtain ⟨hy, hrest⟩ := List.nodup_cons.mp hxs
    rw [forEach, bind_run]
    by_cases hyx : y = x
    · have hidle : forEach rest f t = ret () t := forEach_idle fun z hz =>
        hafter z (by simp [hz]) fun hzx => hy (hyx ▸ hzx ▸ hz)
      rw [hyx, hrun]
      exact hidle
    · have hin : x ∈ rest := (List.mem_cons.mp hx).resolve_left (Ne.symm hyx)
      have hlater : forEach rest f s = ⟨.ok (), t, []⟩ := ih hrest hin
        (fun z hz => hbefore z (by simp [hz])) fun z hz => hafter z (by simp [hz])
      rw [hbefore y (by simp) hyx]
      exact hlater

end Comp

end Traced
