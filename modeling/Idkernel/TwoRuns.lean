import Idkernel.Traced

/-!
# Two runs of one computation

A relation between two states is carried through both runs. Where the first
run returns a value the second returns it too; a run that fails says nothing.
-/
namespace Traced.Comp

variable {σ τ κ κ' ε α β : Type}

/-- Work on a part of the state, of which the log is not kept. -/
def quietly (get : σ → τ) (put : τ → σ → σ) (m : Comp τ κ' ε α) : Comp σ κ ε α := fun s =>
  ⟨(m (get s)).outcome, put (m (get s)).state s, []⟩

@[simp] theorem quietly_run (get : σ → τ) (put : τ → σ → σ) (m : Comp τ κ' ε α) (s : σ) :
    (quietly get put m s : Ran σ κ ε α) = ⟨(m (get s)).outcome, put (m (get s)).state s, []⟩ := rfl

/-- From related states, a value that the first run returns is returned by the second, and the
states behind both are related again. -/
def Mirrors (R : σ → σ → Prop) (m : Comp σ κ ε α) (S : α → σ → σ → Prop) : Prop :=
  ∀ s s' a, R s s' → (m s).outcome = .ok a → (m s').outcome = .ok a ∧ S a (m s).state (m s').state

variable {R R' : σ → σ → Prop} {S S' : α → σ → σ → Prop} {T : β → σ → σ → Prop}

theorem Mirrors.bind {m : Comp σ κ ε α} {f : α → Comp σ κ ε β} (hm : Mirrors R m S)
    (hf : ∀ a, Mirrors (S a) (f a) T) : Mirrors R (m >>= f) T := by
  intro s s' b hR h
  obtain ⟨a, ha, hb⟩ := bind_inv h
  obtain ⟨ha', hS⟩ := hm s s' a hR ha
  obtain ⟨hb', hT⟩ := hf a _ _ b hS hb
  rw [bind_ok ha, bind_ok ha']
  exact ⟨hb', hT⟩

theorem Mirrors.conseq {m : Comp σ κ ε α} (hm : Mirrors R m S) (hR : ∀ s s', R' s s' → R s s')
    (hS : ∀ a s s', S a s s' → S' a s s') : Mirrors R' m S' := by
  intro s s' a h ha
  obtain ⟨ha', hstates⟩ := hm s s' a (hR s s' h) ha
  exact ⟨ha', hS a _ _ hstates⟩

theorem Mirrors.same (m : Comp σ κ ε α) : Mirrors Eq m fun _ => Eq := by
  intro s s' a hs ha
  subst hs
  exact ⟨ha, rfl⟩

theorem Mirrors.ret {a : α} (h : ∀ s s', R s s' → S a s s') : Mirrors R (ret a : Comp σ κ ε α) S := by
  intro s s' b hR hb
  cases hb
  exact ⟨rfl, h s s' hR⟩

theorem Mirrors.fail {e : ε} : Mirrors R (fail e : Comp σ κ ε α) S := by
  intro s s' a hR ha
  cases ha

/-- What is read is the same in related states. -/
theorem Mirrors.read {f : σ → α} (h : ∀ s s', R s s' → f s = f s') :
    Mirrors R (read f : Comp σ κ ε α) fun a s s' => R s s' ∧ f s = a := by
  intro s s' a hR ha
  cases ha
  exact ⟨congrArg Outcome.ok (h s s' hR).symm, hR, rfl⟩

theorem Mirrors.write {f : σ → σ} {S : Unit → σ → σ → Prop} (h : ∀ s s', R s s' → S () (f s) (f s')) :
    Mirrors R (write f : Comp σ κ ε Unit) S := by
  intro s s' a hR ha
  exact ⟨rfl, h s s' hR⟩

theorem Mirrors.okOr {o : Option α} {e : ε} :
    Mirrors R (okOr o e : Comp σ κ ε α) fun a s s' => R s s' ∧ o = some a := by
  cases o with
  | none => exact Mirrors.fail
  | some b =>
    intro s s' a hR ha
    cases ha
    exact ⟨rfl, hR, rfl⟩

theorem Mirrors.unwrap {o : Option α} :
    Mirrors R (unwrap o : Comp σ κ ε α) fun a s s' => R s s' ∧ o = some a := by
  intro s s' a hR ha
  cases o with
  | none => cases ha
  | some b =>
    cases ha
    exact ⟨rfl, hR, rfl⟩

/-- What follows on a part follows on the whole, if the rest fits. -/
theorem Mirrors.quietly {get : σ → τ} {put : τ → σ → σ} {m : Comp τ κ' ε α} {P : τ → τ → Prop}
    {Q : α → τ → τ → Prop} (hm : Mirrors P m Q) (hR : ∀ s s', R s s' → P (get s) (get s'))
    (hS : ∀ a s s' t t', R s s' → Q a t t' → S a (put t s) (put t' s')) :
    Mirrors R (quietly get put m : Comp σ κ ε α) S := by
  intro s s' a h ha
  obtain ⟨ha', hQ⟩ := hm _ _ a (hR s s' h) ha
  exact ⟨ha', hS a s s' _ _ h hQ⟩

theorem Mirrors.zoom {get : σ → τ} {put : τ → σ → σ} {m : Comp τ κ ε α} {P : τ → τ → Prop}
    {Q : α → τ → τ → Prop}
    (hm : Mirrors P m Q) (hR : ∀ s s', R s s' → P (get s) (get s'))
    (hS : ∀ a s s' t t', R s s' → Q a t t' → S a (put t s) (put t' s')) : Mirrors R (zoom get put m) S := by
  intro s s' a h ha
  obtain ⟨ha', hQ⟩ := hm _ _ a (hR s s' h) ha
  exact ⟨ha', hS a s s' _ _ h hQ⟩

/-- The loop rule. -/
theorem Mirrors.forEach {f : α → Comp σ κ ε Unit} {xs : List α}
    (hf : ∀ x ∈ xs, Mirrors R (f x) fun _ => R) : Mirrors R (forEach xs f) fun _ => R := by
  induction xs with
  | nil => exact Mirrors.ret fun _ _ h => h
  | cons x xs ih =>
    have hx : Mirrors R (f x) fun _ => R := hf x (by simp)
    have hrest : Mirrors R (Comp.forEach xs f) fun _ => R := ih fun y hy => hf y (by simp [hy])
    exact hx.bind fun _ => hrest

end Traced.Comp
