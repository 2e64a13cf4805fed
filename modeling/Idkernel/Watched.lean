import Idkernel.Traced

/-!
# Computations whose log is watched

A log can be rewritten event by event, which leaves the rest of a run as it is.
A computation is watched when every event it logs is one that may follow the
events before it, whether or not the computation comes to an end.
-/
namespace Traced

variable {σ κ κ' κ'' ε α β : Type}

namespace Comp

/-! ## Rewriting a log -/

def relabel (f : κ → List κ') (m : Comp σ κ ε α) : Comp σ κ' ε α := fun s =>
  ⟨(m s).outcome, (m s).state, (m s).events.flatMap f⟩

section Relabel

variable {f : κ → List κ'}

theorem relabel_run (f : κ → List κ') (m : Comp σ κ ε α) (s : σ) :
    relabel f m s = ⟨(m s).outcome, (m s).state, (m s).events.flatMap f⟩ := rfl

@[simp] theorem relabel_outcome (f : κ → List κ') (m : Comp σ κ ε α) (s : σ) :
    (relabel f m s).outcome = (m s).outcome := rfl

theorem relabel_bind (f : κ → List κ') (m : Comp σ κ ε α) (g : α → Comp σ κ ε β) :
    relabel f (m >>= g) = relabel f m >>= fun a => relabel f (g a) := by
  funext s
  rw [relabel_run, bind_run, bind_run, relabel_run]
  cases (m s).outcome with
  | ok a => simp [Ran.after, relabel_run]
  | err e => rfl
  | panic => rfl

theorem relabel_relabel (f : κ → List κ') (g : κ' → List κ'') (m : Comp σ κ ε α) :
    relabel g (relabel f m) = relabel (fun e => (f e).flatMap g) m := by
  funext s
  simp only [relabel_run, List.flatMap_assoc]

theorem relabel_self (m : Comp σ κ ε α) : relabel (fun e => [e]) m = m := by
  funext s
  rw [relabel_run, List.flatMap_singleton']

theorem relabel_ret (a : α) : relabel f (ret a : Comp σ κ ε α) = ret a := rfl

theorem relabel_pure (a : α) : relabel f (pure a : Comp σ κ ε α) = pure a := rfl

theorem relabel_write (g : σ → σ) : relabel f (write g : Comp σ κ ε Unit) = write g := rfl

theorem relabel_unwrap (o : Option α) : relabel f (unwrap o : Comp σ κ ε α) = unwrap o := by
  cases o with
  | none => rfl
  | some a => rfl

theorem relabel_expect {p : Prop} [Decidable p] : relabel f (expect p : Comp σ κ ε Unit) = expect p := by
  by_cases hp : p <;> simp [hp] <;> rfl

/-- An event that is left out. -/
theorem relabel_emit {e : κ} (he : f e = []) : relabel f (emit e : Comp σ κ ε Unit) = pure () := by
  funext s
  rw [relabel_run, emit_run, List.flatMap_singleton, he]
  rfl

theorem relabel_forEach (f : κ → List κ') (xs : List α) (body : α → Comp σ κ ε Unit) :
    relabel f (forEach xs body) = forEach xs fun x => relabel f (body x) := by
  induction xs with
  | nil => rfl
  | cons x xs ih => rw [forEach, relabel_bind, ih]; rfl

end Relabel

/-! ## Behind a test -/

theorem unwrap_bind_congr {o : Option α} {f g : α → Comp σ κ ε β} (h : ∀ a, o = some a → f a = g a) :
    unwrap o >>= f = unwrap o >>= g := by
  cases o with
  | none => rfl
  | some a => exact h a rfl

theorem expect_bind_congr {p : Prop} [Decidable p] {f g : Unit → Comp σ κ ε β} (h : p → f () = g ()) :
    expect p >>= f = expect p >>= g := by
  by_cases hp : p
  · rw [expect_true hp]
    exact h hp
  · rw [expect_false hp]
    rfl

theorem unwrap_some_bind (a : α) (f : α → Comp σ κ ε β) : unwrap (some a) >>= f = f a := rfl

end Comp

/-! ## Watching a log -/

/-- Each event may follow the events before it. -/
def Permitted (may : List κ → κ → Prop) : List κ → List κ → Prop
  | _, [] => True
  | h, e :: es => may h e ∧ Permitted may (h ++ [e]) es

section Permitted

variable {may : List κ → κ → Prop} {h es fs : List κ}

theorem permitted_append : Permitted may h (es ++ fs) ↔ Permitted may h es ∧ Permitted may (h ++ es) fs := by
  induction es generalizing h with
  | nil => simp [Permitted]
  | cons e es ih => simp [Permitted, ih, and_assoc]

theorem permitted_split {pre post : List κ} {e : κ} (hes : Permitted may h es) (heq : es = pre ++ e :: post) :
    may (h ++ pre) e := by
  rw [heq, permitted_append] at hes
  exact hes.2.1

theorem permitted_all (hall : ∀ h, ∀ e ∈ es, may h e) : Permitted may h es := by
  induction es generalizing h with
  | nil => trivial
  | cons e es ih => exact ⟨hall h e (by simp), ih fun h e he => hall h e (by simp [he])⟩

end Permitted

/-- After every history in `P` each event is permitted, and a value is returned with a history that is
related to it by `Q`. -/
def Watched (may : List κ → κ → Prop) (P : List κ → Prop) (m : Comp σ κ ε α) (Q : α → List κ → Prop) : Prop :=
  ∀ h s, P h → Permitted may h (m s).events ∧ ∀ a, (m s).outcome = .ok a → Q a (h ++ (m s).events)

namespace Watched

variable {may : List κ → κ → Prop} {P : List κ → Prop} {Q : α → List κ → Prop} {R : β → List κ → Prop}

theorem bind {m : Comp σ κ ε α} {f : α → Comp σ κ ε β} (hm : Watched may P m Q)
    (hf : ∀ a, Watched may (Q a) (f a) R) : Watched may P (m >>= f) R := by
  intro h s hh
  obtain ⟨hes, hok⟩ := hm h s hh
  rw [Comp.bind_run]
  cases ho : (m s).outcome with
  | ok a =>
    obtain ⟨hfs, hlast⟩ := hf a _ (m s).state (hok a ho)
    refine ⟨permitted_append.mpr ⟨hes, hfs⟩, fun b hb => ?_⟩
    rw [after_events, ← List.append_assoc]
    exact hlast b hb
  | err e => exact ⟨hes, fun b hb => by cases hb⟩
  | panic => exact ⟨hes, fun b hb => by cases hb⟩

/-- What neither logs nor changes anything may be known to return. -/
theorem still {m : Comp σ κ ε α} (hm : m.Still) (hQ : ∀ h s a, P h → (m s).outcome = .ok a → Q a h) :
    Watched may P m Q := by
  intro h s hh
  rw [(hm s).2, List.append_nil]
  exact ⟨trivial, fun a ha => hQ h s a hh ha⟩

theorem ret {a : α} (hQ : ∀ h, P h → Q a h) : Watched may P (Comp.ret a : Comp σ κ ε α) Q :=
  still (Comp.Still.ret a) fun h _ _ hh ha => by cases ha; exact hQ h hh

theorem fail {e : ε} : Watched may P (Comp.fail e : Comp σ κ ε α) Q :=
  fun _ _ _ => ⟨trivial, fun _ ha => by cases ha⟩

theorem unwrap {o : Option α} (hQ : ∀ h a, P h → o = some a → Q a h) :
    Watched may P (Comp.unwrap o : Comp σ κ ε α) Q :=
  still (Comp.Still.unwrap o) fun h _ a hh ha => hQ h a hh (Comp.unwrap_ok ha)

theorem expect {p : Prop} [Decidable p] {Q : Unit → List κ → Prop} (hQ : ∀ h, P h → p → Q () h) :
    Watched may P (Comp.expect p : Comp σ κ ε Unit) Q :=
  still Comp.Still.expect fun h _ _ hh ha => hQ h hh (Comp.expect_ok ha)

theorem write {g : σ → σ} {Q : Unit → List κ → Prop} (hQ : ∀ h, P h → Q () h) :
    Watched may P (Comp.write g : Comp σ κ ε Unit) Q := by
  intro h s hh
  rw [Comp.write_run, List.append_nil]
  exact ⟨trivial, fun _ _ => hQ h hh⟩

theorem emit {e : κ} {Q : Unit → List κ → Prop} (hmay : ∀ h, P h → may h e) (hQ : ∀ h, P h → Q () (h ++ [e])) :
    Watched may P (Comp.emit e : Comp σ κ ε Unit) Q := fun h _ hh => ⟨⟨hmay h hh, trivial⟩, fun _ _ => hQ h hh⟩

theorem forEach {I : List κ → Prop} {xs : List β} {f : β → Comp σ κ ε Unit}
    (hf : ∀ x ∈ xs, Watched may I (f x) fun _ => I) : Watched may I (Comp.forEach xs f) fun _ => I := by
  induction xs with
  | nil => exact ret fun _ hh => hh
  | cons x xs ih => exact bind (hf x (by simp)) fun _ => ih fun y hy => hf y (by simp [hy])

end Watched

end Traced
