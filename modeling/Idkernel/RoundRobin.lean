import Mathlib.Data.List.Nodup
import Mathlib.Data.Set.Insert
import Mathlib.Logic.Function.Basic
import Mathlib.Logic.Relation

/-!
# Round-robin scheduling

One task runs, the willing others wait in a queue, and an idle task runs when
the queue is empty. Tasks come, are put into the queue once, are switched and
leave; who has left stays in a set, so that nobody comes back under an old name.
-/
namespace RoundRobin

variable {ι : Type} {idle : ι}

/-- `wants i` is whether a task goes back into the queue when it is switched away from,
and `none` if there is no such task. -/
structure State (ι : Type) where
  wants : ι → Option Bool
  queue : List ι
  current : ι
  left : Set ι

namespace State

variable {s s' : State ι}

/-- The first of a queue, or the idle task: it is there, and the rest is without it. -/
theorem first {q : List ι} (hidle : s.wants idle = some false) (hq : ∀ i ∈ q, s.wants i = some true)
    (hnodup : q.Nodup) : s.wants (q.head?.getD idle) ≠ none ∧ q.head?.getD idle ∉ q.tail := by
  cases q with
  | nil => simp [hidle]
  | cons i rest =>
    have hi := hq i (by simp)
    refine ⟨by simp [hi], ?_⟩
    exact (List.nodup_cons.mp hnodup).1

def push (s : State ι) (i : ι) : State ι := { s with queue := s.queue ++ [i] }

variable [DecidableEq ι]

/-- The queue with the running task behind it, if it wants to go on. -/
def candidates (s : State ι) : List ι :=
  if s.wants s.current = some true then s.queue ++ [s.current] else s.queue

def next (idle : ι) (s : State ι) : ι := s.candidates.head?.getD idle

def add (s : State ι) (i : ι) : State ι := { s with wants := Function.update s.wants i (some true) }

def switch (idle : ι) (s : State ι) : State ι :=
  { s with queue := s.candidates.tail, current := s.next idle }

/-- The running task leaves for good, and the queue goes on without it. -/
def leave (idle : ι) (s : State ι) : State ι where
  wants := Function.update s.wants s.current none
  queue := s.queue.tail
  current := s.queue.head?.getD idle
  left := insert s.current s.left

variable {i : ι}

@[simp] theorem add_wants_self : (s.add i).wants i = some true := Function.update_self _ _ _

theorem add_wants_other {j : ι} (h : j ≠ i) : (s.add i).wants j = s.wants j := Function.update_of_ne h _ _

@[simp] theorem leave_wants_self : (s.leave idle).wants s.current = none := Function.update_self _ _ _

theorem leave_wants_other (h : i ≠ s.current) : (s.leave idle).wants i = s.wants i :=
  Function.update_of_ne h _ _

end State

variable [DecidableEq ι]

inductive Move (idle : ι) : State ι → State ι → Prop where
  | add {s : State ι} {i : ι} (absent : s.wants i = none) (new : i ∉ s.left) : Move idle s (s.add i)
  | push {s : State ι} {i : ι} (willing : s.wants i = some true) (away : i ≠ s.current)
      (once : i ∉ s.queue) : Move idle s (s.push i)
  | switch {s : State ι} : Move idle s (s.switch idle)
  | leave {s : State ι} (busy : s.current ≠ idle) : Move idle s (s.leave idle)

/-- Nobody waits twice, everybody who waits is there and willing, and the running task
does not wait. -/
structure Sound (idle : ι) (s : State ι) : Prop where
  once : s.queue.Nodup
  waiting : ∀ i ∈ s.queue, s.wants i = some true
  present : s.wants s.current ≠ none
  running : s.current ∉ s.queue
  idles : s.wants idle = some false
  others : ∀ i, i ≠ idle → s.wants i ≠ some false
  gone : ∀ i ∈ s.left, s.wants i = none

namespace Sound

variable {s s' : State ι}

/-- The running task is the idle one or goes back into the queue. -/
theorem current_cases (h : Sound idle s) : s.current = idle ∧ s.candidates = s.queue ∨
    s.current ≠ idle ∧ s.wants s.current = some true ∧ s.candidates = s.queue ++ [s.current] := by
  by_cases hc : s.current = idle
  · left
    have hw : s.wants s.current ≠ some true := by simp [hc, h.idles]
    exact ⟨hc, if_neg hw⟩
  · right
    have hw : s.wants s.current = some true := by
      cases ho : s.wants s.current with
      | none => exact absurd ho h.present
      | some w =>
        cases w with
        | true => rfl
        | false => exact absurd ho (h.others _ hc)
    exact ⟨hc, hw, if_pos hw⟩

theorem candidates_nodup (h : Sound idle s) : s.candidates.Nodup := by
  rcases h.current_cases with ⟨_, hc⟩ | ⟨_, _, hc⟩
  · rw [hc]
    exact h.once
  · rw [hc, List.nodup_append]
    refine ⟨h.once, List.nodup_singleton _, ?_⟩
    intro i hi j hj he
    obtain rfl := List.mem_singleton.mp hj
    exact h.running (he ▸ hi)

theorem candidates_waiting (h : Sound idle s) : ∀ i ∈ s.candidates, s.wants i = some true := by
  intro i hi
  rcases h.current_cases with ⟨_, hc⟩ | ⟨_, hw, hc⟩
  · exact h.waiting i (hc ▸ hi)
  · rw [hc, List.mem_append, List.mem_singleton] at hi
    rcases hi with hi | rfl
    · exact h.waiting i hi
    · exact hw

theorem next_present (h : Sound idle s) : s.wants (s.next idle) ≠ none :=
  (State.first h.idles h.candidates_waiting h.candidates_nodup).1

theorem add (h : Sound idle s) {i : ι} (absent : s.wants i = none) (new : i ∉ s.left) : Sound idle (s.add i) := by
  have hother : ∀ j, s.wants j ≠ none → (s.add i).wants j = s.wants j := by
    intro j hj
    have hne : j ≠ i := by
      rintro rfl
      exact hj absent
    exact State.add_wants_other hne
  exact
    { once := h.once
      waiting := by
        intro j hj
        have hw := h.waiting j hj
        rw [hother j (by simp [hw]), hw]
      present := by
        rw [show (s.add i).wants (s.add i).current = s.wants s.current from hother _ h.present]
        exact h.present
      running := h.running
      idles := by rw [hother idle (by simp [h.idles]), h.idles]
      others := by
        intro j hj
        by_cases hji : j = i
        · subst hji
          simp
        · rw [State.add_wants_other hji]
          exact h.others j hj
      gone := by
        intro j hj
        have hne : j ≠ i := by
          rintro rfl
          exact new hj
        rw [State.add_wants_other hne]
        exact h.gone j hj }

omit [DecidableEq ι] in
theorem push (h : Sound idle s) {i : ι} (willing : s.wants i = some true) (away : i ≠ s.current)
    (once : i ∉ s.queue) : Sound idle (s.push i) where
  once := by
    refine List.nodup_append.mpr ⟨h.once, List.nodup_singleton i, ?_⟩
    intro j hj k hk he
    obtain rfl := List.mem_singleton.mp hk
    exact once (he ▸ hj)
  waiting j hj := by
    rcases List.mem_append.mp hj with hj | hj
    · exact h.waiting j hj
    · rw [List.mem_singleton.mp hj]
      exact willing
  present := h.present
  running hmem := by
    rcases List.mem_append.mp hmem with hmem | hmem
    · exact h.running hmem
    · exact away (List.mem_singleton.mp hmem).symm
  idles := h.idles
  others := h.others
  gone := h.gone

theorem switch (h : Sound idle s) : Sound idle (s.switch idle) where
  once := h.candidates_nodup.tail
  waiting i hi := h.candidates_waiting i (List.mem_of_mem_tail hi)
  present := h.next_present
  running := (State.first h.idles h.candidates_waiting h.candidates_nodup).2
  idles := h.idles
  others := h.others
  gone := h.gone

theorem leave (h : Sound idle s) (busy : s.current ≠ idle) : Sound idle (s.leave idle) := by
  obtain ⟨hpresent, haway⟩ := State.first h.idles h.waiting h.once
  have hqueued : ∀ i ∈ s.queue, i ≠ s.current := by
    rintro i hi rfl
    exact h.running hi
  have hnext : s.queue.head?.getD idle ≠ s.current := by
    cases hq : s.queue with
    | nil => exact busy.symm
    | cons i rest => exact hqueued i (by simp [hq])
  exact
    { once := h.once.tail
      waiting := by
        intro i hi
        have hmem := List.mem_of_mem_tail hi
        rw [State.leave_wants_other (hqueued i hmem)]
        exact h.waiting i hmem
      present := by
        rw [show (s.leave idle).current = s.queue.head?.getD idle from rfl, State.leave_wants_other hnext]
        exact hpresent
      running := haway
      idles := by
        rw [State.leave_wants_other busy.symm]
        exact h.idles
      others := by
        intro i hi
        by_cases hc : i = s.current
        · subst hc
          simp
        · rw [State.leave_wants_other hc]
          exact h.others i hi
      gone := by
        intro i hi
        by_cases hc : i = s.current
        · subst hc
          simp
        · rw [State.leave_wants_other hc]
          exact h.gone i (Set.mem_of_mem_insert_of_ne hi hc) }

theorem move (h : Sound idle s) (hm : Move idle s s') : Sound idle s' := by
  cases hm with
  | add absent new => exact h.add absent new
  | push willing away once => exact h.push willing away once
  | switch => exact h.switch
  | leave busy => exact h.leave busy

/-- Whatever happens in which order. -/
theorem moves (h : Sound idle s) (hm : Relation.ReflTransGen (Move idle) s s') : Sound idle s' := by
  induction hm with
  | refl => exact h
  | tail _ hm ih => exact ih.move hm

end Sound

/-- Nobody who left comes back. -/
theorem left_moves {s s' : State ι} (hm : Relation.ReflTransGen (Move idle) s s') : s.left ⊆ s'.left := by
  induction hm with
  | refl => exact fun _ hi => hi
  | tail _ hm ih =>
    cases hm with
    | leave busy => exact fun i hi => Set.mem_insert_of_mem _ (ih hi)
    | _ => exact ih

end RoundRobin
