import Mathlib.Data.List.Infix
import Mathlib.Tactic.Common

/-!
# Runs of partial step functions

A program state is stepped by events; a step either yields the next state or a fault, and a fault
ends the run.

* `run`, `run_append`, `run_concat`: runs and their composition; `run_invariant`, `run_history`.
* `Along guard astep`: a guard holds at every event, evaluated on a ghost state stepped by `astep`.
* `Along.foldl`: an invariant of guarded steps.
* **`run_simulates`**: a relation kept by every guarded step is kept by every guarded run.
* `exists_first_violation`: a run that leaves its guard leaves it at a first event.
* `lastStored`, **`get_foldl`**: what a run leaves in a place that some events store into.
* `outputs`, **`outputs_eq`**: what a machine answers, and another one that it simulates.
* `run_map`, `run_foldl`: what a map leaves of the states is a run of its own.
* **`run_good_iff`**: a run ends well exactly if it never does what cannot be made good again.
-/

namespace Lib

section Run

variable {S A E F : Type}

/-- Run a partial step over a list of events. -/
def run (step : S → E → Except F S) : S → List E → Except F S
  | s, [] => .ok s
  | s, e :: es =>
    match step s e with
    | .ok s' => run step s' es
    | .error f => .error f

variable {step : S → E → Except F S}

@[simp] theorem run_nil (s : S) : run step s [] = .ok s := rfl

theorem run_cons_ok {s s' : S} {e : E} (h : step s e = .ok s') (es : List E) :
    run step s (e :: es) = run step s' es := by
  simp only [run, h]

theorem run_cons_error {s : S} {e : E} {f : F} (h : step s e = .error f) (es : List E) :
    run step s (e :: es) = .error f := by
  simp only [run, h]

theorem run_append {s t : S} {es : List E} (h : run step s es = .ok t) (es' : List E) :
    run step s (es ++ es') = run step t es' := by
  induction es generalizing s with
  | nil =>
    obtain rfl : s = t := by simpa using h
    rfl
  | cons e es ih =>
    cases he : step s e with
    | error f => rw [run_cons_error he] at h; cases h
    | ok s' =>
      rw [run_cons_ok he] at h
      rw [List.cons_append, run_cons_ok he, ih h]

/-- A run that does not fault does not fault before its end. -/
theorem run_of_append {s t : S} {es es' : List E} (h : run step s (es ++ es') = .ok t) :
    ∃ s', run step s es = .ok s' := by
  induction es generalizing s with
  | nil => exact ⟨s, rfl⟩
  | cons e es ih =>
    cases he : step s e with
    | error f =>
      rw [List.cons_append, run_cons_error he] at h
      cases h
    | ok s' =>
      rw [List.cons_append, run_cons_ok he] at h
      rw [run_cons_ok he]
      exact ih h

theorem run_concat {s t : S} {es : List E} {e : E} (h : run step s (es ++ [e]) = .ok t) :
    ∃ s', run step s es = .ok s' ∧ step s' e = .ok t := by
  induction es generalizing s with
  | nil =>
    refine ⟨s, rfl, ?_⟩
    cases he : step s e with
    | error f =>
      rw [List.nil_append, run_cons_error he] at h
      cases h
    | ok s' =>
      rw [List.nil_append, run_cons_ok he] at h
      cases h
      rfl
  | cons e' es ih =>
    cases he : step s e' with
    | error f =>
      rw [List.cons_append, run_cons_error he] at h
      cases h
    | ok s' =>
      rw [List.cons_append, run_cons_ok he] at h
      rw [run_cons_ok he]
      exact ih h

/-- **An invariant of every step** holds after every run. -/
theorem run_invariant {I : S → Prop} (hI : ∀ s s' e, I s → step s e = .ok s' → I s') {s t : S}
    (hs : I s) {es : List E} (h : run step s es = .ok t) : I t := by
  induction es generalizing s with
  | nil =>
    cases h
    exact hs
  | cons e es ih =>
    cases he : step s e with
    | error f =>
      rw [run_cons_error he] at h
      cases h
    | ok s' =>
      rw [run_cons_ok he] at h
      exact ih (hI s s' e hs he) h

/-- **An invariant of the state and the events so far** holds after every run. -/
theorem run_history {R : S → List E → Prop}
    (hR : ∀ s s' h e, R s h → step s e = .ok s' → R s' (h ++ [e])) {s t : S} {before es : List E}
    (hs : R s before) (h : run step s es = .ok t) : R t (before ++ es) := by
  induction es generalizing s before with
  | nil =>
    cases h
    rwa [List.append_nil]
  | cons e es ih =>
    cases he : step s e with
    | error f =>
      rw [run_cons_error he] at h
      cases h
    | ok s' =>
      rw [run_cons_ok he] at h
      have hrest := ih (hR s s' before e hs he) h
      rwa [List.append_assoc] at hrest

/-- The guard holds at every event of a list, on the ghost state that `astep` reaches there. -/
def Along (guard : A → E → Prop) (astep : A → E → A) : A → List E → Prop
  | _, [] => True
  | a, e :: es => guard a e ∧ Along guard astep (astep a e) es

variable {guard : A → E → Prop} {astep : A → E → A}

theorem along_append (a : A) (es es' : List E) :
    Along guard astep a (es ++ es') ↔
      Along guard astep a es ∧ Along guard astep (es.foldl astep a) es' := by
  induction es generalizing a with
  | nil => simp [Along]
  | cons e es ih => simp only [List.cons_append, Along, List.foldl_cons, ih, and_assoc]

theorem Along.of_isPrefix {a : A} {es es' : List E} (h : Along guard astep a es')
    (hp : es <+: es') :
    Along guard astep a es := by
  obtain ⟨t, rfl⟩ := hp
  exact ((along_append a es t).mp h).1

/-- **An invariant of guarded steps** holds after every guarded list of events. -/
theorem Along.foldl {I : A → Prop} (hI : ∀ a e, I a → guard a e → I (astep a e)) {a : A} (ha : I a)
    {es : List E} (h : Along guard astep a es) : I (es.foldl astep a) := by
  induction es generalizing a with
  | nil => exact ha
  | cons e es ih => exact ih (hI a e ha h.1) h.2

/-- **Guarded simulation.** A relation between states and ghost states that every guarded step
keeps is kept by every guarded run, and the run does not fault. -/
theorem run_simulates (step : S → E → Except F S) (guard : A → E → Prop) (astep : A → E → A)
    (R : S → A → Prop)
    (hstep : ∀ s a e, R s a → guard a e → ∃ s', step s e = .ok s' ∧ R s' (astep a e))
    {s : S} {a : A} (hR : R s a) {es : List E} (hg : Along guard astep a es) :
    ∃ s', run step s es = .ok s' ∧ R s' (es.foldl astep a) := by
  induction es generalizing s a with
  | nil => exact ⟨s, rfl, hR⟩
  | cons e es ih =>
    obtain ⟨s', hs', hR'⟩ := hstep s a e hR hg.1
    rw [run_cons_ok hs']
    exact ih hR' hg.2

/-- A list of events that leaves the guard leaves it at a first event. -/
theorem exists_first_violation {a : A} {es : List E} (h : ¬ Along guard astep a es) :
    ∃ pre e post, es = pre ++ e :: post ∧ Along guard astep a pre ∧
      ¬ guard (pre.foldl astep a) e := by
  induction es generalizing a with
  | nil => exact absurd trivial h
  | cons e es ih =>
    by_cases hg : guard a e
    · obtain ⟨pre, e', post, rfl, hpre, hv⟩ := ih fun h' => h ⟨hg, h'⟩
      exact ⟨e :: pre, e', post, rfl, ⟨hg, hpre⟩, hv⟩
    · exact ⟨[], e, es, rfl, trivial, hg⟩

/-- What a list of events stores last, and `init` where none of them stores. -/
def lastStored {α : Type} (stores : E → Option α) (init : α) (es : List E) : α :=
  (es.filterMap stores).getLastD init

/-- **A place holds what was stored last** if every step leaves there what its event stores. -/
theorem get_foldl {α : Type} {stores : E → Option α} {get : A → α}
    (hget : ∀ a e, get (astep a e) = (stores e).getD (get a)) (a : A) (es : List E) :
    get (es.foldl astep a) = lastStored stores (get a) es := by
  induction es generalizing a with
  | nil => rfl
  | cons e es ih =>
    rw [List.foldl_cons, ih, hget, lastStored, lastStored, List.filterMap_cons]
    cases stores e with
    | none => rfl
    | some x => exact List.getLastD_cons.symm

/-- What a machine answers to a list of events, one after the other. -/
def outputs {O : Type} (step : S → E → O × S) : S → List E → List O
  | _, [] => []
  | s, e :: es => (step s e).1 :: outputs step (step s e).2 es

/-- **A run seen through a map.** -/
theorem run_map {f : S → A} {astep : A → E → Except F A} {I : S → Prop}
    (hstep : ∀ s e, I s → (step s e).map f = astep (f s) e)
    (hI : ∀ s e s', I s → step s e = .ok s' → I s') {s : S} (hs : I s) (es : List E) :
    (run step s es).map f = run astep (f s) es := by
  induction es generalizing s with
  | nil => rfl
  | cons e es ih =>
    have h := hstep s e hs
    cases he : step s e with
    | error fault =>
      rw [he] at h
      rw [run_cons_error he, run_cons_error h.symm]
      rfl
    | ok s' =>
      rw [he] at h
      rw [run_cons_ok he, run_cons_ok h.symm]
      exact ih (hI s e s' hs he)

/-- **A run that does not fail, seen through a map** that every such step follows. -/
theorem run_foldl {f : S → A} {astep : A → E → A}
    (hstep : ∀ s e s', step s e = .ok s' → f s' = astep (f s) e) {s t : S} {es : List E}
    (h : run step s es = .ok t) : f t = es.foldl astep (f s) := by
  induction es generalizing s with
  | nil =>
    cases h
    rfl
  | cons e es ih =>
    cases he : step s e with
    | error fault =>
      rw [run_cons_error he] at h
      cases h
    | ok s' =>
      rw [run_cons_ok he] at h
      rw [List.foldl_cons, ← hstep s e s' he, ih h]

section Good

variable {I Good : S → Prop} {allowed : S → E → Prop}

/-- What is not good stays so. -/
theorem run_not_good (hI : ∀ s e s', I s → step s e = .ok s' → I s')
    (hstays : ∀ s e s', I s → ¬ Good s → step s e = .ok s' → ¬ Good s') {s t : S} (hs : I s)
    (hbad : ¬ Good s) {es : List E} (h : run step s es = .ok t) : ¬ Good t := by
  have hinv := run_invariant (I := fun s => I s ∧ ¬ Good s)
    (fun s s' e hs he => ⟨hI s e s' hs.1 he, hstays s e s' hs.1 hs.2 he⟩) ⟨hs, hbad⟩ h
  exact hinv.2

/-- **A run ends well exactly if all of its events are allowed** where they happen, when an event
that is not fails or leads to a state that is not good, and no such state becomes good again. -/
theorem run_good_iff (hI : ∀ s e s', I s → step s e = .ok s' → I s')
    (hgood : ∀ s e, I s → Good s → allowed s e → ∃ s', step s e = .ok s' ∧ Good s')
    (hbad : ∀ s e s', I s → Good s → ¬ allowed s e → step s e = .ok s' → ¬ Good s')
    (hstays : ∀ s e s', I s → ¬ Good s → step s e = .ok s' → ¬ Good s') {s : S} (hs : I s)
    (h : Good s) (es : List E) :
    (∃ t, run step s es = .ok t ∧ Good t) ↔
      ∀ pre e post, es = pre ++ e :: post → ∃ s', run step s pre = .ok s' ∧ allowed s' e := by
  induction es generalizing s with
  | nil =>
    refine iff_of_true ⟨s, rfl, h⟩ fun pre e post heq => ?_
    simp at heq
  | cons e es ih =>
    by_cases hallowed : allowed s e
    · obtain ⟨s', he, h'⟩ := hgood s e hs h hallowed
      rw [run_cons_ok he, ih (hI s e s' hs he) h']
      constructor
      · intro hrest pre e' post heq
        cases pre with
        | nil =>
          cases heq
          exact ⟨s, rfl, hallowed⟩
        | cons e'' pre =>
          obtain ⟨rfl, htail⟩ := List.cons.inj heq
          rw [run_cons_ok he]
          exact hrest pre e' post htail
      · intro hall pre e' post heq
        have h := hall (e :: pre) e' post (by rw [heq, List.cons_append])
        rwa [run_cons_ok he] at h
    · refine iff_of_false ?_ fun hall => ?_
      · rintro ⟨t, ht, hgood'⟩
        cases he : step s e with
        | error f =>
          rw [run_cons_error he] at ht
          cases ht
        | ok s' =>
          rw [run_cons_ok he] at ht
          exact run_not_good hI hstays (hI s e s' hs he) (hbad s e s' hs h hallowed he) ht hgood'
      · obtain ⟨s', hs', hallowed'⟩ := hall [] e es rfl
        cases hs'
        exact hallowed hallowed'

end Good

end Run

end Lib
