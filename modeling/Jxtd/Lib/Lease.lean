import Mathlib.Data.List.Induction
import Mathlib.Logic.Function.Basic
import Mathlib.Tactic.Common

/-!
# Leases

A history of keys that are acquired and released. Nothing but the history is given, and a table of
the present holders is something to be compared with it.

* `holder`: the holders after a history; `read_acquire`, `read_release`: what is read off them.
* `Exclusive`: a key is acquired only while it is free.
* **`Exclusive.release_between`**: between two acquisitions of a key it is released.
* `last_of_holder`: the holder is the last one to acquire the key.
-/

namespace Lib.Lease

variable {κ α : Type} [DecidableEq κ]

inductive Effect (κ α : Type)
  | acquire (k : κ) (a : α)
  | release (k : κ)
  | none

/-- The holders after one more effect. -/
def step (h : κ → Option α) : Effect κ α → κ → Option α
  | .acquire k a => Function.update h k (some a)
  | .release k => Function.update h k Option.none
  | .none => h

/-- The holders after a history that starts with every key free. -/
def holder (es : List (Effect κ α)) : κ → Option α := es.foldl step fun _ => Option.none

@[simp] theorem holder_nil (k : κ) : holder ([] : List (Effect κ α)) k = Option.none := rfl

theorem holder_append (es es' : List (Effect κ α)) :
    holder (es ++ es') = es'.foldl step (holder es) := List.foldl_append

theorem holder_concat (es : List (Effect κ α)) (e : Effect κ α) :
    holder (es ++ [e]) = step (holder es) e := holder_append es [e]

@[simp] theorem step_acquire (h : κ → Option α) (k : κ) (a : α) :
    step h (.acquire k a) k = some a := Function.update_self ..

theorem step_acquire_ne (h : κ → Option α) {k k' : κ} (hne : k' ≠ k) (a : α) :
    step h (.acquire k a) k' = h k' := Function.update_of_ne hne ..

@[simp] theorem step_release (h : κ → Option α) (k : κ) :
    step h (.release k) k = Option.none := Function.update_self ..

theorem step_release_ne (h : κ → Option α) {k k' : κ} (hne : k' ≠ k) :
    step h (.release k) k' = h k' := Function.update_of_ne hne ..

/-- What is read off the holders changes at the key only. -/
theorem read_acquire {β : Type} (f : κ → Option α → β) (h : κ → Option α) (k : κ) (a : α) :
    (fun k' => f k' (step h (.acquire k a) k')) =
      Function.update (fun k' => f k' (h k')) k (f k (some a)) := by
  funext k'
  exact Function.apply_update f h k (some a) k'

theorem read_release {β : Type} (f : κ → Option α → β) (h : κ → Option α) (k : κ) :
    (fun k' => f k' (step h (.release k) k')) =
      Function.update (fun k' => f k' (h k')) k (f k Option.none) := by
  funext k'
  exact Function.apply_update f h k Option.none k'

/-- Where an element of a list with one more element stands. -/
theorem split_concat {ω : Type} {xs pre post : List ω} {x y : ω} (h : xs ++ [x] = pre ++ y :: post) :
    (xs = pre ∧ x = y ∧ post = []) ∨ ∃ post', post = post' ++ [x] ∧ xs = pre ++ y :: post' := by
  rcases post.eq_nil_or_concat with rfl | ⟨post, z, rfl⟩
  · obtain ⟨rfl, hx⟩ := List.append_inj' h rfl
    exact .inl ⟨rfl, List.singleton_inj.mp hx, rfl⟩
  · rw [List.concat_eq_append, ← List.cons_append, ← List.append_assoc] at h
    obtain ⟨rfl, hx⟩ := List.append_inj' h rfl
    exact .inr ⟨post, by rw [List.singleton_inj.mp hx, List.concat_eq_append], rfl⟩

/-- Every key is free when it is acquired. -/
def Exclusive (es : List (Effect κ α)) : Prop :=
  ∀ pre k a post, es = pre ++ .acquire k a :: post → holder pre k = Option.none

theorem exclusive_nil : Exclusive ([] : List (Effect κ α)) := by
  rintro pre k a post h
  simp at h

theorem Exclusive.concat {es : List (Effect κ α)} {e : Effect κ α} (h : Exclusive es)
    (he : ∀ k a, e = .acquire k a → holder es k = Option.none) :
    Exclusive (es ++ [e]) := by
  intro pre k a post heq
  rcases split_concat heq with ⟨rfl, he', -⟩ | ⟨post', -, heq⟩
  · exact he k a he'
  · exact h pre k a post' heq

/-- A key that nobody releases stays taken. -/
theorem foldl_step_ne_none {h : κ → Option α} {k : κ} {es : List (Effect κ α)}
    (hk : h k ≠ Option.none) (hes : Effect.release k ∉ es) :
    es.foldl step h k ≠ Option.none := by
  induction es generalizing h with
  | nil => exact hk
  | cons e es ih =>
    rw [List.mem_cons, not_or] at hes
    refine ih ?_ hes.2
    cases e with
    | acquire k' a =>
      by_cases hkk : k = k'
      · subst hkk
        simp
      · rwa [step_acquire_ne h hkk]
    | release k' =>
      have hkk : k ≠ k' := fun hkk => hes.1 (hkk ▸ rfl)
      rwa [step_release_ne h hkk]
    | none => exact hk

/-- **Between two acquisitions of a key it is released.** -/
theorem Exclusive.release_between {pre mid post : List (Effect κ α)} {k : κ} {a b : α}
    (h : Exclusive (pre ++ .acquire k a :: mid ++ .acquire k b :: post)) :
    Effect.release k ∈ mid := by
  by_contra hmid
  have hfree := h (pre ++ .acquire k a :: mid) k b post rfl
  rw [holder_append, List.foldl_cons] at hfree
  exact foldl_step_ne_none (by simp) hmid hfree

/-- **The holder is the last one to acquire the key**, and nobody has released it since. -/
theorem last_of_holder {es : List (Effect κ α)} {k : κ} {a : α} (h : holder es k = some a) :
    ∃ pre post, es = pre ++ .acquire k a :: post ∧ Effect.release k ∉ post ∧
      ∀ b, Effect.acquire k b ∉ post := by
  induction es using List.reverseRecOn with
  | nil => simp at h
  | append_singleton es e ih =>
    rw [holder_concat] at h
    have hcarry (hold : holder es k = some a) (hr : e ≠ .release k) (hq : ∀ b, e ≠ .acquire k b) :
        ∃ pre post, es ++ [e] = pre ++ .acquire k a :: post ∧ Effect.release k ∉ post ∧
          ∀ b, Effect.acquire k b ∉ post := by
      obtain ⟨pre, post, rfl, hrel, hacq⟩ := ih hold
      refine ⟨pre, post ++ [e], by simp, ?_, fun b => ?_⟩
      · simpa [hrel] using hr.symm
      · simpa [hacq b] using (hq b).symm
    cases e with
    | acquire k' a' =>
      by_cases hkk : k = k'
      · subst hkk
        obtain rfl : a' = a := by simpa using h
        exact ⟨es, [], rfl, by simp, by simp⟩
      · rw [step_acquire_ne _ hkk] at h
        exact hcarry h (by simp) fun b hb => hkk (by cases hb; rfl)
    | release k' =>
      by_cases hkk : k = k'
      · subst hkk
        simp at h
      · rw [step_release_ne _ hkk] at h
        exact hcarry h (fun hb => hkk (by cases hb; rfl)) (by simp)
    | none => exact hcarry h (by simp) (by simp)

end Lib.Lease
