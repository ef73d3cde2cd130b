import Mathlib.Data.List.AList
import Mathlib.Data.List.Induction

/-!
# Maps from keys to lists of values

A value is pushed at the end of the list of its key; the first value of a key makes its list.

* `push`, `Full`: pushing a value, and maps in which no list is empty.
* **`foldl_push`**: pushing all values of a list under a new key inserts the list.
* **`entries_foldl_push`**: pushing the values of different keys, key by key.
-/

namespace Lib

variable {K V : Type} [DecidableEq K]

/-- Push a value at the end of the list of its key. -/
def push (m : AList fun _ : K => List V) (k : K) (v : V) : AList fun _ : K => List V :=
  match m.lookup k with
  | none => m.insert k [v]
  | some vs => m.insert k (vs ++ [v])

/-- No key has an empty list. -/
def Full (m : AList fun _ : K => List V) : Prop := ∀ k vs, m.lookup k = some vs → vs ≠ []

theorem full_empty : Full (∅ : AList fun _ : K => List V) := fun k vs h => by
  rw [AList.lookup_empty] at h
  cases h

theorem Full.insert {m : AList fun _ : K => List V} (h : Full m) (k : K) {vs : List V}
    (hvs : vs ≠ []) : Full (m.insert k vs) := by
  intro k' vs' h'
  by_cases hk : k' = k
  · subst hk
    rw [AList.lookup_insert] at h'
    cases h'
    exact hvs
  · rw [AList.lookup_insert_ne hk] at h'
    exact h k' vs' h'

theorem Full.push {m : AList fun _ : K => List V} (h : Full m) (k : K) (v : V) :
    Full (push m k v) := by
  unfold Lib.push
  split
  · exact h.insert k (List.cons_ne_nil v [])
  · exact h.insert k (by simp)

theorem foldl_push_insert (m : AList fun _ : K => List V) (k : K) (vs ws : List V) :
    vs.foldl (fun m v => push m k v) (m.insert k ws) = m.insert k (ws ++ vs) := by
  induction vs generalizing ws with
  | nil => rw [List.foldl_nil, List.append_nil]
  | cons v vs ih =>
    have hp : push (m.insert k ws) k v = m.insert k (ws ++ [v]) := by
      simp only [push, AList.lookup_insert, AList.insert_insert]
    rw [List.foldl_cons, hp, ih, List.append_assoc, List.singleton_append]

/-- **The values of a new key**, pushed one by one. -/
theorem foldl_push {m : AList fun _ : K => List V} {k : K} (hk : k ∉ m) {vs : List V}
    (hvs : vs ≠ []) : vs.foldl (fun m v => push m k v) m = m.insert k vs := by
  obtain ⟨v, vs, rfl⟩ := List.exists_cons_of_ne_nil hvs
  have hp : push m k v = m.insert k [v] := by
    simp only [push, AList.lookup_eq_none.mpr hk]
  rw [List.foldl_cons, hp, foldl_push_insert, List.singleton_append]

/-- **The values of different keys**, pushed key by key into the empty map. -/
theorem entries_foldl_push {es : List (Sigma fun _ : K => List V)} (h : es.NodupKeys)
    (hes : ∀ e ∈ es, e.2 ≠ []) :
    (es.foldl (fun m e => e.2.foldl (fun m v => push m e.1 v) m)
      (∅ : AList fun _ : K => List V)).entries = es.reverse := by
  induction es using List.reverseRecOn with
  | nil => rfl
  | append_singleton es e ih =>
    have ih := ih (h.sublist (List.sublist_append_left es [e]))
      fun e' he' => hes e' (List.mem_append_left _ he')
    rw [List.foldl_append, List.foldl_cons, List.foldl_nil, foldl_push ?_ (hes e (by simp)),
      AList.entries_insert_of_notMem ?_, ih, List.reverse_append, List.reverse_singleton,
      List.singleton_append]
    all_goals
      rw [AList.mem_keys, AList.keys, ih, List.keys, List.map_reverse, List.mem_reverse]
      rw [List.NodupKeys, List.keys, List.map_append, List.nodup_append] at h
      exact fun hm => h.2.2 _ hm _ (by simp) rfl

end Lib
