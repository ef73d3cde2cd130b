import Jxtd.Lib.Ordered

/-!
# The first entry of a kind

The first entry of an ordered map, in the order of the keys, that a test accepts.

* `first`: its key; `first_mem`, `first_le`, `exists_first`: what there is to know of it.
* **`first_stable`**: maps that agree off a set of keys have the same first entry, unless it is in the
  set for one of them.
-/

namespace Lib

open Std

variable {κ ν : Type} [Ord κ] [TransOrd κ] [LawfulEqOrd κ] {p : κ × ν → Bool}
  {t t' : TreeMap κ ν} {a k : κ} {v : ν}

/-- The key of the first entry that the test accepts. -/
def first (p : κ × ν → Bool) (t : TreeMap κ ν) : Option κ := (t.toList.find? p).map Prod.fst

theorem first_mem (h : first p t = some k) : ∃ v, t[k]? = some v ∧ p (k, v) := by
  obtain ⟨⟨k, v⟩, hfind, rfl⟩ := Option.map_eq_some_iff.mp h
  exact ⟨v, TreeMap.mem_toList_iff_getElem?_eq_some.mp (List.mem_of_find?_eq_some hfind),
    List.find?_some hfind⟩

theorem exists_first (hget : t[a]? = some v) (hp : p (a, v)) : ∃ k, first p t = some k := by
  have hmem : (a, v) ∈ t.toList := TreeMap.mem_toList_iff_getElem?_eq_some.mpr hget
  obtain ⟨e, hfind⟩ := Option.isSome_iff_exists.mp (List.find?_isSome.mpr ⟨_, hmem, hp⟩)
  exact ⟨e.1, by rw [first, hfind, Option.map_some]⟩

/-- No entry that the test accepts comes before the first one. -/
theorem first_le (h : first p t = some k) (hget : t[a]? = some v) (hp : p (a, v)) :
    (compare k a).isLE := by
  obtain ⟨e, hfind, rfl⟩ := Option.map_eq_some_iff.mp h
  obtain ⟨-, before, after, hlist, hbefore⟩ := List.find?_eq_some_iff_append.mp hfind
  have hmem : (a, v) ∈ t.toList := TreeMap.mem_toList_iff_getElem?_eq_some.mpr hget
  have hordered := t.ordered_keys_toList
  rw [hlist] at hmem hordered
  rcases List.mem_append.mp hmem with hmem | hmem
  · exact absurd hp (by simpa using hbefore _ hmem)
  · rcases List.mem_cons.mp hmem with rfl | hmem
    · exact ReflOrd.isLE_rfl
    · have hlt := List.rel_of_pairwise_cons (List.pairwise_append.mp hordered).2.1 hmem
      exact Ordering.isLE_of_eq_lt hlt

/-- **The first entry stays** when the keys that change are neither first before nor after. -/
theorem first_stable {E : Set κ} (hagree : ∀ a ∉ E, t'[a]? = t[a]?) (h : first p t = some k)
    (hk : k ∉ E) (h' : ∀ k', first p t' = some k' → k' ∉ E) : first p t' = some k := by
  obtain ⟨v, hget, hp⟩ := first_mem h
  have hget' := (hagree k hk).trans hget
  obtain ⟨k', hfirst'⟩ := exists_first hget' hp
  have hk' := h' k' hfirst'
  obtain ⟨v', hgetk', hp'⟩ := first_mem hfirst'
  rw [hagree k' hk'] at hgetk'
  have heq := OrientedCmp.isLE_antisymm (first_le hfirst' hget' hp) (first_le h hgetk' hp')
  rw [hfirst', LawfulEqOrd.compare_eq_iff_eq.mp heq]

end Lib
