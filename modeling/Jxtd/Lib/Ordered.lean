import Mathlib.Data.Finset.Card
import Mathlib.Data.Finset.Filter
import Mathlib.Tactic.Common
import Std.Data.TreeMap

/-!
# Ordered maps

`Std.TreeMap` under the operations of an ordered associative container: a store that overwrites, an
insertion that keeps an entry that is there, and iteration in the order of the keys.

* `get_store`, `get_insertIfNew`: what the operations find afterwards.
* `keySet`: the keys as a finite set, `card_keySet`, `keySet_store`, `keySet_insertIfNew`.
* **`get_ofInserts`**: of the entries inserted one by one, the first of each key stays.
* **`foldl_keySet`**: storing entries one by one adds their keys.
-/

namespace Lib

open Std

variable {κ ν : Type} [DecidableEq κ] [Ord κ] [TransOrd κ] [LawfulEqOrd κ]

theorem get_store (t : TreeMap κ ν) (k a : κ) (v : ν) :
    (t.insert k v)[a]? = if k = a then some v else t[a]? := by
  rw [TreeMap.getElem?_insert]
  exact if_congr LawfulEqOrd.compare_eq_iff_eq rfl rfl

theorem get_store_self (t : TreeMap κ ν) (k : κ) (v : ν) : (t.insert k v)[k]? = some v := by
  rw [get_store, if_pos rfl]

theorem get_store_ne (t : TreeMap κ ν) {k a : κ} (v : ν) (h : k ≠ a) :
    (t.insert k v)[a]? = t[a]? := by
  rw [get_store, if_neg h]

theorem get_insertIfNew (t : TreeMap κ ν) (k a : κ) (v : ν) :
    (t.insertIfNew k v)[a]? = if k = a then some (t[a]?.getD v) else t[a]? := by
  rw [TreeMap.getElem?_insertIfNew]
  by_cases hka : k = a
  · subst hka
    rw [if_pos rfl]
    by_cases hk : k ∈ t
    · rw [if_neg fun h => h.2 hk]
      obtain ⟨w, hw⟩ := Option.isSome_iff_exists.mp (TreeMap.mem_iff_isSome_getElem?.mp hk)
      rw [hw, Option.getD_some]
    · rw [if_pos ⟨ReflCmp.compare_self, hk⟩, TreeMap.getElem?_eq_none hk, Option.getD_none]
  · rw [if_neg fun h => hka (LawfulEqOrd.compare_eq_iff_eq.mp h.1), if_neg hka]

/-! ## The keys -/

/-- The keys of a map. -/
def keySet (t : TreeMap κ ν) : Finset κ := t.keys.toFinset

@[simp] theorem mem_keySet {t : TreeMap κ ν} {k : κ} : k ∈ keySet t ↔ k ∈ t := by
  rw [keySet, List.mem_toFinset, TreeMap.mem_keys]

theorem mem_keySet_iff_get {t : TreeMap κ ν} {k : κ} : k ∈ keySet t ↔ ∃ v, t[k]? = some v := by
  rw [mem_keySet, TreeMap.mem_iff_isSome_getElem?, Option.isSome_iff_exists]

omit [LawfulEqOrd κ] in
theorem card_keySet (t : TreeMap κ ν) : (keySet t).card = t.size := by
  rw [keySet, List.toFinset_card_of_nodup TreeMap.nodup_keys, TreeMap.length_keys]

@[simp] theorem keySet_empty : keySet (∅ : TreeMap κ ν) = ∅ := by
  ext k
  rw [mem_keySet]
  exact ⟨fun h => absurd h TreeMap.not_mem_emptyc, fun h => absurd h (Finset.notMem_empty k)⟩

@[simp] theorem keySet_store (t : TreeMap κ ν) (k : κ) (v : ν) :
    keySet (t.insert k v) = insert k (keySet t) := by
  ext a
  rw [mem_keySet, TreeMap.mem_insert, LawfulEqOrd.compare_eq_iff_eq, Finset.mem_insert, mem_keySet]
  exact or_congr_left eq_comm

@[simp] theorem keySet_insertIfNew (t : TreeMap κ ν) (k : κ) (v : ν) :
    keySet (t.insertIfNew k v) = insert k (keySet t) := by
  ext a
  rw [mem_keySet, TreeMap.mem_insertIfNew, LawfulEqOrd.compare_eq_iff_eq, Finset.mem_insert,
    mem_keySet]
  exact or_congr_left eq_comm

omit [TransOrd κ] [LawfulEqOrd κ] in
/-- **Storing entries** adds their keys, whether or not a later one of a key overwrites. -/
theorem foldl_keySet {step : TreeMap κ ν → κ × ν → TreeMap κ ν}
    (hstep : ∀ t e, keySet (step t e) = insert e.1 (keySet t)) (t : TreeMap κ ν)
    (entries : List (κ × ν)) :
    keySet (entries.foldl step t) = keySet t ∪ (entries.map Prod.fst).toFinset := by
  induction entries generalizing t with
  | nil => simp
  | cons e entries ih =>
    rw [List.foldl_cons, ih, hstep, List.map_cons, List.toFinset_cons, Finset.insert_union,
      Finset.union_insert]

theorem foldl_insertIfNew_keySet (t : TreeMap κ ν) (entries : List (κ × ν)) :
    keySet (entries.foldl (fun t e => t.insertIfNew e.1 e.2) t) =
      keySet t ∪ (entries.map Prod.fst).toFinset :=
  foldl_keySet (fun t e => keySet_insertIfNew t e.1 e.2) t entries

theorem foldl_insert_keySet (t : TreeMap κ ν) (entries : List (κ × ν)) :
    keySet (entries.foldl (fun t e => t.insert e.1 e.2) t) =
      keySet t ∪ (entries.map Prod.fst).toFinset :=
  foldl_keySet (fun t e => keySet_store t e.1 e.2) t entries

/-! ## The first entry of a key stays -/

/-- The entries inserted one by one. -/
def ofInserts (entries : List (κ × ν)) : TreeMap κ ν :=
  entries.foldl (fun t e => t.insertIfNew e.1 e.2) ∅

theorem get_foldl_insertIfNew (t : TreeMap κ ν) (entries : List (κ × ν)) (k : κ) :
    (entries.foldl (fun t e => t.insertIfNew e.1 e.2) t)[k]? =
      t[k]?.or ((entries.find? fun e => e.1 = k).map Prod.snd) := by
  induction entries generalizing t with
  | nil => simp
  | cons e entries ih =>
    rw [List.foldl_cons, ih, get_insertIfNew, List.find?_cons]
    by_cases he : e.1 = k
    · simp only [he, if_true, decide_true, Option.map_some]
      cases t[k]? <;> rfl
    · simp only [he, if_false, decide_false]

/-- **The first entry of each key stays.** -/
theorem get_ofInserts (entries : List (κ × ν)) (k : κ) :
    (ofInserts entries)[k]? = (entries.find? fun e => e.1 = k).map Prod.snd := by
  rw [ofInserts, get_foldl_insertIfNew, TreeMap.getElem?_emptyc, Option.none_or]

end Lib
