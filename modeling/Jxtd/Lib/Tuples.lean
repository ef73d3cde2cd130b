import Mathlib.Algebra.BigOperators.Group.List.Basic
import Mathlib.Algebra.Order.BigOperators.Group.List
import Mathlib.Data.List.Nodup
import Mathlib.Data.List.Forall2
import Mathlib.Data.List.Range
import Mathlib.Tactic.Ring

/-!
# Index tuples

* `box cs`: the tuples with one entry of each list, the last entry first.
* `steps`, `offset`: the row-major position of a tuple; **`offset_injective`**, `exists_offset`.
* `Gapless`, `offset_eq`: other steps that give the same positions.
* `update`: an element of a list is replaced, where that can be done.
* **`foldlM_update`**: updates of different positions are independent of each other.
-/

namespace Lib

/-! ## Tuples -/

/-- The tuples with one entry of each list; the last entry varies fastest. -/
def box : List (List ℕ) → List (List ℕ)
  | [] => [[]]
  | c :: cs => c.flatMap fun i => (box cs).map (i :: ·)

/-- The number of elements between two neighbours, for each axis. -/
def steps : List ℕ → List ℕ
  | [] => []
  | _ :: ns => ns.prod :: steps ns

/-- The steps of elements that stand without gaps; along an axis of one element nobody steps. -/
def Gapless : List ℕ → List ℕ → Prop
  | [], [] => True
  | s :: step, n :: ns => (n = 1 ∨ s = ns.prod) ∧ Gapless step ns
  | _, _ => False

/-- The position that the entries of a tuple add up to. -/
def offset (step t : List ℕ) : ℕ := (List.zipWith (· * ·) step t).sum

variable {cs : List (List ℕ)} {sizes t t' : List ℕ}

theorem mem_box : t ∈ box cs ↔ List.Forall₂ (· ∈ ·) t cs := by
  induction cs generalizing t with
  | nil => simp [box]
  | cons c cs ih =>
    simp only [box, List.mem_flatMap, List.mem_map, ih]
    constructor
    · rintro ⟨i, hi, t, ht, rfl⟩
      exact List.Forall₂.cons hi ht
    · intro h
      cases h with
      | cons hi ht => exact ⟨_, hi, _, ht, rfl⟩

theorem nodup_box (h : ∀ c ∈ cs, c.Nodup) : (box cs).Nodup := by
  induction cs with
  | nil => simp [box]
  | cons c cs ih =>
    rw [List.forall_mem_cons] at h
    have hcons : ∀ i : ℕ, Function.Injective fun t : List ℕ => i :: t :=
      fun i t t' heq => (List.cons.inj heq).2
    rw [box, List.nodup_flatMap]
    refine ⟨fun i _ => (ih h.2).map (hcons i), h.1.imp ?_⟩
    intro i j hij t hi hj
    obtain ⟨u, -, rfl⟩ := List.mem_map.mp hi
    obtain ⟨u', -, heq⟩ := List.mem_map.mp hj
    exact hij (List.cons.inj heq).1.symm

@[simp] theorem offset_nil : offset [] t = 0 := rfl

@[simp] theorem offset_cons (s i : ℕ) (step t : List ℕ) :
    offset (s :: step) (i :: t) = s * i + offset step t := by
  simp [offset]

theorem offset_eq (h : List.Forall₂ (· < ·) t sizes) {step : List ℕ} (hstep : Gapless step sizes) :
    offset step t = offset (steps sizes) t := by
  induction h generalizing step with
  | nil =>
    cases step with
    | nil => rfl
    | cons s step => cases hstep
  | @cons i n t ns hi _ ih =>
    cases step with
    | nil => cases hstep
    | cons s step =>
      obtain ⟨hs, hrest⟩ := hstep
      rw [steps, offset_cons, offset_cons, ih hrest]
      rcases hs with rfl | rfl
      · obtain rfl := Nat.lt_one_iff.mp hi
        rw [Nat.mul_zero, Nat.mul_zero]
      · rfl

theorem offset_lt (h : List.Forall₂ (· < ·) t sizes) : offset (steps sizes) t < sizes.prod := by
  induction h with
  | nil => simp [steps]
  | @cons i n t ns hi _ ih =>
    rw [steps, offset_cons, List.prod_cons]
    calc ns.prod * i + offset (steps ns) t < ns.prod * i + ns.prod := by omega
      _ = (i + 1) * ns.prod := by ring
      _ ≤ n * ns.prod := Nat.mul_le_mul_right _ hi

/-- **Different tuples** have different positions. -/
theorem offset_injective (h : List.Forall₂ (· < ·) t sizes) (h' : List.Forall₂ (· < ·) t' sizes)
    (heq : offset (steps sizes) t = offset (steps sizes) t') : t = t' := by
  induction h generalizing t' with
  | nil =>
    cases h'
    rfl
  | @cons i n t ns hi ht ih =>
    cases h' with
    | @cons j _ u _ hj hu =>
      rw [steps, offset_cons, offset_cons] at heq
      have hlt := offset_lt ht
      have hlt' := offset_lt hu
      have hpos : 0 < ns.prod := by omega
      have hdiv : ∀ k o, o < ns.prod → (ns.prod * k + o) / ns.prod = k := by
        intro k o ho
        rw [Nat.mul_add_div hpos, Nat.div_eq_of_lt ho, Nat.add_zero]
      have hij : i = j := by rw [← hdiv i _ hlt, heq, hdiv j _ hlt']
      subst hij
      rw [ih hu (by omega)]

/-- Every position is that of a tuple. -/
theorem exists_offset {q : ℕ} (h : q < sizes.prod) :
    ∃ t, List.Forall₂ (· < ·) t sizes ∧ offset (steps sizes) t = q := by
  induction sizes generalizing q with
  | nil =>
    rw [List.prod_nil] at h
    exact ⟨[], List.Forall₂.nil, by rw [steps, offset_nil]; omega⟩
  | cons n ns ih =>
    rw [List.prod_cons] at h
    have hpos : 0 < ns.prod := Nat.pos_of_ne_zero fun hzero => by simp [hzero] at h
    obtain ⟨t, ht, heq⟩ := ih (Nat.mod_lt q hpos)
    refine ⟨q / ns.prod :: t, List.Forall₂.cons ?_ ht, ?_⟩
    · exact (Nat.div_lt_iff_lt_mul hpos).mpr h
    · rw [steps, offset_cons, heq]
      exact Nat.div_add_mod q ns.prod

/-! ## Updates -/

variable {ι β : Type}

/-- The element at a position is replaced; none if there is none, or nothing to replace it by. -/
def update (pos : ι → ℕ) (upd : ι → β → Option β) (d : List β) (t : ι) : Option (List β) :=
  (d[pos t]?).bind fun x => (upd t x).map fun y => d.set (pos t) y

variable {pos : ι → ℕ} (upd : ι → β → Option β) (new : ι → β) {ts : List ι} {d : List β}

/-- **Updates of different positions** all see what was there before. -/
theorem foldlM_update (hnd : (ts.map pos).Nodup)
    (h : ∀ t ∈ ts, ∃ x, d[pos t]? = some x ∧ upd t x = some (new t)) :
    ∃ d', ts.foldlM (update pos upd) d = some d' ∧ d'.length = d.length ∧
      (∀ t ∈ ts, d'[pos t]? = some (new t)) ∧ ∀ q ∉ ts.map pos, d'[q]? = d[q]? := by
  induction ts generalizing d with
  | nil => exact ⟨d, rfl, rfl, by simp, fun _ _ => rfl⟩
  | cons t ts ih =>
    rw [List.map_cons, List.nodup_cons] at hnd
    rw [List.forall_mem_cons] at h
    obtain ⟨⟨x, hx, hnew⟩, hrest⟩ := h
    have hne : ∀ u ∈ ts, pos t ≠ pos u := fun u hu heq => hnd.1 (heq ▸ List.mem_map_of_mem hu)
    have hfirst : update pos upd d t = some (d.set (pos t) (new t)) := by
      rw [update, hx, Option.bind_some, hnew]
      rfl
    obtain ⟨d', hfold, hlen, hts, hother⟩ := ih (d := d.set (pos t) (new t)) hnd.2 (by
      intro u hu
      rw [List.getElem?_set_ne (hne u hu)]
      exact hrest u hu)
    refine ⟨d', ?_, by rw [hlen, List.length_set], ?_, ?_⟩
    · rw [List.foldlM_cons, hfirst]
      exact hfold
    · rw [List.forall_mem_cons]
      refine ⟨?_, hts⟩
      have hlt := (List.getElem?_eq_some_iff.mp hx).1
      rw [hother (pos t) hnd.1, List.getElem?_set_self hlt]
    · intro q hq
      rw [List.map_cons, List.mem_cons, not_or] at hq
      rw [hother q hq.2, List.getElem?_set_ne (Ne.symm hq.1)]

end Lib
