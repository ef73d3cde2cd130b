import Jxtd.Lib.Tuples
import Mathlib.Data.List.GetD
import Mathlib.Data.List.Indexes

/-!
# Normalization

`normalize` of `misc/cv/internal/ImagePrc.cc`, on one channel of bytes with any number of
dimensions. A loop runs on fuel, and the tuples that the closure reaches are recorded.

* `ByteMat`, `leaf`, `forLoop`, `closure`, `normalize`: the function.
* `forLoop_eq`: what a loop makes of what its body does.
* `closure_eq`: **the closure replaces the elements of a box of tuples**.
* **`normalize_visits`**: every index tuple is reached once, and its element is replaced.
-/

namespace Jxtd.Misc.Cv

open Lib

/-- One channel of bytes. -/
structure ByteMat where
  size : List ℕ
  step : List ℕ
  data : List UInt8

namespace ByteMat

def empty (src : ByteMat) : Bool := src.size.isEmpty || src.size.prod == 0

/-- The elements stand row by row without gaps. -/
structure Continuous (src : ByteMat) : Prop where
  step : Gapless src.step src.size
  data : src.data.length = src.size.prod

/-- An index for each dimension. -/
def IsIndex (src : ByteMat) (t : List ℕ) : Prop := List.Forall₂ (· < ·) t src.size

end ByteMat

/-- The data, the vector of indices, and the tuples that were reached. -/
structure State where
  data : List UInt8
  flag : List ℕ
  visited : List (List ℕ)

def State.setFlag (s : State) (k i : ℕ) : State := { s with flag := s.flag.set k i }

/-- The quotient as a `uchar`; none where the integers overflow and for a division by zero. -/
def quotient (m v : Int32) (p : UInt8) : Option UInt8 :=
  let d : ℤ := p.toNat - m.toInt
  if d < -2 ^ 31 ∨ 2 ^ 31 ≤ d ∨ v.toInt = 0 ∨ 2 ^ 31 ≤ d.tdiv v.toInt then none
  else some (UInt8.ofInt (d.tdiv v.toInt))

/-- What the element at a tuple is replaced by. -/
def replacement (axis : ℕ) (m0 v0 : List Int32) (t : List ℕ) (p : UInt8) : Option UInt8 :=
  (m0[t.getD axis 0]?).bind fun m => (v0[t.getD axis 0]?).bind fun v => quotient m v p

section Closure

variable (src : ByteMat) (axis : ℕ) (m0 v0 : List Int32)

/-- The element at the vector of indices is replaced. -/
def leaf (s : State) : Option State :=
  (update (offset src.step) (replacement axis m0 v0) s.data s.flag).map fun data =>
    ⟨data, s.flag, s.visited ++ [s.flag]⟩

/-- `for (; flag[k] < n; flag[k]++) body` -/
def forLoop (k n : ℕ) (body : State → Option State) : ℕ → State → Option State
  | 0, _ => none
  | fuel + 1, s =>
    if s.flag.getD k 0 < n then
      (body s).bind fun s => forLoop k n body fuel (s.setFlag k (s.flag.getD k 0 + 1))
    else some s

/-- The closure `f` for the dimension with `rest` dimensions from it on. -/
def closure (fuel : ℕ) : ℕ → State → Option State
  | 0, s => leaf src axis m0 v0 s
  | rest + 1, s =>
    let dim := src.size.length - (rest + 1)
    if dim = axis then closure fuel rest s
    else forLoop dim (src.size.getD dim 0) (closure fuel rest) fuel (s.setFlag dim 0)

end Closure

/-- `normalize`: the image, or nothing for the null pointer, and the tuples that were reached. -/
def normalize (fuel : ℕ) (src : ByteMat) (axis : ℤ) (m0 v0 : List Int32) :
    Option (Option ByteMat × List (List ℕ)) :=
  if src.empty then some (none, [])
  else if (src.size.length : ℤ) ≤ axis then some (none, [])
  -- `flag[axis]` is not in the vector
  else if axis < 0 then none
  else
    let axis := axis.toNat
    let s : State := ⟨src.data, List.replicate src.size.length 0, []⟩
    (forLoop axis (src.size.getD axis 0) (closure src axis m0 v0 fuel src.size.length) fuel
      (s.setFlag axis 0)).map fun s => (some { src with data := s.data }, s.visited)

/-! ## The loops -/

section Loops

variable (src : ByteMat) (axis : ℕ) (m0 v0 : List Int32)

/-- The elements at the tuples are replaced one after the other. -/
def visit (s : State) (ts : List (List ℕ)) (flag : List ℕ) : Option State :=
  (ts.foldlM (update (offset src.step) (replacement axis m0 v0)) s.data).map fun data =>
    ⟨data, flag, s.visited ++ ts⟩

variable {src axis m0 v0} {s : State} {ts us : List (List ℕ)} {flag flag' : List ℕ}

theorem visit_none
    (h : ts.foldlM (update (offset src.step) (replacement axis m0 v0)) s.data = none) :
    visit src axis m0 v0 s ts flag = none := by
  rw [visit, h]
  rfl

theorem visit_append {data : List UInt8}
    (h : ts.foldlM (update (offset src.step) (replacement axis m0 v0)) s.data = some data) :
    visit src axis m0 v0 s (ts ++ us) flag =
      visit src axis m0 v0 ⟨data, flag', s.visited ++ ts⟩ us flag := by
  rw [visit, visit, List.foldlM_append, h, List.append_assoc]
  rfl

variable (src axis m0 v0) in
/-- **A loop** whose body replaces the elements at `ts i` replaces those at all of them; `I` is what
holds of the vector of indices. -/
theorem forLoop_eq {I : List ℕ → Prop} {k n : ℕ} (body : State → Option State)
    (ts : ℕ → List (List ℕ)) (fuel : ℕ) (hk : ∀ flag, I flag → k < flag.length)
    (hset : ∀ flag i, I flag → I (flag.set k i))
    (hbody : ∀ s : State, I s.flag → s.flag.getD k 0 < n →
      ∃ flag, I flag ∧ flag.getD k 0 = s.flag.getD k 0 ∧
        body s = visit src axis m0 v0 s (ts (s.flag.getD k 0)) flag)
    {s : State} (hs : I s.flag) (hle : s.flag.getD k 0 ≤ n)
    (hfuel : n - s.flag.getD k 0 < fuel) :
    ∃ flag, I flag ∧ forLoop k n body fuel s =
      visit src axis m0 v0 s
        ((List.range' (s.flag.getD k 0) (n - s.flag.getD k 0)).flatMap ts) flag := by
  induction fuel generalizing s with
  | zero => omega
  | succ fuel ih =>
    generalize hj : s.flag.getD k 0 = j at *
    rw [forLoop, hj]
    by_cases hlt : j < n
    · obtain ⟨flag, hflag, hsame, heq⟩ := hbody s hs (by omega)
      rw [hj] at hsame heq
      have hrange : n - j = (n - (j + 1)) + 1 := by omega
      rw [if_pos hlt, heq, hrange, List.range'_succ, List.flatMap_cons]
      cases hfold : (ts j).foldlM (update (offset src.step) (replacement axis m0 v0)) s.data with
      | none =>
        refine ⟨flag, hflag, ?_⟩
        rw [visit_none hfold, visit_none]
        · rfl
        · rw [List.foldlM_append, hfold]
          rfl
      | some data =>
        have hnext : (flag.set k (j + 1)).getD k 0 = j + 1 := by
          simp [hk flag hflag]
        obtain ⟨flag', hflag', heq'⟩ := ih (s := ⟨data, flag.set k (j + 1), s.visited ++ ts j⟩)
          (hset flag _ hflag) (by rw [hnext]; omega) (by rw [hnext]; omega)
        refine ⟨flag', hflag', ?_⟩
        rw [visit_append hfold, visit, hfold, Option.map_some, Option.bind_some, State.setFlag, hsame,
          heq', hnext]
    · have hzero : n - j = 0 := by omega
      refine ⟨s.flag, hs, ?_⟩
      rw [if_neg hlt, hzero, List.range'_zero, List.flatMap_nil, visit]
      simp

end Loops

/-! ## The closure -/

/-- The candidates for the entries of a tuple whose entry on the axis is `i`. -/
def candidates (size : List ℕ) (axis i : ℕ) : List (List ℕ) :=
  size.mapIdx fun k n => if k = axis then [i] else List.range n

/-- What the closure leaves of the vector of indices: the entries before the dimension, and that of
the axis. -/
structure Keeps (dims dim axis : ℕ) (pre : List ℕ) (i : ℕ) (flag : List ℕ) : Prop where
  length : flag.length = dims
  take : flag.take dim = pre
  axis : flag.getD axis 0 = i

variable {src : ByteMat} {axis i fuel rest : ℕ} {m0 v0 : List Int32} {pre t : List ℕ}

theorem drop_candidates {k : ℕ} (hk : k < src.size.length) :
    (candidates src.size axis i).drop k =
      (if k = axis then [i] else List.range (src.size.getD k 0)) ::
        (candidates src.size axis i).drop (k + 1) := by
  have hlen : k < (candidates src.size axis i).length := by simpa [candidates] using hk
  rw [List.drop_eq_getElem_cons hlen]
  simp [candidates, hk]

theorem Keeps.succ {dims dim : ℕ} {flag : List ℕ} (h : Keeps dims dim axis pre i flag)
    (hdim : dim < dims) : Keeps dims (dim + 1) axis (pre ++ [flag.getD dim 0]) i flag := by
  refine ⟨h.length, ?_, h.axis⟩
  have hlt : dim < flag.length := h.length.symm ▸ hdim
  rw [List.take_succ_eq_append_getElem hlt, h.take]
  simp [hlt]

/-- The entries before the next dimension contain those before this one. -/
theorem Keeps.of_succ {dims dim j : ℕ} {flag : List ℕ} (hpre : pre.length = dim) (hdim : dim < dims)
    (h : Keeps dims (dim + 1) axis (pre ++ [j]) i flag) :
    Keeps dims dim axis pre i flag ∧ flag.getD dim 0 = j := by
  have hlt : dim < flag.length := h.length.symm ▸ hdim
  have htake := h.take
  rw [List.take_succ_eq_append_getElem hlt] at htake
  obtain ⟨htake, hlast⟩ := List.append_inj htake (by rw [List.length_take, hpre]; omega)
  refine ⟨⟨h.length, htake, h.axis⟩, ?_⟩
  simpa [hlt] using hlast

theorem Keeps.set {dims dim j : ℕ} {flag : List ℕ} (h : Keeps dims dim axis pre i flag)
    (hne : dim ≠ axis) : Keeps dims dim axis pre i (flag.set dim j) := by
  refine ⟨by rw [List.length_set, h.length], ?_, ?_⟩
  · rw [List.take_set_of_le (le_refl dim), h.take]
  · rw [← h.axis]
    simp [List.getD_eq_getElem?_getD, List.getElem?_set_ne hne]

theorem Keeps.length_pre {dims dim : ℕ} {flag : List ℕ} (h : Keeps dims dim axis pre i flag)
    (hdim : dim ≤ dims) : pre.length = dim := by
  rw [← h.take, List.length_take, h.length]
  omega

variable (m0 v0) in
/-- **The closure replaces the elements of a box**: the entries before the dimension and that of the
axis stay, and the others take all values. -/
theorem closure_eq (hfuel : ∀ n ∈ src.size, n < fuel) (hrest : rest ≤ src.size.length) {s : State}
    (hs : Keeps src.size.length (src.size.length - rest) axis pre i s.flag) :
    ∃ flag, Keeps src.size.length (src.size.length - rest) axis pre i flag ∧
      closure src axis m0 v0 fuel rest s = visit src axis m0 v0 s
        ((box ((candidates src.size axis i).drop (src.size.length - rest))).map (pre ++ ·)) flag := by
  induction rest generalizing s pre with
  | zero =>
    refine ⟨s.flag, hs, ?_⟩
    have hpre : pre = s.flag := by
      rw [← hs.take, Nat.sub_zero, ← hs.length, List.take_length]
    have hdrop : (candidates src.size axis i).drop src.size.length = [] :=
      List.drop_of_length_le (by simp [candidates])
    rw [closure, leaf, visit, Nat.sub_zero, hdrop, hpre]
    simp [box]
  | succ rest ih =>
    have hdim : src.size.length - (rest + 1) < src.size.length := by omega
    have hsucc : src.size.length - (rest + 1) + 1 = src.size.length - rest := by omega
    have hpre := hs.length_pre hdim.le
    rw [closure, drop_candidates hdim, hsucc]
    generalize hd : src.size.length - (rest + 1) = dim at *
    rw [← hsucc] at ih ⊢
    by_cases haxis : dim = axis
    · -- the entry of the axis comes from the outer loop
      subst haxis
      have hnext := hs.succ hdim
      rw [hs.axis] at hnext
      obtain ⟨flag, hflag, heq⟩ := ih (by omega) hnext
      refine ⟨flag, (hflag.of_succ hpre hdim).1, ?_⟩
      simp only [if_true]
      rw [heq]
      simp [box, Function.comp_def]
    · have hsize : src.size.getD dim 0 < fuel := by
        rw [List.getD_eq_getElem _ _ hdim]
        exact hfuel _ (List.getElem_mem hdim)
      have hlt : ∀ flag, Keeps src.size.length dim axis pre i flag → dim < flag.length :=
        fun flag h => h.length.symm ▸ hdim
      have hzero : (s.flag.set dim 0).getD dim 0 = 0 := by
        simp [hlt s.flag hs]
      obtain ⟨flag, hflag, heq⟩ := forLoop_eq src axis m0 v0
        (I := Keeps src.size.length dim axis pre i) (k := dim) (n := src.size.getD dim 0)
        (s := s.setFlag dim 0) (closure src axis m0 v0 fuel rest)
        (fun j => (box ((candidates src.size axis i).drop (dim + 1))).map (pre ++ [j] ++ ·)) fuel
        hlt (fun flag j h => h.set haxis) (fun s hs _ => by
          obtain ⟨flag, hflag, heq⟩ := ih (by omega) (hs.succ hdim)
          obtain ⟨hkeeps, hsame⟩ := hflag.of_succ hpre hdim
          exact ⟨flag, hkeeps, hsame, heq⟩)
        (hs.set haxis) (by rw [State.setFlag, hzero]; omega) (by rw [State.setFlag, hzero]; omega)
      refine ⟨flag, hflag, ?_⟩
      simp only [if_neg haxis]
      rw [heq, State.setFlag, hzero, Nat.sub_zero, ← List.range_eq_range']
      simp [visit, box, List.map_flatMap, Function.comp_def]

/-! ## The tuples -/

theorem forall₂_candidates (haxis : axis < src.size.length) (hi : i < src.size.getD axis 0) :
    List.Forall₂ (· ∈ ·) t (candidates src.size axis i) ↔ src.IsIndex t ∧ t.getD axis 0 = i := by
  have hlen : (candidates src.size axis i).length = src.size.length := by simp [candidates]
  rw [ByteMat.IsIndex, List.forall₂_iff_get, List.forall₂_iff_get]
  constructor
  · rintro ⟨ht, h⟩
    rw [hlen] at ht
    have hentry : t.getD axis 0 = i := by
      rw [List.getD_eq_getElem _ _ (by omega)]
      simpa [candidates] using h axis (by omega) (by omega)
    refine ⟨⟨ht, fun k hk hk' => ?_⟩, hentry⟩
    by_cases hka : k = axis
    · subst hka
      rw [List.getD_eq_getElem _ _ hk] at hentry
      rw [List.getD_eq_getElem _ _ hk'] at hi
      exact hentry.trans_lt hi
    · simpa [candidates, hka] using h k hk (by omega)
  · rintro ⟨⟨ht, h⟩, hentry⟩
    refine ⟨by omega, fun k hk hk' => ?_⟩
    by_cases hka : k = axis
    · subst hka
      rw [List.getD_eq_getElem _ _ hk] at hentry
      simpa [candidates] using hentry
    · simpa [candidates, hka] using h k hk (by omega)

theorem ByteMat.IsIndex.getD_lt (ht : src.IsIndex t) (haxis : axis < src.size.length) :
    t.getD axis 0 < src.size.getD axis 0 := by
  obtain ⟨hlen, h⟩ := List.forall₂_iff_get.mp ht
  simpa [hlen, haxis] using h axis (by omega) haxis

/-- The tuples that the outer loop goes through. -/
def tuples (size : List ℕ) (axis : ℕ) : List (List ℕ) :=
  (List.range (size.getD axis 0)).flatMap fun i => box (candidates size axis i)

theorem mem_tuples (haxis : axis < src.size.length) : t ∈ tuples src.size axis ↔ src.IsIndex t := by
  rw [tuples, List.mem_flatMap]
  constructor
  · rintro ⟨i, hi, ht⟩
    exact ((forall₂_candidates haxis (List.mem_range.mp hi)).mp (mem_box.mp ht)).1
  · intro ht
    have hi := ht.getD_lt haxis
    exact ⟨_, List.mem_range.mpr hi, mem_box.mpr ((forall₂_candidates haxis hi).mpr ⟨ht, rfl⟩)⟩

theorem nodup_tuples (haxis : axis < src.size.length) : (tuples src.size axis).Nodup := by
  rw [tuples, List.nodup_flatMap]
  constructor
  · intro i _
    refine nodup_box fun c hc => ?_
    obtain ⟨k, hk, rfl⟩ := List.mem_mapIdx.mp hc
    split_ifs
    · exact List.nodup_singleton i
    · exact List.nodup_range
  · refine List.pairwise_iff_forall_sublist.mpr fun {i j} hsub t hti htj => ?_
    have hmem : ∀ l ∈ [i, j], l < src.size.getD axis 0 :=
      fun l hl => List.mem_range.mp (hsub.subset hl)
    have hi := (forall₂_candidates haxis (hmem i (by simp))).mp (mem_box.mp hti)
    have hj := (forall₂_candidates haxis (hmem j (by simp))).mp (mem_box.mp htj)
    have hne := (List.nodup_range (n := src.size.getD axis 0)).sublist hsub
    simp only [List.nodup_cons, List.mem_singleton] at hne
    exact hne.1 (hi.2.symm.trans hj.2)

/-! ## The function -/

/-- The quotient is defined where the difference is an `int`. -/
theorem quotient_eq {m v : Int32} {p : UInt8} (hv : v ≠ 0)
    (hlo : -2 ^ 31 ≤ (p.toNat : ℤ) - m.toInt) (hhi : (p.toNat : ℤ) - m.toInt < 2 ^ 31) :
    quotient m v p = some (UInt8.ofInt (((p.toNat : ℤ) - m.toInt).tdiv v.toInt)) := by
  have hm := m.toInt_lt
  have hv0 : v.toInt ≠ 0 := fun h => hv (Int32.toInt_inj.mp h)
  have habs : (((p.toNat : ℤ) - m.toInt).tdiv v.toInt).natAbs ≤ ((p.toNat : ℤ) - m.toInt).natAbs := by
    rw [Int.natAbs_tdiv]
    exact Nat.div_le_self _ _
  rw [quotient, if_neg (by omega)]

/-- With enough fuel the outer loop replaces the elements at all tuples. -/
theorem normalize_eq (hne : ¬ src.empty) (haxis : axis < src.size.length)
    (hfuel : ∀ n ∈ src.size, n < fuel) {data : List UInt8}
    (hdata : (tuples src.size axis).foldlM (update (offset src.step) (replacement axis m0 v0))
      src.data = some data) :
    normalize fuel src axis m0 v0 =
      some (some { src with data := data }, tuples src.size axis) := by
  have hsize : src.size.getD axis 0 < fuel := by
    rw [List.getD_eq_getElem _ _ haxis]
    exact hfuel _ (List.getElem_mem haxis)
  have hzero : ((List.replicate src.size.length 0).set axis 0).getD axis 0 = 0 := by
    simp [haxis]
  obtain ⟨flag, -, heq⟩ := forLoop_eq src axis m0 v0
    (I := fun flag => flag.length = src.size.length) (k := axis) (n := src.size.getD axis 0)
    (s := ⟨src.data, (List.replicate src.size.length 0).set axis 0, []⟩)
    (closure src axis m0 v0 fuel src.size.length) (fun i => box (candidates src.size axis i)) fuel
    (fun flag h => h ▸ haxis) (fun flag i h => by rw [List.length_set, h]) (fun s hs _ => by
      have hkeeps : Keeps src.size.length (src.size.length - src.size.length) axis []
          (s.flag.getD axis 0) s.flag := ⟨hs, by simp, rfl⟩
      obtain ⟨flag, hflag, heq⟩ := closure_eq m0 v0 hfuel le_rfl hkeeps
      exact ⟨flag, hflag.length, hflag.axis, by simpa using heq⟩)
    (by simp) (by rw [hzero]; omega) (by rw [hzero]; omega)
  rw [hzero, Nat.sub_zero, ← List.range_eq_range', visit] at heq
  have hrange : ¬ (src.size.length : ℤ) ≤ axis := by omega
  simp only [normalize, if_neg hne, if_neg hrange, if_neg (Int.not_lt.mpr (Int.natCast_nonneg axis)),
    Int.toNat_natCast, State.setFlag]
  rw [heq, ← tuples, hdata]
  rfl

/-- Each element is replaced by `(p - m0[i]) / v0[i]` as a byte, for its index `i` on the axis. -/
structure Normalized (src : ByteMat) (axis : ℕ) (m0 v0 : List Int32) (dst : ByteMat) : Prop where
  size : dst.size = src.size
  step : dst.step = src.step
  length : dst.data.length = src.data.length
  element : ∀ t, src.IsIndex t → ∃ p m v, src.data[offset src.step t]? = some p ∧
    m0[t.getD axis 0]? = some m ∧ v0[t.getD axis 0]? = some v ∧
    dst.data[offset src.step t]? = some (UInt8.ofInt (((p.toNat : ℤ) - m.toInt).tdiv v.toInt))

/-- An index tuple of a continuous image stands for an element. -/
theorem ByteMat.Continuous.exists_element (hcont : src.Continuous) (ht : src.IsIndex t) :
    ∃ p, src.data[offset src.step t]? = some p := by
  have hlt : offset src.step t < src.data.length := by
    rw [offset_eq ht hcont.step, hcont.data]
    exact offset_lt ht
  exact ⟨_, List.getElem?_eq_getElem hlt⟩

theorem not_isIndex_of_empty (hempty : src.empty) (haxis : axis < src.size.length) :
    ¬ src.IsIndex t := by
  intro ht
  have hlt := offset_lt ht
  simp only [ByteMat.empty, Bool.or_eq_true, List.isEmpty_iff, beq_iff_eq] at hempty
  rcases hempty with hnil | hprod
  · simp [hnil] at haxis
  · omega

/-- **Every index tuple is reached once**: the function returns, and replaces every element. -/
theorem normalize_visits (hcont : src.Continuous) (haxis : axis < src.size.length)
    (hm0 : src.size.getD axis 0 ≤ m0.length) (hv0 : src.size.getD axis 0 ≤ v0.length)
    (hzero : ∀ v ∈ v0, v ≠ 0)
    (hint : ∀ t p m, src.IsIndex t → src.data[offset src.step t]? = some p →
      m0[t.getD axis 0]? = some m →
        -2 ^ 31 ≤ (p.toNat : ℤ) - m.toInt ∧ (p.toNat : ℤ) - m.toInt < 2 ^ 31) :
    ∃ fuel₀ out visited,
      (∀ fuel ≥ fuel₀, normalize fuel src axis m0 v0 = some (out, visited)) ∧
      (out = none ↔ src.empty) ∧ visited.Nodup ∧ (∀ t, t ∈ visited ↔ src.IsIndex t) ∧
      (∀ q < src.data.length, ∃ t, src.IsIndex t ∧ offset src.step t = q) ∧
      ∀ dst, out = some dst → Normalized src axis m0 v0 dst := by
  have hcover : ∀ q < src.data.length, ∃ t, src.IsIndex t ∧ offset src.step t = q := by
    intro q hq
    rw [hcont.data] at hq
    obtain ⟨t, ht, heq⟩ := exists_offset hq
    exact ⟨t, ht, (offset_eq ht hcont.step).trans heq⟩
  by_cases hempty : src.empty
  · refine ⟨0, none, [], fun fuel _ => by rw [normalize, if_pos hempty], by simp [hempty],
      List.nodup_nil, fun t => ?_, hcover, fun dst h => by cases h⟩
    exact iff_of_false List.not_mem_nil (not_isIndex_of_empty hempty haxis)
  · -- what each element is replaced by
    have helement : ∀ t, src.IsIndex t → ∃ p m v, src.data[offset src.step t]? = some p ∧
        m0[t.getD axis 0]? = some m ∧ v0[t.getD axis 0]? = some v ∧
        replacement axis m0 v0 t p =
          some (UInt8.ofInt (((p.toNat : ℤ) - m.toInt).tdiv v.toInt)) := by
      intro t ht
      obtain ⟨p, hp⟩ := hcont.exists_element ht
      have hi := ht.getD_lt haxis
      have hm := List.getElem?_eq_getElem (hi.trans_le hm0)
      have hv := List.getElem?_eq_getElem (hi.trans_le hv0)
      have hrange := hint t p _ ht hp hm
      refine ⟨p, _, _, hp, hm, hv, ?_⟩
      rw [replacement, hm, hv, Option.bind_some, Option.bind_some]
      exact quotient_eq (hzero _ (List.getElem_mem _)) hrange.1 hrange.2
    choose! p m v hp hm hv hnew using helement
    have hpos : ((tuples src.size axis).map (offset src.step)).Nodup := by
      refine List.Nodup.map_on ?_ (nodup_tuples haxis)
      intro t ht t' ht' heq
      rw [mem_tuples haxis] at ht ht'
      rw [offset_eq ht hcont.step, offset_eq ht' hcont.step] at heq
      exact offset_injective ht ht' heq
    obtain ⟨data, hdata, hlen, hmem, -⟩ := foldlM_update
      (replacement axis m0 v0) (d := src.data)
      (fun t => UInt8.ofInt ((((p t).toNat : ℤ) - (m t).toInt).tdiv (v t).toInt)) hpos
      fun t ht => ⟨p t, hp t ((mem_tuples haxis).mp ht), hnew t ((mem_tuples haxis).mp ht)⟩
    refine ⟨src.size.sum + 1, some { src with data := data }, tuples src.size axis,
      fun fuel hfuel => ?_, by simp [hempty], nodup_tuples haxis, fun t => mem_tuples haxis,
      hcover, fun dst hdst => ?_⟩
    · refine normalize_eq hempty haxis (fun n hn => ?_) hdata
      have hle := List.le_sum_of_mem hn
      omega
    · obtain rfl := Option.some.inj hdst
      refine ⟨rfl, rfl, hlen, fun t ht => ⟨p t, m t, v t, hp t ht, hm t ht, hv t ht, ?_⟩⟩
      exact hmem t ((mem_tuples haxis).mpr ht)

/-- Two rows of three bytes, in a plane of its own, with another mean for each column. -/
def planes : ByteMat := ⟨[1, 2, 3], [8, 3, 1], [1, 3, 5, 7, 9, 0]⟩

theorem normalize_visits_planes :
    ∃ fuel₀ out visited,
      (∀ fuel ≥ fuel₀, normalize fuel planes (2 : ℕ) [1, -2, 3] [2, 1, -4] = some (out, visited)) ∧
      (out = none ↔ planes.empty) ∧ visited.Nodup ∧ (∀ t, t ∈ visited ↔ planes.IsIndex t) ∧
      (∀ q < planes.data.length, ∃ t, planes.IsIndex t ∧ offset planes.step t = q) ∧
      ∀ dst, out = some dst → Normalized planes 2 [1, -2, 3] [2, 1, -4] dst := by
  have hcont : planes.Continuous := ⟨⟨.inl rfl, .inr rfl, .inr rfl, trivial⟩, rfl⟩
  have hsmall : ∀ m ∈ ([1, -2, 3] : List Int32), -2 ≤ m.toInt ∧ m.toInt ≤ 3 := by simp
  refine normalize_visits hcont (by decide) (by decide) (by decide) (by simp) ?_
  intro t p m _ _ hm
  obtain ⟨hlow, hhigh⟩ := hsmall m (List.mem_of_getElem? hm)
  have hp := p.toNat_lt
  omega

end Jxtd.Misc.Cv
