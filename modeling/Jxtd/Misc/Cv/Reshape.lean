import Jxtd.Lib.Image
import Mathlib.Tactic.Ring

/-!
# Reshaping

`reshape` of `misc/cv/internal/ImagePrc.cc`. The product of two sizes is an `int`, and the function
does not return where it overflows.

* `OpenCV`: what is called of the library, and of the floating point.
* `scatter`, `zeroFill`, `meanFill`: the image that two of the branches fill and drop.
* `reshape`: the function; the outer `none` where it does not return, the inner one for the null
  pointer.
* **`delivers_iff`**: when the requested shape is delivered.
-/

namespace Jxtd.Misc.Cv

open Lib

variable {α : Type}

/-- `Fill`; the type has room for one value without a name. -/
inductive Fill
  | linear
  | zero
  | meanv
  | other
  deriving DecidableEq

/-- What the function takes from elsewhere: `resize m width height`, the scaled position
`scale target source index`, the byte `vec3b m i j k` of a pixel, and the mean of a channel. -/
structure OpenCV (α : Type) where
  resize : Image α → ℕ → ℕ → Image α
  scale : ℕ → ℕ → ℕ → ℕ
  vec3b : Image α → ℕ → ℕ → ℕ → UInt8
  mean : Image α → ℕ → UInt8

/-- `resize` makes an image of the size that it is given. -/
structure OpenCV.Resizes (cv : OpenCV α) : Prop where
  rows : ∀ m width height, 0 < width → 0 < height → (cv.resize m width height).rows = height
  cols : ∀ m width height, 0 < width → 0 < height → (cv.resize m width height).cols = width

/-- The integer is an `int`. -/
def IsCInt (n : ℤ) : Prop := -2 ^ 31 ≤ n ∧ n < 2 ^ 31

instance (n : ℤ) : Decidable (IsCInt n) := inferInstanceAs (Decidable (_ ∧ _))

/-- The bytes of a pixel of the type `CV_16SC3`. -/
def elemSize : ℕ := 6

/-- `p->val[k]` becomes the byte of the source or the mean of both; none outside the image. -/
def blend (dst : List UInt8) (p : ℕ) (s : UInt8) : Option (List UInt8) :=
  dst[p]?.map fun v =>
    -- a `uchar` is never -1
    dst.set p (if (v.toNat : ℤ) = -1 then s else ((v.toNat + s.toNat) / 2).toUInt8)

/-- The source scattered over the `dst` of both branches, which starts with all bytes 0xff. -/
def scatter (cv : OpenCV α) (src : Image α) (r c : ℕ) : Option (List UInt8) :=
  (List.range src.rows).foldlM (fun dst i =>
    (List.range src.cols).foldlM (fun dst j =>
      let dst_x := cv.scale c src.cols j
      let dst_y := cv.scale r src.rows i
      (List.range 3).foldlM (fun dst k =>
        blend dst ((dst_y * c + dst_x) * elemSize + k) (cv.vec3b src i j k)) dst) dst)
    (List.replicate (c * r * elemSize) 0xff)

/-- The branch `zero`: the condition assigns -1, so that every byte becomes zero. -/
def zeroFill (cv : OpenCV α) (src : Image α) (r c : ℕ) : Option (List UInt8) :=
  (scatter cv src r c).map fun dst => dst.map fun _ => 0

/-- The branch `meanv`, where the conditions assign too. -/
def meanFill (cv : OpenCV α) (src : Image α) (r c : ℕ) : Option (List UInt8) :=
  (scatter cv src r c).map fun dst =>
    dst.mapIdx fun i v => if i % elemSize < 3 then cv.mean src (i % elemSize) else v

/-- `reshape` -/
def reshape (cv : OpenCV α) (src : Image α) (shape : List ℤ) (f : Fill) :
    Option (Option (Image α)) :=
  if src.empty then some none
  else
    match shape with
    | s₀ :: s₁ :: _ =>
      let dataNums := s₀ * s₁
      let srcNums : ℤ := src.cols * src.rows
      if ¬ IsCInt dataNums ∨ ¬ IsCInt srcNums then none
      else if dataNums = srcNums then
        -- the header that `src->reshape` returns is dropped
        if s₀ ≤ 0 then none else some (some src)
      else
        match f with
        | .linear =>
          if s₀ ≤ 0 ∨ s₁ ≤ 0 then none
          else some (some (cv.resize src s₀.toNat s₁.toNat))
        -- `dst` is filled and not copied to `src`
        | .zero => (zeroFill cv src s₀.toNat s₁.toNat).map fun _ => some src
        | .meanv => (meanFill cv src s₀.toNat s₁.toNat).map fun _ => some src
        | .other => some none
    | _ => none

/-- The function returns, and a pointer that is not null points to an image of the shape, with the
pixels of the source if it has as many. -/
def Delivers (cv : OpenCV α) (src : Image α) (r c : ℕ) (f : Fill) : Prop :=
  ∃ result, reshape cv src [r, c] f = some result ∧
    ∀ out, result = some out → out.rows = r ∧ out.cols = c ∧
      (r * c = src.rows * src.cols → out.pixels = src.pixels)

variable {cv : OpenCV α} {src : Image α} {r c : ℕ} {f : Fill}

theorem isCInt_iff (m n : ℕ) : IsCInt ((m : ℤ) * n) ↔ m * n < 2 ^ 31 := by
  have hcast : ((m * n : ℕ) : ℤ) = (m : ℤ) * n := Nat.cast_mul m n
  rw [IsCInt, ← hcast]
  omega

/-! ## The branches -/

variable (cv f) in
/-- Without an overflow the function goes on to the branches. -/
theorem reshape_of_small (hne : ¬ src.empty) (hdata : r * c < 2 ^ 31)
    (hsrc : src.rows * src.cols < 2 ^ 31) :
    reshape cv src [(r : ℤ), (c : ℤ)] f =
      if r * c = src.rows * src.cols then if r = 0 then none else some (some src)
      else
        match f with
        | .linear => if r = 0 ∨ c = 0 then none else some (some (cv.resize src r c))
        | .zero => (zeroFill cv src r c).map fun _ => some src
        | .meanv => (meanFill cv src r c).map fun _ => some src
        | .other => some none := by
  have hint : ¬ (¬ IsCInt ((r : ℤ) * c) ∨ ¬ IsCInt ((src.cols : ℤ) * src.rows)) := by
    rw [not_or, not_not, not_not, isCInt_iff, isCInt_iff, mul_comm src.cols]
    exact ⟨hdata, hsrc⟩
  have heq : ((r : ℤ) * c = (src.cols : ℤ) * src.rows) ↔ r * c = src.rows * src.cols := by
    rw [mul_comm (src.cols : ℤ)]
    exact_mod_cast Iff.rfl
  have hr : (r : ℤ) ≤ 0 ↔ r = 0 := by omega
  have hc : (c : ℤ) ≤ 0 ↔ c = 0 := by omega
  simp only [reshape, if_neg hne, if_neg hint, heq, hr, hc, Int.toNat_natCast]

/-- An overflow ends the function. -/
theorem reshape_of_overflow (hne : ¬ src.empty)
    (h : ¬ (r * c < 2 ^ 31 ∧ src.rows * src.cols < 2 ^ 31)) :
    reshape cv src [(r : ℤ), (c : ℤ)] f = none := by
  have hint : ¬ IsCInt ((r : ℤ) * c) ∨ ¬ IsCInt ((src.cols : ℤ) * src.rows) := by
    rw [isCInt_iff, isCInt_iff, mul_comm src.cols]
    exact not_and_or.mp h
  simp only [reshape, if_neg hne, if_pos hint]

/-- The source is returned for a shape that has another number of pixels. -/
theorem not_delivers_src {o : Option (List UInt8)} (hnums : r * c ≠ src.rows * src.cols)
    (h : reshape cv src [(r : ℤ), (c : ℤ)] f = o.map fun _ => some src) :
    ¬ Delivers cv src r c f := by
  rintro ⟨result, hresult, hout⟩
  rw [h] at hresult
  obtain ⟨dst, -, rfl⟩ := Option.map_eq_some_iff.mp hresult
  obtain ⟨hrows, hcols, -⟩ := hout src rfl
  exact hnums (by rw [hrows, hcols])

/-- **When the shape is delivered**: the source has it already; or the number of pixels changes, and
a square is interpolated or the null pointer is returned. -/
theorem delivers_iff (hcv : cv.Resizes) (hne : ¬ src.empty) (hr : 0 < r) (hc : 0 < c) :
    Delivers cv src r c f ↔ (r * c < 2 ^ 31 ∧ src.rows * src.cols < 2 ^ 31) ∧
      (src.rows = r ∧ src.cols = c ∨
        r * c ≠ src.rows * src.cols ∧ (f = .linear ∧ r = c ∨ f = .other)) := by
  by_cases hsmall : r * c < 2 ^ 31 ∧ src.rows * src.cols < 2 ^ 31
  swap
  · refine iff_of_false ?_ fun h => hsmall h.1
    rintro ⟨result, hresult, -⟩
    rw [reshape_of_overflow hne hsmall] at hresult
    cases hresult
  rw [and_iff_right hsmall]
  have hreshape := reshape_of_small cv f hne hsmall.1 hsmall.2
  by_cases hnums : r * c = src.rows * src.cols
  · rw [if_pos hnums, if_neg hr.ne'] at hreshape
    constructor
    · rintro ⟨result, hresult, hout⟩
      obtain rfl := Option.some.inj (hreshape.symm.trans hresult)
      obtain ⟨hrows, hcols, -⟩ := hout src rfl
      exact Or.inl ⟨hrows, hcols⟩
    · rintro (⟨hrows, hcols⟩ | ⟨hother, -⟩)
      · refine ⟨some src, hreshape, fun out hout => ?_⟩
        obtain rfl := Option.some.inj hout
        exact ⟨hrows, hcols, fun _ => rfl⟩
      · exact absurd hnums hother
  · have hsrc : ¬ (src.rows = r ∧ src.cols = c) := by
      rintro ⟨rfl, rfl⟩
      exact hnums rfl
    rw [if_neg hnums] at hreshape
    rw [or_iff_right hsrc, and_iff_right hnums]
    cases f with
    | linear =>
      rw [show (Fill.linear = .linear ∧ r = c ∨ Fill.linear = .other) ↔ r = c by simp]
      simp only [if_neg (by omega : ¬ (r = 0 ∨ c = 0))] at hreshape
      constructor
      · rintro ⟨result, hresult, hout⟩
        obtain rfl := Option.some.inj (hreshape.symm.trans hresult)
        obtain ⟨hrows, -, -⟩ := hout _ rfl
        rw [← hrows, hcv.rows src r c hr hc]
      · intro hsquare
        refine ⟨_, hreshape, fun out hout => ?_⟩
        obtain rfl := Option.some.inj hout
        refine ⟨?_, ?_, fun heq => absurd heq hnums⟩
        · rw [hcv.rows src r c hr hc, hsquare]
        · rw [hcv.cols src r c hr hc, hsquare]
    | zero => exact iff_of_false (not_delivers_src hnums hreshape) (by simp)
    | meanv => exact iff_of_false (not_delivers_src hnums hreshape) (by simp)
    | other =>
      refine iff_of_true ⟨none, hreshape, fun out hout => ?_⟩ (Or.inr rfl)
      cases hout

/-! ## A black image -/

/-- The library as it works on black images. -/
def blackCV : OpenCV UInt8 where
  resize _ width height := ⟨height, width, fun _ _ => 0⟩
  scale target source index := target * index / source
  vec3b _ _ _ _ := 0
  mean _ _ := 0

/-- A black row of two pixels. -/
def blackRow : Image UInt8 := ⟨1, 2, fun _ _ => 0⟩

/-- The row is delivered as a square, and not as a column. -/
theorem delivers_iff_blackRow :
    Delivers blackCV blackRow 2 2 .linear ∧ ¬ Delivers blackCV blackRow 2 1 .linear := by
  have hcv : blackCV.Resizes := ⟨fun _ _ _ _ _ => rfl, fun _ _ _ _ _ => rfl⟩
  have hiff (c : ℕ) (hc : 0 < c) := delivers_iff (f := .linear) hcv
    (by decide : ¬ blackRow.empty) (by decide : 0 < 2) hc
  refine ⟨(hiff 2 (by decide)).mpr ?_, fun h => ?_⟩
  · decide
  · have hcolumn := (hiff 1 (by decide)).mp h
    revert hcolumn
    decide

/-- **A row that is reshaped to a column** stays a row. -/
theorem not_delivers_blackRow : ¬ Delivers blackCV blackRow 2 1 .linear := by
  rintro ⟨result, hresult, hout⟩
  have hreshape : reshape blackCV blackRow [(2 : ℕ), (1 : ℕ)] .linear = some (some blackRow) :=
    reshape_of_small blackCV .linear (by decide) (by simp) (by simp [blackRow])
  obtain rfl := Option.some.inj (hreshape.symm.trans hresult)
  exact absurd (hout blackRow rfl).1 (by decide)

end Jxtd.Misc.Cv
