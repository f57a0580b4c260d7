import Mathlib
import Stencil.Value.Basic

set_option autoImplicit false

/-!
# Equality of numbers

Numbers are equal that are the same, and the two zeros are. Only NaN differs from itself. So equal
numbers have one text and are zero together, and equality is symmetric and transitive.
-/
namespace Stencil.Decimal
open Float.Model Float.Model.UnpackedFloat

/-- Equality of unpacked numbers: only the sign of a zero may differ. -/
inductive Alike : UnpackedFloat → UnpackedFloat → Prop
  | infinity (s : Sign) : Alike (.infinity s) (.infinity s)
  | zero (s t : Sign) : Alike (.zero s) (.zero t)
  | finite (s : Sign) (mantissa : Nat) (exponent : Int) (h : 0 < mantissa) :
    Alike (.finite s mantissa exponent h) (.finite s mantissa exponent h)

namespace Alike
variable {u v w : UnpackedFloat}

theorem symm (h : Alike u v) : Alike v u := by
  cases h with
  | infinity s => exact .infinity s
  | zero s t => exact .zero t s
  | finite s mantissa exponent h => exact .finite s mantissa exponent h

theorem trans (h : Alike u v) (h' : Alike v w) : Alike u w := by
  cases h with
  | infinity s => exact h'
  | zero s t =>
    cases h' with
    | zero _ t' => exact .zero s t'
  | finite s mantissa exponent h => exact h'

theorem text (h : Alike u v) : unpackedText u = unpackedText v := by
  cases h <;> rfl

end Alike

theorem alike_self_iff {u : UnpackedFloat} : Alike u u ↔ u.isNaN = false := by
  cases u with
  | notANumber => exact ⟨nofun, nofun⟩
  | infinity s => exact ⟨fun _ => rfl, fun _ => .infinity s⟩
  | zero s => exact ⟨fun _ => rfl, fun _ => .zero s s⟩
  | finite s mantissa exponent h => exact ⟨fun _ => rfl, fun _ => .finite s mantissa exponent h⟩

theorem then_eq_eq {m m' : Nat} {e e' : Int} :
    (compare e e').then (compare m m') = .eq ↔ e = e' ∧ m = m' := by
  rw [Ordering.then_eq_eq, Int.compare_eq_eq, Nat.compare_eq_eq]

theorem compare_eq_some_eq {u v : UnpackedFloat} : u.compare v = some .eq ↔ Alike u v := by
  constructor
  · intro h
    unfold UnpackedFloat.compare at h
    split at h <;> try cases h
    · next s t =>
      cases s <;> cases t <;> first | exact .infinity _ | cases h
    · exact .zero _ _
    · obtain ⟨rfl, rfl⟩ := then_eq_eq.1 (Ordering.swap_eq_eq.1 (Option.some.inj h))
      exact .finite _ _ _ _
    · obtain ⟨rfl, rfl⟩ := then_eq_eq.1 (Option.some.inj h)
      exact .finite _ _ _ _
  · intro h
    cases h with
    | infinity s => cases s <;> rfl
    | zero s t => rfl
    | finite s mantissa exponent h =>
      have hthen : (compare exponent exponent).then (compare mantissa mantissa) = .eq :=
        then_eq_eq.2 ⟨rfl, rfl⟩
      cases s with
      | negative => exact congrArg (fun o => some o.swap) hthen
      | positive => exact congrArg some hthen

theorem beq_iff_alike {x y : Float} : (x == y) = true ↔ Alike x.toModel.unpack y.toModel.unpack := by
  change (UnpackedFloat.compare _ _ == some Ordering.eq) = true ↔ _
  rw [beq_iff_eq, compare_eq_some_eq]

instance partialEquivBEq : PartialEquivBEq Float where
  symm h := beq_iff_alike.2 (beq_iff_alike.1 h).symm
  trans h h' := beq_iff_alike.2 ((beq_iff_alike.1 h).trans (beq_iff_alike.1 h'))

theorem beq_self_iff {x : Float} : (x == x) = true ↔ x.isNaN = false :=
  beq_iff_alike.trans alike_self_iff

theorem isNaN_of_beq {x y : Float} (h : (x == y) = true) : x.isNaN = false :=
  beq_self_iff.1 (PartialEquivBEq.trans h (BEq.symm h))

theorem numberText_congr {x y : Float} (h : (x == y) = true) : numberText x = numberText y :=
  (beq_iff_alike.1 h).text

theorem roundWithAccuracy_not_nan (spec : Format) (s : Sign) (mantissa : Nat) (exponent : Int)
    (accuracy : Accuracy) : (roundWithAccuracy spec s mantissa exponent accuracy).isNaN = false := by
  unfold roundWithAccuracy
  dsimp only
  split <;> rfl

theorem mul_not_nan {spec : Format} {u : UnpackedFloat} (hu : u.isNaN = false) (s : Sign)
    (mantissa : Nat) (exponent : Int) (h : 0 < mantissa) :
    (mul spec u (.finite s mantissa exponent h)).isNaN = false := by
  cases u with
  | notANumber => cases hu
  | infinity t => rfl
  | zero t => rfl
  | finite t m e _ => exact roundWithAccuracy_not_nan _ _ _ _ _

theorem ofNat_not_nan (spec : Format) (n : Nat) : (UnpackedFloat.ofNat spec n).isNaN = false := by
  unfold UnpackedFloat.ofNat UnpackedFloat.ofInt UnpackedFloat.normalize
  split
  · exact roundWithAccuracy_not_nan _ _ _ _ _
  · rfl
  · exact roundWithAccuracy_not_nan _ _ _ _ _

theorem components_of_nan {spec : Format} {b : BitVec spec.numBits}
    (h : (UnpackedFloat.unpack spec b).isNaN = true) :
    unpackExponent b = -1#_ ∧ unpackMantissa b ≠ 0#_ := by
  unfold UnpackedFloat.unpack at h
  dsimp only at h
  split at h
  · next hexponent =>
    split at h
    · cases h
    · next hmantissa => exact ⟨hexponent, hmantissa⟩
  · split at h
    · split at h <;> cases h
    · cases h

theorem unpack_pack_not_nan {u : UnpackedFloat} (hu : u.isNaN = false) :
    (Float.Model.pack u).unpack.isNaN = false := by
  rw [Bool.eq_false_iff]
  intro hnan
  obtain ⟨hexponent, hmantissa⟩ := components_of_nan hnan
  change unpackExponent (UnpackedFloat.pack Format.binary64 u) = _ at hexponent
  change unpackMantissa (UnpackedFloat.pack Format.binary64 u) ≠ _ at hmantissa
  cases u with
  | notANumber => cases hu
  | infinity s => exact hmantissa unpackMantissa_packComponents
  | zero s =>
    rw [UnpackedFloat.pack, packedZero, unpackExponent_packComponents] at hexponent
    exact absurd hexponent (by decide)
  | finite s m e h =>
    rw [UnpackedFloat.pack] at hexponent hmantissa
    dsimp only at hexponent hmantissa
    split at hexponent
    · next hover =>
      rw [if_pos hover] at hmantissa
      exact hmantissa unpackMantissa_packComponents
    · next hover =>
      split at hexponent
      · rw [unpackExponent_packComponents] at hexponent
        have hnat := congrArg BitVec.toNat hexponent
        rw [BitVec.toNat_ofNat] at hnat
        change _ % 2048 = 2047 at hnat
        omega
      · rw [unpackExponent_packComponents] at hexponent
        exact absurd hexponent (by decide)

theorem unpack_one :
    Float.exactlyRepresentablePowersOfTen[0].toModel.unpack =
      .finite .positive 4503599627370496 (-52) (by decide) := rfl

theorem ofScientific_not_nan (spec : Format) (n : Nat) {e : Int} (he : 0 ≤ e) :
    (UnpackedFloat.ofScientific spec n e).isNaN = false := by
  unfold UnpackedFloat.ofScientific
  split
  · rfl
  · split
    · rfl
    · split
      · rfl
      · exact mul_not_nan rfl _ _ _ _

theorem ofNat_beq_self (n : Nat) : (Float.ofNat n == Float.ofNat n) = true := by
  rw [beq_self_iff]
  change (Float.ofScientific n false 0).isNaN = false
  unfold Float.ofScientific
  split
  · refine unpack_pack_not_nan ?_
    rw [unpack_one]
    exact mul_not_nan (unpack_pack_not_nan (ofNat_not_nan _ _)) _ _ _ _
  · exact unpack_pack_not_nan (ofScientific_not_nan _ n (Int.le_refl 0))

end Stencil.Decimal
