import EffortRank.Rank.Scalar
import Mathlib

/-!
# Sums that are not negative

A matrix leaves out the steps of a node whose ways out weigh at most nothing. That is the same as
keeping the nodes whose ways out weigh more than nothing, if no weight is negative: for rational
numbers by their order, for doubles because a sum of doubles that are not negative is neither
negative nor a NaN, even where it is rounded or infinite (`NotNegative.add`). `OrderedScalar` is
what both have in common.
-/

namespace EffortRank

/-- Sums of numbers that are not negative are not negative, and of such a number it is decided
whether it is greater than zero. A NaN is neither at least zero nor at most. -/
class OrderedScalar (α : Type) [Scalar α] : Prop where
  sumStart_nonneg : Scalar.le (Scalar.zero : α) Scalar.sumStart = true
  add_nonneg {x y : α} (hx : Scalar.le Scalar.zero x = true) (hy : Scalar.le Scalar.zero y = true) :
    Scalar.le Scalar.zero (x + y) = true
  lt_eq_not_le {x : α} (hx : Scalar.le Scalar.zero x = true) :
    Scalar.lt Scalar.zero x = !Scalar.le x Scalar.zero

theorem Scalar.sum_nonneg {α : Type} [Scalar α] [OrderedScalar α] {xs : List α}
    (h : ∀ x ∈ xs, Scalar.le Scalar.zero x = true) :
    Scalar.le Scalar.zero (Scalar.sum xs) = true :=
  List.foldlRecOn (motive := fun sum => Scalar.le Scalar.zero sum = true) xs _
    OrderedScalar.sumStart_nonneg fun _ hsum x hx => OrderedScalar.add_nonneg hsum (h x hx)

/-! ## Rational numbers -/

instance : OrderedScalar ℚ where
  sumStart_nonneg := by decide
  add_nonneg {x y} hx hy :=
    decide_eq_true (add_nonneg (of_decide_eq_true hx : (0 : ℚ) ≤ x) (of_decide_eq_true hy))
  lt_eq_not_le {x} _ := by
    rw [Bool.eq_iff_iff, Bool.not_eq_true', ← Bool.not_eq_true]
    exact decide_eq_true_iff.trans (not_le.symm.trans (not_congr decide_eq_true_iff.symm))

/-! ## Doubles

A double is unpacked, worked on and packed again. What is unpacked then may be rounded, but its sign
is that of what was packed. -/

section

open Float.Model Float.Model.UnpackedFloat

/-- An unpacked number that is not negative, and no NaN. Zero may have either sign. -/
inductive NotNegative : UnpackedFloat → Prop
  | zero (sign : Sign) : NotNegative (.zero sign)
  | finite {mantissa : Nat} {exponent : Int} {hpos : 0 < mantissa} :
    NotNegative (.finite .positive mantissa exponent hpos)
  | infinity : NotNegative (.infinity .positive)

theorem zero_le_iff {u : UnpackedFloat} :
    UnpackedFloat.le (.zero .positive) u = true ↔ NotNegative u := by
  constructor
  · intro h
    cases u with
    | notANumber => cases h
    | zero sign => exact .zero sign
    | infinity sign =>
      cases sign with
      | negative => cases h
      | positive => exact .infinity
    | finite sign _ _ _ =>
      cases sign with
      | negative => cases h
      | positive => exact .finite
  · rintro (_ | _ | _) <;> rfl

theorem NotNegative.zero_lt_eq {u : UnpackedFloat} (h : NotNegative u) :
    UnpackedFloat.lt (.zero .positive) u = !UnpackedFloat.le u (.zero .positive) := by
  cases h <;> rfl

theorem NotNegative.not_isNaN {u : UnpackedFloat} (h : NotNegative u) : u.isNaN = false := by
  cases h <;> rfl

/-- Rounding keeps the sign, also of what is rounded to zero. -/
theorem notNegative_round (mantissa : Nat) (exponent : Int) :
    NotNegative (UnpackedFloat.round .binary64 .positive mantissa exponent) := by
  unfold UnpackedFloat.round roundWithAccuracy
  dsimp only
  split
  · exact .zero _
  · exact .finite

theorem NotNegative.add {u v : UnpackedFloat} (hu : NotNegative u) (hv : NotNegative v) :
    NotNegative (UnpackedFloat.add .binary64 u v) := by
  cases hu with
  | infinity => cases hv <;> exact .infinity
  | zero sign =>
    cases hv with
    | zero sign' => cases sign <;> cases sign' <;> exact .zero _
    | finite => exact .finite
    | infinity => exact .infinity
  | finite =>
    cases hv with
    | zero => exact .finite
    | infinity => exact .infinity
    | finite =>
      -- The mantissas, moved to one exponent, are added up as natural numbers.
      dsimp only [UnpackedFloat.add, Sign.apply, UnpackedFloat.normalize]
      split
      · rename_i hneg
        rw [Int.compare_eq_lt] at hneg
        exact absurd hneg
          (Int.not_lt.2 (Int.add_nonneg (Int.natCast_nonneg _) (Int.natCast_nonneg _)))
      · exact .zero _
      · exact notNegative_round _ _

theorem unpackSign_packComponents (sign : Sign) (exponent : BitVec 11) (mantissa : BitVec 52) :
    unpackSign (packComponents .binary64 sign exponent mantissa) = sign.toBitVec := by
  rw [unpackSign, packComponents, BitVec.cast_eq, BitVec.extractLsb,
    BitVec.extractLsb'_append_eq_of_le (by decide), BitVec.extractLsb'_append_eq_of_le (by decide)]
  cases sign <;> rfl

theorem notNegative_unpack {exponent : BitVec 11} (h : exponent ≠ -1#11) (mantissa : BitVec 52) :
    NotNegative (UnpackedFloat.unpack .binary64
      (packComponents .binary64 .positive exponent mantissa)) := by
  have hsign : Sign.ofBitVec (Sign.toBitVec .positive) = .positive := rfl
  simp only [UnpackedFloat.unpack, unpackMantissa_packComponents, unpackExponent_packComponents,
    unpackSign_packComponents, hsign, if_neg h]
  split
  · split
    · exact .zero _
    · exact .finite
  · exact .finite

/-- What is packed is unpacked again as a number that is not negative, if it was one. -/
theorem NotNegative.unpack_pack {u : UnpackedFloat} (h : NotNegative u) :
    NotNegative (Float.Model.pack u).unpack := by
  cases h with
  | zero sign => cases sign <;> exact .zero _
  | infinity => exact .infinity
  | finite =>
    show NotNegative (UnpackedFloat.unpack .binary64 (UnpackedFloat.pack .binary64 _))
    unfold UnpackedFloat.pack
    dsimp only
    split
    · -- An exponent that is too large makes it infinite.
      exact .infinity
    · rename_i hexponent
      split
      · refine notNegative_unpack (fun hall => ?_) _
        have hbits := congrArg BitVec.toNat hall
        rw [BitVec.toNat_ofNat] at hbits
        have hones : (-1#11 : BitVec 11).toNat = 2047 := rfl
        omega
      · exact notNegative_unpack (by decide) _

theorem Scalar.le_float (x y : Float) :
    Scalar.le x y = x.toModel.unpack.le y.toModel.unpack := by
  simp only [Scalar.le, LE.le, Bool.decide_eq_true, Float.le]
  rfl

theorem Scalar.lt_float (x y : Float) :
    Scalar.lt x y = x.toModel.unpack.lt y.toModel.unpack := by
  simp only [Scalar.lt, LT.lt, Bool.decide_eq_true, Float.lt]
  rfl

theorem unpack_zero : (Scalar.zero : Float).toModel.unpack = .zero .positive := rfl

theorem zero_le_float_iff {x : Float} :
    Scalar.le Scalar.zero x = true ↔ NotNegative x.toModel.unpack := by
  rw [Scalar.le_float, unpack_zero, zero_le_iff]

instance : OrderedScalar Float where
  sumStart_nonneg := zero_le_float_iff.2 (.zero .negative)
  add_nonneg hx hy :=
    zero_le_float_iff.2 ((zero_le_float_iff.1 hx).add (zero_le_float_iff.1 hy)).unpack_pack
  lt_eq_not_le hx := by
    rw [Scalar.lt_float, Scalar.le_float, unpack_zero]
    exact (zero_le_float_iff.1 hx).zero_lt_eq

end

/-! ## Doubles whose NaNs have signs -/

theorem Double.zero_le_iff {x : Double} :
    Scalar.le Scalar.zero x = true ↔
      ∃ y : Float, x = .number y ∧ Scalar.le Scalar.zero y = true := by
  cases x with
  | number y =>
    constructor
    · intro h
      exact ⟨y, rfl, h⟩
    · rintro ⟨_, ⟨⟩, h⟩
      exact h
  | nan =>
    constructor
    · intro h
      cases h
    · rintro ⟨_, ⟨⟩, -⟩

theorem Double.add_of_not_isNaN {x y : Float} (h : (x + y).isNaN = false) :
    (.number x + .number y : Double) = .number (x + y) := by
  show Double.ofFloat (x + y) = .number (x + y)
  rw [Double.ofFloat, h]
  rfl

theorem not_isNaN_of_nonneg {x : Float} (h : Scalar.le Scalar.zero x = true) : x.isNaN = false :=
  (zero_le_float_iff.1 h).not_isNaN

instance : OrderedScalar Double where
  sumStart_nonneg := Double.zero_le_iff.2 ⟨_, rfl, zero_le_float_iff.2 (.zero .negative)⟩
  add_nonneg hx hy := by
    obtain ⟨x, rfl, hx⟩ := Double.zero_le_iff.1 hx
    obtain ⟨y, rfl, hy⟩ := Double.zero_le_iff.1 hy
    have hsum : Scalar.le Scalar.zero (x + y) = true := OrderedScalar.add_nonneg hx hy
    rw [Double.add_of_not_isNaN (not_isNaN_of_nonneg hsum)]
    exact Double.zero_le_iff.2 ⟨_, rfl, hsum⟩
  lt_eq_not_le hx := by
    obtain ⟨x, rfl, hx⟩ := Double.zero_le_iff.1 hx
    exact (OrderedScalar.lt_eq_not_le hx : Scalar.lt Scalar.zero x = !Scalar.le x Scalar.zero)

end EffortRank
