import EffortRank.Proofs.Patch.HeaderText
import Mathlib.Algebra.Group.Nat.Defs

/-!
# Numbers as digits

The decimal digits of a number are read back as the number, whether or not zeros stand in front.
-/

namespace EffortRank

namespace Text

/-- Only digits, and one at least. -/
structure IsNumber (ds : List Char) : Prop where
  ne_nil : ds ≠ []
  digits : ∀ c ∈ ds, c.isDigit = true

theorem digitsValue_append (ds es : List Char) :
    digitsValue (ds ++ es) = es.foldl (fun n c => 10 * n + (c.toNat - 48)) (digitsValue ds) :=
  List.foldl_append

theorem isNumber_toDigits (n : Nat) : IsNumber (Nat.toDigits 10 n) :=
  ⟨Nat.toDigits_ne_nil, fun _ hc => Nat.isDigit_of_mem_toDigits (by decide) (by decide) hc⟩

theorem digitsValue_toDigits (n : Nat) : digitsValue (Nat.toDigits 10 n) = n :=
  Nat.ofDigitChars_toDigits (by decide) (by decide)

theorem digitsValue_zeros (k : Nat) : digitsValue (List.replicate k '0') = 0 := by
  induction k with
  | zero => rfl
  | succ k ih =>
    rw [List.replicate_succ', digitsValue_append, ih]
    rfl

/-- The digits of a number, with zeros in front that make them `width` digits at least. -/
def paddedDigits (width n : Nat) : List Char :=
  List.replicate (width - (Nat.toDigits 10 n).length) '0' ++ Nat.toDigits 10 n

theorem isNumber_paddedDigits (width n : Nat) : IsNumber (paddedDigits width n) := by
  refine ⟨?_, fun c hc => ?_⟩
  · rw [paddedDigits]
    simp [Nat.toDigits_ne_nil]
  · rcases List.mem_append.1 hc with hc | hc
    · rw [(List.mem_replicate.1 hc).2]
      rfl
    · exact (isNumber_toDigits n).digits c hc

theorem digitsValue_paddedDigits (width n : Nat) : digitsValue (paddedDigits width n) = n := by
  rw [paddedDigits, digitsValue_append, digitsValue_zeros]
  exact digitsValue_toDigits n

theorem length_paddedDigits {width n : Nat} (hwidth : 0 < width) (hn : n < 10 ^ width) :
    (paddedDigits width n).length = width := by
  have hlength : (Nat.toDigits 10 n).length ≤ width :=
    (Nat.length_toDigits_le_iff (by decide) hwidth).2 hn
  rw [paddedDigits, List.length_append, List.length_replicate]
  omega

theorem isBlank_of_isDigit {c : Char} (h : c.isDigit = true) : isBlank c = false := by
  rw [Bool.eq_false_iff]
  intro hblank
  have hdigit := isDecimalDigit_of_isBlank hblank
  rw [isDecimalDigit_of_isDigit h] at hdigit
  exact Bool.noConfusion hdigit

/-- No blank stands in front of digits. -/
theorem trimLeft_append_of_isNumber {ds : List Char} (h : IsNumber ds) (rest : List Char) :
    trimLeft (ds ++ rest) = ds ++ rest := by
  cases ds with
  | nil => exact absurd rfl h.ne_nil
  | cons d ds =>
    have hd : isBlank d = false := isBlank_of_isDigit (h.digits d List.mem_cons_self)
    rw [trimLeft, List.cons_append, List.dropWhile_cons, hd]
    rfl

/-- The first of some digits is no sign. -/
theorem ne_sign_of_isDigit {c : Char} (h : c.isDigit = true) : c ≠ '-' ∧ c ≠ '+' := by
  constructor
  · rintro rfl
    exact absurd h (by decide)
  · rintro rfl
    exact absurd h (by decide)

end Text

end EffortRank
