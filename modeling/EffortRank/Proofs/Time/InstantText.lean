import EffortRank.Proofs.Text.Digits
import EffortRank.Proofs.Time.Calendar
import EffortRank.Time.Instant
import Mathlib.Data.List.TakeWhile

/-!
# Instants as they are written

An instant of the years that instants may lie in is read back from its text (`parse?_text`). The
text is a date and a time of two digits a part, so that each reader takes exactly what was written
for it.
-/

namespace EffortRank

open Text

namespace Instant

/-- An instant as the program can hold it: of a year in range, and with the nanoseconds of a second
or of a leap second, which comes only at the end of a minute. -/
structure Fits (t : Instant) : Prop where
  year : yearInRange (Date.ofDays (t.seconds / 86400)).year = true
  nanos : t.nanos < 2000000000
  leap : 1000000000 ≤ t.nanos → t.seconds % 60 = 59

instance (t : Instant) : Decidable t.Fits :=
  decidable_of_iff (yearInRange (Date.ofDays (t.seconds / 86400)).year = true ∧
      t.nanos < 2000000000 ∧ (1000000000 ≤ t.nanos → t.seconds % 60 = 59))
    ⟨fun h => ⟨h.1, h.2.1, h.2.2⟩, fun h => ⟨h.year, h.nanos, h.leap⟩⟩

/-! ## Parts of the text -/

theorem toList_padded (width n : Nat) : (padded width n).toList = paddedDigits width n := by
  have hlength : (toString n).length = (Nat.toDigits 10 n).length := by
    rw [← String.length_toList, Nat.toString_eq_repr, Nat.toList_repr]
  rw [padded, String.toList_append, String.toList_ofList, hlength, Nat.toString_eq_repr,
    Nat.toList_repr]
  rfl

/-- Digits are read as a number, if they are as many as may be read. -/
theorem number?_append {ds : List Char} (hds : IsNumber ds) (rest : List Char) :
    number? ds.length (ds ++ rest) = some (digitsValue ds, rest) := by
  have htake : (ds ++ rest).take ds.length = ds := List.take_left
  have hall : ds.takeWhile Char.isDigit = ds := List.takeWhile_eq_self_iff.2 hds.digits
  have hne : ds.isEmpty = false := List.isEmpty_eq_false_iff.2 hds.ne_nil
  unfold number?
  dsimp only
  rw [trimLeft_append_of_isNumber hds, htake, hall, hne, List.drop_left]
  rfl

theorem number?_padded {width n : Nat} (hwidth : 0 < width) (hn : n < 10 ^ width)
    (rest : List Char) :
    number? width ((padded width n).toList ++ rest) = some (n, rest) := by
  have hread := number?_append (isNumber_paddedDigits width n) rest
  rw [length_paddedDigits hwidth hn, digitsValue_paddedDigits] at hread
  rw [toList_padded, hread]

theorem trimLeft_cons {c : Char} (h : isBlank c = false) (rest : List Char) :
    trimLeft (c :: rest) = c :: rest := by
  rw [trimLeft, List.dropWhile_cons, h]
  rfl

theorem mark?_cons {mark : Char} (h : isBlank mark = false) (rest : List Char) :
    mark? mark (mark :: rest) = some rest := by
  rw [mark?, trimLeft_cons h]
  exact if_pos rfl

/-- The digits behind a sign end in front of the mark. -/
theorem signed?_append {ds rest : List Char} (hds : IsNumber ds)
    (hrest : StartsOutside Char.isDigit rest) (f : Nat → Int) :
    year?.signed? (ds ++ rest) f = some (f (digitsValue ds), rest) := by
  have hne : ds.isEmpty = false := List.isEmpty_eq_false_iff.2 hds.ne_nil
  unfold year?.signed?
  dsimp only
  rw [takeWhile_of_startsOutside hds.digits hrest, hne, List.drop_left]
  rfl

/-- Without a sign a year has four digits. -/
theorem year?_digits {d : Char} {cs : List Char} (h : d.isDigit = true) :
    year? (d :: cs) = (number? 4 (d :: cs)).map fun r => ((r.1 : Int), r.2) := by
  rw [year?, trimLeft_cons (isBlank_of_isDigit h)]
  obtain ⟨hminus, hplus⟩ := ne_sign_of_isDigit h
  split
  · rename_i heq
    exact absurd (List.cons.inj heq).1 hminus
  · rename_i heq
    exact absurd (List.cons.inj heq).1 hplus
  · rfl

theorem year?_minus (rest : List Char) :
    year? ('-' :: rest) = year?.signed? rest fun n => -(n : Int) := by
  rw [year?, trimLeft_cons (by decide)]
  rfl

theorem year?_plus (rest : List Char) :
    year? ('+' :: rest) = year?.signed? rest fun n => (n : Int) := by
  rw [year?, trimLeft_cons (by decide)]
  rfl

/-- A year is read back, whether it has four digits or a sign. -/
theorem year?_yearText (year : Int) {rest : List Char} (hrest : StartsOutside Char.isDigit rest) :
    year? ((yearText year).toList ++ rest) = some (year, rest) := by
  have hdigits := isNumber_paddedDigits 4 year.natAbs
  unfold yearText
  split
  · rename_i hyear
    have hread : number? 4 ((padded 4 year.toNat).toList ++ rest) = some (year.toNat, rest) :=
      number?_padded (by decide) (by omega) rest
    rw [toList_padded] at hread ⊢
    obtain ⟨d, ds, hcs⟩ := List.exists_cons_of_ne_nil (isNumber_paddedDigits 4 year.toNat).ne_nil
    have hd : d.isDigit = true := (isNumber_paddedDigits 4 year.toNat).digits d (by simp [hcs])
    rw [hcs, List.cons_append] at hread ⊢
    rw [year?_digits hd, hread, Option.map_some, Int.toNat_of_nonneg hyear.1]
  · split
    · rename_i hneg
      have hsign : "-".toList = ['-'] := rfl
      have hvalue : -(year.natAbs : Int) = year := by omega
      rw [String.toList_append, toList_padded, hsign, List.append_assoc, List.cons_append,
        List.nil_append, year?_minus, signed?_append hdigits hrest, digitsValue_paddedDigits,
        hvalue]
    · rename_i hneg
      have hsign : "+".toList = ['+'] := rfl
      have hvalue : (year.natAbs : Int) = year := by omega
      rw [String.toList_append, toList_padded, hsign, List.append_assoc, List.cons_append,
        List.nil_append, year?_plus, signed?_append hdigits hrest, digitsValue_paddedDigits, hvalue]

/-- Up to nine digits behind a point are read as nanoseconds. -/
theorem fraction?_padded {width n : Nat} (hwidth : 0 < width) (hle : width ≤ 9)
    (hn : n < 10 ^ width) {rest : List Char} (hrest : StartsOutside Char.isDigit rest) :
    fraction? ('.' :: ((padded width n).toList ++ rest)) = some (n * 10 ^ (9 - width), rest) := by
  have hdigits := isNumber_paddedDigits width n
  have hlength : (paddedDigits width n).length = width := length_paddedDigits hwidth hn
  have hne : (paddedDigits width n).isEmpty = false := List.isEmpty_eq_false_iff.2 hdigits.ne_nil
  have hkept : (paddedDigits width n).take 9 = paddedDigits width n :=
    List.take_of_length_le (by rw [hlength]; exact hle)
  rw [toList_padded, fraction?.eq_1]
  dsimp only
  rw [takeWhile_of_startsOutside hdigits.digits hrest, hne, hkept, List.drop_left, hlength,
    digitsValue_paddedDigits]
  rfl

/-- The groups of three digits that are not written are zeros. -/
theorem fraction?_fractionText {nanos : Nat} (h : nanos < 1000000000) {rest : List Char}
    (hrest : StartsOutside Char.isDigit rest) (hpoint : StartsOutside (· == '.') rest) :
    fraction? ((fractionText nanos).toList ++ rest) = some (nanos, rest) := by
  have hdot (s : String) : ("." ++ s).toList ++ rest = '.' :: (s.toList ++ rest) := by
    rw [String.toList_append]
    rfl
  unfold fractionText
  split
  · rename_i hzero
    subst hzero
    cases rest with
    | nil => rfl
    | cons c rest =>
      have hc : c ≠ '.' := by simpa using hpoint c rfl
      show fraction? (c :: rest) = _
      unfold fraction?
      split
      · rename_i heq
        exact absurd (List.cons.inj heq).1 hc
      · rfl
  · split
    · rename_i hmilli
      rw [hdot, fraction?_padded (by decide) (by decide) (by omega) hrest]
      congr 2
      omega
    · split
      · rename_i hmicro
        rw [hdot, fraction?_padded (by decide) (by decide) (by omega) hrest]
        congr 2
        omega
      · rw [hdot, fraction?_padded (by decide) (by decide) h hrest]
        congr 2
        omega

/-! ## The whole text -/

/-- A date and a time of day in UTC as they are written. -/
def partsText (date : Date) (hour minute second nanos : Nat) : String :=
  yearText date.year ++ "-" ++ padded 2 date.month.toNat ++ "-" ++ padded 2 date.day.toNat ++ "T" ++
    padded 2 hour ++ ":" ++ padded 2 minute ++ ":" ++ padded 2 second ++ fractionText nanos ++ "Z"

theorem toList_partsText (date : Date) (hour minute second nanos : Nat) :
    (partsText date hour minute second nanos).toList =
      (yearText date.year).toList ++ '-' :: ((padded 2 date.month.toNat).toList ++
        '-' :: ((padded 2 date.day.toNat).toList ++ 'T' :: ((padded 2 hour).toList ++
          ':' :: ((padded 2 minute).toList ++ ':' :: ((padded 2 second).toList ++
            ((fractionText nanos).toList ++ ['Z'])))))) := by
  simp [partsText]

/-- Each part is read from what is written for it. -/
theorem parse?_partsText {date : Date} {hour minute second nanos : Nat}
    (hdate : date.isValid = true) (hhour : hour < 100) (hminute : minute < 100)
    (hsecond : second < 100) (hnanos : nanos < 1000000000) :
    parse? (partsText date hour minute second nanos) =
      ofLocal? date hour minute second nanos 0 := by
  obtain ⟨hmonth, hday⟩ := Date.isValid_iff.1 hdate
  have hlast := Date.daysIn_le date.year date.month
  have hyear (cs : List Char) : year? ((yearText date.year).toList ++ '-' :: cs) =
      some (date.year, '-' :: cs) :=
    year?_yearText date.year (startsOutside_cons (by decide))
  have hdash (cs : List Char) : mark? '-' ('-' :: cs) = some cs := mark?_cons (by decide) cs
  have hcolon (cs : List Char) : mark? ':' (':' :: cs) = some cs := mark?_cons (by decide) cs
  have hfraction : fraction? ((fractionText nanos).toList ++ ['Z']) = some (nanos, ['Z']) :=
    fraction?_fractionText hnanos (startsOutside_cons (by decide)) (startsOutside_cons (by decide))
  have hzone : offset? (trimLeft ['Z']) = some (0, []) := by decide
  have htwo {n : Nat} (hn : n < 100) (rest : List Char) :
      number? 2 ((padded 2 n).toList ++ rest) = some (n, rest) :=
    number?_padded (by decide) (by omega) rest
  rw [parse?, toList_partsText, hyear]
  dsimp only [Option.bind_eq_bind, Option.bind_some]
  rw [hdash, Option.bind_some, htwo (show date.month.toNat < 100 by omega), Option.bind_some]
  dsimp only
  rw [hdash, Option.bind_some, htwo (show date.day.toNat < 100 by omega), Option.bind_some]
  dsimp only
  rw [if_pos (.inl rfl), htwo hhour, Option.bind_some]
  dsimp only
  rw [hcolon, Option.bind_some, htwo hminute, Option.bind_some]
  dsimp only
  rw [hcolon, Option.bind_some, htwo hsecond, Option.bind_some]
  dsimp only
  rw [hfraction, Option.bind_some, hzone, Option.bind_some, Int.toNat_of_nonneg (by omega),
    Int.toNat_of_nonneg (by omega)]
  rfl

/-- A day and a time of day in UTC make an instant of that day. -/
theorem ofLocal?_utc {hour minute second : Nat} {seconds : Int} (hhour : hour < 24)
    (hminute : minute < 60) (hsecond : second < 60)
    (hseconds : seconds / 86400 * 86400 + (hour * 3600 + minute * 60 + second : Nat) = seconds)
    (hyear : yearInRange (Date.ofDays (seconds / 86400)).year = true) (nanos : Nat) :
    ofLocal? (Date.ofDays (seconds / 86400)) hour minute second nanos 0 =
      some ⟨seconds, nanos⟩ := by
  have hdate := Date.isValid_ofDays (seconds / 86400)
  unfold ofLocal?
  rw [if_neg (by omega), Date.toDays_ofDays]
  dsimp only
  rw [hseconds, Int.sub_zero, hdate, hyear, decide_eq_true hhour, decide_eq_true hminute,
    decide_eq_true hsecond]
  rfl

/-- The last second of a minute may be written as the leap second behind it. -/
theorem ofLocal?_leap (date : Date) (hour minute nanos : Nat) (offset : Int) :
    ofLocal? date hour minute 60 nanos offset =
      ofLocal? date hour minute 59 (nanos + 1000000000) offset := rfl

/-- **An instant is read back from its text.** -/
theorem parse?_text {t : Instant} (h : t.Fits) : parse? t.text = some t := by
  obtain ⟨seconds, nanos⟩ := t
  obtain ⟨hyear, hnanos, hleap⟩ := h
  dsimp only at hyear hnanos hleap
  obtain ⟨time, htime, hbound⟩ : ∃ time : Nat, (seconds % 86400).toNat = time ∧ time < 86400 :=
    ⟨_, rfl, by omega⟩
  have hread (second : Nat) (hsecond : second < 100) (n : Nat) (hn : n < 1000000000) :
      parse? (partsText (Date.ofDays (seconds / 86400)) (time / 3600) (time / 60 % 60) second n) =
        ofLocal? (Date.ofDays (seconds / 86400)) (time / 3600) (time / 60 % 60) second n 0 :=
    parse?_partsText (Date.isValid_ofDays _) (by omega) (by omega) hsecond hn
  have hlocal (n : Nat) :
      ofLocal? (Date.ofDays (seconds / 86400)) (time / 3600) (time / 60 % 60) (time % 60) n 0 =
        some ⟨seconds, n⟩ :=
    ofLocal?_utc (by omega) (by omega) (by omega) (by omega) hyear n
  have htext : text ⟨seconds, nanos⟩ = partsText (Date.ofDays (seconds / 86400)) (time / 3600)
      (time / 60 % 60) (time % 60 + if 1000000000 ≤ nanos then 1 else 0)
      (if 1000000000 ≤ nanos then nanos - 1000000000 else nanos) := by
    rw [← htime]
    simp only [text, partsText]
  rw [htext]
  by_cases hlong : 1000000000 ≤ nanos
  · have hlast : time % 60 = 59 := by
      have := hleap hlong
      omega
    have hrestore : nanos - 1000000000 + 1000000000 = nanos := by omega
    rw [if_pos hlong, if_pos hlong, hlast, hread 60 (by decide) _ (by omega), ofLocal?_leap,
      ← hlast, hlocal, hrestore]
  · rw [if_neg hlong, if_neg hlong, Nat.add_zero, hread _ (by omega) _ (by omega), hlocal]

end Instant

end EffortRank
