import EffortRank.Json.Printer
import EffortRank.Json.Token
import EffortRank.Proofs.Text.Digits
import Mathlib.Data.List.TakeWhile

/-!
# Scalars as they are written

`Reads cs ts rest` says that a text is walked over as some tokens if `rest` comes behind it. A
number or a word ends with the first character that it cannot hold, so that what comes behind it has
to start with another one (`Apart`); a text ends with its quote.
-/

namespace EffortRank

open Text

namespace Json

/-! ## Numbers -/

theorem isWhole_cons {d : Char} (h : d ≠ '0') (ds : List Char) :
    Numeral.isWhole (d :: ds) = true := by
  unfold Numeral.isWhole
  split
  · rename_i heq
    cases heq
  · rfl
  · rename_i heq
    cases heq
    simpa using h

/-- No number but zero starts with a zero. -/
theorem isWhole_toDigits (n : Nat) : Numeral.isWhole (Nat.toDigits 10 n) = true := by
  by_cases hzero : n = 0
  · subst hzero
    decide
  · obtain ⟨d, ds, hds, hd⟩ : ∃ d ds, Nat.toDigits 10 n = d :: ds ∧ d ≠ '0' := by
      induction n using Nat.strongRecOn with
      | ind n ih =>
        rw [Nat.toDigits_eq_if (by decide)]
        split
        · rename_i hsmall
          have hdigit : ∀ m : Fin 10, m.val ≠ 0 → m.val.digitChar ≠ '0' := by decide
          exact ⟨n.digitChar, [], rfl, hdigit ⟨n, hsmall⟩ hzero⟩
        · rename_i hlarge
          obtain ⟨d, ds, hds, hd⟩ := ih (n / 10) (by omega) (by omega)
          exact ⟨d, ds ++ [(n % 10).digitChar], by rw [hds, List.cons_append], hd⟩
    rw [hds]
    exact isWhole_cons hd ds

/-- Digits with a sign or without are a number without a fraction. -/
theorem read?_whole {ds : List Char} (hds : IsNumber ds) (hwhole : Numeral.isWhole ds = true) :
    Numeral.read? ds = some ⟨false, ds, [], none⟩ ∧
      Numeral.read? ('-' :: ds) = some ⟨true, ds, [], none⟩ := by
  have hall : ds.takeWhile Char.isDigit = ds := List.takeWhile_eq_self_iff.2 hds.digits
  have hnone : ds.dropWhile Char.isDigit = [] := List.dropWhile_eq_nil_iff.2 hds.digits
  constructor
  · obtain ⟨d, rest, hcons⟩ := List.exists_cons_of_ne_nil hds.ne_nil
    have hd : d ≠ '-' := (ne_sign_of_isDigit (hds.digits d (by simp [hcons]))).1
    unfold Numeral.read?
    split
    rename_i negative cs heq
    split at heq
    · exact absurd (List.cons.inj hcons).1.symm hd
    · cases heq
      simp [hall, hnone, hwhole]
  · simp [Numeral.read?, hall, hnone, hwhole]

theorem int?_whole {ds : List Char} {n : Nat} (hds : digitsValue ds = n) :
    Numeral.int? ⟨false, ds, [], none⟩ = some (n : Int) := by
  simp [Numeral.int?, hds]

theorem int?_negative {ds : List Char} {n : Nat} (hds : digitsValue ds = n) (hn : n ≠ 0) :
    Numeral.int? ⟨true, ds, [], none⟩ = some (-(n : Int)) := by
  simp [Numeral.int?, hds, hn]

/-- An integer that is written is the token of that integer. -/
theorem numberToken_toString (n : Int) :
    numberToken (toString n).toList.reverse = .ok (.scalar (.int n)) := by
  have hfound {cs : List Char} {x : Numeral} (hread : Numeral.read? cs = some x)
      (hint : x.int? = some n) : numberToken cs.reverse = .ok (.scalar (.int n)) := by
    rw [numberToken, List.reverse_reverse, hread]
    dsimp only
    rw [hint]
  rw [Int.toString_eq_repr, Int.repr_eq_if]
  split
  · rename_i hn
    have hint := int?_whole (digitsValue_toDigits n.toNat)
    rw [Int.toNat_of_nonneg hn] at hint
    rw [Nat.toList_repr]
    exact hfound (read?_whole (isNumber_toDigits _) (isWhole_toDigits _)).1 hint
  · rename_i hn
    have htext : ("-" ++ (-n).toNat.repr).toList = '-' :: Nat.toDigits 10 (-n).toNat := by
      rw [String.toList_append, Nat.toList_repr]
      rfl
    have hint := int?_negative (digitsValue_toDigits (-n).toNat) (by omega)
    rw [Int.toNat_of_nonneg (by omega), Int.neg_neg] at hint
    rw [htext]
    exact hfound (read?_whole (isNumber_toDigits _) (isWhole_toDigits _)).2 hint

/-! ## Walking over a text -/

/-- The text starts with a character that may stand behind a value, if with any. -/
def Apart (rest : List Char) : Prop := ∀ c ∈ rest.head?, c ∈ ['\n', ',', ']', '\x7d']

/-- Walking over a text that stands between tokens gives some tokens, if `rest` comes behind it. -/
def Reads (cs : List Char) (ts : List Token) (rest : List Char) : Prop :=
  ∀ w : Walk, w.mode = .between → ∃ w' : Walk, w'.mode = .between ∧
    w'.done.map PlacedToken.token = ts.reverse ++ w.done.map PlacedToken.token ∧
      w.run (cs ++ rest) = w'.run rest

theorem apart_nil : Apart [] := by
  intro c hc
  cases hc

theorem apart_cons {c : Char} (h : c ∈ ['\n', ',', ']', '\x7d']) (rest : List Char) :
    Apart (c :: rest) := by
  intro d hd
  rw [List.head?_cons, Option.mem_some_iff] at hd
  rw [← hd]
  exact h

theorem Apart.append {cs rest : List Char} (hcs : Apart cs) (hrest : Apart rest) :
    Apart (cs ++ rest) := by
  cases cs with
  | nil => exact hrest
  | cons c cs => exact apart_cons (hcs c rfl) (cs ++ rest)

theorem reads_nil (rest : List Char) : Reads [] [] rest :=
  fun w hw => ⟨w, hw, rfl, rfl⟩

theorem Reads.append {cs cs' rest : List Char} {ts ts' : List Token} (h : Reads cs ts (cs' ++ rest))
    (h' : Reads cs' ts' rest) : Reads (cs ++ cs') (ts ++ ts') rest := by
  intro w hw
  obtain ⟨w₁, hw₁, hdone₁, hrun₁⟩ := h w hw
  obtain ⟨w₂, hw₂, hdone₂, hrun₂⟩ := h' w₁ hw₁
  refine ⟨w₂, hw₂, ?_, ?_⟩
  · rw [hdone₂, hdone₁, List.reverse_append, List.append_assoc]
  · rw [List.append_assoc, hrun₁, hrun₂]

theorem Walk.run_of_step {w w' : Walk} {c : Char} (h : w.step c = .ok w') (rest : List Char) :
    w.run (c :: rest) = w'.run rest := by
  rw [Walk.run, h]

theorem Walk.step_between {w : Walk} (hw : w.mode = .between) (c : Char) :
    w.step c = w.start c := by
  rw [Walk.step, hw]

/-- A character that is a token for itself. -/
theorem reads_mark {c : Char} {t : Token} (h : ∀ w : Walk, w.start c = .ok (w.close t))
    (rest : List Char) : Reads [c] [t] rest := by
  intro w hw
  have hstep : w.step c = .ok (w.close t) := (Walk.step_between hw c).trans (h w)
  exact ⟨w.close t, rfl, rfl, Walk.run_of_step hstep rest⟩

theorem reads_blanks {cs : List Char} (h : ∀ c ∈ cs, c = ' ' ∨ c = '\n') (rest : List Char) :
    Reads cs [] rest := by
  induction cs with
  | nil => exact reads_nil rest
  | cons c cs ih =>
    rw [List.forall_mem_cons] at h
    have hblank : Reads [c] [] (cs ++ rest) := by
      intro w hw
      have hstep : w.step c = .ok (w.into .between) := by
        rw [Walk.step_between hw, Walk.start, if_pos]
        rcases h.1 with rfl | rfl
        · exact .inl rfl
        · exact .inr (.inl rfl)
      exact ⟨w.into .between, rfl, rfl, Walk.run_of_step hstep _⟩
    exact hblank.append (ih h.2)

/-! ## Numbers and words in a text -/

/-- The walk goes through characters that may all stand in what is being read. -/
theorem run_through {mode : List Char → Mode} {p : Char → Bool}
    (hstep : ∀ c acc place done, p c = true →
      Walk.step ⟨mode acc, place, done⟩ c = .ok ⟨mode (c :: acc), place + 1, done⟩)
    {cs : List Char} (hcs : ∀ c ∈ cs, p c = true) (acc : List Char) (place : Nat)
    (done : List PlacedToken) (rest : List Char) :
    Walk.run ⟨mode acc, place, done⟩ (cs ++ rest) =
      Walk.run ⟨mode (cs.reverse ++ acc), place + cs.length, done⟩ rest := by
  induction cs generalizing acc place with
  | nil => rfl
  | cons c cs ih =>
    rw [List.forall_mem_cons] at hcs
    rw [List.cons_append, Walk.run_of_step (hstep c acc place done hcs.1), ih hcs.2,
      List.reverse_cons, List.append_assoc, List.length_cons, Nat.add_assoc, Nat.add_comm 1]
    rfl

/-- What may stand behind a value ends a number or a word, and is taken for itself. -/
theorem Apart.ends {c : Char} {rest : List Char} (h : Apart (c :: rest)) :
    isNumberChar c = false ∧ isWordLetter c = false ∧ ∀ w : Walk, ∃ w', w.start c = .ok w' := by
  have hc := h c rfl
  rw [List.mem_cons, List.mem_cons, List.mem_cons, List.mem_singleton] at hc
  rcases hc with rfl | rfl | rfl | rfl <;> exact ⟨by decide, by decide, fun w => ⟨_, rfl⟩⟩

/-- A number or a word is a token as soon as it cannot go on. -/
theorem run_settle {w : Walk} {t : Token} (hfinish : w.finish = .ok (w.settle t))
    (hstep : ∀ c, isNumberChar c = false → isWordLetter c = false →
      w.step c = (w.settle t).start c)
    {rest : List Char} (hrest : Apart rest) : w.run rest = (w.settle t).run rest := by
  cases rest with
  | nil =>
    rw [Walk.run, hfinish]
    rfl
  | cons c rest =>
    obtain ⟨hnumber, hword, hstart⟩ := hrest.ends
    obtain ⟨w', hw'⟩ := hstart (w.settle t)
    rw [Walk.run_of_step ((hstep c hnumber hword).trans hw'),
      Walk.run_of_step ((Walk.step_between rfl c).trans hw')]

/-- A number or a word is read character by character, and settled behind the last of them. -/
theorem reads_pending {mode : List Char → Mode} {p : Char → Bool} {c : Char} {cs rest : List Char}
    {t : Token} (hstart : ∀ w : Walk, w.start c = .ok (w.into (mode [c])))
    (hstep : ∀ c acc place done, p c = true →
      Walk.step ⟨mode acc, place, done⟩ c = .ok ⟨mode (c :: acc), place + 1, done⟩)
    (hcs : ∀ c ∈ cs, p c = true)
    (hsettle : ∀ place done, Walk.run ⟨mode (c :: cs).reverse, place, done⟩ rest =
      Walk.run ⟨.between, place, ⟨t, place⟩ :: done⟩ rest) : Reads (c :: cs) [t] rest := by
  rintro ⟨first, place, done⟩ hfirst
  refine ⟨⟨.between, place + 1 + cs.length, ⟨t, place + 1 + cs.length⟩ :: done⟩, rfl, rfl, ?_⟩
  rw [List.cons_append, Walk.run_of_step ((Walk.step_between hfirst c).trans (hstart _)), Walk.into]
  dsimp only
  rw [run_through hstep hcs, ← List.reverse_cons, hsettle]

theorem start_number {c : Char} (h : c.isDigit = true ∨ c = '-') (w : Walk) :
    w.start c = .ok (w.into (.number [c])) := by
  have hne {d : Char} (hd : d.isDigit = false) (hminus : d ≠ '-') : c ≠ d := by
    rintro rfl
    rcases h with h | h
    · rw [hd] at h
      cases h
    · exact hminus h
  have hblank : ¬ (c = ' ' ∨ c = '\n' ∨ c = '\t' ∨ c = '\r') := by
    simp only [not_or]
    exact ⟨hne (by decide) (by decide), hne (by decide) (by decide), hne (by decide) (by decide),
      hne (by decide) (by decide)⟩
  unfold Walk.start
  rw [if_neg hblank, if_neg (hne (by decide) (by decide)), if_neg (hne (by decide) (by decide)),
    if_neg (hne (by decide) (by decide)), if_neg (hne (by decide) (by decide)),
    if_neg (hne (by decide) (by decide)), if_neg (hne (by decide) (by decide)),
    if_neg (hne (by decide) (by decide)), if_pos h]

theorem numberChars_toString (n : Int) : ∃ c cs, (toString n).toList = c :: cs ∧
    (c.isDigit = true ∨ c = '-') ∧ ∀ c ∈ cs, isNumberChar c = true := by
  have hchar {c : Char} (hc : c.isDigit = true) : isNumberChar c = true := by
    simp [isNumberChar, hc]
  rw [Int.toString_eq_repr, Int.repr_eq_if]
  split
  · have hds := isNumber_toDigits n.toNat
    obtain ⟨d, ds, hcons⟩ := List.exists_cons_of_ne_nil hds.ne_nil
    have hall := hds.digits
    rw [hcons, List.forall_mem_cons] at hall
    exact ⟨d, ds, by rw [Nat.toList_repr, hcons], .inl hall.1, fun c hc => hchar (hall.2 c hc)⟩
  · refine ⟨'-', Nat.toDigits 10 (-n).toNat, ?_, .inr rfl,
      fun c hc => hchar ((isNumber_toDigits _).digits c hc)⟩
    rw [String.toList_append, Nat.toList_repr]
    rfl

theorem reads_int (n : Int) {rest : List Char} (hrest : Apart rest) :
    Reads (toString n).toList [.scalar (.int n)] rest := by
  obtain ⟨c, cs, htext, hc, hcs⟩ := numberChars_toString n
  have htoken := numberToken_toString n
  rw [htext] at htoken ⊢
  refine reads_pending (start_number hc) (fun c acc place done h => ?_) hcs
    (fun place done => run_settle ?_ (fun c hnumber _ => ?_) hrest)
  · rw [Walk.step]
    exact if_pos h
  · rw [Walk.finish]
    dsimp only
    rw [htoken]
    rfl
  · rw [Walk.step]
    dsimp only
    rw [hnumber, htoken]
    rfl

theorem reads_word {c : Char} {cs : List Char} {t : Token}
    (hstart : ∀ w : Walk, w.start c = .ok (w.into (.word [c])))
    (hcs : ∀ c ∈ cs, isWordLetter c = true) (htoken : wordToken (c :: cs).reverse = .ok t)
    {rest : List Char} (hrest : Apart rest) : Reads (c :: cs) [t] rest := by
  refine reads_pending hstart (fun c acc place done h => ?_) hcs
    (fun place done => run_settle ?_ (fun c _ hword => ?_) hrest)
  · rw [Walk.step]
    exact if_pos h
  · rw [Walk.finish]
    dsimp only
    rw [htoken]
    rfl
  · rw [Walk.step]
    dsimp only
    rw [hword, htoken]
    rfl

theorem reads_null {rest : List Char} (hrest : Apart rest) :
    Reads "null".toList [.scalar .null] rest :=
  reads_word (c := 'n') (fun _ => rfl) (List.all_eq_true.1 rfl) rfl hrest

theorem reads_bool (b : Bool) {rest : List Char} (hrest : Apart rest) :
    Reads (if b then "true" else "false").toList [.scalar (.bool b)] rest := by
  cases b with
  | true =>
    exact reads_word (c := 't') (fun _ => rfl) (List.all_eq_true.1 rfl) rfl hrest
  | false =>
    exact reads_word (c := 'f') (fun _ => rfl) (List.all_eq_true.1 rfl) rfl hrest

/-! ## Texts in a text -/

/-- A text of which some characters were read, in reverse. -/
def OpenText.sound (chars : List Char) : OpenText := ⟨chars, none, true⟩

theorem push_sound (chars : List Char) (c : Char) :
    (OpenText.sound chars).push c = .sound (c :: chars) := rfl

/-- A control character is read back from its code. -/
theorem fourHexDigits_eq {n : Nat} (hn : n < 32) : fourHexDigits n =
    ['0', '0', (n / 16).digitChar, (n % 16).digitChar] := by
  have h : ∀ m : Fin 32, fourHexDigits m.val =
      ['0', '0', (m.val / 16).digitChar, (m.val % 16).digitChar] := by decide
  exact h ⟨n, hn⟩

theorem hexValue?_digitChar {d : Nat} (hd : d < 16) : hexValue? d.digitChar = some d := by
  have h : ∀ m : Fin 16, hexValue? m.val.digitChar = some m.val := by decide
  exact h ⟨d, hd⟩

theorem step_unit {c : Char} {d : Nat} (h : hexValue? c = some d) (t : OpenText)
    (value left place : Nat) (done : List PlacedToken) :
    Walk.step ⟨.unit t value (left + 2), place, done⟩ c =
        .ok ⟨.unit t (16 * value + d) (left + 1), place + 1, done⟩ ∧
      Walk.step ⟨.unit t value 1, place, done⟩ c =
        .ok ⟨.text (t.pushUnit (16 * value + d)), place + 1, done⟩ := by
  rw [Walk.step, Walk.step]
  dsimp only
  rw [h]
  exact ⟨if_neg (by omega), rfl⟩

/-- The code of a control character is read as that character. -/
theorem run_control {n : Nat} (hn : n < 32) (chars : List Char) (place : Nat)
    (done : List PlacedToken) (rest : List Char) :
    Walk.run ⟨.text (.sound chars), place, done⟩
        ('\\' :: 'u' :: '0' :: '0' :: (n / 16).digitChar :: (n % 16).digitChar :: rest) =
      Walk.run ⟨.text (.sound (Char.ofNat n :: chars)), place + 6, done⟩ rest := by
  have hzero : hexValue? '0' = some 0 := rfl
  have hhigh : hexValue? (n / 16).digitChar = some (n / 16) := hexValue?_digitChar (by omega)
  have hlow : hexValue? (n % 16).digitChar = some (n % 16) := hexValue?_digitChar (by omega)
  have hvalue : 16 * (16 * (16 * (16 * 0 + 0) + 0) + n / 16) + n % 16 = n := by omega
  have hpush : (OpenText.sound chars).pushUnit n = .sound (Char.ofNat n :: chars) := by
    rw [OpenText.pushUnit, if_neg (by omega), if_neg (by omega), push_sound]
  have hslash : Walk.step ⟨.text (.sound chars), place, done⟩ '\\' =
      .ok ⟨.escape (.sound chars), place + 1, done⟩ := rfl
  have hunit : Walk.step ⟨.escape (.sound chars), place + 1, done⟩ 'u' =
      .ok ⟨.unit (.sound chars) 0 4, place + 2, done⟩ := rfl
  rw [Walk.run_of_step hslash, Walk.run_of_step hunit,
    Walk.run_of_step (step_unit hzero (.sound chars) 0 2 _ done).1,
    Walk.run_of_step (step_unit hzero (.sound chars) _ 1 _ done).1,
    Walk.run_of_step (step_unit hhigh (.sound chars) _ 0 _ done).1,
    Walk.run_of_step (step_unit hlow (.sound chars) _ 0 _ done).2, hvalue, hpush]

/-- A character of a text is read back, whether it was escaped or not. -/
theorem run_escaped (c : Char) (chars : List Char) (place : Nat) (done : List PlacedToken)
    (rest : List Char) : ∃ place',
      Walk.run ⟨.text (.sound chars), place, done⟩ (escaped c ++ rest) =
        Walk.run ⟨.text (.sound (c :: chars)), place', done⟩ rest := by
  have hcode {n : Nat} (h : c.toNat = n) : c = Char.ofNat n := by rw [← h, Char.ofNat_toNat]
  unfold escaped
  split
  · rename_i h
    subst h
    exact ⟨_, rfl⟩
  split
  · rename_i h
    subst h
    exact ⟨_, rfl⟩
  split
  · rename_i h
    subst h
    exact ⟨_, rfl⟩
  split
  · rename_i h
    subst h
    exact ⟨_, rfl⟩
  split
  · rename_i h
    subst h
    exact ⟨_, rfl⟩
  split
  · rename_i h
    rw [hcode h]
    exact ⟨_, rfl⟩
  split
  · rename_i h
    rw [hcode h]
    exact ⟨_, rfl⟩
  split
  · rename_i h
    refine ⟨place + 6, ?_⟩
    rw [fourHexDigits_eq h]
    exact (run_control h chars place done rest).trans (by rw [Char.ofNat_toNat])
  · rename_i hquote hslash _ _ _ _ _ hcontrol
    refine ⟨place + 1, Walk.run_of_step ?_ rest⟩
    rw [Walk.step]
    dsimp only
    rw [if_neg hquote, if_neg hslash, if_neg hcontrol, push_sound]
    rfl

theorem run_quoted (cs chars : List Char) (place : Nat) (done : List PlacedToken)
    (rest : List Char) : ∃ place',
      Walk.run ⟨.text (.sound chars), place, done⟩ (cs.flatMap escaped ++ '"' :: rest) =
        Walk.run ⟨.between, place',
          ⟨.scalar (.str (String.ofList (chars.reverse ++ cs))), place'⟩ :: done⟩ rest := by
  induction cs generalizing chars place with
  | nil =>
    refine ⟨place + 1, ?_⟩
    rw [List.append_nil]
    exact Walk.run_of_step rfl rest
  | cons c cs ih =>
    obtain ⟨place₁, hfirst⟩ := run_escaped c chars place done (cs.flatMap escaped ++ '"' :: rest)
    obtain ⟨place₂, hrest⟩ := ih (c :: chars) place₁
    refine ⟨place₂, ?_⟩
    rw [List.flatMap_cons, List.append_assoc, hfirst, hrest, List.reverse_cons, List.append_assoc]
    rfl

/-- A text that is quoted is the token of that text. -/
theorem reads_quoteText (s : String) (rest : List Char) :
    Reads (quoteText s).toList [.scalar (.str s)] rest := by
  rintro ⟨mode, place, done⟩ hmode
  obtain ⟨place', hrun⟩ := run_quoted s.toList [] (place + 1) done rest
  refine ⟨⟨.between, place', ⟨.scalar (.str s), place'⟩ :: done⟩, rfl, rfl, ?_⟩
  have htext : (quoteText s).toList ++ rest = '"' :: (s.toList.flatMap escaped ++ '"' :: rest) := by
    simp [quoteText]
  have hstart : Walk.step ⟨mode, place, done⟩ '"' = .ok ⟨.text (.sound []), place + 1, done⟩ :=
    Walk.step_between hmode '"'
  rw [htext, Walk.run_of_step hstart, hrun, List.reverse_nil, List.nil_append, String.ofList_toList]

end Json

end EffortRank
