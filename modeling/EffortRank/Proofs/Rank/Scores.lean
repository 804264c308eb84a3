import EffortRank.Proofs.Rank.Product
import EffortRank.Score

/-!
# Scores of commits

Commits are scored if each has as many labels as there are weights (`overallScores_eq_ok_iff`),
which does not depend on labels of other commits. The search for the greatest probability finds the
first place of the maximum (`firstMaximum_of_argmax?`), so that the likeliest label counts as if it
were certain: the scores by the likeliest labels are the plain scores of labels that are certain
(`overallScores_topOne`). Scores are shares of the whole, unless there is none.
-/

namespace EffortRank

/-! ## Who is scored -/

section Scored

variable {α : Type} [Scalar α] {ranks : NameMap α} {labels : NameMap (List α)} {weights : List α}
  {topOne : Bool}

theorem map_eq_ok_iff {ε φ β : Type} {x : Except φ ε} {f : ε → β} {b : β} :
    x.map f = .ok b ↔ ∃ a, x = .ok a ∧ f a = b := by
  cases x <;> simp [Except.map]

/-- Steps that succeed on some elements, each in its own way, succeed on lists of them. -/
theorem mapM_eq_ok_iff {ε φ β : Type} {f : ε → Except φ β} {p : ε → Prop} {g : ε → β}
    (h : ∀ a b, f a = .ok b ↔ p a ∧ g a = b) {l : List ε} {bs : List β} :
    l.mapM f = .ok bs ↔ (∀ a ∈ l, p a) ∧ l.map g = bs := by
  induction l generalizing bs with
  | nil =>
    rw [List.mapM_nil, List.map_nil]
    exact ⟨fun hbs => ⟨by simp, Except.ok.inj hbs⟩, fun hbs => congrArg Except.ok hbs.2⟩
  | cons a l ih =>
    rw [List.mapM_cons, bind_eq_ok_iff, List.map_cons, List.forall_mem_cons]
    constructor
    · rintro ⟨b, hb, hrest⟩
      obtain ⟨bs', hbs', hcons⟩ := bind_eq_ok_iff.1 hrest
      obtain ⟨ha, rfl⟩ := (h a b).1 hb
      obtain ⟨hl, rfl⟩ := ih.1 hbs'
      exact ⟨⟨ha, hl⟩, Except.ok.inj hcons⟩
    · rintro ⟨⟨ha, hl⟩, rfl⟩
      exact ⟨g a, (h a _).2 ⟨ha, rfl⟩, bind_eq_ok_iff.2 ⟨_, ih.2 ⟨hl, rfl⟩, rfl⟩⟩

theorem mapM_congr {ε β : Type} {m : Type → Type} [Monad m] [LawfulMonad m] {f g : ε → m β}
    {l : List ε} (h : ∀ a ∈ l, f a = g a) : l.mapM f = l.mapM g := by
  induction l with
  | nil => rfl
  | cons a l ih =>
    rw [List.forall_mem_cons] at h
    rw [List.mapM_cons, List.mapM_cons, h.1, ih h.2]

/-- The commit has as many labels as there are weights. -/
def Labelled (labels : NameMap (List α)) (weights : List α) (hash : String) : Prop :=
  ∃ probabilities, labels.get? hash = some probabilities ∧ probabilities.length = weights.length

/-- The weight of the labels of a commit. -/
def weightOf (labels : NameMap (List α)) (weights : List α) (topOne : Bool) (hash : String) : α :=
  labelValue ((labels.get? hash).getD []) weights topOne

/-- The scores before they are scaled. -/
def rawScores (ranks : NameMap α) (labels : NameMap (List α)) (weights : List α) (topOne : Bool) :
    NameMap α :=
  ⟨ranks.entries.map fun e => (e.1, weightOf labels weights topOne e.1 * e.2),
    List.pairwise_map.2 ranks.ascending⟩

theorem rawScore_eq_ok_iff {hash : String} {rank score : α} :
    rawScore labels weights topOne hash rank = .ok score ↔
      Labelled labels weights hash ∧ weightOf labels weights topOne hash * rank = score := by
  unfold rawScore Labelled weightOf
  cases labels.get? hash with
  | none => simp
  | some probabilities =>
    dsimp only
    split
    · rename_i hlength
      simp [hlength]
    · rename_i hlength
      simp [hlength]

/-- **Commits are scored if all of them are labelled**, whatever else is. -/
theorem overallScores_eq_ok_iff {scores : NameMap α} :
    overallScores ranks labels weights topOne = .ok scores ↔
      (∀ hash ∈ ranks.keys, Labelled labels weights hash) ∧
        normalize (rawScores ranks labels weights topOne) = scores := by
  have hentry : ∀ (e : String × α) (b : String × α),
      (rawScore labels weights topOne e.1 e.2).map (fun score => (e.1, score)) = .ok b ↔
        Labelled labels weights e.1 ∧ (e.1, weightOf labels weights topOne e.1 * e.2) = b := by
    intro e b
    rw [map_eq_ok_iff]
    simp only [rawScore_eq_ok_iff, and_assoc, exists_and_left, exists_eq_left']
  have hentries : NameMap.ofList (ranks.entries.map fun e =>
      (e.1, weightOf labels weights topOne e.1 * e.2)) = rawScores ranks labels weights topOne :=
    NameMap.ofList_entries (rawScores ranks labels weights topOne)
  rw [overallScores, bind_eq_ok_iff, NameMap.keys, List.forall_mem_map]
  simp only [mapM_eq_ok_iff hentry]
  constructor
  · rintro ⟨_, ⟨hlabelled, rfl⟩, hscores⟩
    rw [hentries] at hscores
    exact ⟨hlabelled, Except.ok.inj hscores⟩
  · rintro ⟨hlabelled, rfl⟩
    refine ⟨_, ⟨hlabelled, rfl⟩, ?_⟩
    rw [hentries]
    rfl

/-- Only the labels of the ranked commits are looked at. -/
theorem overallScores_congr {labels' : NameMap (List α)}
    (h : ∀ hash ∈ ranks.keys, labels'.get? hash = labels.get? hash) :
    overallScores ranks labels' weights topOne = overallScores ranks labels weights topOne := by
  have hraw : ∀ e ∈ ranks.entries,
      (rawScore labels' weights topOne e.1 e.2).map (fun score => (e.1, score)) =
        (rawScore labels weights topOne e.1 e.2).map fun score => (e.1, score) := by
    intro e he
    rw [rawScore, rawScore, h e.1 (List.mem_map_of_mem he)]
  rw [overallScores, overallScores, mapM_congr hraw]

end Scored

/-! ## The likeliest label -/

/-- The number stands in the place `i`, none is greater, and all before it are less. -/
structure FirstMaximum (xs : List ℚ) (i : Nat) (x : ℚ) : Prop where
  found : xs[i]? = some x
  le : ∀ y ∈ xs, y ≤ x
  lt : ∀ y ∈ xs.take i, y < x

instance (xs : List ℚ) (i : Nat) (x : ℚ) : Decidable (FirstMaximum xs i x) :=
  decidable_of_iff (xs[i]? = some x ∧ (∀ y ∈ xs, y ≤ x) ∧ ∀ y ∈ xs.take i, y < x)
    ⟨fun ⟨hfound, hle, hlt⟩ => ⟨hfound, hle, hlt⟩, fun h => ⟨h.1, h.2, h.3⟩⟩

/-- The certain labels: one in the first place of the maximum, zero elsewhere. -/
def oneHot (probabilities : List ℚ) : List ℚ :=
  probabilities.mapIdx fun i p => if FirstMaximum probabilities i p then 1 else 0

namespace FirstMaximum

variable {xs : List ℚ} {i j : Nat} {x y : ℚ}

theorem lt_length (h : FirstMaximum xs i x) : i < xs.length :=
  (List.getElem?_eq_some_iff.1 h.found).1

theorem unique (hi : FirstMaximum xs i x) (hj : FirstMaximum xs j y) : i = j := by
  have hxy : x = y :=
    le_antisymm (hj.le x (List.mem_of_getElem? hi.found)) (hi.le y (List.mem_of_getElem? hj.found))
  subst hxy
  have hnot : ∀ {i j : Nat}, FirstMaximum xs i x → FirstMaximum xs j x → ¬ i < j := by
    intro i j hi hj hlt
    have hmem : x ∈ xs.take j := by
      apply List.mem_of_getElem? (i := i)
      rw [List.getElem?_take, if_pos hlt, hi.found]
    exact lt_irrefl x (hj.lt x hmem)
  exact le_antisymm (not_lt.1 (hnot hj hi)) (not_lt.1 (hnot hi hj))

/-- One more number is the first maximum, or the old one stays. -/
theorem append_singleton (h : FirstMaximum xs i x) (y : ℚ) :
    if y ≤ x then FirstMaximum (xs ++ [y]) i x else FirstMaximum (xs ++ [y]) xs.length y := by
  have hi := h.lt_length
  split
  · rename_i hyx
    refine ⟨?_, ?_, ?_⟩
    · rw [List.getElem?_append_left hi, h.found]
    · simpa [or_imp, forall_and] using ⟨h.le, hyx⟩
    · rw [List.take_append_of_le_length hi.le]
      exact h.lt
  · rename_i hyx
    have hall : ∀ z ∈ xs, z < y := fun z hz => (h.le z hz).trans_lt (not_le.1 hyx)
    refine ⟨by simp, ?_, ?_⟩
    · simpa [or_imp, forall_and] using fun z hz => (hall z hz).le
    · simpa using hall

/-- The search keeps the first maximum of what it has gone through. -/
theorem argmaxFrom (h : FirstMaximum xs i x) (ys : List ℚ) :
    ∃ z, FirstMaximum (xs ++ ys) (EffortRank.argmaxFrom (i, x) xs.length ys) z := by
  induction ys generalizing xs i x with
  | nil =>
    rw [List.append_nil]
    exact ⟨x, h⟩
  | cons y ys ih =>
    have hnext := h.append_singleton y
    rw [EffortRank.argmaxFrom]
    dsimp only
    simp only [Scalar.le_iff]
    split at hnext
    · rename_i hyx
      rw [if_pos hyx]
      simpa using ih hnext
    · rename_i hyx
      rw [if_neg hyx]
      simpa using ih hnext

end FirstMaximum

/-- **The search finds the first maximum**, if there are any numbers. -/
theorem firstMaximum_of_argmax? {xs : List ℚ} {i : Nat} (h : argmax? xs = some i) :
    ∃ x, FirstMaximum xs i x := by
  cases xs with
  | nil => cases h
  | cons x xs =>
    have hfirst : FirstMaximum [x] 0 x := ⟨rfl, by simp, by simp⟩
    cases h
    exact hfirst.argmaxFrom xs

/-! ## Certain labels -/

theorem length_oneHot (probabilities : List ℚ) :
    (oneHot probabilities).length = probabilities.length := List.length_mapIdx

theorem FirstMaximum.oneHot_eq {probabilities : List ℚ} {i : Nat} {p : ℚ}
    (h : FirstMaximum probabilities i p) :
    oneHot probabilities = probabilities.mapIdx fun j _ => if j = i then 1 else 0 := by
  unfold oneHot
  apply List.ext_getElem?
  intro j
  rw [List.getElem?_mapIdx, List.getElem?_mapIdx]
  cases hj : probabilities[j]? with
  | none => rfl
  | some q =>
    refine congrArg some (if_congr ⟨fun hq => hq.unique h, ?_⟩ rfl rfl)
    rintro rfl
    rw [h.found] at hj
    cases hj
    exact h

theorem sum_zipWith_zero {β : Type} (xs : List β) (weights : List ℚ) :
    (List.zipWith (fun p w => p * w) (xs.mapIdx fun _ _ => (0 : ℚ)) weights).sum = 0 := by
  induction xs generalizing weights with
  | nil => simp
  | cons x xs ih => cases weights <;> simp [ih]

/-- The mean weight of certain labels is the weight of the one that is there. -/
theorem sum_zipWith_mapIdx {β : Type} (xs : List β) {i : Nat} (hi : i < xs.length)
    (weights : List ℚ) :
    (List.zipWith (fun p w => p * w) (xs.mapIdx fun j _ => if j = i then (1 : ℚ) else 0)
      weights).sum = weights[i]?.getD 0 := by
  induction xs generalizing i weights with
  | nil => cases hi
  | cons x xs ih =>
    cases weights with
    | nil => simp
    | cons w weights =>
      rw [List.mapIdx_cons, List.zipWith_cons_cons, List.sum_cons]
      cases i with
      | zero =>
        simpa using sum_zipWith_zero xs weights
      | succ i =>
        have hrest := ih (Nat.lt_of_succ_lt_succ hi) weights
        simpa using hrest

/-- **The likeliest label counts as if it were certain.** -/
theorem labelValue_topOne (probabilities weights : List ℚ) :
    labelValue probabilities weights true = labelValue (oneHot probabilities) weights false := by
  unfold labelValue
  rw [if_pos rfl, if_neg Bool.false_ne_true, Scalar.sum_eq]
  cases hmax : argmax? probabilities with
  | none =>
    cases probabilities with
    | nil => rfl
    | cons p ps => cases hmax
  | some i =>
    obtain ⟨p, hp⟩ := firstMaximum_of_argmax? hmax
    rw [hp.oneHot_eq, sum_zipWith_mapIdx _ hp.lt_length, Option.bind_some, Scalar.zero_eq]

theorem rawScore_topOne (labels : NameMap (List ℚ)) (weights : List ℚ) (hash : String) (rank : ℚ) :
    rawScore labels weights true hash rank =
      rawScore (labels.map oneHot) weights false hash rank := by
  unfold rawScore
  rw [NameMap.get?_map]
  cases labels.get? hash with
  | none => rfl
  | some probabilities =>
    rw [Option.map_some]
    dsimp only
    rw [length_oneHot, labelValue_topOne]

/-! ## Shares of the whole -/

theorem get?_rawScores (ranks : NameMap ℚ) (labels : NameMap (List ℚ)) (weights : List ℚ)
    (topOne : Bool) (hash : String) :
    (rawScores ranks labels weights topOne).get? hash =
      (ranks.get? hash).map fun rank => weightOf labels weights topOne hash * rank := by
  apply Option.ext
  intro v
  rw [← NameMap.mem_entries_iff, rawScores, List.mem_map, Option.map_eq_some_iff]
  constructor
  · rintro ⟨⟨_, rank⟩, he, heq⟩
    cases heq
    exact ⟨rank, NameMap.mem_entries_iff.1 he, rfl⟩
  · rintro ⟨rank, hrank, rfl⟩
    exact ⟨(hash, rank), NameMap.mem_entries_iff.2 hrank, rfl⟩

theorem Scalar.eq_iff {x y : ℚ} : Scalar.eq x y = true ↔ x = y := by
  rw [Scalar.eq, Bool.and_eq_true, Scalar.le_iff, Scalar.le_iff, ← le_antisymm_iff]

theorem get?_normalize (scores : NameMap ℚ) (hash : String) :
    (normalize scores).get? hash =
      (scores.get? hash).map fun v =>
        if scores.values.sum = 0 then 0 else v / scores.values.sum := by
  rw [normalize, NameMap.get?_map]
  simp only [Scalar.sum_eq, Scalar.eq_iff, Scalar.zero_eq]

/-- Scaled scores sum to one, unless the scores sum to zero. -/
theorem sum_values_normalize (scores : NameMap ℚ) :
    (normalize scores).values.sum = if scores.values.sum = 0 then 0 else 1 := by
  rw [normalize, NameMap.values_map, Scalar.sum_eq]
  simp only [Scalar.eq_iff, Scalar.zero_eq]
  split
  · simp
  · rename_i htotal
    simp only [div_eq_mul_inv]
    rw [List.sum_map_mul_right, List.map_id', mul_inv_cancel₀ htotal]

/-- **The scores by the likeliest labels are the plain scores of labels that are certain**, where
the first of the likeliest counts. Either way, commits are scored if each has as many labels as
there are weights, and the labels of other commits do not count. Each ranked commit is scored, with
its share in the whole; where the whole is zero, so is each score. -/
theorem overallScores_topOne (ranks : NameMap ℚ) (labels : NameMap (List ℚ)) (weights : List ℚ) :
    overallScores ranks labels weights true =
        overallScores ranks (labels.map oneHot) weights false ∧
      ∀ topOne,
        ((∃ scores, overallScores ranks labels weights topOne = .ok scores) ↔
          ∀ hash ∈ ranks.keys, Labelled labels weights hash) ∧
        (∀ labels' : NameMap (List ℚ), (∀ hash ∈ ranks.keys, labels'.get? hash = labels.get? hash) →
          overallScores ranks labels' weights topOne =
            overallScores ranks labels weights topOne) ∧
        ∀ scores, overallScores ranks labels weights topOne = .ok scores →
          let total :=
            (ranks.entries.map fun e => weightOf labels weights topOne e.1 * e.2).sum
          scores.keys = ranks.keys ∧
            scores.values.sum = (if total = 0 then 0 else 1) ∧
            (∀ hash, scores.get? hash = (ranks.get? hash).map fun rank =>
              if total = 0 then 0 else weightOf labels weights topOne hash * rank / total) ∧
            ∀ hash, labels.get? hash = some [] → (scores.get? hash).getD 0 = 0 := by
  constructor
  · unfold overallScores
    simp only [rawScore_topOne]
  · intro topOne
    refine ⟨?_, fun labels' hlabels => overallScores_congr hlabels, ?_⟩
    · simp only [overallScores_eq_ok_iff, exists_and_left, exists_eq', and_true]
    · intro scores hscores total
      obtain ⟨-, rfl⟩ := overallScores_eq_ok_iff.1 hscores
      have htotal : (rawScores ranks labels weights topOne).values.sum = total := by
        rw [NameMap.values, rawScores, List.map_map]
        rfl
      have hscore : ∀ hash, (normalize (rawScores ranks labels weights topOne)).get? hash =
          (ranks.get? hash).map fun rank =>
            if total = 0 then 0 else weightOf labels weights topOne hash * rank / total := by
        intro hash
        rw [get?_normalize, get?_rawScores, Option.map_map, htotal]
        rfl
      refine ⟨?_, ?_, hscore, ?_⟩
      · rw [normalize, NameMap.keys_map, NameMap.keys, rawScores, List.map_map]
        rfl
      · rw [sum_values_normalize, htotal]
      · intro hash hempty
        have hweight : weightOf labels weights topOne hash = 0 := by
          rw [weightOf, hempty]
          cases topOne <;> rfl
        rw [hscore, hweight]
        cases ranks.get? hash <;> simp

/-- Of two labels that are equally likely the first one counts, and a commit that is not ranked
needs no labels. -/
theorem overallScores_topOne_tie :
    let ranks : NameMap ℚ := .ofList [("a", 1 / 4), ("b", 1 / 2)]
    let labels : NameMap (List ℚ) :=
      .ofList [("a", [1 / 2, 1 / 2]), ("b", [1 / 10, 9 / 10]), ("c", [])]
    ∃ scores, overallScores ranks labels [2, 1] true = .ok scores ∧
      overallScores ranks (labels.map oneHot) [2, 1] false = .ok scores ∧
      scores.keys = ["a", "b"] ∧ scores.values.sum = 1 ∧ scores.get? "a" = some (1 / 2) := by
  intro ranks labels
  have hscores : overallScores ranks labels [2, 1] true =
      .ok (.ofList [("a", 1 / 2), ("b", 1 / 2)]) := by
    decide +kernel
  have htotal : (ranks.entries.map fun e => weightOf labels [2, 1] true e.1 * e.2).sum ≠ 0 := by
    decide +kernel
  obtain ⟨hcertain, hscored⟩ := overallScores_topOne ranks labels [2, 1]
  obtain ⟨hkeys, hsum, -, -⟩ := (hscored true).2.2 _ hscores
  exact ⟨_, hscores, hcertain ▸ hscores, hkeys, hsum.trans (if_neg htotal), by decide +kernel⟩

end EffortRank
