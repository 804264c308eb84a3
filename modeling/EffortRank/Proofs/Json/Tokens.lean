import EffortRank.Proofs.Json.Fields
import EffortRank.Proofs.Json.Scalars

/-!
# Values as they are written

A written value is cut into its tokens, in both forms of writing (`tokens_pretty`,
`tokens_compact`). The members of a container stand between its brackets, each with a gap of blanks
in front, which is empty in the short form.
-/

namespace EffortRank

namespace Json

/-- Every number of the value is an integer. -/
inductive Plain : Json → Prop where
  | null : Plain .null
  | bool (b : Bool) : Plain (.bool b)
  | int (n : Int) : Plain (.int n)
  | str (s : String) : Plain (.str s)
  | arr {items : List Json} (h : ∀ v ∈ items, Plain v) : Plain (.arr items)
  | obj {fields : List (String × Json)} (h : ∀ e ∈ fields, Plain e.2) : Plain (.obj fields)

/-! ## Tokens of a value -/

/-- The tokens of the members of a container, with a comma between two. -/
def separated : List (List Token) → List Token
  | [] => []
  | ts :: rest => ts ++ rest.flatMap (.comma :: ·)

mutual

/-- The tokens of a value. -/
def valueTokens : Json → List Token
  | .arr items => .openItems :: (separated (itemTokens items) ++ [.closeItems])
  | .obj fields => .openFields :: (separated (fieldTokens fields) ++ [.closeFields])
  | v => [.scalar v.node]

def itemTokens : List Json → List (List Token)
  | [] => []
  | v :: vs => valueTokens v :: itemTokens vs

def fieldTokens : List (String × Json) → List (List Token)
  | [] => []
  | (name, v) :: rest => (.scalar (.str name) :: .colon :: valueTokens v) :: fieldTokens rest

end

theorem itemTokens_eq_map (items : List Json) : itemTokens items = items.map valueTokens := by
  induction items with
  | nil => rfl
  | cons v vs ih => rw [itemTokens, ih, List.map_cons]

theorem fieldTokens_eq_map (fields : List (String × Json)) : fieldTokens fields =
    fields.map fun e => .scalar (.str e.1) :: .colon :: valueTokens e.2 := by
  induction fields with
  | nil => rfl
  | cons e rest ih => rw [fieldTokens, ih, List.map_cons]

/-! ## Containers -/

/-- The members of a container between its brackets. -/
def members (gap last : List Char) : List (List Char) → List Char
  | [] => []
  | cs :: rest => gap ++ (cs ++ (rest.flatMap (fun cs => ',' :: (gap ++ cs)) ++ last))

section

variable {α : Type} {text : α → List Char} {tokens : α → List Token} {gap last : List Char}

theorem apart_members {xs : List α} {rest : List Char} (hrest : Apart rest) :
    Apart ((xs.map text).flatMap (fun cs => ',' :: (gap ++ cs)) ++ rest) := by
  cases xs with
  | nil => exact hrest
  | cons x xs => exact apart_cons (by decide) _

theorem reads_comma (rest : List Char) : Reads [','] [.comma] rest := reads_mark (fun _ => rfl) rest

/-- The members behind the first are read one after the other, each behind its comma. -/
theorem reads_others (hgap : ∀ c ∈ gap, c = ' ' ∨ c = '\n') {xs : List α}
    (h : ∀ x ∈ xs, ∀ rest, Apart rest → Reads (text x) (tokens x) rest) {rest : List Char}
    (hrest : Apart rest) :
    Reads ((xs.map text).flatMap fun cs => ',' :: (gap ++ cs))
      ((xs.map tokens).flatMap (.comma :: ·)) rest := by
  induction xs with
  | nil => exact reads_nil rest
  | cons x xs ih =>
    rw [List.forall_mem_cons] at h
    have hmember : Reads (gap ++ text x) (tokens x)
        ((xs.map text).flatMap (fun cs => ',' :: (gap ++ cs)) ++ rest) :=
      (reads_blanks hgap _).append (h.1 _ (apart_members hrest))
    exact ((reads_comma _).append hmember).append (ih h.2)

/-- Members that are read one by one are read as a whole. -/
theorem reads_members (hgap : ∀ c ∈ gap, c = ' ' ∨ c = '\n')
    (hlast : ∀ c ∈ last, c = ' ' ∨ c = '\n') {xs : List α}
    (h : ∀ x ∈ xs, ∀ rest, Apart rest → Reads (text x) (tokens x) rest) {rest : List Char}
    (hrest : Apart (last ++ rest)) :
    Reads (members gap last (xs.map text)) (separated (xs.map tokens)) rest := by
  cases xs with
  | nil => exact reads_nil rest
  | cons x xs =>
    rw [List.forall_mem_cons] at h
    have hothers := (reads_others hgap h.2 hrest).append (reads_blanks hlast rest)
    rw [List.append_nil] at hothers
    have hfirst : Reads (text x) (tokens x)
        ((xs.map text).flatMap (fun cs => ',' :: (gap ++ cs)) ++ last ++ rest) := by
      rw [List.append_assoc]
      exact h.1 _ (apart_members hrest)
    exact (reads_blanks hgap _).append (hfirst.append hothers)

end

section

variable {gap last : List Char} (hgap : ∀ c ∈ gap, c = ' ' ∨ c = '\n')
  (hlast : ∀ c ∈ last, c = ' ' ∨ c = '\n') (hapart : Apart last)

include hgap hlast hapart

theorem reads_list {text : Json → List Char} {items : List Json}
    (h : ∀ v ∈ items, ∀ rest, Apart rest → Reads (text v) (valueTokens v) rest)
    (rest : List Char) :
    Reads ('[' :: (members gap last (items.map text) ++ [']'])) (valueTokens (.arr items))
      rest := by
  have hclose : Apart (last ++ (']' :: rest)) := hapart.append (apart_cons (by decide) rest)
  have hitems := (reads_members hgap hlast h hclose).append
    (reads_mark (t := .closeItems) (fun _ => rfl) rest)
  rw [valueTokens, itemTokens_eq_map]
  exact (reads_mark (t := .openItems) (fun _ => rfl) _).append hitems

theorem reads_record {text : String × Json → List Char} {fields : List (String × Json)}
    (h : ∀ e ∈ fields, ∀ rest, Apart rest →
      Reads (text e) (.scalar (.str e.1) :: .colon :: valueTokens e.2) rest) (rest : List Char) :
    Reads ('\x7b' :: (members gap last (fields.map text) ++ ['\x7d'])) (valueTokens (.obj fields))
      rest := by
  have hclose : Apart (last ++ ('\x7d' :: rest)) := hapart.append (apart_cons (by decide) rest)
  have hfields := (reads_members hgap hlast h hclose).append
    (reads_mark (t := .closeFields) (fun _ => rfl) rest)
  rw [valueTokens, fieldTokens_eq_map]
  exact (reads_mark (t := .openFields) (fun _ => rfl) _).append hfields

end

/-- A field is its name, a colon and its value. -/
theorem reads_field {name : String} {v : Json} {cs gap rest : List Char}
    (hgap : ∀ c ∈ gap, c = ' ' ∨ c = '\n') (h : Reads cs (valueTokens v) rest) :
    Reads ((quoteText name).toList ++ (':' :: (gap ++ cs)))
      (.scalar (.str name) :: .colon :: valueTokens v) rest := by
  have hcolon : Reads [':'] [.colon] (gap ++ cs ++ rest) := reads_mark (fun _ => rfl) _
  exact (reads_quoteText name _).append (hcolon.append ((reads_blanks hgap _).append h))

/-! ## The long form -/

theorem prettyItems_eq_map (depth : Nat) (items : List Json) :
    prettyItems depth items = items.map (prettyAt depth) := by
  induction items with
  | nil => rfl
  | cons v vs ih => rw [prettyItems, ih, List.map_cons]

theorem prettyFields_eq_map (depth : Nat) (fields : List (String × Json)) :
    prettyFields depth fields =
      fields.map fun e => quoteText e.1 ++ ": " ++ prettyAt depth e.2 := by
  induction fields with
  | nil => rfl
  | cons e rest ih => rw [prettyFields, ih, List.map_cons]

theorem intercalate_cons (sep cs : List Char) (rest : List (List Char)) :
    sep.intercalate (cs :: rest) = cs ++ rest.flatMap (sep ++ ·) := by
  induction rest generalizing cs with
  | nil => simp [List.intercalate]
  | cons cs' rest ih =>
    have hnext := ih cs'
    rw [List.intercalate] at hnext ⊢
    rw [List.intersperse_cons_cons, List.flatten_cons, List.flatten_cons, hnext, List.flatMap_cons,
      List.append_assoc]

theorem toList_bracketed (opening closing : String) (depth : Nat) (parts : List String) :
    (bracketed opening closing depth parts).toList =
      opening.toList ++ (members (newLine (depth + 1)).toList (newLine depth).toList
        (parts.map String.toList) ++ closing.toList) := by
  cases parts with
  | nil => simp [bracketed, members]
  | cons s parts =>
    simp [bracketed, members, String.toList_intercalate, intercalate_cons]

theorem toList_newLine (depth : Nat) :
    (newLine depth).toList = '\n' :: List.replicate (2 * depth) ' ' := by
  simp [newLine]

theorem blanks_newLine (depth : Nat) : ∀ c ∈ (newLine depth).toList, c = ' ' ∨ c = '\n' := by
  intro c hc
  rw [toList_newLine, List.mem_cons] at hc
  rcases hc with hc | hc
  · exact .inr hc
  · exact .inl (List.mem_replicate.1 hc).2

theorem apart_newLine (depth : Nat) : Apart (newLine depth).toList := by
  rw [toList_newLine]
  exact apart_cons (by decide) _

theorem reads_prettyAt {v : Json} (h : Plain v) (depth : Nat) {rest : List Char}
    (hrest : Apart rest) : Reads (prettyAt depth v).toList (valueTokens v) rest := by
  induction h generalizing depth rest with
  | null => exact reads_null hrest
  | bool b => exact reads_bool b hrest
  | int n => exact reads_int n hrest
  | str s => exact reads_quoteText s rest
  | @arr items h ih =>
    rw [prettyAt, toList_bracketed, prettyItems_eq_map, List.map_map]
    exact reads_list (blanks_newLine _) (blanks_newLine _) (apart_newLine _)
      (fun v hv rest hrest => ih v hv _ hrest) rest
  | @obj fields h ih =>
    rw [prettyAt, toList_bracketed, prettyFields_eq_map, List.map_map]
    refine reads_record (blanks_newLine _) (blanks_newLine _) (apart_newLine _)
      (fun e he rest hrest => ?_) rest
    have htext : (quoteText e.1 ++ ": " ++ prettyAt (depth + 1) e.2).toList =
        (quoteText e.1).toList ++ (':' :: ([' '] ++ (prettyAt (depth + 1) e.2).toList)) := by
      rw [String.toList_append, String.toList_append, List.append_assoc]
      rfl
    rw [Function.comp_apply, htext]
    exact reads_field (by simp) (ih e he (depth + 1) hrest)

/-! ## The short form -/

theorem compactItems_eq_map (items : List Json) : compactItems items = items.map compact := by
  induction items with
  | nil => rfl
  | cons v vs ih => rw [compactItems, ih, List.map_cons]

theorem compactFields_eq_map (fields : List (String × Json)) :
    compactFields fields = fields.map fun e => quoteText e.1 ++ ":" ++ compact e.2 := by
  induction fields with
  | nil => rfl
  | cons e rest ih => rw [compactFields, ih, List.map_cons]

theorem toList_enclosed (opening closing : String) (parts : List String) :
    (opening ++ ",".intercalate parts ++ closing).toList =
      opening.toList ++ (members [] [] (parts.map String.toList) ++ closing.toList) := by
  cases parts with
  | nil => simp [members]
  | cons s parts => simp [members, String.toList_intercalate, intercalate_cons]

theorem reads_compact {v : Json} (h : Plain v) {rest : List Char} (hrest : Apart rest) :
    Reads (compact v).toList (valueTokens v) rest := by
  induction h generalizing rest with
  | null => exact reads_null hrest
  | bool b => exact reads_bool b hrest
  | int n => exact reads_int n hrest
  | str s => exact reads_quoteText s rest
  | @arr items h ih =>
    rw [compact, toList_enclosed, compactItems_eq_map, List.map_map]
    exact reads_list (by simp) (by simp) apart_nil (fun v hv rest hrest => ih v hv hrest) rest
  | @obj fields h ih =>
    rw [compact, toList_enclosed, compactFields_eq_map, List.map_map]
    refine reads_record (by simp) (by simp) apart_nil (fun e he rest hrest => ?_) rest
    have htext : (quoteText e.1 ++ ":" ++ compact e.2).toList =
        (quoteText e.1).toList ++ (':' :: ([] ++ (compact e.2).toList)) := by
      rw [String.toList_append, String.toList_append, List.append_assoc]
      rfl
    rw [Function.comp_apply, htext]
    exact reads_field (by simp) (ih e he hrest)

/-! ## Whole texts -/

/-- A text that is read as some tokens is cut into them. -/
theorem tokens_of_reads {cs : List Char} {ts : List Token} (h : Reads cs ts []) :
    (tokens cs).map PlacedToken.token = ts := by
  obtain ⟨w, hw, hdone, hrun⟩ := h ⟨.between, 0, []⟩ rfl
  have hend : w.run [] = w.done.reverse := by
    rw [Walk.run, Walk.finish, hw]
    rfl
  rw [List.append_nil, hend] at hrun
  rw [tokens, hrun, List.map_reverse, hdone, List.map_nil, List.append_nil, List.reverse_reverse]

theorem tokens_pretty {v : Json} (h : Plain v) :
    (tokens (pretty v).toList).map PlacedToken.token = valueTokens v :=
  tokens_of_reads (reads_prettyAt h 0 apart_nil)

theorem tokens_compact {v : Json} (h : Plain v) :
    (tokens (compact v).toList).map PlacedToken.token = valueTokens v :=
  tokens_of_reads (reads_compact h apart_nil)

end Json

end EffortRank
