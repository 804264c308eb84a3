import EffortRank.Proofs.Json.Tokens

/-!
# Written values are read back

The reader takes the tokens of a value as that value, wherever a value may stand
(`takes_value`). So a text that a value was written to holds the node of the value, and a record
that can be read from the node is read from the text (`decodeText_pretty`).
-/

namespace EffortRank

namespace Json

namespace Reader

/-- Tokens lead the reader from one state to another, whatever comes behind them. -/
def Takes (r r' : Reader) (ts : List PlacedToken) : Prop :=
  ∀ place rest, ∃ place', r.run place (ts ++ rest) = r'.run place' rest

theorem Takes.append {r r' r'' : Reader} {ts ts' : List PlacedToken} (h : Takes r r' ts)
    (h' : Takes r' r'' ts') : Takes r r'' (ts ++ ts') := by
  intro place rest
  obtain ⟨place₁, hrun₁⟩ := h place (ts' ++ rest)
  obtain ⟨place₂, hrun₂⟩ := h' place₁ rest
  exact ⟨place₂, by rw [List.append_assoc, hrun₁, hrun₂]⟩

/-- The reader goes on unless a value stands outside of all containers. -/
theorem takes_of_step {r r' : Reader} {t : PlacedToken}
    (hopen : ∀ v, r.frames = [] → r.expected ≠ .next v) (h : r.step t = .ok r') :
    Takes r r' [t] := by
  intro place rest
  refine ⟨t.stop, ?_⟩
  rw [List.singleton_append, Reader.run]
  split
  · rename_i v hframes hexpected
    exact absurd hexpected (hopen v hframes)
  · rw [h]

variable {frames : List Frame}

/-- The first token of a value is taken where a value may stand, also behind an opening bracket. -/
theorem takes_of_value {e : Expected} (he : e = .value ∨ e = .firstItem) {t : PlacedToken}
    (ht : t.token ≠ .closeItems) {r : Reader} (h : value frames t = .ok r) :
    Takes ⟨frames, e⟩ r [t] := by
  refine takes_of_step (fun v _ hv => ?_) ?_
  · rcases he with rfl | rfl <;> cases hv
  · rcases he with rfl | rfl
    · exact h
    · rw [Reader.step]
      dsimp only
      split
      · rename_i htoken
        exact absurd htoken ht
      · exact h

/-- The tokens of a value are taken as that value. -/
def TakesValue (v : Json) : Prop :=
  ∀ (frames : List Frame) (e : Expected) (ts : List PlacedToken), e = .value ∨ e = .firstItem →
    ts.map PlacedToken.token = valueTokens v →
      ∃ pv : PlacedNode, pv.node = v.node ∧ Takes ⟨frames, e⟩ (put frames pv) ts

theorem takes_scalar {v : Json} (h : valueTokens v = [.scalar v.node]) : TakesValue v := by
  intro frames e ts he hts
  rw [h] at hts
  obtain ⟨t, rfl, ht⟩ := List.map_eq_singleton_iff.1 hts
  refine ⟨⟨v.node, .scalar t.stop⟩, rfl, takes_of_value he ?_ (by rw [value, ht])⟩
  rw [ht]
  exact Token.noConfusion

/-- The items behind the first are taken one after the other, up to the end of the list. -/
theorem takes_items {items : List Json} (h : ∀ v ∈ items, TakesValue v) (frames : List Frame)
    (start : Nat) (done : List PlacedNode) (pv : PlacedNode) {ts : List PlacedToken}
    (hts : ts.map PlacedToken.token =
      (itemTokens items).flatMap (.comma :: ·) ++ [.closeItems]) :
    ∃ last : List PlacedNode, last.map PlacedNode.node = items.map node ∧
      Takes ⟨.items start done :: frames, .next pv⟩
        (put frames (.ofItems start (last.reverse ++ pv :: done))) ts := by
  induction items generalizing done pv ts with
  | nil =>
    obtain ⟨t, rfl, ht⟩ := List.map_eq_singleton_iff.1 hts
    refine ⟨[], rfl, takes_of_step (fun _ hframes => by cases hframes) ?_⟩
    rw [Reader.step]
    dsimp only
    rw [ht]
    rfl
  | cons v vs ih =>
    rw [List.forall_mem_cons] at h
    rw [itemTokens, List.flatMap_cons, List.cons_append, List.cons_append, List.append_assoc,
      List.map_eq_cons_iff] at hts
    obtain ⟨t, ts, rfl, ht, hts⟩ := hts
    obtain ⟨ts₁, ts₂, rfl, hts₁, hts₂⟩ := List.map_eq_append_iff.1 hts
    obtain ⟨pv', hnode, hvalue⟩ :=
      h.1 (.items start (pv :: done) :: frames) .value ts₁ (.inl rfl) hts₁
    obtain ⟨last, hlast, hrest⟩ := ih h.2 (pv :: done) pv' hts₂
    refine ⟨pv' :: last, by rw [List.map_cons, List.map_cons, hnode, hlast], ?_⟩
    have hcomma : Takes ⟨.items start done :: frames, .next pv⟩
        ⟨.items start (pv :: done) :: frames, .value⟩ [t] := by
      refine takes_of_step (fun _ hframes => by cases hframes) ?_
      rw [Reader.step]
      dsimp only
      rw [ht]
    rw [List.reverse_cons, List.append_assoc]
    exact hcomma.append (hvalue.append hrest)

theorem takes_list {items : List Json} (h : ∀ v ∈ items, TakesValue v) :
    TakesValue (.arr items) := by
  intro frames e ts he hts
  rw [valueTokens, List.map_eq_cons_iff] at hts
  obtain ⟨t, ts, rfl, ht, hts⟩ := hts
  have hopen : Takes ⟨frames, e⟩ ⟨.items (t.stop - 1) [] :: frames, .firstItem⟩ [t] := by
    refine takes_of_value he ?_ (by rw [value, ht])
    rw [ht]
    exact Token.noConfusion
  cases items with
  | nil =>
    obtain ⟨t', rfl, ht'⟩ := List.map_eq_singleton_iff.1 hts
    refine ⟨.ofItems (t.stop - 1) [], rfl, hopen.append ?_⟩
    refine takes_of_step (fun _ hframes => by cases hframes) ?_
    rw [Reader.step]
    dsimp only
    rw [ht']
  | cons v vs =>
    rw [List.forall_mem_cons] at h
    rw [itemTokens, separated, List.append_assoc] at hts
    obtain ⟨ts₁, ts₂, rfl, hts₁, hts₂⟩ := List.map_eq_append_iff.1 hts
    obtain ⟨pv, hnode, hvalue⟩ :=
      h.1 (.items (t.stop - 1) [] :: frames) .firstItem ts₁ (.inr rfl) hts₁
    obtain ⟨last, hlast, hrest⟩ := takes_items h.2 frames (t.stop - 1) [] pv hts₂
    refine ⟨_, ?_, hopen.append (hvalue.append hrest)⟩
    rw [PlacedNode.ofItems, node, itemNodes_eq_map]
    simp [hnode, hlast]

/-! ## Records -/

theorem name_of_text {start : Nat} {done : List PlacedField} {text : String} {t : PlacedToken}
    (ht : t.token = .scalar (.str text)) :
    name frames start done t = .ok ⟨.fields start done (some text) t.stop :: frames, .colon⟩ := by
  rw [name, ht]

theorem step_firstField {start : Nat} {text : String} {t : PlacedToken}
    (ht : t.token = .scalar (.str text)) :
    Reader.step ⟨frames, .firstField start⟩ t =
      .ok ⟨.fields start [] (some text) t.stop :: frames, .colon⟩ := by
  rw [Reader.step]
  dsimp only
  rw [ht]
  exact name_of_text ht

/-- The name of a field, its colon and its value are taken as the field that is open then. -/
theorem takes_field {v : Json} (h : TakesValue v) {r : Reader} {start : Nat}
    {done : List PlacedField} {name : String} {ts : List PlacedToken}
    (hopen : ∀ v, r.expected ≠ .next v)
    (hstep : ∀ t : PlacedToken, t.token = .scalar (.str name) →
      r.step t = .ok ⟨.fields start done (some name) t.stop :: frames, .colon⟩)
    (hts : ts.map PlacedToken.token = .scalar (.str name) :: .colon :: valueTokens v) :
    ∃ (stop : Nat) (pv : PlacedNode), pv.node = v.node ∧
      Takes r ⟨.fields start done (some name) stop :: frames, .next pv⟩ ts := by
  obtain ⟨t, ts, rfl, ht, hts⟩ := List.map_eq_cons_iff.1 hts
  obtain ⟨t', ts, rfl, ht', hts⟩ := List.map_eq_cons_iff.1 hts
  obtain ⟨pv, hnode, hvalue⟩ :=
    h (.fields start done (some name) t.stop :: frames) .value ts (.inl rfl) hts
  have hcolon : Takes ⟨.fields start done (some name) t.stop :: frames, .colon⟩
      ⟨.fields start done (some name) t.stop :: frames, .value⟩ [t'] := by
    refine takes_of_step (fun _ hframes => by cases hframes) ?_
    rw [Reader.step]
    dsimp only
    rw [ht']
  exact ⟨t.stop, pv, hnode,
    (takes_of_step (fun v _ => hopen v) (hstep t ht)).append (hcolon.append hvalue)⟩

/-- The fields behind the first are taken one after the other, up to the end of the record. -/
theorem takes_fields {fields : List (String × Json)} (h : ∀ e ∈ fields, TakesValue e.2)
    (frames : List Frame) (start : Nat) (done : List PlacedField) (name : String) (stop : Nat)
    (pv : PlacedNode) {ts : List PlacedToken} (hts : ts.map PlacedToken.token =
      (fieldTokens fields).flatMap (.comma :: ·) ++ [.closeFields]) :
    ∃ last : List PlacedField, last.map (fun f => (f.name, f.value.node)) = fieldNodes fields ∧
      Takes ⟨.fields start done (some name) stop :: frames, .next pv⟩
        (put frames (.ofFields start (last.reverse ++ ⟨some name, stop, pv⟩ :: done))) ts := by
  induction fields generalizing done name stop pv ts with
  | nil =>
    obtain ⟨t, rfl, ht⟩ := List.map_eq_singleton_iff.1 hts
    refine ⟨[], rfl, takes_of_step (fun _ hframes => by cases hframes) ?_⟩
    rw [Reader.step]
    dsimp only
    rw [ht]
    rfl
  | cons e rest ih =>
    rw [List.forall_mem_cons] at h
    rw [fieldTokens, List.flatMap_cons, List.cons_append, List.cons_append, List.append_assoc,
      List.map_eq_cons_iff] at hts
    obtain ⟨t, ts, rfl, ht, hts⟩ := hts
    obtain ⟨ts₁, ts₂, rfl, hts₁, hts₂⟩ := List.map_eq_append_iff.1 hts
    have hcomma : Takes ⟨.fields start done (some name) stop :: frames, .next pv⟩
        ⟨frames, .field start (⟨some name, stop, pv⟩ :: done)⟩ [t] := by
      refine takes_of_step (fun _ hframes => by cases hframes) ?_
      rw [Reader.step]
      dsimp only
      rw [ht]
    obtain ⟨stop', pv', hnode, hfield⟩ := takes_field h.1
      (r := ⟨frames, .field start (⟨some name, stop, pv⟩ :: done)⟩)
      (fun _ hv => by cases hv) (fun _ ht => name_of_text ht) hts₁
    obtain ⟨last, hlast, hrest⟩ := ih h.2 _ e.1 stop' pv' hts₂
    refine ⟨⟨some e.1, stop', pv'⟩ :: last, ?_, ?_⟩
    · rw [List.map_cons, fieldNodes, hlast, hnode]
    · rw [List.reverse_cons, List.append_assoc]
      exact hcomma.append (hfield.append hrest)

theorem takes_record {fields : List (String × Json)} (h : ∀ e ∈ fields, TakesValue e.2) :
    TakesValue (.obj fields) := by
  intro frames e ts he hts
  rw [valueTokens, List.map_eq_cons_iff] at hts
  obtain ⟨t, ts, rfl, ht, hts⟩ := hts
  have hopen : Takes ⟨frames, e⟩ ⟨frames, .firstField (t.stop - 1)⟩ [t] := by
    refine takes_of_value he ?_ (by rw [value, ht])
    rw [ht]
    exact Token.noConfusion
  cases fields with
  | nil =>
    obtain ⟨t', rfl, ht'⟩ := List.map_eq_singleton_iff.1 hts
    refine ⟨.ofFields (t.stop - 1) [], rfl, hopen.append ?_⟩
    refine takes_of_step (fun _ _ hv => by cases hv) ?_
    rw [Reader.step]
    dsimp only
    rw [ht']
  | cons e rest =>
    rw [List.forall_mem_cons] at h
    rw [fieldTokens, separated, List.append_assoc] at hts
    obtain ⟨ts₁, ts₂, rfl, hts₁, hts₂⟩ := List.map_eq_append_iff.1 hts
    obtain ⟨stop, pv, hnode, hfield⟩ := takes_field h.1
      (r := ⟨frames, .firstField (t.stop - 1)⟩) (fun _ hv => by cases hv)
      (fun _ ht => step_firstField ht) hts₁
    obtain ⟨last, hlast, hrest⟩ := takes_fields h.2 frames (t.stop - 1) [] e.1 stop pv hts₂
    refine ⟨_, ?_, hopen.append (hfield.append hrest)⟩
    rw [PlacedNode.ofFields, node, fieldNodes]
    simp [hnode, hlast]

/-- **The tokens of a value are taken as that value**, wherever a value may stand. -/
theorem takes_value {v : Json} (h : Plain v) : TakesValue v := by
  induction h with
  | null => exact takes_scalar rfl
  | bool b => exact takes_scalar rfl
  | int n => exact takes_scalar rfl
  | str s => exact takes_scalar rfl
  | arr h ih => exact takes_list ih
  | obj h ih => exact takes_record ih

end Reader

/-! ## Texts -/

theorem ofText_of_tokens {v : Json} (h : Plain v) {text : String}
    (htext : (tokens text.toList).map PlacedToken.token = valueTokens v) :
    ∃ layout, Document.ofText text = ⟨⟨v.node, layout⟩, none⟩ := by
  obtain ⟨⟨_, layout⟩, rfl, htakes⟩ := Reader.takes_value h [] .value _ (.inl rfl) htext
  obtain ⟨place, hrun⟩ := htakes 0 []
  rw [List.append_nil] at hrun
  exact ⟨layout, hrun⟩

section

variable {α : Type} {read : Node → Except Fault α} {v : Json} {x : α}

theorem decodeText_of_tokens (h : Plain v) {text : String}
    (htext : (tokens text.toList).map PlacedToken.token = valueTokens v)
    (hread : read v.node = .ok x) : decodeText read text = .ok x := by
  obtain ⟨layout, hdocument⟩ := ofText_of_tokens h htext
  rw [decodeText, hdocument]
  dsimp only
  rw [hread]

/-- **What is read from the node of a value is read from its text**, in the long form. -/
theorem decodeText_pretty (h : Plain v) (hread : read v.node = .ok x) :
    decodeText read v.pretty = .ok x :=
  decodeText_of_tokens h (tokens_pretty h) hread

theorem decodeText_compact (h : Plain v) (hread : read v.node = .ok x) :
    decodeText read v.compact = .ok x :=
  decodeText_of_tokens h (tokens_compact h) hread

end

end Json

end EffortRank
