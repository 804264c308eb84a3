import EffortRank.Json.Printer
import EffortRank.Json.Record
import EffortRank.NameMap.Lemmas
import Mathlib.Data.List.Nodup

/-!
# Records that are read from a value

`Json.node` is the node that a written value is read as. A record is read from the node of an object
if its fields are known, in their declared order, and each of them can be read. Fields may be left
out where the record has a value for a missing one.
-/

namespace EffortRank

open NameMap (lookup)

namespace Json

mutual

/-- What a text holds in which the value is written. -/
def node : Json → Node
  | .null => .null
  | .bool b => .bool b
  | .int n => .int n
  | .real x =>
    match Numeral.read? x.reportText with
    | some x => .real x
    | none => .broken "invalid number"
  | .str s => .str s
  | .arr items => .arr (itemNodes items)
  | .obj fields => .obj (fieldNodes fields)

def itemNodes : List Json → List Node
  | [] => []
  | v :: vs => v.node :: itemNodes vs

def fieldNodes : List (String × Json) → List (Option String × Node)
  | [] => []
  | (name, v) :: rest => (some name, v.node) :: fieldNodes rest

end

theorem itemNodes_eq_map (items : List Json) : itemNodes items = items.map node := by
  induction items with
  | nil => rfl
  | cons v vs ih => rw [itemNodes, ih, List.map_cons]

/-! ## Scalars -/

theorem asLine_int {n : Int} (h : lineFits n = true) : asLine (Json.int n).node = .ok n := by
  unfold node asLine
  exact if_pos h

theorem asCount_nat {n : Nat} (h : countFits n = true) : asCount (nat n).node = .ok n := by
  have hn : (0 : Int) ≤ n ∧ (n : Int) ≤ maxCount := by
    rw [countFits, decide_eq_true_eq] at h
    omega
  unfold nat node asCount
  exact if_pos hn

/-! ## Containers -/

section

variable {α : Type} {read : Node → Except Fault α} {f : α → Json}

theorem readItems_map {xs : List α} (h : ∀ x ∈ xs, read (f x).node = .ok x) (index : Nat) :
    readItems read index (itemNodes (xs.map f)) = .ok xs := by
  induction xs generalizing index with
  | nil => rfl
  | cons x xs ih =>
    obtain ⟨hx, hxs⟩ := List.forall_mem_cons.1 h
    rw [List.map_cons, itemNodes, readItems, hx, ih hxs]
    rfl

/-- A list is read item by item. -/
theorem asList_list {xs : List α} (h : ∀ x ∈ xs, read (f x).node = .ok x) :
    asList read (list f xs).node = .ok xs := by
  rw [list, node, asList]
  exact readItems_map h 0

theorem readFields_map {es : List (String × α)} (h : ∀ e ∈ es, read (f e.2).node = .ok e.2)
    (index : Nat) :
    readFields read index (fieldNodes (es.map fun e => (e.1, f e.2))) = .ok es := by
  induction es generalizing index with
  | nil => rfl
  | cons e es ih =>
    obtain ⟨he, hes⟩ := List.forall_mem_cons.1 h
    rw [List.map_cons, fieldNodes, readFields, he, ih hes]
    rfl

/-- A map is read entry by entry; its names ascend, so that none replaces another. -/
theorem asMap_entries {m : NameMap α} (h : ∀ e ∈ m.entries, read (f e.2).node = .ok e.2) :
    asMap read (Json.obj (m.map f).entries).node = .ok m := by
  have hread : readFields read 0 (fieldNodes (m.map f).entries) = .ok m.entries :=
    readFields_map h 0
  rw [node, asMap, hread]
  exact congrArg Except.ok m.ofList_entries

end

/-! ## Records -/

/-- The parts of a record are the values of some fields. -/
def RecordParts.Holds (r : RecordParts) (fields : List (String × Json)) : Prop :=
  ∀ name, (r.part? name).map RecordPart.node = (lookup name fields).map Json.node

namespace RecordParts

/-- The first field of a name is the one that is looked up. -/
theorem findIdx?_fieldNodes (fields : List (String × Json)) (name : String) :
    (((fieldNodes fields).findIdx? fun field => field.1 == some name).bind fun index =>
      (fieldNodes fields)[index]?).map (·.2) = (lookup name fields).map Json.node := by
  induction fields with
  | nil => rfl
  | cons e rest ih =>
    rw [fieldNodes, List.findIdx?_cons, lookup]
    by_cases hname : e.1 = name
    · rw [if_pos hname, hname]
      simp
    · have hother : (some e.1 == some name) = false := by simpa using hname
      rw [if_neg hname, hother, ← ih]
      cases (fieldNodes rest).findIdx? fun field => field.1 == some name <;> rfl

theorem holds_ofFields (fields : List (String × Json)) :
    (ofFields (fieldNodes fields)).Holds fields := by
  intro name
  rw [← findIdx?_fieldNodes]
  show Option.map RecordPart.node (Option.bind _ fun index => Option.bind _ fun field => some _) = _
  cases (fieldNodes fields).findIdx? fun field => field.1 == some name with
  | none => rfl
  | some index =>
    rw [Option.bind_some, Option.bind_some]
    cases (fieldNodes fields)[index]? <;> rfl

namespace Holds

variable {α : Type} {r : RecordParts} {fields : List (String × Json)} {name : String} {v : Json}
  {read : Node → Except Fault α} {x : α}

/-- The part under a name is the value that is looked up. -/
theorem part?_eq_some (hr : r.Holds fields) (h : lookup name fields = some v) :
    ∃ part, r.part? name = some part ∧ part.node = v.node := by
  have hname := hr name
  rw [h, Option.map_some, Option.map_eq_some_iff] at hname
  exact hname

theorem part?_eq_none (hr : r.Holds fields) (h : lookup name fields = none) :
    r.part? name = none := by
  have hname := hr name
  rw [h, Option.map_none, Option.map_eq_none_iff] at hname
  exact hname

/-- A field that is there is read. -/
theorem required (hr : r.Holds fields) (h : lookup name fields = some v)
    (hread : read v.node = .ok x) : r.required name read = .read x := by
  obtain ⟨part, hpart, hnode⟩ := hr.part?_eq_some h
  rw [RecordParts.required, hpart]
  dsimp only
  rw [readPart, hnode, hread]
  rfl

theorem defaulted (hr : r.Holds fields) {missing : α} (h : lookup name fields = some v)
    (hread : read v.node = .ok x) : r.defaulted name missing read = .read x := by
  obtain ⟨part, hpart, hnode⟩ := hr.part?_eq_some h
  rw [RecordParts.defaulted, hpart]
  dsimp only
  rw [readPart, hnode, hread]
  rfl

/-- A field that was left out has the value that stands for it. -/
theorem missing (hr : r.Holds fields) {missing : α} (h : lookup name fields = none) :
    r.defaulted name missing read = .read missing := by
  rw [RecordParts.defaulted, hr.part?_eq_none h]

/-- A field that may be null and is not. -/
theorem nonNull (hr : r.Holds fields) (h : lookup name fields = some v) (hnull : v.node ≠ .null)
    (hread : read v.node = .ok x) : r.optional name read = .read (some x) := by
  refine hr.defaulted h ?_
  rw [readNullable]
  · rw [hread]
    rfl
  · exact hnull

/-- A text that may be null. -/
theorem nullableText (hr : r.Holds fields) {s? : Option String}
    (h : lookup name fields = some (option .str s?)) : r.optional name asText = .read s? := by
  cases s? with
  | none => exact hr.defaulted h rfl
  | some s => exact hr.nonNull h Node.noConfusion rfl

/-- A count that may be left out. -/
theorem count (hr : r.Holds fields) {n? : Option Nat} (hn : n?.all countFits = true)
    (h : lookup name fields = n?.map nat) : r.optional name asCount = .read n? := by
  cases n? with
  | none => exact hr.missing h
  | some n => exact hr.nonNull h Node.noConfusion (asCount_nat hn)

end Holds

end RecordParts

section

variable {α : Type} {fields : List (String × Json)} {names : List String}

/-- Known fields, each of them once, leave nothing to say. -/
theorem checkFields_fieldNodes {seen : List String} (hnodup : (fields.map (·.1)).Nodup)
    (hknown : ∀ n ∈ fields.map (·.1), n ∈ names ∧ n ∉ seen) (index : Nat) :
    checkFields names seen index (fieldNodes fields) = .read () := by
  induction fields generalizing seen index with
  | nil => rfl
  | cons e rest ih =>
    rw [List.map_cons, List.nodup_cons] at hnodup
    obtain ⟨hfirst, hrest⟩ := List.forall_mem_cons.1 hknown
    have hseen : ∀ n ∈ rest.map (·.1), n ∈ names ∧ n ∉ e.1 :: seen := by
      intro n hn
      refine ⟨(hrest n hn).1, ?_⟩
      rw [List.mem_cons, not_or]
      refine ⟨?_, (hrest n hn).2⟩
      rintro rfl
      exact hnodup.1 hn
    rw [fieldNodes, checkFields]
    simp only [readName]
    rw [if_pos (by simpa using hfirst.1), if_neg (by simpa using hfirst.2)]
    exact ih hnodup.2 hseen (index + 1)

/-- **A record is read from its fields**, in their declared order, of which some may be left out. -/
theorem readRecord_fields {read : RecordParts → Parts Fault α} {x : α}
    (hfields : (fields.map (·.1)).isSublist names = true) (hnames : names.Nodup)
    (hread : ∀ r : RecordParts, r.Holds fields → read r = .read x) :
    readRecord names read (Json.obj fields).node = .ok x := by
  have hsublist : (fields.map (·.1)).Sublist names := List.isSublist_iff_sublist.1 hfields
  have hcheck : checkFields names [] 0 (fieldNodes fields) = .read () :=
    checkFields_fieldNodes (hnames.sublist hsublist)
      (fun n hn => ⟨hsublist.subset hn, List.not_mem_nil⟩) 0
  rw [node, readRecord, hread _ (RecordParts.holds_ofFields fields), hcheck]
  rfl

end

end Json

end EffortRank
