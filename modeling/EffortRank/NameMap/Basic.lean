/-!
# Maps keyed by name

`NameMap α` holds values under names and lists them in ascending order of the names, character by
character. The order is part of the type: two maps with the same values are equal, and sums over a
map have one order. `NameSet` is the set of names of such a map.
-/

namespace EffortRank

/-- A map from names to values, listed in ascending order of the names. -/
structure NameMap (α : Type) where
  entries : List (String × α)
  ascending : entries.Pairwise fun a b => a.1 < b.1
deriving DecidableEq

namespace NameMap

variable {α β : Type}

def empty : NameMap α := ⟨[], .nil⟩

instance : Inhabited (NameMap α) := ⟨empty⟩

def lookup (name : String) : List (String × α) → Option α
  | [] => none
  | e :: es => if e.1 = name then some e.2 else lookup name es

def get? (m : NameMap α) (name : String) : Option α := lookup name m.entries

/-- The names, ascending. -/
def keys (m : NameMap α) : List String := m.entries.map (·.1)

/-- The values, in the order of their names. -/
def values (m : NameMap α) : List α := m.entries.map (·.2)

def size (m : NameMap α) : Nat := m.entries.length

def isEmpty (m : NameMap α) : Bool := m.entries.isEmpty

/-! ## Changing one value -/

/-- Puts `f` of the old value under the name, at the place where the name belongs. -/
def place (name : String) (f : Option α → α) : List (String × α) → List (String × α)
  | [] => [(name, f none)]
  | e :: es =>
    if name < e.1 then (name, f none) :: e :: es
    else if e.1 < name then e :: place name f es
    else (e.1, f (some e.2)) :: es

/-- Placing keeps every lower bound of the names that also bounds the new name. -/
theorem place_lower {name low : String} {f : Option α → α} {es : List (String × α)}
    (hn : low < name) (h : ∀ e ∈ es, low < e.1) : ∀ e ∈ place name f es, low < e.1 := by
  induction es with
  | nil => simpa [place] using hn
  | cons e es ih =>
    have he : low < e.1 := h e (by simp)
    have hes : ∀ x ∈ es, low < x.1 := fun x hx => h x (by simp [hx])
    unfold place
    split
    · intro x hx
      simp only [List.mem_cons] at hx
      rcases hx with rfl | rfl | hx
      · exact hn
      · exact he
      · exact hes x hx
    · split
      · intro x hx
        simp only [List.mem_cons] at hx
        rcases hx with rfl | hx
        · exact he
        · exact ih hes x hx
      · intro x hx
        simp only [List.mem_cons] at hx
        rcases hx with rfl | hx
        · exact he
        · exact hes x hx

theorem place_ascending (name : String) (f : Option α → α) {es : List (String × α)}
    (h : es.Pairwise fun a b => a.1 < b.1) :
    (place name f es).Pairwise fun a b => a.1 < b.1 := by
  induction es with
  | nil => simp [place]
  | cons e es ih =>
    obtain ⟨he, hes⟩ := List.pairwise_cons.1 h
    unfold place
    split
    · rename_i hlt
      refine List.pairwise_cons.2 ⟨fun x hx => ?_, h⟩
      rcases List.mem_cons.1 hx with rfl | hx
      · exact hlt
      · exact String.lt_trans hlt (he x hx)
    · split
      · rename_i hlt
        exact List.pairwise_cons.2 ⟨place_lower hlt he, ih hes⟩
      · exact List.pairwise_cons.2 ⟨he, hes⟩

/-- Puts `f` of the old value under a name. -/
def alter (m : NameMap α) (name : String) (f : Option α → α) : NameMap α :=
  ⟨place name f m.entries, place_ascending name f m.ascending⟩

def insert (m : NameMap α) (name : String) (value : α) : NameMap α := m.alter name fun _ => value

/-- Puts a value under a name that has none; an old value stays. -/
def insertNew (m : NameMap α) (name : String) (value : α) : NameMap α :=
  m.alter name fun old => old.getD value

/-- The map of a list of entries, of which a later one replaces an earlier one. -/
def ofList (es : List (String × α)) : NameMap α := es.foldl (fun m e => m.insert e.1 e.2) empty

/-! ## Whole maps -/

def map (f : α → β) (m : NameMap α) : NameMap β :=
  ⟨m.entries.map fun e => (e.1, f e.2), List.pairwise_map.2 m.ascending⟩

/-- Keeps the entries that pass a test. -/
def filter (p : String → α → Bool) (m : NameMap α) : NameMap α :=
  ⟨m.entries.filter fun e => p e.1 e.2, m.ascending.filter _⟩

/-- Puts the entries of `n` into `m`; where both have a value, `f` joins them. -/
def mergeWith (f : α → α → α) (m n : NameMap α) : NameMap α :=
  n.entries.foldl (fun m e => m.alter e.1 fun | some v => f v e.2 | none => e.2) m

end NameMap

/-! ## Sets of names -/

/-- A set of names, listed in ascending order. -/
abbrev NameSet := NameMap Unit

namespace NameSet

def ofNames (names : List String) : NameSet := NameMap.ofList (names.map fun n => (n, ()))

def addNames (s : NameSet) (names : List String) : NameSet :=
  names.foldl (fun s n => s.insert n ()) s

end NameSet

end EffortRank
