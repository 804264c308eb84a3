import EffortRank.NameMap.Basic

/-!
# What a map holds

`get?` is the view of a map: `get?_alter`, `get?_insert`, `get?_map`, `get?_filter` and
`get?_mergeWith` say what an operation does to it, and `ext_get?` that a map is determined by it.
-/

namespace EffortRank

namespace NameMap

variable {α β : Type}

/-! ## Looking up in a list of entries -/

theorem ne_of_lt {name other : String} (h : name < other) : name ≠ other := by
  rintro rfl
  exact String.lt_irrefl name h

theorem lookup_of_lower {name : String} {es : List (String × α)} (h : ∀ e ∈ es, name < e.1) :
    lookup name es = none := by
  induction es with
  | nil => rfl
  | cons e es ih =>
    have hne : e.1 ≠ name := (ne_of_lt (h e (by simp))).symm
    simp only [lookup, hne, if_false]
    exact ih fun x hx => h x (by simp [hx])

/-- A name below that of the first entry has none. -/
theorem lookup_eq_none_of_lt {name : String} {e : String × α} {es : List (String × α)}
    (h : (e :: es).Pairwise fun a b => a.1 < b.1) (hlt : name < e.1) :
    lookup name (e :: es) = none := by
  obtain ⟨he, -⟩ := List.pairwise_cons.1 h
  apply lookup_of_lower
  intro x hx
  rcases List.mem_cons.1 hx with rfl | hx
  · exact hlt
  · exact String.lt_trans hlt (he x hx)

theorem lookup_place {name other : String} {f : Option α → α} {es : List (String × α)}
    (h : es.Pairwise fun a b => a.1 < b.1) :
    lookup other (place name f es) =
      if other = name then some (f (lookup name es)) else lookup other es := by
  induction es with
  | nil => simp [place, lookup, eq_comm]
  | cons e es ih =>
    obtain ⟨he, hes⟩ := List.pairwise_cons.1 h
    unfold place
    split
    · rename_i hlt
      have hnone : lookup name (e :: es) = none := lookup_eq_none_of_lt h hlt
      by_cases hother : other = name
      · simp [lookup, hother, ← hnone]
      · simp [lookup, hother, Ne.symm hother]
    · split
      · rename_i hlt
        have hne : e.1 ≠ name := ne_of_lt hlt
        by_cases hother : other = name
        · subst hother
          simp [lookup, hne, ih hes]
        · simp [lookup, hother, ih hes]
      · rename_i hge hle
        have heq : e.1 = name :=
          String.le_antisymm (String.not_lt.1 hge) (String.not_lt.1 hle)
        by_cases hother : other = name
        · simp [lookup, hother, heq]
        · have hne : e.1 ≠ other := fun h => hother (by rw [← h, heq])
          simp [lookup, hother, hne]

theorem lookup_of_mem {e : String × α} {es : List (String × α)}
    (h : es.Pairwise fun a b => a.1 < b.1) (he : e ∈ es) : lookup e.1 es = some e.2 := by
  induction es with
  | nil => simp at he
  | cons x es ih =>
    obtain ⟨hx, hes⟩ := List.pairwise_cons.1 h
    rcases List.mem_cons.1 he with rfl | he
    · simp [lookup]
    · have hlt := hx e he
      have hne : x.1 ≠ e.1 := ne_of_lt hlt
      simp [lookup, hne, ih hes he]

theorem mem_of_lookup {name : String} {v : α} {es : List (String × α)}
    (h : lookup name es = some v) : (name, v) ∈ es := by
  induction es with
  | nil => simp [lookup] at h
  | cons x es ih =>
    unfold lookup at h
    split at h
    · rename_i heq
      simp only [Option.some.injEq] at h
      simp [← heq, ← h]
    · exact List.mem_cons_of_mem _ (ih h)

/-! ## The view of a map -/

@[simp]
theorem get?_empty (name : String) : (empty : NameMap α).get? name = none := rfl

theorem get?_alter (m : NameMap α) (name other : String) (f : Option α → α) :
    (m.alter name f).get? other = if other = name then some (f (m.get? name)) else m.get? other :=
  lookup_place m.ascending

@[simp]
theorem get?_alter_self (m : NameMap α) (name : String) (f : Option α → α) :
    (m.alter name f).get? name = some (f (m.get? name)) := by
  simp [get?_alter]

/-- The value that is put in is found again. -/
theorem get?_insert (m : NameMap α) (name other : String) (v : α) :
    (m.insert name v).get? other = if other = name then some v else m.get? other :=
  get?_alter m name other _

/-- A fold of changes shows under each name the changes of that name, one after the other. -/
theorem get?_foldl_alter {ε : Type} (key : ε → String) (f : ε → Option α → α) (es : List ε)
    (m : NameMap α) (name : String) :
    (es.foldl (fun m e => m.alter (key e) (f e)) m).get? name =
      (es.filter fun e => key e = name).foldl (fun old e => some (f e old)) (m.get? name) := by
  induction es generalizing m with
  | nil => rfl
  | cons e es ih =>
    rw [List.foldl_cons, ih, get?_alter, List.filter_cons]
    by_cases he : key e = name
    · simp [he]
    · simp [he, Ne.symm he]

@[simp]
theorem get?_map (f : α → β) (m : NameMap α) (name : String) :
    (m.map f).get? name = (m.get? name).map f := by
  obtain ⟨es, h⟩ := m
  simp only [get?, map]
  clear h
  induction es with
  | nil => rfl
  | cons e es ih =>
    simp only [List.map_cons, lookup]
    split
    · rfl
    · exact ih

theorem mem_entries_iff {m : NameMap α} {name : String} {v : α} :
    (name, v) ∈ m.entries ↔ m.get? name = some v :=
  ⟨fun h => lookup_of_mem m.ascending h, fun h => mem_of_lookup h⟩

/-- What holds of all values, and of the value that is put under a name, holds of all values. -/
theorem forall_entries_alter {p : α → Prop} {m : NameMap α} {name : String}
    {f : Option α → α} (h : ∀ e ∈ m.entries, p e.2) (hf : p (f (m.get? name))) :
    ∀ e ∈ (m.alter name f).entries, p e.2 := by
  rintro ⟨other, v⟩ he
  rw [mem_entries_iff, get?_alter] at he
  split at he
  · cases he
    exact hf
  · exact h _ (mem_entries_iff.2 he)

theorem mem_keys_iff {m : NameMap α} {name : String} :
    name ∈ m.keys ↔ (m.get? name).isSome = true := by
  rw [Option.isSome_iff_exists]
  constructor
  · intro h
    obtain ⟨⟨_, v⟩, he, rfl⟩ := List.mem_map.1 h
    exact ⟨v, mem_entries_iff.1 he⟩
  · rintro ⟨v, hv⟩
    exact List.mem_map_of_mem (mem_entries_iff.2 hv)

theorem mem_values_iff {m : NameMap α} {v : α} :
    v ∈ m.values ↔ ∃ name, m.get? name = some v := by
  constructor
  · intro h
    obtain ⟨⟨name, v⟩, he, rfl⟩ := List.mem_map.1 h
    exact ⟨name, mem_entries_iff.1 he⟩
  · rintro ⟨name, hv⟩
    exact List.mem_map_of_mem (mem_entries_iff.2 hv)

theorem mem_keys_alter {m : NameMap α} {name other : String} {f : Option α → α} :
    other ∈ (m.alter name f).keys ↔ other = name ∨ other ∈ m.keys := by
  rw [mem_keys_iff, mem_keys_iff, get?_alter]
  split
  · rename_i h
    simp [h]
  · rename_i h
    simp [h]

/-- Only a value that passes the test is found. -/
theorem get?_filter (p : String → α → Bool) (m : NameMap α) (name : String) :
    (m.filter p).get? name = (m.get? name).filter (p name) := by
  refine Option.ext fun v => ?_
  rw [Option.filter_eq_some_iff, ← mem_entries_iff, ← mem_entries_iff]
  exact List.mem_filter

/-- In a list that has each name once, every value is found under its name. -/
theorem get?_ofList_eq_some_iff {es : List (String × α)} (h : (es.map (·.1)).Nodup) {name : String}
    {v : α} : (ofList es).get? name = some v ↔ (name, v) ∈ es := by
  have hfold : ∀ (es : List (String × α)) (m : NameMap α), (es.map (·.1)).Nodup →
      ((es.foldl (fun m e => m.insert e.1 e.2) m).get? name = some v ↔
        (name, v) ∈ es ∨ name ∉ es.map (·.1) ∧ m.get? name = some v) := by
    intro es
    induction es with
    | nil => simp
    | cons e es ih =>
      intro m hes
      rw [List.map_cons, List.nodup_cons] at hes
      rw [List.foldl_cons, ih _ hes.2, get?_insert, List.mem_cons, List.map_cons, List.mem_cons]
      by_cases hname : name = e.1
      · subst hname
        have hmem : (e.1, v) ∉ es := fun hmem =>
          hes.1 (List.mem_map.2 ⟨_, hmem, rfl⟩)
        simp [hes.1, hmem, Prod.ext_iff, eq_comm]
      · simp [hname, Prod.ext_iff]
  rw [ofList, hfold es empty h]
  simp

/-- In a list with one value for all names, that value is found under them. -/
theorem get?_ofList_const {ε : Type} (key : ε → String) (v : α) (xs : List ε) (name : String) :
    (ofList (xs.map fun x => (key x, v))).get? name =
      if name ∈ xs.map key then some v else none := by
  have hfold : ∀ (xs : List ε) (m : NameMap α),
      ((xs.map fun x => (key x, v)).foldl (fun m e => m.insert e.1 e.2) m).get? name =
        if name ∈ xs.map key then some v else m.get? name := by
    intro xs
    induction xs with
    | nil => simp
    | cons x xs ih =>
      intro m
      rw [List.map_cons, List.foldl_cons, ih, get?_insert, List.map_cons]
      by_cases hname : name = key x
      · simp [hname]
      · simp [hname]
  exact hfold xs empty

theorem mem_keys_foldl_alter {ε : Type} {key : ε → String} {f : ε → Option α → α} {es : List ε}
    {m : NameMap α} {name : String} :
    name ∈ (es.foldl (fun m e => m.alter (key e) (f e)) m).keys ↔
      name ∈ es.map key ∨ name ∈ m.keys := by
  induction es generalizing m with
  | nil => simp
  | cons e es ih =>
    rw [List.foldl_cons, ih, mem_keys_alter, List.map_cons, List.mem_cons, or_left_comm, or_assoc]

theorem mem_keys_ofList {es : List (String × α)} {name : String} :
    name ∈ (ofList es).keys ↔ name ∈ es.map (·.1) := by
  rw [ofList]
  unfold insert
  rw [mem_keys_foldl_alter]
  exact or_iff_left fun hname => by cases hname

/-- A table of tables has a place for each entry that is put into it, next to those it had. -/
theorem mem_keys_get?_foldl_alter {ε : Type} {row column : ε → String} {value : ε → α}
    {es : List ε} {m : NameMap (NameMap α)} {name : String} {t : NameMap α}
    (h : (es.foldl (fun m e => m.alter (row e) fun old =>
      (old.getD .empty).insert (column e) (value e)) m).get? name = some t) {other : String} :
    other ∈ t.keys ↔ (∃ e ∈ es, row e = name ∧ column e = other) ∨
      other ∈ ((m.get? name).getD .empty).keys := by
  induction es generalizing m with
  | nil =>
    rw [List.foldl_nil] at h
    simp [h]
  | cons e es ih =>
    rw [ih h, get?_alter]
    by_cases hrow : name = row e
    · rw [if_pos hrow, Option.getD_some, insert, mem_keys_alter, ← hrow]
      simp only [List.mem_cons, exists_eq_or_imp, ← hrow, true_and, eq_comm (a := other)]
      rw [or_left_comm, or_assoc]
    · rw [if_neg hrow]
      simp only [List.mem_cons, exists_eq_or_imp, Ne.symm hrow, false_and, false_or]

theorem nodup_keys (m : NameMap α) : m.keys.Nodup :=
  List.pairwise_map.2 (m.ascending.imp fun h => ne_of_lt h)

theorem ext_get? {m n : NameMap α} (h : ∀ name, m.get? name = n.get? name) : m = n := by
  have hmem : ∀ e, e ∈ m.entries ↔ e ∈ n.entries := fun e => by
    rw [show e = (e.1, e.2) from rfl, mem_entries_iff, mem_entries_iff, h]
  obtain ⟨es, hes⟩ := m
  obtain ⟨fs, hfs⟩ := n
  have heq : es = fs := by
    clear h
    simp only at hmem
    induction es generalizing fs with
    | nil =>
      cases fs with
      | nil => rfl
      | cons f fs => exact absurd ((hmem f).2 (by simp)) (by simp)
    | cons e es ih =>
      cases fs with
      | nil => exact absurd ((hmem e).1 (by simp)) (by simp)
      | cons f fs =>
        obtain ⟨he, hes'⟩ := List.pairwise_cons.1 hes
        obtain ⟨hf, hfs'⟩ := List.pairwise_cons.1 hfs
        have hhead : e = f := by
          rcases List.mem_cons.1 ((hmem e).1 (by simp)) with h1 | h1
          · exact h1
          · rcases List.mem_cons.1 ((hmem f).2 (by simp)) with h2 | h2
            · exact h2.symm
            · exact absurd (String.lt_trans (hf e h1) (he f h2)) (String.lt_irrefl _)
        subst hhead
        have htail : es = fs := by
          refine ih hes' fs hfs' fun x => ⟨fun hx => ?_, fun hx => ?_⟩
          · rcases List.mem_cons.1 ((hmem x).1 (List.mem_cons_of_mem _ hx)) with h1 | h1
            · exact absurd (he x hx) (by rw [h1]; exact String.lt_irrefl _)
            · exact h1
          · rcases List.mem_cons.1 ((hmem x).2 (List.mem_cons_of_mem _ hx)) with h1 | h1
            · exact absurd (hf x hx) (by rw [h1]; exact String.lt_irrefl _)
            · exact h1
        rw [htail]
  subst heq
  rfl

/-- Maps with the same names are the same if they are up to a value for names without one. -/
theorem ext_getD {m n : NameMap α} {fallback : α} (hkeys : ∀ name, name ∈ m.keys ↔ name ∈ n.keys)
    (hget : ∀ name, (m.get? name).getD fallback = (n.get? name).getD fallback) : m = n := by
  apply ext_get?
  intro name
  have hname := hkeys name
  have hvalue := hget name
  rw [mem_keys_iff, mem_keys_iff] at hname
  cases hm : m.get? name <;> cases hn : n.get? name <;> simp_all

/-- A map is built again from its entries. -/
theorem ofList_entries (m : NameMap α) : ofList m.entries = m :=
  ext_get? fun name => Option.ext fun v => by
    rw [get?_ofList_eq_some_iff m.nodup_keys, mem_entries_iff]

/-! ## Mapping the values -/

theorem keys_map (f : α → β) (m : NameMap α) : (m.map f).keys = m.keys := by
  rw [keys, map, List.map_map]
  rfl

theorem values_map (f : α → β) (m : NameMap α) : (m.map f).values = m.values.map f := by
  rw [values, map, values, List.map_map, List.map_map]
  rfl

/-- A value may be mapped before it is changed if the change commutes with that. -/
theorem map_alter {g : α → β} {f : Option α → α} {f' : Option β → β}
    (h : ∀ old, g (f old) = f' (old.map g)) (m : NameMap α) (name : String) :
    (m.alter name f).map g = (m.map g).alter name f' := by
  refine ext_get? fun other => ?_
  rw [get?_map, get?_alter, get?_alter, get?_map, get?_map]
  split
  · rw [Option.map_some, h]
  · rfl

theorem map_foldl_alter {ε : Type} {key : ε → String} {g : α → β} {f : ε → Option α → α}
    {f' : ε → Option β → β} (h : ∀ e old, g (f e old) = f' e (old.map g)) (es : List ε)
    (m : NameMap α) :
    (es.foldl (fun m e => m.alter (key e) (f e)) m).map g =
      es.foldl (fun m e => m.alter (key e) (f' e)) (m.map g) := by
  induction es generalizing m with
  | nil => rfl
  | cons e es ih => rw [List.foldl_cons, List.foldl_cons, ih, map_alter (h e)]

/-! ## Merging maps -/

/-- Each name is listed once. -/
theorem filter_entries_name (m : NameMap α) (name : String) :
    m.entries.filter (fun e => e.1 = name) = (m.get? name).toList.map fun v => (name, v) := by
  obtain ⟨es, hes⟩ := m
  rw [get?]
  dsimp only
  induction es with
  | nil => rfl
  | cons e es ih =>
    obtain ⟨he, hes'⟩ := List.pairwise_cons.1 hes
    rw [List.filter_cons, ih hes', lookup]
    by_cases hname : e.1 = name
    · subst hname
      simp [lookup_of_lower he]
    · simp [hname]

theorem get?_mergeWith (f : α → α → α) (m n : NameMap α) (name : String) :
    (m.mergeWith f n).get? name = Option.merge f (m.get? name) (n.get? name) := by
  rw [mergeWith, get?_foldl_alter, filter_entries_name]
  cases n.get? name with
  | none => simp
  | some v => cases m.get? name <;> rfl

@[simp]
theorem empty_mergeWith (f : α → α → α) (m : NameMap α) : empty.mergeWith f m = m :=
  ext_get? fun name => by simp [get?_mergeWith]

theorem mem_keys_mergeWith {f : α → α → α} {m n : NameMap α} {name : String} :
    name ∈ (m.mergeWith f n).keys ↔ name ∈ m.keys ∨ name ∈ n.keys := by
  rw [mem_keys_iff, mem_keys_iff, mem_keys_iff, get?_mergeWith]
  cases m.get? name <;> cases n.get? name <;> simp

theorem forall_entries_mergeWith {p : α → Prop} {f : α → α → α}
    {m n : NameMap α} (hm : ∀ e ∈ m.entries, p e.2) (hn : ∀ e ∈ n.entries, p e.2)
    (hf : ∀ name old new, m.get? name = some old → n.get? name = some new → p (f old new)) :
    ∀ e ∈ (m.mergeWith f n).entries, p e.2 := by
  rintro ⟨name, v⟩ he
  rw [mem_entries_iff, get?_mergeWith] at he
  cases hold : m.get? name with
  | none =>
    cases hnew : n.get? name with
    | none =>
      rw [hold, hnew] at he
      cases he
    | some new =>
      rw [hold, hnew] at he
      cases he
      exact hn _ (mem_entries_iff.2 hnew)
  | some old =>
    cases hnew : n.get? name with
    | none =>
      rw [hold, hnew] at he
      cases he
      exact hm _ (mem_entries_iff.2 hold)
    | some new =>
      rw [hold, hnew] at he
      cases he
      exact hf name old new hold hnew

end NameMap

/-- Adding the names of a set joins the sets. -/
theorem NameSet.addNames_keys (s t : NameSet) :
    NameSet.addNames s t.keys = NameMap.mergeWith (fun _ _ => ()) s t := by
  rw [addNames, NameMap.keys, List.foldl_map]
  rfl

end EffortRank
