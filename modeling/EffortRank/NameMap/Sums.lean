import EffortRank.NameMap.Lemmas
import Mathlib

/-!
# Sums over a map

`sumOf` adds up numbers that depend on the names and values of a map. When one value changes, the
sum changes by what the value counted for (`sumOf_alter`). A sum over the values of a map is one
over names (`sum_values_eq`), for which it does not matter whether the map has a value for each.
-/

namespace EffortRank

namespace NameMap

variable {α β : Type}

def sumOf (w : String → α → Nat) (m : NameMap α) : Nat := (m.entries.map fun e => w e.1 e.2).sum

theorem le_sumOf (w : String → α → Nat) {m : NameMap α} {e : String × α} (he : e ∈ m.entries) :
    w e.1 e.2 ≤ m.sumOf w :=
  List.le_sum_of_mem (List.mem_map_of_mem he)

theorem sumOf_map (w : String → β → Nat) (f : α → β) (m : NameMap α) :
    (m.map f).sumOf w = m.sumOf fun name v => w name (f v) := by
  rw [sumOf, map, List.map_map]
  rfl

/-- In a sum over one name only its value counts. -/
theorem sumOf_ite (w : α → Nat) (m : NameMap α) (name : String) :
    m.sumOf (fun other v => if other = name then w v else 0) = (m.get? name).elim 0 w := by
  rw [sumOf, List.sum_map_ite, filter_entries_name, List.map_map]
  cases m.get? name <;> simp

/-- What was there before no longer counts, and what is there now does. -/
theorem sumOf_alter (w : String → α → Nat) (m : NameMap α) (name : String) (f : Option α → α) :
    (m.alter name f).sumOf w + (m.get? name).elim 0 (w name) =
      m.sumOf w + w name (f (m.get? name)) := by
  obtain ⟨es, hes⟩ := m
  unfold sumOf alter get?
  dsimp only
  induction es with
  | nil => simp [place, lookup]
  | cons e es ih =>
    obtain ⟨-, hes'⟩ := List.pairwise_cons.1 hes
    rw [place]
    split
    · rename_i hlt
      rw [lookup_eq_none_of_lt hes hlt, List.map_cons, List.sum_cons]
      dsimp only [Option.elim_none]
      omega
    · split
      · rename_i hlt
        have hrest := ih hes'
        rw [lookup, if_neg (ne_of_lt hlt), List.map_cons, List.map_cons, List.sum_cons,
          List.sum_cons]
        omega
      · rename_i hge hle
        have heq : e.1 = name := String.le_antisymm (String.not_lt.1 hge) (String.not_lt.1 hle)
        rw [lookup, if_pos heq, heq, List.map_cons, List.map_cons, List.sum_cons, List.sum_cons]
        dsimp only [Option.elim_some]
        rw [heq]
        omega

/-- If each change of a fold adds a number, so does the fold. -/
theorem sumOf_foldl_alter {ε : Type} (w : String → α → Nat) (key : ε → String)
    (f : ε → Option α → α) (count : ε → Nat)
    (hf : ∀ e old, w (key e) (f e old) = old.elim 0 (w (key e)) + count e) (es : List ε)
    (m : NameMap α) :
    (es.foldl (fun m e => m.alter (key e) (f e)) m).sumOf w = m.sumOf w + (es.map count).sum := by
  induction es generalizing m with
  | nil => rfl
  | cons e es ih =>
    have hfirst := sumOf_alter w m (key e) (f e)
    rw [hf] at hfirst
    rw [List.foldl_cons, ih, List.map_cons, List.sum_cons]
    omega

/-- If old values stay, merging puts in the entries with a new name. -/
theorem mergeWith_left (m n : NameMap α) :
    m.mergeWith (fun old _ => old) n = n.entries.foldl (fun m e => m.insertNew e.1 e.2) m := by
  rw [mergeWith]
  refine congrArg (fun step => n.entries.foldl step m) (funext fun m => funext fun e => ?_)
  refine congrArg (m.alter e.1) (funext fun old => ?_)
  cases old <;> rfl

theorem sumOf_insertNew (w : String → α → Nat) (m : NameMap α) (name : String) (v : α) :
    (m.insertNew name v).sumOf w =
      m.sumOf w + if (m.get? name).isSome then 0 else w name v := by
  have hsum := sumOf_alter w m name fun old => old.getD v
  rw [insertNew]
  cases hget : m.get? name with
  | none => simpa [hget] using hsum
  | some old => simpa [hget] using hsum

/-- If old values stay, the names that have one count for nothing in the other map. -/
theorem sumOf_mergeWith_left (w : String → α → Nat) (m n : NameMap α) :
    (m.mergeWith (fun old _ => old) n).sumOf w =
      m.sumOf w + n.sumOf fun name v => if (m.get? name).isSome then 0 else w name v := by
  have hfold : ∀ es : List (String × α), (es.Pairwise fun a b => a.1 < b.1) → ∀ m : NameMap α,
      (es.foldl (fun m e => m.insertNew e.1 e.2) m).sumOf w =
        m.sumOf w + (es.map fun e => if (m.get? e.1).isSome then 0 else w e.1 e.2).sum := by
    intro es hes
    induction es with
    | nil =>
      intro m
      rfl
    | cons e es ih =>
      intro m
      obtain ⟨he, hes'⟩ := List.pairwise_cons.1 hes
      -- The entry that is put in first has none of the other names.
      have hother : ∀ x ∈ es, (m.insertNew e.1 e.2).get? x.1 = m.get? x.1 := by
        intro x hx
        rw [insertNew, get?_alter, if_neg (ne_of_lt (he x hx)).symm]
      have hrest : (es.map fun x => if ((m.insertNew e.1 e.2).get? x.1).isSome then 0
          else w x.1 x.2) = es.map fun x => if (m.get? x.1).isSome then 0 else w x.1 x.2 := by
        apply List.map_congr_left
        intro x hx
        rw [hother x hx]
      rw [List.foldl_cons, ih hes', sumOf_insertNew, hrest, List.map_cons, List.sum_cons]
      exact Nat.add_assoc _ _ _
  rw [mergeWith_left]
  exact hfold n.entries n.ascending m

/-! ## Sums over names -/

section Names

variable {M : Type} [AddCommMonoid M]

/-- A sum over the values of a map is one over any names that contain its own. -/
theorem sum_values_eq (φ : α → M) {m : NameMap α} {names : Finset String}
    (hkeys : ∀ name ∈ m.keys, name ∈ names) :
    (m.values.map φ).sum = ∑ name ∈ names, (m.get? name).elim 0 φ := by
  have hothers : ∀ name ∈ names, name ∉ m.keys.toFinset → (m.get? name).elim 0 φ = 0 := by
    intro name _ hname
    rw [List.mem_toFinset, mem_keys_iff, Option.not_isSome_iff_eq_none] at hname
    rw [hname, Option.elim_none]
  rw [← Finset.sum_subset (fun name hname => hkeys name (List.mem_toFinset.1 hname)) hothers,
    List.sum_toFinset _ m.nodup_keys, keys, values, List.map_map, List.map_map]
  refine congrArg List.sum (List.map_congr_left fun e he => ?_)
  have hget : m.get? e.1 = some e.2 := mem_entries_iff.1 he
  rw [Function.comp_apply, Function.comp_apply, hget, Option.elim_some]

theorem sum_values {m : NameMap M} {names : Finset String} (hkeys : ∀ name ∈ m.keys, name ∈ names) :
    m.values.sum = ∑ name ∈ names, (m.get? name).getD 0 := by
  rw [← List.map_id m.values, sum_values_eq id hkeys]
  refine Finset.sum_congr rfl fun name _ => ?_
  cases m.get? name <;> rfl

/-- A fold of additions shows under each name what was added there. -/
theorem getD_get?_foldl_alter_add {ε : Type} (key : ε → String) (r : ε → M) (es : List ε)
    (m : NameMap M) (name : String) :
    ((es.foldl (fun m e => m.alter (key e) fun old => old.getD 0 + r e) m).get? name).getD 0 =
      (m.get? name).getD 0 + (es.map fun e => if key e = name then r e else 0).sum := by
  induction es generalizing m with
  | nil => simp
  | cons e es ih =>
    rw [List.foldl_cons, ih, get?_alter, List.map_cons, List.sum_cons, ← add_assoc]
    by_cases hname : name = key e
    · rw [if_pos hname, if_pos hname.symm, hname, Option.getD_some]
    · rw [if_neg hname, if_neg (Ne.symm hname), add_zero]

end Names

end NameMap

end EffortRank
