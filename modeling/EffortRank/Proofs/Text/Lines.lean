import EffortRank.Text.Basic
import Mathlib.Data.List.Basic

/-!
# Texts that spell lines

`Spells ls text` says that a text is written line by line: each line is followed by a line feed, or
by a carriage return and a line feed, and the ending of a last line that is not empty may be
missing. `lines` reads such a text back (`Spells.lines_eq`). Whole lines are read apart from what
stands behind them (`lines_append`).
-/

namespace EffortRank.Text

/-- The text consists of the given lines, each with its ending. -/
inductive Spells : List Line → List Char → Prop where
  | nil : Spells [] []
  | last {line : Line} : '\n' ∉ line → line ≠ [] → Spells [line] line
  | feed {line : Line} {ls : List Line} {text : List Char} :
      '\n' ∉ line → line.getLast? ≠ some '\r' → Spells ls text →
      Spells (line :: ls) (line ++ '\n' :: text)
  | returnFeed {line : Line} {ls : List Line} {text : List Char} :
      '\n' ∉ line → Spells ls text → Spells (line :: ls) (line ++ '\r' :: '\n' :: text)

theorem lines_cons {c : Char} {cs : List Char} (hfeed : c ≠ '\n')
    (hreturn : c = '\r' → cs.head? ≠ some '\n') : lines (c :: cs) = consLine c (lines cs) := by
  rw [lines.eq_def]
  split
  · rename_i h
    cases h
  · rename_i h
    rw [List.cons.injEq] at h
    exact absurd h.1 hfeed
  · rename_i h
    rw [List.cons.injEq] at h
    exact absurd (by rw [h.2]; rfl) (hreturn h.1)
  · rename_i h
    rw [List.cons.injEq] at h
    rw [h.1, h.2]

theorem lines_of_line {line : Line} (hfeed : '\n' ∉ line) (hne : line ≠ []) :
    lines line = [line] := by
  induction line with
  | nil => exact absurd rfl hne
  | cons c cs ih =>
    rw [List.mem_cons, not_or] at hfeed
    have hhead : cs.head? ≠ some '\n' := fun h => hfeed.2 (List.mem_of_head? h)
    rw [lines_cons (Ne.symm hfeed.1) fun _ => hhead]
    cases cs with
    | nil => rfl
    | cons d ds => rw [ih hfeed.2 (by simp)]; rfl

theorem lines_append_feed {line : Line} {text : List Char} (hfeed : '\n' ∉ line)
    (hreturn : line.getLast? ≠ some '\r') :
    lines (line ++ '\n' :: text) = line :: lines text := by
  induction line with
  | nil => rw [List.nil_append, lines]
  | cons c cs ih =>
    rw [List.mem_cons, not_or] at hfeed
    rw [List.cons_append]
    cases cs with
    | nil =>
      have hc : c ≠ '\r' := fun h => hreturn (by rw [h]; rfl)
      rw [lines_cons (Ne.symm hfeed.1) fun h => absurd h hc, List.nil_append, lines]
      rfl
    | cons d ds =>
      have hhead : (d :: ds ++ '\n' :: text).head? ≠ some '\n' := by
        intro h
        rw [List.cons_append, List.head?_cons, Option.some.injEq] at h
        exact hfeed.2 (by rw [h]; exact List.mem_cons_self)
      rw [lines_cons (Ne.symm hfeed.1) fun _ => hhead, ih hfeed.2 (by simpa using hreturn)]
      rfl

/-- A carriage return in front of the line feed belongs to the ending. -/
theorem lines_append_returnFeed {line : Line} {text : List Char} (hfeed : '\n' ∉ line) :
    lines (line ++ '\r' :: '\n' :: text) = line :: lines text := by
  induction line with
  | nil => rw [List.nil_append, lines]
  | cons c cs ih =>
    rw [List.mem_cons, not_or] at hfeed
    have hhead : (cs ++ '\r' :: '\n' :: text).head? ≠ some '\n' := by
      cases cs with
      | nil => simp
      | cons d ds =>
        intro h
        rw [List.cons_append, List.head?_cons, Option.some.injEq] at h
        exact hfeed.2 (by rw [h]; exact List.mem_cons_self)
    rw [List.cons_append, lines_cons (Ne.symm hfeed.1) fun _ => hhead, ih hfeed.2]
    rfl

/-- **Reading lines back**: a text has the lines that it spells. -/
theorem Spells.lines_eq {ls : List Line} {text : List Char} (h : Spells ls text) :
    lines text = ls := by
  induction h with
  | nil => rfl
  | last hfeed hne => exact lines_of_line hfeed hne
  | feed hfeed hreturn _ ih => rw [lines_append_feed hfeed hreturn, ih]
  | returnFeed hfeed _ ih => rw [lines_append_returnFeed hfeed, ih]

theorem spells_feeds {ls : List Line} (h : ∀ line ∈ ls, '\n' ∉ line ∧ line.getLast? ≠ some '\r') :
    Spells ls (ls.flatMap (· ++ ['\n'])) := by
  induction ls with
  | nil => exact .nil
  | cons line ls ih =>
    have hline := h line List.mem_cons_self
    have hrest := ih fun line hline => h line (List.mem_cons_of_mem _ hline)
    rw [List.flatMap_cons, List.append_assoc, List.singleton_append]
    exact .feed hline.1 hline.2 hrest

/-! ## Texts behind texts -/

theorem consLine_ne_nil (c : Char) (ls : List Line) : consLine c ls ≠ [] := by
  cases ls <;> simp [consLine]

theorem lines_ne_nil {text : List Char} (h : text ≠ []) : lines text ≠ [] := by
  rw [lines.eq_def]
  split
  · exact absurd rfl h
  · exact List.cons_ne_nil _ _
  · exact List.cons_ne_nil _ _
  · exact consLine_ne_nil _ _

theorem consLine_append (c : Char) {ls : List Line} (h : ls ≠ []) (ls' : List Line) :
    consLine c (ls ++ ls') = consLine c ls ++ ls' := by
  cases ls with
  | nil => exact absurd rfl h
  | cons line ls => rfl

/-- A text that ends with a line feed consists of whole lines, so what follows starts a new one. -/
theorem lines_append {text : List Char} (hended : text.getLast? = some '\n') (rest : List Char) :
    lines (text ++ rest) = lines text ++ lines rest := by
  induction text using lines.induct with
  | case1 => cases hended
  | case2 cs ih =>
    rw [List.cons_append, lines, lines, List.cons_append]
    cases cs with
    | nil => rfl
    | cons c cs => rw [ih (by simpa using hended)]
  | case3 cs ih =>
    rw [List.cons_append, List.cons_append, lines, lines, List.cons_append]
    cases cs with
    | nil => rfl
    | cons c cs => rw [ih (by simpa using hended)]
  | case4 c cs hfeed hreturn ih =>
    cases cs with
    | nil =>
      rw [List.getLast?_singleton, Option.some.injEq] at hended
      exact absurd hended hfeed
    | cons d cs =>
      have hhead : c = '\r' → (d :: cs).head? ≠ some '\n' := by
        rintro hc hd
        rw [List.head?_cons, Option.some.injEq] at hd
        exact hreturn cs hc (by rw [hd])
      rw [List.cons_append, lines_cons hfeed (by simpa using hhead), lines_cons hfeed hhead,
        ih (by simpa using hended), consLine_append c (lines_ne_nil (List.cons_ne_nil d cs))]

/-! ## Sizes -/

/-- A text has no more lines than characters. -/
theorem length_lines_le (text : List Char) : (lines text).length ≤ text.length := by
  have hcons : ∀ (c : Char) (ls : List Line), (consLine c ls).length ≤ ls.length + 1 := by
    intro c ls
    cases ls <;> simp [consLine]
  fun_induction lines text with
  | case1 => exact Nat.le_refl 0
  | case2 cs ih => exact Nat.succ_le_succ ih
  | case3 cs ih =>
    rw [List.length_cons, List.length_cons, List.length_cons]
    omega
  | case4 c cs hfeed hreturn ih =>
    have hline := hcons c (lines cs)
    rw [List.length_cons]
    omega

end EffortRank.Text
