/-!
# Numbers of 64 bits

Counts and line numbers are written as unbounded numbers here, but have 64 bits when the program
runs. Where a number could grow beyond them, a computation comes with a test that its numbers fit,
and `fitting` joins the two.

A request whose numbers do not fit is given up. That is not a refusal: it says nothing about the
request but that its numbers are too large. `Halt` tells the two apart.
-/

namespace EffortRank

/-- The largest count, one less than the 64th power of two. -/
def maxCount : Nat := 18446744073709551615

def countFits (n : Nat) : Bool := n ≤ maxCount

/-- The largest line number, one less than the 63rd power of two. -/
def maxLineNumber : Int := 9223372036854775807

/-- The line number has 64 bits, one of them for its sign. -/
def lineFits (n : Int) : Bool := -maxLineNumber - 1 ≤ n && n ≤ maxLineNumber

def total (counts : List Nat) : Nat := counts.foldr (fun n rest => n + rest) 0

/-- The result of a computation, if its numbers fit. -/
def fitting {α : Type} (fits : Bool) (x : α) : Option α := if fits then some x else none

/-- Why a request has no result: it is refused for a reason, or its numbers do not fit. -/
inductive Halt (ε : Type) where
  | refused (reason : ε)
  | overflow
deriving DecidableEq, Repr

namespace Halt

variable {ε φ α : Type}

def map (f : ε → φ) : Halt ε → Halt φ
  | .refused reason => .refused (f reason)
  | .overflow => .overflow

/-- A result that is missing only where numbers do not fit. -/
def ofFitting : Option α → Except (Halt ε) α
  | some x => .ok x
  | none => .error .overflow

/-- A result that is missing only where the request is refused. -/
def ofChecked : Except ε α → Except (Halt ε) α := Except.mapError .refused

end Halt

@[simp] theorem fitting_true {α : Type} (x : α) : fitting true x = some x := rfl

@[simp] theorem fitting_eq_some_iff {α : Type} {fits : Bool} {x y : α} :
    fitting fits x = some y ↔ fits = true ∧ x = y := by
  cases fits <;> simp [fitting]

theorem lineFits_of_nonneg {n : Int} (hn : 0 ≤ n) (hle : n ≤ maxLineNumber) :
    lineFits n = true := by
  rw [lineFits, Bool.and_eq_true, decide_eq_true_eq, decide_eq_true_eq]
  rw [maxLineNumber] at hle ⊢
  omega

/-! ## Steps that have a result -/

section

variable {ε φ α β : Type}

/-- A step behind another has a result if both have one. -/
theorem bind_eq_ok_iff {x : Except ε α} {f : α → Except ε β} {b : β} :
    (x >>= f) = .ok b ↔ ∃ a, x = .ok a ∧ f a = .ok b := by
  constructor
  · intro h
    cases x with
    | error e => cases h
    | ok a => exact ⟨a, rfl, h⟩
  · rintro ⟨a, rfl, h⟩
    exact h

/-- What each step for an element of some kind preserves, the steps for a list of such elements
preserve one after the other. -/
theorem foldlM_preserves_of_forall {p : β → Prop} {q : α → Prop} {f : β → α → Except ε β}
    (hstep : ∀ {b b' : β} {a : α}, q a → p b → f b a = .ok b' → p b') {l : List α}
    (hl : ∀ a ∈ l, q a) {b b' : β} (hb : p b) (h : l.foldlM f b = .ok b') : p b' := by
  induction l generalizing b with
  | nil =>
    cases h
    exact hb
  | cons a l ih =>
    rw [List.foldlM_cons, bind_eq_ok_iff] at h
    obtain ⟨c, hfirst, hrest⟩ := h
    rw [List.forall_mem_cons] at hl
    exact ih hl.2 (hstep hl.1 hb hfirst) hrest

theorem foldlM_preserves {p : β → Prop} {f : β → α → Except ε β}
    (hstep : ∀ {b b' : β} {a : α}, p b → f b a = .ok b' → p b') {l : List α} {b b' : β}
    (hb : p b) (h : l.foldlM f b = .ok b') : p b' :=
  foldlM_preserves_of_forall (q := fun _ => True) (fun _ => hstep) (fun _ _ => trivial) hb h

theorem mapError_eq_ok_iff {x : Except ε α} {f : ε → φ} {a : α} :
    x.mapError f = .ok a ↔ x = .ok a := by
  constructor
  · intro h
    cases x with
    | error e => cases h
    | ok b =>
      cases h
      rfl
  · rintro rfl
    rfl

namespace Halt

theorem ofFitting_eq_ok_iff {x : Option α} {a : α} :
    (ofFitting x : Except (Halt ε) α) = .ok a ↔ x = some a := by
  cases x <;> simp [ofFitting]

theorem ofChecked_eq_ok_iff {x : Except ε α} {a : α} : ofChecked x = .ok a ↔ x = .ok a :=
  mapError_eq_ok_iff

end Halt

end

end EffortRank
