import Mathlib.Data.List.Basic

/-!
Contract: properly nested brackets, and the bracket that closes one.

Owns: `Nested`, that an opening bracket of a nested word is closed in it
(`exists_closing`), and a check of a word (`closesAll`).

Tokens are any type; `closes` gives an opening token the one that closes it.
-/

namespace Nmas.Brackets

variable {Token : Type} {closes : Token → Option Token} {isClose : Token → Bool}

/-- A word in which every bracket that opens is closed by its own. -/
inductive Nested (closes : Token → Option Token) (isClose : Token → Bool) : List Token → Prop where
  | nil : Nested closes isClose []
  | plain (token : Token) (rest : List Token) (opensNone : closes token = none)
      (closesNone : isClose token = false) (nested : Nested closes isClose rest) :
      Nested closes isClose (token :: rest)
  | group (opening closing : Token) (inner rest : List Token)
      (isClosed : closes opening = some closing) (closed : Nested closes isClose inner)
      (nested : Nested closes isClose rest) :
      Nested closes isClose (opening :: (inner ++ closing :: rest))

/-- What opens a bracket closes none, and what closes one opens none. -/
structure Apart (closes : Token → Option Token) (isClose : Token → Bool) : Prop where
  opening : ∀ token closing, closes token = some closing → isClose token = false
  closing : ∀ token closing, closes token = some closing →
    isClose closing = true ∧ closes closing = none

variable {inner rest before after : List Token} {token opening closing : Token}

theorem Nested.exists_closing (apart : Apart closes isClose) {word : List Token}
    (nested : Nested closes isClose word) (isClosed : closes opening = some closing)
    (isWord : word = before ++ opening :: rest) :
    ∃ inner after, rest = inner ++ closing :: after ∧ Nested closes isClose inner := by
  induction nested generalizing before rest with
  | nil => cases before <;> cases isWord
  | plain token others opensNone _ _ ih =>
    cases before with
    | nil =>
      cases isWord
      cases opensNone.symm.trans isClosed
    | cons first before =>
      rw [List.cons_append, List.cons.injEq] at isWord
      exact ih isWord.2
  | group first last within others isPair closed _ innerHypothesis restHypothesis =>
    cases before with
    | nil =>
      rw [List.nil_append, List.cons.injEq] at isWord
      obtain ⟨rfl, rfl⟩ := isWord
      rw [isPair, Option.some.injEq] at isClosed
      subst isClosed
      exact ⟨within, others, rfl, closed⟩
    | cons head before =>
      rw [List.cons_append, List.cons.injEq] at isWord
      rcases List.append_eq_append_iff.mp isWord.2 with
        ⟨more, isBefore, isRest⟩ | ⟨more, isWithin, isRest⟩
      · cases more with
        | nil =>
          rw [List.nil_append, List.cons.injEq] at isRest
          have opensNone := (apart.closing _ _ isPair).2
          rw [isRest.1, isClosed] at opensNone
          cases opensNone
        | cons found more =>
          rw [List.cons_append, List.cons.injEq] at isRest
          exact restHypothesis isRest.2
      · cases more with
        | nil =>
          rw [List.nil_append, List.cons.injEq] at isRest
          have opensNone := (apart.closing _ _ isPair).2
          rw [← isRest.1, isClosed] at opensNone
          cases opensNone
        | cons found more =>
          rw [List.cons_append, List.cons.injEq] at isRest
          obtain ⟨rfl, rfl⟩ := isRest
          obtain ⟨inner, after, rfl, isNested⟩ := innerHypothesis isWithin
          exact ⟨inner, after ++ last :: others, by simp, isNested⟩

/-! ## A check -/

def Splits (closes : Token → Option Token) (isClose : Token → Bool) : List Token → List Token → Prop
  | [], word => Nested closes isClose word
  | closing :: stack, word =>
    ∃ inner rest, word = inner ++ closing :: rest ∧ Nested closes isClose inner ∧
      Splits closes isClose stack rest

theorem splits_plain {stack word : List Token} (opensNone : closes token = none)
    (closesNone : isClose token = false) (splits : Splits closes isClose stack word) :
    Splits closes isClose stack (token :: word) := by
  cases stack with
  | nil => exact Nested.plain token word opensNone closesNone splits
  | cons closing stack =>
    obtain ⟨inner, rest, rfl, nested, others⟩ := splits
    have isNested := Nested.plain token inner opensNone closesNone nested
    exact ⟨token :: inner, rest, rfl, isNested, others⟩

theorem splits_group {stack word : List Token} (isClosed : closes opening = some closing)
    (splits : Splits closes isClose (closing :: stack) word) :
    Splits closes isClose stack (opening :: word) := by
  obtain ⟨inner, rest, rfl, nested, others⟩ := splits
  cases stack with
  | nil => exact Nested.group opening closing inner rest isClosed nested others
  | cons last stack =>
    obtain ⟨behind, after, rfl, behindNested, splits⟩ := others
    refine ⟨opening :: (inner ++ closing :: behind), after, by simp, ?_, splits⟩
    exact Nested.group opening closing inner behind isClosed nested behindNested

variable [DecidableEq Token]

def closesAll (closes : Token → Option Token) (isClose : Token → Bool) :
    List Token → List Token → Bool
  | stack, [] => stack.isEmpty
  | stack, token :: rest =>
    match closes token with
    | some closing => closesAll closes isClose (closing :: stack) rest
    | none =>
      if isClose token then
        match stack with
        | [] => false
        | top :: more => token = top && closesAll closes isClose more rest
      else closesAll closes isClose stack rest

theorem splits_of_closesAll {stack word : List Token}
    (checked : closesAll closes isClose stack word) : Splits closes isClose stack word := by
  induction word generalizing stack with
  | nil =>
    rw [closesAll, List.isEmpty_iff] at checked
    subst checked
    exact Nested.nil
  | cons token word ih =>
    unfold closesAll at checked
    cases isOpen : closes token with
    | some closing =>
      simp only [isOpen] at checked
      exact splits_group isOpen (ih checked)
    | none =>
      simp only [isOpen] at checked
      cases isClosing : isClose token with
      | false =>
        simp only [isClosing, Bool.false_eq_true, ↓reduceIte] at checked
        exact splits_plain isOpen isClosing (ih checked)
      | true =>
        cases stack with
        | nil => simp [isClosing] at checked
        | cons top more =>
          simp only [isClosing, ↓reduceIte, Bool.and_eq_true, decide_eq_true_eq] at checked
          obtain ⟨rfl, others⟩ := checked
          exact ⟨[], word, rfl, Nested.nil, ih others⟩

theorem nested_of_closesAll {word : List Token} (checked : closesAll closes isClose [] word) :
    Nested closes isClose word := splits_of_closesAll checked

end Nmas.Brackets
