import Nmas.PromQl.Grammar

/-!
Contract: one token for each value of a question.

Owns: `string`, `literal`, `alternation` and `matcher` of `history_ask.py`, and
that each reads back: a string to its value, an alternation to its values, a
matcher to its label and what it accepts.
-/

namespace Nmas.History

open Nmas.Text Nmas.PromQl List

/-- A character of `string`. -/
def stringChar (c : Char) : Str :=
  if c = '\\' then ['\\', '\\']
  else if c = '"' then ['\\', '"']
  else if isControl c then '\\' :: 'x' :: hexByte c.toNat
  else [c]

def string (value : Str) : Str := '"' :: (value.flatMap stringChar ++ ['"'])

/-- A character of `literal`. -/
def literalChar (c : Char) : Str :=
  if Re2.isMeta c then ['\\', c]
  else if isControl c then '\\' :: 'x' :: '{' :: (hexByte c.toNat ++ ['}'])
  else [c]

def literal (value : Str) : Str := value.flatMap literalChar

def alternation (values : List Str) : Str := ['|'].intercalate (values.map literal)

def matcher (label : Str) (values : List Str) : Str :=
  match values with
  | [value] => label ++ (Sign.equal.text ++ string value)
  | values => label ++ (Sign.regex.text ++ string (alternation values))

variable {value rest : Str} {values : List Str}

/-! ### A string -/

theorem hexByte_plain : ∀ byte < 128, ∀ c ∈ hexByte byte, c ≠ '"' ∧ c ≠ '\\' ∧ c ≠ '\n' := by
  decide +kernel

theorem feeds_stringChar (read : Str) (c : Char) :
    feeds (.quoted read) (stringChar c) = some ([], .quoted (read ++ stringChar c)) := by
  unfold stringChar
  split
  · exact feeds_escaped (by decide)
  · split
    · exact feeds_escaped (by decide)
    · split
      · rename_i control
        have isSlash : feeds (.quoted read) ['\\', 'x'] =
            some ([], .quoted (read ++ ['\\', 'x'])) := feeds_escaped (by decide)
        have isEscape := feeds_append isSlash
          (feeds_quoted (hexByte_plain c.toNat (toNat_of_isControl control)))
        rw [append_assoc] at isEscape
        exact isEscape
      · rename_i notSlash notQuote notControl
        apply feeds_quoted
        intro d isChar
        rw [mem_singleton.mp isChar]
        refine ⟨notQuote, notSlash, ?_⟩
        rintro rfl
        exact notControl rfl

theorem feeds_string (read value : Str) :
    feeds (.quoted read) (value.flatMap stringChar) =
      some ([], .quoted (read ++ value.flatMap stringChar)) := by
  induction value generalizing read with
  | nil =>
    rw [flatMap_nil, append_nil]
    rfl
  | cons c rest ih =>
    rw [flatMap_cons]
    have isBoth := feeds_append (feeds_stringChar read c) (ih _)
    rw [append_assoc] at isBoth
    exact isBoth

theorem unquote_stringChar (c : Char) :
    Go.unquote (stringChar c ++ rest) = (Go.unquote rest).map (c :: ·) := by
  unfold stringChar
  split
  · rename_i isSlash
    rw [isSlash]
    exact Go.unquote_escaped (by decide) rfl
  · split
    · rename_i isQuote
      rw [isQuote]
      exact Go.unquote_escaped (by decide) rfl
    · split
      · rename_i control
        exact Go.unquote_control control
      · rename_i notSlash notQuote notControl
        apply Go.unquote_plain notSlash notQuote
        rintro rfl
        exact notControl rfl

theorem unquote_string (value : Str) : Go.unquote (value.flatMap stringChar) = some value := by
  induction value with
  | nil => rfl
  | cons c rest ih =>
    rw [flatMap_cons, unquote_stringChar, ih]
    rfl

/-! ### An alternation -/

theorem literals_literalChar (c : Char) :
    Re2.literals (literalChar c ++ rest) = (Re2.literals rest).map (Re2.before c) := by
  unfold literalChar
  split
  · rename_i isMeta
    exact Re2.literals_escaped (Re2.isPunctuation_of_isMeta isMeta)
  · split
    · rename_i control
      have isControl : Re2.literals ('\\' :: 'x' :: '{' :: hexByte c.toNat ++ '}' :: rest) =
          (Re2.literals rest).map (Re2.before c) := Re2.literals_control control
      rw [cons_append, cons_append, cons_append, append_assoc]
      exact isControl
    · rename_i notMeta notControl
      exact Re2.literals_plain (Bool.eq_false_iff.mpr notMeta)

theorem literals_literal {first : Str} {more : List Str}
    (isRest : Re2.literals rest = some (first :: more)) (value : Str) :
    Re2.literals (literal value ++ rest) = some ((value ++ first) :: more) := by
  induction value with
  | nil => exact isRest
  | cons c later ih =>
    have isCons : literal (c :: later) ++ rest = literalChar c ++ (literal later ++ rest) := by
      unfold literal
      rw [flatMap_cons, append_assoc]
    rw [isCons, literals_literalChar, ih]
    rfl

theorem literals_alternation (nonempty : values ≠ []) :
    Re2.literals (alternation values) = some values := by
  induction values with
  | nil => exact absurd rfl nonempty
  | cons first others ih =>
    cases others with
    | nil =>
      have isSingle : Re2.literals (literal first ++ []) = some [first ++ []] :=
        literals_literal rfl first
      rw [append_nil, append_nil] at isSingle
      simpa [alternation, List.intercalate] using isSingle
    | cons second more =>
      have isCons : alternation (first :: second :: more) =
          literal first ++ '|' :: alternation (second :: more) := by
        simp [alternation, List.intercalate]
      have isRest : Re2.literals ('|' :: alternation (second :: more)) =
          some ([] :: second :: more) := by
        rw [Re2.literals_bar, ih (cons_ne_nil _ _)]
        rfl
      rw [isCons, literals_literal isRest first, append_nil]

/-! ### A matcher -/

def matcherOf (label : Str) (values : List Str) : LabelMatcher :=
  match values with
  | [value] => ⟨label, .equal, value⟩
  | values => ⟨label, .regex, alternation values⟩

theorem whole_string {label : Str} {sign : Sign} (isLabel : isName label)
    (isMatch : sign.isMatch) (value : Str) :
    Whole (label ++ (sign.text ++ string value)) (LabelMatcher.tokens ⟨label, sign, value⟩) := by
  refine whole_matcher isLabel ?_ (feeds_string [] value) (unquote_string value)
  revert isMatch
  cases sign
  all_goals decide

theorem whole_matcherOf {label : Str} (isLabel : isName label) (values : List Str) :
    Whole (matcher label values) (matcherOf label values).tokens := by
  unfold matcher matcherOf
  split
  · exact whole_string isLabel rfl _
  · exact whole_string isLabel rfl _

theorem accepts_matcherOf (label : Str) (nonempty : values ≠ []) (text : Str) :
    (matcherOf label values).Accepts text ↔ text ∈ values := by
  unfold matcherOf
  split
  · rename_i value
    show text = value ↔ text ∈ [value]
    rw [mem_singleton]
  · show Re2.Accepts (alternation values) text ↔ text ∈ values
    unfold Re2.Accepts
    rw [literals_alternation nonempty]
    constructor
    · rintro ⟨texts, ⟨⟩, member⟩
      exact member
    · intro member
      exact ⟨values, rfl, member⟩

end Nmas.History
