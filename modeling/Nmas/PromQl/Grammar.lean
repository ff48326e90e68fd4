import Mathlib.Logic.Relation
import Nmas.PromQl.Lex

/-!
Contract: PromQL's expressions, as far as selectors, functions of a range,
aggregations, multiplication and comparison.

Owns: the grammar, in which `*` binds tighter than a comparison and both are
left-associative; that a list of tokens is at most one expression; what every
expression of the grammar holds; and which values a matcher accepts.

Does not own: the other operators, functions and modifiers, and what a query
answers.
-/

namespace Nmas.PromQl

open Nmas.Text List

structure LabelMatcher where
  label : Str
  sign : Sign
  value : Str
deriving DecidableEq

structure Selector where
  metric : Str
  matchers : List LabelMatcher
deriving DecidableEq

inductive Expr where
  | number (text : Str)
  | selector (selector : Selector)
  | range (function : Str) (selector : Selector) (window : Str)
  | aggregate (operator : Str) (label : Option Str) (operand : Expr)
  | topk (count : Str) (operand : Expr)
  | times (left right : Expr)
  | compare (sign : Sign) (left right : Expr)
deriving DecidableEq

def LabelMatcher.Accepts (matcher : LabelMatcher) (text : Str) : Prop :=
  match matcher.sign with
  | .equal => text = matcher.value
  | .notEqual => text ≠ matcher.value
  | .regex => Re2.Accepts matcher.value text
  | .notRegex => ¬ Re2.Accepts matcher.value text
  | _ => False

/-! ### Names -/

def isLabel (text : Str) : Bool := isName text && !text.contains ':'

def lowered (text : Str) : Str := text.map Char.toLower

def isNumberWord (text : Str) : Bool := (["inf", "nan"].map String.ascii).contains (lowered text)

/-- A word an expression reads as a metric: not a number, nor one of the words that only modify
an operator. -/
def isMetric (text : Str) : Bool :=
  isName text && !isNumberWord text &&
    !(["bool", "on", "ignoring", "group_left", "group_right", "atan2"].map String.ascii).contains
      (lowered text)

def isGroupLabel (text : Str) : Bool := isLabel text && !isNumberWord text

def rangeFunctions : List Str :=
  ["rate", "increase", "changes", "resets", "delta", "irate"].map String.ascii

def aggregators : List Str :=
  ["sum", "avg", "min", "max", "count", "group", "stddev", "stdvar"].map String.ascii

def topkWord : Str := "topk".ascii

def byWord : Str := "by".ascii

def Sign.isMatch : Sign → Bool
  | .equal | .notEqual | .regex | .notRegex => true
  | _ => false

def Sign.isCompare : Sign → Bool
  | .equalEqual | .notEqual | .less | .lessEqual | .greater | .greaterEqual => true
  | _ => false

/-! ### The grammar -/

def LabelMatcher.tokens (matcher : LabelMatcher) : List Token :=
  [.word matcher.label, .sign matcher.sign, .quoted matcher.value]

def matchersTokens : List LabelMatcher → List Token
  | [] => []
  | [last] => last.tokens
  | first :: second :: rest => first.tokens ++ .comma :: matchersTokens (second :: rest)

def Selector.tokens (selector : Selector) : List Token :=
  .word selector.metric ::
    if selector.matchers = [] then []
    else .openBrace :: (matchersTokens selector.matchers ++ [.closeBrace])

structure LabelMatcher.WellFormed (matcher : LabelMatcher) : Prop where
  label : isLabel matcher.label
  sign : matcher.sign.isMatch

structure Selector.WellFormed (selector : Selector) : Prop where
  metric : isMetric selector.metric
  matchers : ∀ matcher ∈ selector.matchers, matcher.WellFormed

/-- How tightly an expression holds together. -/
inductive Level where
  | atom | product | comparison
deriving DecidableEq

inductive Derives : Level → List Token → Expr → Prop
  | number {text : Str} : isNumber text → Derives .atom [.number text] (.number text)
  | negative {text : Str} : isNumber text →
      Derives .atom [.minus, .number text] (.number ('-' :: text))
  | group {tokens : List Token} {expr : Expr} : Derives .comparison tokens expr →
      Derives .atom (.openParen :: (tokens ++ [.closeParen])) expr
  | selector {selector : Selector} : selector.WellFormed →
      Derives .atom selector.tokens (.selector selector)
  | range {function window : Str} {selector : Selector} : function ∈ rangeFunctions →
      isDuration window → selector.WellFormed →
      Derives .atom (.word function :: .openParen :: (selector.tokens ++
        [.openBracket, .duration window, .closeBracket, .closeParen]))
        (.range function selector window)
  | aggregate {operator : Str} {tokens : List Token} {operand : Expr} : operator ∈ aggregators →
      Derives .comparison tokens operand →
      Derives .atom (.word operator :: .openParen :: (tokens ++ [.closeParen]))
        (.aggregate operator none operand)
  | aggregateBy {operator label : Str} {tokens : List Token} {operand : Expr} :
      operator ∈ aggregators → isGroupLabel label → Derives .comparison tokens operand →
      Derives .atom (.word operator :: .word byWord :: .openParen :: .word label :: .closeParen ::
        .openParen :: (tokens ++ [.closeParen])) (.aggregate operator (some label) operand)
  | topk {count : Str} {tokens : List Token} {operand : Expr} : isNumber count →
      Derives .comparison tokens operand →
      Derives .atom (.word topkWord :: .openParen :: .number count :: .comma ::
        (tokens ++ [.closeParen])) (.topk count operand)
  | single {tokens : List Token} {expr : Expr} : Derives .atom tokens expr →
      Derives .product tokens expr
  | times {left right : List Token} {first second : Expr} : Derives .product left first →
      Derives .atom right second →
      Derives .product (left ++ .star :: right) (.times first second)
  | alone {tokens : List Token} {expr : Expr} : Derives .product tokens expr →
      Derives .comparison tokens expr
  | compare {left right : List Token} {first second : Expr} {sign : Sign} : sign.isCompare →
      Derives .comparison left first → Derives .product right second →
      Derives .comparison (left ++ .sign sign :: right) (.compare sign first second)

def Parses (text : Str) (expr : Expr) : Prop :=
  ∃ tokens, lex text = some tokens ∧ Derives .comparison tokens expr

/-! ### Reading a list of tokens -/

inductive Frame where
  | group
  | aggregate (operator : Str) (label : Option Str)
  | topk (count : Str)
  | times (left : Expr)
  | compare (sign : Sign) (left : Expr)

inductive Mode where
  | want (frames : List Frame)
  | held (frames : List Frame) (operand : Expr)

abbrev Config := Mode × List Token

def readMatchers : List Token → Option (List LabelMatcher × List Token)
  | .word label :: .sign sign :: .quoted value :: .comma :: rest =>
    (readMatchers rest).map (fun read => (⟨label, sign, value⟩ :: read.1, read.2))
  | .word label :: .sign sign :: .quoted value :: .closeBrace :: rest =>
    some ([⟨label, sign, value⟩], rest)
  | _ => none

def readSelector (metric : Str) : List Token → Option (Selector × List Token)
  | .openBrace :: rest => (readMatchers rest).map (fun read => (⟨metric, read.1⟩, read.2))
  | rest => some (⟨metric, []⟩, rest)

def readRange (function : Str) : List Token → Option (Expr × List Token)
  | .word metric :: rest =>
    match readSelector metric rest with
    | some (selector, .openBracket :: .duration window :: .closeBracket :: .closeParen :: more) =>
      some (.range function selector window, more)
    | _ => none
  | _ => none

def afterWord (frames : List Frame) (word : Str) : List Token → Option Config
  | .openParen :: rest =>
    if word = topkWord then
      match rest with
      | .number count :: .comma :: more => some (.want (.topk count :: frames), more)
      | _ => none
    else if word ∈ rangeFunctions then
      (readRange word rest).map (fun read => (.held frames read.1, read.2))
    else some (.want (.aggregate word none :: frames), rest)
  | .word _ :: .openParen :: .word label :: .closeParen :: .openParen :: rest =>
    some (.want (.aggregate word (some label) :: frames), rest)
  | rest => (readSelector word rest).map (fun read => (.held frames (.selector read.1), read.2))

def takeTimes : List Frame → Expr → List Frame × Expr
  | .times left :: frames, operand => (frames, .times left operand)
  | frames, operand => (frames, operand)

def takeCompare : List Frame × Expr → List Frame × Expr
  | (.compare sign left :: frames, operand) => (frames, .compare sign left operand)
  | (frames, operand) => (frames, operand)

def closeFrame : List Frame × Expr → Option Mode
  | (.group :: frames, operand) => some (.held frames operand)
  | (.aggregate operator label :: frames, operand) =>
    some (.held frames (.aggregate operator label operand))
  | (.topk count :: frames, operand) => some (.held frames (.topk count operand))
  | _ => none

/-- One step of a reader from left to right. -/
def step : Config → Option Config
  | (.want frames, .openParen :: rest) => some (.want (.group :: frames), rest)
  | (.want frames, .number text :: rest) => some (.held frames (.number text), rest)
  | (.want frames, .minus :: .number text :: rest) =>
    some (.held frames (.number ('-' :: text)), rest)
  | (.want frames, .word word :: rest) => afterWord frames word rest
  | (.held frames operand, .star :: rest) =>
    let taken := takeTimes frames operand
    some (.want (.times taken.2 :: taken.1), rest)
  | (.held frames operand, .sign sign :: rest) =>
    let taken := takeCompare (takeTimes frames operand)
    some (.want (.compare sign taken.2 :: taken.1), rest)
  | (.held frames operand, .closeParen :: rest) =>
    (closeFrame (takeCompare (takeTimes frames operand))).map (fun mode => (mode, rest))
  | _ => none

/-! ### A list of tokens is one expression -/

def Steps : Config → Config → Prop := Relation.ReflTransGen (fun from_ to_ => step from_ = some to_)

def Follows : List Token → Prop
  | [] => True
  | .star :: _ | .sign _ :: _ | .closeParen :: _ => True
  | _ => False

variable {rest tokens : List Token} {matchers : List LabelMatcher} {selector : Selector}
  {frames : List Frame} {expr : Expr} {level : Level}

theorem readMatchers_tokens (nonempty : matchers ≠ []) :
    readMatchers (matchersTokens matchers ++ .closeBrace :: rest) = some (matchers, rest) := by
  induction matchers with
  | nil => exact absurd rfl nonempty
  | cons first others ih =>
    cases others with
    | nil => rfl
    | cons second more =>
      show (readMatchers (matchersTokens (second :: more) ++ .closeBrace :: rest)).map _ = _
      rw [ih (cons_ne_nil _ _)]
      rfl

theorem readSelector_tokens (notBrace : ∀ more, rest ≠ .openBrace :: more) :
    ∃ tail, selector.tokens = .word selector.metric :: tail ∧
      readSelector selector.metric (tail ++ rest) = some (selector, rest) := by
  refine ⟨_, rfl, ?_⟩
  obtain ⟨metric, matchers⟩ := selector
  by_cases isEmpty : matchers = []
  · subst isEmpty
    show readSelector metric rest = _
    unfold readSelector
    split
    · rename_i more
      exact absurd rfl (notBrace more)
    · rfl
  · rw [if_neg isEmpty]
    show (readMatchers ((matchersTokens matchers ++ [.closeBrace]) ++ rest)).map _ = _
    rw [append_assoc]
    show (readMatchers (matchersTokens matchers ++ .closeBrace :: rest)).map _ = _
    rw [readMatchers_tokens isEmpty]
    rfl

theorem Follows.notBrace (follows : Follows rest) : ∀ more, rest ≠ .openBrace :: more := by
  rintro more rfl
  exact follows

theorem Follows.notParen (follows : Follows rest) : ∀ more, rest ≠ .openParen :: more := by
  rintro more rfl
  exact follows

theorem Follows.notWord (follows : Follows rest) : ∀ word more, rest ≠ .word word :: more := by
  rintro word more rfl
  exact follows

def Frames (level : Level) (frames : List Frame) : Prop :=
  match level with
  | .atom => True
  | .product => takeTimes frames = fun operand => (frames, operand)
  | .comparison => takeTimes frames = (fun operand => (frames, operand)) ∧
      ∀ operand, takeCompare (frames, operand) = (frames, operand)

/-- An operand of a level, as far as it has been read. -/
def Holds (level : Level) (frames : List Frame) (expr : Expr) : Mode → Prop
  | .want _ => False
  | .held above operand =>
    match level with
    | .atom => above = frames ∧ operand = expr
    | .product => takeTimes above operand = (frames, expr)
    | .comparison => takeCompare (takeTimes above operand) = (frames, expr)

theorem afterWord_selector {word : Str} (notParen : ∀ more, tokens ≠ .openParen :: more)
    (notWord : ∀ word more, tokens ≠ .word word :: more) :
    afterWord frames word tokens =
      (readSelector word tokens).map (fun read => (.held frames (.selector read.1), read.2)) := by
  unfold afterWord
  split
  · exact absurd rfl (notParen _)
  · exact absurd rfl (notWord _ _)
  · rfl

theorem steps_selector (follows : Follows rest) :
    Steps (.want frames, selector.tokens ++ rest) (.held frames (.selector selector), rest) := by
  obtain ⟨tail, isTokens, isRead⟩ := @readSelector_tokens rest selector follows.notBrace
  have isTail : tail = if selector.matchers = [] then [] else
      .openBrace :: (matchersTokens selector.matchers ++ [.closeBrace]) := by
    have same := isTokens.symm.trans rfl
    exact (List.cons.inj same).2
  have notParen : ∀ more, tail ++ rest ≠ .openParen :: more := by
    rw [isTail]
    split
    · exact follows.notParen
    · rintro more ⟨⟩
  have notWord : ∀ word more, tail ++ rest ≠ .word word :: more := by
    rw [isTail]
    split
    · exact follows.notWord
    · rintro word more ⟨⟩
  apply Relation.ReflTransGen.single
  rw [isTokens]
  show afterWord frames selector.metric (tail ++ rest) = _
  rw [afterWord_selector notParen notWord, isRead]
  rfl

theorem steps_range {function window : Str} (isFunction : function ∈ rangeFunctions) :
    Steps (.want frames, .word function :: .openParen :: (selector.tokens ++
        [.openBracket, .duration window, .closeBracket, .closeParen]) ++ rest)
      (.held frames (.range function selector window), rest) := by
  have notTopk : function ≠ topkWord := by
    rintro rfl
    revert isFunction
    decide +kernel
  obtain ⟨tail, isTokens, isRead⟩ := @readSelector_tokens
    (.openBracket :: .duration window :: .closeBracket :: .closeParen :: rest) selector
    (by rintro more ⟨⟩)
  have isRange : readRange function (.word selector.metric ::
      (tail ++ .openBracket :: .duration window :: .closeBracket :: .closeParen :: rest)) =
      some (.range function selector window, rest) := by
    simp only [readRange, isRead]
  apply Relation.ReflTransGen.single
  rw [isTokens]
  show (if function = topkWord then _ else if function ∈ rangeFunctions then
    (readRange function (.word selector.metric :: ((tail ++ _) ++ rest))).map _ else _) = _
  rw [if_neg notTopk, if_pos isFunction, append_assoc]
  exact congrArg (Option.map _) isRange

theorem Holds.of_atom {mode : Mode} (holds : Holds .atom frames expr mode) :
    mode = .held frames expr := by
  cases mode with
  | want frames => exact holds.elim
  | held above operand =>
    obtain ⟨rfl, rfl⟩ := holds
    rfl

theorem steps_close {closed : Mode} {frame : Frame} {operand : Expr}
    (inner : ∃ mode, Steps (.want (frame :: frames), tokens ++ .closeParen :: rest)
      (mode, .closeParen :: rest) ∧ Holds .comparison (frame :: frames) operand mode)
    (closes : closeFrame (frame :: frames, operand) = some closed) :
    Steps (.want (frame :: frames), (tokens ++ [.closeParen]) ++ rest) (closed, rest) := by
  obtain ⟨mode, isRead, holds⟩ := inner
  rw [append_assoc]
  refine isRead.tail ?_
  cases mode with
  | want above => exact holds.elim
  | held above last =>
    show (closeFrame (takeCompare (takeTimes above last))).map _ = _
    rw [show takeCompare (takeTimes above last) = (frame :: frames, operand) from holds, closes]
    rfl

theorem Derives.steps (derives : Derives level tokens expr) :
    ∀ frames rest, Frames level frames → Follows rest →
      ∃ mode, Steps (.want frames, tokens ++ rest) (mode, rest) ∧ Holds level frames expr mode := by
  induction derives with
  | number isNumber | negative isNumber =>
    intro frames rest _ _
    exact ⟨_, Relation.ReflTransGen.single rfl, rfl, rfl⟩
  | group _ ih =>
    intro frames rest _ _
    have inner := ih (.group :: frames) (.closeParen :: rest) ⟨rfl, fun _ => rfl⟩ trivial
    exact ⟨_, Relation.ReflTransGen.head rfl (steps_close inner rfl), rfl, rfl⟩
  | selector wellFormed =>
    intro frames rest _ follows
    exact ⟨_, steps_selector follows, rfl, rfl⟩
  | range isFunction isWindow wellFormed =>
    intro frames rest _ _
    exact ⟨_, steps_range isFunction, rfl, rfl⟩
  | @aggregate operator tokens operand isOperator _ ih =>
    intro frames rest _ _
    have inner := ih (.aggregate operator none :: frames) (.closeParen :: rest)
      ⟨rfl, fun _ => rfl⟩ trivial
    have isStep : step (.want frames, .word operator :: .openParen ::
        ((tokens ++ [.closeParen]) ++ rest)) =
        some (.want (.aggregate operator none :: frames), (tokens ++ [.closeParen]) ++ rest) := by
      have notTopk : operator ≠ topkWord := by
        rintro rfl
        revert isOperator
        decide +kernel
      have notRange : operator ∉ rangeFunctions := by
        have apart : ∀ word ∈ aggregators, word ∉ rangeFunctions := by decide +kernel
        exact apart operator isOperator
      show (if operator = topkWord then _ else if operator ∈ rangeFunctions then _ else _) = _
      rw [if_neg notTopk, if_neg notRange]
    exact ⟨_, Relation.ReflTransGen.head isStep (steps_close inner rfl), rfl, rfl⟩
  | @aggregateBy operator label tokens operand isOperator isLabel _ ih =>
    intro frames rest _ _
    have inner := ih (.aggregate operator (some label) :: frames)
      (.closeParen :: rest) ⟨rfl, fun _ => rfl⟩ trivial
    exact ⟨_, Relation.ReflTransGen.head rfl (steps_close inner rfl), rfl, rfl⟩
  | @topk count tokens operand isCount _ ih =>
    intro frames rest _ _
    have inner := ih (.topk count :: frames) (.closeParen :: rest) ⟨rfl, fun _ => rfl⟩ trivial
    exact ⟨_, Relation.ReflTransGen.head rfl (steps_close inner rfl), rfl, rfl⟩
  | single _ ih =>
    intro frames rest bottom follows
    obtain ⟨mode, isRead, holds⟩ := ih frames rest trivial follows
    refine ⟨mode, isRead, ?_⟩
    rw [holds.of_atom]
    exact congrFun bottom _
  | @times left right first second _ _ leftHypothesis rightHypothesis =>
    intro frames rest bottom follows
    obtain ⟨mode, isLeft, holds⟩ := leftHypothesis frames (.star :: (right ++ rest)) bottom trivial
    obtain ⟨last, isRight, holdsRight⟩ := rightHypothesis (.times first :: frames) rest trivial
      follows
    refine ⟨last, ?_, ?_⟩
    · rw [append_assoc]
      refine isLeft.trans (Relation.ReflTransGen.head ?_ isRight)
      cases mode with
      | want above => exact holds.elim
      | held above operand =>
        show some (Mode.want (.times (takeTimes above operand).2 ::
          (takeTimes above operand).1), right ++ rest) = _
        rw [show takeTimes above operand = (frames, first) from holds]
    · rw [holdsRight.of_atom]
      rfl
  | alone _ ih =>
    intro frames rest bottom follows
    obtain ⟨mode, isRead, holds⟩ := ih frames rest bottom.1 follows
    refine ⟨mode, isRead, ?_⟩
    cases mode with
    | want above => exact holds.elim
    | held above operand =>
      show takeCompare (takeTimes above operand) = _
      rw [show takeTimes above operand = _ from holds]
      exact bottom.2 _
  | @compare left right first second sign isCompare _ _ leftHypothesis rightHypothesis =>
    intro frames rest bottom follows
    obtain ⟨mode, isLeft, holds⟩ := leftHypothesis frames (.sign sign :: (right ++ rest)) bottom
      trivial
    obtain ⟨last, isRight, holdsRight⟩ := rightHypothesis (.compare sign first :: frames) rest
      rfl follows
    refine ⟨last, ?_, ?_⟩
    · rw [append_assoc]
      refine isLeft.trans (Relation.ReflTransGen.head ?_ isRight)
      cases mode with
      | want above => exact holds.elim
      | held above operand =>
        show some (Mode.want (.compare sign (takeCompare (takeTimes above operand)).2 ::
          (takeCompare (takeTimes above operand)).1), right ++ rest) = _
        rw [show takeCompare (takeTimes above operand) = (frames, first) from holds]
    · cases last with
      | want above => exact holdsRight.elim
      | held above operand =>
        show takeCompare (takeTimes above operand) = _
        rw [show takeTimes above operand = (.compare sign first :: frames, second) from
          holdsRight]
        rfl

theorem Derives.unique {other : Expr} (one : Derives .comparison tokens expr)
    (another : Derives .comparison tokens other) : expr = other := by
  obtain ⟨mode, isRead, holds⟩ := one.steps [] [] ⟨rfl, fun _ => rfl⟩ trivial
  obtain ⟨last, isOther, holdsOther⟩ := another.steps [] [] ⟨rfl, fun _ => rfl⟩ trivial
  have atEnd : ∀ {mode : Mode} {expr : Expr} {config : Config},
      Holds .comparison [] expr mode → Steps (mode, []) config → config = (mode, []) := by
    intro mode expr config holds steps
    cases mode with
    | want above => exact holds.elim
    | held above operand =>
      rcases Relation.ReflTransGen.cases_head steps with same | ⟨next, isStep, -⟩
      · exact same.symm
      · cases isStep
  have same : mode = last := by
    have deterministic : Relator.RightUnique (fun before after : Config =>
        step before = some after) := by
      intro before after another isAfter isAnother
      rw [isAfter] at isAnother
      exact Option.some.inj isAnother
    rcases Relation.ReflTransGen.total_of_right_unique deterministic isRead isOther with
      onward | onward
    · exact (congrArg Prod.fst (atEnd holds onward)).symm
    · exact congrArg Prod.fst (atEnd holdsOther onward)
  subst same
  cases mode with
  | want above => exact holds.elim
  | held above operand =>
    have pair : (([], expr) : List Frame × Expr) = ([], other) := holds.symm.trans holdsOther
    exact congrArg Prod.snd pair

/-! ### What every expression holds -/

def Expr.WellFormed : Expr → Prop
  | .number text => isNumber text ∨ ∃ size, text = '-' :: size ∧ isNumber size
  | .selector selector => selector.WellFormed
  | .range function selector window =>
    function ∈ rangeFunctions ∧ isDuration window ∧ selector.WellFormed
  | .aggregate operator label operand =>
    operator ∈ aggregators ∧ (∀ name ∈ label, isGroupLabel name) ∧ operand.WellFormed
  | .topk count operand => isNumber count ∧ operand.WellFormed
  | .times left right => left.WellFormed ∧ right.WellFormed
  | .compare sign left right => sign.isCompare ∧ left.WellFormed ∧ right.WellFormed

theorem Derives.wellFormed (derives : Derives level tokens expr) : expr.WellFormed := by
  induction derives with
  | number isNumber => exact .inl isNumber
  | negative isNumber => exact .inr ⟨_, rfl, isNumber⟩
  | group _ ih | single _ ih | alone _ ih => exact ih
  | selector wellFormed => exact wellFormed
  | range isFunction isWindow wellFormed => exact ⟨isFunction, isWindow, wellFormed⟩
  | aggregate isOperator _ ih =>
    refine ⟨isOperator, ?_, ih⟩
    rintro name ⟨⟩
  | aggregateBy isOperator isLabel _ ih =>
    refine ⟨isOperator, ?_, ih⟩
    rintro name ⟨⟩
    exact isLabel
  | topk isCount _ ih => exact ⟨isCount, ih⟩
  | times _ _ leftHypothesis rightHypothesis => exact ⟨leftHypothesis, rightHypothesis⟩
  | compare isCompare _ _ leftHypothesis rightHypothesis =>
    exact ⟨isCompare, leftHypothesis, rightHypothesis⟩

def strings (tokens : List Token) : List Str :=
  tokens.filterMap (fun token => match token with
    | .quoted value => some value
    | _ => none)

def Expr.values : Expr → List Str
  | .number _ => []
  | .selector selector => selector.matchers.map LabelMatcher.value
  | .range _ selector _ => selector.matchers.map LabelMatcher.value
  | .aggregate _ _ operand => operand.values
  | .topk _ operand => operand.values
  | .times left right => left.values ++ right.values
  | .compare _ left right => left.values ++ right.values

theorem strings_append {more : List Token} :
    strings (tokens ++ more) = strings tokens ++ strings more :=
  filterMap_append

theorem strings_matchersTokens (matchers : List LabelMatcher) :
    strings (matchersTokens matchers) = matchers.map LabelMatcher.value := by
  induction matchers with
  | nil => rfl
  | cons first others ih =>
    cases others with
    | nil => rfl
    | cons second more => exact congrArg (first.value :: ·) ih

theorem strings_selector (selector : Selector) :
    strings selector.tokens = selector.matchers.map LabelMatcher.value := by
  unfold Selector.tokens
  split
  · rename_i isEmpty
    rw [isEmpty]
    rfl
  · show strings (matchersTokens selector.matchers ++ [.closeBrace]) = _
    rw [strings_append, strings_matchersTokens]
    exact append_nil _

theorem Derives.strings_eq (derives : Derives level tokens expr) : strings tokens = expr.values := by
  have closed : ∀ tokens : List Token, strings (tokens ++ [.closeParen]) = strings tokens := by
    intro tokens
    rw [strings_append]
    exact append_nil _
  induction derives with
  | number isNumber | negative isNumber => rfl
  | @group tokens expr _ ih => exact (closed tokens).trans ih
  | selector wellFormed => exact strings_selector _
  | @range function window selector isFunction isWindow wellFormed =>
    show strings (selector.tokens ++ _) = _
    rw [strings_append, strings_selector]
    exact append_nil _
  | @aggregate operator tokens operand _ _ ih
  | @aggregateBy operator label tokens operand _ _ _ ih | @topk count tokens operand _ _ ih =>
    exact (closed tokens).trans ih
  | single _ ih | alone _ ih => exact ih
  | times _ _ leftHypothesis rightHypothesis | compare _ _ _ leftHypothesis rightHypothesis =>
    rw [strings_append, leftHypothesis]
    exact congrArg _ rightHypothesis

end Nmas.PromQl
