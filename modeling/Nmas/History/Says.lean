import Mathlib.Data.List.Forall2
import Nmas.History.PromQuery

/-!
Contract: the metrics query says exactly the choices.

Owns: what a question's query is asked to say, exactly when it does, and the
steps: what `ask` lets through, what a chain of `check_ops` is, and that each
text `build` forms is one expression with as tight a hold as it is said to have.
-/

namespace Nmas.History

open Nmas.Text Nmas.PromQl

/-! ### What is asked -/

inductive Choice where
  | keeps (label : Str) (values : List Str)
  | filtered (filter : Filter)

def choices (spec : Spec) (iface : Str) (filters : List Filter) : List Choice :=
  (if spec.dev = [] then [] else [.keeps deviceLabel spec.dev]) ++
    (if spec.role = [] then [] else [.keeps roleLabel [spec.role]]) ++
    (if spec.ifs = [] ∨ iface = [] then [] else [.keeps iface spec.ifs]) ++
    filters.map Choice.filtered

/-- A matcher that says a choice: one value is the matcher's own, several are what it accepts. -/
def Choice.SaidBy (choice : Choice) (matcher : LabelMatcher) : Prop :=
  match choice with
  | .keeps label values => matcher.label = label ∧
      (∀ text, matcher.Accepts text ↔ text ∈ values) ∧
      ∀ value, values = [value] → matcher.value = value
  | .filtered filter => matcher = ⟨filter.label, filter.sign, filter.value⟩

/-- An operation of the whole of an expression; a range function is of a metric alone. -/
def apply (expr : Expr) (op : Op) : Option Expr :=
  match op.1.group with
  | .rangeOps | .changesOps =>
    match expr with
    | .selector selector => some (.range op.1.name selector op.2)
    | _ => none
  | .unitOps => some (.times expr (.number op.1.factor))
  | .compare => some (.compare op.1.sign expr (.number op.2))
  | .aggs => some (.aggregate op.1.name (if op.2 = [] then none else some op.2) expr)

/-- The expression of a chain on a selector, and of the top so many. -/
def asked (spec : Spec) (chain : List Op) (selector : Selector) : Option Expr := do
  let expr ← chain.foldlM apply (.selector selector)
  some (if spec.top = [] then expr else .topk spec.top expr)

/-- What is asked of a query: it is the chain on a selector of the metric, and nothing else, with a
matcher for each choice and a string for each matcher. -/
def Says (spec : Spec) (iface : Str) (filters : List Filter) (chain : List Op) (query : Str) :
    Prop :=
  ∃ tokens matchers expr, lex query = some tokens ∧ asked spec chain ⟨spec.m, matchers⟩ = some expr ∧
    (∀ other, Derives .comparison tokens other ↔ other = expr) ∧
    strings tokens = matchers.map LabelMatcher.value ∧
    List.Forall₂ Choice.SaidBy (choices spec iface filters) matchers

/-- The metric is a word PromQL reads as one, no label a group is by is a word it reads as a
number, and the numbers compared with are in ASCII digits. -/
structure Readable (spec : Spec) (chain : List Op) : Prop where
  metric : isMetric spec.m
  groups : ∀ op ∈ chain, op.1.group = .aggs → isNumberWord op.2 = false
  numbers : ∀ op ∈ chain, op.1.group = .compare → ∀ c ∈ op.2, c.toNat < 128

/-! ### What `ask` lets through -/

section
variable [Unicode]

def NoLine (text : Str) : Prop := text.getLast? ≠ some '\n'

omit [Unicode] in
theorem toEnd_eq {pattern : Str → Bool} {text : Str} (noLine : NoLine text) :
    toEnd pattern text = pattern text := by
  unfold toEnd
  rw [decide_eq_false noLine, Bool.false_and, Bool.or_false]

omit [Unicode] in
theorem noLine_of_trimmed {text : Str} (trimmed : rstrip text = text) : NoLine text := by
  intro isLast
  have notSpace := rstrip_eq_self_iff.mp trimmed '\n' isLast
  revert notSpace
  decide

omit [Unicode] in
theorem noLine_strip (text : Str) : NoLine (strip text) := noLine_of_trimmed rstrip_rstrip

/-- An operation whose argument is as it says. -/
structure Sound (op : Op) : Prop where
  takes : op.1.takes op.2
  noLine : NoLine op.2

/-- What `ask` returns. -/
structure Asked (spec : Spec) : Prop where
  metric : spec.m = [] ∨ isName spec.m
  filters : ∃ filters, spec.f.mapM parseFilter = some filters ∧
    ∀ filter ∈ filters, isLabel filter.label ∧ filter.sign.isMatch
  ops : ∃ ops, spec.op.mapM parseOp = some ops ∧ ∀ op ∈ ops, Sound op
  top : spec.top = [] ∨ spec.top ∈ tops

omit [Unicode] in
theorem mapM_some {One Other : Type} {read : One → Option Other} {P : Other → Prop}
    {list : List One} (reads : ∀ one ∈ list, ∃ other, read one = some other ∧ P other) :
    ∃ others, list.mapM read = some others ∧ ∀ other ∈ others, P other := by
  induction list with
  | nil => exact ⟨[], rfl, fun other member => (List.not_mem_nil member).elim⟩
  | cons first rest ih =>
    obtain ⟨other, isOther, holds⟩ := reads first (.head _)
    obtain ⟨others, areOthers, allHold⟩ := ih (fun one member => reads one (.tail _ member))
    refine ⟨other :: others, ?_, List.forall_mem_cons.mpr ⟨holds, allHold⟩⟩
    rw [List.mapM_cons, isOther, areOthers]
    rfl

omit [Unicode] in
theorem noLine_of_suffix {text whole : Str} (suffix : text <:+ whole) (noLine : NoLine whole) :
    NoLine text := by
  obtain ⟨front, rfl⟩ := suffix
  intro isLast
  apply noLine
  rw [List.getLast?_append, isLast]
  rfl

omit [Unicode] in
theorem trimmed_opToken {kind arg : Str} (noKind : rstrip kind = kind) (noArg : rstrip arg = arg) :
    rstrip (opToken kind arg) = opToken kind arg := by
  unfold opToken
  split
  · exact noKind
  · refine rstrip_append (List.cons_ne_nil _ _) ?_
    cases arg with
    | nil => decide
    | cons first rest => exact @rstrip_append [':'] _ (List.cons_ne_nil _ _) noArg

omit [Unicode] in
theorem mem_longest (windows : List (Str × Nat)) (start : Str × Nat) :
    windows.foldl (fun longest window => if longest.2 < window.2 then window else longest) start ∈
      start :: windows := by
  induction windows generalizing start with
  | nil => exact .head _
  | cons first rest ih =>
    rw [List.foldl_cons]
    rcases List.mem_cons.mp (ih (if start.2 < first.2 then first else start)) with isStart | isLater
    · rw [isStart]
      split
      · exact .tail _ (.head _)
      · exact .head _
    · exact .tail _ (.tail _ isLater)

omit [Unicode] in
theorem trimmed_formOp (seconds : Nat) {kind arg : Str} (isKind : rstrip kind = kind)
    (isArg : rstrip arg = arg) : rstrip (formOp seconds kind arg) = formOp seconds kind arg := by
  have areWindows : ∀ window ∈ changesWindows, rstrip window.1 = window.1 := by decide
  have isWindow : rstrip (changesWindow seconds) = changesWindow seconds := by
    have isLongest := mem_longest (changesWindows.filter (fun window => window.2 ≤ seconds))
      ("1m".ascii, 0)
    rcases List.mem_cons.mp isLongest with isStart | isFitting
    · rw [changesWindow, isStart]
      decide
    · exact areWindows _ (List.mem_of_mem_filter isFitting)
  unfold formOp
  split
  · exact trimmed_opToken isKind (by decide)
  · split
    · exact trimmed_opToken isKind isWindow
    · exact trimmed_opToken isKind isArg

omit [Unicode] in
theorem trimmed_ops (values : Values) : ∀ token ∈ values.ops, rstrip token = token := by
  intro token member
  unfold Values.ops at member
  split at member
  · obtain ⟨select, isSelect, rfl⟩ := List.mem_map.mp member
    obtain ⟨index, -, rfl⟩ := List.mem_map.mp (List.takeWhile_prefix _ |>.subset isSelect)
    exact trimmed_formOp _ rstrip_rstrip rstrip_rstrip
  · unfold Values.many at member
    have isValue := List.mem_filter.mp (List.mem_eraseDups.mp member)
    obtain ⟨raw, -, rfl⟩ := List.mem_map.mp isValue.1
    exact rstrip_rstrip

theorem parseOp_sound {token : Str} {op : Op} (isOp : parseOp token = some op)
    (noLine : NoLine token) : Sound op := by
  obtain ⟨kind, isKind, isRest⟩ := Option.bind_eq_some_iff.mp isOp
  split at isRest
  · rename_i takes
    cases isRest
    refine ⟨takes, noLine_of_suffix ?_ noLine⟩
    exact (List.drop_suffix _ _).trans (List.dropWhile_suffix _)
  · cases isRest

omit [Unicode] in
theorem parseFilter_isMatch {token : Str} {filter : Filter}
    (isFilter : parseFilter token = some filter) :
    isLabel filter.label ∧ filter.sign.isMatch := by
  obtain ⟨sign, isSign, isRest⟩ := Option.bind_eq_some_iff.mp isFilter
  simp only [] at isRest
  split at isRest
  · rename_i isThere
    cases isRest
    refine ⟨isThere.1, ?_⟩
    have isMatch : ∀ sign ∈ [Sign.equal, .notEqual, .regex, .notRegex], sign.isMatch := by
      decide
    exact isMatch sign (List.mem_of_find?_eq_some isSign)
  · cases isRest

theorem asked_ask (values : Values) : Asked (ask values) where
  metric := by
    show (if toEnd isName (values.one "m".ascii) then values.one "m".ascii else []) = [] ∨
      isName (if toEnd isName (values.one "m".ascii) then values.one "m".ascii else [])
    split
    · rename_i isMetric
      rw [Values.one, toEnd_eq (noLine_strip _)] at isMetric
      exact .inr isMetric
    · exact .inl rfl
  filters := by
    apply mapM_some
    intro token member
    have keeps := (List.mem_filter.mp (List.mem_of_mem_take member)).2
    unfold keepsFilter at keeps
    split at keeps
    · cases keeps
    · rename_i filter isFilter
      exact ⟨filter, isFilter, parseFilter_isMatch isFilter⟩
  ops := by
    apply mapM_some
    intro token member
    obtain ⟨isToken, isSome⟩ := List.mem_filter.mp (List.mem_of_mem_take member)
    obtain ⟨op, isOp⟩ := Option.isSome_iff_exists.mp isSome
    exact ⟨op, isOp, parseOp_sound isOp (noLine_of_trimmed (trimmed_ops values token isToken))⟩
  top := by
    show (if values.one "top".ascii ∈ tops then values.one "top".ascii else []) = [] ∨
      (if values.one "top".ascii ∈ tops then values.one "top".ascii else []) ∈ tops
    split
    · rename_i isTop
      exact .inr isTop
    · exact .inl rfl

/-! ### The chain -/

structure Chain (ops : List Op) : Prop where
  sound : ∀ op ∈ ops, Sound op
  inFront : ∀ op ∈ ops.tail, op.1.group ≠ .rangeOps ∧ op.1.group ≠ .changesOps

omit [Unicode] in
theorem checkOp_ops (kind unit : Str) (isFirst : Bool) (checking : Checking) (op : Op) :
    (checkOp kind unit isFirst checking op).ops = checking.ops ∨
      (checkOp kind unit isFirst checking op).ops = checking.ops ++ [op] ∧
        (isFirst = false → op.1.group ≠ .rangeOps ∧ op.1.group ≠ .changesOps) := by
  unfold checkOp
  simp only []
  split
  · split
    · exact .inl rfl
    · rename_i isKept
      exact .inr ⟨rfl, fun notFirst => absurd (.inl notFirst) isKept⟩
  · split
    · exact .inl rfl
    · rename_i isKept
      exact .inr ⟨rfl, fun notFirst => absurd (.inr notFirst) isKept⟩
  · rename_i isUnit
    have apart : op.1.group ≠ .rangeOps ∧ op.1.group ≠ .changesOps := by
      rw [isUnit]
      decide
    split_ifs
    · exact .inl rfl
    · exact .inr ⟨rfl, fun _ => apart⟩
    · exact .inr ⟨rfl, fun _ => apart⟩
    · exact .inl rfl
  · rename_i isAgg
    have apart : op.1.group ≠ .rangeOps ∧ op.1.group ≠ .changesOps := by
      rw [isAgg]
      decide
    split
    · exact .inl rfl
    · exact .inr ⟨rfl, fun _ => apart⟩
  · rename_i isCompare
    refine .inr ⟨rfl, fun _ => ?_⟩
    rw [isCompare]
    decide

theorem Chain.concat {ops : List Op} {op : Op} (chain : Chain ops) (sound : Sound op)
    (apart : op.1.group ≠ .rangeOps ∧ op.1.group ≠ .changesOps) : Chain (ops ++ [op]) where
  sound := by
    intro one member
    rcases List.mem_append.mp member with isOld | isNew
    · exact chain.sound one isOld
    · rw [List.mem_singleton.mp isNew]
      exact sound
  inFront := by
    intro one member
    cases ops with
    | nil => cases member
    | cons first rest =>
      rcases List.mem_append.mp member with isOld | isNew
      · exact chain.inFront one isOld
      · rw [List.mem_singleton.mp isNew]
        exact apart

theorem chain_foldl (kind unit : Str) {ops : List Op} {checking : Checking}
    (chain : Chain checking.ops) (sound : ∀ op ∈ ops, Sound op) :
    Chain (ops.foldl (checkOp kind unit false) checking).ops := by
  induction ops generalizing checking with
  | nil => exact chain
  | cons op rest ih =>
    have soundOp := sound op (.head _)
    refine ih ?_ (fun one member => sound one (.tail _ member))
    rcases checkOp_ops kind unit false checking op with same | ⟨added, apart⟩
    · rw [same]
      exact chain
    · rw [added]
      exact chain.concat soundOp (apart rfl)

theorem parseOp_opToken {op : Op} (sound : Sound op) :
    parseOp (opToken op.1.name op.2) = some op := by
  obtain ⟨kind, arg⟩ := op
  have takes : kind.takes arg := sound.takes
  by_cases isUnit : kind.group = .unitOps
  · have noArg : arg = [] := by
      rw [Kind.takes, isUnit] at takes
      exact of_decide_eq_true takes
    subst noArg
    cases kind with
    | bits | perMin => rfl
    | _ => cases isUnit
  · have isToken : opToken kind.name arg = kind.name ++ ':' :: arg := by
      cases kind with
      | bits | perMin => exact absurd rfl isUnit
      | _ => rfl
    obtain ⟨noColon, isKind⟩ := Kind.name_of_all kind kind.mem_all
    show parseOp (opToken kind.name arg) = some (kind, arg)
    rw [isToken, parseOp, List.takeWhile_append_of_pos noColon, List.dropWhile_append_of_pos noColon]
    simp only [List.takeWhile_cons_of_neg, List.append_nil, List.dropWhile_cons_of_neg,
      ne_eq, not_true_eq_false, decide_false, Bool.false_eq_true, not_false_eq_true,
      List.drop_one, List.tail_cons]
    rw [isKind]
    exact if_pos takes

theorem mapM_opToken {ops : List Op} (sound : ∀ op ∈ ops, Sound op) :
    (ops.map (fun op => opToken op.1.name op.2)).mapM parseOp = some ops := by
  induction ops with
  | nil => rfl
  | cons op rest ih =>
    rw [List.map_cons, List.mapM_cons, parseOp_opToken (sound op List.mem_cons_self),
      ih (fun one member => sound one (.tail _ member))]
    rfl

theorem checkOps_chain {spec : Spec} (asked : Asked spec) (kind unit : Str) (labels : List Str) :
    ∃ tokens ops, checkOps spec kind unit labels = some tokens ∧ tokens.mapM parseOp = some ops ∧
      Chain ops := by
  obtain ⟨ops, areOps, soundOps⟩ := asked.ops
  have areTokens : ∃ ops, (chainTokens spec kind).mapM parseOp = some ops ∧
      ∀ op ∈ ops, Sound op := by
    unfold chainTokens
    simp only []
    split
    · have isRate : parseOp "rate:5m".ascii = some (.rate, "5m".ascii) := by rfl
      refine ⟨(.rate, "5m".ascii) :: ops, ?_, List.forall_mem_cons.mpr ⟨⟨rfl, ?_⟩, soundOps⟩⟩
      · rw [List.mapM_cons, isRate, areOps]
        rfl
      · exact (changesWindows_read ("5m".ascii, 300) (.tail _ (.head _))).1
    · exact ⟨ops, areOps, soundOps⟩
  obtain ⟨all, areAll, soundAll⟩ := areTokens
  have isChain : Chain (checkAll kind unit ⟨labels, false, false, []⟩ all).ops := by
    cases all with
    | nil => exact ⟨fun op member => (List.not_mem_nil member).elim,
        fun op member => (List.not_mem_nil member).elim⟩
    | cons first rest =>
      apply chain_foldl kind unit _ (fun op member => soundAll op (.tail _ member))
      rcases checkOp_ops kind unit true ⟨labels, false, false, []⟩ first with same | ⟨added, -⟩
      · rw [same]
        exact ⟨fun op member => (List.not_mem_nil member).elim,
          fun op member => (List.not_mem_nil member).elim⟩
      · rw [added]
        refine ⟨?_, fun op member => (List.not_mem_nil member).elim⟩
        intro op member
        rw [List.mem_singleton.mp member]
        exact soundAll first (.head _)
  refine ⟨_, _, ?_, mapM_opToken isChain.sound, isChain⟩
  unfold checkOps
  rw [areAll]
  rfl

/-! ### The texts -/

def levelOf (prec : Nat) : Level :=
  if prec = 9 then .atom else if prec < 5 then .comparison else .product

def Forms (formed : Formed) (expr : Expr) : Prop :=
  ∃ tokens, Reads formed.text tokens ∧ Derives (levelOf formed.prec) tokens expr

variable {formed : Formed} {expr : Expr} {tokens : List Token} {op : Op}

omit [Unicode] in
theorem comparison_of_derives {level : Level} (derives : Derives level tokens expr) :
    Derives .comparison tokens expr := by
  cases level with
  | atom => exact .alone (.single derives)
  | product => exact .alone derives
  | comparison => exact derives

omit [Unicode] in
theorem reads_group (isRead : Reads formed.text tokens) :
    Reads ('(' :: (formed.text ++ [')'])) (.openParen :: (tokens ++ [.closeParen])) := by
  have isOpen : Whole ['('] [.openParen] := rfl
  have isClose : Whole [')'] [.closeParen] := rfl
  exact isOpen.reads_append (isRead.append_reads (ends_mem ')' (by decide)) isClose.reads)

omit [Unicode] in
theorem Forms.grouped (forms : Forms formed expr) :
    ∃ tokens, Reads formed.grouped tokens ∧ Derives .product tokens expr := by
  obtain ⟨tokens, isRead, derives⟩ := forms
  unfold Formed.grouped
  split
  · exact ⟨_, reads_group isRead, .single (.group (comparison_of_derives derives))⟩
  · rename_i isTight
    refine ⟨tokens, isRead, ?_⟩
    unfold levelOf at derives
    split at derives
    · exact .single derives
    · exact derives

omit [Unicode] in
theorem forms_units (forms : Forms formed expr) (isUnit : op.1.group = .unitOps) :
    Forms (formOne formed op) (.times expr (.number op.1.factor)) := by
  obtain ⟨left, isLeft, derives⟩ := forms.grouped
  have isFactor : isNumber op.1.factor ∧
      Reads (' ' :: '*' :: ' ' :: op.1.factor) [.star, .number op.1.factor] := by
    obtain ⟨kind, arg⟩ := op
    cases kind with
    | bits => exact ⟨rfl, [.star], .digits ['8'], [.number ['8']], rfl, rfl, rfl⟩
    | perMin =>
      exact ⟨rfl, [.star], .digits ['6', '0'], [.number ['6', '0']], rfl, rfl, rfl⟩
    | _ => cases isUnit
  refine ⟨left ++ [.star, .number op.1.factor], ?_, ?_⟩
  · unfold formOne
    rw [isUnit]
    show Reads (formed.grouped ++ " * ".ascii ++ op.1.factor) _
    rw [List.append_assoc]
    exact isLeft.append_reads (ends_mem ' ' (by decide)) isFactor.2
  · unfold formOne
    rw [isUnit]
    exact .times derives (.number isFactor.1)

theorem isDecimal_of_ascii {c : Char} (ascii : c.toNat < 128) : isDecimal c = PromQl.isDigit c := by
  rw [isDecimal_ascii c ascii, Bool.eq_iff_iff]
  simp only [Char.isDigit, PromQl.isDigit, Bool.and_eq_true, decide_eq_true_eq, Char.le_def]

theorem while_of_ascii {text : Str} (areAscii : ∀ c ∈ text, c.toNat < 128) :
    text.takeWhile isDecimal = text.takeWhile PromQl.isDigit ∧
      text.dropWhile isDecimal = text.dropWhile PromQl.isDigit := by
  induction text with
  | nil => exact ⟨rfl, rfl⟩
  | cons c rest ih =>
    obtain ⟨sameTake, sameDrop⟩ := ih (fun d member => areAscii d (.tail _ member))
    rw [List.takeWhile_cons, List.takeWhile_cons, List.dropWhile_cons, List.dropWhile_cons,
      isDecimal_of_ascii (areAscii c (.head _)), sameTake, sameDrop]
    exact ⟨rfl, rfl⟩

theorem isNumber_of_decimals {text : Str} (areAscii : ∀ c ∈ text, c.toNat < 128)
    (isWhole : text.takeWhile isDecimal ≠ [])
    (isRest : fractionPattern (text.dropWhile isDecimal)) : isNumber text := by
  obtain ⟨sameTake, sameDrop⟩ := while_of_ascii areAscii
  rw [sameTake] at isWhole
  have notEmpty : (text.takeWhile PromQl.isDigit).isEmpty = false := by
    rw [Bool.eq_false_iff]
    exact fun isEmpty => isWhole (List.isEmpty_iff.mp isEmpty)
  have inText : ∀ c ∈ text.dropWhile PromQl.isDigit, c ∈ text :=
    fun c member => (List.dropWhile_suffix _).subset member
  rw [sameDrop] at isRest
  unfold fractionPattern at isRest
  unfold isNumber
  simp only [notEmpty]
  split at isRest
  · rename_i isEmpty
    rw [isEmpty]
    rfl
  · rename_i fraction isFraction
    rw [isFraction] at inText ⊢
    simp only [Bool.and_eq_true, decide_eq_true_eq, List.all_eq_true] at isRest
    have notPoint : fraction.isEmpty = false :=
      List.isEmpty_eq_false_iff.mpr (List.length_pos_iff.mp isRest.1.1)
    have areDigits : fraction.all PromQl.isDigit := by
      apply List.all_eq_true.mpr
      intro c member
      rw [← isDecimal_of_ascii (areAscii c (inText c (.tail _ member)))]
      exact isRest.2 c member
    show (!false && !fraction.isEmpty && fraction.all PromQl.isDigit) = true
    rw [notPoint, areDigits]
    rfl
  · cases isRest

theorem number_of_pattern {arg : Str} (isPattern : numberPattern arg)
    (areAscii : ∀ c ∈ arg, c.toNat < 128) :
    isNumber arg ∨ ∃ size, arg = '-' :: size ∧ isNumber size := by
  unfold numberPattern at isPattern
  simp only [Bool.and_eq_true, decide_eq_true_eq] at isPattern
  obtain ⟨⟨isWhole, -⟩, isRest⟩ := isPattern
  split at isWhole
  · rename_i isSigned
    obtain ⟨size, rfl⟩ : ∃ size, arg = '-' :: size := by
      cases arg with
      | nil => cases isSigned
      | cons c size =>
        cases isSigned
        exact ⟨size, rfl⟩
    refine .inr ⟨size, rfl, ?_⟩
    exact isNumber_of_decimals (fun c member => areAscii c (.tail _ member))
      (List.length_pos_iff.mp isWhole) isRest
  · rename_i notSigned
    rw [if_neg notSigned] at isRest
    exact .inl (isNumber_of_decimals areAscii (List.length_pos_iff.mp isWhole) isRest)

theorem forms_compare (forms : Forms formed expr) (isCompare : op.1.group = .compare)
    (sound : Sound op) (areAscii : ∀ c ∈ op.2, c.toNat < 128) :
    Forms (formOne formed op) (.compare op.1.sign expr (.number op.2)) := by
  obtain ⟨left, isLeft, derives⟩ := forms.grouped
  have isPattern : numberPattern op.2 := by
    have takes := sound.takes
    rw [Kind.takes, isCompare] at takes
    exact (toEnd_eq sound.noLine).symm.trans takes
  have isSign : op.1.sign.isCompare ∧
      Whole (' ' :: (op.1.sign.text ++ [' '])) [.sign op.1.sign] := by
    obtain ⟨kind, arg⟩ := op
    cases kind with
    | ne | eq | gt | lt => exact ⟨rfl, rfl⟩
    | _ => cases isCompare
  obtain ⟨right, isRight, isNumber⟩ : ∃ right, Reads op.2 right ∧
      Derives .atom right (.number op.2) := by
    rcases number_of_pattern isPattern areAscii with isNumber | ⟨size, isSize, isNumber⟩
    · exact ⟨_, reads_number isNumber, .number isNumber⟩
    · have isMinus : Whole ['-'] [.minus] := rfl
      rw [isSize]
      exact ⟨_, isMinus.reads_append (reads_number isNumber), .negative isNumber⟩
  have isText : (formOne formed op).text =
      formed.grouped ++ ' ' :: ((op.1.sign.text ++ [' ']) ++ op.2) := by
    unfold formOne
    simp only [isCompare, List.append_assoc, List.singleton_append]
  refine ⟨left ++ .sign op.1.sign :: right, ?_, ?_⟩
  · rw [isText]
    exact isLeft.append_reads (ends_mem ' ' (by decide)) (isSign.2.reads_append isRight)
  · have isPrec : (formOne formed op).prec = 3 := by
      unfold formOne
      rw [isCompare]
    rw [isPrec]
    exact .compare isSign.1 (.alone derives) (.single isNumber)

omit [Unicode] in
theorem whole_of_aggs {kind : Kind} (isAgg : kind.group = .aggs) :
    Whole (kind.name ++ ['(']) [.word kind.name, .openParen] ∧
      Whole (kind.name ++ " by (".ascii) [.word kind.name, .word byWord, .openParen] := by
  cases kind with
  | sum | avg | min | max | count => exact ⟨rfl, rfl⟩
  | _ => cases isAgg

theorem forms_aggs (forms : Forms formed expr) (isAgg : op.1.group = .aggs) (sound : Sound op)
    (isWord : isNumberWord op.2 = false) :
    Forms (formOne formed op)
      (.aggregate op.1.name (if op.2 = [] then none else some op.2) expr) := by
  obtain ⟨inner, isInner, derives⟩ := forms
  have isName : op.1.name ∈ aggregators := Kind.name_of_aggs isAgg
  obtain ⟨isPlain, isBy⟩ := whole_of_aggs isAgg
  have isClose : Whole [')'] [.closeParen] := rfl
  have isBody : Reads (formed.text ++ [')']) (inner ++ [.closeParen]) :=
    isInner.append_reads (ends_mem ')' (by decide)) isClose.reads
  by_cases noArg : op.2 = []
  · have isFormed : formOne formed op = ⟨op.1.name ++ ['('] ++ (formed.text ++ [')']), 9⟩ := by
      unfold formOne
      simp only [isAgg, noArg, if_true, List.append_assoc, List.singleton_append]
    rw [isFormed, if_pos noArg]
    exact ⟨_, isPlain.reads_append isBody, .aggregate isName (comparison_of_derives derives)⟩
  · have isFormed : formOne formed op =
        ⟨op.1.name ++ " by (".ascii ++ (op.2 ++ ')' :: " (".ascii ++ (formed.text ++ [')'])), 9⟩ := by
      unfold formOne
      simp only [isAgg, noArg, if_false]
      rfl
    have isLabel' : isLabel op.2 := by
      have takes := sound.takes
      rw [Kind.takes, isAgg] at takes
      simp only [Bool.or_eq_true, decide_eq_true_eq, noArg, false_or] at takes
      rwa [toEnd_eq sound.noLine] at takes
    have isGroup : isGroupLabel op.2 := by
      rw [isGroupLabel, isLabel', isWord]
      rfl
    have isLabelText : Reads op.2 [.word op.2] := reads_word (Bool.and_eq_true_iff.mp isLabel').1
    have isMiddle : Whole (')' :: " (".ascii) [.closeParen, .openParen] := rfl
    have isTail := (isLabelText.append_whole (ends_mem ')' (by decide)) isMiddle).reads_append
      isBody
    rw [isFormed, if_neg noArg]
    exact ⟨_, isBy.reads_append isTail, .aggregateBy isName isGroup (comparison_of_derives derives)⟩

theorem range_of_op (isRange : op.1.group = .rangeOps ∨ op.1.group = .changesOps)
    (takes : op.1.takes op.2) :
    op.1.name ∈ rangeFunctions ∧ isDuration op.2 ∧
      Whole (op.1.name ++ ['(']) [.word op.1.name, .openParen] ∧
      Whole ('[' :: (op.2 ++ "])".ascii))
        [.openBracket, .duration op.2, .closeBracket, .closeParen] := by
  obtain ⟨kind, arg⟩ := op
  obtain ⟨window, isWindow, rfl⟩ : ∃ window ∈ changesWindows, window.1 = arg := by
    rcases isRange with isRange | isChanges
    · rw [Kind.takes, show kind.group = _ from isRange] at takes
      obtain ⟨window, member, same⟩ := List.mem_map.mp (List.contains_iff_mem.mp takes)
      exact ⟨window, windows_subset window member, same⟩
    · rw [Kind.takes, show kind.group = _ from isChanges] at takes
      exact List.mem_map.mp (List.contains_iff_mem.mp takes)
  have isOpen : Whole (kind.name ++ ['(']) [.word kind.name, .openParen] := by
    cases kind with
    | rate | increase | changes | resets => rfl
    | _ =>
      rcases isRange with isRange | isChanges
      · cases isRange
      · cases isChanges
  obtain ⟨-, isDuration, isRead⟩ := changesWindows_read window isWindow
  exact ⟨Kind.name_of_ranges isRange, isDuration, isOpen, isRead⟩

/-! ### The selector -/

omit [Unicode]

def Choice.text : Choice → Str
  | .keeps label values => matcher label values
  | .filtered filter => filter.text

def Choice.matcher : Choice → LabelMatcher
  | .keeps label values => matcherOf label values
  | .filtered filter => ⟨filter.label, filter.sign, filter.value⟩

def Choice.Valid : Choice → Prop
  | .keeps label values => isLabel label ∧ values ≠ []
  | .filtered filter => isLabel filter.label ∧ filter.sign.isMatch

theorem isName_of_isLabel {label : Str} (isLabel' : isLabel label) : isName label :=
  (Bool.and_eq_true_iff.mp isLabel').1

theorem Choice.Valid.whole {choice : Choice} (valid : choice.Valid) :
    Whole choice.text choice.matcher.tokens := by
  cases choice with
  | keeps label values => exact whole_matcherOf (isName_of_isLabel valid.1) values
  | filtered filter => exact whole_string (isName_of_isLabel valid.1) valid.2 filter.value

theorem Choice.Valid.said {choice : Choice} (valid : choice.Valid) :
    choice.SaidBy choice.matcher := by
  cases choice with
  | keeps label values =>
    refine ⟨?_, accepts_matcherOf label valid.2, ?_⟩
    · show (matcherOf label values).label = label
      unfold matcherOf
      split
      · rfl
      · rfl
    · rintro value rfl
      rfl
  | filtered filter => rfl

theorem Choice.Valid.wellFormed {choice : Choice} (valid : choice.Valid) :
    choice.matcher.WellFormed := by
  cases choice with
  | keeps label values =>
    show (matcherOf label values).WellFormed
    unfold matcherOf
    split
    · exact ⟨valid.1, rfl⟩
    · exact ⟨valid.1, rfl⟩
  | filtered filter => exact ⟨valid.1, valid.2⟩

theorem matchers_eq (spec : Spec) (iface : Str) (filters : List Filter) :
    matchers spec iface filters = (choices spec iface filters).map Choice.text := by
  unfold matchers choices
  rw [List.map_append, List.map_append, List.map_append, List.map_map]
  have sameIf : ∀ (p : Prop) [Decidable p] (choice : Choice),
      (if p then [] else [choice]).map Choice.text = if p then [] else [choice.text] := by
    intro p decidable choice
    split
    · rfl
    · rfl
  rw [sameIf, sameIf, sameIf]
  rfl

theorem valid_choices {spec : Spec} {iface : Str} {filters : List Filter}
    (isIface : iface = [] ∨ iface ∈ interfaceLabels)
    (areFilters : ∀ filter ∈ filters, isLabel filter.label ∧ filter.sign.isMatch) :
    ∀ choice ∈ choices spec iface filters, choice.Valid := by
  intro choice member
  unfold choices at member
  simp only [List.mem_append, List.mem_map] at member
  rcases member with ((isDev | isRole) | isIf) | ⟨filter, isFilter, rfl⟩
  · split at isDev
    · cases isDev
    · rename_i isChosen
      rw [List.mem_singleton.mp isDev]
      exact ⟨labels_read _ (.head _), isChosen⟩
  · split at isRole
    · cases isRole
    · rw [List.mem_singleton.mp isRole]
      exact ⟨labels_read _ (.tail _ (.head _)), List.cons_ne_nil _ _⟩
  · split at isIf
    · cases isIf
    · rename_i isChosen
      rw [List.mem_singleton.mp isIf]
      have isLabel' : iface ∈ interfaceLabels :=
        isIface.resolve_left (fun none => isChosen (.inr none))
      exact ⟨labels_read iface (.tail _ (.tail _ isLabel')), fun none => isChosen (.inl none)⟩
  · exact areFilters filter isFilter

theorem whole_choices {choices : List Choice} (valid : ∀ choice ∈ choices, choice.Valid) :
    Whole ([',', ' '].intercalate (choices.map Choice.text))
      (matchersTokens (choices.map Choice.matcher)) := by
  induction choices with
  | nil => rfl
  | cons first others ih =>
    have isFirst := (valid first (.head _)).whole
    have areOthers := ih (fun choice member => valid choice (.tail _ member))
    cases others with
    | nil => simpa [List.intercalate, matchersTokens] using isFirst
    | cons second more =>
      have isComma : Whole [',', ' '] [.comma] := rfl
      have isText : [',', ' '].intercalate ((first :: second :: more).map Choice.text) =
          first.text ++ ([',', ' '] ++
            [',', ' '].intercalate ((second :: more).map Choice.text)) := by
        simp [List.intercalate]
      rw [isText]
      exact isFirst.append (isComma.append areOthers)

theorem reads_selector {metric : Str} {choices : List Choice} (isMetric : isName metric)
    (valid : ∀ choice ∈ choices, choice.Valid) :
    Reads (selectorText metric (choices.map Choice.text))
      (Selector.tokens ⟨metric, choices.map Choice.matcher⟩) := by
  unfold selectorText Selector.tokens
  cases choices with
  | nil =>
    show Reads (metric ++ []) [.word metric]
    rw [List.append_nil]
    exact reads_word isMetric
  | cons first others =>
    rw [if_neg (by simp), if_neg (by simp)]
    have isOpen : Whole ['{'] [.openBrace] := rfl
    have isClose : Whole ['}'] [.closeBrace] := rfl
    have isBody := isOpen.append ((whole_choices valid).append isClose)
    exact ((reads_word isMetric).append_whole (ends_mem '{' (by decide)) isBody).reads

end

/-! ### The query -/

section
variable [Unicode] {formed : Formed} {expr : Expr} {op : Op} {ops : List Op} {spec : Spec}
  {selector : Selector}

structure OpReadable (op : Op) : Prop where
  group : op.1.group = .aggs → isNumberWord op.2 = false
  number : op.1.group = .compare → ∀ c ∈ op.2, c.toNat < 128

theorem forms_op (forms : Forms formed expr) (sound : Sound op) (readable : OpReadable op)
    (apart : op.1.group ≠ .rangeOps ∧ op.1.group ≠ .changesOps) :
    ∃ next, apply expr op = some next ∧ Forms (formOne formed op) next := by
  unfold apply
  rcases isGroup : op.1.group with - | - | - | - | -
  · exact absurd isGroup apart.1
  · exact absurd isGroup apart.2
  · exact ⟨_, rfl, forms_units forms isGroup⟩
  · exact ⟨_, rfl, forms_aggs forms isGroup sound (readable.group isGroup)⟩
  · exact ⟨_, rfl, forms_compare forms isGroup sound (readable.number isGroup)⟩

theorem forms_foldl (forms : Forms formed expr) (sound : ∀ op ∈ ops, Sound op)
    (readable : ∀ op ∈ ops, OpReadable op)
    (apart : ∀ op ∈ ops, op.1.group ≠ .rangeOps ∧ op.1.group ≠ .changesOps) :
    ∃ next, ops.foldlM apply expr = some next ∧ Forms (ops.foldl formOne formed) next := by
  induction ops generalizing formed expr with
  | nil => exact ⟨expr, rfl, forms⟩
  | cons op rest ih =>
    obtain ⟨next, isNext, formsNext⟩ := forms_op forms (sound op (.head _))
      (readable op (.head _)) (apart op (.head _))
    obtain ⟨last, isLast, formsLast⟩ := ih formsNext
      (fun one member => sound one (.tail _ member))
      (fun one member => readable one (.tail _ member))
      (fun one member => apart one (.tail _ member))
    refine ⟨last, ?_, formsLast⟩
    rw [List.foldlM_cons, isNext]
    exact isLast

theorem forms_chain {text : Str} (isText : Reads text selector.tokens)
    (wellFormed : selector.WellFormed) (chain : Chain ops) (readable : ∀ op ∈ ops, OpReadable op) :
    ∃ next, ops.foldlM apply (.selector selector) = some next ∧
      Forms (ops.foldl formOne ⟨text, 9⟩) next := by
  have formsText : Forms ⟨text, 9⟩ (.selector selector) := ⟨_, isText, .selector wellFormed⟩
  cases ops with
  | nil => exact ⟨_, rfl, formsText⟩
  | cons first rest =>
    have soundFirst := chain.sound first (.head _)
    have soundRest : ∀ op ∈ rest, Sound op := fun op member => chain.sound op (.tail _ member)
    have readableRest : ∀ op ∈ rest, OpReadable op := fun op member => readable op (.tail _ member)
    obtain ⟨next, isNext, formsNext⟩ : ∃ next, apply (.selector selector) first = some next ∧
        Forms (formOne ⟨text, 9⟩ first) next := by
      by_cases isRange : first.1.group = .rangeOps ∨ first.1.group = .changesOps
      · obtain ⟨isFunction, isWindow, isOpen, isClose⟩ := range_of_op isRange soundFirst.takes
        have isFormed : formOne ⟨text, 9⟩ first =
            ⟨first.1.name ++ ['('] ++ (text ++ '[' :: (first.2 ++ "])".ascii)), 9⟩ := by
          unfold formOne
          rcases isRange with isRange | isRange
          · simp only [isRange, List.append_assoc, List.singleton_append]
          · simp only [isRange, List.append_assoc, List.singleton_append]
        have isApplied : apply (.selector selector) first =
            some (.range first.1.name selector first.2) := by
          unfold apply
          rcases isRange with isRange | isRange
          · rw [isRange]
          · rw [isRange]
        rw [isFormed]
        exact ⟨_, isApplied, _, isOpen.reads_append
          (isText.append_reads (ends_mem '[' (by decide)) isClose.reads),
          .range isFunction isWindow wellFormed⟩
      · exact forms_op formsText soundFirst (readable first (.head _)) (not_or.mp isRange)
    obtain ⟨last, isLast, formsLast⟩ := forms_foldl formsNext soundRest readableRest chain.inFront
    refine ⟨last, ?_, formsLast⟩
    rw [List.foldlM_cons, isNext]
    exact isLast

omit [Unicode] in
theorem parses_top {text : Str} (top : spec.top = [] ∨ spec.top ∈ tops)
    (forms : Forms formed expr) (isText : text = if spec.top = [] then formed.text
      else "topk(".ascii ++ (spec.top ++ ", ".ascii ++ (formed.text ++ [')']))) :
    ∃ tokens, lex text = some tokens ∧
      Derives .comparison tokens (if spec.top = [] then expr else .topk spec.top expr) := by
  obtain ⟨inner, isInner, derives⟩ := forms
  rw [isText]
  by_cases noTop : spec.top = []
  · rw [if_pos noTop, if_pos noTop]
    exact ⟨inner, reads_iff.mp isInner, comparison_of_derives derives⟩
  · obtain ⟨isNumber, isOpen⟩ := tops_read spec.top (top.resolve_left noTop)
    have isClose : Whole [')'] [.closeParen] := rfl
    have isBody : Reads (formed.text ++ [')']) (inner ++ [.closeParen]) :=
      isInner.append_reads (ends_mem ')' (by decide)) isClose.reads
    rw [if_neg noTop, if_neg noTop, ← List.append_assoc]
    exact ⟨_, reads_iff.mp (isOpen.reads_append isBody),
      comparison_of_derives (.topk isNumber (comparison_of_derives derives))⟩

omit [Unicode] in
theorem ascii_of_isNumber {text : Str} (isText : isNumber text) : ∀ c ∈ text, c.toNat < 128 := by
  have ofDigit : ∀ c, PromQl.isDigit c → c.toNat < 128 := by
    intro c isDigit
    simp only [PromQl.isDigit, Bool.and_eq_true, decide_eq_true_eq, Char.le_def,
      UInt32.le_iff_toNat_le] at isDigit
    have high : c.val.toNat ≤ 57 := isDigit.2
    exact Nat.lt_of_le_of_lt high (by decide)
  obtain ⟨first, rest, rfl, isFirst, areRest⟩ := digits_of_isNumber isText
  intro c member
  rcases List.mem_cons.mp member with rfl | isLater
  · exact ofDigit c isFirst
  · rcases areRest c isLater with isDigit | rfl
    · exact ofDigit c isDigit
    · decide

omit [Unicode] in
theorem apply_range {next : Expr} (isRange : op.1.group = .rangeOps ∨ op.1.group = .changesOps)
    (isNext : apply expr op = some next) :
    ∃ selector, expr = .selector selector ∧ next = .range op.1.name selector op.2 := by
  unfold apply at isNext
  cases expr with
  | selector selector =>
    rcases isRange with isRange | isRange
    · rw [isRange] at isNext
      cases isNext
      exact ⟨selector, rfl, rfl⟩
    · rw [isRange] at isNext
      cases isNext
      exact ⟨selector, rfl, rfl⟩
  | _ =>
    rcases isRange with isRange | isRange
    · rw [isRange] at isNext
      cases isNext
    · rw [isRange] at isNext
      cases isNext

omit [Unicode] in
theorem wellFormed_apply {next : Expr} (isNext : apply expr op = some next)
    (wellFormed : next.WellFormed) : expr.WellFormed ∧ OpReadable op := by
  by_cases isRange : op.1.group = .rangeOps ∨ op.1.group = .changesOps
  · obtain ⟨selector, rfl, rfl⟩ := apply_range isRange isNext
    refine ⟨wellFormed.2.2, fun isAgg => ?_, fun isCompare => ?_⟩
    · rw [isAgg] at isRange
      rcases isRange with isRange | isRange
      · cases isRange
      · cases isRange
    · rw [isCompare] at isRange
      rcases isRange with isRange | isRange
      · cases isRange
      · cases isRange
  unfold apply at isNext
  rcases isGroup : op.1.group with - | - | - | - | -
  · exact absurd (.inl isGroup) isRange
  · exact absurd (.inr isGroup) isRange
  · rw [isGroup] at isNext
    cases isNext
    refine ⟨wellFormed.1, fun isAgg => ?_, fun isCompare => ?_⟩
    · rw [isGroup] at isAgg
      cases isAgg
    · rw [isGroup] at isCompare
      cases isCompare
  · rw [isGroup] at isNext
    cases isNext
    refine ⟨wellFormed.2.2, fun _ => ?_, fun isCompare => ?_⟩
    · by_cases noArg : op.2 = []
      · rw [noArg]
        rfl
      · have isLabel := wellFormed.2.1 op.2
        rw [if_neg noArg] at isLabel
        simpa using (Bool.and_eq_true_iff.mp (isLabel rfl)).2
    · rw [isGroup] at isCompare
      cases isCompare
  · rw [isGroup] at isNext
    cases isNext
    refine ⟨wellFormed.2.1, fun isAgg => ?_, fun _ => ?_⟩
    · rw [isGroup] at isAgg
      cases isAgg
    · rcases wellFormed.2.2 with isNumber | ⟨size, isSize, isNumber⟩
      · exact ascii_of_isNumber isNumber
      · rw [isSize]
        exact List.forall_mem_cons.mpr ⟨by decide, ascii_of_isNumber isNumber⟩

omit [Unicode] in
theorem wellFormed_foldlM {last : Expr} (isLast : ops.foldlM apply expr = some last)
    (wellFormed : last.WellFormed) : expr.WellFormed ∧ ∀ op ∈ ops, OpReadable op := by
  induction ops generalizing expr with
  | nil =>
    cases isLast
    exact ⟨wellFormed, fun op member => (List.not_mem_nil member).elim⟩
  | cons op rest ih =>
    obtain ⟨next, isNext, isRest⟩ := Option.bind_eq_some_iff.mp
      ((List.foldlM_cons ..).symm.trans isLast)
    obtain ⟨wellFormedNext, areReadable⟩ := ih isRest
    obtain ⟨wellFormedFirst, isReadable⟩ := wellFormed_apply isNext wellFormedNext
    exact ⟨wellFormedFirst, List.forall_mem_cons.mpr ⟨isReadable, areReadable⟩⟩

omit [Unicode] in
theorem values_apply {next : Expr} (isNext : apply expr op = some next) :
    next.values = expr.values := by
  by_cases isRange : op.1.group = .rangeOps ∨ op.1.group = .changesOps
  · obtain ⟨selector, rfl, rfl⟩ := apply_range isRange isNext
    rfl
  unfold apply at isNext
  rcases isGroup : op.1.group with - | - | - | - | -
  · exact absurd (.inl isGroup) isRange
  · exact absurd (.inr isGroup) isRange
  · rw [isGroup] at isNext
    cases isNext
    exact List.append_nil _
  · rw [isGroup] at isNext
    cases isNext
    rfl
  · rw [isGroup] at isNext
    cases isNext
    exact List.append_nil _

omit [Unicode] in
theorem values_foldlM {last : Expr} (isLast : ops.foldlM apply expr = some last) :
    last.values = expr.values := by
  induction ops generalizing expr with
  | nil =>
    cases isLast
    rfl
  | cons op rest ih =>
    obtain ⟨next, isNext, isRest⟩ := Option.bind_eq_some_iff.mp
      ((List.foldlM_cons ..).symm.trans isLast)
    exact (ih isRest).trans (values_apply isNext)

omit [Unicode] in
theorem readable_of_asked {matchers : List LabelMatcher}
    (isAsked : asked spec ops ⟨spec.m, matchers⟩ = some expr) (wellFormed : expr.WellFormed) :
    Readable spec ops := by
  obtain ⟨inner, isInner, isTop⟩ := Option.bind_eq_some_iff.mp isAsked
  have wellFormedInner : inner.WellFormed := by
    by_cases noTop : spec.top = []
    · rw [if_pos noTop] at isTop
      cases isTop
      exact wellFormed
    · rw [if_neg noTop] at isTop
      cases isTop
      exact wellFormed.2
  obtain ⟨wellFormedSelector, areReadable⟩ := wellFormed_foldlM isInner wellFormedInner
  exact ⟨wellFormedSelector.metric, fun op member => (areReadable op member).group,
    fun op member => (areReadable op member).number⟩

/-- The query of a question says exactly its choices where PromQL can read them. -/
theorem build_says_iff (values : Values) (kind unit : Str) (labels : List Str)
    (hasMetric : (ask values).m ≠ []) :
    ∃ tokens ops filters query, checkOps (ask values) kind unit labels = some tokens ∧
      tokens.mapM parseOp = some ops ∧ (ask values).f.mapM parseFilter = some filters ∧
      build (ask values) (interfaceLabel labels) tokens = some query ∧
      (Says (ask values) (interfaceLabel labels) filters ops query ↔ Readable (ask values) ops) := by
  have isQuestion := asked_ask values
  obtain ⟨tokens, ops, isChecked, areOps, chain⟩ := checkOps_chain isQuestion kind unit labels
  obtain ⟨filters, areFilters, soundFilters⟩ := isQuestion.filters
  have isIface : interfaceLabel labels = [] ∨ interfaceLabel labels ∈ interfaceLabels := by
    unfold interfaceLabel
    rcases isFound : interfaceLabels.find? (labels.contains ·) with - | label
    · exact Or.inl rfl
    · exact Or.inr (List.mem_of_find?_eq_some isFound)
  have valid : ∀ choice ∈ choices (ask values) (interfaceLabel labels) filters, choice.Valid :=
    valid_choices isIface soundFilters
  have isBuilt : ∃ query, build (ask values) (interfaceLabel labels) tokens = some query ∧
      query = if (ask values).top = [] then (ops.foldl formOne ⟨selectorText (ask values).m
          ((choices (ask values) (interfaceLabel labels) filters).map Choice.text), 9⟩).text
        else "topk(".ascii ++ ((ask values).top ++ ", ".ascii ++
          ((ops.foldl formOne ⟨selectorText (ask values).m
          ((choices (ask values) (interfaceLabel labels) filters).map Choice.text), 9⟩).text ++
            [')'])) := by
    unfold build
    rw [areFilters, areOps, ← matchers_eq]
    exact ⟨_, rfl, rfl⟩
  obtain ⟨query, isQuery, isText⟩ := isBuilt
  refine ⟨tokens, ops, filters, query, isChecked, areOps, areFilters, isQuery, ?_, ?_⟩
  · rintro ⟨read, matchers, expr, isLexed, isAsked, isOnly, -, -⟩
    exact readable_of_asked isAsked ((isOnly expr).mpr rfl).wellFormed
  · intro readable
    have wellFormed : Selector.WellFormed ⟨(ask values).m,
        (choices (ask values) (interfaceLabel labels) filters).map Choice.matcher⟩ := by
      refine ⟨readable.metric, ?_⟩
      intro matcher member
      obtain ⟨choice, isChoice, rfl⟩ := List.mem_map.mp member
      exact (valid choice isChoice).wellFormed
    have isSelector := reads_selector (isQuestion.metric.resolve_left hasMetric) valid
    obtain ⟨inner, isInner, forms⟩ := forms_chain isSelector wellFormed chain
      (fun op member => ⟨readable.groups op member, readable.numbers op member⟩)
    obtain ⟨read, isLexed, derives⟩ := parses_top isQuestion.top forms isText
    have isAsked : asked (ask values) ops ⟨(ask values).m,
        (choices (ask values) (interfaceLabel labels) filters).map Choice.matcher⟩ =
        some (if (ask values).top = [] then inner else .topk (ask values).top inner) := by
      unfold asked
      rw [isInner]
      rfl
    refine ⟨read, _, _, isLexed, isAsked, ?_, ?_, ?_⟩
    · intro other
      constructor
      · intro isOther
        exact isOther.unique derives
      · rintro rfl
        exact derives
    · rw [derives.strings_eq]
      have isValues := values_foldlM isInner
      split
      · exact isValues
      · exact isValues
    · rw [List.forall₂_map_right_iff]
      exact List.forall₂_same.mpr (fun choice member => (valid choice member).said)

end

/-! ### Two questions -/

def address (pairs : List (Str × Str)) : Values where
  get key := (pairs.find? (fun pair => pair.1 = key)).map Prod.snd
  getlist key := (pairs.filter (fun pair => pair.1 = key)).map Prod.snd

/-- Bytes in of two devices, as bits a second for each role above a number, the five highest. -/
def bitsPerRole : Values :=
  address [("m".ascii, "ifHCInOctets".ascii), ("dev".ascii, "r1".ascii), ("dev".ascii, "r.2".ascii),
    ("if".ascii, "Gi0/1".ascii), ("f".ascii, "alias != a\"b".ascii), ("op".ascii, "bits".ascii),
    ("op".ascii, "gt:-5".ascii), ("op".ascii, "sum:role".ascii), ("top".ascii, "5".ascii)]

theorem bitsPerRole_says :
    letI : Unicode := basicLatin
    (ask bitsPerRole).m ≠ [] ∧
      ∃ tokens ops filters query, checkOps (ask bitsPerRole) "counter".ascii "bytes".ascii
          ["role".ascii, "ifName".ascii] = some tokens ∧
        tokens.mapM parseOp = some ops ∧ (ask bitsPerRole).f.mapM parseFilter = some filters ∧
        build (ask bitsPerRole) (interfaceLabel ["role".ascii, "ifName".ascii]) tokens =
          some query ∧
        (Says (ask bitsPerRole) (interfaceLabel ["role".ascii, "ifName".ascii]) filters ops query ↔
          Readable (ask bitsPerRole) ops) :=
  have hasMetric : letI : Unicode := basicLatin
      (ask bitsPerRole).m ≠ [] := by decide
  letI : Unicode := basicLatin
  ⟨hasMetric, build_says_iff bitsPerRole "counter".ascii "bytes".ascii
    ["role".ascii, "ifName".ascii] hasMetric⟩

def isArabicDigit (c : Char) : Bool := 0x660 ≤ c.toNat && c.toNat ≤ 0x669

theorem isArabicDigit_ascii {c : Char} (ascii : c.toNat < 128) : isArabicDigit c = false := by
  rw [isArabicDigit, decide_eq_false (by omega), Bool.false_and]

theorem isArabicDigit_not_space {c : Char} (arabic : isArabicDigit c) : isSpace c = false := by
  simp only [isArabicDigit, Bool.and_eq_true, decide_eq_true_eq] at arabic
  simp only [isSpace, Bool.or_eq_false_iff, Bool.and_eq_false_iff, decide_eq_false_iff_not,
    List.contains_eq_mem, List.mem_cons, List.not_mem_nil, or_false]
  refine ⟨⟨⟨?_, ?_⟩, ?_⟩, ?_⟩
  all_goals omega

def latinOrArabic (c : Char) : Option Nat :=
  if isArabicDigit c then some (c.toNat - 0x660) else basicLatin.decimal c

theorem latinOrArabic_ascii (c : Char) (ascii : c.toNat < 128) :
    latinOrArabic c = if c.isDigit then some (c.toNat - 48) else none := by
  rw [latinOrArabic, isArabicDigit_ascii ascii]
  rfl

theorem latinOrArabic_not_space (c : Char) (digit : (latinOrArabic c).isSome) :
    isSpace c = false := by
  unfold latinOrArabic at digit
  split at digit
  · rename_i arabic
    exact isArabicDigit_not_space arabic
  · exact basicLatin.decimal_not_space c digit

theorem isAlnum_or_arabic (c : Char) (ascii : c.toNat < 128) :
    (basicLatin.isAlnum c || isArabicDigit c) = c.isAlphanum := by
  rw [isArabicDigit_ascii ascii, Bool.or_false]
  exact basicLatin.isAlnum_ascii c ascii

@[reducible] def arabicDigits : Unicode where
  isAlnum c := basicLatin.isAlnum c || isArabicDigit c
  decimal := latinOrArabic
  isAlnum_ascii := isAlnum_or_arabic
  decimal_ascii := latinOrArabic_ascii
  decimal_not_space := latinOrArabic_not_space

def aboveThree : Values :=
  address [("m".ascii, "up".ascii), ("op".ascii, "gt:".ascii ++ [Char.ofNat 0x663])]

/-- The operation is taken, and the query is no PromQL. -/
theorem arabic_three_unread :
    letI : Unicode := arabicDigits
    ∃ tokens ops filters query, checkOps (ask aboveThree) "gauge".ascii [] [] = some tokens ∧
      tokens.mapM parseOp = some ops ∧ (ask aboveThree).f.mapM parseFilter = some filters ∧
      build (ask aboveThree) (interfaceLabel []) tokens = some query ∧
      query = "up > ".ascii ++ [Char.ofNat 0x663] ∧ lex query = none ∧
      ¬ Says (ask aboveThree) (interfaceLabel []) filters ops query := by
  have formed : letI : Unicode := arabicDigits
      checkOps (ask aboveThree) "gauge".ascii [] [] =
          some ["gt:".ascii ++ [Char.ofNat 0x663]] ∧
        ["gt:".ascii ++ [Char.ofNat 0x663]].mapM parseOp =
          some [(.gt, [Char.ofNat 0x663])] ∧
        (ask aboveThree).f.mapM parseFilter = some [] ∧
        build (ask aboveThree) (interfaceLabel []) ["gt:".ascii ++ [Char.ofNat 0x663]] =
          some ("up > ".ascii ++ [Char.ofNat 0x663]) ∧
        lex ("up > ".ascii ++ [Char.ofNat 0x663]) = none := by decide
  obtain ⟨isChecked, areOps, areFilters, isQuery, isUnread⟩ := formed
  refine ⟨_, _, _, _, isChecked, areOps, areFilters, isQuery, rfl, isUnread, ?_⟩
  rintro ⟨read, matchers, expr, isLexed, -⟩
  rw [isUnread] at isLexed
  cases isLexed

end Nmas.History
