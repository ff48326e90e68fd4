import Nmas.History.Ask

/-!
Contract: the metrics builder, from the address to its query.

Owns: the question of `history_promq.py` (`ask`, `parse_filter`, `parse_op` and
the form's operations), the chain a metric can take (`check_ops`), and the query
and selector of `build`.

Does not own: what is said of a choice left out and of the query's parts, the
range, and what Prometheus holds.
-/

namespace Nmas.History

open Nmas.Text Nmas.PromQl

/-! ### The tables -/

/-- `WINDOWS`, in seconds. -/
def windows : List (Str × Nat) :=
  [("1m".ascii, 60), ("5m".ascii, 300), ("15m".ascii, 900), ("1h".ascii, 3600)]

def changesWindows : List (Str × Nat) :=
  windows ++ [("1d".ascii, 86400), ("7d".ascii, 7 * 86400), ("30d".ascii, 30 * 86400),
    ("90d".ascii, 90 * 86400)]

theorem windows_subset : ∀ window ∈ windows, window ∈ changesWindows :=
  fun _ member => List.mem_append_left _ member

theorem changesWindows_read : ∀ window ∈ changesWindows, window.1.getLast? ≠ some '\n' ∧
    isDuration window.1 ∧ Whole ('[' :: (window.1 ++ "])".ascii))
      [.openBracket, .duration window.1, .closeBracket, .closeParen] := by
  decide

def ranges : List (Str × Nat) :=
  [("1h".ascii, 3600), ("24h".ascii, 86400), ("7d".ascii, 7 * 86400), ("30d".ascii, 30 * 86400),
    ("90d".ascii, 90 * 86400)]

inductive Kind where
  | rate | increase | changes | resets | bits | perMin | sum | avg | min | max | count
  | ne | eq | gt | lt
deriving DecidableEq

inductive Group where
  | rangeOps | changesOps | unitOps | aggs | compare
deriving DecidableEq

namespace Kind

def all : List Kind :=
  [.rate, .increase, .changes, .resets, .bits, .perMin, .sum, .avg, .min, .max, .count, .ne, .eq,
    .gt, .lt]

def name : Kind → Str
  | .rate => "rate".ascii
  | .increase => "increase".ascii
  | .changes => "changes".ascii
  | .resets => "resets".ascii
  | .bits => "bits".ascii
  | .perMin => "per_min".ascii
  | .sum => "sum".ascii
  | .avg => "avg".ascii
  | .min => "min".ascii
  | .max => "max".ascii
  | .count => "count".ascii
  | .ne => "ne".ascii
  | .eq => "eq".ascii
  | .gt => "gt".ascii
  | .lt => "lt".ascii

def group : Kind → Group
  | .rate | .increase => .rangeOps
  | .changes | .resets => .changesOps
  | .bits | .perMin => .unitOps
  | .sum | .avg | .min | .max | .count => .aggs
  | .ne | .eq | .gt | .lt => .compare

def factor : Kind → Str
  | .bits => "8".ascii
  | _ => "60".ascii

def sign : Kind → Sign
  | .ne => .notEqual
  | .eq => .equalEqual
  | .gt => .greater
  | _ => .less

theorem mem_all (kind : Kind) : kind ∈ all := by
  cases kind
  all_goals decide

theorem name_of_all : ∀ kind ∈ all, (∀ c ∈ kind.name, decide (c ≠ ':') = true) ∧
    all.find? (fun one => one.name = kind.name) = some kind := by
  decide

theorem name_of_aggs {kind : Kind} (isAgg : kind.group = .aggs) : kind.name ∈ aggregators := by
  cases kind with
  | sum | avg | min | max | count => simp [name, aggregators]
  | _ => cases isAgg

theorem name_of_ranges {kind : Kind} (isRange : kind.group = .rangeOps ∨ kind.group = .changesOps) :
    kind.name ∈ rangeFunctions := by
  cases kind with
  | rate | increase | changes | resets => simp [name, rangeFunctions]
  | _ => simp [group] at isRange

end Kind

def interfaceLabels : List Str := ["ifDescr".ascii, "ifName".ascii]

def deviceLabel : Str := "device".ascii

def roleLabel : Str := "role".ascii

theorem labels_read : ∀ label ∈ deviceLabel :: roleLabel :: interfaceLabels, isLabel label := by
  decide

def tops : List Str := ["5".ascii, "10".ascii]

theorem tops_read : ∀ top ∈ tops, isNumber top ∧
    Whole ("topk(".ascii ++ (top ++ ", ".ascii))
      [.word topkWord, .openParen, .number top, .comma] := by
  decide

/-! ### The address -/

/-- A pattern that ends in `$`, which also matches before a newline that ends the text. -/
def toEnd (pattern : Str → Bool) (text : Str) : Bool :=
  pattern text || (text.getLast? = some '\n' && pattern text.dropLast)

section
variable [Unicode]

/-- `(?:\.\d{1,6})?`, up to its end. -/
def fractionPattern (text : Str) : Bool :=
  match text with
  | [] => true
  | '.' :: fraction => 1 ≤ fraction.length && fraction.length ≤ 6 && fraction.all isDecimal
  | _ => false

/-- `_NUMBER`, up to its end: `-?\d{1,12}(?:\.\d{1,6})?`. -/
def numberPattern (text : Str) : Bool :=
  let unsigned := if text.head? = some '-' then text.drop 1 else text
  let whole := unsigned.takeWhile isDecimal
  1 ≤ whole.length && whole.length ≤ 12 && fractionPattern (unsigned.dropWhile isDecimal)

/-- Whether an operation takes its argument. -/
def Kind.takes (kind : Kind) (arg : Str) : Bool :=
  match kind.group with
  | .rangeOps => (windows.map Prod.fst).contains arg
  | .changesOps => (changesWindows.map Prod.fst).contains arg
  | .unitOps => arg = []
  | .aggs => arg = [] || toEnd isLabel arg
  | .compare => toEnd numberPattern arg

abbrev Op := Kind × Str

def parseOp (token : Str) : Option Op := do
  let arg := (token.dropWhile (fun c => c ≠ ':')).drop 1
  let kind ← Kind.all.find? (fun kind => kind.name = token.takeWhile (fun c => c ≠ ':'))
  if kind.takes arg then some (kind, arg) else none

end

def opToken (kind arg : Str) : Str :=
  if kind = Kind.bits.name ∨ kind = Kind.perMin.name then kind else kind ++ ':' :: arg

/-- The operators of `_FILTER`. -/
def filterSign (text : Str) : Option Sign :=
  [Sign.equal, .notEqual, .regex, .notRegex].find? (fun sign => sign.text = text)

structure Filter where
  label : Str
  sign : Sign
  value : Str
deriving DecidableEq

def parseFilter (token : Str) : Option Filter := do
  let label := token.takeWhile (fun c => c ≠ ' ')
  let after := token.dropWhile (fun c => c ≠ ' ')
  let sign ← filterSign ((after.drop 1).takeWhile (fun c => c ≠ ' '))
  let last := (after.drop 1).dropWhile (fun c => c ≠ ' ')
  if isLabel label ∧ after ≠ [] ∧ last ≠ [] then some ⟨label, sign, last.drop 1⟩ else none

def filterToken (label sign value : Str) : Str := label ++ ' ' :: (sign ++ ' ' :: value)

structure Values where
  get : Str → Option Str
  getlist : Str → List Str

/-- `read_values` of one key. -/
def Values.one (values : Values) (key : Str) : Str := strip ((values.get key).getD [])

/-- `read_values` of a repeatable key. -/
def Values.many (values : Values) (key : Str) : List Str :=
  (((values.getlist key).map strip).filter (fun value => value ≠ [])).eraseDups

def changesWindow (seconds : Nat) : Str :=
  ((changesWindows.filter (fun window => window.2 ≤ seconds)).foldl (fun longest window =>
    if longest.2 < window.2 then window else longest) ("1m".ascii, 0)).1

def formOp (seconds : Nat) (kind arg : Str) : Str :=
  if kind ∈ [Kind.rate.name, Kind.increase.name] ∧ arg ∉ windows.map Prod.fst then
    opToken kind "5m".ascii
  else if kind ∈ [Kind.changes.name, Kind.resets.name] ∧ arg ∉ changesWindows.map Prod.fst then
    opToken kind (changesWindow seconds)
  else opToken kind arg

def Values.selects (values : Values) : List (Str × Str) :=
  ["1", "2", "3", "4", "5", "6"].map (fun index =>
    (values.one ("ok".ascii ++ index.ascii), values.one ("oa".ascii ++ index.ascii)))

def opsFromForm (values : Values) (rangeKey : Str) : List Str :=
  let seconds := ((ranges.find? (fun range => range.1 = rangeKey)).map Prod.snd).getD 86400
  (values.selects.takeWhile (fun select => select.1 ≠ [])).map (fun select =>
    formOp seconds select.1 select.2)

structure Spec where
  m : Str
  dev : List Str
  role : Str
  ifs : List Str
  f : List Str
  op : List Str
  top : Str

section
variable [Unicode]

/-- The filters of the address, with the one the editor adds. -/
def Values.filters (values : Values) : List Str :=
  if values.one "fadd".ascii ≠ [] ∧ values.one "fl".ascii ≠ [] then
    values.many "f".ascii ++ [filterToken (values.one "fl".ascii)
      (if values.one "fo".ascii = [] then ['='] else values.one "fo".ascii)
      (values.one "fv".ascii)]
  else values.many "f".ascii

/-- The operations of the address, or of the form. -/
def Values.ops (values : Values) : List Str :=
  if values.one "ok1".ascii ≠ [] then
    opsFromForm values ((values.get "range".ascii).elim "24h".ascii strip)
  else values.many "op".ascii

/-- Whether a filter is one, its value no longer than is taken. -/
def keepsFilter (token : Str) : Bool :=
  match parseFilter token with
  | none => false
  | some filter =>
    filter.value.length ≤ if filter.sign = .regex ∨ filter.sign = .notRegex then 200 else 128

def ask (values : Values) : Spec where
  m := if toEnd isName (values.one "m".ascii) then values.one "m".ascii else []
  dev := (values.many "dev".ascii).filter (fun value => value.length ≤ 128)
  role := if (values.one "role".ascii).length ≤ 128 then values.one "role".ascii else []
  ifs := (values.many "if".ascii).filter (fun value => value.length ≤ 128)
  f := (values.filters.filter keepsFilter).take 8
  op := (values.ops.filter (fun token => (parseOp token).isSome)).take 6
  top := if values.one "top".ascii ∈ tops then values.one "top".ascii else []

/-! ### The chain -/

/-- What `check_ops` knows of the series at a step. -/
structure Checking where
  held : List Str
  rated : Bool
  counted : Bool
  ops : List Op

/-- The chain's tokens: a counter's starts with a rate or an increase. -/
def chainTokens (spec : Spec) (kind : Str) : List Str :=
  let first := spec.op.head?.bind parseOp
  if kind = "counter".ascii ∧ ¬ (first.map (fun op => op.1.group)) = some .rangeOps then
    "rate:5m".ascii :: spec.op
  else spec.op

/-- One operation of `check_ops`. -/
def checkOp (kind unit : Str) (isFirst : Bool) (checking : Checking) (op : Op) : Checking :=
  let kept := { checking with ops := checking.ops ++ [op] }
  match op.1.group with
  | .rangeOps =>
    if isFirst = false ∨ kind = "gauge".ascii then checking else { kept with rated := true }
  | .changesOps =>
    if kind = "counter".ascii ∨ isFirst = false then checking else { kept with counted := true }
  | .unitOps =>
    if op.1 = .bits then
      if checking.counted ∨ unit ≠ "bytes".ascii then checking else kept
    else if checking.rated then kept else checking
  | .aggs =>
    if op.2 ≠ [] ∧ op.2 ∉ checking.held then checking
    else { kept with held := if op.2 = [] then [] else [op.2] }
  | .compare => kept

/-- The operations kept of a chain. -/
def checkAll (kind unit : Str) (start : Checking) : List Op → Checking
  | [] => start
  | first :: rest => rest.foldl (checkOp kind unit false) (checkOp kind unit true start first)

/-- `check_ops`; nothing where a token is no operation. -/
def checkOps (spec : Spec) (kind unit : Str) (labels : List Str) : Option (List Str) := do
  let ops ← (chainTokens spec kind).mapM parseOp
  let checked := checkAll kind unit ⟨labels, false, false, []⟩ ops
  some (checked.ops.map (fun op => opToken op.1.name op.2))

/-! ### The query -/

def interfaceLabel (labels : List Str) : Str := (interfaceLabels.find? (labels.contains ·)).getD []

def Filter.text (filter : Filter) : Str := filter.label ++ (filter.sign.text ++ string filter.value)

def matchers (spec : Spec) (iface : Str) (filters : List Filter) : List Str :=
  (if spec.dev = [] then [] else [matcher deviceLabel spec.dev]) ++
    (if spec.role = [] then [] else [matcher roleLabel [spec.role]]) ++
    (if spec.ifs = [] ∨ iface = [] then [] else [matcher iface spec.ifs]) ++
    filters.map Filter.text

def selectorText (metric : Str) (sel : List Str) : Str :=
  metric ++ if sel = [] then [] else '{' :: ([',', ' '].intercalate sel ++ ['}'])

/-- A text with how tightly it holds together: 9 for an atom. -/
structure Formed where
  text : Str
  prec : Nat

def Formed.grouped (formed : Formed) : Str :=
  if formed.prec < 5 then '(' :: (formed.text ++ [')']) else formed.text

/-- One operation of `build`. -/
def formOne (formed : Formed) (op : Op) : Formed :=
  match op.1.group with
  | .rangeOps | .changesOps =>
    ⟨op.1.name ++ '(' :: (formed.text ++ '[' :: (op.2 ++ "])".ascii)), 9⟩
  | .unitOps => ⟨formed.grouped ++ " * ".ascii ++ op.1.factor, 5⟩
  | .compare => ⟨formed.grouped ++ ' ' :: (op.1.sign.text ++ ' ' :: op.2), 3⟩
  | .aggs =>
    if op.2 = [] then ⟨op.1.name ++ '(' :: (formed.text ++ [')']), 9⟩
    else ⟨op.1.name ++ " by (".ascii ++ (op.2 ++ ") (".ascii ++ (formed.text ++ [')'])), 9⟩

/-- The query of `build`; nothing where a token is no filter or operation. -/
def build (spec : Spec) (iface : Str) (ops : List Str) : Option Str := do
  let filters ← spec.f.mapM parseFilter
  let chain ← ops.mapM parseOp
  let selector := selectorText spec.m (matchers spec iface filters)
  let formed := chain.foldl formOne ⟨selector, 9⟩
  some (if spec.top = [] then formed.text
    else "topk(".ascii ++ (spec.top ++ ", ".ascii ++ (formed.text ++ [')'])))

end

end Nmas.History
