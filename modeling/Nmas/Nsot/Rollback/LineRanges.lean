import Nmas.Nsot.Program

/-!
Owns: terminal-line ranges. A device has its console and its virtual terminals
whether or not the configuration names them, so a `line` header over lines that
the device already had regroups them. `lineRangeHeld` recognises such a header
and `lineRangeUndo` takes back what was set under it, line by line.
-/

namespace Nmas.Nsot.Rollback

open Nmas.Text List

/-- A parsed `line` header: the kind of line and the range of its numbers. -/
structure LineRange where
  kind : Str
  first : Nat
  last : Nat
deriving DecidableEq

structure LineStanza where
  header : Str
  range : LineRange
  children : List Str
deriving DecidableEq

def LineStanza.has (stanza : LineStanza) (kind : Str) (number : Nat) : Bool :=
  stanza.range.kind == kind && stanza.range.first ≤ number && number ≤ stanza.range.last

/-- `range(first, last + 1)`. -/
def LineRange.numbers (range : LineRange) : List Nat :=
  List.range' range.first (range.last + 1 - range.first)

section Parse

variable [Unicode]

/-- `int()` of a run of decimal digits. -/
def decimalValue (digits : Str) : Nat :=
  digits.foldl (fun value c => 10 * value + (Unicode.decimal c).getD 0) 0

/-- `_line_range`: the pattern's three groups are whole words. -/
def lineRange (header : Str) : Option LineRange :=
  if startsIndented header then none
  else
    match words header with
    | [lead, kind, first] =>
      if lead = "line".ascii ∧ first.all isDecimal then
        some ⟨kind, decimalValue first, decimalValue first⟩
      else none
    | [lead, kind, first, last] =>
      if lead = "line".ascii ∧ first.all isDecimal ∧ last.all isDecimal then
        some ⟨kind, decimalValue first, decimalValue last⟩
      else none
    | _ => none

theorem head_words_of_lineRange {header : Str} {range : LineRange}
    (parsed : lineRange header = some range) : (words header).head? = some "line".ascii := by
  unfold lineRange at parsed
  split at parsed
  · cases parsed
  · split at parsed
    · rename_i isWords
      rw [isWords]
      split_ifs at parsed with isLine
      rw [isLine.1]
      rfl
    · rename_i isWords
      rw [isWords]
      split_ifs at parsed with isLine
      rw [isLine.1]
      rfl
    · cases parsed

def stanzaChildren : List Str → List Str
  | [] => []
  | raw :: rest =>
    if strip (rstrip raw) = [] then stanzaChildren rest
    else if startsIndented (rstrip raw) then rstrip raw :: stanzaChildren rest
    else []

/-- `_pre_line_stanzas` of the lines of a configuration. -/
def lineStanzasFrom : List Str → List LineStanza
  | [] => []
  | raw :: rest =>
    if strip (rstrip raw) = [] ∨ startsIndented (rstrip raw) then lineStanzasFrom rest
    else
      match lineRange (rstrip raw) with
      | some range => ⟨rstrip raw, range, stanzaChildren rest⟩ :: lineStanzasFrom rest
      | none => lineStanzasFrom rest

def preLineStanzas (pre : Str) : List LineStanza := lineStanzasFrom (splitlines pre)

def lineRangeHeld (header pre : Str) : Bool :=
  match lineRange header with
  | none => false
  | some range =>
    strip pre != [] &&
      range.numbers.all (fun number =>
        (preLineStanzas pre).any (fun stanza => stanza.has range.kind number))

def overlappingStanzas (header pre : Str) : List LineStanza :=
  match lineRange header with
  | none => []
  | some range =>
    (preLineStanzas pre).filter (fun stanza =>
      stanza.range.kind == range.kind && stanza.range.first ≤ range.last &&
        range.first ≤ stanza.range.last)

/-- Did every line of the range already carry a setting? -/
def carriedByAll (range : LineRange) (pre child : Str) : Bool :=
  range.numbers.all (fun number =>
    (preLineStanzas pre).any (fun stanza =>
      stanza.has range.kind number && (stanza.children.map strip).contains (strip child)))

/-- A line's `no` form at the line's own indentation. -/
def negated (line : Str) : Str := spaces (indentOf line) ++ ("no ".ascii ++ strip line)

def lineRangeUndo (header : Str) (children : List Str) (pre : Str) : List (List Str × Str) :=
  match lineRange header with
  | none => []
  | some range =>
    let negate := children.filter (fun child => !carriedByAll range pre child)
    if negate = [] then []
    else
      negate.map (fun child => ([header], negated child)) ++
        (overlappingStanzas header pre).flatMap (fun stanza =>
          stanza.children.map (fun child => ([stanza.header], child)))

theorem lineRangeUndo_cases {header pre : Str} {children : List Str}
    {pair : List Str × Str} (undo : pair ∈ lineRangeUndo header children pre) :
    (∃ child ∈ children, pair = ([header], negated child)) ∨
      ∃ stanza ∈ overlappingStanzas header pre, ∃ child ∈ stanza.children,
        pair = ([stanza.header], child) := by
  unfold lineRangeUndo at undo
  split at undo
  · cases undo
  · simp only at undo
    split_ifs at undo
    · cases undo
    · rcases mem_append.mp undo with fromChild | fromStanza
      · obtain ⟨child, inFilter, rfl⟩ := mem_map.mp fromChild
        exact .inl ⟨child, mem_of_mem_filter inFilter, rfl⟩
      · obtain ⟨stanza, overlaps, inStanza⟩ := mem_flatMap.mp fromStanza
        obtain ⟨child, inside, rfl⟩ := mem_map.mp inStanza
        exact .inr ⟨stanza, overlaps, child, inside, rfl⟩

theorem mem_of_mem_overlappingStanzas {header pre : Str} {stanza : LineStanza}
    (overlaps : stanza ∈ overlappingStanzas header pre) : stanza ∈ preLineStanzas pre := by
  unfold overlappingStanzas at overlaps
  split at overlaps
  · cases overlaps
  · exact mem_of_mem_filter overlaps

structure IsStanza (stanza : LineStanza) : Prop where
  parsed : lineRange stanza.header = some stanza.range
  trimmed : rstrip stanza.header = stanza.header
  nonBlank : strip stanza.header ≠ []
  unindented : startsIndented stanza.header = false
  children : ∀ child ∈ stanza.children,
    rstrip child = child ∧ strip child ≠ [] ∧ startsIndented child = true

omit [Unicode] in
private theorem of_mem_stanzaChildren {lines : List Str} {child : Str}
    (inside : child ∈ stanzaChildren lines) :
    rstrip child = child ∧ strip child ≠ [] ∧ startsIndented child := by
  induction lines with
  | nil => cases inside
  | cons raw rest ih =>
    rw [stanzaChildren] at inside
    split_ifs at inside with blank indented
    · exact ih inside
    · rcases mem_cons.mp inside with rfl | later
      · exact ⟨rstrip_rstrip, blank, indented⟩
      · exact ih later
    · cases inside

private theorem of_mem_lineStanzasFrom {lines : List Str} {stanza : LineStanza}
    (member : stanza ∈ lineStanzasFrom lines) : IsStanza stanza := by
  induction lines with
  | nil => cases member
  | cons raw rest ih =>
    rw [lineStanzasFrom] at member
    split_ifs at member with skipped
    · exact ih member
    · push Not at skipped
      cases parsed : lineRange (rstrip raw) with
      | none => exact ih (by simpa only [parsed] using member)
      | some range =>
        simp only [parsed] at member
        rcases mem_cons.mp member with rfl | later
        · exact ⟨parsed, rstrip_rstrip, skipped.1, by simpa using skipped.2,
            fun child inside => of_mem_stanzaChildren inside⟩
        · exact ih later

theorem isStanza_of_mem {pre : Str} {stanza : LineStanza} (member : stanza ∈ preLineStanzas pre) :
    IsStanza stanza :=
  of_mem_lineStanzasFrom member

theorem lineRangeHeld_of_stanza {pre : Str} {stanza : LineStanza}
    (member : stanza ∈ preLineStanzas pre) (nonBlank : strip pre ≠ []) :
    lineRangeHeld stanza.header pre := by
  rw [lineRangeHeld, (isStanza_of_mem member).parsed]
  simp only [Bool.and_eq_true, bne_iff_ne, all_eq_true, any_eq_true]
  refine ⟨nonBlank, fun number inside => ⟨stanza, member, ?_⟩⟩
  have bounds := mem_range'_1.mp inside
  simp only [LineStanza.has, beq_self_eq_true, Bool.true_and, Bool.and_eq_true, decide_eq_true_eq]
  omega

end Parse

end Nmas.Nsot.Rollback
