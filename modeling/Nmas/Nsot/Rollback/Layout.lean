import Nmas.Nsot.Rollback.Answers

/-!
Owns: when a rollback program reads back as the lines it was emitted for.

A program is text, and `programStructure` finds the section of a line by its
indentation. That agrees with the section a line was emitted for under `Layout`:
in the sections the push enters, the lines of one section are equally indented
and none is a control word. The remaining fields of `Layout` say how a device
prints a `no` form and a terminal-line stanza. `rollback_structure` is the
agreement.
-/

namespace Nmas.Nsot.Rollback

open Nmas.Text List
open Nmas.Nsot.IfNames

section Layout

variable [Unicode] (pushed : List Str) (pre : Str)

/-- The terminal-line stanzas a rollback can re-send. -/
def touchedStanzas : List LineStanza :=
  (heldRanges pushed pre).flatMap (fun header => overlappingStanzas header pre)

/-- The lines of the sections a push enters: its own, those the device had
there, and the stanzas a rollback can re-send. -/
def touchedLines : List Key :=
  (programStructure pushed).map (fun entry => (entry.chain, entry.line)) ++
    (configKeys pre).filter (fun key =>
      ((programStructure pushed).map ProgramEntry.chain).contains key.1) ++
    (touchedStanzas pushed pre).flatMap (fun stanza =>
      ([], stanza.header) :: stanza.children.map (fun child => ([stanza.header], child)))

/-- A `no` form as a device prints it: single spaces, one negation, and a
setting that is no control word. -/
structure IsPlainNo (line : Str) : Prop where
  spaced : strip line = joinWords (words line)
  single : (words line).tail.head? ≠ some noWord
  setting : (words line).tail ≠ [exitWord]

instance (line : Str) : Decidable (IsPlainNo line) :=
  decidable_of_iff (strip line = joinWords (words line) ∧
      (words line).tail.head? ≠ some noWord ∧ (words line).tail ≠ [exitWord])
    ⟨fun ⟨spaced, single, setting⟩ => ⟨spaced, single, setting⟩,
      fun plain => ⟨plain.spaced, plain.single, plain.setting⟩⟩

/-- A layout that determines the section of each line a push touches. -/
structure Layout : Prop where
  even : ∀ one ∈ touchedLines pushed pre, ∀ other ∈ touchedLines pushed pre,
    one.1 = other.1 → indentOf one.2 = indentOf other.2
  notControl : ∀ key ∈ touchedLines pushed pre, isControl key.2 = false
  plain : ∀ key ∈ touchedLines pushed pre, IsNoForm key.2 → IsPlainNo key.2
  /-- What heads a section, or is set on terminal lines, is not the `no` form of
  a free-form command. -/
  described : ∀ entry ∈ programStructure pushed,
    entry.leaf = false ∨ isUnderHeldRange pushed pre entry = true →
      IsNoForm entry.line → isFreeForm entry.line = false
  stanzas : ∀ one ∈ touchedStanzas pushed pre, ∀ other ∈ touchedStanzas pushed pre,
    one.header = other.header → one.children = other.children

end Layout

/-! ### Placed lines -/

section Placed

variable [Unicode] {pushed : List Str} {pre : Str} {chain above : List Str} {line header : Str}

inductive Placed (pushed : List Str) (pre : Str) : List Str → Str → Prop
  | pushed {entry : ProgramEntry} (member : entry ∈ programStructure pushed) :
      Placed pushed pre entry.chain entry.line
  | held {entry : ProgramEntry} (member : entry ∈ programStructure pushed) {line : Str}
      (inPre : (line, entry.chain) ∈ sectionChains pre) : Placed pushed pre entry.chain line
  | stanza {stanza : LineStanza} (touched : stanza ∈ touchedStanzas pushed pre) :
      Placed pushed pre [] stanza.header
  | child {stanza : LineStanza} (touched : stanza ∈ touchedStanzas pushed pre) {line : Str}
      (inside : line ∈ stanza.children) : Placed pushed pre [stanza.header] line

theorem mem_touchedLines (placed : Placed pushed pre chain line) :
    (chain, line) ∈ touchedLines pushed pre := by
  unfold touchedLines
  cases placed with
  | pushed member =>
    exact mem_append_left _ (mem_append_left _ (mem_map_of_mem member))
  | held member inPre =>
    refine mem_append_left _ (mem_append_right _ (mem_filter.mpr ⟨?_, ?_⟩))
    · exact mem_configKeys.mpr inPre
    · rw [contains_iff_mem]
      exact mem_map_of_mem member
  | stanza touched =>
    exact mem_append_right _ (mem_flatMap.mpr ⟨_, touched, .head _⟩)
  | child touched inside =>
    refine mem_append_right _ (mem_flatMap.mpr ⟨_, touched, ?_⟩)
    exact .tail _ (mem_map_of_mem inside)

theorem isStanza_of_touched {stanza : LineStanza} (touched : stanza ∈ touchedStanzas pushed pre) :
    stanza ∈ preLineStanzas pre := by
  obtain ⟨_, _, overlaps⟩ := mem_flatMap.mp touched
  exact mem_of_mem_overlappingStanzas overlaps

omit [Unicode] in
private theorem indentOf_of_unindented {text : Str} (unindented : startsIndented text = false) :
    indentOf text = 0 := by
  rw [indentOf_eq_takeWhile]
  cases text with
  | nil => rfl
  | cons c rest =>
    have stop : isSpace c = false := by simpa [startsIndented] using unindented
    simp [stop]

omit [Unicode] in
private theorem indentOf_of_indented {text : Str} (indented : startsIndented text) :
    0 < indentOf text := by
  rw [indentOf_eq_takeWhile]
  cases text with
  | nil => cases indented
  | cons c rest =>
    have space : isSpace c := by simpa [startsIndented] using indented
    simp [space]

theorem nested_of_placed (placed : Placed pushed pre chain line) :
    Outline.Nested indentOf (chain ++ [line]) := by
  cases placed with
  | pushed member => exact nested_of_mem_programStructure member
  | held _ inPre => exact nested_of_mem_sectionChains inPre
  | stanza _ => exact pairwise_singleton _ _
  | child touched inside =>
    have isStanza := isStanza_of_mem (isStanza_of_touched touched)
    have outer := indentOf_of_unindented isStanza.unindented
    have inner := indentOf_of_indented (isStanza.children _ inside).2.2
    refine pairwise_cons.mpr ⟨?_, pairwise_singleton _ _⟩
    intro last isLast
    obtain rfl := mem_singleton.mp isLast
    omega

theorem placed_above (placed : Placed pushed pre chain line)
    (isPrefix : above ++ [header] <+: chain) : Placed pushed pre above header := by
  cases placed with
  | pushed member | held member _ => exact .pushed (ancestor_mem_programStructure member isPrefix)
  | stanza _ => simp at isPrefix
  | child touched _ =>
    obtain ⟨rfl, rfl⟩ := Outline.eq_of_prefix_singleton isPrefix
    exact .stanza touched

theorem visible_of_placed (placed : Placed pushed pre chain line) :
    rstrip line = line ∧ strip line ≠ [] := by
  cases placed with
  | pushed member =>
    have isCommand := (command_of_mem_programStructure member).1
    exact ⟨isCommand.trimmed, isCommand.nonBlank⟩
  | held _ inPre =>
    have isLine := isSectionLine_of_mem inPre
    refine ⟨isLine.trimmed, fun blank => ?_⟩
    have visible := isLine.visible
    simp [isSectionSeparator, blank] at visible
  | stanza touched =>
    have isStanza := isStanza_of_mem (isStanza_of_touched touched)
    exact ⟨isStanza.trimmed, isStanza.nonBlank⟩
  | child touched inside =>
    have isChild := (isStanza_of_mem (isStanza_of_touched touched)).children _ inside
    exact ⟨isChild.1, isChild.2.1⟩

end Placed

/-! ### The lines of a rollback -/

section Forms

variable {line : Str}

theorem indentOf_negated (line : Str) : indentOf (negated line) = indentOf line := by
  have visible : ("no ".ascii ++ strip line).head?.any isSpace = false := by
    change isSpace 'n' = false
    decide
  rw [negated, indentOf_append (fun c inside => isSpace_of_mem_spaces inside) visible]
  simp [spaces]

theorem strip_negated (line : Str) (nonBlank : strip line ≠ []) :
    strip (negated line) = "no ".ascii ++ strip line := by
  have trimmed : rstrip ("no ".ascii ++ strip line) = "no ".ascii ++ strip line :=
    rstrip_append nonBlank rstrip_rstrip
  rw [negated, strip_indent (fun c inside => isSpace_of_mem_spaces inside),
    strip_of_trimmed trimmed, lstrip, dropWhile_eq_self_iff]
  intro nonempty
  change ¬ isSpace 'n' = true
  decide

theorem rstrip_negated (line : Str) (nonBlank : strip line ≠ []) :
    rstrip (negated line) = negated line := by
  rw [negated, ← append_assoc]
  exact rstrip_append nonBlank rstrip_rstrip

private theorem isControl_of_words {line : Str} (other : words line ≠ [exitWord]) :
    isControl line = false := by
  by_contra control
  rw [Bool.not_eq_false, isControl, controlWords, contains_iff_mem, mem_singleton]
    at control
  refine other ?_
  rw [← words_strip, control]
  decide

theorem isControl_negated (line : Str) : isControl (negated line) = false := by
  refine isControl_of_words ?_
  rw [words_negated]
  intro same
  exact absurd (List.cons.inj same).1 (by decide)

/-- What a plain `no` form takes away: the words after the `no`. -/
structure IsPositiveOf (rest line : Str) : Prop where
  split : strip line = "no ".ascii ++ rest
  words_eq : words line = noWord :: words rest
  stripped : strip rest = rest
  nonBlank : rest ≠ []
  joined : rest = joinWords (words rest)

theorem isPositiveOf_of_plain (plain : IsPlainNo line)
    (isNo : "no ".ascii.isPrefixOf (strip line)) :
    IsPositiveOf ((strip line).drop 3) line := by
  obtain ⟨rest, split⟩ := isPrefixOf_iff_prefix.mp isNo
  have dropped : (strip line).drop 3 = rest := by rw [← split]; rfl
  have isWords : words line = noWord :: words rest := by
    have isWord : strip line = noWord ++ ' ' :: rest := split.symm
    rw [← words_strip, isWord, words_cons (by decide) (by decide) (by decide)]
  have joined : rest = joinWords (words rest) := by
    have spaced := plain.spaced
    rw [isWords] at spaced
    cases tail : words rest with
    | nil =>
      have lengths := congrArg List.length spaced
      have wide : "no ".ascii.length = 3 := by decide
      have narrow : (joinWords [noWord]).length = 2 := by decide
      rw [tail, ← split, length_append, wide, narrow] at lengths
      omega
    | cons second more =>
      rw [tail, joinWords_cons_cons, ← split] at spaced
      have sameFront : "no ".ascii ++ rest = "no ".ascii ++ joinWords (second :: more) := spaced
      exact append_cancel_left sameFront
  have stripped : strip rest = rest := by
    rw [joined]
    exact strip_joinWords fun part inside => mem_words inside
  rw [dropped]
  refine ⟨split.symm, isWords, stripped, ?_, joined⟩
  rintro rfl
  have spaced := plain.spaced
  rw [isWords, ← split] at spaced
  exact absurd spaced (by decide)

end Forms

section Pending

variable [Unicode] {intended pre : Str} {pushed : List Str} {landed : Option (List Key)}

structure StandsIn (pushed : List Str) (pre : Str) (pair : List Str × Str) : Prop where
  like : ∃ line, Placed pushed pre pair.1 line ∧ indentOf line = indentOf pair.2
  trimmed : rstrip pair.2 = pair.2
  nonBlank : strip pair.2 ≠ []
  notControl : isControl pair.2 = false

private theorem standsIn_of_placed (layout : Layout pushed pre) {chain : List Str} {line : Str}
    (placed : Placed pushed pre chain line) : StandsIn pushed pre (chain, line) :=
  ⟨⟨line, placed, rfl⟩, (visible_of_placed placed).1, (visible_of_placed placed).2,
    layout.notControl _ (mem_touchedLines placed)⟩

private theorem standsIn_negated {chain : List Str} {line : Str}
    (placed : Placed pushed pre chain line) : StandsIn pushed pre (chain, negated line) := by
  have nonBlank := (visible_of_placed placed).2
  refine ⟨⟨line, placed, (indentOf_negated line).symm⟩, rstrip_negated line nonBlank, ?_,
    isControl_negated line⟩
  rw [strip_negated line nonBlank]
  exact cons_ne_nil _ _

private theorem standsIn_positive (layout : Layout pushed pre) {chain : List Str} {line : Str}
    (placed : Placed pushed pre chain line) (isNo : "no ".ascii.isPrefixOf (strip line)) :
    StandsIn pushed pre (chain, positive line) := by
  have plain := layout.plain _ (mem_touchedLines placed) (isNoForm_of_isPrefixOf isNo)
  have taken := isPositiveOf_of_plain plain isNo
  set rest := (strip line).drop 3 with isRest
  have isPositive : positive line = spaces (indentOf line) ++ rest := by
    rw [positive, ← isRest, taken.stripped]
  have blank : ∀ c ∈ spaces (indentOf line), isSpace c :=
    fun c inside => isSpace_of_mem_spaces inside
  have visible : rest.head?.any isSpace = false := by
    have starts := strip_head rest
    rwa [taken.stripped] at starts
  have trimmed : rstrip rest = rest := by
    rw [← taken.stripped]
    exact rstrip_rstrip
  refine ⟨⟨line, placed, ?_⟩, ?_, ?_, isControl_of_words ?_⟩
  · rw [isPositive, indentOf_append blank visible]
    simp [spaces]
  · rw [isPositive]
    exact rstrip_append taken.nonBlank trimmed
  · rw [isPositive, strip_indent blank, taken.stripped]
    exact taken.nonBlank
  · rw [isPositive, words_indent blank]
    have setting := plain.setting
    rwa [taken.words_eq, tail_cons] at setting

theorem rangeChild_of_mem (sent : mergeCommands intended pre = .ok pushed) {header child : Str}
    (inside : child ∈ rangeChildren pushed landed header) :
    ⟨child, [header], true⟩ ∈ programStructure pushed := by
  obtain ⟨⟨line, chain, leaf⟩, inFilter, rfl⟩ := mem_map.mp inside
  obtain ⟨member, properties⟩ := mem_filter.mp inFilter
  split at properties
  · rename_i above isChain
    obtain rfl : chain = [above] := isChain
    simp only [Bool.and_eq_true, beq_iff_eq] at properties
    obtain ⟨⟨sameHeader, isLeaf⟩, _⟩ := properties
    have trimmed := ((sectionLine_of_mem_programStructure sent member).2 above (by simp)).trimmed
    obtain rfl : above = header := by rw [← trimmed, sameHeader]
    obtain rfl : leaf = true := isLeaf
    exact member
  · cases properties

theorem standsIn_of_mem_pending (sent : mergeCommands intended pre = .ok pushed)
    (layout : Layout pushed pre) {pair : List Str × Str} (member : pair ∈ pending pushed pre landed) :
    StandsIn pushed pre pair := by
  rcases mem_append.mp member with fromLoop | fromRange
  · obtain ⟨entry, inProgram, undo⟩ := mem_flatMap.mp fromLoop
    have placed : Placed pushed pre entry.chain entry.line := .pushed inProgram
    cases undone_of_mem_undoOf undo with
    | created _ | added _ _ => exact standsIn_negated placed
    | replaced _ held _ found =>
      exact standsIn_of_placed layout (.held inProgram (mem_heldLines.mp (held_of_previous found)))
    | removed _ _ isNo => exact standsIn_positive layout placed isNo
  · obtain ⟨header, isRange, undo⟩ := mem_flatMap.mp fromRange
    rcases lineRangeUndo_cases undo with ⟨child, inside, rfl⟩ | ⟨stanza, overlaps, child, inside, rfl⟩
    · exact standsIn_negated (.pushed (rangeChild_of_mem sent inside))
    · have touched : stanza ∈ touchedStanzas pushed pre :=
        mem_flatMap.mpr ⟨header, isRange, overlaps⟩
      exact standsIn_of_placed layout (.child touched inside)

private theorem like_of_prefix {pair : List Str × Str} (standsIn : StandsIn pushed pre pair)
    {above : List Str} {line : Str} (isPrefix : above ++ [line] <+: pair.1 ++ [pair.2]) :
    ∃ placed, Placed pushed pre above placed ∧ indentOf placed = indentOf line := by
  obtain ⟨own, placed, sameIndent⟩ := standsIn.like
  rcases prefix_concat_iff.mp isPrefix with whole | shorter
  · obtain ⟨rfl, same⟩ := append_inj' whole rfl
    obtain rfl : line = pair.2 := by simpa using same
    exact ⟨own, placed, sameIndent⟩
  · exact ⟨line, placed_above placed shorter, rfl⟩

theorem evenly_pending (sent : mergeCommands intended pre = .ok pushed)
    (layout : Layout pushed pre) :
    Outline.Evenly indentOf isControl (pending pushed pre landed) := by
  have stands : ∀ pair ∈ pending pushed pre landed, StandsIn pushed pre pair :=
    fun pair member => standsIn_of_mem_pending sent layout member
  constructor
  · intro pair member line inPath
    rcases mem_append.mp inPath with inChain | isLine
    · obtain ⟨above, below, split⟩ := append_of_mem inChain
      obtain ⟨own, placed, _⟩ := (stands pair member).like
      have isPrefix : above ++ [line] <+: pair.1 := ⟨below, by simp [split]⟩
      exact layout.notControl _ (mem_touchedLines (placed_above placed isPrefix))
    · rw [mem_singleton.mp isLine]
      exact (stands pair member).notControl
  · intro pair member
    obtain ⟨own, placed, sameIndent⟩ := (stands pair member).like
    have nested := pairwise_append.mp (nested_of_placed placed)
    refine pairwise_append.mpr ⟨nested.1, pairwise_singleton _ _, ?_⟩
    intro header inChain last isLast
    rw [mem_singleton.mp isLast, ← sameIndent]
    exact nested.2.2 header inChain own (by simp)
  · intro pair member other otherMember above line same inPath inOther
    obtain ⟨placed, isPlaced, sameIndent⟩ := like_of_prefix (stands pair member) inPath
    obtain ⟨second, isSecond, secondIndent⟩ := like_of_prefix (stands other otherMember) inOther
    rw [← sameIndent, ← secondIndent]
    exact layout.even _ (mem_touchedLines isPlaced) _ (mem_touchedLines isSecond) rfl

/-- **A rollback program reads back** as the lines it was emitted for, under the
sections they were emitted for, and the headers entered for them. -/
theorem rollback_structure (sent : mergeCommands intended pre = .ok pushed)
    (layout : Layout pushed pre) :
    programStructure (emitRollback (pending pushed pre landed)) =
      (Outline.placedFrom [] (pending pushed pre landed)).map ofReading := by
  have clean : ∀ command ∈ emitRollback (pending pushed pre landed),
      rstrip command = command ∧ strip command ≠ [] := by
    intro command member
    rcases Outline.mem_emitFrom member with rfl | ⟨pair, inPending, rfl | inChain⟩
    · decide
    · have standsIn := standsIn_of_mem_pending sent layout inPending
      exact ⟨standsIn.trimmed, standsIn.nonBlank⟩
    · obtain ⟨above, below, split⟩ := append_of_mem inChain
      obtain ⟨own, placed, _⟩ := (standsIn_of_mem_pending sent layout inPending).like
      have isPrefix : above ++ [command] <+: pair.1 := ⟨below, by simp [split]⟩
      exact visible_of_placed (placed_above placed isPrefix)
  rw [programStructure_eq, structureFrom_eq_read clean]
  exact congrArg _ (Outline.read_emit (by decide) (evenly_pending sent layout))

theorem mem_programLeaves_rollback (sent : mergeCommands intended pre = .ok pushed)
    (layout : Layout pushed pre) {leaf : Leaf} :
    leaf ∈ programLeaves (emitRollback (pending pushed pre landed)) ↔
      leaf.key ∈ pending pushed pre landed := by
  rw [mem_programLeaves, rollback_structure sent layout, mem_map]
  constructor
  · rintro ⟨⟨line, level, isLast⟩, isReading, same⟩
    obtain ⟨rfl, rfl, rfl⟩ := (ProgramEntry.mk.injEq ..).mp same
    rcases Outline.mem_of_mem_placedFrom isReading with ⟨_, inPending⟩ | ⟨notLast, _⟩
    · exact inPending
    · cases notLast
  · intro inPending
    exact ⟨_, Outline.mem_placedFrom_of_mem [] inPending, rfl⟩

end Pending

end Nmas.Nsot.Rollback
