import Nmas.Nsot.Rollback.Layout

/-!
Owns: `deploy.assert_rollback_provenance`, the guard in front of a rollback, and
when it lets the builder's program pass. `provenance_holds_iff` is exact for a
push and a device of regular layout: what it refuses is a section nested in one
the device already had, because it looks the section's line up without the
indentation it is recorded with.

Does not own: irregular layouts, where the guard does not see a line under the
section it was emitted for.
-/

namespace Nmas.Nsot.Rollback

open Nmas.Text List
open Nmas.Nsot.IfNames

/-- Why a rollback line is refused. -/
inductive Orphan where
  | notEntered
  | negatesNothing
  | untouched
deriving DecidableEq

def Orphan.why : Orphan → String
  | .notEntered => "is not a section this deploy entered"
  | .negatesNothing => "negates nothing this deploy pushed"
  | .untouched => "restores a setting this deploy did not touch"

/-- `RollbackNotInverse`: how many lines are refused, and the first five. -/
structure RollbackNotInverse where
  count : Nat
  shown : List (Str × Orphan)
deriving DecidableEq

section Guard

variable [Unicode]

/-- `f"key:{key}"`. -/
def keyTag (key : Str) : Str := "key:".ascii ++ key

/-- `f"negated:{words}"`. -/
def negatedTag (text : Str) : Str := "negated:".ascii ++ text

/-- `f"prefix:{words}"`. -/
def prefixTag (text : Str) : Str := "prefix:".ascii ++ text

def leafKeys (leaf : Leaf) : List Str :=
  strip leaf.line :: keyTag (commandKeys leaf).1 ::
    ((if (commandKeys leaf).2 ∈ freeFormCommands then [keyTag (commandKeys leaf).2] else []) ++
      match words (strip leaf.line) with
      | [] => []
      | first :: rest =>
        if first = noWord then [negatedTag (joinWords rest)]
        else (List.range (first :: rest).length).map
          (fun count => prefixTag (joinWords ((first :: rest).take (count + 1)))))

def canonicalEntry (entry : ProgramEntry) : Leaf := ⟨(programKey entry).2, (programKey entry).1⟩

/-- `pushed_leaves` of a section. -/
def knownKeys (pushed : List Str) (chain : List Str) : List Str :=
  ((((programStructure pushed).filter ProgramEntry.leaf).map canonicalEntry).filter
    (fun leaf => leaf.chain = chain)).flatMap leafKeys

def pushedAncestry (pushed : List Str) : List Key :=
  ((programStructure pushed).filter (fun entry => !entry.leaf)).map programKey

/-- The assignments to `restored_stanzas`, in order. -/
def restoredStanzas (pushed : List Str) (pre : Str) : List (Str × List Str) :=
  ((programStructure pushed).filter (isHeldRange pre)).flatMap (fun entry =>
    (overlappingStanzas entry.line pre).map (fun stanza =>
      (rstrip stanza.header, stanza.children.map rstrip)))

/-- `restored_stanzas.get`: the last assignment stands. -/
def restoredLines (pushed : List Str) (pre : Option Str) (header : Str) : Option (List Str) :=
  pre.bind (fun config =>
    ((restoredStanzas pushed config).reverse.find? (fun stanza => stanza.1 == header)).map Prod.snd)

/-- Does a pushed leaf set the same thing? -/
def sharesKey (known : List Str) (leaf : Leaf) : Bool :=
  known.contains (keyTag (commandKeys leaf).1) ||
    (decide ((commandKeys leaf).2 ∈ freeFormCommands) &&
      known.contains (keyTag (commandKeys leaf).2))

/-- The tests on a line that starts with `no `. -/
def tracesNegation (known : List Str) (created : List Key) (leaf : Leaf) : Bool :=
  let undone := strip ((strip leaf.line).drop 3)
  known.contains undone || created.contains (leaf.chain, canonicaliseLine undone) ||
    sharesKey known leaf || known.contains (prefixTag undone)

def tracesValue (known : List Str) (leaf : Leaf) : Bool :=
  sharesKey known leaf ||
    (List.range (words (strip leaf.line)).length).any (fun count =>
      known.contains (negatedTag (joinWords ((words (strip leaf.line)).take (count + 1)))))

def leafOrphan (known : List Str) (created : List Key) (leaf : Leaf) : Option Orphan :=
  if "no ".ascii.isPrefixOf (strip leaf.line) then
    if tracesNegation known created leaf then none else some .negatesNothing
  else if tracesValue known leaf then none
  else some .untouched

def isStanzaLine (pushed : List Str) (pre : Option Str) (entry : ProgramEntry) : Bool :=
  match entry.chain.map rstrip with
  | [header] => (restoredLines pushed pre header).any (fun lines => lines.contains (rstrip entry.line))
  | _ => false

/-- The loop's body of `assert_rollback_provenance`. -/
def orphanOf (pushed : List Str) (pre : Option Str) (entry : ProgramEntry) : Option Orphan :=
  if entry.leaf = false ∧ (restoredLines pushed pre (rstrip entry.line)).isSome = true ∧
      programKey entry ∉ pushedAncestry pushed then none
  else if entry.leaf = true ∧ isStanzaLine pushed pre entry = true then none
  else if entry.leaf = false then
    if programKey entry ∈ pushedAncestry pushed then none else some .notEntered
  else leafOrphan (knownKeys pushed (programKey entry).1)
    (pre.elim [] (createdContainers pushed)) (canonicalEntry entry)

def orphans (rollback pushed : List Str) (pre : Option Str) : List (Str × Orphan) :=
  (programStructure rollback).filterMap (fun entry =>
    (orphanOf pushed pre entry).map (fun orphan => (entry.line, orphan)))

def assertRollbackProvenance (rollback pushed : List Str) (pre : Option Str) :
    Except RollbackNotInverse Unit :=
  if orphans rollback pushed pre = [] then .ok ()
  else .error ⟨(orphans rollback pushed pre).length, (orphans rollback pushed pre).take 5⟩

theorem assertRollbackProvenance_ok_iff {rollback pushed : List Str} {pre : Option Str} :
    assertRollbackProvenance rollback pushed pre = .ok () ↔
      ∀ entry ∈ programStructure rollback, orphanOf pushed pre entry = none := by
  unfold assertRollbackProvenance orphans
  split_ifs with nothing
  · simpa using nothing
  · simpa using nothing

end Guard

/-! ### What the guard recognises -/

section Recognised

variable [Unicode] {intended pre : Str} {pushed : List Str} {landed : Option (List Key)}

/-- A section the rollback removes by itself: created by the push, known to have
landed, and neither under another such section nor directly under terminal lines
the device already had. -/
structure RemovedAlone (pushed : List Str) (pre : Str) (landed : Option (List Key))
    (entry : ProgramEntry) : Prop where
  container : entry.leaf = false
  created : programKey entry ∈ landedContainers pushed pre landed
  outermost : isImplied pushed pre landed entry.chain = false
  notRange : isUnderHeldRange pushed pre entry = false

theorem judgeEntry_eq_created_iff {entry : ProgramEntry} :
    judgeEntry pushed pre landed entry = .created ↔ RemovedAlone pushed pre landed entry := by
  constructor
  · intro judged
    unfold judgeEntry at judged
    split_ifs at judged with under implied container created applied
    · exact ⟨container, created, by simpa using implied, by simpa using under⟩
    · -- A leaf is never judged a created section.
      unfold judgeLeaf at judged
      split at judged <;> split_ifs at judged
  · rintro ⟨container, created, outermost, notRange⟩
    rw [judgeEntry, notRange, if_neg (by simp), outermost, if_neg (by simp), if_pos container,
      if_pos created]

/-- The removal of a section is taken for the negation of a pushed leaf of the
section around it: one with the same words, with the same setting key, or that
begins with them. -/
def TakenForLeaf (pushed : List Str) (entry : ProgramEntry) : Prop :=
  tracesNegation (knownKeys pushed entry.chain) [] ⟨negated entry.line, entry.chain⟩ = true

section Pushed

variable (sent : mergeCommands intended pre = .ok pushed)
include sent

theorem mem_knownKeys {chain : List Str} {line key : Str}
    (member : ⟨line, chain, true⟩ ∈ programStructure pushed) (isKey : key ∈ leafKeys ⟨line, chain⟩) :
    key ∈ knownKeys pushed chain := by
  have own : canonicalEntry ⟨line, chain, true⟩ = ⟨line, chain⟩ := by
    rw [canonicalEntry, programKey_eq sent member]
  refine mem_flatMap.mpr ⟨⟨line, chain⟩, mem_filter.mpr ⟨?_, by simp⟩, isKey⟩
  exact mem_map.mpr ⟨_, mem_filter.mpr ⟨member, rfl⟩, own⟩

omit sent in
theorem orphanOf_header {header : Str} {above : List Str}
    (member : ⟨header, above, false⟩ ∈ programStructure pushed) :
    orphanOf pushed (some pre) ⟨header, above, false⟩ = none := by
  have isAncestry : programKey ⟨header, above, false⟩ ∈ pushedAncestry pushed :=
    mem_map.mpr ⟨_, mem_filter.mpr ⟨member, rfl⟩, rfl⟩
  simp [orphanOf, isAncestry]

omit sent in
theorem canonicaliseLine_negated {line : Str} (isLine : IsSectionLine line)
    (once : afterNo (strip line) = strip line ∨ isFreeForm line = false) :
    canonicaliseLine (negated line) = negated line := by
  have stripped : strip line = lstrip line := strip_of_trimmed isLine.trimmed
  have sameForm : isFreeForm (strip line) = isFreeForm line := by
    simp [isFreeForm, freeFormArgument, stripped]
  have noBreak : '\n' ∉ strip line := by
    rw [stripped]
    exact fun inside => isLine.noBreak (dropWhile_suffix _ |>.subset inside)
  have canonical : canonicaliseLine (strip line) = strip line := by
    rw [stripped]
    exact canonicaliseLine_lstrip isLine.noBreak isLine.canonical
  have behind : canonicaliseLine ("no ".ascii ++ strip line) = "no ".ascii ++ strip line := by
    rw [canonicaliseLine_no (strip_head line) noBreak (sameForm ▸ once), canonical]
  have wholeNoBreak : '\n' ∉ spaces (indentOf line) ++ ("no ".ascii ++ strip line) := by
    simp only [mem_append, not_or]
    refine ⟨fun inside => ?_, by decide, noBreak⟩
    exact absurd (eq_of_mem_replicate inside) (by decide)
  rw [negated, canonicaliseLine_indent (fun c inside => isSpace_of_mem_spaces inside) wholeNoBreak,
    behind]

omit sent in
theorem orphanOf_leaf {chain : List Str} {line : Str}
    (canonical : programKey ⟨line, chain, true⟩ = (chain, line)) :
    orphanOf pushed (some pre) ⟨line, chain, true⟩ =
      if isStanzaLine pushed (some pre) ⟨line, chain, true⟩ = true then none
      else leafOrphan (knownKeys pushed chain) (createdContainers pushed pre) ⟨line, chain⟩ := by
  simp [orphanOf, canonicalEntry, canonical]

theorem programKey_under {entry : ProgramEntry} (member : entry ∈ programStructure pushed)
    {line : Str} (canonical : canonicaliseLine line = line) :
    programKey ⟨line, entry.chain, true⟩ = (entry.chain, line) := by
  rw [programKey, canonicalKey, map_canonicaliseLine_entry sent member, canonical]

omit sent in
theorem leafOrphan_negated {known : List Str} {created : List Key} {chain : List Str} {line : Str}
    (nonBlank : strip line ≠ []) :
    leafOrphan known created ⟨negated line, chain⟩ =
      if tracesNegation known created ⟨negated line, chain⟩ = true then none
      else some .negatesNothing := by
  have leads : "no ".ascii.isPrefixOf (strip (negated line)) := by
    rw [strip_negated line nonBlank, isPrefixOf_iff_prefix]
    exact prefix_append _ _
  rw [leafOrphan, if_pos leads]

omit sent in
theorem tracesNegation_negated {known : List Str} {created : List Key} {chain : List Str}
    {line : Str} (nonBlank : strip line ≠ []) :
    tracesNegation known created ⟨negated line, chain⟩ =
      (known.contains (strip line) || created.contains (chain, canonicaliseLine (strip line)) ||
        sharesKey known ⟨negated line, chain⟩ || known.contains (prefixTag (strip line))) := by
  have undone : strip ((strip (negated line)).drop 3) = strip line := by
    rw [strip_negated line nonBlank]
    exact strip_strip
  rw [tracesNegation, undone]

omit sent in
private theorem once_of_positive (layout : Layout pushed pre) {chain : List Str} {line : Str}
    (placed : Placed pushed pre chain line)
    (isPositive : "no ".ascii.isPrefixOf (strip line) = false ∨ ¬ IsNoForm line) :
    afterNo (strip line) = strip line := by
  by_cases isNo : IsNoForm line
  · have notPrefix := isPositive.resolve_right (not_not_intro isNo)
    have spaced := (layout.plain _ (mem_touchedLines placed) isNo).spaced
    obtain ⟨tail, isWords⟩ := List.head?_eq_some_iff.mp isNo
    rw [isWords] at spaced
    cases tail with
    | nil =>
      have bare : strip line = "no".ascii := spaced.trans (by decide)
      rw [bare]
      decide
    | cons second more =>
      rw [joinWords_cons_cons] at spaced
      rw [spaced] at notPrefix
      have leads : "no ".ascii.isPrefixOf (noWord ++ ' ' :: joinWords (second :: more)) := by
        rw [List.isPrefixOf_iff_prefix]
        exact ⟨joinWords (second :: more), rfl⟩
      rw [leads] at notPrefix
      cases notPrefix
  · refine afterNo_of_words ?_
    rwa [words_strip]

theorem orphanOf_negated {chain : List Str} {line : Str}
    (member : ⟨line, chain, true⟩ ∈ programStructure pushed)
    (once : afterNo (strip line) = strip line ∨ isFreeForm line = false) :
    orphanOf pushed (some pre) ⟨negated line, chain, true⟩ = none := by
  have isLine := (sectionLine_of_mem_programStructure sent member).1
  have nonBlank := (command_of_mem_programStructure member).1.nonBlank
  have known : (knownKeys pushed chain).contains (strip line) := by
    rw [contains_iff_mem]
    exact mem_knownKeys sent member (.head _)
  rw [orphanOf_leaf (programKey_under sent member (canonicaliseLine_negated isLine once)),
    leafOrphan_negated nonBlank, tracesNegation_negated nonBlank, known, Bool.true_or, Bool.true_or,
    Bool.true_or, if_pos rfl, ite_self]

omit sent in
private theorem leafOrphan_of_sharesKey {known : List Str} {created : List Key} {leaf : Leaf}
    (shares : sharesKey known leaf) : leafOrphan known created leaf = none := by
  unfold leafOrphan tracesNegation tracesValue
  simp [shares]

/-- The two sides of a negation of one setting: a pushed `no` form is undone by
a line that begins with its words, a pushed value by a `no` form of its leading
words. -/
private theorem leafOrphan_of_isNegationPair (layout : Layout pushed pre) {chain : List Str}
    {line held : Str} (member : ⟨line, chain, true⟩ ∈ programStructure pushed)
    (inPre : (held, chain) ∈ sectionChains pre) (paired : isNegationPair line ⟨held, chain⟩) :
    leafOrphan (knownKeys pushed chain) (createdContainers pushed pre) ⟨held, chain⟩ = none := by
  unfold isNegationPair at paired
  split at paired
  · cases paired
  · rename_i first rest isWords
    have keysOf : ∀ key, key ∈ (if first = noWord then [negatedTag (joinWords rest)]
        else (List.range (first :: rest).length).map
          (fun count => prefixTag (joinWords ((first :: rest).take (count + 1))))) →
        key ∈ knownKeys pushed chain := by
      intro key inTail
      refine mem_knownKeys sent member ?_
      simp only [leafKeys, words_strip, isWords, mem_cons, mem_append]
      exact .inr (.inr (.inr inTail))
    split_ifs at paired with isNo
    · simp only [leadsWith, Bool.and_eq_true, bne_iff_ne, any_eq_true, decide_eq_true_eq]
        at paired
      obtain ⟨notNo, count, inRange, same⟩ := paired
      have notPrefix : ¬ "no ".ascii.isPrefixOf (strip held) :=
        fun leads => notNo (isNoForm_of_isPrefixOf leads)
      have known := keysOf (negatedTag (joinWords rest)) (by simp [isNo])
      have traces : tracesValue (knownKeys pushed chain) ⟨held, chain⟩ := by
        simp only [tracesValue, words_strip, Bool.or_eq_true, any_eq_true]
        exact .inr ⟨count, inRange, by rw [same, contains_iff_mem]; exact known⟩
      rw [leafOrphan, if_neg notPrefix, if_pos traces]
    · obtain ⟨count, inRange, negates⟩ := any_eq_true.mp paired
      unfold isNegationOf at negates
      split at negates
      · rename_i negation second more heldWords
        simp only [Bool.and_eq_true, decide_eq_true_eq] at negates
        obtain ⟨rfl, same⟩ := negates
        have isNoForm : IsNoForm held := by
          rw [IsNoForm, heldWords]
          rfl
        have plain := layout.plain _ (mem_touchedLines (.held member inPre)) isNoForm
        have leads : "no ".ascii.isPrefixOf (strip held) := by
          rw [plain.spaced, heldWords, joinWords_cons_cons, isPrefixOf_iff_prefix]
          exact ⟨joinWords (second :: more), rfl⟩
        have taken := isPositiveOf_of_plain plain leads
        have undone : strip ((strip held).drop 3) =
            joinWords ((first :: rest).take (count + 1)) := by
          have tail := taken.words_eq
          rw [heldWords, List.cons.injEq] at tail
          rw [taken.stripped, taken.joined, ← tail.2, same]
        have known := keysOf (prefixTag (joinWords ((first :: rest).take (count + 1))))
          (by rw [if_neg isNo]; exact mem_map_of_mem inRange)
        have traces : tracesNegation (knownKeys pushed chain) (createdContainers pushed pre)
            ⟨held, chain⟩ = true := by
          simp only [tracesNegation, undone, Bool.or_eq_true]
          exact .inr (by rw [contains_iff_mem]; exact known)
        rw [leafOrphan, if_pos leads, if_pos traces]
      · cases negates

theorem orphanOf_replaced (layout : Layout pushed pre) {chain : List Str} {line held : Str}
    (member : ⟨line, chain, true⟩ ∈ programStructure pushed)
    (inPre : (held, chain) ∈ sectionChains pre) (same : setsSame line ⟨held, chain⟩) :
    orphanOf pushed (some pre) ⟨held, chain, true⟩ = none := by
  have isHeld := isSectionLine_of_mem inPre
  have precise : keyTag (commandKeys ⟨line, chain⟩).1 ∈ knownKeys pushed chain :=
    mem_knownKeys sent member (by simp [leafKeys])
  have passes : leafOrphan (knownKeys pushed chain) (createdContainers pushed pre) ⟨held, chain⟩ =
      none := by
    simp only [setsSame, Bool.or_eq_true, Bool.and_eq_true, decide_eq_true_eq] at same
    rcases same with (sameKey | paired) | ⟨isFree, sameWord⟩
    · refine leafOrphan_of_sharesKey ?_
      simp [sharesKey, sameKey, precise]
    · exact leafOrphan_of_isNegationPair sent layout member inPre paired
    · have broad : keyTag (commandKeys ⟨line, chain⟩).2 ∈ knownKeys pushed chain :=
        mem_knownKeys sent member (by simp [leafKeys, isFree])
      refine leafOrphan_of_sharesKey ?_
      simp [sharesKey, sameWord, isFree, broad]
  rw [orphanOf_leaf (programKey_under sent member isHeld.canonical), passes, ite_self]

theorem orphanOf_positive (layout : Layout pushed pre) {chain : List Str} {line : Str}
    (member : ⟨line, chain, true⟩ ∈ programStructure pushed)
    (isNo : "no ".ascii.isPrefixOf (strip line)) :
    orphanOf pushed (some pre) ⟨positive line, chain, true⟩ = none := by
  have isLine := (sectionLine_of_mem_programStructure sent member).1
  have plain := layout.plain _ (mem_touchedLines (.pushed member)) (isNoForm_of_isPrefixOf isNo)
  have taken := isPositiveOf_of_plain plain isNo
  set rest := (strip line).drop 3 with isRest
  have isPositive : positive line = spaces (indentOf line) ++ rest := by
    rw [positive, ← isRest, taken.stripped]
  have blank : ∀ c ∈ spaces (indentOf line), isSpace c :=
    fun c inside => isSpace_of_mem_spaces inside
  have visible : rest.head?.any isSpace = false := by
    have starts := strip_head rest
    rwa [taken.stripped] at starts
  have stripped : strip line = lstrip line := strip_of_trimmed isLine.trimmed
  have lineNoBreak : '\n' ∉ strip line := by
    rw [stripped]
    exact fun inside => isLine.noBreak (dropWhile_suffix _ |>.subset inside)
  have noBreak : '\n' ∉ rest := by
    rw [taken.split] at lineNoBreak
    exact fun inside => lineNoBreak (mem_append_right _ inside)
  have notNo : (words rest).head? ≠ some noWord := by
    have single := plain.single
    rwa [taken.words_eq, tail_cons] at single
  -- The `no` form is canonical, so what stands behind the `no` is.
  have canonicalRest : canonicaliseLine rest = rest := by
    have whole : canonicaliseLine (strip line) = strip line := by
      rw [stripped]
      exact canonicaliseLine_lstrip isLine.noBreak isLine.canonical
    rw [taken.split, canonicaliseLine_no visible noBreak (.inl (afterNo_of_words notNo))] at whole
    exact append_cancel_left whole
  have canonical : canonicaliseLine (positive line) = positive line := by
    have wholeNoBreak : '\n' ∉ spaces (indentOf line) ++ rest := by
      rw [mem_append, not_or]
      exact ⟨fun inside => absurd (eq_of_mem_replicate inside) (by decide), noBreak⟩
    rw [isPositive, canonicaliseLine_indent blank wholeNoBreak, canonicalRest]
  have sameWords : words (positive line) = words rest := by rw [isPositive, words_indent blank]
  have notPrefix : ¬ "no ".ascii.isPrefixOf (strip (positive line)) := by
    intro leads
    have isNoForm := isNoForm_of_isPrefixOf leads
    rw [IsNoForm, sameWords] at isNoForm
    exact notNo isNoForm
  have known : negatedTag (joinWords (words rest)) ∈ knownKeys pushed chain := by
    refine mem_knownKeys sent member ?_
    simp [leafKeys, taken.words_eq]
  have someWord : 0 < (words rest).length := by
    rw [length_pos_iff]
    intro none_
    have joined := taken.joined
    rw [none_] at joined
    exact taken.nonBlank joined
  have traces : tracesValue (knownKeys pushed chain) ⟨positive line, chain⟩ := by
    simp only [tracesValue, words_strip, sameWords, Bool.or_eq_true, any_eq_true]
    refine .inr ⟨(words rest).length - 1, mem_range.mpr (by omega), ?_⟩
    rw [Nat.sub_add_cancel someWord, take_length, contains_iff_mem]
    exact known
  rw [orphanOf_leaf (programKey_under sent member canonical), leafOrphan, if_neg notPrefix,
    if_pos traces, ite_self]

theorem restoredLines_eq (layout : Layout pushed pre) {header : Str} {stanza : LineStanza}
    (isRange : header ∈ heldRanges pushed pre) (overlaps : stanza ∈ overlappingStanzas header pre) :
    restoredLines pushed (some pre) stanza.header = some (stanza.children.map rstrip) := by
  have inPre := mem_of_mem_overlappingStanzas overlaps
  have trimmed := (isStanza_of_mem inPre).trimmed
  obtain ⟨inProgram, held⟩ := (mem_heldRanges sent).mp isRange
  have recorded : (stanza.header, stanza.children.map rstrip) ∈ restoredStanzas pushed pre := by
    refine mem_flatMap.mpr ⟨_, mem_filter.mpr ⟨inProgram, ?_⟩, ?_⟩
    · simp [isHeldRange, held]
    · exact mem_map.mpr ⟨stanza, overlaps, by rw [trimmed]⟩
  have isSome : ((restoredStanzas pushed pre).reverse.find?
      (fun other => other.1 == stanza.header)).isSome = true := by
    rw [List.find?_isSome]
    exact ⟨_, mem_reverse.mpr recorded, by simp⟩
  obtain ⟨found, isFound⟩ := Option.isSome_iff_exists.mp isSome
  obtain ⟨entry, inFilter, inStanzas⟩ :=
    mem_flatMap.mp (mem_reverse.mp (mem_of_find?_eq_some isFound))
  obtain ⟨other, otherOverlaps, rfl⟩ := mem_map.mp inStanzas
  have otherPre := mem_of_mem_overlappingStanzas otherOverlaps
  have entryRange : entry.line ∈ heldRanges pushed pre := by
    have isLine := (sectionLine_of_mem_programStructure sent (mem_of_mem_filter inFilter)).1
    simp only [heldRanges, mem_eraseDups, mem_map]
    exact ⟨entry, inFilter, isLine.trimmed⟩
  have touched : stanza ∈ touchedStanzas pushed pre :=
    mem_flatMap.mpr ⟨header, isRange, overlaps⟩
  have otherTouched : other ∈ touchedStanzas pushed pre :=
    mem_flatMap.mpr ⟨entry.line, entryRange, otherOverlaps⟩
  have sameHeader : other.header = stanza.header := by
    have same := List.find?_some isFound
    simpa [(isStanza_of_mem otherPre).trimmed] using same
  rw [restoredLines, Option.bind_some, isFound, Option.map_some,
    layout.stanzas other otherTouched stanza touched sameHeader]

omit sent in
theorem stanza_of_restoredLines {header : Str}
    (recorded : (restoredLines pushed (some pre) header).isSome) :
    ∃ stanza ∈ preLineStanzas pre, stanza.header = header := by
  rw [restoredLines, Option.bind_some, Option.isSome_map, List.find?_isSome] at recorded
  obtain ⟨found, inRecord, same⟩ := recorded
  obtain ⟨entry, _, inStanzas⟩ := mem_flatMap.mp (mem_reverse.mp inRecord)
  obtain ⟨stanza, overlaps, rfl⟩ := mem_map.mp inStanzas
  have inPre := mem_of_mem_overlappingStanzas overlaps
  refine ⟨stanza, inPre, ?_⟩
  simpa [(isStanza_of_mem inPre).trimmed] using same

theorem orphanOf_stanzaLine (layout : Layout pushed pre) {header child : Str} {stanza : LineStanza}
    (isRange : header ∈ heldRanges pushed pre) (overlaps : stanza ∈ overlappingStanzas header pre)
    (inside : child ∈ stanza.children) :
    orphanOf pushed (some pre) ⟨child, [stanza.header], true⟩ = none := by
  have isStanza := isStanza_of_mem (mem_of_mem_overlappingStanzas overlaps)
  have isLine : isStanzaLine pushed (some pre) ⟨child, [stanza.header], true⟩ := by
    simp only [isStanzaLine, map_cons, map_nil, isStanza.trimmed,
      restoredLines_eq sent layout isRange overlaps, Option.any_some, contains_iff_mem]
    exact mem_map_of_mem inside
  simp [orphanOf, isLine]

theorem orphanOf_stanzaHeader (layout : Layout pushed pre) {header : Str} {stanza : LineStanza}
    (isRange : header ∈ heldRanges pushed pre) (overlaps : stanza ∈ overlappingStanzas header pre) :
    orphanOf pushed (some pre) ⟨stanza.header, [], false⟩ = none := by
  have isStanza := isStanza_of_mem (mem_of_mem_overlappingStanzas overlaps)
  have recorded := restoredLines_eq sent layout isRange overlaps
  by_cases isAncestry : programKey ⟨stanza.header, [], false⟩ ∈ pushedAncestry pushed
  · simp [orphanOf, isAncestry]
  · simp [orphanOf, isAncestry, isStanza.trimmed, recorded]

/-- A section removed by itself is not read as a line of a re-sent stanza: its
parent would be a range with an undo of its own. -/
private theorem not_isStanzaLine_of_removedAlone {entry : ProgramEntry}
    (member : entry ∈ programStructure pushed) (removed : RemovedAlone pushed pre landed entry)
    (line : Str) : isStanzaLine pushed (some pre) ⟨line, entry.chain, true⟩ = false := by
  have notBlank : strip pre ≠ [] := by
    intro blank
    have isCreated := mem_of_mem_filter removed.created
    rw [createdContainers, if_pos blank] at isCreated
    cases isCreated
  have chainTrimmed : entry.chain.map rstrip = entry.chain := by
    calc entry.chain.map rstrip = entry.chain.map id :=
          map_congr_left fun header inChain =>
            ((sectionLine_of_mem_programStructure sent member).2 header inChain).trimmed
      _ = entry.chain := map_id _
  rw [isStanzaLine, chainTrimmed]
  split
  · rename_i header isChain
    by_contra recordedLine
    have recorded : (restoredLines pushed (some pre) header).isSome := by
      cases found : restoredLines pushed (some pre) header with
      | none => simp [found] at recordedLine
      | some lines => rfl
    obtain ⟨stanza, inPre, rfl⟩ := stanza_of_restoredLines recorded
    have isChain' : entry.chain = [stanza.header] := isChain
    have inProgram : ⟨stanza.header, [], false⟩ ∈ programStructure pushed :=
      ancestor_mem_programStructure member ⟨[], by simp [isChain']⟩
    have isRange : stanza.header ∈ heldRanges pushed pre :=
      (mem_heldRanges sent).mpr ⟨inProgram, lineRangeHeld_of_stanza inPre notBlank⟩
    have under : isUnderHeldRange pushed pre entry := by
      simp [isUnderHeldRange, isChain', (isStanza_of_mem inPre).trimmed, isRange]
    rw [removed.notRange] at under
    cases under
  · rfl

/-- The removal of a created section passes when the section is not indented, or
when it is taken for the negation of a pushed leaf. -/
theorem orphanOf_removed_iff (layout : Layout pushed pre) {entry : ProgramEntry}
    (member : entry ∈ programStructure pushed) (removed : RemovedAlone pushed pre landed entry) :
    orphanOf pushed (some pre) ⟨negated entry.line, entry.chain, true⟩ = none ↔
      indentOf entry.line = 0 ∨ TakenForLeaf pushed entry := by
  have isLine := (sectionLine_of_mem_programStructure sent member).1
  have nonBlank := (command_of_mem_programStructure member).1.nonBlank
  have stripped : strip entry.line = lstrip entry.line := strip_of_trimmed isLine.trimmed
  have once : afterNo (strip entry.line) = strip entry.line ∨ isFreeForm entry.line = false := by
    by_cases isNo : IsNoForm entry.line
    · exact .inr (layout.described entry member (.inl removed.container) isNo)
    · refine .inl (afterNo_of_words ?_)
      rwa [words_strip]
  have canonical : canonicaliseLine (strip entry.line) = strip entry.line := by
    rw [stripped]
    exact canonicaliseLine_lstrip isLine.noBreak isLine.canonical
  -- The guard looks the section up by its words alone, without indentation.
  have lookedUp : (entry.chain, strip entry.line) ∈ createdContainers pushed pre ↔
      indentOf entry.line = 0 := by
    constructor
    · intro isCreated
      unfold createdContainers at isCreated
      split_ifs at isCreated
      · cases isCreated
      · obtain ⟨other, inFilter, same⟩ := mem_map.mp isCreated
        have inProgram := mem_of_mem_filter inFilter
        rw [programKey_eq sent inProgram, Prod.mk.injEq] at same
        have placed : Placed pushed pre entry.chain (strip entry.line) := by
          rw [← same.1, ← same.2]
          exact .pushed inProgram
        rw [layout.even _ (mem_touchedLines (.pushed member)) _ (mem_touchedLines placed) rfl]
        have unindented : indentOf ([] ++ strip entry.line) = ([] : Str).length :=
          indentOf_append (by simp) (strip_head entry.line)
        exact unindented
    · intro unindented
      have whole : strip entry.line = entry.line := by
        have nothing : entry.line.takeWhile isSpace = [] := by
          rw [← length_eq_zero_iff, ← indentOf_eq_takeWhile, unindented]
        have parts := takeWhile_append_lstrip entry.line
        rwa [nothing, nil_append, ← stripped] at parts
      rw [whole, ← programKey_eq sent member]
      exact mem_of_mem_filter removed.created
  rw [orphanOf_leaf (programKey_under sent member (canonicaliseLine_negated isLine once)),
    not_isStanzaLine_of_removedAlone sent member removed, if_neg (by simp),
    leafOrphan_negated nonBlank, TakenForLeaf, tracesNegation_negated nonBlank,
    tracesNegation_negated nonBlank, canonical]
  simp only [Bool.or_eq_true, contains_iff_mem, lookedUp, not_mem_nil, or_false,
    ite_eq_left_iff, reduceCtorEq, imp_false, not_not]
  simp only [or_assoc, or_left_comm]

private theorem orphanOf_pending (layout : Layout pushed pre)
    (removals : ∀ entry ∈ programStructure pushed, RemovedAlone pushed pre landed entry →
      indentOf entry.line = 0 ∨ TakenForLeaf pushed entry)
    {pair : List Str × Str} (member : pair ∈ pending pushed pre landed) :
    orphanOf pushed (some pre) ⟨pair.2, pair.1, true⟩ = none := by
  rcases mem_append.mp member with fromLoop | fromRange
  · obtain ⟨⟨line, chain, leaf⟩, inProgram, undo⟩ := mem_flatMap.mp fromLoop
    have canonical : canonicaliseLine line = line :=
      (sectionLine_of_mem_programStructure sent inProgram).1.canonical
    cases undone_of_mem_undoOf undo with
    | created verdict =>
      have removed := judgeEntry_eq_created_iff.mp verdict
      exact (orphanOf_removed_iff sent layout inProgram removed).mpr (removals _ inProgram removed)
    | added isLeaf isPositive =>
      obtain rfl : leaf = true := isLeaf
      refine orphanOf_negated sent inProgram (.inl ?_)
      exact once_of_positive layout (.pushed inProgram) (by rwa [canonical] at isPositive)
    | replaced isLeaf held matched found =>
      obtain rfl : leaf = true := isLeaf
      rw [canonical] at found
      exact orphanOf_replaced sent layout inProgram (mem_heldLines.mp (held_of_previous found))
        (setsSame_of_previous found)
    | removed applied _ isNo =>
      have isLeaf := mem_programLeaves.mp (mem_of_mem_filter applied)
      exact orphanOf_positive sent layout isLeaf isNo
  · obtain ⟨header, isRange, undo⟩ := mem_flatMap.mp fromRange
    rcases lineRangeUndo_cases undo with ⟨child, inside, rfl⟩ | ⟨stanza, overlaps, child, inside, rfl⟩
    · have inProgram := rangeChild_of_mem sent inside
      have under : isUnderHeldRange pushed pre ⟨child, [header], true⟩ := by
        have trimmed : rstrip header = header :=
          ((sectionLine_of_mem_programStructure sent inProgram).2 header (by simp)).trimmed
        simp [isUnderHeldRange, trimmed, isRange]
      refine orphanOf_negated sent inProgram ?_
      by_cases isNo : IsNoForm child
      · exact .inr (layout.described _ inProgram (.inr under) isNo)
      · exact .inl (once_of_positive layout (.pushed inProgram) (.inr isNo))
    · exact orphanOf_stanzaLine sent layout isRange overlaps inside

private theorem orphanOf_entered (layout : Layout pushed pre) {pair : List Str × Str}
    (member : pair ∈ pending pushed pre landed) {above : List Str} {header : Str}
    (isPrefix : above ++ [header] <+: pair.1) :
    orphanOf pushed (some pre) ⟨header, above, false⟩ = none := by
  rcases mem_append.mp member with fromLoop | fromRange
  · obtain ⟨entry, inProgram, undo⟩ := mem_flatMap.mp fromLoop
    have ofEntry : pair.1 = entry.chain := by cases undone_of_mem_undoOf undo <;> rfl
    rw [ofEntry] at isPrefix
    exact orphanOf_header (ancestor_mem_programStructure inProgram isPrefix)
  · obtain ⟨range, isRange, undo⟩ := mem_flatMap.mp fromRange
    rcases lineRangeUndo_cases undo with ⟨child, inside, rfl⟩ | ⟨stanza, overlaps, child, inside, rfl⟩
    · obtain ⟨rfl, rfl⟩ := Outline.eq_of_prefix_singleton isPrefix
      exact orphanOf_header ((mem_heldRanges sent).mp isRange).1
    · obtain ⟨rfl, rfl⟩ := Outline.eq_of_prefix_singleton isPrefix
      exact orphanOf_stanzaHeader sent layout isRange overlaps

end Pushed

end Recognised

end Nmas.Nsot.Rollback
