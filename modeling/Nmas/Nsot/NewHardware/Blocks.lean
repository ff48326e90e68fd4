import Nmas.Nsot.NewHardware.Guard

/-!
Contract: what leaving blocks out of a configuration leaves of its reading.

Owns:
- the lines the comparison reads of a configuration, whatever it was in the
  middle of (`readLines`, `sectionEntries_unstamped`);
- `mem_leaveOut`: where each block left out holds plain lines only and the next
  line read behind it is not indented, the reading is that of the rest and the
  blocks' own lines.
-/

namespace Nmas.Nsot.NewHardware

open Nmas.Text List
open Nmas.Nsot.IfNames Nmas.Nsot.Normalize Nmas.Nsot.Roundtrip

/-! ## The lines a comparison reads -/

def isKept (line : Str) : Bool :=
  !(line.head? == some '!' && strip line.tail != []) &&
    (!(true && strip line == []) && !(true && strip line == ['!']) &&
      !isVolatile (strip line) line diffPrefixes)

theorem isKept_nil : isKept [] = false := by decide

theorem strip_ne_nil_of_isKept {line : Str} (kept : isKept line) : strip line ≠ [] := by
  intro blank
  simp [isKept, blank] at kept

def visible (lines : List Str) : List Str :=
  (lines.map rstrip).filter (fun line => !isSectionSeparator line)

theorem visible_cons (line : Str) (rest : List Str) :
    visible (line :: rest) =
      (if isSectionSeparator (rstrip line) then [] else [rstrip line]) ++ visible rest := by
  rw [visible, map_cons, filter_cons]
  cases isSectionSeparator (rstrip line) <;> rfl

theorem visible_filter (lines : List Str) :
    visible (lines.filter (fun line => line ≠ [])) = visible lines := by
  induction lines with
  | nil => rfl
  | cons line rest ih =>
    cases line with
    | nil =>
      rw [visible_cons, filter_cons_of_neg (by simp), ih]
      rfl
    | cons c line =>
      rw [filter_cons_of_pos (by simp), visible_cons, visible_cons, ih]

theorem visible_joinLines {lines : List Str}
    (clean : ∀ line ∈ lines, ∀ c ∈ line, isLineBreak c = false) :
    visible (splitlines (joinLines lines)) = visible lines := by
  have same := splitlines_joinLines clean false
  rw [if_neg (by decide), append_nil] at same
  rw [← visible_filter, same, visible_filter]

theorem filter_isKept_joinLines {lines : List Str} {keeps : Str → Bool}
    (notEmpty : keeps [] = false) (clean : ∀ line ∈ lines, ∀ c ∈ line, isLineBreak c = false) :
    (splitlines (joinLines lines)).filter keeps = lines.filter keeps := by
  have same := splitlines_joinLines clean false
  rw [if_neg (by decide), append_nil] at same
  have ofNonempty (texts : List Str) :
      (texts.filter (fun line => line ≠ [])).filter keeps = texts.filter keeps := by
    rw [filter_filter]
    apply filter_congr
    intro line _
    cases line with
    | nil => simp [notEmpty]
    | cons c rest => simp
  rw [← ofNonempty, same, ofNonempty]

section Read

variable [Unicode]

/-- What the comparison reads of lines, each with its indentation, in the middle
of a stanza it skips or not. -/
def readLines (skipping : Bool) (lines : List Str) : List (Nat × Str) :=
  (visible (stripSelfSignedFrom skipping (lines.filter isKept))).map
    (fun line => (indentOf line, normLine line))

theorem stripSelfSignedFrom_subset (skipping : Bool) (lines : List Str) :
    stripSelfSignedFrom skipping lines ⊆ lines := by
  induction lines generalizing skipping with
  | nil => exact .refl _
  | cons line rest ih =>
    rw [stripSelfSignedFrom]
    split
    · exact subset_cons_of_subset _ (ih true)
    · split
      · exact subset_cons_of_subset _ (ih true)
      · exact cons_subset_cons _ (ih false)

theorem sectionEntries_unstamped (text : Str) :
    sectionEntries (compared (unstamped text)) =
      (Outline.chains (readLines false (splitlines text))).filter (fun entry => entry.1 != []) := by
  have clean : ∀ line ∈ splitlines text, ∀ c ∈ line, isLineBreak c = false :=
    fun line member => lineBreak_of_mem_splitlines member
  have isUnstamped : unstamped text = joinLines (stripProvenanceComments (splitlines text)) := rfl
  have isFiltered : stripForDiff (unstamped text) false true = (splitlines text).filter isKept := by
    have ofLines := @filter_isKept_joinLines (stripProvenanceComments (splitlines text))
      (fun line => !(true && strip line == []) && !(true && strip line == ['!']) &&
        !isVolatile (strip line) line diffPrefixes) (by decide)
      (fun line member => clean line (mem_of_mem_filter member))
    rw [isUnstamped, stripForDiff, if_neg (by decide), stripLines, ofLines,
      stripProvenanceComments, filter_filter]
    apply filter_congr
    intro line _
    rw [isKept, Bool.and_comm]
  have isCompared : compared (unstamped text) =
      joinLines (stripSelfSignedFrom false ((splitlines text).filter isKept)) := by
    rw [compared, isFiltered]
    rfl
  have isVisible := @visible_joinLines
    (stripSelfSignedFrom false ((splitlines text).filter isKept))
    (fun line member => clean line (mem_of_mem_filter (stripSelfSignedFrom_subset _ _ member)))
  rw [sectionEntries, sectionsOf, isCompared]
  change (Outline.chains ((visible (splitlines (joinLines _))).map _)).filter _ = _
  rw [isVisible]
  rfl

theorem readLines_joinLines {lines : List Str}
    (clean : ∀ line ∈ lines, ∀ c ∈ line, isLineBreak c = false) (skipping : Bool) :
    readLines skipping (splitlines (joinLines lines)) = readLines skipping lines := by
  rw [readLines, filter_isKept_joinLines isKept_nil clean, readLines]

/-! ## One line at a time -/

def readLine (skipping : Bool) (line : Str) : List (Nat × Str) × Bool :=
  if !isKept line then ([], skipping)
  else if isSelfSigned (strip line) && !startsIndented line then ([], true)
  else if skipping && (startsIndented line || strip line == []) then ([], true)
  else if isSectionSeparator (rstrip line) then ([], false)
  else ([(indentOf (rstrip line), normLine (rstrip line))], false)

theorem readLines_cons (skipping : Bool) (line : Str) (rest : List Str) :
    readLines skipping (line :: rest) =
      (readLine skipping line).1 ++ readLines (readLine skipping line).2 rest := by
  unfold readLines readLine
  rw [filter_cons]
  cases isKept line with
  | false => rfl
  | true =>
    simp only [↓reduceIte, Bool.not_true, Bool.false_eq_true, stripSelfSignedFrom]
    split_ifs
    · rfl
    · rfl
    · rename_i isSeparator
      rw [visible_cons, if_pos isSeparator]
      rfl
    · rename_i notSeparator
      rw [visible_cons, if_neg notSeparator]
      rfl

/-- The next line read is not indented, whatever was open in front of it. -/
structure Settles (lines : List Str) : Prop where
  kept : ∀ line ∈ (lines.filter isKept).head?, startsIndented line = false
  read : ∀ line ∈ (readLines false lines).head?, line.1 = 0

theorem Settles.readLines_eq {lines : List Str} (settles : Settles lines) (skipping : Bool) :
    readLines skipping lines = readLines false lines := by
  have starts := settles.kept
  unfold readLines
  cases isLines : lines.filter isKept with
  | nil => rfl
  | cons line rest =>
    have notIndented : startsIndented line = false := starts line (by rw [isLines]; rfl)
    have kept : isKept line := (mem_filter.mp (isLines ▸ mem_cons_self)).2
    have notBlank : (strip line == []) = false := by simpa using strip_ne_nil_of_isKept kept
    rw [stripSelfSignedFrom, stripSelfSignedFrom, notIndented, notBlank]
    simp

theorem Settles.chains_eq {lines : List Str} (settles : Settles lines) (skipping other : Bool)
    (stack open_ : List (Nat × Str)) :
    Outline.chainsFrom stack (readLines skipping lines) =
      Outline.chainsFrom open_ (readLines other lines) := by
  rw [settles.readLines_eq skipping, settles.readLines_eq other]
  exact Outline.chainsFrom_restart settles.read stack open_

/-! ## Blocks left out -/

structure PlainChild (raw : Str) : Prop where
  child : isChild raw
  kept : isKept raw
  shown : isSectionSeparator (rstrip raw) = false
  deep : indentOf (rstrip raw) = 1

def BlocksPlain (wanted : Str → Bool) (lines : List Str) : Prop :=
  ∀ before raw rest, lines = before ++ raw :: rest → opensBlock wanted raw →
    (∀ child ∈ rest.takeWhile isChild, PlainChild child) ∧ Settles (rest.dropWhile isChild)

def blockEntries (wanted : Str → Bool) : List Str → List (Str × List Str)
  | [] => []
  | raw :: rest =>
    if opensBlock wanted raw then
      (canonical (rstrip raw), []) ::
        ((rest.takeWhile isChild).map
          (fun child => (normLine (rstrip child), [canonical (rstrip raw)])) ++
            blockEntries wanted rest)
    else blockEntries wanted rest

theorem leaveOut_child (wanted : Str → Bool) (rest : List Str) :
    leaveOut wanted true rest = leaveOut wanted false (rest.dropWhile isChild) := by
  induction rest with
  | nil => rfl
  | cons raw rest ih =>
    rw [dropWhile_cons]
    cases child : isChild raw with
    | true => simp only [leaveOut, child, ↓reduceIte, ih]
    | false => simp only [leaveOut, child, Bool.false_eq_true, ↓reduceIte]

theorem blockEntries_dropWhile (wanted : Str → Bool) (rest : List Str) :
    blockEntries wanted (rest.dropWhile isChild) = blockEntries wanted rest := by
  induction rest with
  | nil => rfl
  | cons raw rest ih =>
    rw [dropWhile_cons]
    cases child : isChild raw with
    | true =>
      have notOpen : ¬ opensBlock wanted raw := by simp [opensBlock, child]
      rw [if_pos rfl, ih, blockEntries, if_neg notOpen]
    | false => rw [if_neg Bool.false_ne_true]

omit [Unicode] in
theorem startsIndented_of_isChild {raw : Str} (child : isChild raw) : startsIndented raw := by
  obtain ⟨tail, isRaw⟩ := rdropWhile_prefix isSpace raw
  unfold isChild startsIndented rstrip at child
  unfold startsIndented
  cases isStripped : raw.rdropWhile isSpace with
  | nil =>
    rw [isStripped] at child
    cases child
  | cons c rest =>
    rw [isStripped] at child isRaw
    rw [← isRaw]
    exact child

theorem readLine_child {raw : Str} (plain : PlainChild raw) :
    readLine false raw = ([(1, normLine (rstrip raw))], false) := by
  have indented := startsIndented_of_isChild plain.child
  simp [readLine, plain.kept, indented, plain.shown, plain.deep]

theorem readLines_children {block : List Str} (plain : ∀ child ∈ block, PlainChild child)
    (rest : List Str) :
    readLines false (block ++ rest) =
      (block.map (fun child => normLine (rstrip child))).map (fun line => (1, line)) ++
        readLines false rest := by
  induction block with
  | nil => rfl
  | cons child block ih =>
    have others := ih (fun other member =>
      plain other (.tail _ member))
    rw [cons_append, readLines_cons, readLine_child (plain child mem_cons_self), others]
    rfl

theorem chains_block {raw : Str} {rest : List Str} {skipping : Bool} {header : Str}
    (isHeader : readLine skipping raw = ([(0, header)], false))
    (plain : ∀ child ∈ rest.takeWhile isChild, PlainChild child)
    (settles : Settles (rest.dropWhile isChild)) (stack : List (Nat × Str)) :
    Outline.chainsFrom stack (readLines skipping (raw :: rest)) =
      (header, []) ::
        ((rest.takeWhile isChild).map (fun child => (normLine (rstrip child), [header])) ++
          Outline.chainsFrom [] (readLines false (rest.dropWhile isChild))) := by
  have isRead : readLines false rest =
      ((rest.takeWhile isChild).map (fun child => normLine (rstrip child))).map
          (fun line => (1, line)) ++ readLines false (rest.dropWhile isChild) := by
    rw [← readLines_children plain, takeWhile_append_dropWhile]
  rw [readLines_cons, isHeader, isRead]
  have stanza := @Outline.chainsFrom_stanza _ header _ Nat.one_pos
    ((rest.takeWhile isChild).map (fun child => normLine (rstrip child))) _ settles.read stack []
  simp only [map_map] at stanza ⊢
  exact stanza

def HeadersRead (wanted : Str → Bool) (lines : List Str) : Prop :=
  ∀ raw ∈ lines, opensBlock wanted raw →
    ∀ skipping, readLine skipping raw = ([(0, canonical (rstrip raw))], false)

theorem BlocksPlain.suffix {wanted : Str → Bool} {front lines : List Str}
    (plain : BlocksPlain wanted (front ++ lines)) : BlocksPlain wanted lines := by
  intro before raw rest isLines opens
  exact plain (front ++ before) raw rest (by rw [isLines, append_assoc]) opens

def SameStart (lines : List Str) (skipping other : Bool) (stack open_ : List (Nat × Str)) : Prop :=
  (skipping = other ∧ stack = open_) ∨ Settles lines

/-- **The reading of a configuration is that of what is left, and of the blocks
left out**. -/
theorem mem_leaveOut {wanted : Str → Bool} (lines : List Str) (plain : BlocksPlain wanted lines)
    (headers : HeadersRead wanted lines) {skipping other : Bool} {stack open_ : List (Nat × Str)}
    (same : SameStart lines skipping other stack open_) (entry : Str × List Str) :
    entry ∈ Outline.chainsFrom stack (readLines skipping lines) ↔
      entry ∈ Outline.chainsFrom open_ (readLines other (leaveOut wanted false lines)) ∨
        entry ∈ blockEntries wanted lines := by
  induction isLength : lines.length using Nat.strong_induction_on
    generalizing lines skipping other stack open_ with
  | _ length ih =>
  cases lines with
  | nil =>
    simp [readLines, visible, leaveOut, blockEntries, stripSelfSignedFrom, Outline.chainsFrom]
  | cons raw rest =>
    have isShorter : (rest.dropWhile isChild).length < length := by
      have isSuffix := (dropWhile_suffix isChild (l := rest)).length_le
      rw [← isLength, length_cons]
      omega
    have headersLater : ∀ later : List Str, later ⊆ rest → HeadersRead wanted later :=
      fun later inside other member => headers other (.tail _ (inside member))
    by_cases opens : opensBlock wanted raw = true
    · have notChild : isChild raw = false := by
        simp only [opensBlock, Bool.and_eq_true, Bool.not_eq_true'] at opens
        exact opens.1.2
      obtain ⟨plainBlock, settles⟩ := plain [] raw rest rfl opens
      have isHeader := headers raw (.head _) opens skipping
      have isLeft : leaveOut wanted false (raw :: rest) =
          leaveOut wanted false (rest.dropWhile isChild) := by
        rw [leaveOut, notChild, if_neg Bool.false_ne_true, if_pos opens, leaveOut_child]
      have plainLater : BlocksPlain wanted (rest.dropWhile isChild) := by
        refine @BlocksPlain.suffix _ wanted (raw :: rest.takeWhile isChild) _ ?_
        rw [cons_append, takeWhile_append_dropWhile]
        exact plain
      have startsAnew : SameStart (rest.dropWhile isChild) false other [] open_ := .inr settles
      have later := ih _ isShorter (rest.dropWhile isChild) plainLater
        (headersLater _ (dropWhile_suffix isChild).subset) startsAnew rfl
      rw [chains_block isHeader plainBlock settles, isLeft, blockEntries, if_pos opens,
        mem_cons, mem_cons, mem_append, mem_append, later,
        blockEntries_dropWhile]
      exact (or_congr_right or_left_comm).trans or_left_comm
    · have isLeft : leaveOut wanted false (raw :: rest) = raw :: leaveOut wanted false rest := by
        rw [leaveOut]
        cases isChild raw with
        | true => rw [if_pos rfl, if_neg Bool.false_ne_true]
        | false => rw [if_neg Bool.false_ne_true, if_neg opens]
      have oneState : Outline.chainsFrom stack (readLines skipping (raw :: rest)) =
          Outline.chainsFrom open_ (readLines other (raw :: rest)) := by
        rcases same with ⟨rfl, rfl⟩ | settles
        · rfl
        · exact settles.chains_eq skipping other stack open_
      obtain ⟨opened, goesOn⟩ := Outline.chainsFrom_append open_ (readLine other raw).1
      have goesOnAlike : SameStart rest (readLine other raw).2 (readLine other raw).2
          opened opened := .inl ⟨rfl, rfl⟩
      have later := ih rest.length (by rw [← isLength]; simp) rest
        (@BlocksPlain.suffix _ wanted [raw] _ plain) (headersLater _ (.refl _))
        goesOnAlike rfl
      rw [oneState, isLeft, readLines_cons, readLines_cons, goesOn, goesOn, mem_append,
        mem_append, later, blockEntries, if_neg opens, or_assoc]

end Read

end Nmas.Nsot.NewHardware
