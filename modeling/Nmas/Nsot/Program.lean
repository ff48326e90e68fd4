import Nmas.Nsot.Sections
import Nmas.Outline.ReadBack

/-!
Owns: command programs as text. `deploy.program_structure` tells ancestry from
configuration by indentation and control words, `program_leaves` keeps the
lines that carry configuration, `assert_sendable` refuses what the device's
line parser cannot read.

`programStructure` follows the source: one pass over the commands, with the
open entries as positions and a flag cleared on every entry something sits
under. `programStructure_eq` replaces it by `structureFrom`, which looks one
command ahead instead, and later modules reason about that.
-/

namespace Nmas.Nsot

open Nmas.Text List
open Nmas.Nsot.IfNames
open Nmas.Nsot.Normalize

/-- The command that leaves one level. -/
def exitWord : Str := "exit".ascii

def controlWords : List Str := [exitWord]

/-- A command that moves between modes and carries no configuration. -/
def isControl (command : Str) : Bool := controlWords.contains (strip command)

/-- An entry of `program_structure`. -/
structure ProgramEntry where
  line : Str
  chain : List Str
  leaf : Bool
deriving DecidableEq

/-- The loop variables of `program_structure`: the entries so far, and the
positions of those still open, innermost first. -/
structure StructureState where
  entries : List ProgramEntry
  stack : List Nat

def lineAt (entries : List ProgramEntry) (index : Nat) : Str :=
  (entries[index]?.map ProgramEntry.line).getD []

def markParents (stack : List Nat) (entries : List ProgramEntry) : List ProgramEntry :=
  entries.mapIdx (fun index entry =>
    if index ∈ stack then { entry with leaf := false } else entry)

/-- The loop body of `program_structure`. -/
def structureStep (state : StructureState) (raw : Str) : StructureState :=
  let line := rstrip raw
  if strip line = [] then state
  else if isControl line then { state with stack := state.stack.tail }
  else
    let stack := state.stack.dropWhile
      (fun index => indentOf line ≤ indentOf (lineAt state.entries index))
    { entries := markParents stack state.entries ++
        [⟨line, (stack.map (lineAt state.entries)).reverse, true⟩]
      stack := state.entries.length :: stack }

def programStructure (commands : List Str) : List ProgramEntry :=
  (commands.foldl structureStep ⟨[], []⟩).entries

def programLeaves (commands : List Str) : List Leaf :=
  ((programStructure commands).filter ProgramEntry.leaf).map
    (fun entry => ⟨entry.line, entry.chain⟩)

inductive DeployError where
  /-- `RuntimeError`: the program and its own reading disagree. -/
  | disagree (dropped invented : List Key)
  /-- `UnsendableCommand`: position, length of the program, what was found. -/
  | unsendable (index total : Nat) (found : List (Nat × Char × Nat)) (command : Str)
deriving DecidableEq

def assertSendable (commands : List Str) : Except DeployError Unit :=
  match commands.zipIdx.find? (fun entry => findNonPrintable entry.1 != []) with
  | some (command, index) =>
    .error (.unsendable (index + 1) commands.length (findNonPrintable command) command)
  | none => .ok ()

/-! ### Reading a program from the front -/

/-- Does nothing deeper follow before a line's level closes? Blank commands are
passed over, and only the next command decides. -/
def leafBefore (depth : Nat) : List Str → Bool
  | [] => true
  | raw :: rest =>
    if strip (rstrip raw) = [] then leafBefore depth rest
    else isControl (rstrip raw) || indentOf (rstrip raw) ≤ depth

def structureFrom (opened : List Str) : List Str → List ProgramEntry
  | [] => []
  | raw :: rest =>
    if strip (rstrip raw) = [] then structureFrom opened rest
    else if isControl (rstrip raw) then structureFrom opened.tail rest
    else
      let above := opened.dropWhile (fun header => indentOf (rstrip raw) ≤ indentOf header)
      ⟨rstrip raw, above.reverse, leafBefore (indentOf (rstrip raw)) rest⟩ ::
        structureFrom (rstrip raw :: above) rest

section Reading

/-- Every open entry is recorded and already known to be an ancestor. -/
private def Settled (entries : List ProgramEntry) (stack : List Nat) : Prop :=
  ∀ index ∈ stack, ∃ entry, entries[index]? = some entry ∧ entry.leaf = false

private theorem Settled.lt {entries : List ProgramEntry} {stack : List Nat}
    (settled : Settled entries stack) {index : Nat} (member : index ∈ stack) :
    index < entries.length := by
  obtain ⟨entry, found, _⟩ := settled index member
  exact (List.getElem?_eq_some_iff.mp found).1

private theorem Settled.append {entries more : List ProgramEntry} {stack : List Nat}
    (settled : Settled entries stack) : Settled (entries ++ more) stack := by
  intro index member
  rw [List.getElem?_append_left (settled.lt member)]
  exact settled index member

private theorem Settled.sublist {entries : List ProgramEntry} {stack shorter : List Nat}
    (settled : Settled entries stack) (isSublist : shorter.Sublist stack) : Settled entries shorter :=
  fun index member => settled index (isSublist.subset member)

private theorem markParents_eq_self {entries : List ProgramEntry} {stack : List Nat}
    (settled : ∀ index ∈ stack, ∀ entry, entries[index]? = some entry → entry.leaf = false) :
    markParents stack entries = entries := by
  refine ext_getElem? fun index => ?_
  rw [markParents, List.getElem?_mapIdx]
  cases found : entries[index]? with
  | none => rfl
  | some entry =>
    simp only [Option.map_some, Option.some.injEq]
    split_ifs with member
    · have notLeaf := settled index member entry found
      cases entry
      simp_all
    · rfl

private theorem Settled.mark {entries : List ProgramEntry} {stack : List Nat}
    (settled : Settled entries stack) : markParents stack entries = entries := by
  refine markParents_eq_self fun index member entry found => ?_
  obtain ⟨recorded, sameFound, notLeaf⟩ := settled index member
  rw [found, Option.some.injEq] at sameFound
  exact sameFound ▸ notLeaf

private theorem map_lineAt_append {entries more : List ProgramEntry} {stack : List Nat}
    (settled : Settled entries stack) :
    stack.map (lineAt (entries ++ more)) = stack.map (lineAt entries) := by
  refine map_congr_left fun index member => ?_
  rw [lineAt, lineAt, List.getElem?_append_left (settled.lt member)]

private theorem lineAt_length (entries : List ProgramEntry) (entry : ProgramEntry)
    (more : List ProgramEntry) :
    lineAt (entries ++ entry :: more) entries.length = entry.line := by
  simp [lineAt]

/-- The pass from a state whose open entries are all ancestors, and from one
that has just read a line. The first case of the induction feeds the second:
a line closes as soon as the next command does not sit under it. -/
private theorem foldl_structureStep (commands : List Str) :
    (∀ entries stack, Settled entries stack →
      (commands.foldl structureStep ⟨entries, stack⟩).entries =
        entries ++ structureFrom (stack.map (lineAt entries)) commands) ∧
    (∀ entries entry stack, Settled entries stack →
      (commands.foldl structureStep ⟨entries ++ [entry], entries.length :: stack⟩).entries =
        entries ++ { entry with leaf := entry.leaf && leafBefore (indentOf entry.line) commands } ::
          structureFrom (entry.line :: stack.map (lineAt entries)) commands) := by
  induction commands with
  | nil =>
    constructor
    · intro entries stack _
      simp [structureFrom]
    · intro entries entry stack _
      simp [structureFrom, leafBefore]
  | cons raw rest ih =>
    obtain ⟨fromSettled, fromFresh⟩ := ih
    have settledCase : ∀ entries stack, Settled entries stack →
        ((raw :: rest).foldl structureStep ⟨entries, stack⟩).entries =
          entries ++ structureFrom (stack.map (lineAt entries)) (raw :: rest) := by
      intro entries stack settled
      rw [foldl_cons, structureStep, structureFrom]
      by_cases blank : strip raw = []
      · simp only [strip_rstrip, blank, if_true]
        exact fromSettled entries stack settled
      · by_cases control : isControl (rstrip raw) = true
        · simp only [strip_rstrip, blank, control, if_true, if_false, ← map_tail]
          exact fromSettled entries stack.tail (settled.sublist (tail_sublist _))
        · simp only [strip_rstrip, blank, control, if_false, Bool.false_eq_true, dropWhile_map]
          have stillSettled := settled.sublist (dropWhile_sublist
            (fun index => decide (indentOf (rstrip raw) ≤ indentOf (lineAt entries index))))
          rw [stillSettled.mark, fromFresh entries _ _ stillSettled]
          simp [Function.comp_def]
    refine ⟨settledCase, ?_⟩
    intro entries entry stack settled
    by_cases blank : strip raw = []
    · rw [foldl_cons, structureStep, structureFrom, leafBefore]
      simp only [strip_rstrip, blank, if_true]
      exact fromFresh entries entry stack settled
    · by_cases control : isControl (rstrip raw) = true
      · rw [foldl_cons, structureStep, structureFrom, leafBefore]
        simp only [strip_rstrip, blank, control, if_true, if_false, tail_cons, Bool.true_or, Bool.and_true]
        rw [fromSettled _ _ settled.append, map_lineAt_append settled, append_assoc]
        rfl
      · by_cases closes : indentOf (rstrip raw) ≤ indentOf entry.line
        · -- The line closes, so the step is the one from the settled state.
          have sameStep : structureStep ⟨entries ++ [entry], entries.length :: stack⟩ raw =
              structureStep ⟨entries ++ [entry], stack⟩ raw := by
            simp [structureStep, blank, control, lineAt_length, closes]
          have settledRun := settledCase (entries ++ [entry]) stack settled.append
          rw [foldl_cons] at settledRun
          rw [foldl_cons, sameStep, settledRun, map_lineAt_append settled, leafBefore]
          simp [structureFrom, blank, control, closes]
        · -- The line becomes an ancestor and stays open.
          have marked : markParents (entries.length :: stack) (entries ++ [entry]) =
              entries ++ [{ entry with leaf := false }] := by
            have others : entries.mapIdx (fun index other =>
                if index ∈ entries.length :: stack then { other with leaf := false } else other) =
                entries := by
              rw [← markParents, markParents_eq_self]
              intro index member other found
              rcases mem_cons.mp member with rfl | deeper
              · simp at found
              · obtain ⟨recorded, sameFound, notLeaf⟩ := settled index deeper
                rw [found, Option.some.injEq] at sameFound
                exact sameFound ▸ notLeaf
            rw [markParents, mapIdx_append, others]
            simp
          have stillSettled :
              Settled (entries ++ [{ entry with leaf := false }]) (entries.length :: stack) := by
            intro index member
            rcases mem_cons.mp member with rfl | deeper
            · exact ⟨{ entry with leaf := false }, by simp, rfl⟩
            · exact settled.append index deeper
          have sameLines : (entries.length :: stack).map (lineAt (entries ++ [entry])) =
              entry.line :: stack.map (lineAt entries) := by
            rw [map_cons, map_lineAt_append settled, lineAt_length]
          have markedLines : (entries.length :: stack).map
              (lineAt (entries ++ [{ entry with leaf := false }])) =
                entry.line :: stack.map (lineAt entries) := by
            rw [map_cons, map_lineAt_append settled, lineAt_length]
          have step : structureStep ⟨entries ++ [entry], entries.length :: stack⟩ raw =
              ⟨(entries ++ [{ entry with leaf := false }]) ++
                  [⟨rstrip raw, (entry.line :: stack.map (lineAt entries)).reverse, true⟩],
                (entries ++ [{ entry with leaf := false }]).length :: entries.length :: stack⟩ := by
            simp only [structureStep, strip_rstrip, blank, control, if_false, dropWhile_cons,
              lineAt_length, closes, decide_false, marked, sameLines, length_append,
              length_cons, length_nil, Bool.false_eq_true]
          rw [foldl_cons, step, fromFresh _ _ _ stillSettled, markedLines]
          simp [structureFrom, leafBefore, blank, control, closes]

theorem programStructure_eq (commands : List Str) :
    programStructure commands = structureFrom [] commands := by
  have settled : Settled [] [] := nofun
  simpa [programStructure] using (foldl_structureStep commands).1 [] [] settled

end Reading

/-! ### What the entries of a program are -/

section Entries

variable {opened commands : List Str} {entry : ProgramEntry}

structure IsCommand (line : Str) : Prop where
  trimmed : rstrip line = line
  nonBlank : strip line ≠ []
  notControl : isControl line = false

private theorem command_of_mem_structureFrom (member : entry ∈ structureFrom opened commands) :
    IsCommand entry.line ∧ ∃ raw ∈ commands, entry.line = rstrip raw := by
  induction commands generalizing opened with
  | nil => cases member
  | cons raw rest ih =>
    have later : ∀ opened', entry ∈ structureFrom opened' rest →
        IsCommand entry.line ∧ ∃ found ∈ raw :: rest, entry.line = rstrip found := by
      intro opened' inRest
      obtain ⟨isCommand, found, inside, same⟩ := ih inRest
      exact ⟨isCommand, found, .tail _ inside, same⟩
    rw [structureFrom] at member
    split_ifs at member with blank control
    · exact later _ member
    · exact later _ member
    · rcases mem_cons.mp member with rfl | inRest
      · exact ⟨⟨rstrip_rstrip, blank, by simpa using control⟩, raw, mem_cons_self, rfl⟩
      · exact later _ inRest

/-- Every header above an entry was open before, or was read as an ancestor
under the shorter chain. A header open from before that is the innermost one
has the next command under it. -/
private theorem ancestor_of_mem_structureFrom {above : List Str} {header : Str}
    (member : entry ∈ structureFrom opened commands) (isPrefix : above ++ [header] <+: entry.chain) :
    (above ++ [header] <+: opened.reverse ∧
        (above ++ [header] = opened.reverse → leafBefore (indentOf header) commands = false)) ∨
      ⟨header, above, false⟩ ∈ structureFrom opened commands := by
  induction commands generalizing opened with
  | nil => cases member
  | cons raw rest ih =>
    rw [structureFrom] at member ⊢
    by_cases blank : strip (rstrip raw) = []
    · simp only [blank, if_true, leafBefore] at member ⊢
      exact ih member
    · by_cases control : isControl (rstrip raw) = true
      · simp only [blank, control, if_true, if_false] at member ⊢
        refine (ih member).imp_left fun ⟨inTail, _⟩ => ?_
        have shorter : opened.tail.reverse <+: opened.reverse :=
          reverse_prefix.mpr (tail_suffix opened)
        refine ⟨inTail.trans shorter, fun whole => ?_⟩
        -- The innermost header has been left, so it is above nothing.
        have lengths := inTail.length_le
        rw [whole] at lengths
        cases opened with
        | nil => simp at whole
        | cons top below =>
          simp only [tail_cons, length_reverse, length_cons] at lengths
          omega
      · simp only [blank, control, if_false, Bool.false_eq_true] at member ⊢
        set kept := opened.dropWhile (fun header => indentOf (rstrip raw) ≤ indentOf header)
          with isKept
        have keptOpen : ∀ {above header}, above ++ [header] <+: kept.reverse →
            above ++ [header] <+: opened.reverse ∧
              (above ++ [header] = opened.reverse →
                leafBefore (indentOf header) (raw :: rest) = false) := by
          intro above header inKept
          have isSuffix : kept <:+ opened := dropWhile_suffix _
          refine ⟨inKept.trans (List.reverse_prefix.mpr isSuffix), fun whole => ?_⟩
          -- Nothing has closed, so the innermost header is above the line.
          have allKept : kept = opened :=
            isSuffix.eq_of_length_le (by
              have lengths := inKept.length_le
              rwa [whole, length_reverse, length_reverse] at lengths)
          have split : opened = header :: above.reverse := by
            rw [← reverse_reverse opened, ← whole]
            simp
          rw [isKept, split, dropWhile_cons] at allKept
          split_ifs at allKept with closes
          · have shorter := (dropWhile_suffix (l := above.reverse)
              (fun header => decide (indentOf (rstrip raw) ≤ indentOf header))).length_le
            rw [allKept, length_cons] at shorter
            omega
          · simp only [leafBefore, blank, control, if_false, Bool.false_or]
            simpa using closes
        rcases mem_cons.mp member with rfl | inRest
        · exact .inl (keptOpen isPrefix)
        · rcases ih inRest with ⟨inOpened, innermost⟩ | found
          · rw [reverse_cons] at inOpened innermost
            rcases prefix_concat_iff.mp inOpened with whole | shorter
            · obtain ⟨rfl, sameHeader⟩ := append_inj' whole rfl
              obtain rfl : header = rstrip raw := by simpa using sameHeader
              rw [innermost rfl]
              exact .inr (.head _)
            · exact .inl (keptOpen shorter)
          · exact .inr (.tail _ found)

private theorem nested_of_mem_structureFrom (member : entry ∈ structureFrom opened commands)
    (nested : Outline.Nested indentOf opened.reverse) :
    Outline.Nested indentOf (entry.chain ++ [entry.line]) := by
  induction commands generalizing opened with
  | nil => cases member
  | cons raw rest ih =>
    rw [structureFrom] at member
    split_ifs at member with blank control
    · exact ih member nested
    · refine ih member (List.Pairwise.sublist ?_ nested)
      exact (reverse_sublist.mpr (tail_sublist opened))
    · have here := Outline.nested_dropWhile nested (rstrip raw)
      rcases mem_cons.mp member with rfl | inRest
      · exact here
      · refine ih inRest ?_
        rw [reverse_cons]
        exact here

theorem nested_of_mem_programStructure (member : entry ∈ programStructure commands) :
    Outline.Nested indentOf (entry.chain ++ [entry.line]) := by
  rw [programStructure_eq] at member
  exact nested_of_mem_structureFrom member List.Pairwise.nil

theorem command_of_mem_programStructure (member : entry ∈ programStructure commands) :
    IsCommand entry.line ∧ ∃ raw ∈ commands, entry.line = rstrip raw := by
  rw [programStructure_eq] at member
  exact command_of_mem_structureFrom member

theorem ancestor_mem_programStructure {above : List Str} {header : Str}
    (member : entry ∈ programStructure commands) (isPrefix : above ++ [header] <+: entry.chain) :
    ⟨header, above, false⟩ ∈ programStructure commands := by
  rw [programStructure_eq] at member ⊢
  refine (ancestor_of_mem_structureFrom member isPrefix).resolve_left fun ⟨inOpened, _⟩ => ?_
  simp at inOpened

theorem mem_programLeaves {leaf : Leaf} :
    leaf ∈ programLeaves commands ↔ ⟨leaf.line, leaf.chain, true⟩ ∈ programStructure commands := by
  unfold programLeaves
  simp only [mem_map, mem_filter]
  constructor
  · rintro ⟨⟨line, chain, isLeaf⟩, ⟨member, rfl⟩, rfl⟩
    exact member
  · intro member
    exact ⟨_, ⟨member, rfl⟩, rfl⟩

/-! ### A program without blank commands -/

def ofReading (reading : Outline.Reading Str) : ProgramEntry :=
  ⟨reading.line, reading.level, reading.isLast⟩

theorem structureFrom_eq_read
    (clean : ∀ command ∈ commands, rstrip command = command ∧ strip command ≠ []) :
    structureFrom opened commands =
      (Outline.read indentOf isControl opened commands).map ofReading := by
  induction commands generalizing opened with
  | nil => rfl
  | cons command rest ih =>
    obtain ⟨trimmed, nonBlank⟩ := clean command (.head _)
    have later : ∀ opened', structureFrom opened' rest =
        (Outline.read indentOf isControl opened' rest).map ofReading :=
      fun _ => ih (fun other inside => clean other (.tail _ inside))
    have closes : leafBefore (indentOf command) rest =
        Outline.closesBefore indentOf isControl (indentOf command) rest := by
      cases rest with
      | nil => rfl
      | cons next rest =>
        obtain ⟨nextTrimmed, nextNonBlank⟩ := clean next (by simp)
        simp [leafBefore, Outline.closesBefore, nextTrimmed, nextNonBlank]
    rw [structureFrom, Outline.read, trimmed, if_neg nonBlank]
    split_ifs
    · exact later _
    · simp only [later, closes, map_cons]
      rfl

end Entries

end Nmas.Nsot
