import Nmas.Nsot.Merge
import Nmas.Nsot.SettingKeys
import Nmas.Nsot.Rollback.Repeatable
import Nmas.Nsot.Rollback.LineRanges

/-!
Owns: `deploy.rollback_commands`, the undo of exactly what a push changed, and
the evidence it reads: `landed_between`, `landed_leaves`, `created_containers`.

The loop over the pushed program is a verdict on each entry (`judgeEntry`). What
a verdict sends is `undoOf`, a line with its section; the whole list is
`pending`, and the program is an emission over it in which no line opens a
level.
-/

namespace Nmas.Nsot.Rollback

open Nmas.Text List
open Nmas.Nsot.IfNames

section Evidence

variable [Unicode]

/-- `landed_key`: a line as the device holds it. -/
def landedKey (key : Key) : Key :=
  (key.1.map (fun header => strip (canonicaliseLine header)), strip (canonicaliseLine key.2))

/-- `landed_between`: the lines of `post` that `pre` did not hold under the same
headers. -/
def landedBetween (pre post : Str) : List Key :=
  (((configKeys post).map landedKey).filter
    (fun key => !((configKeys pre).map landedKey).contains key)).eraseDups

def landedSet (landed : Option (List Key)) : Option (List Key) := landed.map (List.map landedKey)

def hasLanded (landed : Option (List Key)) (key : Key) : Bool :=
  (landedSet landed).all (fun seen => seen.contains (landedKey key))

/-- `landed_leaves`: the leaves of a program that landed, and the others. -/
def landedLeaves (pushed : List Str) (landed : Option (List Key)) : List Leaf × List Leaf :=
  let applied := (programLeaves pushed).filter (fun leaf => hasLanded landed leaf.key)
  (applied, (programLeaves pushed).filter (fun leaf => !applied.contains leaf))

def programKey (entry : ProgramEntry) : Key := canonicalKey (entry.chain, entry.line)

/-- Is a program entry a header of terminal lines the device already had? -/
def isHeldRange (pre : Str) (entry : ProgramEntry) : Bool :=
  entry.chain == [] && !entry.leaf && lineRangeHeld entry.line pre

/-- `created_containers`: every section the push brought into existence. -/
def createdContainers (pushed : List Str) (pre : Str) : List Key :=
  if strip pre = [] then []
  else
    let present := (configKeys pre).map canonicalKey
    ((programStructure pushed).filter (fun entry =>
      !entry.leaf && !present.contains (programKey entry) &&
        !(entry.chain == [] && lineRangeHeld entry.line pre))).map programKey

end Evidence

/-- What a rollback does about one entry of the pushed program. -/
inductive Verdict where
  /-- Under a held range of terminal lines, which has an undo of its own. -/
  | underHeldRange
  /-- Under a section whose removal removes it. -/
  | implied
  /-- A header that is no creation of this push. -/
  | ancestry
  /-- A section this push created. -/
  | created
  /-- Never applied. -/
  | rejected
  /-- One instance more of a repeatable command. -/
  | oneMore
  /-- Another value of a setting the device held. -/
  | replaced (held : Str)
  /-- A `no` form known to have landed over nothing. -/
  | removed
  /-- A `no` form over nothing, with nothing read. -/
  | undecided
  /-- A setting the device did not hold. -/
  | added
  /-- The line was already there. -/
  | alreadyHeld
deriving DecidableEq

section Build

variable [Unicode] (pushed : List Str) (pre : Str) (landed : Option (List Key))

/-- Every line of the pre-change configuration, headers included, as the setting
index reads it. -/
def heldLines : List Leaf := (sectionChains pre).map (fun entry => ⟨entry.1, entry.2⟩)

def landedContainers : List Key :=
  (createdContainers pushed pre).filter (fun key => hasLanded landed key)

def isImplied (chain : List Str) : Bool :=
  (landedContainers pushed pre landed).any (fun container =>
    (container.1 ++ [container.2]).isPrefixOf (chain.map canonicaliseLine))

/-- The keys of `held_ranges`. -/
def heldRanges : List Str :=
  (((programStructure pushed).filter (isHeldRange pre)).map
    (fun entry => rstrip entry.line)).eraseDups

def isUnderHeldRange (entry : ProgramEntry) : Bool :=
  match entry.chain with
  | [header] => (heldRanges pushed pre).contains (rstrip header)
  | _ => false

/-- `_negates_exactly` as the loop asks it. -/
def negatesInstance (chain : List Str) (line : Str) (matched : List Str) : Bool × Option (List Str) :=
  negatesExactly (chain.map (fun header => strip (canonicaliseLine header))) (strip line)
    (matched.map strip)

def judgeLeaf (chain : List Str) (line : Str) : Verdict :=
  match previous (heldLines pre) chain (canonicaliseLine line) with
  | some (held, matched) =>
    if held = canonicaliseLine line then .alreadyHeld
    else if matched ≠ [] ∧ (negatesInstance chain (canonicaliseLine line) matched).1 then .oneMore
    else .replaced held
  | none =>
    if "no ".ascii.isPrefixOf (strip line) then
      -- Only a `no` form that is known to have landed proves a change.
      if landed.isSome then .removed else .undecided
    else .added

/-- The loop's body of `rollback_commands`. -/
def judgeEntry (entry : ProgramEntry) : Verdict :=
  if isUnderHeldRange pushed pre entry then .underHeldRange
  else if isImplied pushed pre landed entry.chain then .implied
  else if entry.leaf = false then
    if programKey entry ∈ landedContainers pushed pre landed then .created else .ancestry
  else if (⟨entry.line, entry.chain⟩ : Leaf) ∉ (landedLeaves pushed landed).1 then .rejected
  else judgeLeaf pre landed entry.chain entry.line

/-- What a `no` line sets when it is taken back, at the line's indentation. -/
def positive (line : Str) : Str := spaces (indentOf line) ++ strip ((strip line).drop 3)

/-- What the loop appends to `pending` for an entry. -/
def undoOf (entry : ProgramEntry) : List (List Str × Str) :=
  match judgeEntry pushed pre landed entry with
  | .created | .oneMore | .added => [(entry.chain, negated entry.line)]
  | .replaced held => [(entry.chain, held)]
  | .removed => [(entry.chain, positive entry.line)]
  | .underHeldRange | .implied | .ancestry | .rejected | .undecided | .alreadyHeld => []

/-- The leaves under a held range whose header landed. -/
def rangeChildren (header : Str) : List Str :=
  ((programStructure pushed).filter (fun entry =>
    match entry.chain with
    | [above] => rstrip above == header && entry.leaf && hasLanded landed ([], above)
    | _ => false)).map ProgramEntry.line

/-- `pending`: what the rollback sends, each line with its section. -/
def pending : List (List Str × Str) :=
  (programStructure pushed).flatMap (undoOf pushed pre landed) ++
    (heldRanges pushed pre).flatMap (fun header =>
      lineRangeUndo header (rangeChildren pushed landed header) pre)

/-- The program of a list of lines with their sections. -/
def emitRollback (lines : List (List Str × Str)) : List Str :=
  Outline.emit (fun _ => false) exitWord lines

/-- An entry of `unsure`. -/
structure UnsureRestore where
  chain : List Str
  line : Str
  held : Str
deriving DecidableEq

/-- What the loop appends to `unsure` for an entry: a value restored beside a
line whose command is not declared repeatable. -/
def unsureOf (entry : ProgramEntry) : List UnsureRestore :=
  match judgeEntry pushed pre landed entry,
      previous (heldLines pre) entry.chain (canonicaliseLine entry.line) with
  | .replaced _, some (held, matched) =>
    if matched ≠ [] ∧ (negatesInstance entry.chain (canonicaliseLine entry.line) matched).2 = none
    then [⟨entry.chain, strip entry.line, strip held⟩] else []
  | _, _ => []

/-- `rollback_commands`, with what it appends to `unsure`. -/
def rollbackCommands : Except DeployError (List Str × List UnsureRestore) := do
  let commands := emitRollback (pending pushed pre landed)
  assertSendable commands
  return (commands, (programStructure pushed).flatMap (unsureOf pushed pre landed))

end Build

/-! ### What is built -/

section Built

variable [Unicode] {pushed : List Str} {pre : Str} {landed : Option (List Key)}

/-- A `no` form. -/
def IsNoForm (command : Str) : Prop := (words command).head? = some noWord

omit [Unicode] in
instance (command : Str) : Decidable (IsNoForm command) := by
  unfold IsNoForm
  infer_instance

omit [Unicode] in
theorem words_negated (line : Str) : words (negated line) = noWord :: words line := by
  have split : negated line = spaces (indentOf line) ++ (noWord ++ ' ' :: strip line) := rfl
  rw [split, words_indent fun c inside => isSpace_of_mem_spaces inside,
    words_cons (by decide) (by decide) (by decide), words_strip]

omit [Unicode] in
theorem isNoForm_negated (line : Str) : IsNoForm (negated line) := by
  rw [IsNoForm, words_negated]
  rfl

omit [Unicode] in
theorem isNoForm_of_isPrefixOf {line : Str} (leads : "no ".ascii.isPrefixOf (strip line)) :
    IsNoForm line := by
  obtain ⟨rest, split⟩ := isPrefixOf_iff_prefix.mp leads
  have isWord : strip line = noWord ++ ' ' :: rest := split.symm
  rw [IsNoForm, ← words_strip, isWord, words_cons (by decide) (by decide) (by decide)]
  rfl

theorem mem_heldLines {leaf : Leaf} :
    leaf ∈ heldLines pre ↔ (leaf.line, leaf.chain) ∈ sectionChains pre := by
  unfold heldLines
  constructor
  · intro member
    obtain ⟨entry, found, rfl⟩ := mem_map.mp member
    exact found
  · intro found
    exact mem_map.mpr ⟨_, found, rfl⟩

theorem eq_emitRollback {commands : List Str} {unsure : List UnsureRestore}
    (built : rollbackCommands pushed pre landed = .ok (commands, unsure)) :
    commands = emitRollback (pending pushed pre landed) := by
  simp only [rollbackCommands, bind, Except.bind, pure, Except.pure] at built
  split at built
  · cases built
  · cases built
    rfl

theorem notNo_of_negatesInstance {chain matched : List Str} {line : Str}
    (oneMore : (negatesInstance chain line matched).1) : ¬ IsNoForm line := by
  intro isNo
  have noRow : ∀ above, repeatableRow above (strip line) = none := by
    intro above
    rw [repeatableRow, words_strip]
    exact if_pos (.inr isNo)
  rw [negatesInstance, negatesExactly, noRow] at oneMore
  split at oneMore
  · rename_i _ _ found
    cases found
  · cases oneMore

/-- What the loop sends for an entry of the pushed program, and why. -/
inductive Undone (pushed : List Str) (pre : Str) (landed : Option (List Key))
    (entry : ProgramEntry) : List Str × Str → Prop
  /-- A section the push created, removed by itself. -/
  | created (verdict : judgeEntry pushed pre landed entry = .created) :
      Undone pushed pre landed entry (entry.chain, negated entry.line)
  /-- A leaf whose own `no` form takes it back. -/
  | added (isLeaf : entry.leaf = true)
      (isPositive : "no ".ascii.isPrefixOf (strip entry.line) = false ∨
        ¬ IsNoForm (canonicaliseLine entry.line)) :
      Undone pushed pre landed entry (entry.chain, negated entry.line)
  /-- A held line that sets the same thing. -/
  | replaced (isLeaf : entry.leaf = true) (held : Str) (matched : List Str)
      (found : previous (heldLines pre) entry.chain (canonicaliseLine entry.line) =
        some (held, matched)) :
      Undone pushed pre landed entry (entry.chain, held)
  /-- What a landed `no` form took away. -/
  | removed (applied : ⟨entry.line, entry.chain⟩ ∈ (landedLeaves pushed landed).1)
      (isSome : landed.isSome = true)
      (isNo : "no ".ascii.isPrefixOf (strip entry.line) = true) :
      Undone pushed pre landed entry (entry.chain, positive entry.line)

section JudgeLeaf

variable {chain : List Str} {line : Str}

private theorem of_oneMore (verdict : judgeLeaf pre landed chain line = .oneMore) :
    ¬ IsNoForm (canonicaliseLine line) := by
  unfold judgeLeaf at verdict
  split at verdict
  · split_ifs at verdict with same oneMore
    exact notNo_of_negatesInstance oneMore.2
  · split_ifs at verdict

private theorem of_added (verdict : judgeLeaf pre landed chain line = .added) :
    "no ".ascii.isPrefixOf (strip line) = false := by
  unfold judgeLeaf at verdict
  split at verdict
  · split_ifs at verdict
  · split_ifs at verdict with isNo
    exact Bool.not_eq_true _ |>.mp isNo

private theorem of_replaced {held : Str} (verdict : judgeLeaf pre landed chain line = .replaced held) :
    ∃ matched, previous (heldLines pre) chain (canonicaliseLine line) = some (held, matched) := by
  unfold judgeLeaf at verdict
  split at verdict
  · rename_i matched searched
    split_ifs at verdict
    cases verdict
    exact ⟨matched, searched⟩
  · split_ifs at verdict

private theorem of_removed (verdict : judgeLeaf pre landed chain line = .removed) :
    landed.isSome ∧ "no ".ascii.isPrefixOf (strip line) := by
  unfold judgeLeaf at verdict
  split at verdict
  · split_ifs at verdict
  · split_ifs at verdict with isNo isSome
    exact ⟨isSome, isNo⟩

end JudgeLeaf

private theorem judgeEntry_leaf {entry : ProgramEntry} {verdict : Verdict}
    (judged : judgeEntry pushed pre landed entry = verdict)
    (ofLeaf : verdict ∉ [.underHeldRange, .implied, .created, .ancestry, .rejected]) :
    entry.leaf ∧ judgeLeaf pre landed entry.chain entry.line = verdict ∧
      ⟨entry.line, entry.chain⟩ ∈ (landedLeaves pushed landed).1 := by
  unfold judgeEntry at judged
  split_ifs at judged with under implied notLeaf created applied
  · simp [← judged] at ofLeaf
  · simp [← judged] at ofLeaf
  · simp [← judged] at ofLeaf
  · simp [← judged] at ofLeaf
  · exact ⟨by simpa using notLeaf, judged, applied⟩
  · simp [← judged] at ofLeaf

theorem undone_of_mem_undoOf {entry : ProgramEntry} {pair : List Str × Str}
    (undo : pair ∈ undoOf pushed pre landed entry) : Undone pushed pre landed entry pair := by
  unfold undoOf at undo
  cases judged : judgeEntry pushed pre landed entry with
  | created =>
    simp only [judged, mem_singleton] at undo
    exact undo ▸ .created judged
  | oneMore =>
    simp only [judged, mem_singleton] at undo
    obtain ⟨isLeaf, verdict, _⟩ := judgeEntry_leaf judged (by simp)
    exact undo ▸ .added isLeaf (.inr (of_oneMore verdict))
  | added =>
    simp only [judged, mem_singleton] at undo
    obtain ⟨isLeaf, verdict, _⟩ := judgeEntry_leaf judged (by simp)
    exact undo ▸ .added isLeaf (.inl (of_added verdict))
  | replaced held =>
    simp only [judged, mem_singleton] at undo
    obtain ⟨isLeaf, verdict, _⟩ := judgeEntry_leaf judged (by simp)
    obtain ⟨matched, found⟩ := of_replaced verdict
    exact undo ▸ .replaced isLeaf held matched found
  | removed =>
    simp only [judged, mem_singleton] at undo
    obtain ⟨_, verdict, applied⟩ := judgeEntry_leaf judged (by simp)
    obtain ⟨isSome, isNo⟩ := of_removed verdict
    exact undo ▸ .removed applied isSome isNo
  | underHeldRange | implied | ancestry | rejected | undecided | alreadyHeld =>
    simp [judged] at undo

end Built

end Nmas.Nsot.Rollback
