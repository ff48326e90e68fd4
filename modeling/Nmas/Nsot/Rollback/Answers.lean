import Nmas.Nsot.Rollback.Build

/-!
Owns: what a rollback answers. `landed_leaves_answered` follows every pushed
leaf that reached the device to the line that undoes it, and
`lost_line_restored` every line the push took away to the line that puts it
back. Both leave out the headers of terminal lines the device already had: a
range has an undo of its own, `rangeChild_negated`.

The push is a merge program, so its lines are canonical; the evidence is
`landedBetween` the configurations before and after.
-/

namespace Nmas.Nsot.Rollback

open Nmas.Text List
open Nmas.Nsot.IfNames

section Evidence

variable [Unicode] {pre post : Str}

/-- A configuration holds a line under the same headers. -/
def HeldUnder (config : Str) (key : Key) : Prop := landedKey key ∈ (configKeys config).map landedKey

/-- A line reached the device: it holds it after the push and did not before. -/
def Landed (pre post : Str) (key : Key) : Prop := HeldUnder post key ∧ ¬ HeldUnder pre key

instance (config : Str) (key : Key) : Decidable (HeldUnder config key) := by
  unfold HeldUnder
  infer_instance

instance (pre post : Str) (key : Key) : Decidable (Landed pre post key) := by
  unfold Landed
  infer_instance

theorem heldUnder_of_mem {line : Str} {chain : List Str}
    (member : (line, chain) ∈ sectionChains pre) : HeldUnder pre (chain, line) :=
  mem_map_of_mem (mem_configKeys.mpr member)

theorem mem_landedBetween {key : Key} :
    key ∈ landedBetween pre post ↔
      key ∈ (configKeys post).map landedKey ∧ key ∉ (configKeys pre).map landedKey := by
  unfold landedBetween
  simp [mem_eraseDups]

private theorem strip_canonicaliseLine {line : Str} (sectionLine : IsSectionLine line) :
    strip (canonicaliseLine (strip (canonicaliseLine line))) = strip (canonicaliseLine line) := by
  rw [sectionLine.canonical, strip_of_trimmed sectionLine.trimmed,
    canonicaliseLine_lstrip sectionLine.noBreak sectionLine.canonical, strip_lstrip,
    strip_of_trimmed sectionLine.trimmed]

private theorem landedKey_landedKey {config : Str} {key : Key} (member : key ∈ configKeys config) :
    landedKey (landedKey key) = landedKey key := by
  have entry := mem_configKeys.mp member
  simp only [landedKey, map_map, Prod.mk.injEq]
  constructor
  · refine map_congr_left fun header inChain => ?_
    rw [Function.comp_apply, strip_canonicaliseLine (isSectionLine_of_mem_chain entry inChain)]
  · exact strip_canonicaliseLine (isSectionLine_of_mem entry)

theorem hasLanded_of_landed {key : Key} (landed : Landed pre post key) :
    hasLanded (some (landedBetween pre post)) key := by
  obtain ⟨held, member, same⟩ := mem_map.mp landed.1
  have seen : landedKey key ∈ landedBetween pre post := mem_landedBetween.mpr landed
  have again : landedKey (landedKey key) = landedKey key := by
    rw [← same, landedKey_landedKey member]
  simp only [hasLanded, landedSet, Option.map_some, Option.all_some, contains_eq_mem,
    decide_eq_true_eq]
  exact mem_map.mpr ⟨landedKey key, seen, again⟩

end Evidence

/-! ### The lines of a pushed program -/

section Pushed

variable [Unicode] {intended pre : Str} {pushed : List Str}
variable (sent : mergeCommands intended pre = .ok pushed)
include sent

theorem map_canonicaliseLine_entry {entry : ProgramEntry}
    (member : entry ∈ programStructure pushed) :
    entry.chain.map canonicaliseLine = entry.chain := by
  have chain := (sectionLine_of_mem_programStructure sent member).2
  calc entry.chain.map canonicaliseLine = entry.chain.map id :=
        map_congr_left fun header inChain => (chain header inChain).canonical
    _ = entry.chain := map_id _

theorem programKey_eq {entry : ProgramEntry} (member : entry ∈ programStructure pushed) :
    programKey entry = (entry.chain, entry.line) := by
  have line := (sectionLine_of_mem_programStructure sent member).1
  rw [programKey, canonicalKey, map_canonicaliseLine_entry sent member, line.canonical]

theorem mem_heldRanges {header : Str} :
    header ∈ heldRanges pushed pre ↔
      ⟨header, [], false⟩ ∈ programStructure pushed ∧ lineRangeHeld header pre := by
  unfold heldRanges
  simp only [mem_eraseDups, mem_map, mem_filter, isHeldRange, Bool.and_eq_true,
    beq_iff_eq, Bool.not_eq_true']
  constructor
  · rintro ⟨⟨line, chain, leaf⟩, ⟨member, ⟨rfl, rfl⟩, held⟩, rfl⟩
    have line := (sectionLine_of_mem_programStructure sent member).1
    rw [line.trimmed]
    exact ⟨member, held⟩
  · rintro ⟨member, held⟩
    have line := (sectionLine_of_mem_programStructure sent member).1
    exact ⟨_, ⟨member, ⟨rfl, rfl⟩, held⟩, line.trimmed⟩

/-- A line under a header of terminal lines the device already had, at any
depth. -/
def UnderRange (pushed : List Str) (pre : Str) (chain : List Str) : Prop :=
  ∃ header ∈ heldRanges pushed pre, chain.head? = some header

omit sent in
instance (pushed : List Str) (pre : Str) (chain : List Str) :
    Decidable (UnderRange pushed pre chain) := by
  unfold UnderRange
  infer_instance

private theorem underRange_of_isUnderHeldRange {entry : ProgramEntry}
    (member : entry ∈ programStructure pushed) (under : isUnderHeldRange pushed pre entry) :
    ∃ header ∈ heldRanges pushed pre, entry.chain = [header] := by
  unfold isUnderHeldRange at under
  split at under
  · rename_i header chain
    have isLine := (sectionLine_of_mem_programStructure sent member).2 header (by simp [chain])
    rw [isLine.trimmed, contains_iff_mem] at under
    exact ⟨header, under, chain⟩
  · cases under

private theorem created_of_container {landed : Option (List Key)} {chain : List Str}
    {container : Key} (member : container ∈ landedContainers pushed pre landed)
    (isPrefix : container.1 ++ [container.2] <+: chain) (outside : ¬ UnderRange pushed pre chain) :
    ∃ entry ∈ programStructure pushed, judgeEntry pushed pre landed entry = .created ∧
      (entry.chain, entry.line) ∈ landedContainers pushed pre landed ∧
        entry.chain ++ [entry.line] <+: chain := by
  induction length : container.1.length using Nat.strong_induction_on generalizing container with
  | _ size ih =>
    have isCreated := mem_of_mem_filter member
    unfold createdContainers at isCreated
    split_ifs at isCreated with blank
    · cases isCreated
    · obtain ⟨entry, inFilter, rfl⟩ := mem_map.mp isCreated
      obtain ⟨inProgram, properties⟩ := mem_filter.mp inFilter
      have key := programKey_eq sent inProgram
      rw [key] at isPrefix
      have isSize : entry.chain.length = size := by rw [← length, key]
      have notUnder : isUnderHeldRange pushed pre entry = false := by
        by_contra under
        obtain ⟨header, held, chainIs⟩ :=
          underRange_of_isUnderHeldRange sent inProgram (by simpa using under)
        refine outside ⟨header, held, ?_⟩
        obtain ⟨below, rfl⟩ := isPrefix
        simp [chainIs]
      by_cases implied : isImplied pushed pre landed entry.chain = true
      · -- A section further out is created too.
        obtain ⟨outer, isOuter, isAbove⟩ := any_eq_true.mp implied
        rw [map_canonicaliseLine_entry sent inProgram, isPrefixOf_iff_prefix] at isAbove
        refine ih outer.1.length ?_ isOuter
          (isAbove.trans ((prefix_append _ _).trans isPrefix)) rfl
        have lengths := isAbove.length_le
        simp only [length_append, length_cons, length_nil] at lengths
        omega
      · refine ⟨entry, inProgram, ?_, key ▸ member, isPrefix⟩
        have notLeaf : entry.leaf = false := by
          simp only [Bool.and_eq_true, Bool.not_eq_true'] at properties
          exact properties.1.1
        rw [judgeEntry, notUnder, if_neg (by simp), if_neg implied, if_pos notLeaf, if_pos member]

end Pushed

/-! ### Every landed leaf is answered -/

section Answers

variable [Unicode] {intended pre post : Str} {pushed : List Str}

/-- What a rollback may send for a pushed leaf: its `no` form, what a pushed
`no` form took away, the pre-change value of the same setting, or the removal of
a section the push created around it. -/
inductive Answered (pushed : List Str) (pre : Str) (landed : Option (List Key)) (leaf : Leaf) : Prop
  | negated (sends : (leaf.chain, negated leaf.line) ∈ pending pushed pre landed)
  | positive (isNo : "no ".ascii.isPrefixOf (strip leaf.line) = true)
      (sends : (leaf.chain, positive leaf.line) ∈ pending pushed pre landed)
  | restored (held : Str) (found : counterpart (heldLines pre) leaf.chain leaf.line = some held)
      (sends : (leaf.chain, held) ∈ pending pushed pre landed)
  | removed (above : List Str) (header : Str) (isPrefix : above ++ [header] <+: leaf.chain)
      (created : (above, header) ∈ landedContainers pushed pre landed)
      (sends : (above, Rollback.negated header) ∈ pending pushed pre landed)

private theorem mem_pending_of_undoOf {landed : Option (List Key)} {entry : ProgramEntry}
    {pair : List Str × Str} (member : entry ∈ programStructure pushed)
    (undo : pair ∈ undoOf pushed pre landed entry) : pair ∈ pending pushed pre landed :=
  mem_append_left _ (mem_flatMap.mpr ⟨entry, member, undo⟩)

private theorem judgeEntry_of_landed {leaf : Leaf} (member : leaf ∈ programLeaves pushed)
    (landed : Landed pre post leaf.key)
    (notUnder : isUnderHeldRange pushed pre ⟨leaf.line, leaf.chain, true⟩ = false)
    (notImplied : isImplied pushed pre (some (landedBetween pre post)) leaf.chain = false) :
    judgeEntry pushed pre (some (landedBetween pre post)) ⟨leaf.line, leaf.chain, true⟩ =
      judgeLeaf pre (some (landedBetween pre post)) leaf.chain leaf.line := by
  have applied : leaf ∈ (landedLeaves pushed (some (landedBetween pre post))).1 :=
    mem_filter.mpr ⟨member, hasLanded_of_landed landed⟩
  rw [judgeEntry, notUnder, if_neg (by simp), notImplied, if_neg (by simp), if_neg (by simp),
    if_neg (not_not_intro applied)]

/-- **Every pushed leaf that landed is answered**, unless it sits under a header
of terminal lines the device already had. -/
theorem landed_leaf_answered (sent : mergeCommands intended pre = .ok pushed) {leaf : Leaf}
    (member : leaf ∈ programLeaves pushed) (landed : Landed pre post leaf.key)
    (outside : ¬ UnderRange pushed pre leaf.chain) :
    Answered pushed pre (some (landedBetween pre post)) leaf := by
  have entry := mem_programLeaves.mp member
  by_cases implied : isImplied pushed pre (some (landedBetween pre post)) leaf.chain = true
  · obtain ⟨container, isContainer, isPrefix⟩ := any_eq_true.mp implied
    rw [map_canonicaliseLine_entry sent entry, isPrefixOf_iff_prefix] at isPrefix
    obtain ⟨⟨header, above, isLeaf⟩, inProgram, verdict, isCreated, isAbove⟩ :=
      created_of_container sent isContainer isPrefix outside
    refine .removed above header isAbove isCreated (mem_pending_of_undoOf inProgram ?_)
    simp [undoOf, verdict]
  · have notUnder : isUnderHeldRange pushed pre ⟨leaf.line, leaf.chain, true⟩ = false := by
      by_contra under
      obtain ⟨header, held, chainIs⟩ :=
        underRange_of_isUnderHeldRange sent entry (by simpa using under)
      exact outside ⟨header, held, by simp [show leaf.chain = [header] from chainIs]⟩
    have verdict := judgeEntry_of_landed member landed notUnder (by simpa using implied)
    have canonical : canonicaliseLine leaf.line = leaf.line :=
      (sectionLine_of_mem_programStructure sent entry).1.canonical
    have send : ∀ pair, pair ∈ undoOf pushed pre (some (landedBetween pre post))
        ⟨leaf.line, leaf.chain, true⟩ → pair ∈ pending pushed pre (some (landedBetween pre post)) :=
      fun pair undo => mem_pending_of_undoOf entry undo
    rw [judgeLeaf, canonical] at verdict
    cases searched : previous (heldLines pre) leaf.chain leaf.line with
    | none =>
      simp only [searched] at verdict
      split_ifs at verdict with isNo isSome
      · exact .positive isNo (send _ (by simp [undoOf, verdict]))
      · simp at isSome
      · exact .negated (send _ (by simp [undoOf, verdict]))
    | some found =>
      obtain ⟨held, matched⟩ := found
      simp only [searched] at verdict
      split_ifs at verdict with same oneMore
      · -- The line the search found is the leaf itself, which the device lacked.
        have inPre := mem_heldLines.mp (held_of_previous searched)
        rw [same] at inPre
        exact absurd (heldUnder_of_mem inPre) landed.2
      · exact .negated (send _ (by simp [undoOf, verdict]))
      · refine .restored held ?_ (send _ (by simp [undoOf, verdict]))
        rw [counterpart, searched]
        rfl

/-- A landed header of terminal lines the device already had: each leaf under it
that not every line of the range already carried is negated. -/
theorem rangeChild_negated (sent : mergeCommands intended pre = .ok pushed) {header : Str}
    {leaf : Leaf} (isRange : header ∈ heldRanges pushed pre) (member : leaf ∈ programLeaves pushed)
    (under : leaf.chain = [header]) (landed : Landed pre post ([], header)) {range : LineRange}
    (parsed : lineRange header = some range) (changed : carriedByAll range pre leaf.line = false) :
    ([header], negated leaf.line) ∈ pending pushed pre (some (landedBetween pre post)) := by
  have entry := mem_programLeaves.mp member
  have trimmed : rstrip header = header :=
    ((sectionLine_of_mem_programStructure sent entry).2 header (by simp [under])).trimmed
  have isChild : leaf.line ∈ rangeChildren pushed (some (landedBetween pre post)) header := by
    refine mem_map.mpr ⟨⟨leaf.line, leaf.chain, true⟩, mem_filter.mpr ⟨entry, ?_⟩, rfl⟩
    simp only [under, trimmed, beq_self_eq_true, Bool.true_and]
    exact hasLanded_of_landed landed
  have isNegated : leaf.line ∈ (rangeChildren pushed (some (landedBetween pre post)) header).filter
      (fun child => !carriedByAll range pre child) :=
    mem_filter.mpr ⟨isChild, by simp [changed]⟩
  refine mem_append_right _ (mem_flatMap.mpr ⟨header, isRange, ?_⟩)
  simp only [lineRangeUndo, parsed]
  rw [if_neg (ne_nil_of_mem isNegated)]
  exact mem_append_left _ (mem_map.mpr ⟨leaf.line, isNegated, rfl⟩)

/-- Every line of a range already carried a setting before the push. -/
def AlreadyCarried (header pre child : Str) : Prop :=
  (lineRange header).any (fun range => carriedByAll range pre child) = true

private theorem pending_ne_nil_of_answered {landed : Option (List Key)} {leaf : Leaf}
    (answered : Answered pushed pre landed leaf) : pending pushed pre landed ≠ [] := by
  cases answered with
  | negated sends => exact ne_nil_of_mem sends
  | positive _ sends => exact ne_nil_of_mem sends
  | restored _ _ sends => exact ne_nil_of_mem sends
  | removed _ _ _ _ sends => exact ne_nil_of_mem sends

/-- **A rollback answers everything of the push that landed** outside the
terminal lines the device already had. Under a landed header of such lines it
negates what not every line carried before. An empty program leaves nothing
outside them. -/
theorem rollback_answers_landed (sent : mergeCommands intended pre = .ok pushed)
    {commands : List Str} {unsure : List UnsureRestore}
    (built : rollbackCommands pushed pre (some (landedBetween pre post)) = .ok (commands, unsure)) :
    commands = emitRollback (pending pushed pre (some (landedBetween pre post))) ∧
      (∀ leaf ∈ programLeaves pushed, Landed pre post leaf.key →
        ¬ UnderRange pushed pre leaf.chain →
          Answered pushed pre (some (landedBetween pre post)) leaf) ∧
      (∀ header ∈ heldRanges pushed pre, Landed pre post ([], header) →
        ∀ leaf ∈ programLeaves pushed, leaf.chain = [header] →
          ¬ AlreadyCarried header pre leaf.line →
            ([header], negated leaf.line) ∈ pending pushed pre (some (landedBetween pre post))) ∧
      (commands = [] → ∀ leaf ∈ programLeaves pushed, Landed pre post leaf.key →
        UnderRange pushed pre leaf.chain) := by
  have answers : ∀ leaf ∈ programLeaves pushed, Landed pre post leaf.key →
      ¬ UnderRange pushed pre leaf.chain →
        Answered pushed pre (some (landedBetween pre post)) leaf :=
    fun leaf member landed outside => landed_leaf_answered sent member landed outside
  refine ⟨eq_emitRollback built, answers, ?_, ?_⟩
  · intro header isRange landed leaf member under changed
    cases parsed : lineRange header with
    | none =>
      have held := (mem_heldRanges sent).mp isRange |>.2
      simp [lineRangeHeld, parsed] at held
    | some range =>
      refine rangeChild_negated sent isRange member under landed parsed ?_
      simpa [AlreadyCarried, parsed] using changed
  · intro empty leaf member landed
    by_contra outside
    refine pending_ne_nil_of_answered (answers leaf member landed outside) ?_
    rw [eq_emitRollback built] at empty
    exact Outline.emit_eq_nil_iff.mp empty

omit [Unicode] in
/-- A replaced name is answered. -/
theorem vlan_name_answered :
    letI : Unicode := basicLatin
    Answered (["vlan 10", " name new", "exit"].map String.ascii) "vlan 10\n name old".ascii
      (some (landedBetween "vlan 10\n name old".ascii "vlan 10\n name new".ascii))
      ⟨" name new".ascii, ["vlan 10".ascii]⟩ :=
  letI : Unicode := basicLatin
  have run : mergeCommands "vlan 10\n name new".ascii "vlan 10\n name old".ascii =
        .ok (["vlan 10", " name new", "exit"].map String.ascii) ∧
      rollbackCommands (["vlan 10", " name new", "exit"].map String.ascii)
        "vlan 10\n name old".ascii
        (some (landedBetween "vlan 10\n name old".ascii "vlan 10\n name new".ascii)) =
          .ok (["vlan 10", " name old", "exit"].map String.ascii,
            [⟨["vlan 10".ascii], "name new".ascii, "name old".ascii⟩]) ∧
      (⟨" name new".ascii, ["vlan 10".ascii]⟩ : Leaf) ∈
        programLeaves (["vlan 10", " name new", "exit"].map String.ascii) ∧
      Landed "vlan 10\n name old".ascii "vlan 10\n name new".ascii
        (["vlan 10".ascii], " name new".ascii) ∧
      ¬ UnderRange (["vlan 10", " name new", "exit"].map String.ascii) "vlan 10\n name old".ascii
        ["vlan 10".ascii] := by
    decide +kernel
  have ⟨sent, built, member, landed, outside⟩ := run
  (rollback_answers_landed sent built).2.1 _ member landed outside

omit [Unicode] in
/-- Two ranges with one setting, pushed as one range with that setting: nothing
is undone, and the setting stands under a header the device did not print. -/
theorem regrouped_lines_unanswered :
    letI : Unicode := basicLatin
    mergeCommands "line vty 0 4\n login".ascii
        "line vty 0\n login\nline vty 1 4\n login".ascii =
      .ok (["line vty 0 4", " login", "exit"].map String.ascii) ∧
    rollbackCommands (["line vty 0 4", " login", "exit"].map String.ascii)
        "line vty 0\n login\nline vty 1 4\n login".ascii
        (some (landedBetween "line vty 0\n login\nline vty 1 4\n login".ascii
          "line vty 0 4\n login".ascii)) = .ok ([], []) ∧
    ∃ leaf ∈ programLeaves (["line vty 0 4", " login", "exit"].map String.ascii),
      Landed "line vty 0\n login\nline vty 1 4\n login".ascii "line vty 0 4\n login".ascii
        leaf.key := by
  decide

/-! ### Every line the push took away is put back -/

private theorem canonicalKey_of_mem {key : Key} (member : key ∈ configKeys pre) :
    canonicalKey key = key := by
  have entry := mem_configKeys.mp member
  rw [canonicalKey, map_canonicaliseLine_chain entry, (isSectionLine_of_mem entry).canonical]

private theorem not_created_of_held {landed : Option (List Key)} {line : Str} {chain : List Str}
    (held : (line, chain) ∈ sectionChains pre) {container : Key}
    (isPrefix : container.1 ++ [container.2] <+: chain) :
    container ∉ landedContainers pushed pre landed := by
  intro member
  have isCreated := mem_of_mem_filter member
  unfold createdContainers at isCreated
  split_ifs at isCreated
  · cases isCreated
  · obtain ⟨entry, inFilter, rfl⟩ := mem_map.mp isCreated
    have inPre : programKey entry ∈ configKeys pre :=
      mem_configKeys.mpr (ancestor_mem_sectionChains held isPrefix)
    have present : programKey entry ∈ (configKeys pre).map canonicalKey :=
      mem_map.mpr ⟨_, inPre, canonicalKey_of_mem inPre⟩
    simp [present] at inFilter

/-- **A line the push took away is sent again in its section** when a landed leaf
negates or overwrites it as the only line of the section that sets the same
thing, is not one instance more of a repeatable command beside it, and does not
sit directly under terminal lines the device already had. -/
theorem lost_line_restored (sent : mergeCommands intended pre = .ok pushed) {leaf : Leaf}
    (member : leaf ∈ programLeaves pushed) (landed : Landed pre post leaf.key) {lost : Str}
    (unique : heldWhere (heldLines pre) leaf.chain (setsSame leaf.line) = [lost])
    (notOneMore : (negatesInstance leaf.chain leaf.line [lost]).1 = false)
    (outside : ∀ header ∈ heldRanges pushed pre, leaf.chain ≠ [header]) :
    (leaf.chain, lost) ∈ pending pushed pre (some (landedBetween pre post)) := by
  have entry := mem_programLeaves.mp member
  have canonical : canonicaliseLine leaf.line = leaf.line :=
    (sectionLine_of_mem_programStructure sent entry).1.canonical
  have lostLine : (lost, leaf.chain) ∈ sectionChains pre :=
    mem_heldLines.mp (mem_heldWhere.mp (by rw [unique]; simp)).1
  have notUnder : isUnderHeldRange pushed pre ⟨leaf.line, leaf.chain, true⟩ = false := by
    by_contra under
    obtain ⟨header, held, chainIs⟩ :=
      underRange_of_isUnderHeldRange sent entry (by simpa using under)
    exact outside header held chainIs
  have notImplied : isImplied pushed pre (some (landedBetween pre post)) leaf.chain = false := by
    by_contra implied
    rw [Bool.not_eq_false] at implied
    obtain ⟨container, isContainer, isPrefix⟩ := List.any_eq_true.mp implied
    rw [map_canonicaliseLine_entry sent entry, List.isPrefixOf_iff_prefix] at isPrefix
    exact not_created_of_held lostLine isPrefix isContainer
  have isLost : lost ≠ leaf.line := by
    rintro rfl
    exact landed.2 (heldUnder_of_mem lostLine)
  obtain ⟨matched, found, isMatched⟩ := previous_of_unique unique
  have notInstance : ¬ (matched ≠ [] ∧ (negatesInstance leaf.chain leaf.line matched).1 = true) := by
    rintro ⟨nonempty, exact_⟩
    obtain rfl := isMatched.resolve_left nonempty
    rw [notOneMore] at exact_
    cases exact_
  have verdict := judgeEntry_of_landed member landed notUnder notImplied
  rw [judgeLeaf, canonical, found] at verdict
  simp only [if_neg isLost, if_neg notInstance] at verdict
  refine mem_pending_of_undoOf entry ?_
  simp [undoOf, verdict]

omit [Unicode] in
/-- The replaced name is sent again. -/
theorem vlan_name_restored :
    letI : Unicode := basicLatin
    (["vlan 10".ascii], " name old".ascii) ∈
      pending (["vlan 10", " name new", "exit"].map String.ascii) "vlan 10\n name old".ascii
        (some (landedBetween "vlan 10\n name old".ascii "vlan 10\n name new".ascii)) :=
  letI : Unicode := basicLatin
  have run : mergeCommands "vlan 10\n name new".ascii "vlan 10\n name old".ascii =
        .ok (["vlan 10", " name new", "exit"].map String.ascii) ∧
      (⟨" name new".ascii, ["vlan 10".ascii]⟩ : Leaf) ∈
        programLeaves (["vlan 10", " name new", "exit"].map String.ascii) ∧
      Landed "vlan 10\n name old".ascii "vlan 10\n name new".ascii
        (["vlan 10".ascii], " name new".ascii) ∧
      heldWhere (heldLines "vlan 10\n name old".ascii) ["vlan 10".ascii]
        (setsSame " name new".ascii) = [" name old".ascii] ∧
      (negatesInstance ["vlan 10".ascii] " name new".ascii [" name old".ascii]).1 = false ∧
      ∀ header ∈ heldRanges (["vlan 10", " name new", "exit"].map String.ascii)
        "vlan 10\n name old".ascii, ["vlan 10".ascii] ≠ [header] := by
    decide
  have ⟨sent, member, landed, unique, notOneMore, outside⟩ := run
  lost_line_restored sent member landed unique notOneMore outside

omit [Unicode] in
/-- One pushed `no` form takes two lines away, and neither is sent again. -/
theorem lost_addresses_not_restored :
    letI : Unicode := basicLatin
    mergeCommands "vlan 10\n no address".ascii "vlan 10\n address 1 a\n address 2 b".ascii =
      .ok (["vlan 10", " no address", "exit"].map String.ascii) ∧
    rollbackCommands (["vlan 10", " no address", "exit"].map String.ascii)
        "vlan 10\n address 1 a\n address 2 b".ascii
        (some (landedBetween "vlan 10\n address 1 a\n address 2 b".ascii
          "vlan 10\n no address".ascii)) =
      .ok (["vlan 10", " address", "exit"].map String.ascii, []) ∧
    ∃ lost ∈ configLeaves "vlan 10\n address 1 a\n address 2 b".ascii,
      ¬ HeldUnder "vlan 10\n no address".ascii lost.key ∧
      isNegationPair " no address".ascii lost = true ∧
      (⟨" no address".ascii, lost.chain⟩ : Leaf) ∈
        programLeaves (["vlan 10", " no address", "exit"].map String.ascii) ∧
      lost ∉ programLeaves (["vlan 10", " address", "exit"].map String.ascii) := by
  decide

end Answers

end Nmas.Nsot.Rollback
