import Nmas.Nsot.Rollback.Layout

/-!
Owns: where the lines of a rollback come from. Apart from section headers of
the pre-change configuration, `rollback_line_sources` finds four sources and no
other.

A header can be re-sent as a value: the setting index of the source is built
over every line of the pre-change configuration. Nothing is said about those
lines here.
-/

namespace Nmas.Nsot.Rollback

open Nmas.Text

section Sources

variable [Unicode] {pushed : List Str} {pre : Str} {landed : Option (List Key)}

/-- Where a line of a rollback comes from, for its section. -/
inductive Source (pushed : List Str) (pre : Str) (landed : Option (List Key))
    (chain : List Str) (command : Str) : Prop
  | noForm (isNo : IsNoForm command)
  /-- What a pushed `no` form that landed took away. -/
  | positive (leaf : Leaf) (member : leaf ∈ programLeaves pushed)
      (applied : landed.isSome = true ∧ hasLanded landed leaf.key = true)
      (isNo : "no ".ascii.isPrefixOf (strip leaf.line) = true)
      (same : (chain, command) = (leaf.chain, positive leaf.line))
  /-- A leaf of the pre-change configuration, in the same section. -/
  | held (member : (⟨command, chain⟩ : Leaf) ∈ configLeaves pre)
  /-- A line of a pre-change stanza that a pushed range of terminal lines, which
  the device already had, overlaps. -/
  | stanza (header : Str) (isRange : header ∈ heldRanges pushed pre) (stanza : LineStanza)
      (overlaps : stanza ∈ overlappingStanzas header pre) (same : chain = [stanza.header])
      (child : command ∈ stanza.children)

theorem source_of_mem_pending {pair : List Str × Str} (member : pair ∈ pending pushed pre landed)
    (notHeader : pair.1 ++ [pair.2] ∉ configHeaders pre) :
    Source pushed pre landed pair.1 pair.2 := by
  rcases List.mem_append.mp member with fromLoop | fromRange
  · obtain ⟨entry, _, undo⟩ := List.mem_flatMap.mp fromLoop
    cases undone_of_mem_undoOf undo with
    | created _ | added _ _ => exact .noForm (isNoForm_negated entry.line)
    | replaced _ _ _ found =>
      exact .held (mem_configLeaves.mpr ⟨mem_heldLines.mp (held_of_previous found), notHeader⟩)
    | removed applied isSome isNo =>
      obtain ⟨isLeaf, seen⟩ := List.mem_filter.mp applied
      exact .positive ⟨entry.line, entry.chain⟩ isLeaf ⟨isSome, seen⟩ isNo rfl
  · obtain ⟨header, isRange, undo⟩ := List.mem_flatMap.mp fromRange
    rcases lineRangeUndo_cases undo with ⟨child, _, rfl⟩ | ⟨stanza, overlaps, child, inside, rfl⟩
    · exact .noForm (isNoForm_negated child)
    · exact .stanza header isRange stanza overlaps rfl inside

/-- **Every line a rollback sends has a source**, section headers of the
pre-change configuration apart. The lines are those the program is emitted for,
and the leaves it reads back as when the layout determines them. -/
theorem rollback_line_sources {commands : List Str} {unsure : List UnsureRestore}
    (built : rollbackCommands pushed pre landed = .ok (commands, unsure)) :
    commands = emitRollback (pending pushed pre landed) ∧
      (∀ pair ∈ pending pushed pre landed, pair.1 ++ [pair.2] ∉ configHeaders pre →
        Source pushed pre landed pair.1 pair.2) ∧
      ∀ intended, mergeCommands intended pre = .ok pushed → Layout pushed pre →
        ∀ leaf ∈ programLeaves commands, leaf.chain ++ [leaf.line] ∉ configHeaders pre →
          Source pushed pre landed leaf.chain leaf.line := by
  refine ⟨eq_emitRollback built, fun pair => source_of_mem_pending, ?_⟩
  intro intended sent layout leaf member notHeader
  rw [eq_emitRollback built, mem_programLeaves_rollback sent layout] at member
  exact source_of_mem_pending member notHeader

end Sources

/-- A value that replaced the device's own is sent from its section. -/
theorem vlan_name_sources :
    letI : Unicode := basicLatin
    Source (["vlan 10", " name new", "exit"].map String.ascii) "vlan 10\n name old".ascii none
      ["vlan 10".ascii] " name old".ascii :=
  letI : Unicode := basicLatin
  have run : mergeCommands "vlan 10\n name new".ascii "vlan 10\n name old".ascii =
        .ok (["vlan 10", " name new", "exit"].map String.ascii) ∧
      rollbackCommands (["vlan 10", " name new", "exit"].map String.ascii)
        "vlan 10\n name old".ascii none =
        .ok (["vlan 10", " name old", "exit"].map String.ascii,
          [⟨["vlan 10".ascii], "name new".ascii, "name old".ascii⟩]) ∧
      (⟨" name old".ascii, ["vlan 10".ascii]⟩ : Leaf) ∈
        programLeaves (["vlan 10", " name old", "exit"].map String.ascii) ∧
      ["vlan 10".ascii] ++ [" name old".ascii] ∉ configHeaders "vlan 10\n name old".ascii := by
    decide +kernel
  have layout : Layout (["vlan 10", " name new", "exit"].map String.ascii)
      "vlan 10\n name old".ascii :=
    ⟨by decide +kernel, by decide +kernel, by decide +kernel, by decide +kernel, by decide +kernel⟩
  have ⟨sent, built, member, notHeader⟩ := run
  (rollback_line_sources built).2.2 "vlan 10\n name new".ascii sent layout
    ⟨" name old".ascii, ["vlan 10".ascii]⟩ member notHeader

/-- A pushed `no` form that landed over nothing is taken back by its positive
form, which the pre-change configuration did not hold. -/
theorem positive_not_held_before :
    letI : Unicode := basicLatin
    mergeCommands "interface Gi1\n no ip redirects".ascii "interface Gi1\n mtu 1500".ascii =
      .ok (["interface GigabitEthernet1", " no ip redirects", "exit"].map String.ascii) ∧
    rollbackCommands (["interface GigabitEthernet1", " no ip redirects", "exit"].map String.ascii)
        "interface Gi1\n mtu 1500".ascii
        (some (landedBetween "interface Gi1\n mtu 1500".ascii
          "interface Gi1\n mtu 1500\n no ip redirects".ascii)) =
      .ok (["interface GigabitEthernet1", " ip redirects", "exit"].map String.ascii, []) ∧
    ¬ ∀ leaf ∈ programLeaves
        (["interface GigabitEthernet1", " ip redirects", "exit"].map String.ascii),
      IsNoForm leaf.line ∨ leaf ∈ configLeaves "interface Gi1\n mtu 1500".ascii := by
  decide +kernel

end Nmas.Nsot.Rollback
