import Nmas.Nsot.Rollback.Doubled

/-!
Owns: the instances of repeatable commands. `no` names an instance, so a
negation takes a held line of the same instance with it. `_negates_exactly` asks
this of the held lines whose setting key matched; the key and the instance need
not agree.
-/

namespace Nmas.Nsot.Rollback

open Nmas.Text List
open Nmas.Nsot.IfNames

/-! ### Where an instance can be -/

private theorem notLine_of_sections : ∀ row ∈ repeatableCommands, ∀ section_ ∈ row.sections,
    (words section_).head? ≠ some "line".ascii := by
  decide

theorem repeatableRow_eq_none {chain : List Str} {line : Str}
    (outside : ∀ row ∈ repeatableCommands,
      inSection ((chain.getLast?.map strip).getD []) row.sections = false) :
    repeatableRow chain line = none := by
  have passed : ∀ rows : List RepeatableRow, (∀ row ∈ rows,
      inSection ((chain.getLast?.map strip).getD []) row.sections = false) →
      rows.foldl (fun best row =>
        if row.declares ((chain.getLast?.map strip).getD []) (words line) &&
            best.all (fun other => row.lead.length > other.lead.length)
        then some row else best) (none : Option RepeatableRow) = none := by
    intro rows
    induction rows with
    | nil => exact fun _ => rfl
    | cons row rest ih =>
      intro outside
      have undeclared : row.declares ((chain.getLast?.map strip).getD []) (words line) = false := by
        unfold RepeatableRow.declares
        rw [outside row mem_cons_self, Bool.and_false, Bool.false_and]
      rw [foldl_cons, undeclared]
      exact ih fun other member => outside other (.tail _ member)
  unfold repeatableRow
  split_ifs
  · rfl
  · exact passed _ outside

theorem repeatableIdentity_congr {chain : List Str} {line other : Str}
    (same : words line = words other) :
    repeatableIdentity chain line = repeatableIdentity chain other := by
  unfold repeatableIdentity repeatableRow
  rw [same]

section Instances

variable [Unicode] {pushed : List Str} {pre : Str} {landed : Option (List Key)}

theorem repeatableIdentity_line {header line : Str} {range : LineRange}
    (parsed : lineRange header = some range) : repeatableIdentity [header] line = none := by
  have lead := head_words_of_lineRange parsed
  have outside : ∀ row ∈ repeatableCommands, inSection (strip header) row.sections = false := by
    intro row isRow
    unfold inSection
    rw [any_eq_false, words_strip]
    intro section_ isSection
    have notLine := notLine_of_sections row isRow section_ isSection
    cases isWords : words header with
    | nil =>
      rw [isWords] at lead
      cases lead
    | cons first rest =>
      rw [isWords] at lead
      cases isSectionWords : words section_ with
      | nil => simp
      | cons other more =>
        rw [isSectionWords] at notLine
        have differ : other ≠ first := by
          rintro rfl
          exact notLine lead
        simp [List.isPrefixOf, differ]
  have noRow : repeatableRow [header] line = none := repeatableRow_eq_none outside
  rw [repeatableIdentity, noRow]
  rfl

/-- A section the configuration had. -/
def Existed (pre : Str) (chain : List Str) : Prop :=
  chain = [] ∨ ∃ above header, chain = above ++ [header] ∧ (above, header) ∈ configKeys pre

/-- Does `no line` in a section name an instance the configuration held there? -/
def NamesHeld (pre : Str) (chain : List Str) (line : Str) : Prop :=
  ∃ identity held, (held, chain) ∈ sectionChains pre ∧
    repeatableIdentity chain line = some identity ∧ repeatableIdentity chain held = some identity

theorem NamesHeld.existed {chain : List Str} {line : Str} (names : NamesHeld pre chain line) :
    Existed pre chain := by
  obtain ⟨-, held, isHeld, -⟩ := names
  cases chain using List.reverseRecOn with
  | nil => exact .inl rfl
  | append_singleton above header =>
    refine .inr ⟨above, header, rfl, mem_configKeys.mpr ?_⟩
    exact ancestor_mem_sectionChains isHeld (prefix_refl _)

/-- A command that takes no instance away that its section held. -/
def KeepsHeld (pre : Str) (executed : List Str × Str) : Prop :=
  Existed pre executed.1 → ∀ line, words executed.2 = noWord :: words line →
    ¬ NamesHeld pre executed.1 line

/-- What a rollback executes, each command in its section. -/
def executed (pushed : List Str) (pre : Str) (landed : Option (List Key)) : List (List Str × Str) :=
  Outline.traceFrom (fun _ => false) [] (pending pushed pre landed)

theorem keepsHeld_negated {chain : List Str} {line : Str} :
    KeepsHeld pre (chain, negated line) ↔ ¬ NamesHeld pre chain line := by
  have isNo := words_negated line
  constructor
  · intro keeps names
    exact keeps names.existed line isNo names
  · rintro notHeld - other isOther ⟨identity, held, isHeld, isIdentity, same⟩
    have sameWords : words line = words other := (List.cons.inj (isNo.symm.trans isOther)).2
    rw [← repeatableIdentity_congr sameWords] at isIdentity
    exact notHeld ⟨identity, held, isHeld, isIdentity, same⟩

theorem keepsHeld_of_lineRange {header command : Str} {range : LineRange}
    (parsed : lineRange header = some range) : KeepsHeld pre ([header], command) := by
  rintro - line - ⟨identity, held, -, isIdentity, -⟩
  rw [repeatableIdentity_line parsed] at isIdentity
  cases isIdentity

theorem keepsHeld_lineRange {above : List Str} {header : Str} {range : LineRange}
    (parsed : lineRange header = some range) : KeepsHeld pre (above, header) := by
  intro _ line isNo
  have lead : IsNoForm header := by
    rw [IsNoForm, show words header = noWord :: words line from isNo]
    rfl
  exact absurd lead (not_isNoForm_of_lineRange parsed)

/-- No line that is taken back by its own `no` form is of an instance its section held, whether or
not a setting key matched; and nothing that is sent again is such a `no` form. -/
structure InstancesKept (pushed : List Str) (pre : Str) (landed : Option (List Key)) : Prop where
  sections : ∀ entry, IsCreated pushed pre landed entry → ¬ NamesHeld pre entry.chain entry.line
  oneMore : ∀ entry, IsApplied pushed pre landed entry → ∀ held matched,
    heldFor pre entry = some (held, matched) → held ≠ canonicaliseLine entry.line →
    isOneMore entry matched = true → ¬ NamesHeld pre entry.chain entry.line
  added : ∀ entry, IsApplied pushed pre landed entry → heldFor pre entry = none →
    ¬ LeadsNo entry.line → ¬ NamesHeld pre entry.chain entry.line
  replaced : ∀ entry, IsApplied pushed pre landed entry → ∀ held matched,
    heldFor pre entry = some (held, matched) → held ≠ canonicaliseLine entry.line →
    isOneMore entry matched = false → KeepsHeld pre (entry.chain, held)
  removed : ∀ entry, IsApplied pushed pre landed entry → heldFor pre entry = none →
    landed.isSome = true → LeadsNo entry.line → KeepsHeld pre (entry.chain, positive entry.line)
  headers : ∀ entry command, Undoes pushed pre landed entry command →
    ∀ above header, above ++ [header] <+: entry.chain → KeepsHeld pre (above, header)

private theorem undoes_keepsHeld_iff :
    (∀ entry command, Undoes pushed pre landed entry command →
      KeepsHeld pre (entry.chain, command) ∧
        ∀ above header, above ++ [header] <+: entry.chain → KeepsHeld pre (above, header)) ↔
      InstancesKept pushed pre landed := by
  constructor
  · intro every
    refine ⟨?_, ?_, ?_, ?_, ?_, ?_⟩
    · intro entry isCreated
      exact keepsHeld_negated.mp (every entry _ (.created isCreated)).1
    · intro entry applied held matched found other isInstance
      exact keepsHeld_negated.mp (every entry _ (.oneMore applied held matched found other isInstance)).1
    · intro entry applied free isPositive
      have notNo : "no ".ascii.isPrefixOf (strip entry.line) = false := by
        rw [Bool.eq_false_iff, ne_eq, isPrefixOf_iff_prefix]
        exact isPositive
      exact keepsHeld_negated.mp (every entry _ (.added applied free notNo)).1
    · intro entry applied held matched found other notInstance
      exact (every entry held (.replaced applied held matched found other notInstance)).1
    · intro entry applied free isSome leads
      exact (every entry _ (.removed applied free (List.isPrefixOf_iff_prefix.mpr leads) isSome)).1
    · intro entry command undoes
      exact (every entry command undoes).2
  · intro kept entry command undoes
    refine ⟨?_, kept.headers entry command undoes⟩
    cases undoes with
    | created isCreated => exact keepsHeld_negated.mpr (kept.sections entry isCreated)
    | oneMore applied held matched found other isInstance =>
      exact keepsHeld_negated.mpr (kept.oneMore entry applied held matched found other isInstance)
    | replaced applied held matched found other notInstance =>
      exact kept.replaced entry applied _ matched found other notInstance
    | removed applied free isNo isSome =>
      exact kept.removed entry applied free isSome (List.isPrefixOf_iff_prefix.mp isNo)
    | added applied free isPositive =>
      apply keepsHeld_negated.mpr
      apply kept.added entry applied free
      intro leads
      exact absurd (List.isPrefixOf_iff_prefix.mpr leads) (by simp [isPositive])

/-- **A rollback removes no held instance of a repeatable command exactly where no line it takes back
by a `no` form is of an instance its section held.** -/
theorem rollback_keeps_instances_iff {commands : List Str} {unsure : List UnsureRestore}
    (built : rollbackCommands pushed pre landed = .ok (commands, unsure)) :
    commands = emitRollback (pending pushed pre landed) ∧
      ((∀ sent ∈ executed pushed pre landed, KeepsHeld pre sent) ↔
        InstancesKept pushed pre landed) := by
  refine ⟨eq_emitRollback built, ?_⟩
  rw [← undoes_keepsHeld_iff, executed, Outline.forall_mem_traceFrom]
  · constructor
    · intro every entry command undoes
      exact every (entry.chain, command) (mem_pending.mpr (Or.inl ⟨entry, rfl, undoes⟩))
    · intro kept pair isSent
      have onlyHeader : ∀ header range, lineRange header = some range →
          ∀ above other, above ++ [other] <+: [header] → KeepsHeld pre (above, other) := by
        intro header range parsed above other isPrefix
        have isHeader : other = header := List.mem_singleton.mp (isPrefix.subset (by simp))
        exact isHeader ▸ keepsHeld_lineRange parsed
      rcases mem_pending.mp isSent with
        ⟨entry, isChain, undoes⟩ | ⟨header, range, child, regrouped, source⟩
      · have isPair : pair = (entry.chain, pair.2) := by rw [← isChain]
        rw [isPair]
        exact kept entry pair.2 undoes
      · rcases source with rfl | ⟨stanza, overlaps, line, isLine, rfl⟩
        · exact ⟨keepsHeld_of_lineRange regrouped.parsed, onlyHeader header range regrouped.parsed⟩
        · have isStanza := isStanza_of_mem (mem_of_mem_overlappingStanzas overlaps)
          exact ⟨keepsHeld_of_lineRange isStanza.parsed,
            onlyHeader stanza.header stanza.range isStanza.parsed⟩
  · intro above header isPrefix
    exact absurd (List.prefix_nil.mp isPrefix) (by simp)

end Instances

/-- One server more is taken back by its own `no` form. -/
theorem server_kept :
    letI : Unicode := basicLatin
    ["no ntp server 192.0.2.2".ascii] =
        emitRollback (pending ["ntp server 192.0.2.2".ascii] "ntp server 192.0.2.1".ascii none) ∧
      ((∀ sent ∈ executed ["ntp server 192.0.2.2".ascii] "ntp server 192.0.2.1".ascii none,
          KeepsHeld "ntp server 192.0.2.1".ascii sent) ↔
        InstancesKept ["ntp server 192.0.2.2".ascii] "ntp server 192.0.2.1".ascii none) :=
  letI : Unicode := basicLatin
  have built : rollbackCommands ["ntp server 192.0.2.2".ascii] "ntp server 192.0.2.1".ascii none =
      .ok (["no ntp server 192.0.2.2".ascii], []) := by
    decide
  rollback_keeps_instances_iff built

/-- A route pushed with a distance: the held route is of the same instance under another key. -/
theorem route_removed :
    letI : Unicode := basicLatin
    mergeCommands "ip route 10.0.0.0 255.0.0.0 1.1.1.1 200".ascii
        "ip route 10.0.0.0 255.0.0.0 1.1.1.1".ascii =
      .ok ["ip route 10.0.0.0 255.0.0.0 1.1.1.1 200".ascii] ∧
    rollbackCommands ["ip route 10.0.0.0 255.0.0.0 1.1.1.1 200".ascii]
        "ip route 10.0.0.0 255.0.0.0 1.1.1.1".ascii none =
      .ok (["no ip route 10.0.0.0 255.0.0.0 1.1.1.1 200".ascii], []) ∧
    ¬ ∀ sent ∈ executed ["ip route 10.0.0.0 255.0.0.0 1.1.1.1 200".ascii]
        "ip route 10.0.0.0 255.0.0.0 1.1.1.1".ascii none,
      KeepsHeld "ip route 10.0.0.0 255.0.0.0 1.1.1.1".ascii sent := by
  refine ⟨by decide, by decide, ?_⟩
  intro every
  have isSent : ([], "no ip route 10.0.0.0 255.0.0.0 1.1.1.1 200".ascii) ∈
      @executed basicLatin ["ip route 10.0.0.0 255.0.0.0 1.1.1.1 200".ascii]
        "ip route 10.0.0.0 255.0.0.0 1.1.1.1".ascii none := by decide
  apply every _ isSent (Or.inl rfl) "ip route 10.0.0.0 255.0.0.0 1.1.1.1 200".ascii (by decide)
  exact ⟨["ip", "route", "10.0.0.0", "255.0.0.0", "1.1.1.1"].map String.ascii,
    "ip route 10.0.0.0 255.0.0.0 1.1.1.1".ascii, by decide +kernel, by decide,
    by decide +kernel⟩

end Nmas.Nsot.Rollback
