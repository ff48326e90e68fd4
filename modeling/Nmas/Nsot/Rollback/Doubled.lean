import Nmas.Nsot.Rollback.Pending

/-!
Owns: doubled negation. A device refuses `no no X`, which stops a repair midway.
`rollback_commands` takes a pushed `no` form back by its positive form, but it
negates a section it created, and a setting under a held range of terminal
lines, whatever they say.
-/

namespace Nmas.Nsot.Rollback

open Nmas.Text List
open Nmas.Nsot.IfNames

/-- A command that begins, after its indentation, with `no no `. -/
def IsDoubled (command : Str) : Prop := "no no ".ascii <+: lstrip command

instance (command : Str) : Decidable (IsDoubled command) := by
  unfold IsDoubled
  infer_instance

/-- A line that begins with `no `. -/
def LeadsNo (line : Str) : Prop := "no ".ascii <+: strip line

instance (line : Str) : Decidable (LeadsNo line) := by
  unfold LeadsNo
  infer_instance

theorem isDoubled_negated {line : Str} : IsDoubled (negated line) ↔ LeadsNo line := by
  have isLine : lstrip (negated line) = "no ".ascii ++ strip line := by
    unfold negated lstrip
    rw [dropWhile_append_of_pos fun c inside => isSpace_of_mem_spaces inside]
    rfl
  have twice : "no no ".ascii = "no ".ascii ++ "no ".ascii := by decide
  unfold IsDoubled LeadsNo
  rw [isLine, twice, prefix_append_right_inj]

theorem isNoForm_of_isDoubled {command : Str} (doubled : IsDoubled command) : IsNoForm command := by
  obtain ⟨rest, isLine⟩ := doubled
  have isLead : words command = noWord :: words ("no ".ascii ++ rest) := by
    have noBlank : ∀ c ∈ noWord, isSpace c = false := by decide
    rw [← takeWhile_append_lstrip command, words_indent fun c inside => mem_takeWhile_imp inside,
      ← isLine]
    exact words_cons (c := ' ') (cons_ne_nil _ _) noBlank (by decide)
  rw [IsNoForm, isLead]
  rfl

section Rollback

variable [Unicode] {pushed : List Str} {pre : Str} {landed : Option (List Key)}

/-- No negation of the undo is of a line that is itself negated, and nothing that is sent again
begins with `no no `. -/
structure Undoubled (pushed : List Str) (pre : Str) (landed : Option (List Key)) : Prop where
  sections : ∀ entry, IsCreated pushed pre landed entry → ¬ LeadsNo entry.line
  ranges : ∀ header range child, IsRegrouped pushed pre landed header range child → ¬ LeadsNo child
  replaced : ∀ entry, IsApplied pushed pre landed entry → ∀ held matched,
    heldFor pre entry = some (held, matched) → held ≠ canonicaliseLine entry.line →
    isOneMore entry matched = false → ¬ IsDoubled held
  removed : ∀ entry, IsApplied pushed pre landed entry → heldFor pre entry = none →
    landed.isSome = true → LeadsNo entry.line → ¬ IsDoubled (positive entry.line)
  stanzas : ∀ header range child, IsRegrouped pushed pre landed header range child →
    ∀ stanza ∈ overlappingStanzas header pre, ∀ line ∈ stanza.children, ¬ IsDoubled line
  headers : ∀ entry command, Undoes pushed pre landed entry command →
    ∀ header ∈ entry.chain, ¬ IsDoubled header

theorem not_isNoForm_of_lineRange {header : Str} {range : LineRange}
    (parsed : lineRange header = some range) : ¬ IsNoForm header := by
  intro isNo
  have isLine := head_words_of_lineRange parsed
  rw [IsNoForm, isLine] at isNo
  exact absurd isNo (by decide)

theorem not_leadsNo_of_isOneMore {entry : ProgramEntry} {matched : List Str}
    (canonical : canonicaliseLine entry.line = entry.line)
    (isInstance : isOneMore entry matched) : ¬ LeadsNo entry.line := by
  intro leads
  have exactly : (negatesInstance entry.chain (canonicaliseLine entry.line) matched).1 :=
    (Bool.and_eq_true _ _ ▸ isInstance).2
  have notNo := notNo_of_negatesInstance exactly
  rw [canonical] at notNo
  exact notNo (isNoForm_of_isPrefixOf (List.isPrefixOf_iff_prefix.mpr leads))

private theorem undoes_undoubled {intended : Str} (sent : mergeCommands intended pre = .ok pushed) :
    (∀ entry command, Undoes pushed pre landed entry command → ¬ IsDoubled command) ↔
      (∀ entry, IsCreated pushed pre landed entry → ¬ LeadsNo entry.line) ∧
      (∀ entry, IsApplied pushed pre landed entry → ∀ held matched,
        heldFor pre entry = some (held, matched) → held ≠ canonicaliseLine entry.line →
        isOneMore entry matched = false → ¬ IsDoubled held) ∧
      ∀ entry, IsApplied pushed pre landed entry → heldFor pre entry = none →
        landed.isSome → LeadsNo entry.line → ¬ IsDoubled (positive entry.line) := by
  constructor
  · intro every
    refine ⟨?_, ?_, ?_⟩
    · intro entry isCreated leads
      exact every entry _ (.created isCreated) (isDoubled_negated.mpr leads)
    · intro entry applied held matched found other notInstance
      exact every entry held (.replaced applied held matched found other notInstance)
    · intro entry applied free isSome leads
      exact every entry _ (.removed applied free (List.isPrefixOf_iff_prefix.mpr leads) isSome)
  · rintro ⟨sections, replaced, removed⟩ entry command undoes
    cases undoes with
    | created isCreated =>
      rw [isDoubled_negated]
      exact sections entry isCreated
    | oneMore applied held matched found other isInstance =>
      rw [isDoubled_negated]
      have isLine := (sectionLine_of_mem_programStructure sent applied.reached.member).1
      exact not_leadsNo_of_isOneMore isLine.canonical isInstance
    | replaced applied held matched found other notInstance =>
      exact replaced entry applied _ matched found other notInstance
    | removed applied free isNo isSome =>
      exact removed entry applied free isSome (List.isPrefixOf_iff_prefix.mp isNo)
    | added applied free isPositive =>
      rw [isDoubled_negated]
      intro leads
      exact absurd (List.isPrefixOf_iff_prefix.mpr leads) (by simp [isPositive])

/-- **A rollback doubles no negation exactly where no section it created and no setting it regrouped
is itself a `no` form**, and what it sends again begins with no `no no `. -/
theorem rollback_undoubled_iff {intended : Str} {commands : List Str} {unsure : List UnsureRestore}
    (sent : mergeCommands intended pre = .ok pushed)
    (built : rollbackCommands pushed pre landed = .ok (commands, unsure)) :
    (∀ command ∈ commands, ¬ IsDoubled command) ↔ Undoubled pushed pre landed := by
  have ofExit : ¬ IsDoubled exitWord := by decide
  rw [eq_emitRollback built, emitRollback, Outline.emit,
    Outline.forall_mem_emitFrom (P := fun command => ¬ IsDoubled command) ofExit
      (fun header inside => absurd inside List.not_mem_nil)]
  constructor
  · intro every
    have ofUndo : ∀ entry command, Undoes pushed pre landed entry command →
        ¬ IsDoubled command ∧ ∀ header ∈ entry.chain, ¬ IsDoubled header := by
      intro entry command undoes
      exact every (entry.chain, command) (mem_pending.mpr (Or.inl ⟨entry, rfl, undoes⟩))
    obtain ⟨sections, replaced, removed⟩ :=
      (undoes_undoubled sent).mp (fun entry command undoes => (ofUndo entry command undoes).1)
    refine ⟨sections, ?_, replaced, removed, ?_, ?_⟩
    · intro header range child regrouped leads
      have isSent := mem_pending.mpr (Or.inr ⟨header, range, child, regrouped, Or.inl rfl⟩)
      exact (every _ isSent).1 (isDoubled_negated.mpr leads)
    · intro header range child regrouped stanza overlaps line isLine
      have isSent := mem_pending.mpr
        (Or.inr ⟨header, range, child, regrouped, Or.inr ⟨stanza, overlaps, line, isLine, rfl⟩⟩)
      exact (every _ isSent).1
    · intro entry command undoes
      exact (ofUndo entry command undoes).2
  · intro undoubled pair isSent
    have ofLoop := (undoes_undoubled sent).mpr
      ⟨undoubled.sections, undoubled.replaced, undoubled.removed⟩
    rcases mem_pending.mp isSent with ⟨entry, isChain, undoes⟩ | ⟨header, range, child, regrouped, source⟩
    · rw [isChain]
      exact ⟨ofLoop entry pair.2 undoes, undoubled.headers entry pair.2 undoes⟩
    · rcases source with rfl | ⟨stanza, overlaps, line, isLine, rfl⟩
      · rw [isDoubled_negated, List.forall_mem_singleton]
        exact ⟨undoubled.ranges header range child regrouped,
          mt isNoForm_of_isDoubled (not_isNoForm_of_lineRange regrouped.parsed)⟩
      · have isStanza := isStanza_of_mem (mem_of_mem_overlappingStanzas overlaps)
        rw [List.forall_mem_singleton]
        exact ⟨undoubled.stanzas header range child regrouped stanza overlaps line isLine,
          mt isNoForm_of_isDoubled (not_isNoForm_of_lineRange isStanza.parsed)⟩

end Rollback

/-- `no exec-timeout` pushed under terminal lines the device had. -/
theorem noExecTimeout_doubled :
    letI : Unicode := basicLatin
    mergeCommands "line vty 0 4\n no exec-timeout".ascii "line vty 0 4\n transport input ssh".ascii =
      .ok (["line vty 0 4", " no exec-timeout", "exit"].map String.ascii) ∧
    rollbackCommands (["line vty 0 4", " no exec-timeout", "exit"].map String.ascii)
        "line vty 0 4\n transport input ssh".ascii none =
      .ok (["line vty 0 4", " no no exec-timeout", " transport input ssh", "exit"].map String.ascii,
        []) ∧
    IsDoubled " no no exec-timeout".ascii := by
  decide +kernel

/-- A positive setting of the same lines is taken back by one negation. -/
theorem execTimeout_undoubled :
    letI : Unicode := basicLatin
    (∀ command ∈ ["line vty 0 4", " no exec-timeout 5", " transport input ssh", "exit"].map
        String.ascii, ¬ IsDoubled command) ↔
      Undoubled (["line vty 0 4", " exec-timeout 5", "exit"].map String.ascii)
        "line vty 0 4\n transport input ssh".ascii none :=
  letI : Unicode := basicLatin
  have run : mergeCommands "line vty 0 4\n exec-timeout 5".ascii
        "line vty 0 4\n transport input ssh".ascii =
        .ok (["line vty 0 4", " exec-timeout 5", "exit"].map String.ascii) ∧
      rollbackCommands (["line vty 0 4", " exec-timeout 5", "exit"].map String.ascii)
        "line vty 0 4\n transport input ssh".ascii none =
        .ok (["line vty 0 4", " no exec-timeout 5", " transport input ssh", "exit"].map String.ascii,
          []) := by
    decide +kernel
  rollback_undoubled_iff run.1 run.2

end Nmas.Nsot.Rollback
