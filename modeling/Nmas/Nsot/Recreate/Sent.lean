import Nmas.Nsot.Diff.Preview
import Nmas.Nsot.Recreate.Entered
import Nmas.Nsot.Recreate.Plan
import Nmas.Outline.Stored

/-!
Contract: what the merge builder sends of one definition.

Owns: the sections of a fragment. Its header comes first and keeps its spelling,
the body lines sit under it, and the schedule lines under nothing.
-/

namespace Nmas.Nsot.Recreate

open Nmas.Text List
open Nmas.Nsot.IfNames Nmas.Nsot.Normalize

section Sent

variable [Unicode] {number : Str} {operation : Operation} {key : Key}

/-- The lines the merge builder sends of a definition, each in its section. -/
def sent (number : Str) (operation : Operation) : List Key :=
  mergePairs (fragment number operation) []

/-- The operation as the merge builder reads it. -/
def asSent (number : Str) (operation : Operation) : Operation where
  body := ((sent number operation).filter (fun key => key.1 ≠ [])).map Prod.snd
  schedule := ((sent number operation).filter
    (fun key => key.1 = [] ∧ key.2 ≠ headerLine number)).map Prod.snd

/-! ### The lines of a fragment -/

theorem Entered.unbroken (entered : Entered (number, operation)) :
    ∀ line ∈ headerLine number :: (operation.body ++ operation.schedule),
      ∀ c ∈ line, isLineBreak c = false := by
  intro line member
  rcases mem_cons.mp member with isHeader | inOperation
  · rw [isHeader]
    intro c inside
    rcases mem_append.mp inside with inLead | inNumber
    · have plain : ∀ c ∈ "ip sla ".ascii, isLineBreak c = false := by decide
      exact plain c inLead
    · by_contra isBreak
      have isBlank := isSpace_of_isLineBreak (by simpa using isBreak)
      rw [isSpace_of_isDecimal (entered.digits c inNumber)] at isBlank
      cases isBlank
  · rcases mem_append.mp inOperation with inBody | inSchedule
    · exact (entered.body line inBody).1.unbroken
    · exact (entered.schedule line inSchedule).1.unbroken

theorem splitlines_fragment (entered : Entered (number, operation)) :
    splitlines (fragment number operation) =
      headerLine number :: (operation.body ++ operation.schedule) :=
  splitlines_ended entered.unbroken (by simp)

theorem strip_headerLine (entered : Entered (number, operation)) :
    rstrip (headerLine number) = headerLine number ∧ strip (headerLine number) = headerLine number := by
  have trimmed : rstrip (headerLine number) = headerLine number := by
    rw [rstrip_eq_self_iff]
    intro c isLast
    have inNumber : c ∈ number := by
      unfold headerLine at isLast
      rw [List.getLast?_append_of_ne_nil _ entered.notEmpty] at isLast
      exact mem_of_getLast? isLast
    exact isSpace_of_isDecimal (entered.digits c inNumber)
  exact ⟨trimmed, by rw [strip_of_trimmed trimmed]; rfl⟩

theorem stripForRoundtrip_fragment (entered : Entered (number, operation)) :
    ∃ body schedule, body.Sublist operation.body ∧ schedule.Sublist operation.schedule ∧
      stripForRoundtrip (fragment number operation) = headerLine number :: (body ++ schedule) := by
  have passes : ∀ serial, ∃ state, roundtripStep serial {} (headerLine number) =
      (state, some (headerLine number)) := by
    intro serial
    unfold roundtripStep
    rw [(strip_headerLine entered).2]
    exact ⟨_, rfl⟩
  obtain ⟨state, isStep⟩ := passes (deviceSerial (fragment number operation))
  unfold stripForRoundtrip
  rw [splitlines_fragment entered, stripForRoundtripFrom, isStep]
  have isSublist := stripForRoundtripFrom_sublist (deviceSerial (fragment number operation)) state
    (operation.body ++ operation.schedule)
  obtain ⟨body, schedule, isAppend, ofBody, ofSchedule⟩ := sublist_append_iff.mp isSublist
  exact ⟨body, schedule, ofBody, ofSchedule, by rw [← isAppend]; rfl⟩

/-! ### Its sections -/

theorem canonical_headerLine (entered : Entered (number, operation)) :
    canonicaliseLine (headerLine number) = headerLine number :=
  canonicaliseLine_header entered.notEmpty entered.digits

theorem separator_headerLine (entered : Entered (number, operation)) :
    isSectionSeparator (headerLine number) = false := by
  unfold isSectionSeparator
  rw [(strip_headerLine entered).2]
  rfl

omit [Unicode] in
theorem indentOf_inner {line : Str} (inner : isInner line) : 0 < indentOf line := by
  cases line with
  | nil => cases inner
  | cons c rest =>
    have isBlank : c = ' ' := by simpa [isInner] using inner
    rw [indentOf_eq_takeWhile, isBlank]
    have blank : isSpace ' ' := by decide
    simp [blank]

theorem indentOf_scheduled {line : Str} (isScheduled : scheduled line = some number) :
    indentOf line = 0 := by
  obtain ⟨-, -, rest, isLine, -, -⟩ := digits_of_scheduled isScheduled
  rw [indentOf_eq_takeWhile, isLine]
  rfl

theorem sectionChains_fragment (entered : Entered (number, operation)) :
    ∃ rest, sectionChains (fragment number operation) = (headerLine number, []) :: rest ∧
      ∀ entry ∈ rest,
        (entry.2.head? = some (headerLine number) ∧
          ∃ line ∈ operation.body, entry.1 = canonicaliseLine line) ∨
        (entry.2 = [] ∧ ∃ line ∈ operation.schedule, entry.1 = canonicaliseLine line) := by
  obtain ⟨body, schedule, ofBody, ofSchedule, isKept⟩ := stripForRoundtrip_fragment entered
  let measured := fun lines : List Str =>
    ((lines.map rstrip).filter (fun line => !isSectionSeparator line)).map
      (fun line => (indentOf line, canonicaliseLine line))
  have source : ∀ lines : List Str, ∀ entry ∈ measured lines,
      ∃ line ∈ lines, entry = (indentOf (rstrip line), canonicaliseLine (rstrip line)) := by
    intro lines entry member
    obtain ⟨trimmed, isTrimmed, isEntry⟩ := mem_map.mp member
    obtain ⟨line, inLines, isLine⟩ := mem_map.mp (mem_filter.mp isTrimmed).1
    exact ⟨line, inLines, by rw [isLine, ← isEntry]⟩
  have isMeasured : sectionChains (fragment number operation) =
      Outline.chains ((0, headerLine number) :: (measured body ++ measured schedule)) := by
    have first : measured (headerLine number :: (body ++ schedule)) =
        (0, headerLine number) :: (measured body ++ measured schedule) := by
      have flat : indentOf (headerLine number) = 0 := by
        rw [indentOf_eq_takeWhile]
        rfl
      simp only [measured, map_cons, map_append, (strip_headerLine entered).1]
      rw [filter_cons_of_pos (by rw [separator_headerLine entered]; rfl), map_cons, flat,
        canonical_headerLine entered, filter_append, map_append]
    unfold sectionChains sectionsOf
    rw [isKept, ← first]
  refine ⟨_, isMeasured, ?_⟩
  intro entry member
  have isSection := @Outline.chainsFrom_section _ [(0, headerLine number)] (measured body)
    (measured schedule) _ rfl ?_ ?_ _ member
  · rcases isSection with ⟨under, line, inBody, isLine⟩ | ⟨isTop, line, inSchedule, isLine⟩
    · obtain ⟨raw, inRaw, isPair⟩ := source body line inBody
      have kept := (entered.body raw (ofBody.subset inRaw)).1
      refine .inl ⟨under, raw, ofBody.subset inRaw, ?_⟩
      rw [← isLine, isPair, kept.trimmed]
    · obtain ⟨raw, inRaw, isPair⟩ := source schedule line inSchedule
      have kept := (entered.schedule raw (ofSchedule.subset inRaw)).1
      refine .inr ⟨isTop, raw, ofSchedule.subset inRaw, ?_⟩
      rw [← isLine, isPair, kept.trimmed]
  · intro line inBody
    obtain ⟨raw, inRaw, isPair⟩ := source body line inBody
    have isBody := entered.body raw (ofBody.subset inRaw)
    rw [isPair, isBody.1.trimmed]
    exact indentOf_inner isBody.2.1
  · intro line inSchedule
    obtain ⟨raw, inRaw, isPair⟩ := source schedule line inSchedule
    have isSchedule := entered.schedule raw (ofSchedule.subset inRaw)
    rw [isPair, isSchedule.1.trimmed]
    exact indentOf_scheduled isSchedule.2

/-! ### The lines sent -/

theorem configKeys_nothing : configKeys [] = [] := rfl

theorem mem_sent : key ∈ sent number operation ↔
    (key.2, key.1) ∈ sectionChains (fragment number operation) := by
  unfold sent
  rw [mem_mergePairs]
  show key ∈ toAddKeyed (fragment number operation) [] ↔ _
  rw [mem_toAddKeyed, configKeys_nothing, ← mem_configKeys]
  constructor
  · exact And.left
  · intro isKey
    refine ⟨isKey, not_mem_nil, ?_⟩
    rw [mem_heldDefaults]
    rintro ⟨leaf, member, held, -⟩
    rw [judgeTarget_eq member] at held
    have noSections : heldSections [] = [] := rfl
    rw [noSections] at held
    split at held
    · cases held
    · split at held
      · cases held
      · split at held
        · rename_i inNothing
          exact absurd inNothing.1 not_mem_nil
        · cases held

def Stands (number : Str) (key : Key) : Prop :=
  key = ([], headerLine number) ∨
    (key.1.head? = some (headerLine number) ∧ isInner key.2 = true) ∨
    (key.1 = [] ∧ scheduled key.2 = some number)

omit [Unicode] in
theorem isInner_iff {line : Str} : isInner line ↔ ∃ rest, line = ' ' :: rest := by
  cases line with
  | nil | cons c rest => simp [isInner]

theorem isInner_canonicaliseLine {line : Str} (kept : IsKept line) (inner : isInner line) :
    isInner (canonicaliseLine line) := by
  obtain ⟨rest, isLine⟩ := isInner_iff.mp inner
  have noBreak : '\n' ∉ line := by
    intro inside
    exact absurd (kept.unbroken _ inside) (by decide)
  have blank : ∀ c ∈ [' '], isSpace c := by decide
  rw [isLine] at noBreak ⊢
  have spelled : canonicaliseLine ([' '] ++ rest) = [' '] ++ canonicaliseLine rest :=
    canonicaliseLine_indent blank noBreak
  exact isInner_iff.mpr ⟨_, spelled⟩

theorem stands_of_mem_sent (entered : Entered (number, operation))
    (member : key ∈ sent number operation) : Stands number key := by
  obtain ⟨rest, isReading, others⟩ := sectionChains_fragment entered
  have isEntry := mem_sent.mp member
  rw [isReading] at isEntry
  rcases mem_cons.mp isEntry with isHeader | later
  · exact .inl (Prod.ext (congrArg Prod.snd isHeader) (congrArg Prod.fst isHeader))
  · rcases others _ later with ⟨under, line, inBody, isLine⟩ | ⟨isTop, line, inSchedule, isLine⟩
    · have isBody := entered.body line inBody
      refine .inr (.inl ⟨under, ?_⟩)
      dsimp only at isLine
      rw [isLine]
      exact isInner_canonicaliseLine isBody.1 isBody.2.1
    · have isSchedule := entered.schedule line inSchedule
      refine .inr (.inr ⟨isTop, ?_⟩)
      dsimp only at isLine
      rw [isLine]
      exact scheduled_canonicaliseLine isSchedule.1 isSchedule.2

theorem header_mem_sent (entered : Entered (number, operation)) :
    ([], headerLine number) ∈ sent number operation := by
  obtain ⟨rest, isReading, -⟩ := sectionChains_fragment entered
  rw [mem_sent, isReading]
  exact .head _

/-! ### In what order -/

omit [Unicode] in
theorem selectFrom_nodup {remaining : List Key} {entries : List (Str × List Str)} :
    (selectFrom remaining entries).Nodup := by
  induction entries generalizing remaining with
  | nil => exact nodup_nil
  | cons entry rest ih =>
    obtain ⟨line, chain⟩ := entry
    rw [selectFrom]
    split
    · refine nodup_cons.mpr ⟨?_, ih⟩
      intro again
      have left := (mem_of_mem_selectFrom again).1
      simp at left
    · exact ih

omit [Unicode] in
theorem selectFrom_order {remaining before after : List Key} {entries : List (Str × List Str)}
    (isSplit : selectFrom remaining entries = before ++ key :: after) :
    ∃ earlier later, entries = earlier ++ (key.2, key.1) :: later ∧
      ∀ entry ∈ earlier, entryKey entry ∈ remaining → entryKey entry ∈ before := by
  induction entries generalizing remaining before with
  | nil => simp [selectFrom] at isSplit
  | cons entry rest ih =>
    obtain ⟨line, chain⟩ := entry
    rw [selectFrom] at isSplit
    split at isSplit
    · cases before with
      | nil =>
        rw [nil_append] at isSplit
        obtain ⟨isKey, -⟩ := cons_eq_cons.mp isSplit
        rw [← isKey]
        exact ⟨[], rest, rfl, by simp⟩
      | cons first before =>
        rw [cons_append] at isSplit
        obtain ⟨isFirst, isRest⟩ := cons_eq_cons.mp isSplit
        obtain ⟨earlier, later, isEntries, inOrder⟩ := ih isRest
        refine ⟨(line, chain) :: earlier, later, by rw [isEntries, cons_append], ?_⟩
        intro entry member wanted
        rw [← isFirst]
        by_cases isThis : entryKey entry = (chain, line)
        · rw [isThis]
          exact .head _
        · rcases mem_cons.mp member with isEntry | inEarlier
          · rw [isEntry] at isThis
            exact absurd rfl isThis
          · refine mem_cons_of_mem _ (inOrder entry inEarlier ?_)
            exact mem_filter.mpr ⟨wanted, by simpa using isThis⟩
    · rename_i notWanted
      obtain ⟨earlier, later, isEntries, inOrder⟩ := ih isSplit
      refine ⟨(line, chain) :: earlier, later, by rw [isEntries, cons_append], ?_⟩
      intro entry member wanted
      rcases mem_cons.mp member with isEntry | inEarlier
      · rw [isEntry] at wanted
        exact absurd wanted notWanted
      · exact inOrder entry inEarlier wanted

omit [Unicode] in
theorem selectFrom_all {remaining : List Key} {entries : List (Str × List Str)}
    (wanted : ∀ entry ∈ entries, entryKey entry ∈ remaining) (distinct : (entries.map entryKey).Nodup) :
    selectFrom remaining entries = entries.map entryKey := by
  induction entries generalizing remaining with
  | nil => rfl
  | cons entry rest ih =>
    obtain ⟨line, chain⟩ := entry
    have isWanted : (chain, line) ∈ remaining := wanted (line, chain) (.head _)
    rw [map_cons, nodup_cons] at distinct
    rw [selectFrom, if_pos isWanted, ih ?_ distinct.2]
    · rfl
    · intro other member
      refine mem_filter.mpr ⟨wanted other (.tail _ member), ?_⟩
      rw [bne_iff_ne]
      intro same
      exact distinct.1 (mem_map.mpr ⟨other, member, same⟩)

theorem sent_nodup : (sent number operation).Nodup := selectFrom_nodup

theorem sent_headersFirst (held : List Key) :
    Outline.HeadersFirst held (sent number operation) := by
  intro before key after isSplit above header isPrefix
  obtain ⟨earlier, later, isEntries, inOrder⟩ := selectFrom_order isSplit
  have isBefore : (header, above) ∈ earlier := Outline.ancestor_before isEntries isPrefix
  refine mem_append.mpr (.inr (inOrder (header, above) isBefore ?_))
  have isSent : (above, header) ∈ sent number operation := by
    rw [mem_sent, isEntries]
    exact mem_append.mpr (.inl isBefore)
  exact mem_mergePairs.mp isSent

/-! ### A definition sent as it is written -/

/-- Every line is in canonical spelling and passes the filters of the section
reading, and none stands twice in its section. -/
structure AsWritten (number : Str) (operation : Operation) : Prop where
  spelled : ∀ line ∈ operation.body ++ operation.schedule,
    canonicaliseLine line = line ∧ isSectionSeparator line = false
  passes : stripForRoundtrip (fragment number operation) = splitlines (fragment number operation)
  distinct : (configKeys (fragment number operation)).Nodup

theorem map_snd_sent (entered : Entered (number, operation)) (written : AsWritten number operation) :
    (sent number operation).map Prod.snd =
      headerLine number :: (operation.body ++ operation.schedule) := by
  have all : sent number operation = (sectionChains (fragment number operation)).map entryKey := by
    refine selectFrom_all ?_ written.distinct
    intro entry member
    have isSent : entryKey entry ∈ sent number operation := mem_sent.mpr member
    exact mem_mergePairs.mp isSent
  have trimmed : ∀ line ∈ headerLine number :: (operation.body ++ operation.schedule),
      rstrip line = line ∧ isSectionSeparator line = false ∧ canonicaliseLine line = line := by
    intro line member
    rcases mem_cons.mp member with isHeader | inOperation
    · rw [isHeader]
      exact ⟨(strip_headerLine entered).1, separator_headerLine entered,
        canonical_headerLine entered⟩
    · obtain ⟨spelled, visible⟩ := written.spelled line inOperation
      refine ⟨?_, visible, spelled⟩
      rcases mem_append.mp inOperation with inBody | inSchedule
      · exact (entered.body line inBody).1.trimmed
      · exact (entered.schedule line inSchedule).1.trimmed
  have asIs : ((headerLine number :: (operation.body ++ operation.schedule)).map rstrip).filter
      (fun line => !isSectionSeparator line) =
        headerLine number :: (operation.body ++ operation.schedule) := by
    rw [map_congr_left (fun line member => (trimmed line member).1), map_id',
      filter_eq_self]
    intro line member
    rw [(trimmed line member).2.1]
    rfl
  rw [all, map_map]
  have lines : Prod.snd ∘ entryKey = Prod.fst := rfl
  unfold sectionChains sectionsOf
  rw [lines, written.passes, splitlines_fragment entered, asIs, Outline.chains,
    Outline.map_fst_chainsFrom, map_map]
  exact (map_congr_left (fun line member => (trimmed line member).2.2)).trans (map_id' _)

end Sent

end Nmas.Nsot.Recreate
