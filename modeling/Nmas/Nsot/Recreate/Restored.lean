import Nmas.Nsot.Recreate.Sent

/-!
Contract: what a device holds after a re-create, and after its undo.

Owns: the device the two programs run on. It holds lines in their sections, takes
each once, and `no ip sla N` takes the operation and its schedule from it. A line
opens a level where the definition sent has lines under it.
-/

namespace Nmas.Nsot.Recreate

open Nmas.Text List
open Nmas.Nsot.IfNames Nmas.Nsot.Normalize
open Nmas.Nsot.Removal (Measured)

section Device

variable [Unicode]

/-- The operation a `no` line deletes. -/
def deleted (command : Str) : Option Str := (afterPrefix "no ".ascii command).bind header

def IsOf (number : Str) (key : Key) : Prop :=
  key.1.head?.bind header = some number ∨
    (key.1 = [] ∧ (header key.2 = some number ∨ scheduled key.2 = some number))

instance (number : Str) (key : Key) : Decidable (IsOf number key) := by
  unfold IsOf
  infer_instance

/-- What the device does with a command in the section it runs in. -/
def execute (held : List Key) (key : Key) : List Key :=
  match key.1, deleted key.2 with
  | [], some number => held.filter (fun other => ¬ IsOf number other)
  | _, _ => Outline.take held key

def shown (held : List Key) (number : Str) : Option Operation :=
  let body := (held.filter (fun key => key.1.head?.bind header = some number)).map Prod.snd
  let schedule := (held.filter (fun key => key.1 = [] ∧ scheduled key.2 = some number)).map Prod.snd
  if (∃ key ∈ held, key.1 = [] ∧ header key.2 = some number) ∨ schedule ≠ [] then
    some ⟨body, schedule⟩
  else none

def entryLines (entry : Str × Operation) : List Key :=
  ([], headerLine entry.1) :: (entry.2.body.map (fun line => ([headerLine entry.1], line)) ++
    entry.2.schedule.map (fun line => ([], line)))

def configured (ops : Operations) : List Key := ops.flatMap entryLines

def opensLevel (definitions : List (Str × Operation)) (path : List Str) : Bool :=
  definitions.any (fun definition => opensSection (fragment definition.1 definition.2) path)

/-- A program run on the device: nothing when it leaves a level that is not open. -/
def runProgram (definitions : List (Str × Operation)) (held : List Key) (program : List Str) :
    Option (List Key) :=
  (Outline.run (opensLevel definitions) isControl [] program).map
    (fun done => done.1.foldl execute held)

variable {number other : Str} {operation : Operation} {key : Key} {held : List Key}
  {definitions : List (Str × Operation)}

/-! ### One definition on the device -/

theorem deleted_deletion (entered : Entered (number, operation)) :
    deleted (deletion number) = some number := by
  have follows : afterPrefix "no ".ascii (deletion number) = some ("ip sla ".ascii ++ number) := rfl
  rw [deleted, follows, Option.bind_some, header_headerLine entered.notEmpty entered.digits]

theorem deleted_of_scheduled (isScheduled : scheduled key.2 = some number) :
    deleted key.2 = none := by
  obtain ⟨-, -, rest, isLine, -, -⟩ := digits_of_scheduled isScheduled
  rw [isLine]
  rfl

theorem execute_deletion (entered : Entered (number, operation)) :
    execute held ([], deletion number) = held.filter (fun other => ¬ IsOf number other) := by
  unfold execute
  dsimp only
  rw [deleted_deletion entered]

theorem execute_of_stands (stands : Stands number key) : execute held key = Outline.take held key := by
  obtain ⟨section_, line⟩ := key
  unfold execute
  rcases stands with isHeader | ⟨under, -⟩ | ⟨isTop, isScheduled⟩
  · cases isHeader
    have notDeleted : deleted (headerLine number) = none := rfl
    dsimp only
    rw [notDeleted]
  · cases section_ with
    | nil => cases under
    | cons first rest => rfl
  · dsimp only at isTop ⊢
    rw [isTop, deleted_of_scheduled isScheduled]

theorem header_entered (entered : Entered (number, operation)) :
    header (headerLine number) = some number :=
  header_headerLine entered.notEmpty entered.digits

theorem isOf_of_stands (entered : Entered (number, operation)) (stands : Stands number key) :
    IsOf number key := by
  rcases stands with isHeader | ⟨under, -⟩ | ⟨isTop, isScheduled⟩
  · rw [isHeader]
    exact .inr ⟨rfl, .inl (header_entered entered)⟩
  · left
    rw [under]
    exact header_entered entered
  · exact .inr ⟨isTop, .inr isScheduled⟩

def redefined (held : List Key) (definition : Str × Operation) : List Key :=
  held.filter (fun key => ¬ IsOf definition.1 key) ++ sent definition.1 definition.2

theorem foldl_unit {opens : List Str → Bool} (entered : Entered (number, operation)) :
    (([], deletion number) :: Outline.traceFrom opens [] (sent number operation)).foldl execute held =
      redefined held (number, operation) := by
  have standing : ∀ key ∈ Outline.traceFrom opens [] (sent number operation), Stands number key := by
    rintro ⟨level, command⟩ member
    rcases Outline.mem_of_mem_traceFrom member with isSent | ⟨pair, isSent, isPrefix⟩
    · exact stands_of_mem_sent entered isSent
    · obtain ⟨before, after, isSplit⟩ := append_of_mem isSent
      have isBefore := sent_headersFirst [] before pair after isSplit level command isPrefix
      rw [nil_append] at isBefore
      refine stands_of_mem_sent entered ?_
      rw [isSplit]
      exact mem_append.mpr (.inl isBefore)
  have taken : ∀ held : List Key, (Outline.traceFrom opens [] (sent number operation)).foldl
      execute held = (Outline.traceFrom opens [] (sent number operation)).foldl Outline.take held := by
    intro held
    exact foldl_ext execute Outline.take held
      (fun held key member => execute_of_stands (standing key member))
  rw [foldl_cons, execute_deletion entered, taken,
    Outline.foldl_take_traceFrom (sent_headersFirst _) sent_nodup]
  · rfl
  · intro key member inHeld
    have left := (mem_filter.mp inHeld).2
    exact (of_decide_eq_true left) (isOf_of_stands entered (stands_of_mem_sent entered member))

theorem isOf_unique (isOf : IsOf number key) (isOther : IsOf other key) : number = other := by
  rcases isOf with under | ⟨isTop, named⟩
  · rcases isOther with otherUnder | ⟨otherTop, -⟩
    · exact Option.some.inj (under.symm.trans otherUnder)
    · rw [otherTop] at under
      cases under
  · rcases isOther with otherUnder | ⟨-, otherNamed⟩
    · rw [isTop] at otherUnder
      cases otherUnder
    · rcases named with isHeader | isScheduled
      · rcases otherNamed with otherHeader | otherScheduled
        · exact Option.some.inj (isHeader.symm.trans otherHeader)
        · rw [scheduled_of_header isHeader] at otherScheduled
          cases otherScheduled
      · rcases otherNamed with otherHeader | otherScheduled
        · rw [scheduled_of_header otherHeader] at isScheduled
          cases isScheduled
        · exact Option.some.inj (isScheduled.symm.trans otherScheduled)

theorem shown_filter {counts : Key → Bool} (keeps : ∀ key, IsOf number key → counts key) :
    shown (held.filter counts) number = shown held number := by
  have body : (held.filter counts).filter (fun key => key.1.head?.bind header = some number) =
      held.filter (fun key => key.1.head?.bind header = some number) := by
    rw [filter_filter]
    apply filter_congr
    intro key _
    by_cases under : key.1.head?.bind header = some number
    · simp [under, keeps key (.inl under)]
    · simp [under]
  have schedule : (held.filter counts).filter
      (fun key => key.1 = [] ∧ scheduled key.2 = some number) =
        held.filter (fun key => key.1 = [] ∧ scheduled key.2 = some number) := by
    rw [filter_filter]
    apply filter_congr
    intro key _
    by_cases isSchedule : key.1 = [] ∧ scheduled key.2 = some number
    · simp [isSchedule, keeps key (.inr ⟨isSchedule.1, .inr isSchedule.2⟩)]
    · simp [isSchedule]
  have present : (∃ key ∈ held.filter counts, key.1 = [] ∧ header key.2 = some number) ↔
      ∃ key ∈ held, key.1 = [] ∧ header key.2 = some number := by
    constructor
    · rintro ⟨key, member, isHeader⟩
      exact ⟨key, (mem_filter.mp member).1, isHeader⟩
    · rintro ⟨key, member, isTop, isHeader⟩
      exact ⟨key, mem_filter.mpr ⟨member, keeps key (.inr ⟨isTop, .inl isHeader⟩)⟩, isTop,
        isHeader⟩
  unfold shown
  simp only [body, schedule, present]

theorem shown_congr {one rest : List Key}
    (alike : one.filter (fun key => IsOf number key) = rest.filter (fun key => IsOf number key)) :
    shown one number = shown rest number := by
  have counted : ∀ held : List Key, shown (held.filter (fun key => IsOf number key)) number =
      shown held number :=
    fun held => shown_filter (fun key isOf => decide_eq_true isOf)
  rw [← counted one, alike, counted rest]

theorem filter_isOf_of_apart {rest : List Key} (apart : ∀ key ∈ rest, ¬ IsOf number key) :
    rest.filter (fun key => IsOf number key) = [] := by
  rw [filter_eq_nil_iff]
  intro key member
  simpa using apart key member

theorem shown_append {one rest : List Key} (apart : ∀ key ∈ rest, ¬ IsOf number key) :
    shown (one ++ rest) number = shown one number := by
  apply shown_congr
  rw [filter_append, filter_isOf_of_apart apart, append_nil]

theorem shown_prepend {one rest : List Key} (apart : ∀ key ∈ one, ¬ IsOf number key) :
    shown (one ++ rest) number = shown rest number := by
  apply shown_congr
  rw [filter_append, filter_isOf_of_apart apart, nil_append]

theorem shown_sent (entered : Entered (number, operation)) :
    shown (sent number operation) number = some (asSent number operation) := by
  have standing : ∀ key ∈ sent number operation, Stands number key :=
    fun key member => stands_of_mem_sent entered member
  have isHeader := header_entered entered
  have body : (sent number operation).filter
      (fun key => key.1.head?.bind header = some number) =
        (sent number operation).filter (fun key => key.1 ≠ []) := by
    apply filter_congr
    intro key member
    rcases standing key member with isKey | ⟨under, -⟩ | ⟨isTop, -⟩
    · simp [isKey]
    · have notTop : key.1 ≠ [] := by
        intro isTop
        rw [isTop] at under
        cases under
      simp [under, isHeader, notTop]
    · simp [isTop]
  have schedule : (sent number operation).filter
      (fun key => key.1 = [] ∧ scheduled key.2 = some number) =
        (sent number operation).filter (fun key => key.1 = [] ∧ key.2 ≠ headerLine number) := by
    apply filter_congr
    intro key member
    rcases standing key member with isKey | ⟨under, -⟩ | ⟨isTop, isScheduled⟩
    · simp [isKey, scheduled_of_header isHeader]
    · have notTop : key.1 ≠ [] := by
        intro isTop
        rw [isTop] at under
        cases under
      simp [notTop]
    · have notHeader : key.2 ≠ headerLine number := by
        intro same
        rw [same, scheduled_of_header isHeader] at isScheduled
        cases isScheduled
      simp [isTop, isScheduled, notHeader]
  unfold shown asSent
  rw [body, schedule, if_pos (.inl ⟨_, header_mem_sent entered, rfl, isHeader⟩)]

theorem shown_redefined (entered : Entered (number, operation)) :
    shown (redefined held (number, operation)) other =
      if other = number then some (asSent number operation) else shown held other := by
  unfold redefined
  dsimp only
  split
  · rename_i same
    rw [same]
    rw [shown_prepend, shown_sent entered]
    intro key member
    exact of_decide_eq_true (mem_filter.mp member).2
  · rename_i isOther
    rw [shown_append]
    · apply shown_filter
      intro key isOf
      refine decide_eq_true fun isNumber => isOther ?_
      exact isOf_unique isOf isNumber
    · intro key member isOf
      exact isOther (isOf_unique isOf (isOf_of_stands entered (stands_of_mem_sent entered member)))

/-! ### The run of a program -/

theorem notControl_of_sent {program : List Str} (isSent : definitionProgram number operation = .ok program)
    (member : key ∈ sent number operation) :
    isControl key.2 = false ∧ ∀ header ∈ key.1, isControl header = false := by
  have entryOf : ∀ key ∈ sent number operation, isControl key.2 = false := by
    intro key member
    have isWanted : key ∈ (mergeDiff (fragment number operation) []).toAddKeyed :=
      mem_mergePairs.mp member
    have isSection := isSectionLine_of_mem (mem_sent.mp member)
    have isProgram := eq_mergeProgram_of_mergeCommands isSent
    have carried : canonicalKey key ∈ (programStructure (mergeProgram (fragment number operation)
        [])).map (fun entry => canonicalKey (entry.chain, entry.line)) := by
      unfold definitionProgram mergeCommands at isSent
      dsimp only at isSent
      split at isSent
      · rename_i nothing
        rw [nothing] at isWanted
        cases isWanted
      · split at isSent
        · cases isSent
        · rename_i agree
          by_contra notCarried
          apply agree
          left
          apply ne_nil_of_mem (a := canonicalKey key)
          refine mem_filter.mpr ⟨mem_map.mpr ⟨key, isWanted, rfl⟩, ?_⟩
          simpa using notCarried
    obtain ⟨entry, inProgram, sameKey⟩ := mem_map.mp carried
    rw [← isProgram] at inProgram
    have sameLine : entry.line = key.2 := by
      have spelled := congrArg Prod.snd sameKey
      have entrySection := (sectionLine_of_mem_programStructure isSent inProgram).1
      unfold canonicalKey at spelled
      dsimp only at spelled
      rwa [entrySection.canonical, isSection.canonical] at spelled
    rw [← sameLine]
    exact (command_of_mem_programStructure inProgram).1.notControl
  refine ⟨entryOf key member, ?_⟩
  intro header inChain
  obtain ⟨above, below, isChain⟩ := append_of_mem inChain
  have isPrefix : above ++ [header] <+: key.1 := ⟨below, by simp [isChain]⟩
  have isAncestor := ancestor_mem_sectionChains (mem_sent.mp member) isPrefix
  exact entryOf (above, header) (mem_sent.mpr isAncestor)

theorem head_of_opensSection {path : List Str} (entered : Entered (number, operation))
    (opens : opensSection (fragment number operation) path) :
    path.head? = some (headerLine number) := by
  obtain ⟨notEmpty, entry, inReading, isPrefix⟩ := Outline.mem_headers.mp (of_decide_eq_true opens)
  have under : entry.2.head? = some (headerLine number) := by
    obtain ⟨rest, isReading, others⟩ := sectionChains_fragment entered
    rw [isReading] at inReading
    rcases mem_cons.mp inReading with isHeader | later
    · rw [isHeader] at isPrefix
      exact absurd (prefix_nil.mp isPrefix) notEmpty
    · rcases others entry later with ⟨under, -⟩ | ⟨isTop, -⟩
      · exact under
      · rw [isTop] at isPrefix
        exact absurd (prefix_nil.mp isPrefix) notEmpty
  obtain ⟨below, isEntry⟩ := isPrefix
  rw [← isEntry] at under
  cases path with
  | nil => exact absurd rfl notEmpty
  | cons command rest => exact under

theorem opensLevel_sent (distinct : (definitions.map Prod.fst).Nodup)
    (entered : ∀ definition ∈ definitions, Entered definition)
    (isDefined : (number, operation) ∈ definitions) (member : key ∈ sent number operation) :
    opensLevel definitions (key.1 ++ [key.2]) =
      opensSection (fragment number operation) (key.1 ++ [key.2]) := by
  have own := entered _ isDefined
  have isOf := isOf_of_stands own (stands_of_mem_sent own member)
  rw [Bool.eq_iff_iff]
  constructor
  · intro opens
    obtain ⟨⟨first, other⟩, isOther, opensOther⟩ := any_eq_true.mp opens
    have otherEntered := entered _ isOther
    suffices sameNumber : first = number by
      have same : (first, other) = (number, operation) := by
        refine inj_on_of_nodup_map distinct isOther isDefined ?_
        exact sameNumber
      cases same
      exact opensOther
    have starts := head_of_opensSection otherEntered opensOther
    refine isOf_unique ?_ isOf
    cases isSection : key.1 with
    | nil =>
      rw [isSection] at starts
      refine .inr ⟨isSection, .inl ?_⟩
      rw [Option.some.inj starts]
      exact header_entered otherEntered
    | cons command rest =>
      rw [isSection] at starts
      left
      rw [isSection]
      have isCommand : command = headerLine first := Option.some.inj starts
      rw [isCommand]
      exact header_entered otherEntered
  · intro opens
    exact any_eq_true.mpr ⟨_, isDefined, opens⟩

theorem opensLevel_deletion (entered : ∀ definition ∈ definitions, Entered definition) :
    opensLevel definitions [deletion number] = false := by
  rw [Bool.eq_false_iff]
  intro opens
  obtain ⟨⟨first, other⟩, isOther, opensOther⟩ := any_eq_true.mp opens
  have starts := head_of_opensSection (entered _ isOther) opensOther
  have isDeletion : deletion number = headerLine first := Option.some.inj starts
  have initial : some 'n' = some 'i' := congrArg List.head? isDeletion
  exact absurd initial (by decide)

theorem isControl_deletion (entered : Entered (number, operation)) :
    isControl (deletion number) = false := by
  have trimmed : rstrip (deletion number) = deletion number := by
    rw [rstrip_eq_self_iff]
    intro c isLast
    have inNumber : c ∈ number := by
      unfold deletion at isLast
      rw [List.getLast?_append_of_ne_nil _ entered.notEmpty] at isLast
      exact mem_of_getLast? isLast
    exact isSpace_of_isDecimal (entered.digits c inNumber)
  have stripped : strip (deletion number) = deletion number := by
    rw [strip_of_trimmed trimmed]
    rfl
  unfold isControl
  rw [stripped]
  rfl

theorem run_unit {program : List Str} (distinct : (definitions.map Prod.fst).Nodup)
    (entered : ∀ definition ∈ definitions, Entered definition)
    (isDefined : (number, operation) ∈ definitions)
    (isSent : definitionProgram number operation = .ok program) :
    Outline.run (opensLevel definitions) isControl [] (deletion number :: program) =
      some (([], deletion number) ::
        Outline.traceFrom (opensLevel definitions) [] (sent number operation), []) := by
  have own := entered _ isDefined
  have isEmitted : program =
      Outline.emitFrom (opensLevel definitions) exitWord [] (sent number operation) := by
    rw [eq_mergeProgram_of_mergeCommands isSent, mergeProgram_eq]
    refine Outline.emitFrom_congr ?_
    intro key member
    exact (opensLevel_sent distinct entered isDefined member).symm
  have isRun : Outline.run (opensLevel definitions) isControl [] (Outline.emitFrom
      (opensLevel definitions) exitWord [] (sent number operation)) =
        some (Outline.traceFrom (opensLevel definitions) [] (sent number operation), []) :=
    Outline.run_emitFrom (by decide) (sent number operation) []
    (fun key member => notControl_of_sent isSent member) (by
      intro key member above header isPrefix
      refine any_eq_true.mpr ⟨_, isDefined, ?_⟩
      exact decide_eq_true (Outline.mem_headers.mpr ⟨by simp, _, mem_sent.mp member, isPrefix⟩))
  rw [Outline.run, isControl_deletion own, if_neg (by decide), Outline.after, nil_append,
    opensLevel_deletion entered, if_neg (by decide), isEmitted, isRun]
  rfl

theorem runProgram_units {units : List (Str × Operation)} {programs : List (List Str)}
    (distinct : (definitions.map Prod.fst).Nodup)
    (entered : ∀ definition ∈ definitions, Entered definition)
    (areDefined : ∀ definition ∈ units, definition ∈ definitions)
    (areSent : List.Forall₂ (fun definition program =>
      redefinition definition.1 definition.2 = .ok program) units programs) :
    runProgram definitions held programs.flatten = some (units.foldl redefined held) := by
  induction areSent generalizing held with
  | nil => rfl
  | cons isSent areSent ih =>
    rename_i definition program units programs
    obtain ⟨number, operation⟩ := definition
    have isDefined := areDefined (number, operation) (.head _)
    have later := @ih (redefined held (number, operation))
      (fun other member => areDefined other (.tail _ member))
    obtain ⟨body, isBody, isProgram⟩ : ∃ body, definitionProgram number operation = .ok body ∧
        program = deletion number :: body := by
      unfold redefinition at isSent
      cases isBody : definitionProgram number operation with
      | error refusal =>
        rw [isBody] at isSent
        cases isSent
      | ok body =>
        rw [isBody] at isSent
        cases isSent
        exact ⟨body, rfl, rfl⟩
    have isRun := run_unit distinct entered isDefined isBody
    rw [← isProgram] at isRun
    unfold runProgram at later ⊢
    rw [flatten_cons, Outline.run_append, isRun, Option.bind_some, Option.map_map]
    cases isLater : Outline.run (opensLevel definitions) isControl [] programs.flatten with
    | none =>
      rw [isLater] at later
      cases later
    | some done =>
      rw [isLater] at later
      have isHeld := Option.some.inj later
      rw [Option.map_some, foldl_cons, ← isHeld]
      have unit : (([], deletion number) :: Outline.traceFrom (opensLevel definitions) []
          (sent number operation)).foldl execute held = redefined held (number, operation) :=
        foldl_unit (entered _ isDefined)
      dsimp only [Function.comp_apply]
      rw [foldl_append, unit]

theorem shown_foldl (distinct : (definitions.map Prod.fst).Nodup)
    (entered : ∀ definition ∈ definitions, Entered definition) :
    (∀ definition ∈ definitions, shown (definitions.foldl redefined held) definition.1 =
      some (asSent definition.1 definition.2)) ∧
    ∀ number, number ∉ definitions.map Prod.fst →
      shown (definitions.foldl redefined held) number = shown held number := by
  induction definitions generalizing held with
  | nil => exact ⟨nofun, fun _ _ => rfl⟩
  | cons definition definitions ih =>
    obtain ⟨number, operation⟩ := definition
    rw [map_cons, nodup_cons] at distinct
    obtain ⟨theirs, others⟩ := @ih (redefined held (number, operation))
      distinct.2 (fun definition member => entered definition (.tail _ member))
    have own := entered (number, operation) (.head _)
    constructor
    · intro definition member
      rcases mem_cons.mp member with isFirst | later
      · rw [isFirst, foldl_cons, others number distinct.1, shown_redefined own, if_pos rfl]
      · exact theirs definition later
    · intro other notDefined
      rw [map_cons, mem_cons, not_or] at notDefined
      rw [foldl_cons, others other notDefined.2, shown_redefined own, if_neg notDefined.1]

theorem isOf_of_mem_entryLines (entered : Entered (number, operation))
    (member : key ∈ entryLines (number, operation)) : IsOf number key := by
  have isHeader := header_entered entered
  unfold entryLines at member
  rcases mem_cons.mp member with isFirst | later
  · rw [isFirst]
    exact .inr ⟨rfl, .inl isHeader⟩
  · rcases mem_append.mp later with inBody | inSchedule
    · obtain ⟨line, -, isKey⟩ := mem_map.mp inBody
      rw [← isKey]
      exact .inl isHeader
    · obtain ⟨line, inLines, isKey⟩ := mem_map.mp inSchedule
      rw [← isKey]
      exact .inr ⟨rfl, .inr (entered.schedule line inLines).2⟩

theorem shown_entryLines (entered : Entered (number, operation)) :
    shown (entryLines (number, operation)) number = some operation := by
  have isHeader := header_entered entered
  have notSchedule := scheduled_of_header isHeader
  have schedules : operation.schedule.filter
      (fun line => decide (scheduled line = some number)) = operation.schedule := by
    rw [filter_eq_self]
    intro line member
    exact decide_eq_true (entered.schedule line member).2
  unfold shown entryLines
  simp [filter_map, Function.comp_def, isHeader, notSchedule, schedules]

theorem shown_configured {ops : Operations} (distinct : (ops.map Prod.fst).Nodup)
    (entered : ∀ entry ∈ ops, Entered entry) (number : Str) :
    shown (configured ops) number = ops.get number := by
  induction ops with
  | nil => rfl
  | cons entry ops ih =>
    obtain ⟨first, operation⟩ := entry
    rw [map_cons, nodup_cons] at distinct
    have own := entered (first, operation) (.head _)
    have later := ih distinct.2 (fun entry member => entered entry (.tail _ member))
    have split : configured ((first, operation) :: ops) =
        entryLines (first, operation) ++ configured ops := rfl
    have get : Operations.get ((first, operation) :: ops) number =
        if first = number then some operation else Operations.get ops number := by
      unfold Operations.get
      rw [List.find?_cons]
      by_cases same : first = number
      · simp [same]
      · simp [same]
    rw [split, get]
    by_cases same : first = number
    · rw [if_pos same, ← same, shown_append, shown_entryLines own]
      intro key member isOf
      obtain ⟨other, isOther, inLines⟩ := mem_flatMap.mp member
      have otherEntered := entered other (.tail _ isOther)
      have isFirst := isOf_unique isOf (isOf_of_mem_entryLines otherEntered inLines)
      exact distinct.1 (mem_map.mpr ⟨other, isOther, isFirst.symm⟩)
    · rw [if_neg same, shown_prepend, later]
      intro key member isOf
      exact same (isOf_unique (isOf_of_mem_entryLines own member) isOf)

/-! ### What a plan names -/

variable {measured : Measured} {dialect intended captured : Str} {planned : Planned}

omit [Unicode] in
theorem forall₂_of_mapM {Item Answer Error : Type} {act : Item → Except Error Answer}
    {items : List Item} {answers : List Answer} (isOk : items.mapM act = .ok answers) :
    List.Forall₂ (fun item answer => act item = .ok answer) items answers := by
  induction items generalizing answers with
  | nil =>
    cases isOk
    exact List.Forall₂.nil
  | cons item items ih =>
    rw [mapM_cons] at isOk
    cases isItem : act item with
    | error refusal =>
      rw [isItem] at isOk
      cases isOk
    | ok answer =>
      cases areLater : items.mapM act with
      | error refusal =>
        rw [isItem, areLater] at isOk
        cases isOk
      | ok later =>
        rw [isItem, areLater] at isOk
        cases isOk
        exact List.Forall₂.cons isItem (ih areLater)

theorem planned_units (isPlan : plan measured dialect intended captured = .ok planned) :
    planned.units = (judgements measured dialect intended captured).filterMap Judged.unit? ∧
    ∃ programs, planned.commands = programs.flatten ∧
      List.Forall₂ (fun unit program => redefinition unit.number unit.new = .ok program)
        planned.units programs := by
  unfold plan at isPlan
  dsimp only at isPlan
  cases areBuilt : ((judgements measured dialect intended captured).filterMap Judged.unit?).mapM
      (fun unit => redefinition unit.number unit.new) with
  | error refusal =>
    rw [areBuilt] at isPlan
    cases isPlan
  | ok programs =>
    rw [areBuilt] at isPlan
    have isAnswer : planned = ⟨(judgements measured dialect intended captured).filterMap
        Judged.unit?, programs.flatten, (judgements measured dialect intended captured).filterMap Judged.refusal?⟩ := by
      by_cases nothing : programs.flatten = []
      · simp only [bind, Except.bind, nothing, ne_eq, not_true, if_false, pure, Except.pure] at isPlan
        cases isPlan
        rw [nothing]
      · cases isSendable : assertSendable programs.flatten with
        | error refusal =>
          simp [bind, Except.bind, nothing, isSendable] at isPlan
        | ok done =>
          simp only [bind, Except.bind, ne_eq, nothing, not_false_iff, if_true, isSendable, pure,
            Except.pure] at isPlan
          cases isPlan
          rfl
    rw [isAnswer]
    exact ⟨rfl, programs, rfl, forall₂_of_mapM areBuilt⟩

theorem judge_unit {top : List Str} {new old : Operation} {unit : Recreated}
    (isUnit : (judge measured dialect top number new old).unit? = some unit) :
    unit = ⟨number, old, new⟩ := by
  unfold judge at isUnit
  split at isUnit
  · cases isUnit
  · split at isUnit
    · cases isUnit
    · split at isUnit
      · exact (Option.some.inj isUnit).symm
      · cases isUnit

theorem units_spec (isPlan : plan measured dialect intended captured = .ok planned) :
    (planned.units.map Recreated.number).Nodup ∧
    ∀ unit ∈ planned.units, (operations intended).get unit.number = some unit.new ∧
      (operations captured).get unit.number = some unit.old := by
  rw [(planned_units isPlan).1]
  unfold judgements
  rw [filterMap_map]
  have inBoth : ∀ number ∈ sharedNumbers (operations intended) (operations captured),
      ((operations intended).get number).isSome ∧ ((operations captured).get number).isSome := by
    intro number member
    obtain ⟨inIntended, inCaptured⟩ := mem_filter.mp
      ((perm_insertionSort _ _).mem_iff.mp member)
    obtain ⟨⟨first, operation⟩, isEntry, isNumber⟩ := mem_map.mp inIntended
    rw [← isNumber, (get_eq_some_iff (operations_sound intended).2).mpr isEntry]
    rw [← isNumber] at inCaptured
    exact ⟨rfl, inCaptured⟩
  have distinct : (sharedNumbers (operations intended) (operations captured)).Nodup :=
    (perm_insertionSort _ _).nodup_iff.mpr ((operations_sound intended).2.filter _)
  constructor
  · refine distinct.sublist ?_
    generalize sharedNumbers (operations intended) (operations captured) = numbers
    induction numbers with
    | nil => exact .refl _
    | cons number numbers ih =>
      rw [filterMap_cons]
      split
      · exact ih.cons _
      · rename_i unit isUnit
        rw [map_cons, judge_unit isUnit]
        exact ih.cons_cons _
  · intro unit member
    obtain ⟨number, isShared, isUnit⟩ := mem_filterMap.mp member
    obtain ⟨inIntended, inCaptured⟩ := inBoth number isShared
    obtain ⟨new, isNew⟩ := Option.isSome_iff_exists.mp inIntended
    obtain ⟨old, isOld⟩ := Option.isSome_iff_exists.mp inCaptured
    rw [judge_unit isUnit, isNew, isOld]
    exact ⟨rfl, rfl⟩

theorem undo_programs {units : List Recreated} {undo : List Str}
    (isUndo : undoProgram units captured = .ok undo)
    (areOld : ∀ unit ∈ units, (operations captured).get unit.number = some unit.old) :
    ∃ programs, undo = programs.flatten ∧
      List.Forall₂ (fun unit program => redefinition unit.number unit.old = .ok program)
        units programs := by
  unfold undoProgram at isUndo
  cases areBuilt : units.mapM (undoUnit (operations captured)) with
  | error refusal =>
    rw [areBuilt] at isUndo
    cases isUndo
  | ok programs =>
    rw [areBuilt] at isUndo
    cases isUndo
    refine ⟨programs, rfl, ?_⟩
    have built := forall₂_of_mapM areBuilt
    clear areBuilt
    induction built with
    | nil => exact List.Forall₂.nil
    | cons isBuilt areLater ih =>
      rename_i unit program units programs
      refine List.Forall₂.cons ?_ (ih (fun unit member => areOld unit (.tail _ member)))
      unfold undoUnit at isBuilt
      rw [areOld unit mem_cons_self] at isBuilt
      dsimp only at isBuilt
      split at isBuilt
      · cases isBuilt
      · cases isProgram : redefinition unit.number unit.old with
        | error refusal =>
          rw [isProgram] at isBuilt
          cases isBuilt
        | ok built =>
          rw [isProgram] at isBuilt
          cases isBuilt
          rfl

theorem asSent_of_asWritten (entered : Entered (number, operation))
    (written : AsWritten number operation) : asSent number operation = operation := by
  have notInner : isInner (headerLine number) = false := rfl
  have flat : ∀ line, scheduled line = some number → isInner line = false := by
    intro line isScheduled
    obtain ⟨-, -, rest, isLine, -, -⟩ := digits_of_scheduled isScheduled
    rw [isLine]
    rfl
  have section_ : ∀ key ∈ sent number operation, (key.1 ≠ [] ↔ isInner key.2) := by
    intro key member
    rcases stands_of_mem_sent entered member with isHeader | ⟨under, inner⟩ | ⟨isTop, isScheduled⟩
    · rw [isHeader, notInner]
      simp
    · rw [inner]
      refine iff_of_true ?_ rfl
      intro isTop
      rw [isTop] at under
      cases under
    · rw [isTop, flat key.2 isScheduled]
      simp
  have lines := map_snd_sent entered written
  have bodyInner : operation.body.filter isInner = operation.body := by
    rw [filter_eq_self]
    exact fun line member => (entered.body line member).2.1
  have scheduleFlat : operation.schedule.filter isInner = [] := by
    rw [filter_eq_nil_iff]
    intro line member
    rw [flat line (entered.schedule line member).2]
    decide
  have body : (asSent number operation).body = operation.body := by
    have byLine : (sent number operation).filter (fun key => key.1 ≠ []) =
        (sent number operation).filter (isInner ∘ Prod.snd) := by
      apply filter_congr
      intro key member
      rw [Bool.eq_iff_iff, decide_eq_true_iff]
      exact section_ key member
    show ((sent number operation).filter (fun key => key.1 ≠ [])).map Prod.snd = operation.body
    rw [byLine, ← filter_map, lines, filter_cons_of_neg (by rw [notInner]; decide),
      filter_append, bodyInner, scheduleFlat, append_nil]
  have schedule : (asSent number operation).schedule = operation.schedule := by
    have byLine : (sent number operation).filter
        (fun key => key.1 = [] ∧ key.2 ≠ headerLine number) =
          (sent number operation).filter
            ((fun line => !isInner line && decide (line ≠ headerLine number)) ∘ Prod.snd) := by
      apply filter_congr
      intro key member
      have under := section_ key member
      by_cases isTop : key.1 = []
      · have top : isInner key.2 = false := by
          rw [Bool.eq_false_iff]
          exact fun inner => under.mpr inner isTop
        simp [isTop, top]
      · have inner : isInner key.2 := under.mp isTop
        simp [isTop, inner]
    show ((sent number operation).filter
      (fun key => key.1 = [] ∧ key.2 ≠ headerLine number)).map Prod.snd = operation.schedule
    rw [byLine, ← filter_map, lines, filter_cons_of_neg (by simp), filter_append]
    have noBody : operation.body.filter
        (fun line => !isInner line && decide (line ≠ headerLine number)) = [] := by
      rw [filter_eq_nil_iff]
      intro line member
      simp [(entered.body line member).2.1]
    have allSchedule : operation.schedule.filter
        (fun line => !isInner line && decide (line ≠ headerLine number)) = operation.schedule := by
      rw [filter_eq_self]
      intro line member
      have isScheduled := (entered.schedule line member).2
      have notHeader : line ≠ headerLine number := by
        intro same
        rw [same, scheduled_of_header (header_entered entered)] at isScheduled
        cases isScheduled
      simp [flat line isScheduled, notHeader]
    rw [noBody, allSchedule, nil_append]
  calc asSent number operation
      = ⟨(asSent number operation).body, (asSent number operation).schedule⟩ := rfl
    _ = operation := by rw [body, schedule]

theorem run_sides {units : List Recreated} {side : Recreated → Operation} {held : List Key}
    {programs : List (List Str)} (distinct : (units.map Recreated.number).Nodup)
    (entered : ∀ unit ∈ units, Entered (unit.number, side unit))
    (areSent : List.Forall₂ (fun unit program =>
      redefinition unit.number (side unit) = .ok program) units programs) :
    ∃ changed, runProgram (units.map (fun unit => (unit.number, side unit))) held
        programs.flatten = some changed ∧
      (∀ unit ∈ units, shown changed unit.number = some (asSent unit.number (side unit))) ∧
      ∀ number, number ∉ units.map Recreated.number → shown changed number = shown held number := by
  have definitions : (units.map (fun unit => (unit.number, side unit))).map Prod.fst =
      units.map Recreated.number := by
    rw [map_map]
    rfl
  have allEntered : ∀ definition ∈ units.map (fun unit => (unit.number, side unit)),
      Entered definition := by
    intro definition member
    obtain ⟨unit, isUnit, isDefinition⟩ := mem_map.mp member
    rw [← isDefinition]
    exact entered unit isUnit
  have isRun := @runProgram_units _ held _ _ _ (definitions.symm ▸ distinct) allEntered
    (fun definition member => member) (List.forall₂_map_left_iff.mpr areSent)
  obtain ⟨theirs, others⟩ := @shown_foldl _ held _ (definitions.symm ▸ distinct) allEntered
  refine ⟨_, isRun, ?_, ?_⟩
  · intro unit member
    exact theirs (unit.number, side unit) (mem_map.mpr ⟨unit, member, rfl⟩)
  · intro number notNamed
    exact others number (definitions.symm ▸ notNamed)

/-- **A re-create and its undo**: the program defines every unit as the merge builder
reads what is intended and changes no other operation, and the undo, where it can be
built, puts every unit back as it reads what was captured. Where the lines are sent
as they are written the device shows exactly what is intended, and after the undo
exactly what was captured. -/
theorem recreate_undone (isPlan : plan measured dialect intended captured = .ok planned) :
    ∃ changed,
      runProgram (planned.units.map (fun unit => (unit.number, unit.new)))
        (configured (operations captured)) planned.commands = some changed ∧
      (∀ unit ∈ planned.units,
        shown changed unit.number = some (asSent unit.number unit.new) ∧
          (AsWritten unit.number unit.new →
            shown changed unit.number = (operations intended).get unit.number)) ∧
      (∀ number, number ∉ planned.units.map Recreated.number →
        shown changed number = (operations captured).get number) ∧
      ∀ undo, undoProgram planned.units captured = .ok undo → ∃ back,
        runProgram (planned.units.map (fun unit => (unit.number, unit.old))) changed undo =
          some back ∧
        (∀ unit ∈ planned.units, shown back unit.number = some (asSent unit.number unit.old)) ∧
        (∀ number, number ∉ planned.units.map Recreated.number →
          shown back number = (operations captured).get number) ∧
        ((∀ unit ∈ planned.units, AsWritten unit.number unit.old) →
          ∀ number, shown back number = (operations captured).get number) := by
  obtain ⟨distinct, areEntries⟩ := units_spec isPlan
  obtain ⟨-, programs, areCommands, areSent⟩ := planned_units isPlan
  obtain ⟨intendedSound, intendedDistinct⟩ := operations_sound intended
  obtain ⟨capturedSound, capturedDistinct⟩ := operations_sound captured
  have newEntered : ∀ unit ∈ planned.units, Entered (unit.number, unit.new) := by
    intro unit member
    exact intendedSound _ ((get_eq_some_iff intendedDistinct).mp (areEntries unit member).1)
  have oldEntered : ∀ unit ∈ planned.units, Entered (unit.number, unit.old) := by
    intro unit member
    exact capturedSound _ ((get_eq_some_iff capturedDistinct).mp (areEntries unit member).2)
  have before := shown_configured capturedDistinct capturedSound
  obtain ⟨changed, isRun, theirs, others⟩ := @run_sides _ planned.units Recreated.new
    (configured (operations captured)) _ distinct newEntered areSent
  rw [← areCommands] at isRun
  refine ⟨changed, isRun, ?_, fun number notNamed => (others number notNamed).trans (before number),
    ?_⟩
  · intro unit member
    refine ⟨theirs unit member, ?_⟩
    intro written
    rw [theirs unit member, asSent_of_asWritten (newEntered unit member) written,
      (areEntries unit member).1]
  · intro undo isUndo
    obtain ⟨undone, areUndo, areBack⟩ := undo_programs isUndo
      (fun unit member => (areEntries unit member).2)
    obtain ⟨back, isBack, restored, untouched⟩ := @run_sides _ planned.units Recreated.old changed _
      distinct oldEntered areBack
    rw [← areUndo] at isBack
    have outside : ∀ number, number ∉ planned.units.map Recreated.number →
        shown back number = (operations captured).get number := by
      intro number notNamed
      rw [untouched number notNamed, others number notNamed, before number]
    refine ⟨back, isBack, restored, outside, ?_⟩
    intro written number
    by_cases isNamed : number ∈ planned.units.map Recreated.number
    · obtain ⟨unit, member, isNumber⟩ := List.mem_map.mp isNamed
      rw [← isNumber, restored unit member,
        asSent_of_asWritten (oldEntered unit member) (written unit member),
        (areEntries unit member).2]
    · exact outside number isNamed

/-- The program gives exactly what is intended for every unit and what was captured of
every other operation, and its undo exactly what was captured of all. -/
def Inverse (measured : Measured) (dialect intended captured : Str) : Prop :=
  ∀ planned, plan measured dialect intended captured = .ok planned → ∃ changed,
    runProgram (planned.units.map (fun unit => (unit.number, unit.new)))
      (configured (operations captured)) planned.commands = some changed ∧
    (∀ unit ∈ planned.units, shown changed unit.number = (operations intended).get unit.number) ∧
    (∀ number, number ∉ planned.units.map Recreated.number →
      shown changed number = (operations captured).get number) ∧
    ∃ undo, undoProgram planned.units captured = .ok undo ∧ ∃ back,
      runProgram (planned.units.map (fun unit => (unit.number, unit.old))) changed undo =
        some back ∧
      ∀ number, shown back number = (operations captured).get number

end Device

def measuredExact : Measured :=
  .rows [(("ios".ascii, "global.ip-sla-operation".ascii), ⟨"exact".ascii, "s1".ascii, [], []⟩)] []

/-- An abbreviated interface is sent, and held, in its long form. -/
theorem abbreviated_not_inverse :
    letI : Unicode := basicLatin
    ¬ Inverse measuredExact "ios".ascii
      "ip sla 1\n icmp-echo 192.0.2.1 source-interface Gi0/0\n".ascii
      "ip sla 1\n icmp-echo 192.0.2.1\nip sla schedule 1 life forever\n".ascii := by
  letI : Unicode := basicLatin
  intro inverse
  have isPlan : plan measuredExact "ios".ascii
      "ip sla 1\n icmp-echo 192.0.2.1 source-interface Gi0/0\n".ascii
      "ip sla 1\n icmp-echo 192.0.2.1\nip sla schedule 1 life forever\n".ascii =
        .ok ⟨[⟨"1".ascii, ⟨[" icmp-echo 192.0.2.1".ascii], ["ip sla schedule 1 life forever".ascii]⟩,
          ⟨[" icmp-echo 192.0.2.1 source-interface Gi0/0".ascii], []⟩⟩],
          ["no ip sla 1", "ip sla 1", " icmp-echo 192.0.2.1 source-interface GigabitEthernet0/0",
            "exit"].map String.ascii, []⟩ := by
    decide
  obtain ⟨changed, isRun, isIntended, -⟩ := inverse _ isPlan
  have shows := isIntended _ (.head _)
  have different : (runProgram [("1".ascii,
      ⟨[" icmp-echo 192.0.2.1 source-interface Gi0/0".ascii], []⟩)]
      (configured (operations
        "ip sla 1\n icmp-echo 192.0.2.1\nip sla schedule 1 life forever\n".ascii))
      (["no ip sla 1", "ip sla 1", " icmp-echo 192.0.2.1 source-interface GigabitEthernet0/0",
        "exit"].map String.ascii)).bind (fun held => shown held "1".ascii) ≠
      (operations "ip sla 1\n icmp-echo 192.0.2.1 source-interface Gi0/0\n".ascii).get
        "1".ascii := by
    decide
  apply different
  rw [← shows]
  exact congrArg (fun held : Option (List Key) => held.bind (fun held => shown held "1".ascii)) isRun

/-- A probe that is slowed. -/
theorem recreate_undone_slowed :
    letI : Unicode := basicLatin
    ∃ changed,
      runProgram [("1".ascii, ⟨[" icmp-echo 192.0.2.1".ascii, " frequency 60".ascii],
          ["ip sla schedule 1 life forever".ascii]⟩)]
        (configured (operations ("ip sla 1\n icmp-echo 192.0.2.1\n frequency 10\n" ++
          "ip sla schedule 1 life forever\n").ascii))
        (["no ip sla 1", "ip sla 1", " icmp-echo 192.0.2.1", " frequency 60", "exit",
          "ip sla schedule 1 life forever"].map String.ascii) = some changed ∧
      ∀ number, number ≠ "1".ascii → shown changed number = none := by
  letI : Unicode := basicLatin
  have isPlan : plan measuredExact "ios".ascii
      "ip sla 1\n icmp-echo 192.0.2.1\n frequency 60\nip sla schedule 1 life forever\n".ascii
      "ip sla 1\n icmp-echo 192.0.2.1\n frequency 10\nip sla schedule 1 life forever\n".ascii =
        .ok ⟨[⟨"1".ascii, ⟨[" icmp-echo 192.0.2.1".ascii, " frequency 10".ascii],
          ["ip sla schedule 1 life forever".ascii]⟩,
          ⟨[" icmp-echo 192.0.2.1".ascii, " frequency 60".ascii],
            ["ip sla schedule 1 life forever".ascii]⟩⟩],
          ["no ip sla 1", "ip sla 1", " icmp-echo 192.0.2.1", " frequency 60", "exit",
            "ip sla schedule 1 life forever"].map String.ascii, []⟩ := by
    decide
  obtain ⟨changed, isRun, -, others, -⟩ := recreate_undone isPlan
  refine ⟨changed, isRun, fun number isOther => ?_⟩
  rw [others number (by simpa using isOther)]
  have only : operations
      "ip sla 1\n icmp-echo 192.0.2.1\n frequency 10\nip sla schedule 1 life forever\n".ascii =
        [("1".ascii, ⟨[" icmp-echo 192.0.2.1".ascii, " frequency 10".ascii],
          ["ip sla schedule 1 life forever".ascii]⟩)] := by
    decide
  rw [only]
  have apart : ¬ "1".ascii = number := fun same => isOther same.symm
  simp [Operations.get, apart]

end Nmas.Nsot.Recreate
