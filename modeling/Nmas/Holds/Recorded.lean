import Nmas.Holds.Changes

/-!
Contract: the record of a hold is in its lock file.

Owns: `Recorded`, kept by every step but a `note` that has emptied the record and
fails to write it.
-/

namespace Nmas.Holds

open Nmas.Text
open Nmas.Log (amend)
open Nmas.Os (Flock)
open Function

variable {state next : State} {pid : Nat} {process : Process} {key : Key} {hold : Hold}
  {path : Path} {acquiring : Acquiring}

/-! ### A hold's record -/

/-- The record a `note` has emptied and has yet to write. -/
def Process.writing (process : Process) : Option Key :=
  match process.critical with
  | some (.noting noting) => noting.writing
  | _ => none

/-- The record of a process's hold is in its lock file, but for a `note` between
its two writes. -/
structure Recorded (pid : Nat) (key : Key) (state : State) : Prop where
  held : ∀ hold ∈ (state.processes pid).held, hold.key = key →
    (∃ record ∈ state.contents key.path, record.same hold.info) ∨
      (state.processes pid).writing = some key
  synced : ∀ acquiring, (state.processes pid).critical = some (.acquiring acquiring) →
    acquiring.key = key → acquiring.stage = .syncing →
    state.contents key.path = some acquiring.info

/-- A `note` that has emptied a record does not fail to write it. -/
def NoteWrites (pid : Nat) (key : Key) (state : State) : Event → Bool
  | .goesOn other fails => !(other = pid && fails && (state.processes pid).writing = some key)
  | _ => true

theorem writing_critical (isWriting : process.writing = some key) :
    ∃ noting, process.critical = some (.noting noting) ∧ noting.writing = some key := by
  unfold Process.writing at isWriting
  split at isWriting
  · exact ⟨_, ‹_›, isWriting⟩
  · cases isWriting

theorem notes_critical (isNoted : key ∈ process.notes) :
    ∃ noting, process.critical = some (.noting noting) := by
  unfold Process.notes at isNoted
  split at isNoted
  · exact ⟨_, ‹_›⟩
  · cases isNoted

theorem turns_of_critical {further : Acquiring} {fails : Bool}
    (isNext : ((acquireStep state pid acquiring fails).processes pid).critical =
      some (.acquiring further)) :
    ∃ next, Turns state pid acquiring fails next (some further.stage) ∧
      acquireStep state pid acquiring fails = onTo next pid acquiring further.stage ∧
      further = { acquiring with stage := further.stage } := by
  rcases acquireStep_cases state pid acquiring fails with
    ⟨next, stage, turns, isStep⟩ | ⟨-, -, isStep⟩
  · rw [isStep, settle_processes turns, update_self] at isNext
    cases stage with
    | none => cases isNext
    | some stage =>
      cases isNext
      exact ⟨next, turns, isStep, rfl⟩
  · rw [isStep, setProcess_processes rfl, update_self] at isNext
    cases isNext

theorem synced_acquireStep {further : Acquiring} {fails : Bool}
    (isNext : ((acquireStep state pid acquiring fails).processes pid).critical =
      some (.acquiring further))
    (isLast : further.stage = .syncing) :
    (acquireStep state pid acquiring fails).contents further.key.path = some further.info := by
  obtain ⟨next, turns, isStep, isFurther⟩ := turns_of_critical isNext
  rw [isStep, isFurther]
  rw [isLast] at turns
  generalize isStage : some Stage.syncing = stage at turns
  cases turns with
  | writes _ => exact update_self ..
  | indexes index _ => cases isNone : (index.step state).2 <;> simp [isNone] at isStage
  | looks _ => cases isNone : state.contents acquiring.key.path <;> simp [isNone] at isStage
  | _ => cases isStage

theorem held_apart {other : Hold} (owned : Owned state) (isHeld : hold ∈ (state.processes pid).held)
    (isOther : other ∈ (state.processes pid).held) (otherKey : hold.key ≠ other.key) :
    hold.key.path ≠ other.key.path := by
  intro samePath
  obtain ⟨-, sameFd⟩ :=
    claim_unique owned (mem_claims_held isHeld) (mem_claims_held isOther) samePath
  have fds : ((state.processes pid).held.map Hold.fd).Nodup :=
    (List.nodup_append.mp (List.nodup_append.mp (owned.tidy pid).distinct).1).1
  exact otherKey (congrArg Hold.key (List.inj_on_of_nodup_map fds isHeld isOther sameFd))

theorem Recorded.of_own
    (isNext : next.processes = update state.processes pid process)
    (held : ∀ hold ∈ process.held, hold.key = key →
      (∃ record ∈ next.contents key.path, record.same hold.info) ∨ process.writing = some key)
    (idle : process.acquiring? = none) : Recorded pid key next := by
  constructor
  · intro hold isHeld isKey
    rw [isNext, update_self] at isHeld ⊢
    exact held hold isHeld isKey
  · intro acquiring isCritical
    rw [isNext, update_self] at isCritical
    rw [acquiring?_some isCritical] at idle
    cases idle

theorem recorded_noteStep {noting : Noting} {fails : Bool} (owned : Owned state)
    (kept : Marked state) (recorded : Recorded pid key state)
    (isCritical : (state.processes pid).critical = some (.noting noting))
    (writes : fails = false ∨ noting.writing ≠ some key) :
    Recorded pid key (noteStep state pid noting fails) := by
  have isWriting : (state.processes pid).writing = noting.writing := by
    unfold Process.writing
    rw [isCritical]
  have isNotes : (state.processes pid).notes = noting.writing.toList ++ noting.rest := by
    unfold Process.notes
    rw [isCritical]
  obtain ⟨step_, now, writing, rest⟩ := noting
  -- a record not being written is in its file
  have there : ∀ hold ∈ (state.processes pid).held, hold.key = key → writing ≠ some key →
      ∃ record ∈ state.contents key.path, record.same hold.info := by
    intro hold isHeld isKey notWriting
    rcases recorded.held hold isHeld isKey with isRecord | isOpen
    · exact isRecord
    · rw [isWriting] at isOpen
      exact absurd isOpen notWriting
  -- a write of another hold's record leaves it there
  have stays : ∀ {one : Key} {content : Option Info}, one ∈ (state.processes pid).notes →
      ∀ hold ∈ (state.processes pid).held, hold.key = key → one ≠ key →
        (state.setContent one.path content).contents key.path = state.contents key.path := by
    intro one content isNoted hold isHeld isKey isOther
    obtain ⟨noted, isNotedHeld, isOne⟩ := List.mem_map.mp ((kept.fits pid).noted one isNoted)
    apply contents_of_ne
    rw [← isOne, ← isKey]
    apply held_apart owned isNotedHeld isHeld
    rw [isOne, isKey]
    exact isOther
  unfold noteStep
  dsimp only
  split
  · rename_i one
    split
    · rename_i found isFound
      split
      · rename_i isFail
        refine Recorded.of_own rfl ?_ rfl
        intro hold isHeld isKey
        refine .inl (there hold isHeld isKey ?_)
        rintro ⟨⟩
        rcases writes with isFalse | notWriting
        · rw [isFail] at isFalse
          cases isFalse
        · exact notWriting rfl
      · refine Recorded.of_own rfl ?_ rfl
        intro hold isHeld isKey
        left
        by_cases isOne : one = key
        · subst isOne
          have same := find_of_mem (owned.tidy pid) isHeld
          rw [isKey, isFound, Option.some_inj] at same
          refine ⟨found.info, ?_, ?_⟩
          · exact (contents_setContent ..).trans (if_pos rfl)
          · rw [same]
            exact ⟨rfl, rfl⟩
        · have noted : one ∈ (state.processes pid).notes := by
            rw [isNotes]
            exact .head _
          obtain ⟨record, isRecord, isSame⟩ :=
            there hold isHeld isKey (fun same => isOne (Option.some_inj.mp same))
          exact ⟨record, (stays noted hold isHeld isKey isOne).trans isRecord, isSame⟩
    · rename_i isNone
      refine Recorded.of_own rfl ?_ rfl
      intro hold isHeld isKey
      refine .inl (there hold isHeld isKey ?_)
      rintro ⟨⟩
      have found := find_of_mem (owned.tidy pid) isHeld
      rw [isKey, isNone] at found
      cases found
  · rename_i one rest
    have before : ∀ hold ∈ amend Hold.key one
        (fun hold => { hold with info := hold.info.noted step_ now }) (state.processes pid).held,
        ∃ old ∈ (state.processes pid).held, old.key = hold.key ∧ old.info.same hold.info := by
      intro hold isHeld
      obtain ⟨old, isOld, rfl | rfl⟩ := Log.mem_amend isHeld
      · exact ⟨hold, isOld, rfl, rfl, rfl⟩
      · exact ⟨old, isOld, rfl, Info.noted_same _ _ _⟩
    split
    · refine Recorded.of_own rfl ?_ rfl
      intro hold isHeld isKey
      obtain ⟨old, isOld, sameKey, isSame⟩ := before hold isHeld
      obtain ⟨record, isRecord, alsoSame⟩ := there old isOld (sameKey.trans isKey) (by simp)
      exact .inl ⟨record, isRecord, Info.same_trans alsoSame isSame⟩
    · refine Recorded.of_own rfl ?_ rfl
      intro hold isHeld isKey
      by_cases isOne : one = key
      · right
        rw [isOne]
        rfl
      · obtain ⟨old, isOld, sameKey, isSame⟩ := before hold isHeld
        have noted : one ∈ (state.processes pid).notes := by
          rw [isNotes]
          exact .head _
        obtain ⟨record, isRecord, alsoSame⟩ := there old isOld (sameKey.trans isKey) (by simp)
        have same := @stays one none noted old isOld (sameKey.trans isKey) isOne
        exact .inl ⟨record, same.trans isRecord, Info.same_trans alsoSame isSame⟩
  · refine Recorded.of_own rfl ?_ rfl
    intro hold isHeld isKey
    exact .inl (there hold isHeld isKey (by simp))

theorem not_writes_synced {fails : Bool}
    (isCritical : (state.processes pid).critical = some (.acquiring acquiring))
    (isLast : acquiring.stage = .syncing) : ¬ Writes state path (.goesOn pid fails) := by
  intro writes
  cases writes with
  | acquires _ _ other isOther isPath isStage =>
    rw [isCritical] at isOther
    cases isOther
    rw [isLast] at isStage
    rcases isStage with isStage | isStage <;> cases isStage
  | notes _ _ key isNoted isPath =>
    obtain ⟨noting, isNoting⟩ := notes_critical isNoted
    rw [isCritical] at isNoting
    cases isNoting

theorem recorded_held {event : Event} (owned : Owned state) (kept : Marked state)
    (recorded : Recorded pid key state)
    (notNote : ∀ fails noting, event = .goesOn pid fails →
      (state.processes pid).critical ≠ some (.noting noting))
    (isHeld : hold ∈ ((step state event).processes pid).held) (isKey : hold.key = key) :
    (∃ record ∈ (step state event).contents key.path, record.same hold.info) ∨
      ((step state event).processes pid).writing = some key := by
  rcases held_step isHeld with ⟨old, isOld, sameKey, isSame⟩ | ⟨acquiring, isCritical, isLast, rfl, sameKey, sameInfo⟩
  · have isOldKey := sameKey.trans isKey
    rcases recorded.held old isOld isOldKey with ⟨record, isRecord, alsoSame⟩ | isWriting
    · left
      refine ⟨record, ?_, Info.same_trans alsoSame isSame⟩
      rcases contents_step state event key.path with same | writes
      · rw [same]
        exact isRecord
      · rw [← isOldKey] at writes
        obtain ⟨⟨fails, isEvent⟩, isNoted⟩ := writes_held owned kept isOld writes
        obtain ⟨noting, isNoting⟩ := notes_critical isNoted
        exact absurd isNoting (notNote fails noting isEvent)
    · right
      obtain ⟨noting, isNoting, isOne⟩ := writing_critical isWriting
      rcases critical_step state event pid with ⟨fails, isEvent⟩ | rfl | stays | ⟨isNone, -⟩
      · exact absurd isNoting (notNote fails noting isEvent)
      · simp [step, die, State.setProcess, Process.idle] at isHeld
      · unfold Process.writing
        rw [stays, isNoting]
        exact isOne
      · rw [isNoting] at isNone
        cases isNone
  · left
    refine ⟨acquiring.info, ?_, ?_⟩
    · have isRecord := recorded.synced acquiring isCritical (sameKey.symm.trans isKey) isLast
      rcases contents_step state (.goesOn pid false) key.path with same | writes
      · rw [same]
        exact isRecord
      · rw [← isKey, sameKey] at writes
        exact absurd writes (not_writes_synced isCritical isLast)
    · rw [sameInfo]
      exact ⟨rfl, rfl⟩

theorem step_goesOn {fails : Bool} :
    step state (.goesOn pid fails) =
      match (state.processes pid).critical with
      | none => state
      | some (.acquiring acquiring) => acquireStep state pid acquiring fails
      | some (.noting noting) => noteStep state pid noting fails := rfl

theorem recorded_step (state : State) (event : Event) (owned : Owned state) (kept : Marked state)
    (recorded : Recorded pid key state) (writes : NoteWrites pid key state event) :
    Recorded pid key (step state event) := by
  by_cases isOwn : ∃ fails, event = .goesOn pid fails
  · obtain ⟨fails, rfl⟩ := isOwn
    cases isCritical : (state.processes pid).critical with
    | none =>
      rw [step_goesOn, isCritical]
      exact recorded
    | some critical =>
      cases critical with
      | acquiring acquiring =>
        constructor
        · intro hold isHeld isKey
          refine recorded_held owned kept recorded ?_ isHeld isKey
          intro _ noting _ isNoting
          rw [isCritical] at isNoting
          cases isNoting
        · intro further isNext isKey isLast
          rw [step_goesOn, isCritical] at isNext ⊢
          rw [← isKey]
          exact synced_acquireStep isNext isLast
      | noting noting =>
        rw [step_goesOn, isCritical]
        apply recorded_noteStep owned kept recorded isCritical
        simpa [NoteWrites, Process.writing, isCritical] using writes
  · constructor
    · intro hold isHeld isKey
      refine recorded_held owned kept recorded ?_ isHeld isKey
      intro fails noting isEvent
      exact absurd ⟨fails, isEvent⟩ isOwn
    · intro acquiring isNext isKey isLast
      rcases critical_step state event pid with isEvent | rfl | stays | ⟨-, isFresh⟩
      · exact absurd isEvent isOwn
      · simp [step, die, State.setProcess, Process.idle] at isNext
      · rw [stays] at isNext
        have isRecord := recorded.synced acquiring isNext isKey isLast
        rcases contents_step state event key.path with same | writes
        · rw [same]
          exact isRecord
        · rw [← isKey] at writes
          have locked : acquiring.stage.locked := by rw [isLast]; rfl
          exact absurd (writes_acquiring owned kept isNext locked writes) isOwn
      · rw [isNext] at isFresh
        have isFirst : acquiring.stage = .locking 0 := isFresh
        rw [isLast] at isFirst
        cases isFirst

end Nmas.Holds
