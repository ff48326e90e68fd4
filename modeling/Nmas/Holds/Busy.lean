import Nmas.Holds.Interrupted

/-!
Contract: whom a refused `acquire` names.

Owns: `Traced`, the holds beside which of them wrote each lock file's record and which of them
each `acquire` has seen in force; the condition under which a failed attempt finds no record but
the holder's (`HolderRecorded`); and the runs.

An open file has its lock from the attempt that takes it to the unlock, its close or its process's
end: that long its hold is in force.
-/

namespace Nmas.Holds

open Nmas.Text
open Nmas.Os (Flock)
open Nmas.Log.Machine (run Along)
open Function

/-- The holds, who wrote each lock file's record, and the holds of its file that were in force
while each process was in its `acquire`. -/
structure Traced where
  state : State
  writer : Path → Option Owner
  inForce : Nat → List Owner

/-- The record a step writes, and whose open file it writes it by. -/
def writes (state : State) : Event → Option (Path × Owner)
  | .goesOn pid false =>
    match (state.processes pid).critical with
    | some (.acquiring acquiring) =>
      match acquiring.stage with
      | .writing => some (acquiring.key.path, .holder pid acquiring.fd)
      | _ => none
    | some (.noting noting) =>
      (noting.writing.bind (state.processes pid).find).map fun hold =>
        (hold.key.path, .holder pid hold.fd)
    | none => none
  | _ => none

/-- The hold that is in force of the file a process is acquiring. -/
def nowInForce (state : State) (pid : Nat) : List Owner :=
  match (state.processes pid).acquiring? with
  | some acquiring => (state.locks acquiring.key.path).exclusive.toList
  | none => []

def follow (traced : Traced) (event : Event) : Traced where
  state := step traced.state event
  writer :=
    match writes traced.state event with
    | some (path, owner) => update traced.writer path (some owner)
    | none => traced.writer
  inForce pid :=
    (if (traced.state.processes pid).acquiring?.isSome then traced.inForce pid else []) ++
      nowInForce (step traced.state event) pid

def Stage.isBlocked : Stage → Bool
  | .blocked _ => true
  | _ => false

def Stage.isLocking : Stage → Bool
  | .locking _ => true
  | _ => false

/-- What a refusal names is a hold in force: the process's own, which has its lock now, or the one
whose record stands in the file that is locked by another. -/
structure RefusesInForce (traced : Traced) : Prop where
  own : ∀ pid, ∀ hold ∈ (traced.state.processes pid).held,
    (traced.state.locks hold.key.path).exclusive = some (.holder pid hold.fd)
  other : ∀ pid acquiring info, (traced.state.processes pid).critical = some (.acquiring acquiring) →
    acquiring.stage.isBlocked = true → traced.state.contents acquiring.key.path = some info →
      info.operation ≠ "?".ascii →
        ∃ owner ∈ traced.inForce pid, traced.writer acquiring.key.path = some owner

/-- **The condition.** Where an attempt at the lock fails, the file has no record, or the one that
the hold in force wrote. -/
def HolderRecorded (traced : Traced) : Event → Prop
  | .goesOn pid false => ∀ acquiring ∈ (traced.state.processes pid).acquiring?,
      acquiring.stage.isLocking = true →
        ((traced.state.locks acquiring.key.path).lockExclusive (.holder pid acquiring.fd)).isNone →
          (traced.state.contents acquiring.key.path).isSome →
            (traced.writer acquiring.key.path).isSome ∧
              traced.writer acquiring.key.path = (traced.state.locks acquiring.key.path).exclusive
  | _ => True

/-- A record that stands in the file a blocked `acquire` is to read is of a hold it has seen in
force. -/
structure Sees (traced : Traced) : Prop where
  owned : Owned traced.state
  blocked : ∀ pid acquiring info, (traced.state.processes pid).critical = some (.acquiring acquiring) →
    acquiring.stage.isBlocked = true → traced.state.contents acquiring.key.path = some info →
      ∃ owner ∈ traced.inForce pid, traced.writer acquiring.key.path = some owner

variable {state next : State} {traced : Traced} {event : Event} {pid : Nat} {path : Path}
  {acquiring : Acquiring} {info : Info} {owner : Owner}

theorem Sees.refusesInForce (sees : Sees traced) : RefusesInForce traced where
  own pid hold isHeld := sees.owned.own pid hold.claim (mem_claims_held isHeld)
  other pid acquiring info isCritical isBlocked isRecord _ :=
    sees.blocked pid acquiring info isCritical isBlocked isRecord

/-! ### Who writes -/

theorem writes_locked (owned : Owned state) (isWrite : writes state event = some (path, owner)) :
    ((step state event).locks path).exclusive = some owner := by
  unfold writes at isWrite
  split at isWrite
  · rename_i pid
    split at isWrite
    · rename_i acquiring isCritical
      split at isWrite
      · rename_i isStage
        cases isWrite
        have locked : acquiring.stage.locked := by
          rw [isStage]
          rfl
        have isOwn := owned.own pid _ (mem_claims_acquiring isCritical locked)
        have sameLocks : (step state (.goesOn pid false)).locks = state.locks := by
          simp only [step, isCritical, acquireStep, isStage]
          rfl
        rw [sameLocks]
        exact isOwn
      · cases isWrite
    · rename_i noting isCritical
      obtain ⟨hold, isFound, isHold⟩ := Option.map_eq_some_iff.mp isWrite
      obtain ⟨key, isWriting, isHeld⟩ := Option.bind_eq_some_iff.mp isFound
      cases isHold
      have isOwn := owned.own pid _ (mem_claims_held (find_some isHeld).1)
      have sameLocks : (step state (.goesOn pid false)).locks = state.locks := by
        simp only [step, isCritical, noteStep, isWriting, isHeld]
        rfl
      rw [sameLocks]
      exact isOwn
    · cases isWrite
  · cases isWrite

theorem record_noteStep {noting : Noting} {fails : Bool}
    (isCritical : (state.processes pid).critical = some (.noting noting))
    (isRecord : (noteStep state pid noting fails).contents path = some info) :
    state.contents path = some info ∨
      ∃ owner, writes state (.goesOn pid fails) = some (path, owner) := by
  have elsewhere {other : Path} {content : Option Info} (isOther : other ≠ path)
      (isRecord : (state.setContent other content).contents path = some info) :
      state.contents path = some info := by
    rwa [contents_of_ne isOther] at isRecord
  unfold noteStep at isRecord
  dsimp only at isRecord
  split at isRecord
  · rename_i key isWriting
    split at isRecord
    · rename_i hold isHeld
      split at isRecord
      · exact .inl isRecord
      · rename_i succeeds
        by_cases isPath : key.path = path
        · right
          rw [Bool.not_eq_true] at succeeds
          refine ⟨.holder pid hold.fd, ?_⟩
          have sameKey := (find_some isHeld).2
          simp only [writes, succeeds, isCritical, isWriting, Option.bind_some, isHeld, Option.map_some,
            sameKey, isPath]
        · exact .inl (elsewhere isPath isRecord)
    · exact .inl isRecord
  · rename_i key rest isWriting _
    split at isRecord
    · exact .inl isRecord
    · by_cases isPath : key.path = path
      · have isNone : (state.setContent key.path none).contents path = none := by
          rw [isPath]
          exact update_self ..
        cases isNone.symm.trans isRecord
      · exact .inl (elsewhere isPath isRecord)
  · exact .inl isRecord

theorem record_step (isRecord : (step state event).contents path = some info) :
    state.contents path = some info ∨ ∃ owner, writes state event = some (path, owner) := by
  rcases contents_step state event path with isSame | isWrite
  · exact .inl (isSame.symm.trans isRecord)
  · cases isWrite with
    | acquires pid fails acquiring isCritical isPath isStage =>
      cases fails with
      | true =>
        left
        rcases isStage with isStage | isStage <;>
          simp only [step, isCritical, acquireStep, isStage] at isRecord <;> exact isRecord
      | false =>
        rcases isStage with isStage | isStage
        · simp only [step, isCritical, acquireStep, isStage, isPath] at isRecord
          have isNone : (state.setContent path none).contents path = none := update_self ..
          cases isNone.symm.trans isRecord
        · right
          refine ⟨.holder pid acquiring.fd, ?_⟩
          simp only [writes, isCritical, isStage, isPath]
    | notes pid fails key isNoted isPath =>
      obtain ⟨noting, isCritical⟩ := notes_critical isNoted
      rw [step_goesOn, isCritical] at isRecord
      exact record_noteStep isCritical isRecord
    | leaves pid place fails leaving isThere isPath isStage =>
      simp only [step, isThere, leaveStep, isStage] at isRecord
      cases fails with
      | true => exact .inl isRecord
      | false =>
        have isNone : (state.setContent leaving.key.path none).contents path = none := by
          rw [isPath]
          exact update_self ..
        cases isNone.symm.trans isRecord

theorem writer_step (owned : Owned traced.state)
    (isRecord : (step traced.state event).contents path = some info) :
    (traced.state.contents path = some info ∧
      (follow traced event).writer path = traced.writer path) ∨
    ∃ owner, (follow traced event).writer path = some owner ∧
      ((step traced.state event).locks path).exclusive = some owner := by
  cases isWrite : writes traced.state event with
  | none =>
    have isOld := (record_step isRecord).resolve_right fun ⟨owner, is⟩ => by
      cases isWrite.symm.trans is
    refine .inl ⟨isOld, ?_⟩
    simp only [follow, isWrite]
  | some written =>
    obtain ⟨other, owner⟩ := written
    by_cases isPath : other = path
    · subst isPath
      refine .inr ⟨owner, ?_, writes_locked owned isWrite⟩
      simp only [follow, isWrite]
      exact update_self ..
    · have isOld := (record_step isRecord).resolve_right fun ⟨owner, is⟩ => by
        rw [isWrite, Option.some.injEq, Prod.mk.injEq] at is
        exact isPath is.1
      refine .inl ⟨isOld, ?_⟩
      simp only [follow, isWrite]
      exact update_of_ne (Ne.symm isPath) _ _

/-! ### Every step -/

theorem blocked_acquireStep {further : Acquiring} {fails : Bool}
    (isNext : ((acquireStep state pid acquiring fails).processes pid).critical =
      some (.acquiring further)) (isBlocked : further.stage.isBlocked) :
    fails = false ∧ acquiring.stage.isLocking ∧ further.key = acquiring.key ∧
      (state.locks acquiring.key.path).lockExclusive (.holder pid acquiring.fd) = none ∧
      (acquireStep state pid acquiring fails).contents = state.contents ∧
      (acquireStep state pid acquiring fails).locks = state.locks := by
  obtain ⟨next, turns, isStep, isFurther⟩ := turns_of_critical isNext
  rw [isStep]
  generalize isStage : some further.stage = stage at turns
  have other {one : Stage} (isOne : some further.stage = some one)
      (notBlocked : one.isBlocked = false) : False := by
    rw [Option.some_inj.mp isOne, notBlocked] at isBlocked
    cases isBlocked
  cases turns with
  | finds tries isLocking isHeld =>
    exact ⟨rfl, by rw [isLocking]; rfl, by rw [isFurther], isHeld, rfl, rfl⟩
  | raises _ | unlocks _ => cases isStage
  | indexes index _ =>
    refine (other isStage ?_).elim
    cases (index.step state).2 <;> rfl
  | looks _ =>
    refine (other isStage ?_).elim
    cases state.contents acquiring.key.path <;> rfl
  | _ => exact (other isStage rfl).elim

theorem noteStep_critical {noting : Noting} {fails : Bool} :
    ((noteStep state pid noting fails).processes pid).critical ≠ some (.acquiring acquiring) := by
  obtain ⟨next, held, further, notes, isStep⟩ := noteStep_cases state pid noting fails
  rw [isStep, setProcess_processes notes.processes, update_self]
  cases further <;> exact nofun

theorem follow_sees (traced : Traced) (event : Event) (sees : Sees traced)
    (recorded : HolderRecorded traced event) : Sees (follow traced event) := by
  refine ⟨owned_step traced.state event sees.owned, ?_⟩
  intro pid acquiring info isCritical isBlocked isRecord
  have isAcquiring : ((step traced.state event).processes pid).acquiring? = some acquiring :=
    acquiring?_some isCritical
  -- the hold in force after the step is among those seen
  have now {owner : Owner}
      (isNow : ((step traced.state event).locks acquiring.key.path).exclusive = some owner) :
      owner ∈ (follow traced event).inForce pid := by
    refine List.mem_append_right _ ?_
    unfold nowInForce
    rw [isAcquiring]
    show owner ∈ ((step traced.state event).locks acquiring.key.path).exclusive.toList
    rw [isNow]
    exact .head _
  rcases critical_step traced.state event pid with ⟨fails, rfl⟩ | rfl | stays | ⟨-, isFresh⟩
  · cases wasCritical : (traced.state.processes pid).critical with
    | none =>
      have isSame : step traced.state (.goesOn pid fails) = traced.state := by
        simp only [step, wasCritical]
      have isCritical : ((step traced.state (.goesOn pid fails)).processes pid).critical =
        some (.acquiring acquiring) := isCritical
      rw [isSame, wasCritical] at isCritical
      cases isCritical
    | some critical =>
      have isCritical : ((step traced.state (.goesOn pid fails)).processes pid).critical =
        some (.acquiring acquiring) := isCritical
      cases critical with
      | noting noting =>
        rw [step_goesOn, wasCritical] at isCritical
        exact absurd isCritical noteStep_critical
      | acquiring before =>
        have isStep : step traced.state (.goesOn pid fails) =
            acquireStep traced.state pid before fails := by
          rw [step_goesOn, wasCritical]
        rw [isStep] at isCritical
        obtain ⟨rfl, isLocking, sameKey, isHeld, sameContents, sameLocks⟩ :=
          blocked_acquireStep isCritical isBlocked
        have wasRecord : traced.state.contents before.key.path = some info := by
          have isRecord : (step traced.state (.goesOn pid false)).contents acquiring.key.path =
            some info := isRecord
          rw [isStep, sameContents, sameKey] at isRecord
          exact isRecord
        obtain ⟨isWritten, isHolder⟩ := recorded before (acquiring?_some wasCritical) isLocking
          (by rw [isHeld]; rfl) (by rw [wasRecord]; rfl)
        obtain ⟨owner, isWriter⟩ := Option.isSome_iff_exists.mp isWritten
        have sameWriter : (follow traced (.goesOn pid false)).writer = traced.writer := by
          have noWrite : writes traced.state (.goesOn pid false) = none := by
            cases isStage : before.stage with
            | locking tries => simp only [writes, wasCritical, isStage]
            | _ =>
              rw [isStage] at isLocking
              cases isLocking
          simp only [follow, noWrite]
        refine ⟨owner, now ?_, ?_⟩
        · rw [isStep, sameLocks, sameKey, ← isHolder]
          exact isWriter
        · rw [sameWriter, sameKey]
          exact isWriter
  · have isIdle : ((step traced.state (.dies pid)).processes pid).critical = none := by
      simp [step, die, State.setProcess, Process.idle]
    cases isIdle.symm.trans isCritical
  · have wasCritical : (traced.state.processes pid).critical = some (.acquiring acquiring) :=
      stays.symm.trans isCritical
    rcases writer_step sees.owned isRecord with ⟨wasRecord, sameWriter⟩ | ⟨owner, isWriter, isNow⟩
    · obtain ⟨owner, isSeen, isWriter⟩ :=
        sees.blocked pid acquiring info wasCritical isBlocked wasRecord
      refine ⟨owner, List.mem_append_left _ ?_, sameWriter.trans isWriter⟩
      rw [acquiring?_some wasCritical]
      exact isSeen
    · exact ⟨owner, now isNow, isWriter⟩
  · have isCritical : ((step traced.state event).processes pid).critical =
      some (.acquiring acquiring) := isCritical
    rw [isCritical] at isFresh
    have isFirst : acquiring.stage = .locking 0 := isFresh
    rw [isFirst] at isBlocked
    cases isBlocked

/-! ### The runs -/

/-- **A refused `acquire` names a hold in force.** In every run of any processes, whatever lock files
an earlier run left, whose failed attempts find no record but the holder's. -/
theorem refuses_in_force (contents : Path → Option Info) (marks : Path → Bool)
    (folders : Str → Folder) (events : List Event)
    (recorded : Along follow HolderRecorded
      ⟨begin_ contents marks folders, fun _ => none, fun _ => []⟩ events) :
    RefusesInForce
      (run follow ⟨begin_ contents marks folders, fun _ => none, fun _ => []⟩ events) := by
  have begins : Sees ⟨begin_ contents marks folders, fun _ => none, fun _ => []⟩ :=
    ⟨owned_begin contents marks folders, nofun⟩
  exact (recorded.keeps follow_sees begins).refusesInForce

instance : ∀ traced event, Decidable (HolderRecorded traced event)
  | traced, .goesOn pid false => inferInstanceAs (Decidable
      (∀ acquiring ∈ (traced.state.processes pid).acquiring?, acquiring.stage.isLocking = true →
        ((traced.state.locks acquiring.key.path).lockExclusive (.holder pid acquiring.fd)).isNone →
          (traced.state.contents acquiring.key.path).isSome →
            (traced.writer acquiring.key.path).isSome ∧
              traced.writer acquiring.key.path = (traced.state.locks acquiring.key.path).exclusive))
  | _, .goesOn _ true | _, .acquire _ _ _ _ | _, .release _ _ _ | _, .leaves _ _ _
  | _, .handOver _ _ _ _ | _, .note _ _ _ _ _ | _, .probe _ _ _ | _, .unprobe _ _ _ | _, .index _
  | _, .indexes _ _ | _, .dies _ => isTrue trivial

/-- Nothing is held, and no record stands. -/
def unheld : Traced := ⟨nothingLeft.start, fun _ => none, fun _ => []⟩

/-- A process takes a device, and another is refused it. -/
theorem refuses_in_force_push : RefusesInForce (run follow unheld (taking 1 7 ++ taking 2 1)) :=
  refuses_in_force (fun _ => none) (fun _ => false) (fun _ => ⟨[], true, []⟩) _ (by decide +kernel)

/-- A process ends while it holds; a reader's shared lock is taken as the next `acquire` tries, and
it is refused with the record of the process that ended. -/
theorem refuses_with_ended :
    ¬ RefusesInForce
      (run follow unheld (taking 1 7 ++ [.dies 1, .probe 3 0 spine.path] ++ taking 2 1)) := by
  intro refuses
  obtain ⟨owner, isSeen, -⟩ := refuses.other 2 ⟨1, spine, 0, push.info 2 spine, .blocked 0⟩
    (push.info 1 spine) rfl rfl (by decide +kernel) (by decide +kernel)
  have noneSeen : (run follow unheld
      (taking 1 7 ++ [.dies 1, .probe 3 0 spine.path] ++ taking 2 1)).inForce 2 = [] := by
    decide +kernel
  rw [noneSeen] at isSeen
  cases isSeen

end Nmas.Holds
