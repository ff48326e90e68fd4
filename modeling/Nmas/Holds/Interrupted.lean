import Nmas.Holds.Recorded
import Nmas.Log.Machine

/-!
Contract: an operation whose process ended is reported from then on.

Owns:
- what an ended operation leaves waits in its lock file until it is kept;
- `interrupted` reports it, on runs from what an earlier run left;
- an indexed folder marks every record.
-/

namespace Nmas.Holds

open Nmas.Text List
open Nmas.Log (amend)
open Nmas.Os (Flock)
open Nmas.Log.Machine (run Along)

variable {state next : State} {pid : Nat} {process : Process} {key : Key} {hold : Hold}
  {path : Path} {acquiring : Acquiring}

/-! ### What an ended operation leaves -/

/-- Up to the write over a record: an `acquire` that has found one keeps it. -/
def Stage.Spares (of : Info) : Stage → Prop
  | .keeping left => left.same of
  | .emptying | .writing | .syncing => False
  | _ => True

structure Spared (path : Path) (of : Info) (process : Process) : Prop where
  held : ∀ hold ∈ process.held, hold.key.path ≠ path
  leaving : ∀ leaving ∈ process.leaving, leaving.stage.locked = true → leaving.key.path ≠ path
  acquiring : ∀ acquiring ∈ process.acquiring?, acquiring.key.path = path →
    acquiring.stage.Spares of

/-- A record waits in its lock file, marked, to be kept. -/
structure Waits (path : Path) (of : Info) (state : State) : Prop where
  record : ∃ record ∈ state.contents path, record.same of
  marked : state.marks path = true
  spared : ∀ pid, Spared path of (state.processes pid)

/-- It has been kept in its folder's log. -/
def Logged (path : Path) (of : Info) (state : State) : Prop :=
  ∃ record ∈ (state.folders path.folder).kept, record.same of

/-- The append of the record fails. -/
def Loses (path : Path) (of : Info) (state : State) : Event → Bool
  | .goesOn pid true =>
    match (state.processes pid).critical with
    | some (.acquiring ⟨_, key, _, _, .keeping left⟩) => key.path = path && left.same of
    | _ => false
  | _ => false

variable {of : Info}

theorem not_writes_waits {event : Event} (kept : Marked state) (waits : Waits path of state) :
    ¬ Writes state path event := by
  intro writes
  cases writes with
  | acquires other fails acquiring isCritical isPath isStage =>
    have spares := (waits.spared other).acquiring _ (acquiring?_some isCritical) isPath
    rcases isStage with isStage | isStage <;> rw [isStage] at spares <;> exact spares
  | notes other fails key isNoted isPath =>
    obtain ⟨hold, isHeld, isKey⟩ := mem_map.mp ((kept.fits other).noted key isNoted)
    apply (waits.spared other).held hold isHeld
    rw [isKey]
    exact isPath
  | leaves other place fails leaving isThere isPath isStage =>
    exact (waits.spared other).leaving leaving (mem_of_getElem? isThere)
      (by rw [isStage]; rfl) isPath

theorem not_unmarks_waits {event : Event} (waits : Waits path of state) :
    ¬ Unmarks state path event := by
  intro unmarks
  cases event with
  | leaves other place fails =>
    obtain ⟨leaving, isThere, isStage, isPath⟩ := unmarks
    exact (waits.spared other).leaving leaving (mem_of_getElem? isThere)
      (by rw [isStage]; rfl) isPath
  | _ => cases unmarks

theorem loses_of_keeping {left : Info}
    (isCritical : (state.processes pid).critical = some (.acquiring acquiring))
    (isPath : acquiring.key.path = path) (isStage : acquiring.stage = .keeping left)
    (isSame : left.same of) : Loses path of state (.goesOn pid true) := by
  obtain ⟨thread, key, fd, info, stage⟩ := acquiring
  cases isStage
  unfold Loses
  dsimp only
  rw [isCritical]
  simp only [Bool.and_eq_true, decide_eq_true_eq]
  exact ⟨isPath, isSame⟩

theorem spares_acquireStep {further : Acquiring} {fails : Bool}
    (isCritical : (state.processes pid).critical = some (.acquiring acquiring))
    (record : ∃ record ∈ state.contents path, record.same of) (isPath : acquiring.key.path = path)
    (spares : acquiring.stage.Spares of)
    (notLost : Loses path of state (.goesOn pid fails) = false)
    (isNext : ((acquireStep state pid acquiring fails).processes pid).critical =
      some (.acquiring further)) :
    further.stage.Spares of ∨ Logged path of (acquireStep state pid acquiring fails) := by
  obtain ⟨next, turns, isStep, isFurther⟩ := turns_of_critical isNext
  rw [isStep]
  generalize further.stage = stage at turns ⊢
  generalize isSome : some stage = some_ at turns
  cases turns with
  | raises _ | unlocks _ => cases isSome
  | indexes index _ =>
    cases isSome
    cases (index.step state).2 <;> exact .inl trivial
  | looks _ =>
    cases isSome
    obtain ⟨one, isRecord, isSame⟩ := record
    rw [isPath, show state.contents path = some one from isRecord]
    exact .inl isSame
  | forgets left isStage =>
    rw [isStage] at spares
    rw [loses_of_keeping isCritical isPath isStage spares] at notLost
    cases notLost
  | keeps left isStage =>
    rw [isStage] at spares
    refine .inr ⟨left, ?_, spares⟩
    rw [← isPath]
    show left ∈ (Function.update state.folders acquiring.key.path.folder _
      acquiring.key.path.folder).kept
    rw [Function.update_self]
    exact mem_append_right _ (.head _)
  | empties isStage | writes isStage =>
    rw [isStage] at spares
    cases spares
  | _ =>
    cases isSome
    exact .inl trivial

theorem critical_of_acquiring (isAcquiring : process.acquiring? = some acquiring) :
    process.critical = some (.acquiring acquiring) := by
  unfold Process.acquiring? at isAcquiring
  split at isAcquiring
  · rename_i isCritical
    cases isAcquiring
    exact isCritical
  · cases isAcquiring

theorem key_of_acquireStep {further : Acquiring} {fails : Bool}
    (isNext : ((acquireStep state pid acquiring fails).processes pid).critical =
      some (.acquiring further)) : further.key = acquiring.key := by
  obtain ⟨next, turns, isStep, isFurther⟩ := turns_of_critical isNext
  rw [isFurther]

theorem noteStep_acquiring {noting : Noting} {fails : Bool} :
    ((noteStep state pid noting fails).processes pid).acquiring? = none := by
  obtain ⟨next, held, further, notes, isStep⟩ := noteStep_cases state pid noting fails
  rw [isStep, setProcess_processes notes.processes, Function.update_self]
  cases further <;> rfl

theorem waits_step (state : State) (event : Event) (kept : Marked state)
    (waits : Waits path of state) (notLost : Loses path of state event = false) :
    Waits path of (step state event) ∨ Logged path of (step state event) := by
  by_cases isLogged : Logged path of (step state event)
  · exact .inr isLogged
  · left
    constructor
    · rcases contents_step state event path with same | writes
      · rw [same]
        exact waits.record
      · exact absurd writes (not_writes_waits kept waits)
    · rcases grows_step state event path with grows | unmarks
      · exact grows.marks waits.marked
      · exact absurd unmarks (not_unmarks_waits waits)
    · intro pid
      have spared := waits.spared pid
      constructor
      · intro hold isHeld
        rcases held_step isHeld with ⟨old, isOld, sameKey, -⟩ | ⟨one, isCritical, isLast, -, sameKey, -⟩
        · rw [← sameKey]
          exact spared.held old isOld
        · rw [sameKey]
          intro isPath
          have spares := spared.acquiring one (acquiring?_some isCritical) isPath
          rw [isLast] at spares
          exact spares
      · intro leaving isLeaving locked
        rcases leaving_step isLeaving locked with ⟨old, isOld, sameKey, wasLocked⟩ | ⟨hold, isHeld, sameKey⟩
        · rw [← sameKey]
          exact spared.leaving old isOld wasLocked
        · rw [← sameKey]
          exact spared.held hold isHeld
      · intro further isFurther isPath
        have isNext := critical_of_acquiring isFurther
        rcases critical_step state event pid with ⟨fails, rfl⟩ | rfl | stays | ⟨-, isFresh⟩
        · rw [step_goesOn] at isNext isLogged
          cases isCritical : (state.processes pid).critical with
          | none =>
            rw [isCritical] at isNext
            cases (isCritical.symm.trans isNext)
          | some critical =>
            rw [isCritical] at isNext isLogged
            cases critical with
            | acquiring one =>
              have sameKey := key_of_acquireStep isNext
              rw [sameKey] at isPath
              have isAcquiring := acquiring?_some isCritical
              rcases spares_acquireStep isCritical waits.record isPath
                (spared.acquiring one isAcquiring isPath) notLost isNext with spares | isKept
              · exact spares
              · exact absurd isKept isLogged
            | noting noting =>
              have isNone : ((noteStep state pid noting fails).processes pid).acquiring? = none :=
                noteStep_acquiring
              rw [acquiring?_some isNext] at isNone
              cases isNone
        · simp [step, die, State.setProcess, Process.idle] at isNext
        · rw [stays] at isNext
          exact spared.acquiring further (acquiring?_some isNext) isPath
        · rw [isNext] at isFresh
          have isFirst : further.stage = .locking 0 := isFresh
          rw [isFirst]
          trivial

theorem logged_step (state : State) (event : Event) (logged : Logged path of state) :
    Logged path of (step state event) := by
  obtain ⟨record, isKept, isSame⟩ := logged
  exact ⟨record, kept_step state event path.folder isKept, isSame⟩

/-! ### What a reader is shown -/

theorem first_of_each (records seen : List Info) {record : Info}
    (member : record ∈ records ∨ record ∈ seen) :
    ∃ first ∈ records.foldl (fun seen record =>
      if seen.any (fun other => other.device = record.device && other.started = record.started) then
        seen
      else seen ++ [record]) seen, first.same record := by
  induction records generalizing seen record with
  | nil =>
    rcases member with isNone | isSeen
    · cases isNone
    · exact ⟨record, isSeen, rfl, rfl⟩
  | cons next rest ih =>
    rw [foldl_cons]
    rcases member with isNext | isSeen
    · rcases mem_cons.mp isNext with rfl | later
      · split
        · rename_i isThere
          obtain ⟨other, isOther, isSame⟩ := any_eq_true.mp isThere
          have same : other.same record := by simpa [Info.same] using isSame
          obtain ⟨first, isFirst, isAlso⟩ := ih seen (.inr isOther)
          exact ⟨first, isFirst, Info.same_trans isAlso same⟩
        · exact ih _ (.inr (mem_append_right _ (.head _)))
      · exact ih _ (.inl later)
    · refine ih _ (.inr ?_)
      split
      · exact isSeen
      · exact mem_append_left _ isSeen

theorem interrupted_of_record {list : Str} {record : Info}
    (member : record ∈ (state.folders list).kept ∨
      record ∈ (candidates state list).filterMap (fun name => leftover state ⟨list, name⟩)) :
    ∃ shown ∈ interrupted state list, shown.same record := by
  obtain ⟨first, isFirst, isSame⟩ := first_of_each
    ((state.folders list).kept ++
      (candidates state list).filterMap (fun name => leftover state ⟨list, name⟩)) []
    (.inl (mem_append.mpr member))
  refine ⟨first, ?_, isSame⟩
  unfold interrupted
  exact mem_mergeSort.mpr isFirst

theorem candidate_of_record (kept : Marked state) (isRecord : state.contents path ≠ none)
    (isMarked : state.marks path) : path.name ∈ candidates state path.folder := by
  unfold candidates
  dsimp only
  split
  · exact mem_filter.mpr ⟨kept.listed path isRecord, isMarked⟩
  · exact kept.listed path isRecord

theorem shown_waiting (kept : Marked state) (waits : Waits path of state)
    (isFree : (state.locks path).exclusive = none) :
    ∃ shown ∈ interrupted state path.folder, shown.same of := by
  obtain ⟨record, isRecord, isSame⟩ := waits.record
  have isThere : state.contents path = some record := isRecord
  have isCandidate := candidate_of_record kept (by rw [isThere]; simp) waits.marked
  have isLeft : leftover state path = some record := by
    unfold leftover
    rw [isFree]
    exact isRecord
  obtain ⟨shown, isShown, isAlso⟩ := @interrupted_of_record state path.folder _
    (.inr (mem_filterMap.mpr ⟨path.name, isCandidate, isLeft⟩))
  exact ⟨shown, isShown, Info.same_trans isAlso isSame⟩

theorem shown_logged (logged : Logged path of state) :
    ∃ shown ∈ interrupted state path.folder, shown.same of := by
  obtain ⟨record, isKept, isSame⟩ := logged
  obtain ⟨shown, isShown, isAlso⟩ := interrupted_of_record (.inl isKept)
  exact ⟨shown, isShown, Info.same_trans isAlso isSame⟩

/-! ### A process that ends -/

theorem spares_of_unlocked {stage : Stage} (isUnlocked : stage.locked = false) :
    stage.Spares of := by
  cases stage with
  | locking tries | blocked tries => trivial
  | _ => cases isUnlocked

theorem waits_of_death (owned : Owned state) (kept : Marked state)
    (isHeld : hold ∈ (state.processes pid).held)
    (record : ∃ record ∈ state.contents hold.key.path, record.same hold.info) :
    Waits hold.key.path hold.info (step state (.dies pid)) := by
  have isClaim := mem_claims_held isHeld
  have gone : ∀ other, ((step state (.dies pid)).processes other) =
      if other = pid then { Process.idle with opened := (state.processes pid).opened }
      else state.processes other := by
    intro other
    exact Function.update_apply ..
  refine ⟨record, ?_, ?_⟩
  · apply (kept.fits pid).counted
    exact mem_append_left _ (mem_map.mpr ⟨hold, isHeld, rfl⟩)
  · intro other
    rw [gone]
    split
    · constructor
      · intro _ isNone
        cases isNone
      · intro _ isNone
        cases isNone
      · intro _ isNone
        cases isNone
    · rename_i isOther
      constructor
      · intro also isAlso samePath
        exact isOther (claim_unique owned (mem_claims_held isAlso) isClaim samePath).1
      · intro leaving isLeaving locked samePath
        exact isOther (claim_unique owned (mem_claims_leaving isLeaving locked) isClaim samePath).1
      · intro acquiring isAcquiring samePath
        cases isLocked : acquiring.stage.locked with
        | true =>
          have isOwn := mem_claims_acquiring (critical_of_acquiring isAcquiring) isLocked
          exact absurd (claim_unique owned isOwn isClaim samePath).1 isOther
        | false =>
          exact spares_of_unlocked isLocked

/-! ### Runs -/

/-- What an earlier run left: a record's file is listed, and marked where its
folder is said indexed. -/
structure Left where
  contents : Path → Option Info
  marks : Path → Bool
  folders : Str → Folder
  listed : ∀ path, contents path ≠ none → path.name ∈ (folders path.folder).names
  indexed : ∀ path, (folders path.folder).indexed = true → contents path ≠ none → marks path = true

def Left.start (left : Left) : State := begin_ left.contents left.marks left.folders

theorem marked_begin (left : Left) : Marked left.start := by
  refine ⟨fun pid => fits_idle 0, left.listed, left.indexed, ?_⟩
  intro index isNone
  cases isNone

theorem recorded_begin (left : Left) (pid : Nat) (key : Key) : Recorded pid key left.start := by
  constructor
  · intro hold isNone
    cases isNone
  · intro acquiring isNone
    cases isNone

/-- The kernel has every lock a process counts on, and every record is marked. -/
structure Sound (state : State) : Prop where
  owned : Owned state
  marked : Marked state

theorem sound_step (state : State) (event : Event) (sound : Sound state) :
    Sound (step state event) :=
  ⟨owned_step state event sound.owned, marked_step state event sound.owned sound.marked⟩

theorem sound_begin (left : Left) : Sound left.start := ⟨owned_begin _ _ _, marked_begin left⟩

theorem sound_run (events : List Event) (sound : Sound state) : Sound (run step state events) :=
  Log.Machine.run_keeps sound_step events sound

theorem run_recorded {events : List Event} (sound : Sound state) (recorded : Recorded pid key state)
    (writes : Along step (fun state event => NoteWrites pid key state event = true) state events) :
    Recorded pid key (run step state events) := by
  have step_keeps : ∀ state event, Sound state ∧ Recorded pid key state →
      NoteWrites pid key state event = true →
        Sound (step state event) ∧ Recorded pid key (step state event) := by
    intro state event both writes
    exact ⟨sound_step state event both.1,
      recorded_step state event both.1.owned both.1.marked both.2 writes⟩
  exact (Along.keeps step_keeps writes ⟨sound, recorded⟩).2

theorem run_waits {events : List Event} (sound : Sound state) (waits : Waits path of state)
    (notLost : Along step (fun state event => Loses path of state event = false) state events) :
    Waits path of (run step state events) ∨ Logged path of (run step state events) := by
  have step_keeps : ∀ state event,
      Sound state ∧ (Waits path of state ∨ Logged path of state) →
      Loses path of state event = false →
        Sound (step state event) ∧
          (Waits path of (step state event) ∨ Logged path of (step state event)) := by
    intro state event both notLost
    refine ⟨sound_step state event both.1, ?_⟩
    rcases both.2 with waits | logged
    · exact waits_step state event both.1.marked waits notLost
    · exact .inr (logged_step state event logged)
  exact (Along.keeps step_keeps notLost ⟨sound, .inl waits⟩).2

/-- **An interrupted operation is reported.** Whatever runs from what an earlier
run left: in an indexed folder every record has its marker; and where a process
ends while it holds a device, its `note`s having written what they emptied,
`interrupted` shows the operation in every later state, but while a process that
has locked its file has yet to keep its record, and so long as no append of it
fails. -/
theorem interrupted_reported (left : Left) :
    (∀ events path, let state := run step left.start events
      (state.folders path.folder).indexed = true → state.contents path ≠ none →
        state.marks path = true) ∧
    (∀ before after pid hold, let ended := run step left.start before
      hold ∈ (ended.processes pid).held →
      Along step (fun state event => NoteWrites pid hold.key state event = true) left.start before →
      (ended.processes pid).writing ≠ some hold.key →
      Along step (fun state event => Loses hold.key.path hold.info state event = false)
        (step ended (.dies pid)) after →
      let state := run step (step ended (.dies pid)) after
      (Logged hold.key.path hold.info state ∨ (state.locks hold.key.path).exclusive = none) →
      ∃ record ∈ interrupted state hold.key.list,
        record.device = hold.info.device ∧ record.started = hold.info.started) := by
  constructor
  · intro events path state
    exact (sound_run events (sound_begin left)).marked.indexed path
  · intro before after pid hold ended isHeld writes notCut notLost state isSeen
    have sound : Sound ended := sound_run before (sound_begin left)
    have recorded : Recorded pid hold.key ended :=
      run_recorded (sound_begin left) (recorded_begin left pid hold.key) writes
    have record := (recorded.held hold isHeld rfl).resolve_right notCut
    have waits := waits_of_death sound.owned sound.marked isHeld record
    have soundAfter := sound_step ended (.dies pid) sound
    have later : Sound state := sound_run after soundAfter
    rcases isSeen with logged | isFree
    · exact shown_logged logged
    · rcases run_waits soundAfter waits notLost with waiting | logged
      · exact shown_waiting later.marked waiting isFree
      · exact shown_logged logged

/-- Nothing was left, in folders said indexed. -/
def nothingLeft : Left where
  contents _ := none
  marks _ := false
  folders _ := ⟨[], true, []⟩
  listed _ isRecord := absurd rfl isRecord
  indexed _ _ isRecord := absurd rfl isRecord

def spine : Key := ⟨"lab".ascii, "spine".ascii⟩

def push : Asked := ⟨"push".ascii, "ana".ascii, [], [], 7⟩

/-- An `acquire` of `spine` by a process, and its first steps. -/
def taking (pid steps : Nat) : List Event :=
  .acquire pid 1 spine push :: List.replicate steps (.goesOn pid false)

def pushed : Hold := ⟨spine, 0, 1, 1, push.info 1 spine⟩

/-- A process ends while it holds; another takes the device after it. -/
theorem interrupted_reported_push :
    ∃ record ∈ interrupted (run step (step (run step nothingLeft.start (taking 1 7)) (.dies 1))
        (taking 2 8)) pushed.key.list,
      record.device = pushed.info.device ∧ record.started = pushed.info.started :=
  (interrupted_reported nothingLeft).2 (taking 1 7) (taking 2 8) 1 pushed (by decide +kernel)
    (by decide +kernel) (by decide +kernel) (by decide +kernel) (Or.inl (by
      show ∃ record ∈ _, _
      decide +kernel))

/-- The append of a record fails, and the record is written over; and while the
next `acquire` has yet to come to it, it is not shown. -/
theorem interrupted_lost :
    let died := taking 1 7 ++ [.dies 1]
    let lost := died ++ taking 2 4 ++ .goesOn 2 true :: List.replicate 3 (.goesOn 2 false)
    (interrupted (run step nothingLeft.start died) "lab".ascii).map Info.started = [7] ∧
    interrupted (run step nothingLeft.start lost) "lab".ascii = [] ∧
    interrupted (run step nothingLeft.start (died ++ taking 2 2)) "lab".ascii = [] := by
  decide +kernel

end Nmas.Holds
