import Nmas.Nsot.RolledBack.Record

/-!
Contract: a rolled-back program stays blocked until its own block is lifted.

Owns:
- the programs that stand: recorded, and neither retried nor dropped since;
- the writer of the record as the one call that holds its lock;
- the condition under which every program that stands is refused, in every run,
  and runs in which it fails;
- the log of retries, which only grows, and holds each before its block is lifted.
-/

namespace Nmas.Nsot.RolledBack

open Nmas.Text List
open Nmas.Os (Flock)
open Nmas.Log.Machine (run Along along_of_keeps)
open Function

def track (standing : List (Str × Entry)) : Happening → List (Str × Entry)
  | .recorded hostname entry =>
    if entry.commands = [] then standing else (hostname, entry) :: standing
  | .authorised hostname entry | .dropped hostname entry =>
    standing.filter (fun one => one ≠ (hostname, entry))

/-- The programs recorded whose own block nobody has lifted since. -/
def standing (happened : List Happening) : List (Str × Entry) := happened.foldl track []

def Stage.held : Stage → Bool
  | .loading | .saving _ | .unlocking => true
  | _ => false

/-- The next step writes the record. -/
def Stage.saves : Stage → Bool
  | .saving _ => true
  | _ => false

/-- The writer of the record is the call that holds its lock, and writes what it
read with its own host's note changed. -/
structure Sound (state : State) : Prop where
  owns : ∀ job this, state.jobs job = some this → this.stage.held = true →
    state.lock.exclusive = some job
  loaded : ∀ job this data, state.jobs job = some this → this.stage = .saving data →
    data = state.record
  fresh : ∀ job, state.next ≤ job → state.jobs job = none

variable {state next : State} {job other : Nat} {this : Job} {fails : Bool} {stage : Stage}
  {happened : List Happening} {happening : Happening} {one : Str × Entry}

theorem held_of_saving {data : Record} (isStage : stage = .saving data) : stage.held := by
  rw [isStage]
  rfl

theorem standing_append : standing (happened ++ [happening]) = track (standing happened) happening :=
  foldl_append

/-! ### One writer at a time -/

structure Moves (job : Nat) (this : Job) (state next : State) : Prop where
  jobs : ∀ other, other ≠ job → next.jobs other = state.jobs other
  lock : ∀ other, other ≠ job → state.lock.exclusive = some other → next.lock.exclusive = some other
  record : next.record = state.record ∨ this.stage.held = true
  sameNext : next.next = state.next
  owns : ∀ after, next.jobs job = some after → after.stage.held = true →
    next.lock.exclusive = some job
  loaded : ∀ after data, next.jobs job = some after → after.stage = .saving data →
    data = next.record

theorem Moves.goes {after : Job} (jobs : next.jobs = state.jobs) (sameNext : next.next = state.next)
    (lock : ∀ other, other ≠ job → state.lock.exclusive = some other →
      next.lock.exclusive = some other)
    (record : next.record = state.record ∨ this.stage.held)
    (owns : after.stage.held → next.lock.exclusive = some job)
    (loaded : ∀ data, after.stage = .saving data → data = next.record) :
    Moves job this state (next.setJob job after) where
  jobs other isOther := (update_of_ne isOther _ _).trans (congrFun jobs other)
  lock := lock
  record := record
  sameNext := sameNext
  owns one isOne held := by
    rw [State.setJob_job, Option.some_inj] at isOne
    subst isOne
    exact owns held
  loaded one data isOne isStage := by
    rw [State.setJob_job, Option.some_inj] at isOne
    subst isOne
    exact loaded data isStage

theorem Moves.stops (jobs : next.jobs = state.jobs) (sameNext : next.next = state.next)
    (lock : ∀ other, other ≠ job → state.lock.exclusive = some other →
      next.lock.exclusive = some other)
    (record : next.record = state.record) : Moves job this state (next.ends job) where
  jobs other isOther := (update_of_ne isOther _ _).trans (congrFun jobs other)
  lock := lock
  record := .inl record
  sameNext := sameNext
  owns one isOne := by
    rw [State.ends_job] at isOne
    cases isOne
  loaded one data isOne := by
    rw [State.ends_job] at isOne
    cases isOne

theorem Moves.stays (sound : Sound state) : Moves job this state state where
  jobs _ _ := rfl
  lock _ _ held := held
  record := .inl rfl
  sameNext := rfl
  owns after isAfter held := sound.owns job after isAfter held
  loaded after data isAfter isStage := sound.loaded job after data isAfter isStage

theorem jobStep_moves (sound : Sound state) (isJob : state.jobs job = some this) :
    Moves job this state (jobStep state job this fails) := by
  have owns := sound.owns job this isJob
  have stays := @Moves.stays _ job this sound
  have keeps (other : Nat) (_ : other ≠ job) (held : state.lock.exclusive = some other) :
      state.lock.exclusive = some other := held
  -- A step to a stage at which the record's lock is not held.
  have free {next : State} {stage : Stage} (jobs : next.jobs = state.jobs)
      (sameNext : next.next = state.next) (lock : next.lock = state.lock)
      (record : next.record = state.record) (notHeld : stage.held = false) :
      Moves job this state (next.setJob job { this with stage := stage }) := by
    refine Moves.goes jobs sameNext (fun _ _ held => lock ▸ held) (.inl record)
      (fun held => ?_) fun data isStage => ?_
    · cases notHeld.symm.trans held
    · cases notHeld.symm.trans (held_of_saving isStage)
  obtain ⟨process, hostname, task, stage⟩ := this
  cases stage with
  | noteReading =>
    simp only [jobStep]
    split
    · exact Moves.stops rfl rfl keeps rfl
    · split
      · exact Moves.stops rfl rfl keeps rfl
      · exact free rfl rfl rfl rfl rfl
  | logLocking note =>
    simp only [jobStep]
    split
    · exact Moves.stops rfl rfl keeps rfl
    · split
      · exact stays
      · exact free rfl rfl rfl rfl rfl
  | logLoading note | logSaving note entries =>
    simp only [jobStep]
    split
    · exact free rfl rfl rfl rfl rfl
    · exact free rfl rfl rfl rfl rfl
  | logUnlocking authorised =>
    simp only [jobStep]
    split
    · exact free rfl rfl rfl rfl rfl
    · exact Moves.stops rfl rfl keeps rfl
  | locking =>
    simp only [jobStep]
    split
    · exact Moves.stops rfl rfl keeps rfl
    · split
      · exact stays
      · rename_i lock isLocked
        obtain ⟨isFree, isOwn⟩ := Flock.lockExclusive_some isLocked
        refine Moves.goes rfl rfl (fun other _ held => ?_) (.inl rfl) (fun _ => isOwn)
          fun data isStage => by cases isStage
        cases isFree.symm.trans held
  | loading =>
    have owner := owns rfl
    simp only [jobStep]
    split
    · exact Moves.goes rfl rfl keeps (.inl rfl) (fun _ => owner) nofun
    · split
      · exact Moves.goes rfl rfl keeps (.inl rfl) (fun _ => owner) nofun
      · refine Moves.goes rfl rfl keeps (.inl rfl) (fun _ => owner) fun data isStage => ?_
        cases isStage
        rfl
  | saving data =>
    have owner := owns rfl
    simp only [jobStep]
    split
    · exact Moves.goes rfl rfl keeps (.inl rfl) (fun _ => owner) nofun
    · have written : (writes state ⟨process, hostname, task, .saving data⟩ data).jobs = state.jobs ∧
          (writes state ⟨process, hostname, task, .saving data⟩ data).next = state.next ∧
          (writes state ⟨process, hostname, task, .saving data⟩ data).lock = state.lock := by
        cases task <;> exact ⟨rfl, rfl, rfl⟩
      refine Moves.goes written.1 written.2.1 (fun other _ held => ?_) (.inr rfl)
        (fun _ => ?_) nofun
      · rw [written.2.2]
        exact held
      · rw [written.2.2]
        exact owner
  | unlocking =>
    exact Moves.stops rfl rfl (fun _ isOther held => Flock.unlock_exclusive held isOther) rfl

theorem step_sound (state : State) (event : Event) (sound : Sound state) :
    Sound (step state event) := by
  cases event with
  | calls process hostname task =>
    have old {job : Nat} {this : Job}
        (isJob : (step state (.calls process hostname task)).jobs job = some this)
        (held : this.stage.held = true) : state.jobs job = some this := by
      by_cases isNew : job = state.next
      · subst isNew
        rw [show (step state (.calls process hostname task)).jobs state.next = some _ from
          update_self .., Option.some_inj] at isJob
        subst isJob
        cases task <;> cases held
      · exact (update_of_ne isNew _ _).symm.trans isJob
    refine ⟨fun job this isJob held => sound.owns job this (old isJob held) held,
      fun job this data isJob isStage =>
        sound.loaded job this data (old isJob (held_of_saving isStage)) isStage,
      fun job isLater => ?_⟩
    have isOther : job ≠ state.next := fun same =>
      absurd (same ▸ isLater) (Nat.not_succ_le_self _)
    exact (update_of_ne isOther _ _).trans (sound.fresh job (Nat.le_of_succ_le isLater))
  | goesOn job fails =>
    cases isJob : state.jobs job with
    | none =>
      simp only [step, isJob]
      exact sound
    | some this =>
      have moves := @jobStep_moves _ _ _ fails sound isJob
      simp only [step, isJob]
      constructor
      · intro one other isOther held
        by_cases isOwn : one = job
        · subst isOwn
          exact moves.owns other isOther held
        · rw [moves.jobs one isOwn] at isOther
          exact moves.lock one isOwn (sound.owns one other isOther held)
      · intro one other data isOther isStage
        by_cases isOwn : one = job
        · subst isOwn
          exact moves.loaded other data isOther isStage
        · rw [moves.jobs one isOwn] at isOther
          have isLoaded := sound.loaded one other data isOther isStage
          rcases moves.record with same | held
          · exact isLoaded.trans same.symm
          · -- Both calls would hold the record's lock.
            have isOne := sound.owns one other isOther (held_of_saving isStage)
            cases (sound.owns job this isJob held).symm.trans isOne
            exact absurd rfl isOwn
      · intro one isLater
        rw [moves.sameNext] at isLater
        have isOther : one ≠ job := by
          rintro rfl
          cases (sound.fresh one isLater).symm.trans isJob
        rw [moves.jobs one isOther]
        exact sound.fresh one isLater
  | dies process =>
    have old {job : Nat} {this : Job} (isJob : (die state process).jobs job = some this) :
        state.jobs job = some this ∧ this.process ≠ process := by
      obtain ⟨isOld, stays⟩ := Option.filter_eq_some_iff.mp isJob
      exact ⟨isOld, of_decide_eq_true stays⟩
    refine ⟨fun job this isJob held => ?_, fun job this data isJob => ?_, fun job isLater => ?_⟩
    · obtain ⟨isOld, stays⟩ := old isJob
      refine Flock.drop_exclusive (sound.owns job this isOld held) ?_
      unfold ofProcess
      rw [isOld]
      simpa using stays
    · exact sound.loaded job this data (old isJob).1
    · show (state.jobs job).filter _ = none
      rw [sound.fresh job isLater]
      rfl

/-! ### What a step makes of the programs that stand -/

theorem mem_track (member : one ∈ track (standing happened) happening) :
    one ∈ standing happened ∨
      ∃ hostname entry, happening = .recorded hostname entry ∧ one = (hostname, entry) ∧
        entry.commands ≠ [] := by
  cases happening with
  | recorded hostname entry =>
    simp only [track] at member
    split at member
    · exact .inl member
    · rename_i sends
      rcases mem_cons.mp member with isNew | isOld
      · exact .inr ⟨hostname, entry, rfl, isNew, sends⟩
      · exact .inl isOld
  | authorised hostname entry | dropped hostname entry => exact .inl (mem_filter.mp member).1

theorem standing_sends (member : one ∈ standing happened) : one.2.commands ≠ [] := by
  induction happened using List.reverseRecOn with
  | nil => cases member
  | append_singleton before happening ih =>
    rw [standing_append] at member
    rcases mem_track member with isOld | ⟨hostname, entry, -, isOne, sends⟩
    · exact ih isOld
    · rw [isOne]
      exact sends

theorem jobStep_reads (quiet : this.stage.saves = false ∨ fails) :
    (jobStep state job this fails).record = state.record ∧
      ((jobStep state job this fails).happened = state.happened ∨
        ∃ note, (jobStep state job this fails).happened =
          state.happened ++ [.authorised this.hostname note]) := by
  obtain ⟨process, hostname, task, stage⟩ := this
  cases stage with
  | noteReading | logLocking note | locking | loading =>
    simp only [jobStep]
    split
    · exact ⟨rfl, .inl rfl⟩
    · split <;> exact ⟨rfl, .inl rfl⟩
  | logLoading note | logUnlocking authorised =>
    simp only [jobStep]
    split <;> exact ⟨rfl, .inl rfl⟩
  | logSaving note entries =>
    simp only [jobStep]
    split
    · exact ⟨rfl, .inl rfl⟩
    · exact ⟨rfl, .inr ⟨note, rfl⟩⟩
  | saving data =>
    have isFails : fails := quiet.resolve_left nofun
    subst isFails
    exact ⟨rfl, .inl rfl⟩
  | unlocking => exact ⟨rfl, .inl rfl⟩

section

variable [Unicode]

/-- Every program that stands is refused: of every plan that contains it,
`rolled_back_note` answers a block, read or not. -/
def Blocked (state : State) : Prop :=
  ∀ one ∈ standing state.happened, ∀ (read : Bool) plan sha, programContains plan one.2.commands = true →
    (rolledBackNote (if read then some state.record else none) one.1 (some plan) sha).isSome = true

/-- A call's write spares the block of a program that stands. -/
def Task.spares (task : Task) (note : Option Entry) (entry : Entry) : Bool :=
  match task with
  | .record new => programContains entry.commands new.commands
  | .retry _ _ _ => false
  | .clear => note = some entry

/-- **The condition.** A program is recorded on a host only while every program
that stands there contains it; a retry clears the note only while none stands; a
revert or an override drops it only while none stands but its own. -/
def Keeps (state : State) : Event → Prop
  | .goesOn job false =>
    ∀ this ∈ state.jobs job, this.stage.saves = true →
      ∀ one ∈ standing state.happened, one.1 = this.hostname →
        this.task.spares (state.record this.hostname) one.2 = true
  | _ => True

def Covered (state : State) : Prop :=
  ∀ one ∈ standing state.happened, ∃ entry, state.record one.1 = some entry ∧
    programContains one.2.commands entry.commands = true

theorem blocked_iff_covered : Blocked state ↔ Covered state := by
  constructor
  · intro blocked one member
    exact (refuses_iff (standing_sends member)).mp fun plan sha => blocked one member true plan sha
  · intro covered one member read plan sha inPlan
    cases read with
    | false => rfl
    | true => exact (refuses_iff (standing_sends member)).mpr (covered one member) plan sha inPlan

/-- **A write of the record.** It keeps every program that stands blocked exactly
where it spares those of its own host. -/
theorem covered_writes (covered : Covered state) :
    Covered (writes state this state.record) ↔
      ∀ one ∈ standing state.happened, one.1 = this.hostname →
        this.task.spares (state.record this.hostname) one.2 := by
  have other {one : Str × Entry} {note : Option Entry} (isOther : one.1 ≠ this.hostname) :
      update state.record this.hostname note one.1 = state.record one.1 :=
    update_of_ne isOther _ _
  have own {one : Str × Entry} {note : Option Entry} (isOwn : one.1 = this.hostname) :
      update state.record this.hostname note one.1 = note := by
    rw [isOwn]
    exact update_self ..
  unfold Covered writes
  cases isTask : this.task with
  | record entry =>
    simp only [standing_append, Task.spares]
    constructor
    · intro after one member isOwn
      have stays : one ∈ track (standing state.happened) (.recorded this.hostname entry) := by
        simp only [track]
        split
        · exact member
        · exact .tail _ member
      obtain ⟨note, isNote, contains⟩ := after one stays
      rw [own isOwn, Option.some_inj] at isNote
      rw [isNote]
      exact contains
    · intro spares one member
      by_cases isOwn : one.1 = this.hostname
      · refine ⟨entry, own isOwn, ?_⟩
        rcases mem_track member with isOld | ⟨hostname, new, isNew, isOne, sends⟩
        · exact spares one isOld isOwn
        · cases isNew
          rw [isOne]
          exact programContains_refl sends
      · rcases mem_track member with isOld | ⟨hostname, new, isNew, isOne, -⟩
        · rw [other isOwn]
          exact covered one isOld
        · cases isNew
          exact absurd (congrArg Prod.fst isOne) isOwn
  | retry actor reason at_ =>
    simp only [Task.spares]
    constructor
    · intro after one member isOwn
      obtain ⟨note, isNote, -⟩ := after one member
      rw [own isOwn] at isNote
      cases isNote
    · intro spares one member
      by_cases isOwn : one.1 = this.hostname
      · cases spares one member isOwn
      · rw [other isOwn]
        exact covered one member
  | clear =>
    simp only [Task.spares]
    cases isNote : state.record this.hostname with
    | none =>
      simp only [Option.toList_none, map_nil, append_nil]
      constructor
      · intro _ one member isOwn
        obtain ⟨note, isSome, -⟩ := covered one member
        rw [isOwn, isNote] at isSome
        cases isSome
      · intro spares one member
        by_cases isOwn : one.1 = this.hostname
        · cases of_decide_eq_true (spares one member isOwn)
        · rw [other isOwn]
          exact covered one member
    | some entry =>
      simp only [Option.toList_some, map_cons, map_nil, standing_append, track]
      constructor
      · intro after one member isOwn
        by_cases isDropped : one = (this.hostname, entry)
        · rw [isDropped]
          exact decide_eq_true rfl
        · obtain ⟨note, isSome, -⟩ := after one
            (mem_filter.mpr ⟨member, decide_eq_true isDropped⟩)
          rw [own isOwn] at isSome
          cases isSome
      · intro spares one member
        obtain ⟨isOld, notDropped⟩ := mem_filter.mp member
        by_cases isOwn : one.1 = this.hostname
        · have isEntry := Option.some_inj.mp (of_decide_eq_true (spares one isOld isOwn))
          exact absurd (Prod.ext isOwn isEntry.symm) (of_decide_eq_true notDropped)
        · rw [other isOwn]
          exact covered one isOld

theorem Covered.reads (covered : Covered state) (record : next.record = state.record)
    (happened : next.happened = state.happened ∨
      ∃ hostname note, next.happened = state.happened ++ [.authorised hostname note]) :
    Covered next := by
  have fewer (one : Str × Entry) (member : one ∈ standing next.happened) :
      one ∈ standing state.happened := by
    rcases happened with same | ⟨hostname, note, isAppend⟩
    · rwa [same] at member
    · rw [isAppend, standing_append] at member
      exact (mem_filter.mp member).1
  intro one member
  rw [record]
  exact covered one (fewer one member)

theorem step_covered_iff (state : State) (event : Event) (sound : Sound state)
    (covered : Covered state) : Covered (step state event) ↔ Keeps state event := by
  have quiet {next : State} {event : Event} (record : next.record = state.record)
      (happened : next.happened = state.happened ∨
        ∃ hostname note, next.happened = state.happened ++ [.authorised hostname note])
      (keeps : Keeps state event) : Covered next ↔ Keeps state event :=
    iff_of_true (covered.reads record happened) keeps
  cases event with
  | calls process hostname task | dies process => exact quiet rfl (.inl rfl) trivial
  | goesOn job fails =>
    cases isJob : state.jobs job with
    | none =>
      simp only [step, isJob]
      refine quiet rfl (.inl rfl) ?_
      cases fails with
      | true => trivial
      | false =>
        intro this isThis
        cases isJob.symm.trans isThis
    | some this =>
      simp only [step, isJob]
      by_cases isQuiet : this.stage.saves = false ∨ fails = true
      · obtain ⟨record, happened⟩ := @jobStep_reads state job _ _ isQuiet
        refine quiet record (happened.imp_right fun ⟨note, isNote⟩ => ⟨_, note, isNote⟩) ?_
        cases fails with
        | true => trivial
        | false =>
          intro one isOne saves
          cases isJob.symm.trans isOne
          rcases isQuiet with notSaves | isTrue
          · cases notSaves.symm.trans saves
          · cases isTrue
      · obtain ⟨saves, notFails⟩ := not_or.mp isQuiet
        have isFalse := Bool.not_eq_true _ ▸ notFails
        have saves := Bool.of_not_eq_false saves
        subst isFalse
        -- The data it writes is the record as it stands.
        have isStage : this.stage = .saving state.record := by
          cases isSaving : this.stage with
          | saving data => rw [sound.loaded job this data isJob isSaving]
          | _ =>
            rw [isSaving] at saves
            cases saves
        have isStep : Covered (jobStep state job this false) ↔
            Covered (writes state this state.record) := by
          unfold jobStep
          rw [isStage]
          exact Iff.rfl
        rw [isStep, covered_writes covered]
        constructor
        · intro spares one isOne _
          cases isJob.symm.trans isOne
          exact spares
        · intro keeps
          exact keeps this isJob saves

/-- **A rolled-back program stays blocked.** In every run of calls and process
ends, every program that stands is refused after each step exactly when every
step meets the condition. -/
theorem blocked_iff (events : List Event) :
    Along step (fun state event => Blocked (step state event)) start events ↔
      Along step Keeps start events := by
  have sound : Sound start := by
    constructor
    · intro job this isJob
      cases isJob
    · intro job this data isJob
      cases isJob
    · intro job _
      rfl
  refine Nmas.Log.Machine.along_iff step_sound (fun state event sound blocked => ?_)
    sound fun one member => by cases member
  rw [blocked_iff_covered] at blocked ⊢
  exact step_covered_iff state event sound blocked

end

/-- Two programs of r1 that fail, one after the other. -/
def shutsDown : Entry := ⟨"c1".ascii, ["interface Loopback0".ascii, " shutdown".ascii],
  "2026-10-01T10:00:00Z".ascii, "verify".ascii, "p1".ascii⟩

def renames : Entry := ⟨"c2".ascii, ["hostname r2".ascii], "2026-10-02T10:00:00Z".ascii,
  "verify".ascii, "p2".ascii⟩

def whole (job process : Nat) (task : Task) (steps : Nat) : List Event :=
  .calls process "r1".ascii task :: List.replicate steps (.goesOn job false)

/-- The second program's note takes the first's place. -/
def replaced : List Event := whole 0 1 (.record shutsDown) 4 ++ whole 1 1 (.record renames) 4

/-- The second program is recorded while a retry of the first is being logged. -/
def raced : List Event :=
  whole 0 1 (.record shutsDown) 4 ++ whole 1 2 (.retry "ann".ascii [] []) 5 ++
    whole 2 1 (.record renames) 4 ++ List.replicate 4 (.goesOn 1 false)

theorem unblocked :
    ¬ @Blocked basicLatin (run step start replaced) ∧ ¬ @Blocked basicLatin (run step start raced) := by
  constructor
  · intro blocked
    have isBlocked := @blocked ("r1".ascii, shutsDown) (by decide +kernel) true shutsDown.commands []
      (by decide)
    exact absurd isBlocked (by decide)
  · intro blocked
    have isBlocked := @blocked ("r1".ascii, renames) (by decide +kernel) true renames.commands []
      (by decide +kernel)
    exact absurd isBlocked (by decide)

theorem start_sound : Sound start := by
  constructor
  · intro job this isJob
    cases isJob
  · intro job this data isJob
    cases isJob
  · intro job _
    rfl

/-! ### Serial writes, and the log of retries -/

/-- What a call's write leaves of its host. -/
def Task.note : Task → Option Entry
  | .record entry => some entry
  | _ => none

def Task.retries : Task → Bool
  | .retry _ _ _ => true
  | _ => false

def Recorded (state : State) (this : Job) : Prop :=
  this.task.retries = true → ∃ note, this.row note ∈ state.retryLog

/-- A call writes the log under its lock, from what it read there, and a retry
comes to the record once its row is in the log. -/
def LogKept (state : State) (job : Nat) (this : Job) : Prop :=
  match this.stage with
  | .noteReading | .logLocking _ => True
  | .logLoading _ | .logUnlocking false => state.logLock.exclusive = some job
  | .logSaving _ entries => state.logLock.exclusive = some job ∧ entries = state.retryLog
  | .logUnlocking true => state.logLock.exclusive = some job ∧ Recorded state this
  | .locking | .loading | .saving _ | .unlocking => Recorded state this

structure Logged (state : State) : Prop where
  sound : Sound state
  jobs : ∀ job this, state.jobs job = some this → LogKept state job this

/-- What a call's step leaves of the log to the others. -/
structure Logs (job : Nat) (state next : State) : Prop where
  lock : ∀ other, other ≠ job → state.logLock.exclusive = some other →
    next.logLock.exclusive = some other
  log : next.retryLog = state.retryLog ∨
    state.logLock.exclusive = some job ∧ ∃ row, next.retryLog = state.retryLog ++ [row]
  own : ∀ after, next.jobs job = some after → LogKept next job after

theorem Logs.grows (logs : Logs job state next) : state.retryLog <+: next.retryLog := by
  rcases logs.log with same | ⟨-, row, isNext⟩
  · rw [same]
  · rw [isNext]
    exact prefix_append _ _

theorem Recorded.grows (recorded : Recorded state this) (grows : state.retryLog <+: next.retryLog) :
    Recorded next this := fun retries =>
  (recorded retries).imp fun _ isRow => grows.subset isRow

theorem LogKept.stays (kept : LogKept state other this)
    (lock : state.logLock.exclusive = some other → next.logLock.exclusive = some other ∧
      next.retryLog = state.retryLog)
    (grows : state.retryLog <+: next.retryLog) : LogKept next other this := by
  unfold LogKept at kept ⊢
  split at kept
  · trivial
  · trivial
  · exact (lock kept).1
  · exact (lock kept).1
  · exact ⟨(lock kept.1).1, kept.2.trans (lock kept.1).2.symm⟩
  · exact ⟨(lock kept.1).1, kept.2.grows grows⟩
  all_goals exact kept.grows grows

theorem Logs.leaves (logs : Logs job state next) (isOther : other ≠ job)
    (kept : LogKept state other this) : LogKept next other this := by
  refine kept.stays (fun held => ⟨logs.lock other isOther held, ?_⟩) logs.grows
  rcases logs.log with same | ⟨isOwn, -⟩
  · exact same
  · cases isOwn.symm.trans held
    exact absurd rfl isOther

theorem jobStep_logs (logged : Logged state) (isJob : state.jobs job = some this) :
    Logs job state (jobStep state job this fails) := by
  have kept := logged.jobs job this isJob
  have keeps (other : Nat) (_ : other ≠ job) (held : state.logLock.exclusive = some other) :
      state.logLock.exclusive = some other := held
  have goes {next : State} {stage : Stage} (lock : next.logLock = state.logLock)
      (log : next.retryLog = state.retryLog)
      (after : LogKept next job { this with stage := stage }) :
      Logs job state (next.setJob job { this with stage := stage }) := by
    refine ⟨fun _ _ held => lock ▸ held, .inl log, fun one isOne => ?_⟩
    rw [State.setJob_job] at isOne
    cases isOne
    exact after
  have stops {next : State} (lock : ∀ other, other ≠ job → state.logLock.exclusive = some other →
        next.logLock.exclusive = some other) (log : next.retryLog = state.retryLog) :
      Logs job state (next.ends job) := by
    refine ⟨lock, .inl log, fun one isOne => ?_⟩
    rw [State.ends_job] at isOne
    cases isOne
  obtain ⟨process, hostname, task, stage⟩ := this
  cases stage with
  | noteReading =>
    simp only [jobStep]
    split
    · exact stops keeps rfl
    · split
      · exact stops keeps rfl
      · exact goes rfl rfl trivial
  | logLocking note =>
    simp only [jobStep]
    split
    · exact stops keeps rfl
    · split
      · exact ⟨keeps, .inl rfl, fun after => logged.jobs job after⟩
      · rename_i lock isLocked
        obtain ⟨isFree, isOwn⟩ := Flock.lockExclusive_some isLocked
        refine ⟨fun other _ held => ?_, .inl rfl, fun one isOne => ?_⟩
        · cases isFree.symm.trans held
        · rw [State.setJob_job] at isOne
          cases isOne
          exact isOwn
  | logLoading note =>
    simp only [jobStep]
    split
    · exact goes rfl rfl kept
    · exact goes rfl rfl ⟨kept, rfl⟩
  | logSaving note entries =>
    obtain ⟨isOwn, rfl⟩ := kept
    simp only [jobStep]
    split
    · exact goes rfl rfl isOwn
    · refine ⟨keeps, .inr ⟨isOwn, _, rfl⟩, fun one isOne => ?_⟩
      rw [State.setJob_job] at isOne
      cases isOne
      exact ⟨isOwn, fun _ => ⟨note, mem_append_right _ (.head _)⟩⟩
  | logUnlocking authorised =>
    have unlocks (other : Nat) (isOther : other ≠ job)
        (held : state.logLock.exclusive = some other) :
        (state.logLock.unlock job).exclusive = some other :=
      Flock.unlock_exclusive held isOther
    cases authorised with
    | false => exact stops unlocks rfl
    | true =>
      refine ⟨unlocks, .inl rfl, fun one isOne => ?_⟩
      simp only [jobStep, ↓reduceIte, State.setJob_job] at isOne
      cases isOne
      exact kept.2
  | locking =>
    simp only [jobStep]
    split
    · exact stops keeps rfl
    · split
      · exact ⟨keeps, .inl rfl, fun after => logged.jobs job after⟩
      · exact goes rfl rfl kept
  | loading =>
    simp only [jobStep]
    split
    · exact goes rfl rfl kept
    · split
      · exact goes rfl rfl kept
      · exact goes rfl rfl kept
  | saving data =>
    simp only [jobStep]
    split
    · exact goes rfl rfl kept
    · cases task <;> exact goes rfl rfl kept
  | unlocking => exact stops keeps rfl

theorem step_logged (state : State) (event : Event) (logged : Logged state) :
    Logged (step state event) := by
  refine ⟨step_sound state event logged.sound, fun other this isOther => ?_⟩
  cases event with
  | calls process hostname task =>
    by_cases isNew : other = state.next
    · subst isNew
      rw [show (step state (.calls process hostname task)).jobs state.next = some _ from
        update_self .., Option.some_inj] at isOther
      subst isOther
      cases task with
      | retry actor reason at_ => trivial
      | record entry | clear => exact fun retries => absurd retries Bool.false_ne_true
    · exact logged.jobs other this ((update_of_ne isNew _ _).symm.trans isOther)
  | goesOn job fails =>
    cases isJob : state.jobs job with
    | none =>
      simp only [step, isJob] at isOther ⊢
      exact logged.jobs other this isOther
    | some running =>
      have logs := @jobStep_logs _ _ _ fails logged isJob
      have moves := @jobStep_moves _ _ _ fails logged.sound isJob
      simp only [step, isJob] at isOther ⊢
      by_cases isOwn : other = job
      · subst isOwn
        exact logs.own this isOther
      · rw [moves.jobs other isOwn] at isOther
        exact logs.leaves isOwn (logged.jobs other this isOther)
  | dies process =>
    obtain ⟨isOld, stays⟩ := Option.filter_eq_some_iff.mp isOther
    refine (logged.jobs other this isOld).stays (fun held => ⟨Flock.drop_exclusive held ?_, rfl⟩)
      (prefix_refl _)
    unfold ofProcess
    rw [isOld]
    simpa using stays

/-- What a step may write: the log only grows, and the record is left or is the
write of the call that holds its lock, which sets its own host's note alone, a
retry's once its row is in the log. -/
def Writes (state : State) (event : Event) : Prop :=
  state.retryLog <+: (step state event).retryLog ∧
    ((step state event).record = state.record ∨
      ∃ job this, event = .goesOn job false ∧ state.jobs job = some this ∧
        state.lock.exclusive = some job ∧ Recorded state this ∧
        (step state event).record = update state.record this.hostname this.task.note)

theorem step_writes (state : State) (event : Event) (logged : Logged state) :
    Writes state event := by
  unfold Writes
  cases event with
  | calls process hostname task | dies process => exact ⟨prefix_refl _, .inl rfl⟩
  | goesOn job fails =>
    cases isJob : state.jobs job with
    | none =>
      rw [show step state (.goesOn job fails) = state by simp only [step, isJob]]
      exact ⟨prefix_refl _, .inl rfl⟩
    | some this =>
      rw [show step state (.goesOn job fails) = jobStep state job this fails by
        simp only [step, isJob]]
      refine ⟨(jobStep_logs logged isJob).grows, ?_⟩
      by_cases isQuiet : this.stage.saves = false ∨ fails
      · exact .inl (jobStep_reads isQuiet).1
      · obtain ⟨saves, notFails⟩ := not_or.mp isQuiet
        have isFalse := Bool.not_eq_true _ ▸ notFails
        subst isFalse
        have kept := logged.jobs job this isJob
        obtain ⟨process, hostname, task, stage⟩ := this
        cases stage with
        | saving data =>
          -- The data it writes is the record as it stands.
          cases logged.sound.loaded job _ data isJob rfl
          refine .inr ⟨job, _, rfl, isJob, logged.sound.owns job _ isJob rfl, kept, ?_⟩
          cases task <;> rfl
        | _ => exact absurd rfl saves

/-- **No note is lost, and no block lifted unlogged**, in every run of calls and
process ends. -/
theorem lifts_logged (events : List Event) : Along step Writes start events := by
  refine along_of_keeps step_logged step_writes ⟨start_sound, fun job this isJob => ?_⟩
  cases isJob

end Nmas.Nsot.RolledBack
