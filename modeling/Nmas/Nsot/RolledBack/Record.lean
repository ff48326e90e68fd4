import Mathlib.Logic.Function.Basic
import Nmas.Log.Machine
import Nmas.Nsot.Program
import Nmas.Os.Flock

/-!
Contract: the notes rolled-back programs leave, the plans they refuse, and the
record of them as its writers change it.

Owns: `deploy.program_lines` and `program_contains`, a preorder on programs with
commands; a note of `hostvars.record_rolled_back` and `rolled_back_note`;
`record_rolled_back`, `authorise_retry` and `clear_rolled_back` as the steps
between their locks, reads and writes, over any number of threads and
processes; and a process that ends at any point.

A job is one call. A lock is a `PathLock`: the thread waits for it. A write is
`write_atomic`, or the records database's save: it lands whole or fails. A read
that fails is an unreadable record.

Does not own: the copies of a damaged file, and the messages of a refusal.
-/

namespace Nmas.Nsot.RolledBack

open Nmas.Text
open Nmas.Nsot.IfNames

/-- A host's note in `.nsot/rolled_back.json`. -/
structure Entry where
  intentCommit : Str
  commands : List Str
  at_ : Str
  reason : Str
  pipelineId : Str
deriving DecidableEq

abbrev Record := Str → Option Entry

/-- What `rolled_back_note` answers where a block stands. -/
inductive Note where
  /-- The record could not be read. -/
  | unreadable
  | entry (entry : Entry)
deriving DecidableEq

variable [Unicode]

/-- The loop of `program_lines`: the lines still open, innermost first. -/
def linesFrom (chain : List Str) : List Str → List Key
  | [] => []
  | raw :: rest =>
    let line := rstrip raw
    if strip line = [] then linesFrom chain rest
    else if isControl line then linesFrom chain.tail rest
    else
      let above := chain.dropWhile (fun header => indentOf line ≤ indentOf header)
      ((above.reverse).map canonicaliseLine, canonicaliseLine line) ::
        linesFrom (line :: above) rest

def programLines (commands : List Str) : List Key := linesFrom [] commands

def programContains (newCommands failedCommands : List Str) : Bool :=
  failedCommands ≠ [] ∧ programLines failedCommands ⊆ programLines newCommands

/-- `rolled_back_note`, of the record as it was read (nothing where it cannot be)
and of the newest commit of the host's intent. -/
def rolledBackNote (data : Option Record) (hostname : Str) (currentCommands : Option (List Str))
    (currentSha : Str) : Option Note :=
  match data with
  | none => some .unreadable
  | some data =>
    match data hostname with
    | none => none
    | some entry =>
      match currentCommands with
      | none => some (.entry entry)
      | some current =>
        if entry.commands ≠ [] then
          if programContains current entry.commands then some (.entry entry) else none
        else if currentSha ≠ [] ∧ currentSha ≠ entry.intentCommit then none
        else some (.entry entry)

theorem programContains_iff {new failed : List Str} : programContains new failed ↔
    failed ≠ [] ∧ programLines failed ⊆ programLines new := by
  unfold programContains
  exact decide_eq_true_iff

theorem programContains_refl {commands : List Str} (sends : commands ≠ []) :
    programContains commands commands :=
  programContains_iff.mpr ⟨sends, .refl _⟩

theorem programContains_trans {one two three : List Str} (first : programContains one two)
    (second : programContains two three) : programContains one three := by
  rw [programContains_iff] at first second ⊢
  exact ⟨second.1, List.Subset.trans second.2 first.2⟩

/-- **What a note refuses.** A host's plans that contain a program are all refused,
whatever its intent's newest commit, exactly where its note names a program that
one contains. -/
theorem refuses_iff {data : Record} {hostname : Str} {commands : List Str} (sends : commands ≠ []) :
    (∀ plan sha, programContains plan commands →
      (rolledBackNote (some data) hostname (some plan) sha).isSome) ↔
    ∃ entry, data hostname = some entry ∧ programContains commands entry.commands := by
  unfold rolledBackNote
  constructor
  · intro refuses
    -- The program itself is a plan; a commit no note names is one too.
    have own (sha : Str) := refuses commands sha (programContains_refl sends)
    cases isEntry : data hostname with
    | none =>
      simp only [isEntry] at own
      cases own []
    | some entry =>
      refine ⟨entry, rfl, ?_⟩
      simp only [isEntry] at own
      by_cases isNil : entry.commands = []
      · have other : entry.intentCommit ++ ['0'] ≠ [] ∧
            entry.intentCommit ++ ['0'] ≠ entry.intentCommit := by simp
        have answer := own (entry.intentCommit ++ ['0'])
        rw [if_neg (not_not.mpr isNil), if_pos other] at answer
        cases answer
      · have answer := own []
        rw [if_pos isNil] at answer
        split at answer
        · assumption
        · cases answer
  · rintro ⟨entry, isEntry, contained⟩ plan sha inPlan
    have notNil := (programContains_iff.mp contained).1
    simp only [isEntry]
    rw [if_pos notNil, if_pos (programContains_trans inPlan contained)]
    rfl

end Nmas.Nsot.RolledBack

namespace Nmas.Nsot.RolledBack

open Nmas.Text
open Nmas.Os (Flock)
open Function

structure Retry where
  device : Str
  actor : Str
  reason : Str
  at_ : Str
  note : Entry
deriving DecidableEq

inductive Task where
  /-- `record_rolled_back`. -/
  | record (entry : Entry)
  /-- `authorise_retry`. -/
  | retry (actor reason at_ : Str)
  /-- `clear_rolled_back`, for a revert or an override. -/
  | clear
deriving DecidableEq

/-- Where a call is: a retry reads the note and logs it first, and then clears
the record as `clear_rolled_back` does. -/
inductive Stage where
  | noteReading
  | logLocking (note : Entry)
  | logLoading (note : Entry)
  | logSaving (note : Entry) (entries : List Retry)
  | logUnlocking (authorised : Bool)
  | locking
  | loading
  | saving (data : Record)
  | unlocking

structure Job where
  process : Nat
  hostname : Str
  task : Task
  stage : Stage

/-- What came of a program: it was recorded, a retry of it was authorised, or its
note was dropped for a revert or an override. -/
inductive Happening where
  | recorded (hostname : Str) (entry : Entry)
  | authorised (hostname : Str) (entry : Entry)
  | dropped (hostname : Str) (entry : Entry)

/-- `happened` is what has happened so far, oldest first. -/
structure State where
  record : Record
  retryLog : List Retry
  lock : Flock Nat
  logLock : Flock Nat
  jobs : Nat → Option Job
  next : Nat
  happened : List Happening

inductive Event where
  | calls (process : Nat) (hostname : Str) (task : Task)
  /-- A job takes its next step, or what the step asks of the system fails. -/
  | goesOn (job : Nat) (fails : Bool)
  | dies (process : Nat)

namespace State

def setJob (state : State) (job : Nat) (this : Job) : State :=
  { state with jobs := update state.jobs job (some this) }

def ends (state : State) (job : Nat) : State := { state with jobs := update state.jobs job none }

variable {state : State} {job : Nat} {this : Job}

@[simp] theorem setJob_job : (state.setJob job this).jobs job = some this := update_self ..

@[simp] theorem ends_job : (state.ends job).jobs job = none := update_self ..

end State

/-- What a call writes of its host, and what has then happened. -/
def writes (state : State) (this : Job) (data : Record) : State :=
  match this.task with
  | .record entry =>
    { state with
      record := update data this.hostname (some entry)
      happened := state.happened ++ [.recorded this.hostname entry] }
  | .retry _ _ _ => { state with record := update data this.hostname none }
  | .clear =>
    { state with
      record := update data this.hostname none
      happened := state.happened ++
        (data this.hostname).toList.map (fun entry => .dropped this.hostname entry) }

def Job.row (this : Job) (note : Entry) : Retry :=
  match this.task with
  | .retry actor reason at_ => ⟨this.hostname, actor, reason, at_, note⟩
  | _ => ⟨this.hostname, [], [], [], note⟩

/-- A call that finds no note of its host writes nothing, unless it records one. -/
def Job.leaves (this : Job) (data : Record) : Bool :=
  match this.task with
  | .record _ => false
  | _ => data this.hostname = none

def jobStep (state : State) (job : Nat) (this : Job) (fails : Bool) : State :=
  let goes := fun (state : State) (stage : Stage) => state.setJob job { this with stage := stage }
  match this.stage with
  | .noteReading =>
    if fails then state.ends job
    else
      match state.record this.hostname with
      | none => state.ends job
      | some note => goes state (.logLocking note)
  | .logLocking note =>
    if fails then state.ends job
    else
      match state.logLock.lockExclusive job with
      | none => state
      | some lock => goes { state with logLock := lock } (.logLoading note)
  | .logLoading note =>
    if fails then goes state (.logUnlocking false) else goes state (.logSaving note state.retryLog)
  | .logSaving note entries =>
    if fails then goes state (.logUnlocking false)
    else
      goes { state with
        retryLog := entries ++ [this.row note]
        happened := state.happened ++ [.authorised this.hostname note] } (.logUnlocking true)
  | .logUnlocking authorised =>
    let state := { state with logLock := state.logLock.unlock job }
    if authorised then goes state .locking else state.ends job
  | .locking =>
    if fails then state.ends job
    else
      match state.lock.lockExclusive job with
      | none => state
      | some lock => goes { state with lock := lock } .loading
  | .loading =>
    if fails then goes state .unlocking
    else if this.leaves state.record then goes state .unlocking
    else goes state (.saving state.record)
  | .saving data => if fails then goes state .unlocking else goes (writes state this data) .unlocking
  | .unlocking => { state with lock := state.lock.unlock job }.ends job

def ofProcess (state : State) (process job : Nat) : Bool :=
  (state.jobs job).any (fun this => this.process = process)

/-- A process ends: its calls stop, and the kernel gives up its locks. -/
def die (state : State) (process : Nat) : State :=
  { state with
    lock := state.lock.drop (ofProcess state process)
    logLock := state.logLock.drop (ofProcess state process)
    jobs := fun job => (state.jobs job).filter (fun this => this.process ≠ process) }

def step (state : State) : Event → State
  | .calls process hostname task =>
    let first := match task with
      | .retry _ _ _ => Stage.noteReading
      | _ => .locking
    { state with
      jobs := update state.jobs state.next (some ⟨process, hostname, task, first⟩)
      next := state.next + 1 }
  | .goesOn job fails =>
    match state.jobs job with
    | some this => jobStep state job this fails
    | none => state
  | .dies process => die state process

/-- No record is written yet, and no call runs. -/
def start : State := ⟨fun _ => none, [], Flock.free, Flock.free, fun _ => none, 0, []⟩

end Nmas.Nsot.RolledBack
