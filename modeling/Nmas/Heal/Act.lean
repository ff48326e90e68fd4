import Mathlib.Logic.Function.Basic
import Nmas.Heal.Decisions
import Nmas.Log.Machine
import Nmas.Os.Flock

/-!
Contract: heals' acts and passes, over any number of processes.

Owns: `heal/interrupted.py` (`Mark`, `mark_state`, `find`, `reap`), the locked
`take` and `withdraw` of `heal/decisions.py`, and the course of an act in
`act.run`, `act_one`, `propose.approve` and `decline`, as the steps between
their system calls, each able to fail; and a process that ends at any point.

A job is one call on one thread, and owns the open file and the locks it takes.
A row is appended in one step (`_append`'s own lock). The step log is kept as
the decisions whose `started` row it holds, and of the incidents those closed.

Does not own: what an act reads and sends before its outcome, its records
beside the outcome, and the words of a row.
-/

namespace Nmas.Heal.Act

open Nmas.Text
open Nmas.Os (Flock)
open Function

inductive Caller where
  | actOne
  | run
  | approve
  | decline
deriving DecidableEq

/-- Where an outcome comes from: the act's own `finish`, a job that could not
start, or a proposal declined. -/
inductive Source where
  | finish
  | notStarted
  | declined
deriving DecidableEq

/-- Where an act is: its mark's `acquire`, its take, its work, its outcome, and
its mark's `release`. -/
inductive Stage where
  | opening
  | locking
  | clearing
  | marking
  | waiting
  | reading
  | taking (row : Row)
  | returning
  | starting
  | working
  | applying (outcome : Ended) (source : Source)
  | halting
  | closing (outcome : Ended) (source : Source)
  | emptying
  | unlocking
  | unlinking
  /-- The mark is kept until the process ends. -/
  | kept
deriving DecidableEq

/-- An act: `inode` is the mark's file once it is open, `took` whether its take
is appended, `incident` the taken decision's. -/
structure Acting where
  caller : Caller
  decision : Str
  by_ : Str
  now : Clock
  inode : Nat
  took : Bool
  incident : Str
  stage : Stage
deriving DecidableEq

inductive WithdrawStage where
  | waiting
  | reading
  | withdrawing (row : Row)
deriving DecidableEq

structure Withdrawing where
  decision : Str
  how : WithdrawnHow
  by_ : Str
  now : Clock
  stage : WithdrawStage
deriving DecidableEq

/-- Where a `find` is: each decision it found ended comes with whether its mark
holds a record (`left`). -/
inductive Finding where
  | listing
  | opening (rest : List Str) (ended : List (Str × Bool))
  | probing (decision : Str) (inode : Nat) (rest : List Str) (ended : List (Str × Bool))
  | looking (decision : Str) (inode : Nat) (rest : List Str) (ended : List (Str × Bool))
  | relisting (ended : List (Str × Bool))
  | answered (found : List (Str × Bool))
  | unreadable
deriving DecidableEq

/-- Where a `reap` is: its find, the reap's lock, its find again, and for each
decision found its outcome, its halt, its incident and its mark. -/
inductive ReapStage where
  | finding (find : Finding)
  | waiting
  | checking (find : Finding)
  | recording (found : List (Str × Bool))
  | halting (decision : Str) (left : Bool) (rest : List (Str × Bool))
  | closing (decision : Str) (left : Bool) (rest : List (Str × Bool))
  | unlinking (decision : Str) (rest : List (Str × Bool))
deriving DecidableEq

structure Reaping where
  by_ : Str
  now : Clock
  stage : ReapStage
deriving DecidableEq

inductive Task where
  | act (acting : Acting)
  | withdraw (withdrawing : Withdrawing)
  | find (finding : Finding)
  | reap (reaping : Reaping)
deriving DecidableEq

structure Job where
  process : Nat
  task : Task
deriving DecidableEq

/-- `link` is the mark file of a decision, `record` whether an inode holds one. -/
structure State where
  rows : List Row
  started : List Str
  closed : List Str
  takeLock : Option Nat
  reapLock : Option Nat
  link : Str → Option Nat
  record : Nat → Bool
  lock : Nat → Flock Nat
  inodes : Nat
  jobs : Nat → Option Job
  next : Nat

/-- How a step of a job turns out: what a step of the work is is the work's. -/
inductive Turn where
  | succeeds
  | fails
  | starts
  | ends (outcome : Ended)
  | raises
deriving DecidableEq

inductive Event where
  | act (process : Nat) (caller : Caller) (decision by_ : Str) (now : Clock)
  | withdraw (process : Nat) (decision : Str) (how : WithdrawnHow) (by_ : Str) (now : Clock)
  | find (process : Nat)
  | reap (process : Nat) (by_ : Str) (now : Clock)
  /-- A job takes its next step; a halt it writes has the id drawn. -/
  | goesOn (job : Nat) (turn : Turn) (drawn : Str)
  /-- A row of another kind: a decision, a mark, another halt, a lift. -/
  | writes (row : Row)
  | dies (process : Nat)

namespace State

def setTask (state : State) (job : Nat) (process : Nat) (task : Task) : State :=
  { state with jobs := update state.jobs job (some ⟨process, task⟩) }

def ends (state : State) (job : Nat) : State := { state with jobs := update state.jobs job none }

def append (state : State) (row : Row) : State := { state with rows := state.rows ++ [row] }

def setLock (state : State) (inode : Nat) (lock : Flock Nat) : State :=
  { state with lock := update state.lock inode lock }

def unlock (state : State) (inode job : Nat) : State :=
  state.setLock inode ((state.lock inode).unlock job)

def setRecord (state : State) (inode : Nat) (record : Bool) : State :=
  { state with record := update state.record inode record }

def unlink (state : State) (decision : Str) : State :=
  { state with link := update state.link decision none }

variable {state : State} {job process : Nat} {task : Task}

@[simp] theorem setTask_job : (state.setTask job process task).jobs job = some ⟨process, task⟩ :=
  update_self ..

@[simp] theorem ends_job : (state.ends job).jobs job = none := update_self ..

end State

/-- `os.open(path, O_RDWR | O_CREAT)`: the mark's file, made where there is none. -/
def openMark (state : State) (decision : Str) : State × Nat :=
  match state.link decision with
  | some inode => (state, inode)
  | none =>
    ({ state with
        link := update state.link decision (some state.inodes)
        record := update state.record state.inodes false
        inodes := state.inodes + 1 }, state.inodes)

/-- The outcomes an act's own `finish` records. -/
def mayEnd (started : Bool) : Ended → Bool
  | .refused => true
  | .healed | .symptomRemains | .partlyShown | .rolledBack | .failed => started
  | _ => false

def haltOf (drawn decision : Str) (now : Clock) : Row := .halt ⟨drawn, 14, some decision, now⟩

/-- Where an act's mark goes when its take raises: `act_one` and `decline`
release it whatever happens, `run` and `approve` where the take is refused. -/
def Caller.raised : Caller → Stage
  | .actOne | .decline => .emptying
  | .run | .approve => .kept

/-- Where it goes when what is written after a job could not start raises. -/
def Caller.unwritten : Caller → Stage
  | .run => .kept
  | _ => .emptying

def actStep (state : State) (job process : Nat) (acting : Acting) (turn : Turn) (drawn : Str) :
    State :=
  let goes := fun (state : State) (stage : Stage) =>
    state.setTask job process (.act { acting with stage := stage })
  match acting.stage with
  | .opening =>
    if turn = .fails then state.ends job
    else
      match openMark state acting.decision with
      | (next, inode) =>
        next.setTask job process (.act { acting with inode := inode, stage := .locking })
  | .locking =>
    if turn = .fails then state.ends job
    else
      match (state.lock acting.inode).lockExclusive job with
      | some lock => goes (state.setLock acting.inode lock) .clearing
      | none => state.ends job
  | .clearing =>
    if turn = .fails then goes state .kept
    else goes (state.setRecord acting.inode false) .marking
  | .marking =>
    if turn = .fails then goes state .kept
    else goes (state.setRecord acting.inode true) .waiting
  | .waiting =>
    if turn = .fails then goes state acting.caller.raised
    else
      match state.takeLock with
      | none => goes { state with takeLock := some job } .reading
      | some _ => state
  | .reading =>
    if turn = .fails then goes { state with takeLock := none } acting.caller.raised
    else
      match take acting.decision acting.by_ acting.now state.rows with
      | .ok row => goes state (.taking row)
      | .error _ => goes { state with takeLock := none } .emptying
  | .taking row =>
    if turn = .fails then goes { state with takeLock := none } acting.caller.raised
    else
      { state.append row with takeLock := none }.setTask job process
        (.act { acting with took := true, stage := .returning })
  | .returning =>
    if turn = .fails then goes state acting.caller.raised
    else
      match findDecision state.rows acting.decision with
      | none => goes state .emptying
      | some record =>
        let stage :=
          match acting.caller with
          | .actOne => .working
          | .run | .approve => .starting
          | .decline => .applying .declined .declined
        state.setTask job process (.act { acting with incident := record.incident, stage := stage })
  | .starting =>
    if turn = .fails then goes state (.applying .refused .notStarted) else goes state .working
  | .working =>
    match turn with
    | .succeeds => state
    | .fails => goes state (.applying .refused .finish)
    | .starts => { state with started := state.started ++ [acting.decision] }
    | .ends outcome =>
      if mayEnd (acting.decision ∈ state.started) outcome then
        goes state (.applying outcome .finish)
      else state
    | .raises => goes state .emptying
  | .applying outcome source =>
    if turn = .fails then
      match source with
      | .finish => goes state (.closing outcome .finish)
      | .notStarted => goes state acting.caller.unwritten
      | .declined => goes state .emptying
    else
      let next := state.append (.applied acting.decision ⟨outcome, acting.by_, iso acting.now⟩)
      if outcome = .rolledBack ∨ outcome = .failed then goes next .halting
      else goes next (.closing outcome source)
  | .halting =>
    if turn = .fails then goes state (.closing .failed .finish)
    else
      goes (state.append (haltOf drawn acting.decision acting.now)) (.closing .failed .finish)
  | .closing _ source =>
    if turn = .fails then
      match source with
      | .notStarted => goes state acting.caller.unwritten
      | _ => goes state .emptying
    else goes { state with closed := state.closed ++ [acting.incident] } .emptying
  | .emptying =>
    if turn = .fails then (state.unlock acting.inode job).ends job
    else goes (state.setRecord acting.inode false) .unlocking
  | .unlocking =>
    if turn = .fails then (state.unlock acting.inode job).ends job
    else goes (state.unlock acting.inode job) .unlinking
  | .unlinking =>
    if turn = .fails then state.ends job else (state.unlink acting.decision).ends job
  | .kept => state

/-- `withdraw`'s step. -/
def withdrawStep (state : State) (job process : Nat) (withdrawing : Withdrawing) (turn : Turn) :
    State :=
  let goes := fun (state : State) (stage : WithdrawStage) =>
    state.setTask job process (.withdraw { withdrawing with stage := stage })
  match withdrawing.stage with
  | .waiting =>
    if turn = .fails then state.ends job
    else
      match state.takeLock with
      | none => goes { state with takeLock := some job } .reading
      | some _ => state
  | .reading =>
    if turn = .fails then { state with takeLock := none }.ends job
    else
      match withdraw withdrawing.decision withdrawing.how withdrawing.by_ withdrawing.now
          state.rows with
      | .ok row => goes state (.withdrawing row)
      | .error _ => { state with takeLock := none }.ends job
  | .withdrawing row =>
    if turn = .fails then { state with takeLock := none }.ends job
    else { state.append row with takeLock := none }.ends job

def openTakes (rows : List Row) : List Str :=
  ((decisions rows).filter (fun record =>
    (record.outcome = .heal ∨ record.outcome = .propose) ∧ record.taken.isSome ∧
      record.applied.isNone)).map (·.id)

/-- `find`'s step; the probe of a mark (`mark_state`) opens its file, locks it
shared where no act has it, and reads it. -/
def findStep (state : State) (job : Nat) (finding : Finding) (turn : Turn) : State × Finding :=
  match finding with
  | .listing => if turn = .fails then (state, .unreadable) else (state, .opening (openTakes state.rows) [])
  | .opening [] ended => (state, if ended = [] then .answered [] else .relisting ended)
  | .opening (decision :: rest) ended =>
    if turn = .fails then (state, .unreadable)
    else
      match state.link decision with
      | none => (state, .opening rest (ended ++ [(decision, false)]))
      | some inode => (state, .probing decision inode rest ended)
  | .probing decision inode rest ended =>
    if turn = .fails then (state, .unreadable)
    else
      match (state.lock inode).lockShared job with
      | some lock => (state.setLock inode lock, .looking decision inode rest ended)
      | none => (state, .opening rest ended)
  | .looking decision inode rest ended =>
    if turn = .fails then (state.unlock inode job, .unreadable)
    else
      (state.unlock inode job, .opening rest (ended ++ [(decision, state.record inode)]))
  | .relisting ended =>
    if turn = .fails then (state, .unreadable)
    else (state, .answered (ended.filter (fun found => found.1 ∈ openTakes state.rows)))
  | .answered found => (state, .answered found)
  | .unreadable => (state, .unreadable)

def incidentOf (rows : List Row) (decision : Str) : Str :=
  ((findDecision rows decision).map (fun record => record.incident)).getD []

/-- `reap`'s step. Where the outcome is written, `raises` is a step log that
cannot be read. -/
def reapStep (state : State) (job process : Nat) (reaping : Reaping) (turn : Turn) (drawn : Str) :
    State :=
  let goes := fun (state : State) (stage : ReapStage) =>
    state.setTask job process (.reap { reaping with stage := stage })
  match reaping.stage with
  | .finding (.answered found) => if found = [] then state.ends job else goes state .waiting
  | .finding .unreadable => state.ends job
  | .finding finding =>
    match findStep state job finding turn with
    | (next, finding) => goes next (.finding finding)
  | .waiting =>
    if turn = .fails then state.ends job
    else
      match state.reapLock with
      | none => goes { state with reapLock := some job } (.checking .listing)
      | some _ => state
  | .checking (.answered found) => goes state (.recording found)
  | .checking .unreadable => { state with reapLock := none }.ends job
  | .checking finding =>
    match findStep state job finding turn with
    | (next, finding) => goes next (.checking finding)
  | .recording [] => { state with reapLock := none }.ends job
  | .recording ((decision, left) :: rest) =>
    if turn = .fails then goes state (.recording rest)
    else
      let next := state.append (.applied decision ⟨.interrupted, reaping.by_, iso reaping.now⟩)
      if decision ∈ state.started ∨ turn = .raises then goes next (.halting decision left rest)
      else goes next (.closing decision left rest)
  | .halting decision left rest =>
    if turn = .fails then goes state (.recording rest)
    else
      goes (state.append (haltOf drawn decision reaping.now)) (.closing decision left rest)
  | .closing decision left rest =>
    if turn = .fails then goes state (.recording rest)
    else
      let next := { state with closed := state.closed ++ [incidentOf state.rows decision] }
      if left then goes next (.unlinking decision rest) else goes next (.recording rest)
  | .unlinking decision rest =>
    if turn = .fails then goes state (.recording rest)
    else goes (state.unlink decision) (.recording rest)

def ofProcess (state : State) (process job : Nat) : Bool :=
  (state.jobs job).any (fun job => job.process = process)

/-- A process ends: its jobs stop, and the kernel gives up its locks. -/
def die (state : State) (process : Nat) : State :=
  { state with
    takeLock := state.takeLock.filter (fun job => !ofProcess state process job)
    reapLock := state.reapLock.filter (fun job => !ofProcess state process job)
    lock := fun inode => (state.lock inode).drop (ofProcess state process)
    jobs := fun job => (state.jobs job).filter (fun job => job.process ≠ process) }

def begins (state : State) (process : Nat) (task : Task) : State :=
  { state with
    jobs := update state.jobs state.next (some ⟨process, task⟩)
    next := state.next + 1 }

def step (state : State) : Event → State
  | .act process caller decision by_ now =>
    begins state process (.act ⟨caller, decision, by_, now, 0, false, [], .opening⟩)
  | .withdraw process decision how by_ now =>
    begins state process (.withdraw ⟨decision, how, by_, now, .waiting⟩)
  | .find process => begins state process (.find .listing)
  | .reap process by_ now => begins state process (.reap ⟨by_, now, .finding .listing⟩)
  | .goesOn job turn drawn =>
    match state.jobs job with
    | none => state
    | some ⟨process, .act acting⟩ => actStep state job process acting turn drawn
    | some ⟨process, .withdraw withdrawing⟩ => withdrawStep state job process withdrawing turn
    | some ⟨process, .find finding⟩ =>
      match findStep state job finding turn with
      | (next, finding) => next.setTask job process (.find finding)
    | some ⟨process, .reap reaping⟩ => reapStep state job process reaping turn drawn
  | .writes row =>
    match row with
    | .decision _ | .mark _ _ | .halt _ | .lift _ => state.append row
    | _ => state
  | .dies process => die state process

/-- No job runs yet: the record, the step log, the incidents and the marks an
earlier run left. -/
def begin_ (rows : List Row) (started closed : List Str) (link : Str → Option Nat)
    (record : Nat → Bool) (inodes : Nat) : State :=
  ⟨rows, started, closed, none, none, link, record, fun _ => Flock.free, inodes, fun _ => none, 0⟩

end Nmas.Heal.Act
