import Mathlib.Algebra.Order.Ring.Rat
import Mathlib.Logic.Function.Basic
import Nmas.Log.Machine
import Nmas.Os.Flock
import Nmas.Text.Unicode

/-!
Contract: one press, one provider request.

Owns: `ai/presses.py`: a slot's claim, marker and release, `_prune`,
`_done_call`, and `once` as the steps between its system calls, over any number
of processes; and a process that ends at any point.

A job is one call of `once`. What `make` does, the row a join reads and the wait
a claim bears are the step's own outcome. A slot is named by what its name
digests; a request by its digest.

Does not own: `request_digest`, the refusals' rows, the files a marker's write
leaves beside it, and a marker that cannot be read.
-/

namespace Nmas.Ai.Presses

open Nmas.Text
open Nmas.Os (Flock)
open Function

abbrev Clock := ℚ

/-- An actor's press key, for its n-th call. -/
structure Key where
  actor : Str
  key : Str
  call : Nat
deriving DecidableEq

inductive Slot where
  | key (key : Key)
  | req (digest : Str)
deriving DecidableEq

/-- What a slot's marker says; a call's id is empty where the call has none. -/
inductive Marker where
  | running
  | done (call scope : Str)
deriving DecidableEq

def doneCall (marker : Option Marker) : Option Str :=
  match marker with
  | some (.done call _) => if call = [] then none else some call
  | _ => none

inductive File where
  | lock (slot : Slot)
  | marker (slot : Slot)
deriving DecidableEq

/-- Where a call of `once` is. -/
inductive Stage where
  | keyOpening
  | keyLocking (waited : Bool)
  | keyReading
  | keyJoining (call : Str)
  | reqOpening
  | reqLocking (waited : Bool)
  | reqReading
  | reqJoining (call : Str)
  | keyJoined (call : Str)
  | marking
  | keyMarking
  | making
  | marked (call : Str)
  | keyMarked (call : Str)
  | releasing
  | keyReleasing
  | pruning (now : Clock)
  | unlinking (now : Clock) (file : File)
deriving DecidableEq

/-- A call of `once`: its press's key where it has one, its request's digest, the
access scope, and the lock files once they are open. -/
structure Press where
  process : Nat
  mine : Option Key
  digest : Str
  scope : Str
  mineFile : Nat
  sameFile : Nat
  stage : Stage
deriving DecidableEq

/-- `created` is a lock file's time, `made` the keys of the presses whose `make`
completed. -/
structure State where
  now : Clock
  link : Slot → Option Nat
  created : Nat → Clock
  marker : Slot → Option (Marker × Clock)
  lock : Nat → Flock (Nat × Slot)
  inodes : Nat
  jobs : Nat → Option Press
  next : Nat
  made : List Key

/-- How a step turns out; `late` is a claim past its wait. -/
inductive Turn where
  | succeeds
  | fails
  | late
  | makes (call : Str)
deriving DecidableEq

inductive Event where
  | once (process : Nat) (mine : Option Key) (digest scope : Str)
  | goesOn (job : Nat) (turn : Turn)
  /-- A pruning job looks at a file's time. -/
  | checks (job : Nat) (file : File)
  | clock (now : Clock)
  | dies (process : Nat)

def keepS : Clock := 24 * 3600

namespace State

def setPress (state : State) (job : Nat) (press : Press) : State :=
  { state with jobs := update state.jobs job (some press) }

def ends (state : State) (job : Nat) : State := { state with jobs := update state.jobs job none }

def setLock (state : State) (file : Nat) (lock : Flock (Nat × Slot)) : State :=
  { state with lock := update state.lock file lock }

/-- `write_atomic` of a slot's marker. -/
def mark (state : State) (slot : Slot) (marker : Marker) : State :=
  { state with marker := update state.marker slot (some (marker, state.now)) }

def time (state : State) : File → Option Clock
  | .lock slot => (state.link slot).map state.created
  | .marker slot => (state.marker slot).map Prod.snd

def unlink (state : State) : File → State
  | .lock slot => { state with link := update state.link slot none }
  | .marker slot => { state with marker := update state.marker slot none }

variable {state : State} {job : Nat} {press : Press}

@[simp] theorem setPress_job : (state.setPress job press).jobs job = some press := update_self ..

@[simp] theorem ends_job : (state.ends job).jobs job = none := update_self ..

end State

/-- `os.open(base + ".lock", O_RDWR | O_CREAT)`. -/
def openLock (state : State) (slot : Slot) : State × Nat :=
  match state.link slot with
  | some file => (state, file)
  | none =>
    ({ state with
        link := update state.link slot (some state.inodes)
        created := update state.created state.inodes state.now
        inodes := state.inodes + 1 }, state.inodes)

def Press.left (press : Press) (now : Clock) : Stage :=
  if press.mine.isSome then .keyReleasing else .pruning now

/-- A step of `once`. -/
def pressStep (state : State) (job : Nat) (press : Press) (turn : Turn) : State :=
  let goes := fun (state : State) (stage : Stage) =>
    state.setPress job { press with stage := stage }
  let left := press.left state.now
  match press.stage, press.mine with
  | .keyOpening, some mine =>
    if turn = .fails then goes state (.pruning state.now)
    else
      match openLock state (.key mine) with
      | (next, file) =>
        next.setPress job { press with mineFile := file, stage := .keyLocking false }
  | .keyLocking waited, some mine =>
    match (state.lock press.mineFile).lockExclusive (job, .key mine) with
    | some lock => goes (state.setLock press.mineFile lock) .keyReading
    | none =>
      if turn = .late ∧ waited then goes state (.pruning state.now)
      else goes state (.keyLocking true)
  | .keyReading, some mine =>
    match state.marker (.key mine) with
    | some (.done call scope, _) =>
      if call = [] then goes state .reqOpening
      else if scope ≠ press.scope then goes state .keyReleasing
      else goes state (.keyJoining call)
    | _ => goes state .reqOpening
  | .keyJoining _, _ => if turn = .fails then goes state .reqOpening else goes state .keyReleasing
  | .reqOpening, _ =>
    if turn = .fails then goes state left
    else
      match openLock state (.req press.digest) with
      | (next, file) =>
        next.setPress job { press with sameFile := file, stage := .reqLocking false }
  | .reqLocking waited, _ =>
    match (state.lock press.sameFile).lockExclusive (job, .req press.digest) with
    | some lock =>
      goes (state.setLock press.sameFile lock) (if waited then .reqReading else .marking)
    | none =>
      if turn = .late ∧ waited then goes state left else goes state (.reqLocking true)
  | .reqReading, _ =>
    match doneCall ((state.marker (.req press.digest)).map Prod.fst) with
    | some call => goes state (.reqJoining call)
    | none => goes state .marking
  | .reqJoining call, _ =>
    if turn = .fails then goes state .marking else goes state (.keyJoined call)
  | .keyJoined call, some mine =>
    if turn = .fails then goes state .releasing
    else goes (state.mark (.key mine) (.done call press.scope)) .releasing
  | .keyJoined _, none => goes state .releasing
  | .marking, _ =>
    if turn = .fails then goes state .releasing
    else goes (state.mark (.req press.digest) .running) .keyMarking
  | .keyMarking, some mine =>
    if turn = .fails then goes state .releasing else goes (state.mark (.key mine) .running) .making
  | .keyMarking, none => goes state .making
  | .making, _ =>
    match turn with
    | .makes call =>
      goes { state with made := state.made ++ press.mine.toList } (.marked call)
    | .fails => goes state .releasing
    | _ => state
  | .marked call, _ =>
    if turn = .fails then goes state .releasing
    else goes (state.mark (.req press.digest) (.done call [])) (.keyMarked call)
  | .keyMarked call, some mine =>
    if turn = .fails then goes state .releasing
    else goes (state.mark (.key mine) (.done call press.scope)) .releasing
  | .keyMarked _, none => goes state .releasing
  | .releasing, _ =>
    goes (state.setLock press.sameFile
      ((state.lock press.sameFile).unlock (job, .req press.digest))) left
  | .keyReleasing, some mine =>
    goes (state.setLock press.mineFile
      ((state.lock press.mineFile).unlock (job, .key mine))) (.pruning state.now)
  | .pruning _, _ => state.ends job
  | .unlinking now file, _ => goes (state.unlink file) (.pruning now)
  | .keyOpening, none | .keyLocking _, none | .keyReading, none | .keyReleasing, none => state

/-- A pruning job finds a file older than `KEEP_S`. -/
def checkStep (state : State) (job : Nat) (press : Press) (file : File) : State :=
  match press.stage with
  | .pruning now =>
    if (state.time file).any (fun time => keepS < now - time) then
      state.setPress job { press with stage := .unlinking now file }
    else state
  | _ => state

def ofProcess (state : State) (process : Nat) (owner : Nat × Slot) : Bool :=
  (state.jobs owner.1).any (fun press => press.process = process)

/-- A process ends: its jobs stop, and the kernel gives up its locks. -/
def die (state : State) (process : Nat) : State :=
  { state with
    lock := fun file => (state.lock file).drop (ofProcess state process)
    jobs := fun job => (state.jobs job).filter (fun press => press.process ≠ process) }

def step (state : State) : Event → State
  | .once process mine digest scope =>
    let first := if mine.isSome then Stage.keyOpening else .reqOpening
    { state with
      jobs := update state.jobs state.next (some ⟨process, mine, digest, scope, 0, 0, first⟩)
      next := state.next + 1 }
  | .goesOn job turn =>
    match state.jobs job with
    | some press => pressStep state job press turn
    | none => state
  | .checks job file =>
    match state.jobs job with
    | some press => checkStep state job press file
    | none => state
  | .clock now => { state with now := now }
  | .dies process => die state process

/-- No job runs yet: the slots an earlier run left. -/
def begin_ (now : Clock) (link : Slot → Option Nat) (created : Nat → Clock)
    (marker : Slot → Option (Marker × Clock)) (inodes : Nat) : State :=
  ⟨now, link, created, marker, fun _ => Flock.free, inodes, fun _ => none, 0, []⟩

end Nmas.Ai.Presses
