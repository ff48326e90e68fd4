import Mathlib.Logic.Function.Basic
import Mathlib.Data.Option.Basic

/-!
Contract: the lock of a path across threads and processes.

Owns: `PathLock` of `filestore.py`: its registry of re-entrant locks, each thread's held slots,
each instance's stacks, and the exclusive `flock` of the lock file; and, over every interleaving
of enters and exits, that one thread at most holds a path.

A thread goes from one lock it may wait for to the next in one step; what is in between is its
own. `__exit__` gives up the file lock and the re-entrant lock also where `flock` or `close`
raises.

Does not own: a path that cannot be computed (nothing is taken yet), and forks.
-/

namespace Nmas.Filestore

abbrev Path := List Char

structure Thread where
  process : Nat
  id : Nat
deriving DecidableEq

/-- An open file description of a lock file. -/
structure File where
  thread : Thread
  serial : Nat
deriving DecidableEq

/-- `[depth, rlock, fd]`; no `fd` where `fcntl` cannot be imported. -/
structure Slot where
  depth : Nat
  rlock : Nat
  file : Option File
deriving DecidableEq

/-- Where a thread is in `__enter__` or `__exit__`. -/
inductive Phase where
  | idle
  | acquiring (inst : Nat) (path : Path) (rlock : Nat) (nested : Bool)
  | opening (inst : Nat) (path : Path) (rlock : Nat)
  | flocking (inst : Nat) (path : Path) (rlock : Nat) (file : File)
  | releasing (path : Path) (rlock : Nat)
deriving DecidableEq

/-- How a call goes: it returns, it raises (an `Exception` or what is none, and `os.close`
behind it raises or not), or `fcntl` is not there. -/
inductive Turn where
  | goes
  | raises (isException closes : Bool)
  | noFcntl
deriving DecidableEq

inductive Event where
  | enters (thread : Thread) (inst : Nat) (path : Path)
  | goesOn (thread : Thread) (turn : Turn)
  | exits (thread : Thread) (inst : Nat)
deriving DecidableEq

def Event.thread : Event → Thread
  | .enters thread _ _ | .goesOn thread _ | .exits thread _ => thread

/-- `registry` is `_registry` of each process, `rlocks` each `RLock`'s owner and count, `flock`
the open file that holds the lock file of a path. -/
structure State where
  registry : Nat → Path → Option Nat
  rlocks : Nat → Option (Thread × Nat)
  flock : Path → Option File
  table : Thread → Path → Option Slot
  entered : Thread → Nat → List Path
  phase : Thread → Phase
  next : Nat

def State.initial : State :=
  ⟨fun _ _ => none, fun _ => none, fun _ => none, fun _ _ => none, fun _ _ => [], fun _ => .idle, 0⟩

/-! ### A re-entrant lock -/

/-- `RLock.acquire`; nothing where it would block. -/
def acquire (lock : Option (Thread × Nat)) (thread : Thread) : Option (Thread × Nat) :=
  match lock with
  | none => some (thread, 1)
  | some (owner, count) => if owner = thread then some (thread, count + 1) else none

/-- `RLock.release`, which raises in a thread that does not own it. -/
def release (lock : Option (Thread × Nat)) (thread : Thread) : Option (Thread × Nat) :=
  match lock with
  | none => none
  | some (owner, count) =>
    if owner = thread then if count ≤ 1 then none else some (thread, count - 1)
    else some (owner, count)

def ownedBy (lock : Option (Thread × Nat)) (thread : Thread) : Nat :=
  match lock with
  | none => 0
  | some (owner, count) => if owner = thread then count else 0

/-! ### Steps -/

namespace State

def setPhase (state : State) (thread : Thread) (phase : Phase) : State :=
  { state with phase := Function.update state.phase thread phase }

def setSlot (state : State) (thread : Thread) (path : Path) (slot : Option Slot) : State :=
  { state with table :=
      Function.update state.table thread (Function.update (state.table thread) path slot) }

def setLock (state : State) (rlock : Nat) (lock : Option (Thread × Nat)) : State :=
  { state with rlocks := Function.update state.rlocks rlock lock }

def setFlock (state : State) (path : Path) (file : Option File) : State :=
  { state with flock := Function.update state.flock path file }

def setEntered (state : State) (thread : Thread) (inst : Nat) (paths : List Path) : State :=
  { state with entered :=
      Function.update state.entered thread (Function.update (state.entered thread) inst paths) }

/-- `_registry.setdefault(path, threading.RLock())` of a path it does not hold. -/
def register (state : State) (thread : Thread) (path : Path) : State :=
  { state with
    registry := Function.update state.registry thread.process
      (Function.update (state.registry thread.process) path (some state.next))
    next := state.next + 1 }

/-- `__enter__` is done: the slot stands and the path is on the instance's stack. -/
def enter (state : State) (thread : Thread) (inst : Nat) (path : Path) (slot : Slot) : State :=
  ((state.setSlot thread path (some slot)).setEntered thread inst
    (path :: state.entered thread inst)).setPhase thread .idle

/-- `__enter__` raises behind its re-entrant lock, given up or not. -/
def raised (state : State) (thread : Thread) (rlock : Nat) (isReleased : Bool) : State :=
  (if isReleased then state.setLock rlock (release (state.rlocks rlock) thread) else state).setPhase
    thread .idle

end State

/-- `__enter__` up to its first lock. -/
def enters (state : State) (thread : Thread) (inst : Nat) (path : Path) : State :=
  match state.table thread path with
  | some slot => state.setPhase thread (.acquiring inst path slot.rlock true)
  | none =>
    match state.registry thread.process path with
    | some rlock => state.setPhase thread (.acquiring inst path rlock false)
    | none =>
      (state.register thread path).setPhase thread (.acquiring inst path state.next false)

def leave (state : State) (thread : Thread) (path : Path) (slot : Slot) : State :=
  if slot.depth - 1 = 0 then
    ((state.setSlot thread path none).setFlock path
      (if slot.file.isSome ∧ state.flock path = slot.file then none
        else state.flock path)).setPhase thread (.releasing path slot.rlock)
  else
    (state.setSlot thread path (some { slot with depth := slot.depth - 1 })).setPhase thread
      (.releasing path slot.rlock)

/-- `__exit__` up to the release of its re-entrant lock. -/
def exits (state : State) (thread : Thread) (inst : Nat) : State :=
  match state.entered thread inst with
  | [] => state
  | path :: rest =>
    match state.table thread path with
    | none => state.setEntered thread inst rest
    | some slot => leave (state.setEntered thread inst rest) thread path slot

/-- The re-entrant lock is taken: a nested enter counts it, another goes on to the lock file. -/
def taken (state : State) (thread : Thread) (inst : Nat) (path : Path) (rlock : Nat) : Bool → State
  | false => state.setPhase thread (.opening inst path rlock)
  | true =>
    match state.table thread path with
    | some slot => state.enter thread inst path { slot with depth := slot.depth + 1 }
    | none => state

def goesOn (state : State) (thread : Thread) (turn : Turn) : State :=
  match state.phase thread, turn with
  | .idle, _ => state
  | .acquiring .., .raises .. => state.setPhase thread .idle
  | .acquiring inst path rlock nested, _ =>
    match acquire (state.rlocks rlock) thread with
    | none => state
    | some lock => taken (state.setLock rlock (some lock)) thread inst path rlock nested
  | .opening _ _ rlock, .raises isException _ => state.raised thread rlock isException
  | .opening inst path rlock, .noFcntl => state.enter thread inst path ⟨1, rlock, none⟩
  | .opening inst path rlock, .goes =>
    { state with
      phase := Function.update state.phase thread (.flocking inst path rlock ⟨thread, state.next⟩)
      next := state.next + 1 }
  | .flocking _ _ rlock _, .raises isException closes =>
    state.raised thread rlock (isException && closes)
  | .flocking inst path rlock file, _ =>
    match state.flock path with
    | some _ => state
    | none => (state.setFlock path (some file)).enter thread inst path ⟨1, rlock, some file⟩
  | .releasing _ rlock, _ =>
    (state.setLock rlock (release (state.rlocks rlock) thread)).setPhase thread .idle

/-- A thread enters and leaves one lock at a time. -/
def step (state : State) : Event → State
  | .enters thread inst path =>
    if state.phase thread = .idle then enters state thread inst path else state
  | .goesOn thread turn => goesOn state thread turn
  | .exits thread inst => if state.phase thread = .idle then exits state thread inst else state

def run (state : State) (events : List Event) : State := events.foldl step state

end Nmas.Filestore
