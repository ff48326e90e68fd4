import Nmas.Heal.Grace
import Nmas.Log.Keyed
import Nmas.Os.Flock
import Nmas.Text.Str

/-!
Contract: one operation per device, over any number of processes and threads.

Owns: `nsot/device_ops.py`: `acquire`, `release`, `hand_over` and `note` as the
steps between their system calls, each able to fail; the markers and the index;
what `interrupted` reads; and a process that ends at any point.

A step of `acquire` or `note` is taken in the process's `_mu`, so a process has
one of them at a time. A lock file not made yet is one that is empty. An owner of
a `flock` is an open file.

Does not own: `hold_refusal`, which refuses before anything is held, the address
checks of `may_write`, the announcements, and a platform without `fcntl`.
-/

namespace Nmas.Holds

open Nmas.Text
open Nmas.Heal (Clock)
open Nmas.Log (amend)
open Nmas.Os (Flock)

/-- `(_list_key(list_name), hostname)`. -/
structure Key where
  list : Str
  hostname : Str
deriving DecidableEq

/-- A lock file, without its `.lock`. -/
structure Path where
  folder : Str
  name : Str
deriving DecidableEq

def safe (name : Str) : Str :=
  match name.map (fun char => if char.isAlphanum ∨ char ∈ ['_', '.', '-'] then char else '_') with
  | [] => ['_']
  | kept => kept

def Key.path (key : Key) : Path := ⟨key.list, safe key.hostname⟩

/-- An open file: of a hold, or of a reader's probe. -/
inductive Owner where
  | holder (process fd : Nat)
  | reader (process fd : Nat)
deriving DecidableEq

def Owner.process : Owner → Nat
  | .holder process _ | .reader process _ => process

structure Progress where
  step_ : Str
  at_ : Clock
  trail : List (Str × Clock)
deriving DecidableEq

structure Info where
  device : Str
  list : Str
  operation : Str
  actor : Str
  detail : Str
  ip : Str
  started : Clock
  process : Nat
  progress : Progress
deriving DecidableEq

/-- What `acquire` is asked for. -/
structure Asked where
  operation : Str
  actor : Str
  detail : Str
  ip : Str
  now : Clock

def Asked.info (asked : Asked) (process : Nat) (key : Key) : Info where
  device := key.hostname
  list := key.list
  operation := asked.operation
  actor := asked.actor
  detail := asked.detail
  ip := asked.ip
  started := asked.now
  process := process
  progress := ⟨"started".ascii, asked.now, []⟩

def probeRetries : Nat := 5

def trailMax : Nat := 64

/-- `note` on one holder's record. -/
def Info.noted (info : Info) (step_ : Str) (now : Clock) : Info :=
  let before := info.progress
  let trail := (if before.trail = [] then [(before.step_, before.at_)] else before.trail) ++
    [(step_, now)]
  { info with progress := ⟨step_, now, trail.drop (trail.length - trailMax)⟩ }

/-- An entry of `_held`. -/
structure Hold where
  key : Key
  fd : Nat
  count : Nat
  thread : Nat
  info : Info
deriving DecidableEq

/-- `_index` on a folder: once it is listed, the lock files it has yet to look
at, and one it found a record in and has yet to mark. -/
structure Index where
  folder : Str
  rest : Option (List Str)
  marking : Option Str

/-- Where an `acquire` is. -/
inductive Stage where
  | locking (tries : Nat)
  /-- The file is locked by another: its record says by whom. -/
  | blocked (tries : Nat)
  | asking
  | indexing (index : Index)
  | marking
  | looking
  | keeping (left : Info)
  | emptying
  | writing
  | syncing

structure Acquiring where
  thread : Nat
  key : Key
  fd : Nat
  info : Info
  stage : Stage

/-- Where a `note` is: the record it has emptied, and the holds it has yet to
come to. -/
structure Noting where
  step_ : Str
  now : Clock
  writing : Option Key
  rest : List Key

/-- What the thread in `_mu` is doing. -/
inductive Critical where
  | acquiring (acquiring : Acquiring)
  | noting (noting : Noting)

/-- Where a `release` is, once its entry is popped. -/
inductive LeaveStage where
  | emptying
  | unmarking
  | unlocking
  | closing

structure Leaving where
  key : Key
  fd : Nat
  stage : LeaveStage

structure Process where
  held : List Hold
  critical : Option Critical
  leaving : List Leaving
  /-- The open files it has had. -/
  opened : Nat

/-- A network's folder: its lock files, whether it is indexed, and its
`interrupted.jsonl`. -/
structure Folder where
  names : List Str
  indexed : Bool
  kept : List Info

structure State where
  locks : Path → Flock Owner
  contents : Path → Option Info
  marks : Path → Bool
  folders : Str → Folder
  processes : Nat → Process
  indexers : List Index

def Process.idle : Process := ⟨[], none, [], 0⟩

/-- Nothing is held: what lock files there are were left by an earlier run. -/
def begin_ (contents : Path → Option Info) (marks : Path → Bool) (folders : Str → Folder) : State :=
  ⟨fun _ => Flock.free, contents, marks, folders, fun _ => Process.idle, []⟩

/-- The entry of `_held` under a key. -/
def Process.find (process : Process) (key : Key) : Option Hold :=
  process.held.find? (fun hold => hold.key = key)

namespace State

open Function

def setProcess (state : State) (pid : Nat) (process : Process) : State :=
  { state with processes := update state.processes pid process }

def setLock (state : State) (path : Path) (lock : Flock Owner) : State :=
  { state with locks := update state.locks path lock }

def setContent (state : State) (path : Path) (content : Option Info) : State :=
  { state with contents := update state.contents path content }

def setMark (state : State) (path : Path) (mark : Bool) : State :=
  { state with marks := update state.marks path mark }

def setFolder (state : State) (folder : Str) (kept : Folder) : State :=
  { state with folders := update state.folders folder kept }

end State

/-- A step of `_index`; nothing left of it once the folder is said indexed. -/
def Index.step (state : State) (index : Index) : State × Option Index :=
  match index.marking, index.rest with
  | some name, rest => (state.setMark ⟨index.folder, name⟩ true, some ⟨index.folder, rest, none⟩)
  | none, none => (state, some ⟨index.folder, some (state.folders index.folder).names, none⟩)
  | none, some (name :: rest) =>
    let marking := if (state.contents ⟨index.folder, name⟩).isSome then some name else none
    (state, some ⟨index.folder, some rest, marking⟩)
  | none, some [] =>
    (state.setFolder index.folder { state.folders index.folder with indexed := true }, none)

/-- The exit from `_mu`. -/
def leave (state : State) (pid : Nat) : State :=
  state.setProcess pid { state.processes pid with critical := none }

/-- `acquire` goes on to another stage. -/
def onTo (state : State) (pid : Nat) (acquiring : Acquiring) (stage : Stage) : State :=
  state.setProcess pid
    { state.processes pid with critical := some (.acquiring { acquiring with stage := stage }) }

/-- `acquire`, in `_mu` and with the file open. A failure raises: from the lock
on, the open file is left behind, locked. -/
def acquireStep (state : State) (pid : Nat) (acquiring : Acquiring) (fails : Bool) : State :=
  let path := acquiring.key.path
  let owner := Owner.holder pid acquiring.fd
  match acquiring.stage with
  | .locking tries =>
    if fails then leave state pid
    else
      match (state.locks path).lockExclusive owner with
      | some lock => onTo (state.setLock path lock) pid acquiring .asking
      | none => onTo state pid acquiring (.blocked tries)
  | .blocked tries =>
    let found := if fails then none else state.contents path
    if found.any (fun info => info.operation ≠ "?".ascii) ∨ tries = probeRetries then
      leave state pid
    else onTo state pid acquiring (.locking (tries + 1))
  | .asking =>
    if (state.folders path.folder).indexed then onTo state pid acquiring .marking
    else onTo state pid acquiring (.indexing ⟨path.folder, none, none⟩)
  | .indexing index =>
    if fails then onTo state pid acquiring .marking
    else
      match index.step state with
      | (next, some index) => onTo next pid acquiring (.indexing index)
      | (next, none) => onTo next pid acquiring .marking
  | .marking =>
    if fails then leave (state.setLock path ((state.locks path).unlock owner)) pid
    else onTo (state.setMark path true) pid acquiring .looking
  | .looking =>
    if fails then leave state pid
    else
      match state.contents path with
      | some left => onTo state pid acquiring (.keeping left)
      | none => onTo state pid acquiring .emptying
  | .keeping left =>
    let folder := state.folders path.folder
    if fails then onTo state pid acquiring .emptying
    else
      onTo (state.setFolder path.folder { folder with kept := folder.kept ++ [left] }) pid
        acquiring .emptying
  | .emptying =>
    if fails then leave state pid else onTo (state.setContent path none) pid acquiring .writing
  | .writing =>
    if fails then leave state pid
    else onTo (state.setContent path (some acquiring.info)) pid acquiring .syncing
  | .syncing =>
    if fails then leave state pid
    else
      let process := state.processes pid
      state.setProcess pid { process with
        held := process.held ++ [⟨acquiring.key, acquiring.fd, 1, acquiring.thread, acquiring.info⟩]
        critical := none }

/-- `note`, in `_mu`. A write that fails leaves the record empty. -/
def noteStep (state : State) (pid : Nat) (noting : Noting) (fails : Bool) : State :=
  let process := state.processes pid
  match noting.writing, noting.rest with
  | some key, rest =>
    let done := { process with critical := some (.noting { noting with writing := none, rest := rest }) }
    match process.find key with
    | some hold =>
      if fails then state.setProcess pid done
      else (state.setContent key.path (some hold.info)).setProcess pid done
    | none => state.setProcess pid done
  | none, key :: rest =>
    let held := amend Hold.key key
      (fun hold => { hold with info := hold.info.noted noting.step_ noting.now }) process.held
    let goes := fun writing =>
      { process with held := held, critical := some (.noting { noting with writing := writing, rest := rest }) }
    if fails then state.setProcess pid (goes none)
    else (state.setContent key.path none).setProcess pid (goes (some key))
  | none, [] => leave state pid

/-- A `release` from its pop on, in its place among those of its process. A
failure goes to the close. -/
def leaveStep (state : State) (pid : Nat) (place : Nat) (leaving : Leaving) (fails : Bool) : State :=
  let process := state.processes pid
  let path := leaving.key.path
  let owner := Owner.holder pid leaving.fd
  let goes := fun (state : State) (stage : LeaveStage) => state.setProcess pid
    { process with leaving := process.leaving.set place { leaving with stage := stage } }
  match leaving.stage with
  | .emptying => if fails then goes state .closing else goes (state.setContent path none) .unmarking
  | .unmarking => if fails then goes state .unlocking else goes (state.setMark path false) .unlocking
  | .unlocking =>
    if fails then goes state .closing
    else goes (state.setLock path ((state.locks path).unlock owner)) .closing
  | .closing =>
    (state.setLock path ((state.locks path).unlock owner)).setProcess pid
      { process with leaving := process.leaving.eraseIdx place }

inductive Event where
  | acquire (pid thread : Nat) (key : Key) (asked : Asked)
  /-- The thread in `_mu` takes its next step. -/
  | goesOn (pid : Nat) (fails : Bool)
  | release (pid thread : Nat) (key : Key)
  /-- A release past its pop takes its next step. -/
  | leaves (pid place : Nat) (fails : Bool)
  | handOver (pid thread : Nat) (key : Key) (to_ : Nat)
  /-- `note` on the devices a thread holds, or on one of them. -/
  | note (pid thread : Nat) (device : Option Str) (step_ : Str) (now : Clock)
  /-- A reader takes the lock, shared, to see whether it is free. -/
  | probe (pid fd : Nat) (path : Path)
  | unprobe (pid fd : Nat) (path : Path)
  /-- `_index` begins on a folder, outside any `acquire`. -/
  | index (folder : Str)
  | indexes (place : Nat) (fails : Bool)
  | dies (pid : Nat)

/-- `acquire` in `_mu`: its look at `_held`, then its open. -/
def acquire (state : State) (pid thread : Nat) (key : Key) (asked : Asked) : State :=
  let process := state.processes pid
  match process.find key with
  | some hold =>
    if hold.thread = thread then
      state.setProcess pid { process with
        held := amend Hold.key key (fun hold => { hold with count := hold.count + 1 }) process.held }
    else state
  | none =>
    let path := key.path
    let folder := state.folders path.folder
    let names := if path.name ∈ folder.names then folder.names else folder.names ++ [path.name]
    let acquiring : Acquiring := ⟨thread, key, process.opened, asked.info pid key, .locking 0⟩
    (state.setFolder path.folder { folder with names := names }).setProcess pid { process with
      critical := some (.acquiring acquiring)
      opened := process.opened + 1 }

/-- `release` in `_mu`. -/
def release (state : State) (pid thread : Nat) (key : Key) : State :=
  let process := state.processes pid
  match process.find key with
  | none => state
  | some hold =>
    if hold.thread ≠ thread then state
    else if hold.count > 1 then
      state.setProcess pid { process with
        held := amend Hold.key key (fun hold => { hold with count := hold.count - 1 }) process.held }
    else
      state.setProcess pid { process with
        held := process.held.filter (fun hold => hold.key ≠ key)
        leaving := process.leaving ++ [⟨key, hold.fd, .emptying⟩] }

def handOver (state : State) (pid thread : Nat) (key : Key) (to_ : Nat) : State :=
  let process := state.processes pid
  match process.find key with
  | none => state
  | some hold =>
    if hold.thread ≠ thread ∨ hold.count ≠ 1 then state
    else
      state.setProcess pid { process with
        held := amend Hold.key key (fun hold => { hold with thread := to_ }) process.held }

/-- The holds a `note` comes to. -/
def Process.noted (process : Process) (thread : Nat) (device : Option Str) : List Key :=
  (process.held.filter (fun hold =>
    hold.thread = thread ∧ device.all (fun device => hold.info.device = device))).map Hold.key

/-- A process ends: its open files are closed, and what it was doing stops. -/
def die (state : State) (pid : Nat) : State :=
  { state.setProcess pid { Process.idle with opened := (state.processes pid).opened } with
    locks := fun path => (state.locks path).drop (fun owner => owner.process = pid) }

def step (state : State) : Event → State
  | .acquire pid thread key asked =>
    match (state.processes pid).critical with
    | some _ => state
    | none => acquire state pid thread key asked
  | .goesOn pid fails =>
    match (state.processes pid).critical with
    | none => state
    | some (.acquiring acquiring) => acquireStep state pid acquiring fails
    | some (.noting noting) => noteStep state pid noting fails
  | .release pid thread key =>
    match (state.processes pid).critical with
    | some _ => state
    | none => release state pid thread key
  | .leaves pid place fails =>
    match (state.processes pid).leaving[place]? with
    | none => state
    | some leaving => leaveStep state pid place leaving fails
  | .handOver pid thread key to_ =>
    match (state.processes pid).critical with
    | some _ => state
    | none => handOver state pid thread key to_
  | .note pid thread device step_ now =>
    let process := state.processes pid
    match process.critical with
    | some _ => state
    | none =>
      state.setProcess pid { process with
        critical := some (.noting ⟨step_, now, none, process.noted thread device⟩) }
  | .probe pid fd path =>
    match (state.locks path).lockShared (.reader pid fd) with
    | some lock => state.setLock path lock
    | none => state
  | .unprobe pid fd path => state.setLock path ((state.locks path).unlock (.reader pid fd))
  | .index folder =>
    { state with indexers := state.indexers ++ [⟨folder, none, none⟩] }
  | .indexes place fails =>
    match state.indexers[place]? with
    | none => state
    | some index =>
      if fails then { state with indexers := state.indexers.eraseIdx place }
      else
        match index.step state with
        | (next, some index) => { next with indexers := state.indexers.set place index }
        | (next, none) => { next with indexers := state.indexers.eraseIdx place }
  | .dies pid => die state pid

/-! ### What a reader sees -/

def leftover (state : State) (path : Path) : Option Info :=
  match (state.locks path).exclusive with
  | some _ => none
  | none => state.contents path

def candidates (state : State) (folder : Str) : List Str :=
  let kept := state.folders folder
  if kept.indexed then kept.names.filter (fun name => state.marks ⟨folder, name⟩) else kept.names

/-- `interrupted`: the first record of each device and start, oldest first. -/
def interrupted (state : State) (list : Str) : List Info :=
  let records := (state.folders list).kept ++
    (candidates state list).filterMap (fun name => leftover state ⟨list, name⟩)
  let firsts := records.foldl (fun seen record =>
    if seen.any (fun other => other.device = record.device && other.started = record.started) then seen
    else seen ++ [record]) []
  firsts.mergeSort (fun one other => one.started ≤ other.started)

end Nmas.Holds
