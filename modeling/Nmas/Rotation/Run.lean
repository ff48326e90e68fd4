import Mathlib
import Nmas.Text.Unicode

/-!
Contract: when a rotation may start, the due devices a run takes, and one run.

Owns: `change_windows.covers` and `holding`; `in_window`, `select`, `run`,
`halted`, `second_strike` and `_first_held` of `nsot/scheduled_rotation.py`: what
refuses a run, the devices it takes one at a time, the calls each turn makes, and
the one record a run appends.

A turn's five calls answer or raise, as the turn gives it. A time is an exact
rational of seconds, written as its whole seconds.

Does not own: `device_states` (the devices and their credentials' ages are
read), the words of what waits or refuses, the progress it shows, the lock's
file and the pushes it holds back.
-/

namespace Nmas.Rotation

open Nmas.Text

abbrev Clock := ℚ

/-- A time as `_iso` writes it. -/
abbrev Stamp := ℤ

def iso (now : Clock) : Stamp := now.floor

/-- `time.gmtime(now)`: the minutes of its day. -/
def minuteOf (now : Clock) : Nat := (now.floor % 86400 / 60).toNat

/-- `tm_hour`. -/
def hourOf (now : Clock) : Nat := minuteOf now / 60

/-- A no-change window, from its start to its end in minutes of the day. -/
structure NoChange where
  start : Nat
  end_ : Nat
deriving DecidableEq

def NoChange.covers (window : NoChange) (now : Clock) : Bool :=
  let minute := minuteOf now
  if window.start < window.end_ then window.start ≤ minute && minute < window.end_
  else if window.end_ < window.start then window.start ≤ minute || minute < window.end_
  else false

/-- `change_windows.holding`: the first window that covers a time. -/
def holding (windows : List NoChange) (now : Clock) : Option NoChange :=
  windows.find? (fun window => window.covers now)

/-- A profile's rotation policy; `set_by` is nothing where none is recorded. -/
structure Policy where
  windowStart : Nat
  windowEnd : Nat
  maxPerRun : Option Nat
  setBy : Option Str
deriving DecidableEq

def inWindow (policy : Policy) (now : Clock) : Bool :=
  let hour := hourOf now
  if policy.windowStart = policy.windowEnd ∨ (policy.windowStart = 0 ∧ policy.windowEnd = 24) then
    true
  else if policy.windowStart < policy.windowEnd then
    policy.windowStart ≤ hour && hour < policy.windowEnd
  else policy.windowStart ≤ hour || hour < policy.windowEnd

structure Device where
  list : Str
  name : Str
deriving DecidableEq

/-- What `device_states` says of a device; `rotatedAt` is nothing where Mercury
never rotated it. -/
structure DeviceState where
  device : Device
  profile : Str
  policy : Policy
  rotatedAt : Option Stamp
  due : Bool
deriving DecidableEq

/-- The order a run takes them in: never rotated first, then the oldest
credential, then by network and name. -/
def DeviceState.before (one other : DeviceState) : Bool :=
  if one.rotatedAt.isNone ≠ other.rotatedAt.isNone then one.rotatedAt.isNone
  else if one.rotatedAt.getD 0 ≠ other.rotatedAt.getD 0 then
    one.rotatedAt.getD 0 < other.rotatedAt.getD 0
  else if one.device.list ≠ other.device.list then one.device.list < other.device.list
  else one.device.name ≤ other.device.name

/-- Why a due device waits. -/
inductive Waits where
  | outsideWindow
  | ranToday
  | pastLimit
deriving DecidableEq

/-- What `select` has in hand; `taken` counts the devices taken of each profile. -/
structure Selection where
  chosen : List DeviceState
  waiting : List (DeviceState × Waits)
  taken : Str → Nat

def Selection.none_ : Selection := ⟨[], [], fun _ => 0⟩

def Selection.take (now : Clock) (scheduled_ : Bool) (ranToday : List Str) (selection : Selection)
    (state : DeviceState) : Selection :=
  let waits := fun why => { selection with waiting := selection.waiting ++ [(state, why)] }
  if scheduled_ && !inWindow state.policy now then waits .outsideWindow
  else if scheduled_ && state.profile ∈ ranToday then waits .ranToday
  else if state.policy.maxPerRun.any
      (fun limit => limit ≠ 0 ∧ limit ≤ selection.taken state.profile) then
    waits .pastLimit
  else
    { selection with
      chosen := selection.chosen ++ [state]
      taken := Function.update selection.taken state.profile (selection.taken state.profile + 1) }

def select (states : List DeviceState) (now : Clock) (scheduled_ : Bool) (ranToday : List Str) :
    Selection :=
  ((states.filter (·.due)).insertionSort (fun one other => one.before other)).foldl
    (Selection.take now scheduled_ ranToday) .none_

end Nmas.Rotation

namespace Nmas.Rotation

open Nmas.Text

inductive Trigger where
  | scheduled
  | request
deriving DecidableEq

inductive RunState where
  | refused
  | done
  | stopped
  | nothingDue
deriving DecidableEq

inductive Why where
  | held (holder : Str)
  | holdUnread (error : Str)
  | restarting (reason : Str)
  | offIntent (reason : Str)
  | intentUnread (error : Str)
  | unplanned (error : Str)
deriving DecidableEq

structure Rotated where
  device : Device
  actor : Str
deriving DecidableEq

structure Skipped where
  device : Device
  why : Why
deriving DecidableEq

/-- The failure a run stopped on. -/
structure Failed where
  device : Device
  stage : Str
  state : Str
  detail : Str
deriving DecidableEq

structure Record where
  run : Str
  trigger : Trigger
  actor : Str
  started : Stamp
  finished : Stamp
  state : RunState
  rotated : List Rotated
  skipped : List Skipped
  failed : Option Failed
  notReached : List Device
  waiting : List (Device × Waits)
  policies : List Str
deriving DecidableEq

/-- What a hold check answers: nobody, a holder, an `OSError`, or it raises
another error. -/
inductive Hold where
  | nobody
  | holder (words : Str)
  | unread (error : Str)
  | raises (error : Str)
deriving DecidableEq

structure Plan where
  ok : Bool
  fingerprint : Str
  error : Str
deriving DecidableEq

/-- What `rotate_op.run` answers. -/
inductive RotateOut where
  | persisted
  | ended (stage state detail : Str)
deriving DecidableEq

/-- A device's turn: its time, and what each call made in it gives. An empty
reason is none. -/
structure Turn where
  at_ : Clock
  held : Hold
  restarting : Except Str Str
  offIntent : Except Str Str
  plan : Except Str Plan
  rotate : Except Str RotateOut

/-- A call of `rotate`: the device as the run chose it, and when its turn came. -/
structure Call where
  state : DeviceState
  at_ : Clock
  actor : Str
  fingerprint : Str
deriving DecidableEq

/-- What a run is asked and finds: `free` is the run's lock, `prior` the runs on
record, `commits` the newest rotation commit of each device, `holds` the hold
check of each device before the first turn, `turns` the turn of each device taken. -/
structure Asked where
  trigger : Trigger
  actor : Str
  id : Str
  confirmed : Option Str
  hash : List Device → Str
  windows : List NoChange
  started : Clock
  free : Bool
  prior : List Record
  commits : Device → Option Stamp
  states : List DeviceState
  holds : Device → Hold
  turns : Nat → Turn
  finished : Clock

/-- What a run leaves: the records it appends, the rotations it asks for, and
whether it raises. -/
structure Outcome where
  appended : List Record
  calls : List Call
  raised : Bool
deriving DecidableEq

/-! ### The halt -/

def Record.clears (record : Record) : Bool := record.state = .done ∧ record.rotated ≠ []

def haltRuns (rows : List Record) : List Record :=
  rows.filter (fun record => record.state = .stopped ∨ record.clears)

def secondStrike (rows : List Record) : Bool :=
  match (haltRuns rows).reverse with
  | last :: before :: _ =>
    last.state = .stopped ∧ last.trigger = .scheduled ∧ before.state = .stopped
  | _ => false

def halted (rows : List Record) (commits : Device → Option Stamp) : Option Record :=
  match (haltRuns rows).getLast? with
  | none => none
  | some last =>
    if last.state ≠ .stopped then none
    else if secondStrike rows then some last
    else
      match last.failed with
      | none => some last
      | some failed =>
        if (commits failed.device).getD 0 > last.finished then none else some last

/-- `ran_today`: the profiles a scheduled run ran in the last 24 hours. -/
def ranToday (rows : List Record) (now : Clock) : List Str :=
  (rows.filter (fun record =>
    record.trigger = .scheduled ∧ now - 86400 < record.started ∧ record.state = .done)).flatMap
      (·.policies)

/-- `tick`: whether the timer starts a run now, `on` the policies that are on and
`states` the devices it reads. -/
def tickStarts (windows : List NoChange) (on : List Policy) (states : List DeviceState)
    (rows : List Record) (now : Clock) : Bool :=
  on ≠ [] && (holding windows now).isNone && on.any (fun policy => inWindow policy now) &&
    (select states now true (ranToday rows now)).chosen ≠ []

/-! ### A run -/

namespace Asked

def begins (asked : Asked) : Record :=
  { run := asked.id, trigger := asked.trigger, actor := asked.actor, started := iso asked.started
    finished := iso asked.finished, state := .refused, rotated := [], skipped := [], failed := none
    notReached := [], waiting := [], policies := [] }

def selection (asked : Asked) : Selection :=
  select asked.states asked.started (asked.trigger = .scheduled)
    (ranToday asked.prior asked.started)

def chosen (asked : Asked) : List DeviceState := asked.selection.chosen

def selected (asked : Asked) : Record :=
  { asked.begins with
    waiting := asked.selection.waiting.map (fun waits => (waits.1.device, waits.2))
    policies := (asked.chosen.map (·.profile)).dedup.insertionSort (· ≤ ·) }

/-- `_first_held`: whether another operation holds one of the devices, or its
hold cannot be read; or the check raises. -/
def firstHeld (asked : Asked) : List DeviceState → Except Str Bool
  | [] => .ok false
  | state :: rest =>
    match asked.holds state.device with
    | .nobody => firstHeld asked rest
    | .holder _ | .unread _ => .ok true
    | .raises error => .error error

/-- What refuses a run: the record it appends then, or the check raises. -/
def refused (asked : Asked) : Except Str (Option Record) :=
  if (holding asked.windows asked.started).isSome then .ok (some asked.begins)
  else if !asked.free then .ok (some asked.begins)
  else if asked.trigger = .scheduled ∧ (halted asked.prior asked.commits).isSome then
    .ok (some asked.begins)
  else if asked.trigger = .request ∧
      asked.confirmed.any (fun hash => hash ≠ asked.hash (asked.chosen.map (·.device))) then
    .ok (some asked.begins)
  else if asked.trigger = .scheduled then
    (asked.firstHeld asked.chosen).map (fun busy => if busy then some asked.selected else none)
  else .ok none

def who (asked : Asked) (state : DeviceState) : Str :=
  match asked.trigger with
  | .request => asked.actor
  | .scheduled => state.policy.setBy.getD "nobody recorded".ascii

end Asked

def Turn.check (turn : Turn) : Except Str (Except Why Plan) :=
  match turn.held with
  | .holder words => .ok (.error (.held words))
  | .unread error => .ok (.error (.holdUnread error))
  | .raises error => .error error
  | .nobody =>
    match turn.restarting with
    | .error error => .error error
    | .ok reason =>
      if reason ≠ [] then .ok (.error (.restarting reason))
      else
        match turn.offIntent with
        | .error error => .ok (.error (.intentUnread error))
        | .ok reason =>
          if reason ≠ [] then .ok (.error (.offIntent reason))
          else
            match turn.plan with
            | .error error => .error error
            | .ok plan =>
              if plan.ok then .ok (.ok plan)
              else
                .ok (.error (.unplanned
                  (if plan.error = [] then "the preflight failed".ascii else plan.error)))

def takeTurns (asked : Asked) : Nat → List DeviceState → Record → List Call → Outcome
  | _, [], record, calls => ⟨[{ record with state := .done }], calls, false⟩
  | turn, state :: rest, record, calls =>
    let answers := asked.turns turn
    if (holding asked.windows answers.at_).isSome then
      ⟨[{ record with
          notReached := (state :: rest).map (·.device)
          state := .done }], calls, false⟩
    else
      match answers.check with
      | .error _ => ⟨[], calls, true⟩
      | .ok (.error why) =>
        takeTurns asked (turn + 1) rest
          { record with skipped := record.skipped ++ [⟨state.device, why⟩] } calls
      | .ok (.ok plan) =>
        let who := asked.who state
        let called := calls ++ [⟨state, answers.at_, who, plan.fingerprint⟩]
        match answers.rotate with
        | .error _ => ⟨[], called, true⟩
        | .ok .persisted =>
          takeTurns asked (turn + 1) rest
            { record with rotated := record.rotated ++ [⟨state.device, who⟩] } called
        | .ok (.ended stage ended detail) =>
          ⟨[{ record with
              failed := some ⟨state.device, stage, ended, detail⟩
              notReached := rest.map (·.device)
              state := .stopped }], called, false⟩

def run (asked : Asked) : Outcome :=
  match asked.refused with
  | .error _ => ⟨[], [], true⟩
  | .ok (some record) => ⟨[record], [], false⟩
  | .ok none =>
    if asked.chosen = [] then ⟨[{ asked.selected with state := .nothingDue }], [], false⟩
    else takeTurns asked 0 asked.chosen asked.selected []

end Nmas.Rotation
