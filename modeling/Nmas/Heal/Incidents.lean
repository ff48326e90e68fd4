import Nmas.Log.Focus
import Nmas.Heal.Grace
import Nmas.Text.Str

/-!
Contract: a network's heal incidents, and every change made to them.

Owns: `heal/incidents.py`, the store: `sight` and its fold, `recordRead`,
`settle`, `claim`, `defer`, `close` and `closeWatching`, each under the store's
lock and followed by the trim of the closed ones (`mutate`).

A trigger, read or incident keeps the fields the heal reads; the times written
as text and the words said of a change are left out. An id is the one the call
drew. Where `sight` asks for a blast radius, `radiusOf` answers the devices cut,
or nothing when it was not given, raised or is not known.
-/

namespace Nmas.Heal

open Nmas.Text
open Nmas.Log (Focus focus)

inductive Kind where
  | configChange
  | drift
  | alert
  | adjacency
  | adjacencyLog
  | duplicateRouterId
deriving DecidableEq, Repr

/-- `CAUSE_KINDS`. The others are symptoms. -/
def Kind.isCause : Kind → Bool
  | .configChange | .drift => true
  | _ => false

/-- `attribution.MERCURY`, `OUTSIDE` and `UNKNOWN`. -/
inductive Author where
  | mercury
  | outside
  | unknown
deriving DecidableEq, Repr

structure Trigger where
  kind : Kind
  key : Option Str
  epoch : Clock
  attribution : Option Author
  related : List Str
deriving DecidableEq

def triggersKept : Nat := 100

def readsKept : Nat := 20

def closedKept : Nat := 200

/-- `entries[-kept:]`. -/
def newest {Entry : Type} (kept : Nat) (entries : List Entry) : List Entry :=
  entries.drop (entries.length - kept)

/-- What an incident keeps of a device, its own or an attached one. -/
structure Holder where
  device : Str
  triggers : List Trigger
  triggersSeen : Nat
  reads : List Read
deriving DecidableEq

def Holder.push (holder : Holder) (trigger : Trigger) : Holder :=
  { holder with
    triggers := newest triggersKept (holder.triggers ++ [trigger])
    triggersSeen := holder.triggersSeen + 1 }

/-- One read kept, as `record_read` keeps it. -/
def Holder.keep (holder : Holder) (read : Read) : Holder :=
  { holder with reads := newest readsKept (holder.reads ++ [read]) }

structure Member extends Holder where
  fromIncident : Option Str
deriving DecidableEq

inductive Status where
  | watching
  | ready
  | claimed
  | closed
deriving DecidableEq, Repr

/-- `OPEN_STATES`. -/
def Status.isOpen (status : Status) : Bool := status ≠ .closed

inductive Cause where
  | change
  | symptom
deriving DecidableEq, Repr

inductive Fold where
  | none
  | judged
  | notJudged
  | notFolded
deriving DecidableEq, Repr

structure Related where
  incident : Str
  device : Str
deriving DecidableEq

structure Settled where
  how : Grace.State
  first : Option Nat
  second : Option Nat
  operands : Grace.Operands
deriving DecidableEq

structure Incident extends Holder where
  id : Str
  status : Status
  cause : Cause
  openedEpoch : Clock
  attached : List Member
  related : List Related
  fold : Fold
  settled : Option Settled
  claimedBy : Option Str
  deferUntil : Option Clock
  foldedInto : Option Str
deriving DecidableEq

abbrev Radius := Str → Option (List Str)

def Incident.keys (inc : Incident) : List (Option Str) :=
  inc.triggers.map Trigger.key ++ inc.attached.flatMap (fun member => member.triggers.map Trigger.key)

/-- The test of `_where`: an open incident with the device as its own, or
attached. -/
def Incident.holds (device : Str) (inc : Incident) : Bool :=
  inc.status.isOpen &&
    (inc.device = device || inc.attached.any (fun member => member.device = device))

/-- The member of `_where`: none where the device is the incident's own. -/
def Incident.memberAt (device : Str) (inc : Incident) : Option (Focus Member) :=
  if inc.device = device then none
  else focus (fun member => member.device = device) inc.attached

/-- `_new`. -/
def opening (id device : Str) (trigger : Trigger) (now : Clock) : Incident where
  device := device
  triggers := []
  triggersSeen := 0
  reads := []
  id := id
  status := .watching
  cause := if trigger.kind.isCause then .change else .symptom
  openedEpoch := now
  attached := []
  related := []
  fold := .none
  settled := none
  claimedBy := none
  deferUntil := none
  foldedInto := none

/-- `_member`. -/
def attaching (device : Str) (trigger : Trigger) : Member where
  device := device
  triggers := [trigger]
  triggersSeen := 1
  reads := []
  fromIncident := none

/-- `_fold_target`: the open incident a symptom on a device folds into. -/
def foldTarget (incidents : List Incident) (device : Str) (trigger : Trigger) (radiusOf : Radius) :
    Option (Focus Incident) :=
  (focus (fun inc => inc.status.isOpen && trigger.related.contains inc.device) incidents).or
    (focus (fun inc => inc.status.isOpen && inc.cause = .change &&
      (radiusOf inc.device).any (fun cut => cut.contains device)) incidents)

/-- What `_absorb` takes into an incident of this device: an open symptom-only
incident still watching, whose link or whose place in the radius names it. -/
def absorbs (device : Str) (cut : Option (List Str)) (other : Incident) : Bool :=
  other.cause = .symptom && other.status = .watching &&
    (other.triggers.any (fun trigger => trigger.related.contains device) ||
      cut.any (fun devices => devices.contains other.device))

def Incident.folded (other : Incident) : Member := ⟨other.toHolder, some other.id⟩

/-- The loop of `_absorb` over other incidents. -/
def absorbFrom (cut : Option (List Str)) (inc : Incident) : List Incident → Incident × List Incident
  | [] => (inc, [])
  | other :: rest =>
    if absorbs inc.device cut other then
      let taking := { inc with attached := inc.attached ++ other.folded :: other.attached }
      let (taken, left) := absorbFrom cut taking rest
      (taken, { other with status := .closed, foldedInto := some inc.id } :: left)
    else
      let (taken, left) := absorbFrom cut inc rest
      (taken, other :: left)

/-- `_absorb`, with the incident in its place among the others. -/
def absorb (found : Focus Incident) (inc : Incident) (radiusOf : Radius) : Focus Incident :=
  let cut := radiusOf inc.device
  let judged := { inc with fold := if cut.isSome then .judged else .notJudged }
  let (first, before) := absorbFrom cut judged found.before
  let (second, after) := absorbFrom cut first found.after
  ⟨before, second, after⟩

inductive Action where
  | opened
  | added
  | attached
  | promoted
  | moved
  | duplicate
deriving DecidableEq, Repr

/-- What `sight` answers, and the incidents it leaves. -/
structure Sighted where
  action : Action
  incident : Str
  incidents : List Incident

/-- `sight` on a device no open incident holds. -/
def sightNew (draw device : Str) (trigger : Trigger) (now : Clock) (radiusOf : Radius)
    (incidents : List Incident) : Sighted :=
  let fresh := opening draw device trigger now
  let pushed := { fresh with toHolder := fresh.push trigger }
  if trigger.kind.isCause then
    let found := absorb ⟨incidents, pushed, []⟩ pushed radiusOf
    ⟨.opened, draw, found.put found.here⟩
  else
    match foldTarget incidents device trigger radiusOf with
    | some found =>
      ⟨.attached, found.here.id, found.put
        { found.here with attached := found.here.attached ++ [attaching device trigger] }⟩
    | none => ⟨.opened, draw, incidents ++ [{ pushed with fold := .notFolded }]⟩

/-- `sight` on the device of an open incident. -/
def sightOwn (trigger : Trigger) (radiusOf : Radius) (found : Focus Incident) : Sighted :=
  let pushed := { found.here with toHolder := found.here.push trigger }
  let after :=
    if trigger.kind.isCause ∧ found.here.cause ≠ .change then
      absorb found { pushed with cause := .change } radiusOf
    else { found with here := pushed }
  -- Settled on reads before this change: they no longer stand.
  let inc :=
    if trigger.kind.isCause ∧ after.here.status = .ready then
      { after.here with status := .watching, settled := none }
    else after.here
  ⟨.added, found.here.id, after.put inc⟩

/-- `sight` on a member attached to an open incident. -/
def sightMember (draw : Str) (trigger : Trigger) (now : Clock) (radiusOf : Radius)
    (found : Focus Incident) (member : Focus Member) : Sighted :=
  let inc := found.here
  let device := member.here.device
  let pushed := member.here.push trigger
  if ¬ trigger.kind.isCause then
    ⟨.attached, inc.id, found.put
      { inc with attached := member.put { member.here with toHolder := pushed } }⟩
  else if inc.cause ≠ .change ∧ inc.status = .watching then
    -- The member changed; the device it was attached to only showed a symptom.
    let promoted := { inc with
      toHolder := pushed
      cause := .change
      attached := member.rest ++ [⟨inc.toHolder, none⟩] }
    let after := absorb found promoted radiusOf
    ⟨.promoted, inc.id, after.put after.here⟩
  else
    let own := { opening draw device trigger now with
      toHolder := pushed
      related := [⟨inc.id, inc.device⟩] }
    let left := { inc with
      attached := member.rest
      related := inc.related ++ [⟨draw, device⟩] }
    ⟨.moved, draw, found.put left ++ [own]⟩

def sight (draw device : Str) (trigger : Trigger) (now : Clock) (radiusOf : Radius)
    (incidents : List Incident) : Sighted :=
  match focus (Incident.holds device) incidents with
  | none => sightNew draw device trigger now radiusOf incidents
  | some found =>
    if found.here.keys.contains trigger.key then ⟨.duplicate, found.here.id, incidents⟩
    else
      match found.here.memberAt device with
      | none => sightOwn trigger radiusOf found
      | some member => sightMember draw trigger now radiusOf found member

inductive Refused where
  | notHeld (id : Str)
  | notIn (device id : Str)
  | doesNotSettle (how : Grace.State)
  | status (id : Str) (status : Status)
  | noWhy
deriving DecidableEq

/-- `_find`, and the change of the incident found. -/
def changeOne (id : Str) (change : Incident → Except Refused Incident)
    (incidents : List Incident) : Except Refused (List Incident) :=
  match focus (fun inc => inc.id = id) incidents with
  | some found => (change found.here).map found.put
  | none => .error (.notHeld id)

def recordRead (id device : Str) (read : Read) : List Incident → Except Refused (List Incident) :=
  changeOne id (fun inc =>
    if inc.device = device then .ok { inc with toHolder := inc.keep read }
    else
      match inc.memberAt device with
      | some member =>
        .ok { inc with
          attached := member.put { member.here with toHolder := member.here.keep read } }
      | none => .error (.notIn device id))

def settle (id : Str) (judged : Grace.Judged) (incidents : List Incident) :
    Except Refused (List Incident) :=
  if judged.state.settles then
    changeOne id (fun inc =>
      if inc.status ≠ .watching then .error (.status id inc.status)
      else .ok { inc with
        status := .ready
        settled := some ⟨judged.state, judged.first, judged.second, judged.operands⟩ }) incidents
  else .error (.doesNotSettle judged.state)

def claim (id by_ : Str) : List Incident → Except Refused (List Incident) :=
  changeOne id (fun inc =>
    if inc.status ≠ .ready then .error (.status id inc.status)
    else .ok { inc with status := .claimed, claimedBy := some by_ })

def defer (id : Str) (until_ : Clock) (why : Str) (incidents : List Incident) :
    Except Refused (List Incident) :=
  if strip why = [] then .error .noWhy
  else
    changeOne id (fun inc =>
      if inc.status ≠ .claimed ∧ inc.status ≠ .ready then .error (.status id inc.status)
      else .ok { inc with
        status := .watching
        settled := none
        claimedBy := none
        deferUntil := some until_ }) incidents

def close (id why : Str) (incidents : List Incident) : Except Refused (List Incident) :=
  if strip why = [] then .error .noWhy
  else changeOne id (fun inc => .ok { inc with status := .closed }) incidents

def closeWatching (incidents : List Incident) : List Incident :=
  incidents.map (fun inc => if inc.status = .watching then { inc with status := .closed } else inc)

/-- The end of `_mutate`: the closed ones past `CLOSED_KEPT` dropped, oldest
first. -/
def trim (incidents : List Incident) : List Incident :=
  let closed := incidents.filter (fun inc => inc.status = .closed)
  let drop := (closed.take (closed.length - closedKept)).map Incident.id
  incidents.filter (fun inc => !drop.contains inc.id)

inductive Act where
  | sight (draw device : Str) (trigger : Trigger) (now : Clock) (radiusOf : Radius)
  | recordRead (id device : Str) (read : Read)
  | settle (id : Str) (judged : Grace.Judged)
  | claim (id by_ : Str)
  | defer (id : Str) (until_ : Clock) (why : Str)
  | close (id why : Str)
  | closeWatching

def Act.change (incidents : List Incident) : Act → Except Refused (List Incident)
  | .sight draw device trigger now radiusOf =>
    .ok (Heal.sight draw device trigger now radiusOf incidents).incidents
  | .recordRead id device read => Heal.recordRead id device read incidents
  | .settle id judged => Heal.settle id judged incidents
  | .claim id by_ => Heal.claim id by_ incidents
  | .defer id until_ why => Heal.defer id until_ why incidents
  | .close id why => Heal.close id why incidents
  | .closeWatching => .ok (Heal.closeWatching incidents)

/-- `_mutate`: an act and the trim. A refused act writes nothing. -/
def mutate (incidents : List Incident) (act : Act) : List Incident :=
  match act.change incidents with
  | .ok changed => trim changed
  | .error _ => incidents

/-- The store after a run of changes. -/
def run (acts : List Act) : List Incident := acts.foldl mutate []

end Nmas.Heal
