import Nmas.Heal.Incidents
import Nmas.Log.Machine

/-!
Contract: a detect pass of a network, with the store changing under it.

Owns: `heal/detect.py`, `outside_changes`, and `run` and `_one` as the steps
between their accesses to the store: a pass reads the incidents once, judges each
as it read it, and writes what it found of it later. One pass is in flight at a
time (`HealLock`); any other change may land between two of its steps.

Does not own: the mode, the proposals a pass reads again, and what it reports.
-/

namespace Nmas.Heal

open Nmas.Text

/-- A configuration change from outside Mercury, or of unknown author. -/
def Trigger.outside (trigger : Trigger) : Bool :=
  trigger.kind = .configChange ∧ trigger.attribution ≠ some .mercury

namespace Detect

def readsPerPass : Nat := 10

def outsideChanges (inc : Incident) : List Clock :=
  ((inc.triggers.filter Trigger.outside).map Trigger.epoch ++
    (inc.deferUntil.filter (fun until_ => until_ ≠ 0)).toList).mergeSort (· ≤ ·)

/-- An incident taken up by a pass: as the pass read it, with the reads it has
by now, how it judged them, and the members it has yet to look at. -/
structure Work where
  inc : Incident
  reads : List Read
  judged : Grace.Judged
  unread : List Member

/-- Where a pass is: between two incidents, before the read of one's device, or
with its members. `left` is the budget as `_one` counts it. -/
inductive Stage where
  | between
  | reading (inc : Incident) (left : Nat)
  | working (work : Work) (left : Nat)

structure Pass where
  graceSeconds : Clock
  now : Clock
  budget : Nat
  stage : Stage
  rest : List Incident

/-- An incident as a pass settled it, with the reads it judged. -/
structure Settlement where
  inc : Incident
  reads : List Read

structure State where
  incidents : List Incident
  pass : Option Pass
  settled : List Settlement

def start : State := ⟨[], none, []⟩

/-- `settle` is the pass's alone. -/
def isSettle : Act → Bool
  | .settle _ _ => true
  | _ => false

inductive Event where
  /-- A change made elsewhere. -/
  | change (act : Act) (elsewhere : isSettle act = false)
  /-- A pass takes the heal lock and reads the incidents. -/
  | begins (graceSeconds now : Clock)
  /-- The pass's next step; `read` is what the device says, if it is read. -/
  | goesOn (read : Read)

def attempt (incidents : List Incident) (act : Act) : Option (List Incident) :=
  match act.change incidents with
  | .ok changed => some (trim changed)
  | .error _ => none

/-- `_one` ends, or `Refused` leaves it: the pass goes on to the next incident. -/
def Pass.next (pass : Pass) (budget : Nat) : Pass :=
  { pass with budget := budget, stage := .between }

/-- `_one` up to its first access of the store. -/
def Pass.takeUp (pass : Pass) (inc : Incident) : Pass :=
  if inc.deferUntil.getD 0 > pass.now then pass.next pass.budget
  else
    let judged := Grace.judge inc.reads (outsideChanges inc) pass.graceSeconds pass.now
    if ¬ judged.state.settles ∧ judged.dueAt.getD pass.now ≤ pass.now then
      match pass.budget with
      | 0 => pass.next 0
      | left + 1 => { pass with stage := .reading inc left }
    else { pass with stage := .working ⟨inc, inc.reads, judged, inc.attached⟩ pass.budget }

def readOwn (state : State) (pass : Pass) (inc : Incident) (left : Nat) (read : Read) : State :=
  let working := fun reads =>
    let judged := Grace.judge reads (outsideChanges inc) pass.graceSeconds pass.now
    { pass with stage := .working ⟨inc, reads, judged, inc.attached⟩ left }
  if read.state = .busy then { state with pass := some (working inc.reads) }
  else
    match attempt state.incidents (.recordRead inc.id inc.device read) with
    | some incidents =>
      { state with incidents := incidents, pass := some (working (inc.reads ++ [read])) }
    | none => { state with pass := some (pass.next pass.budget) }

def readMember (state : State) (pass : Pass) (work : Work) (member : Member) (left : Nat)
    (read : Read) : State :=
  if member.reads ≠ [] ∨ left = 0 then
    { state with pass := some { pass with stage := .working work left } }
  else if read.state = .busy then
    { state with pass := some { pass with stage := .working work (left - 1) } }
  else
    match attempt state.incidents (.recordRead work.inc.id member.device read) with
    | some incidents =>
      { state with
        incidents := incidents
        pass := some { pass with stage := .working work (left - 1) } }
    | none => { state with pass := some (pass.next pass.budget) }

/-- The end of `_one`. -/
def finishOne (state : State) (pass : Pass) (work : Work) (left : Nat) : State :=
  if work.judged.state.settles then
    match attempt state.incidents (.settle work.inc.id work.judged) with
    | some incidents =>
      { incidents := incidents
        pass := some (pass.next left)
        settled := state.settled ++
          (incidents.filter (fun inc => inc.id = work.inc.id)).map (fun inc => ⟨inc, work.reads⟩) }
    | none => { state with pass := some (pass.next pass.budget) }
  else { state with pass := some (pass.next left) }

def step (state : State) : Event → State
  | .change act _ => { state with incidents := mutate state.incidents act }
  | .begins graceSeconds now =>
    match state.pass with
    | some _ => state
    | none =>
      let watching := state.incidents.filter (fun inc => inc.status = .watching)
      { state with pass := some ⟨graceSeconds, now, readsPerPass, .between, watching⟩ }
  | .goesOn read =>
    match state.pass with
    | none => state
    | some pass =>
      match pass.stage with
      | .between =>
        match pass.rest with
        | [] => { state with pass := none }
        | inc :: rest =>
          { state with pass := some ({ pass with rest := rest }.takeUp inc) }
      | .reading inc left => readOwn state pass inc left read
      | .working work left =>
        match work.unread with
        | member :: unread =>
          readMember state pass { work with unread := unread } member left read
        | [] => finishOne state pass work left

end Detect

end Nmas.Heal
