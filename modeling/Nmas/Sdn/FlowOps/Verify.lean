import Nmas.Sdn.FlowOps.Plan

/-!
Contract: what a flow operation does on the switch once it is confirmed.

Owns: `sdn/flow_ops.py`, `_send`, `verify_installed` and `_rollback`, over a
switch that carries out what its controller accepts.

Does not own: the words of a check, the counters, or the record of the
operation. `answers` says of each request in turn whether the controller
accepts it.
-/

namespace Nmas.Sdn.FlowOps

open Nmas.Text
open Nmas.Sdn.FlowIntent (sameMatch sameActions)

/-! ### Verify -/

/-- One read of the table and the meters, none where it failed. -/
structure Reading where
  flows : Option (List Flow)
  meters : Option (List Meter)

section Verify

variable [Unicode] [Readers]

/-- `_present` finds nothing to say: the flow is found and as sent. -/
def isPresent (flows : List Flow) (spec : Flow) : Bool :=
  (find flows (target spec)).any (fun hit =>
    hit.tableId = spec.tableId && hit.priority = spec.priority &&
      sameMatch spec.match_ hit.match_ && sameActions spec.actions hit.actions &&
      hit.hardTimeout = spec.hardTimeout)

def comparedBands (meter : Meter) : List Band := meter.bands.map (fun band => band.plain.sent)

def checkOf (flows : List Flow) (meters : List Meter) : Expect → Option Bool
  | .present flow => some (isPresent flows flow)
  | .absent flow => some (find flows (target flow)).isNone
  | .meter want =>
    some ((meters.find? (fun meter => meter.meterId = want.meterId)).any (fun held =>
      comparedBands held = comparedBands want))
  | .noMeter meterId => some (!meters.any (fun meter => meter.meterId = meterId))
  | .nothing => none

def Expect.needsMeters : Expect → Bool
  | .meter _ | .noMeter _ => true
  | _ => false

def checksOf (expects : List Expect) (reading : Reading) : List Bool :=
  match reading.flows with
  | none => [false]
  | some flows =>
    if expects.any Expect.needsMeters then
      (if reading.meters.isNone then [false] else []) ++
        expects.filterMap (checkOf flows (reading.meters.getD []))
    else expects.filterMap (checkOf flows [])

/-- `verify_installed`: one of the reads passes, with a check at all. -/
def verifyInstalled (expects : List Expect) (readings : List Reading) : Bool :=
  readings.any (fun reading => checksOf expects reading ≠ [] && (checksOf expects reading).all id)

def verifyReads : Nat := 4

/-- The reads of a switch that nothing else changes. -/
def Switch.readings (switch : Switch) : List Reading :=
  List.replicate verifyReads ⟨some switch.flows, some switch.meters⟩

/-! ### The apply -/

/-- `_send`: the switch reached, and the steps that landed. -/
def send : (answers : Nat → Bool) → Switch → List Step → Switch × List Step
  | _, switch, [] => (switch, [])
  | answers, switch, step :: rest =>
    if answers 0 then
      let sent := send (fun request => answers (request + 1)) (switch.execute step.request) rest
      (sent.1, step :: sent.2)
    else (switch, [])

def Request.flow : Request → Option Flow
  | .addFlow flow | .modifyFlowStrict flow | .deleteFlowStrict flow => some flow
  | .addMeter _ | .deleteMeter _ => none

def inverse (step : Step) : Expect :=
  match step.expect with
  | .present flow =>
    if step.role = .addFlow then .absent flow
    else if step.role = .editFlow then
      ((step.undo.bind Request.flow).map Expect.present).getD .nothing
    else .nothing
  | .absent flow => .present flow
  | .meter meter => .noMeter meter.meterId
  | .noMeter _ | .nothing => .nothing

/-- `_rollback`'s locals: the switch, whether every undo was sent, and the
inverses of the steps undone. -/
structure Undone where
  switch : Switch
  ok : Bool
  inverses : List Expect

def undoSteps : (answers : Nat → Bool) → Undone → List Step → Undone
  | _, undone, [] => undone
  | answers, undone, step :: older =>
    match step.undo with
    | none => undoSteps answers { undone with ok := false } older
    | some undo =>
      undoSteps (fun request => answers (request + 1))
        (if answers 0 then
          { undone with
            switch := undone.switch.execute undo
            inverses := undone.inverses ++ [inverse step] }
        else { undone with ok := false })
        older

/-- `_rollback`: the switch as it is left, and `ok`. -/
def rollback (answers : Nat → Bool) (switch : Switch) (landed : List Step) : Switch × Bool :=
  let undone := undoSteps answers ⟨switch, true, []⟩ landed.reverse
  (undone.switch,
    undone.ok &&
      (undone.inverses.isEmpty || verifyInstalled undone.inverses undone.switch.readings))

end Verify

end Nmas.Sdn.FlowOps
