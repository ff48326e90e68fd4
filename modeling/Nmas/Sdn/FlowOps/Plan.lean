import Nmas.Sdn.FlowOps.Switch

/-!
Contract: the requests a flow operation sends, planned before any is sent.

Owns: `sdn/flow_ops.py`, `plan` and its five step planners: the flows and meters
as the operation leaves them change by change, each step with its undo and what
it should leave, and the changes of the flow intent.

Does not own: the words, the warnings and the hash of a plan, or the words of a
refusal. What plan reads of a network comes with `Site`.
-/

namespace Nmas.Sdn.FlowOps

open Nmas.Text
open Nmas.Sdn.FlowIntent (Record normalMatch sameMatch sameActions)
open Nmas.Sdn.MatchRules (normalise isTableMiss)

/-! ### An ask -/

/-- A change of an ask. Of a flow, its switch and counters are not read. -/
inductive Change where
  | addFlow (flow : Flow) (reinstall : Bool)
  | removeFlow (named : Target)
  | editFlow (named : Target) (flow : Flow)
  | addMeter (meter : Meter) (reinstall : Bool)
  | removeMeter (meterId : Nat)

structure Ask where
  changes : List Change
  response : Bool

def isMeter : Action → Bool
  | .meter _ => true
  | _ => false

def Change.needsMeters : Change → Bool
  | .addMeter _ _ | .removeMeter _ => true
  | .addFlow flow _ | .editFlow _ flow => flow.actions.any isMeter
  | .removeFlow _ => false

/-- What `plan` reads, none where it could not be read: the switch, its meter
features, Mercury's recorded flows on the connection and meters on the switch,
and the longest timeout of a response. -/
structure Site where
  dpid : Nat
  flows : Option (List Flow)
  meters : Option (List Meter)
  features : Option (Option MeterFeatures)
  recorded : Option (List Record)
  recordedMeters : Option (List Meter)
  responseMax : Option Nat

/-! ### A plan -/

inductive Role where
  | addFlow
  | removeFlow
  | editFlow
  | addMeter
  | removeMeter
  | undo
deriving DecidableEq

/-- What a step should leave. -/
inductive Expect where
  | present (flow : Flow)
  | absent (flow : Flow)
  | meter (meter : Meter)
  | noMeter (meterId : Nat)
  | nothing
deriving DecidableEq

structure Step where
  role : Role
  request : Request
  undo : Option Request
  expect : Expect
  reinstall : Bool
deriving DecidableEq

/-- An entry of `intent_changes`. -/
inductive IntentChange where
  | installed (flow : Flow)
  | reinstalled (flow : Flow)
  | withdrawn (cookie : Nat)
  | amended (cookie : Nat) (actions : List Action)
  | meter (meter : Meter)
  | meterReinstalled (meter : Meter)
  | meterWithdrawn (meterId : Nat)
deriving DecidableEq

/-- `plan`'s locals, as a change finds and leaves them. -/
structure Planned where
  table : List Flow
  meters : List Meter
  steps : List Step
  intentChanges : List IntentChange
  needsTyped : Bool
deriving DecidableEq

inductive Refusal where
  | noChange
  | unread
  | breaksMatchRules
  | unsound
  | notMercury
  | noSuchRecord
  | installed
  | cookieUsed
  | placeHeld
  | meterNotHeld
  | timeoutOfResponse
  | unrendered
  | noFlow
  | notRecorded
  | changesNothing
  | cookieNotFresh
  | meterHeld
  | meterPointedAt
  | noFeatures
  | aboveMaxMeter
  | tooManyBands
  | bandNotOffered
  | flagNotOffered
  | burstUnflagged
  | meterInUse
deriving DecidableEq

/-- What the step planners read of a site. -/
structure Context where
  dpid : Nat
  recorded : List Record
  recordedMeters : List Meter
  features : Option MeterFeatures
  response : Option Nat

/-- `is_mercury`: Mercury's prefix in the high bits, and an id. -/
def isMercury (cookie : Nat) : Bool :=
  cookie < 2 ^ 64 && cookie >>> 48 = 0x4d45 && cookie &&& (2 ^ 48 - 1) ≠ 0

def remaining (flow : Flow) : Nat :=
  if flow.hardTimeout = 0 then 0 else max 1 (flow.hardTimeout - flow.durationSec.getD 0)

def meterMissing (meters : List Meter) (actions : List Action) : Bool :=
  actions.any (fun action =>
    match action with
    | .meter meterId => !meters.any (fun meter => meterId = .int meter.meterId)
    | _ => false)

def pointsAt (meterId : Nat) (flow : Flow) : Bool := .meter (.int meterId) ∈ flow.actions

def updateFound (found : Flow) (actions : List Action) : List Flow → List Flow
  | [] => []
  | flow :: rest =>
    if flow = found then amended actions flow :: rest
    else flow :: updateFound found actions rest

namespace Planned

def then_ (planned : Planned) (step : Step) (intentChanges : List IntentChange)
    (table : List Flow) (meters : List Meter) : Planned :=
  { planned with
    table := table, meters := meters, steps := planned.steps ++ [step],
    intentChanges := planned.intentChanges ++ intentChanges }

end Planned

section Planners

variable [Unicode] [Readers]

/-- `recorded.get(cookie)`. -/
def Context.recordOf (context : Context) (cookie : Nat) : Option Record :=
  context.recorded.reverse.find? (fun record => record.cookie = cookie)

/-- The flow `_spec` builds of an ask's. -/
def spec (context : Context) (flow : Flow) : Flow :=
  { flow with
    dpid := context.dpid, match_ := normalise flow.match_,
    packetCount := none, byteCount := none, durationSec := none }

/-- `_spec` refuses the flow it would build. -/
def specRefusal (flow : Flow) : Option Refusal :=
  if MatchRules.problems flow.match_ ++ MatchRules.setFieldProblems flow.match_ flow.actions ≠ [] then
    some .breaksMatchRules
  else if !flowSound flow then some .unsound
  else none

def normalisedTarget (wanted : Target) : Target := { wanted with match_ := normalise wanted.match_ }

/-- A flow of the table, as a request names it. -/
def asRead (context : Context) (flow : Flow) : Flow := spec context flow

/-! ### Flows -/

def isRecordAt (context : Context) (record : Record) (flow : Flow) : Bool :=
  record.dpid = context.dpid && record.tableId = flow.tableId &&
    record.priority = flow.priority && sameMatch record.match_ flow.match_

/-- The refusals of `_plan_add_flow`, before it renders. -/
def addFlowRefusal (context : Context) (flow : Flow) (reinstall : Bool) (response : Option Nat)
    (planned : Planned) : Option Refusal :=
  if (specRefusal flow).isSome then specRefusal flow
  else if !isMercury flow.cookie then some .notMercury
  else if reinstall && !(context.recordOf flow.cookie).any (isRecordAt context · flow) then
    some .noSuchRecord
  else if reinstall && planned.table.any (fun held => held.cookie = flow.cookie) then
    some .installed
  else if !reinstall && ((context.recordOf flow.cookie).isSome ||
      planned.table.any (fun held => held.cookie = flow.cookie)) then
    some .cookieUsed
  else if (find planned.table { target flow with cookie := none }).isSome then some .placeHeld
  else if meterMissing planned.meters flow.actions then some .meterNotHeld
  else if response.any (fun top => flow.hardTimeout = 0 || top < flow.hardTimeout) then
    some .timeoutOfResponse
  else none

variable [Driver]

/-- `_plan_add_flow`, of a flow as `_spec` builds it. -/
def planAddSpec (context : Context) (flow : Flow) (reinstall : Bool) (response : Option Nat)
    (planned : Planned) : Except Refusal Planned :=
  match addFlowRefusal context flow reinstall response planned with
  | some refusal => .error refusal
  | none =>
    match rendered (.addFlow flow), rendered (.deleteFlowStrict flow) with
    | some request, some undo =>
      .ok (planned.then_ ⟨.addFlow, request, some undo, .present flow, reinstall⟩
        [if reinstall then .reinstalled flow else .installed flow]
        (planned.table ++ [flow]) planned.meters)
    | _, _ => .error .unrendered

def planAddFlow (context : Context) (flow : Flow) (reinstall : Bool) (planned : Planned) :
    Except Refusal Planned :=
  planAddSpec context (spec context flow) reinstall context.response planned

def removedSpec (context : Context) (found : Flow) : Flow :=
  { asRead context found with hardTimeout := remaining found }

/-- `_plan_remove_flow`, of the flow found. -/
def planRemoveFound (context : Context) (found : Flow) (planned : Planned) :
    Except Refusal Planned :=
  match rendered (.deleteFlowStrict (removedSpec context found)) with
  | none => .error .unrendered
  | some request =>
    .ok { planned.then_ ⟨.removeFlow, request, rendered (.addFlow (removedSpec context found)),
            .absent (removedSpec context found), false⟩
            (if (context.recordOf found.cookie).isSome then [.withdrawn found.cookie] else [])
            (planned.table.erase found) planned.meters with
          needsTyped := planned.needsTyped || isTableMiss found }

def planRemoveFlow (context : Context) (wanted : Target) (planned : Planned) :
    Except Refusal Planned :=
  match find planned.table (normalisedTarget wanted) with
  | none => .error .noFlow
  | some found => planRemoveFound context found planned

/-- An edit that a modify cannot make: its flow moves, or its timeouts change
(`MODIFY_KEEPS`). -/
def replaces (new found : Flow) : Bool :=
  new.tableId ≠ found.tableId || new.priority ≠ found.priority ||
    !sameMatch new.match_ found.match_ || new.idleTimeout ≠ found.idleTimeout ||
    new.hardTimeout ≠ found.hardTimeout

def modifiedSpec (new found : Flow) : Flow :=
  { new with
    cookie := found.cookie, idleTimeout := found.idleTimeout, hardTimeout := found.hardTimeout }

/-- `_plan_edit_flow` by modify-strict. -/
def planModify (context : Context) (new found : Flow) (planned : Planned) :
    Except Refusal Planned :=
  if sameActions new.actions found.actions then .error .changesNothing
  else
    match rendered (.modifyFlowStrict (modifiedSpec new found)),
      rendered (.modifyFlowStrict (asRead context found)) with
    | some request, some undo =>
      .ok (planned.then_ ⟨.editFlow, request, some undo, .present (modifiedSpec new found), false⟩
        [.amended found.cookie new.actions]
        (updateFound found new.actions planned.table) planned.meters)
    | _, _ => .error .unrendered

/-- `_identity`, its match in the form it is compared in. -/
def identity (flow : Flow) : Target := { target flow with match_ := normalMatch flow.match_ }

/-- `_plan_edit_flow` by a remove and an add: the target is found again, by the
flow's identity. -/
def planReplace (context : Context) (new found : Flow) (planned : Planned) :
    Except Refusal Planned :=
  if new.cookie = found.cookie || !isMercury new.cookie then .error .cookieNotFresh
  else
    (planRemoveFlow context (identity found) planned).bind
      (planAddFlow { context with response := none } new false)

def planEditFlow (context : Context) (wanted : Target) (flow : Flow) (planned : Planned) :
    Except Refusal Planned :=
  match find planned.table (normalisedTarget wanted) with
  | none => .error .noFlow
  | some found =>
    let new := spec context flow
    if (context.recordOf found.cookie).isNone then .error .notRecorded
    else
      match specRefusal new with
      | some refusal => .error refusal
      | none =>
        if meterMissing planned.meters new.actions then .error .meterNotHeld
        else if replaces new found then planReplace context new found planned
        else planModify context new found planned

/-! ### Meters -/

def isRecordedMeter (meter recorded : Meter) : Bool :=
  recorded.flags = meter.flags && recorded.bands.map Band.plain = meter.bands.map Band.plain

/-- The refusals of `_plan_add_meter`, before it renders. -/
def addMeterRefusal (context : Context) (meter : Meter) (reinstall : Bool) (planned : Planned) :
    Option Refusal :=
  if !meterSound meter then some .unsound
  else if reinstall &&
      !(context.recordedMeters.reverse.find? (fun recorded =>
        recorded.meterId = meter.meterId)).any (isRecordedMeter meter) then some .noSuchRecord
  else if planned.meters.any (fun held => held.meterId = meter.meterId) then some .meterHeld
  else if planned.table.any (pointsAt meter.meterId) then some .meterPointedAt
  else
    match context.features with
    | none => some .noFeatures
    | some features =>
      if features.maxMeter ≠ 0 ∧ features.maxMeter < meter.meterId then some .aboveMaxMeter
      else if features.maxBands < meter.bands.length then some .tooManyBands
      else if !meter.bands.all (fun band => band.plain.type ∈ features.bandTypes) then
        some .bandNotOffered
      else if !meter.flags.all (· ∈ features.capabilities) then some .flagNotOffered
      else if meter.bands.any (fun band => band.burstSize.getD 0 ≠ 0) && .burst ∉ meter.flags then
        some .burstUnflagged
      else none

def planAddMeter (context : Context) (meter : Meter) (reinstall : Bool) (planned : Planned) :
    Except Refusal Planned :=
  match addMeterRefusal context meter reinstall planned with
  | some refusal => .error refusal
  | none =>
    match rendered (.addMeter meter), rendered (.deleteMeter meter.meterId) with
    | some request, some undo =>
      .ok (planned.then_ ⟨.addMeter, request, some undo, .meter meter, reinstall⟩
        [if reinstall then .meterReinstalled meter else .meter meter]
        planned.table (planned.meters ++ [meter]))
    | _, _ => .error .unrendered

def Meter.plain (meter : Meter) : Meter := { meter with bands := meter.bands.map Band.plain }

def planRemoveMeter (meterId : Nat) (planned : Planned) : Except Refusal Planned :=
  match planned.meters.find? (fun meter => meter.meterId = meterId) with
  | none => .error .meterNotHeld
  | some held =>
    if planned.table.any (pointsAt meterId) then .error .meterInUse
    else
      match rendered (.deleteMeter meterId) with
      | none => .error .unrendered
      | some request =>
        .ok (planned.then_
          ⟨.removeMeter, request, rendered (.addMeter held.plain), .noMeter meterId, false⟩
          [.meterWithdrawn meterId] planned.table
          (planned.meters.filter (fun meter => meter.meterId ≠ meterId)))

/-! ### The plan -/

def planChange (context : Context) (planned : Planned) : Change → Except Refusal Planned
  | .addFlow flow reinstall => planAddFlow context flow reinstall planned
  | .removeFlow wanted => planRemoveFlow context wanted planned
  | .editFlow wanted flow => planEditFlow context wanted flow planned
  | .addMeter meter reinstall => planAddMeter context meter reinstall planned
  | .removeMeter meterId => planRemoveMeter meterId planned

/-- The changes of an ask, each planned as the ones before it leave the switch. -/
def planChanges (context : Context) (planned : Planned) : List Change → Except Refusal Planned
  | [] => .ok planned
  | change :: rest =>
    (planChange context planned change).bind (fun next => planChanges context next rest)

def readSwitch (site : Site) (changes : List Change) :
    Option (List Flow × List Meter × Option MeterFeatures) :=
  site.flows.bind (fun flows =>
    if changes.any Change.needsMeters then
      site.meters.bind (fun meters => site.features.map (fun features => (flows, meters, features)))
    else some (flows, [], none))

/-- Where `plan` starts: what its planners read, and the switch as read. -/
def opening (site : Site) (ask : Ask) : Option (Context × Planned) :=
  match readSwitch site ask.changes, site.recorded, responseMax, recordedMeters with
  | some (flows, meters, features), some recorded, some response, some recordedMeters =>
    some (⟨site.dpid, recorded, recordedMeters, features, response⟩, ⟨flows, meters, [], [], false⟩)
  | _, _, _, _ => none
where
  /-- The longest timeout, of a response. -/
  responseMax : Option (Option Nat) := if ask.response then site.responseMax.map some else some none
  /-- Mercury's recorded meters, where a change reinstalls one. -/
  recordedMeters : Option (List Meter) :=
    if ask.changes.any reinstallsMeter then site.recordedMeters else some []
  reinstallsMeter : Change → Bool
    | .addMeter _ reinstall => reinstall
    | _ => false

def plan (site : Site) (ask : Ask) : Except Refusal Planned :=
  if ask.changes = [] then .error .noChange
  else
    match opening site ask with
    | none => .error .unread
    | some (context, start) => planChanges context start ask.changes

end Planners

end Nmas.Sdn.FlowOps
