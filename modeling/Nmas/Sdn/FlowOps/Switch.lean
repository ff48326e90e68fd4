import Mathlib.Data.List.Nodup
import Nmas.Sdn.MatchRules

/-!
Contract: what a flow operation is sent to.

Owns:
- meters, and the requests a driver renders, with what `drivers/base.py` and
  `drivers/ryu.py` ask of a flow or a meter before they render it;
- a switch as those requests change it: a flow table that holds one flow at a
  table, priority and match, and one meter under an id.

Does not own: counters and ages. A flow the switch is sent starts without any.
-/

namespace Nmas.Sdn.FlowOps

open Nmas.Text List
open Nmas.Sdn.FlowIntent (normalMatch sameMatch)

/-! ### Meters -/

/-- `METER_BAND_TYPES`, and any other a switch reads back. A DSCP remark has its
`prec_level`. -/
inductive BandType where
  | drop
  | dscpRemark (precLevel : Option Nat)
  | other (name : Str)
deriving DecidableEq

structure Band where
  type : BandType
  rate : Nat
  burstSize : Option Nat
deriving DecidableEq

/-- `METER_FLAGS`, and any other a switch reads back. -/
inductive MeterFlag where
  | kbps
  | pktps
  | burst
  | stats
  | other (name : Str)
deriving DecidableEq

structure Meter where
  meterId : Nat
  flags : List MeterFlag
  bands : List Band
deriving DecidableEq

/-- `MeterFeatures`, in upper case. -/
structure MeterFeatures where
  maxMeter : Nat
  bandTypes : List BandType
  capabilities : List MeterFlag
  maxBands : Nat
deriving DecidableEq

/-- A band without the level of its remark: its `type`, `rate` and `burst_size`. -/
def Band.plain (band : Band) : Band :=
  match band.type with
  | .dscpRemark _ => { band with type := .dscpRemark none }
  | _ => band

/-- A band as it is sent: without a `burst_size`, it has none. -/
def Band.sent (band : Band) : Band := { band with burstSize := some (band.burstSize.getD 0) }

def Meter.sent (meter : Meter) : Meter := { meter with bands := meter.bands.map Band.sent }

@[simp] theorem Meter.sent_meterId (meter : Meter) : meter.sent.meterId = meter.meterId := rfl

theorem Meter.sent_sent (meter : Meter) : meter.sent.sent = meter.sent := by
  simp [Meter.sent, Band.sent, Function.comp_def]

/-! ### Flows, by their place -/

structure Target where
  tableId : Nat
  priority : Nat
  match_ : Match
  cookie : Option Nat

def target (flow : Flow) : Target := ⟨flow.tableId, flow.priority, flow.match_, some flow.cookie⟩

section Places

variable [Unicode] [Readers]

def samePlace (flow : Flow) (target : Target) : Bool :=
  flow.tableId = target.tableId && flow.priority = target.priority &&
    sameMatch flow.match_ target.match_

def named (target : Target) (flow : Flow) : Bool :=
  samePlace flow target && target.cookie.all (flow.cookie = ·)

def find (flows : List Flow) (target : Target) : Option Flow := flows.find? (named target)

end Places

/-! ### Requests -/

/-- What a driver renders; a flow's counters are no part of it. -/
inductive Request where
  | addFlow (flow : Flow)
  | modifyFlowStrict (flow : Flow)
  | deleteFlowStrict (flow : Flow)
  | addMeter (meter : Meter)
  | deleteMeter (meterId : Nat)
deriving DecidableEq

/-- A driver: which requests its controller would read as they are written
(`_body`). -/
class Driver where
  writes : Request → Bool

def reservedPorts : List Str :=
  ["IN_PORT", "TABLE", "NORMAL", "FLOOD", "ALL", "CONTROLLER", "LOCAL", "ANY"].map String.ascii

/-- `_is_int(value) and value >= 0`. -/
def isWhole : Value → Bool
  | .int number => 0 ≤ number
  | _ => false

def isPlain : Value → Bool
  | .int _ | .text _ => true
  | _ => false

def isOxm : Field → Bool
  | .other _ => false
  | _ => true

/-- `ACTION_FIELDS` of a change: whether it carries a number. -/
def takesNumber : Change → Bool
  | .copyTtlOut | .copyTtlIn | .decMplsTtl | .popVlan | .decNwTtl | .popPbb => false
  | .pushVlan | .pushMpls | .popMpls | .pushPbb | .setMplsTtl | .setNwTtl | .setQueue => true

/-- `_action_problems` of an action finds none. -/
def appliedSound : Applied → Bool
  | .output (.text port) => port ∈ reservedPorts
  | .output port => isPlain port
  | .group groupId => isWhole groupId
  | .setField field value => isOxm field && isPlain value
  | .change type argument => argument.isSome = takesNumber type && argument.all isWhole
  | .unparsed _ => false

/-- `_action_problems` of an action or an instruction finds none. -/
def actionSound : Action → Bool
  | .apply action => appliedSound action
  | .gotoTable tableId => isWhole tableId
  | .meter meterId => isWhole meterId
  | .writeMetadata metadata metadataMask => isWhole metadata && isWhole metadataMask
  | .writeActions actions => actions.all appliedSound
  | .clearActions => true

/-- `flow_from_spec` raises nothing. -/
def flowSound (flow : Flow) : Bool :=
  flow.tableId ≤ 0xfe && flow.priority ≤ 0xffff && flow.cookie < 2 ^ 64 &&
    flow.idleTimeout ≤ 0xffff && flow.hardTimeout ≤ 0xffff &&
    flow.match_.all (fun entry => isOxm entry.1 && isPlain entry.2) && flow.actions.all actionSound

/-- A `meter_id` up to `OFPM_MAX`. -/
def meterIdSound (meterId : Nat) : Bool := 1 ≤ meterId && meterId ≤ 0xffff0000

def bandSound (band : Band) : Bool :=
  1 ≤ band.rate && band.rate < 2 ^ 32 && band.burstSize.getD 0 < 2 ^ 32 &&
    match band.type with
    | .drop => true
    | .dscpRemark precLevel => precLevel.any (· ≤ 0xff)
    | .other _ => false

def MeterFlag.isKnown : MeterFlag → Bool
  | .other _ => false
  | _ => true

/-- `meter_from_spec` raises nothing. -/
def meterSound (meter : Meter) : Bool :=
  meterIdSound meter.meterId && meter.flags.all MeterFlag.isKnown &&
    decide (MeterFlag.kbps ∈ meter.flags) != decide (MeterFlag.pktps ∈ meter.flags) &&
    meter.bands ≠ [] && meter.bands.all bandSound

def Request.sound : Request → Bool
  | .addFlow flow | .modifyFlowStrict flow | .deleteFlowStrict flow => flowSound flow
  | .addMeter meter => meterSound meter
  | .deleteMeter meterId => meterIdSound meterId

/-- `_rendered`, none where it is refused. -/
def rendered [Driver] (request : Request) : Option Request :=
  if request.sound && Driver.writes request then some request else none

@[simp] theorem rendered_eq_some [Driver] {request answer : Request} :
    rendered request = some answer ↔
      (request.sound ∧ Driver.writes request) ∧ request = answer := by
  unfold rendered
  split <;> simp_all

/-! ### Places -/

section Switch

variable [Unicode] [Readers]

structure Place where
  tableId : Nat
  priority : Nat
  fields : Field → Option Value

def Target.place (target : Target) : Place :=
  ⟨target.tableId, target.priority, fun field => (normalMatch target.match_).get field⟩

def placeOf (flow : Flow) : Place := (target flow).place

theorem sameMatch_iff {one other : Match} :
    sameMatch one other ↔ ∀ field, (normalMatch one).get field = (normalMatch other).get field := by
  unfold sameMatch
  rw [all_eq_true]
  constructor
  · intro same field
    by_cases inEither : field ∈ (normalMatch one ++ normalMatch other).map Prod.fst
    · exact of_decide_eq_true (same field inEither)
    · rw [map_append, mem_append, not_or] at inEither
      show List.lookup field (normalMatch one) = List.lookup field (normalMatch other)
      rw [lookup_of_not_mem inEither.1, lookup_of_not_mem inEither.2]
  · intro same field _
    exact decide_eq_true (same field)
where
  lookup_of_not_mem {field : Field} {fields : Match} (absent : field ∉ fields.map Prod.fst) :
      List.lookup field fields = none := by
    rw [lookup_eq_none_iff]
    intro entry member
    rw [bne_iff_ne]
    intro same
    exact absent (mem_map.mpr ⟨entry, member, same.symm⟩)

theorem samePlace_iff {flow : Flow} {wanted : Target} :
    samePlace flow wanted ↔ placeOf flow = wanted.place := by
  unfold samePlace placeOf Target.place target
  rw [Bool.and_eq_true, Bool.and_eq_true, decide_eq_true_eq, decide_eq_true_eq, sameMatch_iff,
    Place.mk.injEq, and_assoc, funext_iff]

theorem samePlace_eq_false {flow : Flow} {wanted : Target} :
    samePlace flow wanted = false ↔ placeOf flow ≠ wanted.place := by
  rw [← Bool.not_eq_true, samePlace_iff]

@[simp] theorem target_place (flow : Flow) : (target flow).place = placeOf flow := rfl

def amended (actions : List Action) (flow : Flow) : Flow := { flow with actions := actions }

@[simp] theorem placeOf_amended (actions : List Action) (flow : Flow) :
    placeOf (amended actions flow) = placeOf flow := rfl

/-! ### The switch -/

/-- A switch's flow table and meters: one flow at a place, one meter under an
id. -/
structure Switch where
  flows : List Flow
  meters : List Meter
  onePlace : flows.Pairwise (fun one other => samePlace one (target other) = false)
  oneId : (meters.map Meter.meterId).Nodup

namespace Switch

def execute (switch : Switch) : Request → Switch
  | .addFlow flow =>
    { switch with
      flows := switch.flows.filter (fun held => !samePlace held (target flow)) ++ [flow]
      onePlace := by
        refine List.pairwise_append.mpr ⟨switch.onePlace.filter _, List.pairwise_singleton _ _, ?_⟩
        intro held member other isFlow
        rw [List.mem_singleton.mp isFlow]
        simpa using (List.mem_filter.mp member).2 }
  | .modifyFlowStrict flow =>
    { switch with
      flows := switch.flows.map (fun held =>
        if samePlace held (target flow) then amended flow.actions held else held)
      onePlace := by
        rw [List.pairwise_map]
        apply switch.onePlace.imp
        intro one other differ
        rw [samePlace_eq_false] at differ ⊢
        rw [target_place] at differ ⊢
        split <;> split <;> simpa using differ }
  | .deleteFlowStrict flow =>
    { switch with
      flows := switch.flows.filter (fun held => !named (target flow) held)
      onePlace := switch.onePlace.filter _ }
  | .addMeter meter =>
    { switch with
      meters := switch.meters.filter (fun held => held.meterId ≠ meter.meterId) ++ [meter.sent]
      oneId := by
        rw [List.map_append, List.nodup_append]
        refine ⟨switch.oneId.sublist (List.filter_sublist.map _), List.nodup_singleton _, ?_⟩
        intro meterId member other isSent
        obtain ⟨held, kept, rfl⟩ := List.mem_map.mp member
        rw [List.mem_singleton.mp isSent]
        simpa using (List.mem_filter.mp kept).2 }
  | .deleteMeter meterId =>
    { switch with
      meters := switch.meters.filter (fun held => held.meterId ≠ meterId)
      oneId := switch.oneId.sublist (List.filter_sublist.map _) }

end Switch

end Switch

end Nmas.Sdn.FlowOps
