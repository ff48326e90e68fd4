import Nmas.Alerts.History
import Nmas.Sdn.Detect.Rules

/-!
Contract: one collection judged, and what the detections become.

Owns: `sdn/detect.py`, `observe` and the state it keeps for a network; which
firing detections a collection may resolve.

The rules are run, what they found is held against what is firing, and the
transitions are offered to the alert history. The evidence packs are left out:
a pack that cannot be built or kept changes nothing of this. A state that
cannot be read or written ends the call and is left out too.
-/

namespace Nmas.Sdn.Detect

open Nmas.Text List
open Nmas.Alerts (Instance Identity Row Refusal fromDetections)

/-- The store every transition of a detection names. -/
def store : Str := "sdn".ascii

/-- `TITLES`. -/
def Rule.title : Rule → Str
  | .scan => "SDN scan".ascii
  | .flood => "SDN flood".ascii
  | .unauthorisedFlow => "SDN unauthorised flow".ascii
  | .highRate => "SDN high packet rate".ascii

/-- `RULE_UIDS`. -/
def Rule.uid : Rule → Str
  | .scan => "sdn-scan".ascii
  | .flood => "sdn-flood".ascii
  | .unauthorisedFlow => "sdn-unauthorised-flow".ascii
  | .highRate => "sdn-high-rate".ascii

def Subject.label : Subject → Str × Str
  | .source address => ("source".ascii, address)
  | .port portNo => ("port".ascii, portNo.value.str)
  | .flow id => ("flow".ascii, id)

def Key.labels (key : Key) : List (Str × Str) :=
  [("alertname".ascii, key.rule.title), ("network".ascii, key.network),
    ("connection".ascii, key.connection), ("dpid".ascii, key.dpidHex), key.subject.label]

/-- `instance`. -/
def alertInstance (detection : Detection) (since firedAt : Time) (window : Int) : Instance :=
  ⟨detection.key.rule.title, detection.key.rule.uid, detection.key.labels, since, firedAt, window⟩

structure Entry where
  since : Time
  firedAt : Time
  inst : Instance
  detection : Detection
deriving DecidableEq

def Entry.key (entry : Entry) : Key := entry.detection.key

structure Firing where
  entries : List Entry
  distinct : (entries.map Entry.key).Nodup

/-- What `observe` keeps of a network between collections. -/
structure NetworkState where
  collectedAt : Option Time
  baseline : Baseline
  over_ : Over
  seen : List Seen
  firing : Firing
  unrecorded : List Row

def emptyNetwork : NetworkState :=
  ⟨none, fun _ => none, fun _ => none, [], ⟨[], List.nodup_nil⟩, []⟩

/-! ### What a collection settles -/

/-- What the rules found in a collection, and what they judged. -/
structure Judged where
  detections : List Detection
  judged : List Scope
  over_ : Over
  seen : List Seen
  pending : List Str
  noBaseline : List (Str × Nat)

section Observe

variable [Unicode] [Readers]

/-- The rules over one collection. -/
def judge (collected : Collected) (at_ : Time) (values : Thresholds) (intent : FlowIntent.Intent)
    (topo : Topology) (state : NetworkState) : Judged :=
  let seen := sightings collected at_ values state.seen
  let flooded := flood collected at_ state.baseline values state.over_ topo
  { detections :=
      markReplies (fallback collected values topo ++ scans collected values seen ++
        flooded.detections) collected ++ unauthorised collected intent
    judged := scanJudged collected ++ flooded.judged ++ unauthorisedJudged collected intent
    over_ := flooded.over_, seen := seen
    pending := flooded.pending, noBaseline := flooded.noBaseline }

end Observe

def current (detections : List Detection) : List Detection :=
  detections.foldl (fun held detection => Log.put Detection.key detection held) []

def fire (at_ : Time) (values : Thresholds) (detection : Detection) : Entry :=
  let since := detection.since.getD at_
  let window := if detection.key.rule = .flood then ⌊values.floodWindowSeconds⌋ else 0
  ⟨since, at_, alertInstance detection since at_ window, detection⟩

/-- A firing entry brought up to the collection: the detection it shows now. -/
def Entry.shown (found : List Detection) (entry : Entry) : Entry :=
  { entry with detection := (found.find? (·.key = entry.key)).getD entry.detection }

def absent (found : List Detection) (entry : Entry) : Bool := !found.any (·.key = entry.key)

/-- A firing detection that the collection judged and no longer shows. -/
def ends (judged : Judged) (entry : Entry) : Bool :=
  absent (current judged.detections) entry && entry.detection.scope ∈ judged.judged

def starts (at_ : Time) (values : Thresholds) (judged : Judged) (firing : List Entry) :
    List Entry :=
  ((current judged.detections).filter (fun detection =>
    !firing.any (·.key = detection.key))).map (fire at_ values)

theorem key_shown (found : List Detection) (entry : Entry) :
    (entry.shown found).key = entry.key := by
  unfold Entry.shown Entry.key
  show ((found.find? (·.key = entry.detection.key)).getD entry.detection).key = _
  cases search : found.find? (·.key = entry.detection.key) with
  | none => rfl
  | some detection =>
    have found := List.find?_some search
    exact of_decide_eq_true found

theorem keys_shown (found : List Detection) (entries : List Entry) :
    (entries.map (Entry.shown found)).map Entry.key = entries.map Entry.key := by
  rw [map_map]
  exact map_congr_left (fun entry _ => key_shown found entry)

theorem current_distinct (detections : List Detection) :
    ((current detections).map Detection.key).Nodup := by
  apply List.foldlRecOn detections (fun held detection => Log.put Detection.key detection held)
    (motive := fun held => (held.map Detection.key).Nodup)
  · exact nodup_nil
  · intro held distinct detection _
    exact Log.put_distinct distinct

def settledFiring (at_ : Time) (values : Thresholds) (judged : Judged) (firing : Firing) :
    Firing where
  entries :=
    (firing.entries.filter (fun entry => !ends judged entry)).map
        (Entry.shown (current judged.detections)) ++
      starts at_ values judged firing.entries
  distinct := by
    rw [List.map_append]
    apply List.Nodup.append
    · rw [keys_shown]
      exact firing.distinct.sublist (List.filter_sublist.map _)
    · rw [starts, List.map_map]
      exact (current_distinct judged.detections).sublist (List.filter_sublist.map _)
    · intro key old new
      obtain ⟨entry, entryMember, rfl⟩ := List.mem_map.mp old
      obtain ⟨entry', member, rfl⟩ := List.mem_map.mp entryMember
      rw [starts, List.map_map] at new
      obtain ⟨detection, detectionMember, isKey⟩ := List.mem_map.mp new
      have fresh := (List.mem_filter.mp detectionMember).2
      rw [key_shown] at isKey
      simp only [Bool.not_eq_true', List.any_eq_false, decide_eq_true_eq] at fresh
      exact fresh entry' (List.mem_filter.mp member).1 isKey.symm

/-- What of the detections firing starts, ends and stays unjudged. -/
structure Settled where
  firing : Firing
  fired : List Entry
  resolved : List Entry
  unjudged : List Entry

/-- `observe`, over the detections firing. The entries that end are kept in the
order they started in; the source takes them by their digests. -/
def settle (at_ : Time) (values : Thresholds) (judged : Judged) (firing : Firing) : Settled where
  firing := settledFiring at_ values judged firing
  fired := starts at_ values judged firing.entries
  resolved := firing.entries.filter (ends judged)
  unjudged := firing.entries.filter (fun entry =>
    absent (current judged.detections) entry && !ends judged entry)

/-- What `observe` answers of a collection it judged. -/
structure Answer where
  fired : List Key
  resolved : List Key
  unjudged : List Key
  detections : List Detection
  pending : List Str
  noBaseline : List (Str × Nat)
  recorded : Bool

structure World where
  state : NetworkState
  history : List Row

inductive Unjudged where
  | otherNetwork
  | nothingToJudge
  | olderThanLast
deriving DecidableEq

/-- When the collection was taken, if it can be judged. -/
def judgeable (network : Str) (collected : Collected) (last : Option Time) : Except Unjudged Time :=
  if collected.network ≠ network then .error .otherNetwork
  else
    match collected.collectedAt with
    | none => .error .nothingToJudge
    | some at_ =>
      if collected.state = .none ∨
          (collected.state = .unreadable ∧ collected.controllers.isEmpty) then
        .error .nothingToJudge
      else if last.any (at_ < ·) then .error .olderThanLast
      else .ok at_

def offer (history : List Row) (refusal : Option Refusal) (rows : List Row) : List Row × Bool :=
  if rows.isEmpty then (history, true) else Alerts.record history refusal rows

section Observe

variable [Unicode] [Readers]

/-- A collection taken at a known time, settled and recorded. -/
def observeAt (values : Thresholds) (intent : FlowIntent.Intent) (topo : Topology)
    (refusal : Option Refusal) (world : World) (collected : Collected) (at_ : Time) :
    Answer × World :=
  let judged := judge collected at_ values intent topo world.state
  let settled := settle at_ values judged world.state.firing
  let rows := world.state.unrecorded ++
    fromDetections store (settled.fired.map Entry.inst) (settled.resolved.map Entry.inst) at_
  let recorded := offer world.history refusal rows
  let state : NetworkState :=
    { collectedAt := some at_
      baseline := updateBaseline world.state.baseline collected at_ (fun id =>
        (judged.over_ id).isSome)
      over_ := judged.over_, seen := judged.seen, firing := settled.firing
      unrecorded := if recorded.2 then [] else rows }
  (⟨settled.fired.map Entry.key, settled.resolved.map Entry.key,
      settled.unjudged.map Entry.key, judged.detections, judged.pending, judged.noBaseline,
      recorded.2⟩, ⟨state, recorded.1⟩)

def observe (network : Str) (values : Thresholds) (intent : FlowIntent.Intent) (topo : Topology)
    (refusal : Option Refusal) (world : World) (collected : Collected) :
    Except Unjudged (Answer × World) :=
  (judgeable network collected world.state.collectedAt).map
    (observeAt values intent topo refusal world collected)

theorem observe_ok {network : Str} {values : Thresholds} {intent : FlowIntent.Intent}
    {topo : Topology} {refusal : Option Refusal} {world : World} {collected : Collected}
    {result : Answer × World}
    (observed : observe network values intent topo refusal world collected = .ok result) :
    ∃ at_, judgeable network collected world.state.collectedAt = .ok at_ ∧
      result = observeAt values intent topo refusal world collected at_ := by
  unfold observe at observed
  cases judged : judgeable network collected world.state.collectedAt with
  | error why =>
    rw [judged] at observed
    cases observed
  | ok at_ =>
    rw [judged] at observed
    injection observed with same
    exact ⟨at_, rfl, same.symm⟩

end Observe

end Nmas.Sdn.Detect
