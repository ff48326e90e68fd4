import Nmas.Sdn.Detect.Resolves
import Nmas.Sdn.Detect.Sustained

/-!
Contract: when each detection of a collection is about a subject of its own.

Owns: what each rule finds of a port's rate, port by port, and that the keys of
a collection's detections are distinct exactly where no port is found twice.

Two rules find a high rate: the scan rule on a switch whose destination ports
it cannot count, and the flood rule on a port over its limit that it does not
call a flood. Neither asks whether the other did.
-/

namespace Nmas.Sdn.Detect

open Nmas.Text List

abbrev PortEntry := Controller × Switch × Port

theorem flood_ofPort : Rule.flood = .flood ∨ Rule.flood = .highRate := .inl rfl

theorem highRate_ofPort : Rule.highRate = .flood ∨ Rule.highRate = .highRate := .inr rfl

/-- A collection as it is made: each switch of a connection is listed once, and
each port and flow entry of a switch once, under an id of its own. -/
structure Listed (collected : Collected) : Prop where
  eachSwitch : ((switches collected).map (fun pair =>
    (pair.1.connection, pair.2.dpidHex))).Nodup
  eachPort : ∀ pair ∈ switches collected, (pair.2.ports.map Port.portNo).Nodup
  ownPortIds : ((ports collected).map (·.2.2.id)).Nodup
  eachFlow : ∀ pair ∈ switches collected, (pair.2.flows.map ReadFlow.id).Nodup

def portKey (collected : Collected) (rule : Rule) (entry : PortEntry) : Key :=
  keyOn rule collected entry.1 entry.2.1 (.port entry.2.2.portNo)

def Key.place (key : Key) : Str × Str × Subject := (key.connection, key.dpidHex, key.subject)

def PortEntry.place (entry : PortEntry) : Str × Str × Subject :=
  (entry.1.connection, entry.2.1.dpidHex, .port entry.2.2.portNo)

def isRated (values : Thresholds) (entry : PortEntry) : Bool :=
  !portsCounted entry.2.1 && entry.2.2.rxPps.any (values.scanFallbackPps ≤ ·)

def Verdict.heldSince : Verdict → Option Time
  | .held since => some since
  | .noBaseline _ | .under | .pending _ => none

/-- Since when the port has been over its limit, if for the whole window. -/
def heldSince (at_ : Time) (baseline : Baseline) (values : Thresholds) (over_ : Over)
    (port : Port) : Option Time :=
  port.rxPps.bind (fun rate => (verdict at_ baseline values over_ port.id rate).heldSince)

def hasLargePackets (values : Thresholds) (port : Port) : Bool :=
  (portMean port).any (fun mean => values.floodMaxMeanBytes < mean)

section Rates

variable [Readers]

def hasTransfer (topo : Topology) (entry : PortEntry) : Bool :=
  (transfer entry.2.1 entry.2.2.portNo topo entry.1.connection).isSome

def sendsTo (topo : Topology) (entry : PortEntry) : List Str :=
  let flows := entering entry.2.1 entry.2.2.portNo
  (targets flows ++ dstHosts flows topo entry.1.connection).map canonAddr

def namedSource (topo : Topology) (entry : PortEntry) : Option Str :=
  (portDetectionSource (entering entry.2.1 entry.2.2.portNo) topo entry.1.connection
    entry.2.1.dpid entry.2.2.portNo).1

/-- The ports held over their limit whose packets are large, none a transfer. -/
def largeHeld (collected : Collected) (at_ : Time) (baseline : Baseline) (values : Thresholds)
    (over_ : Over) (topo : Topology) : List PortEntry :=
  (ports collected).filter (fun entry =>
    (heldSince at_ baseline values over_ entry.2.2).isSome &&
      (!hasTransfer topo entry && hasLargePackets values entry.2.2))

def isAttack (topo : Topology) (large : List PortEntry) (entry : PortEntry) : Bool :=
  (sendsTo topo entry).any (fun host => host ≠ [] &&
    attackSources ≤ (((large.filter (fun other => host ∈ sendsTo topo other)).filterMap
      (namedSource topo)).filter (· ≠ [])).dedup.length)

/-- The port's traffic is not a flood's: a transfer, or large packets that are
no attack's. -/
def isWatched (topo : Topology) (values : Thresholds) (large : List PortEntry)
    (entry : PortEntry) : Bool :=
  hasTransfer topo entry || (hasLargePackets values entry.2.2 && !isAttack topo large entry)

def heldRule (topo : Topology) (values : Thresholds) (large : List PortEntry)
    (entry : PortEntry) : Rule :=
  if isWatched topo values large entry then .highRate else .flood

/-- No port is found by both: none of a switch whose ports are not counted is
at the scan rule's rate while the flood rule watches it. -/
def FoundOnce (collected : Collected) (at_ : Time) (baseline : Baseline) (values : Thresholds)
    (over_ : Over) (topo : Topology) : Prop :=
  ∀ entry ∈ ports collected,
    ¬ (isRated values entry = true ∧ (heldSince at_ baseline values over_ entry.2.2).isSome = true ∧
      isWatched topo values (largeHeld collected at_ baseline values over_ topo) entry = true)

instance (collected : Collected) (at_ : Time) (baseline : Baseline) (values : Thresholds)
    (over_ : Over) (topo : Topology) :
    Decidable (FoundOnce collected at_ baseline values over_ topo) :=
  inferInstanceAs (Decidable (∀ entry ∈ ports collected, _))

end Rates

/-! ### Lists whose members are told apart -/

section Lists

variable {α β γ : Type}

theorem nodup_map_filterMap {list : List α} {found : α → Option β} {name : β → γ} {key : α → γ}
    (agrees : ∀ one new, found one = some new → name new = key one)
    (distinct : (list.map key).Nodup) : ((list.filterMap found).map name).Nodup := by
  induction list with
  | nil => exact nodup_nil
  | cons one rest ih =>
    rw [map_cons, nodup_cons] at distinct
    rw [filterMap_cons]
    cases isFound : found one with
    | none => exact ih distinct.2
    | some new =>
      show (name new :: (rest.filterMap found).map name).Nodup
      rw [nodup_cons]
      refine ⟨?_, ih distinct.2⟩
      intro again
      obtain ⟨other, member, same⟩ := mem_map.mp again
      obtain ⟨two, inRest, isOther⟩ := mem_filterMap.mp member
      rw [agrees one new isFound, agrees two other isOther] at same
      exact distinct.1 (same ▸ mem_map_of_mem inRest)

theorem filterMap_append_perm {list : List α} {early late all : α → Option β}
    (either : ∀ one, (early one = all one ∧ late one = none) ∨
      (late one = all one ∧ early one = none)) :
    (list.filterMap early ++ list.filterMap late).Perm (list.filterMap all) := by
  induction list with
  | nil => exact List.Perm.refl []
  | cons one rest ih =>
    rcases either one with ⟨isEarly, notLate⟩ | ⟨isLate, notEarly⟩
    · rw [filterMap_cons, filterMap_cons, filterMap_cons, isEarly, notLate]
      cases all one with
      | none => exact ih
      | some new => exact ih.cons new
    · rw [filterMap_cons, filterMap_cons, filterMap_cons, isLate, notEarly]
      cases all one with
      | none => exact ih
      | some new => exact perm_middle.trans (ih.cons new)

theorem nodup_flatMap_named {list : List α} {inner : α → List β} (whose : β → γ) {name : α → γ}
    (named : ∀ one ∈ list, ∀ new ∈ inner one, whose new = name one)
    (distinct : (list.map name).Nodup) (each : ∀ one ∈ list, (inner one).Nodup) :
    (list.flatMap inner).Nodup := by
  rw [nodup_flatMap]
  refine ⟨each, ?_⟩
  have apart : list.Pairwise (fun one other => name one ≠ name other) :=
    pairwise_map.mp distinct
  apply apart.imp_of_mem
  intro one other isOne isOther differ new ofOne ofOther
  exact differ ((named one isOne new ofOne).symm.trans (named other isOther new ofOther))

end Lists

/-! ### The flood rule, port by port -/

section Ports

variable [Readers] (collected : Collected) (at_ : Time) (baseline : Baseline)
  (values : Thresholds) (over_ : Over) (topo : Topology)

/-- A held port as a flood, and as a large-packet stream. -/
def candidate (entry : PortEntry) (since : Time) : Large :=
  let flows := entering entry.2.1 entry.2.2.portNo
  let named := portDetectionSource flows topo entry.1.connection entry.2.1.dpid entry.2.2.portNo
  let detection (rule : Rule) (isPort : rule = .flood ∨ rule = .highRate) (basis : Basis) :=
    portDetection rule isPort basis collected entry.1 entry.2.1 entry.2.2 named.1 named.2.1
      (targets flows) (dstHosts flows topo entry.1.connection) (some since)
  ⟨detection .flood flood_ofPort .rate, detection .highRate highRate_ofPort .largePackets⟩

def heldDetection (entry : PortEntry) (since : Time) : Option Detection :=
  match transfer entry.2.1 entry.2.2.portNo topo entry.1.connection with
  | some shape =>
    some (portDetection .highRate highRate_ofPort .transfer collected entry.1 entry.2.1 entry.2.2
      (if shape.side = .data then namedSource topo entry else none) [] [] [] (some since))
  | none =>
    if hasLargePackets values entry.2.2 then none
    else some (candidate collected topo entry since).flood

def heldLarge (entry : PortEntry) (since : Time) : Option Large :=
  if !hasTransfer topo entry && hasLargePackets values entry.2.2 then
    some (candidate collected topo entry since)
  else none

variable {collected at_ baseline values over_ topo} {entry : PortEntry} {since : Time}

theorem heldFlood_adds (acc : Flooded) :
    let found := heldFlood collected values topo entry.1 entry.2.1 entry.2.2 since acc
    found.detections = acc.detections ++ (heldDetection collected values topo entry since).toList ∧
      found.large = acc.large ++ (heldLarge collected values topo entry since).toList := by
  unfold heldFlood heldDetection heldLarge hasTransfer
  cases transfer entry.2.1 entry.2.2.portNo topo entry.1.connection with
  | some shape => exact ⟨rfl, (append_nil _).symm⟩
  | none =>
    show _ ∧ _
    unfold hasLargePackets
    cases (portMean entry.2.2).any (fun mean => values.floodMaxMeanBytes < mean) with
    | false => exact ⟨rfl, (append_nil _).symm⟩
    | true => exact ⟨(append_nil _).symm, rfl⟩

theorem note_adds (acc : Flooded) (decided : Verdict) :
    let found := Flooded.note collected values topo entry.1 entry.2.1 entry.2.2 acc decided
    found.detections = acc.detections ++
        (decided.heldSince.bind (heldDetection collected values topo entry)).toList ∧
      found.large = acc.large ++
        (decided.heldSince.bind (heldLarge collected values topo entry)).toList := by
  cases decided with
  | noBaseline samples => exact ⟨(append_nil _).symm, (append_nil _).symm⟩
  | under => exact ⟨(append_nil _).symm, (append_nil _).symm⟩
  | pending since => exact ⟨(append_nil _).symm, (append_nil _).symm⟩
  | held since => exact heldFlood_adds (acc.overSince entry.2.2.id since)

variable (collected at_ baseline values topo) in
theorem floodPort_adds {acc : Flooded} (same : acc.over_ entry.2.2.id = over_ entry.2.2.id) :
    let found := floodPort collected at_ baseline values topo acc entry
    found.detections = acc.detections ++ ((heldSince at_ baseline values over_ entry.2.2).bind
        (heldDetection collected values topo entry)).toList ∧
      found.large = acc.large ++ ((heldSince at_ baseline values over_ entry.2.2).bind
        (heldLarge collected values topo entry)).toList := by
  unfold floodPort heldSince
  cases entry.2.2.rxPps with
  | none => exact ⟨(append_nil _).symm, (append_nil _).symm⟩
  | some rate =>
    have isVerdict : verdict at_ baseline values over_ entry.2.2.id rate =
        verdict at_ baseline values acc.over_ entry.2.2.id rate := by
      unfold verdict
      rw [same]
    rw [Option.bind_some, isVerdict]
    exact note_adds _ _

variable (collected at_ baseline values topo) in
theorem foldl_adds {entries : List PortEntry} (distinct : (entries.map (·.2.2.id)).Nodup)
    {acc : Flooded} (same : ∀ entry ∈ entries, acc.over_ entry.2.2.id = over_ entry.2.2.id) :
    let found := entries.foldl (floodPort collected at_ baseline values topo) acc
    found.detections = acc.detections ++ entries.filterMap (fun entry =>
        (heldSince at_ baseline values over_ entry.2.2).bind
          (heldDetection collected values topo entry)) ∧
      found.large = acc.large ++ entries.filterMap (fun entry =>
        (heldSince at_ baseline values over_ entry.2.2).bind
          (heldLarge collected values topo entry)) := by
  induction entries generalizing acc with
  | nil => exact ⟨(append_nil _).symm, (append_nil _).symm⟩
  | cons entry rest ih =>
    rw [map_cons, nodup_cons] at distinct
    have kept : ∀ other ∈ rest,
        (floodPort collected at_ baseline values topo acc entry).over_ other.2.2.id =
          over_ other.2.2.id := by
      intro other member
      have differs : entry.2.2.id ≠ other.2.2.id := fun isEntry =>
        distinct.1 (mem_map.mpr ⟨other, member, isEntry.symm⟩)
      rw [floodPort_over_other collected at_ baseline values topo acc (.inr differs)]
      exact same other (.tail _ member)
    obtain ⟨detections, large⟩ := floodPort_adds collected at_ baseline values topo
      (same entry (.head _))
    obtain ⟨restDetections, restLarge⟩ := ih distinct.2 kept
    rw [foldl_cons]
    dsimp only
    rw [restDetections, restLarge, detections, large, filterMap_cons, filterMap_cons,
      append_assoc, append_assoc]
    constructor
    · cases (heldSince at_ baseline values over_ entry.2.2).bind
        (heldDetection collected values topo entry) with
      | none => rfl
      | some detection => rfl
    · cases (heldSince at_ baseline values over_ entry.2.2).bind
        (heldLarge collected values topo entry) with
      | none => rfl
      | some candidate => rfl

/-! ### The keys of a port's detections -/

theorem heldDetection_key :
    (heldDetection collected values topo entry since).map Detection.key =
      if hasTransfer topo entry then some (portKey collected .highRate entry)
      else if hasLargePackets values entry.2.2 then none
      else some (portKey collected .flood entry) := by
  unfold heldDetection hasTransfer
  cases transfer entry.2.1 entry.2.2.portNo topo entry.1.connection with
  | some shape => rfl
  | none =>
    cases hasLargePackets values entry.2.2 with
    | false | true => rfl

variable (collected at_ baseline values over_ topo) in
def largeFound : List Large :=
  (ports collected).filterMap (fun entry =>
    (heldSince at_ baseline values over_ entry.2.2).bind (heldLarge collected values topo entry))

theorem largeFound_sources (host : Str) :
    ((largeFound collected at_ baseline values over_ topo).filter (fun other =>
        host ∈ destinations other.flood)).filterMap (·.flood.source) =
      ((largeHeld collected at_ baseline values over_ topo).filter (fun other =>
        host ∈ sendsTo topo other)).filterMap (namedSource topo) := by
  unfold largeFound largeHeld
  rw [filterMap_filter, filterMap_filter, filterMap_filterMap, filterMap_filter]
  apply filterMap_congr
  intro entry _
  unfold heldLarge
  cases heldSince at_ baseline values over_ entry.2.2 with
  | none => rfl
  | some since =>
    cases !hasTransfer topo entry && hasLargePackets values entry.2.2 with
    | false | true => rfl

theorem attacked_eq :
    attacked (largeFound collected at_ baseline values over_ topo)
        (candidate collected topo entry since) =
      isAttack topo (largeHeld collected at_ baseline values over_ topo) entry := by
  unfold attacked isAttack
  congr 1
  funext host
  rw [largeFound_sources]

variable (collected at_ baseline values over_ topo) in
def settledLarge (candidate : Large) : Detection :=
  if attacked (largeFound collected at_ baseline values over_ topo) candidate then candidate.flood
  else candidate.watched

variable (at_ baseline values over_ topo) in
theorem flood_found (own : ((ports collected).map (·.2.2.id)).Nodup) :
    (flood collected at_ baseline values over_ topo).detections =
      (ports collected).filterMap (fun entry =>
          (heldSince at_ baseline values over_ entry.2.2).bind
            (heldDetection collected values topo entry)) ++
        (largeFound collected at_ baseline values over_ topo).map
          (settledLarge collected at_ baseline values over_ topo) := by
  have same : ∀ entry ∈ ports collected,
      (⟨[], [], over_, [], [], []⟩ : Flooded).over_ entry.2.2.id = over_ entry.2.2.id :=
    fun _ _ => rfl
  obtain ⟨detections, large⟩ := foldl_adds collected at_ baseline values topo own same
  rw [flood_detections, detections, large]
  rfl

theorem heldLarge_key :
    (heldLarge collected values topo entry since).map (fun candidate =>
        (settledLarge collected at_ baseline values over_ topo candidate).key) =
      if !hasTransfer topo entry && hasLargePackets values entry.2.2 then
        some (portKey collected
          (if isAttack topo (largeHeld collected at_ baseline values over_ topo) entry then .flood
            else .highRate) entry)
      else none := by
  unfold heldLarge
  cases !hasTransfer topo entry && hasLargePackets values entry.2.2 with
  | false => rfl
  | true =>
    show some (settledLarge collected at_ baseline values over_ topo
      (candidate collected topo entry since)).key = _
    unfold settledLarge
    rw [attacked_eq]
    cases isAttack topo (largeHeld collected at_ baseline values over_ topo) entry with
    | false | true => rfl

theorem flood_keys_perm (own : ((ports collected).map (·.2.2.id)).Nodup) :
    ((flood collected at_ baseline values over_ topo).detections.map Detection.key).Perm
      ((ports collected).filterMap (fun entry =>
        (heldSince at_ baseline values over_ entry.2.2).map (fun _ =>
          portKey collected
            (heldRule topo values (largeHeld collected at_ baseline values over_ topo) entry)
            entry))) := by
  have settled : ((largeFound collected at_ baseline values over_ topo).map
      (settledLarge collected at_ baseline values over_ topo)).map Detection.key =
      (ports collected).filterMap (fun entry =>
        ((heldSince at_ baseline values over_ entry.2.2).bind
          (heldLarge collected values topo entry)).map (fun candidate =>
            (settledLarge collected at_ baseline values over_ topo candidate).key)) := by
    rw [map_map]
    exact map_filterMap
  rw [flood_found at_ baseline values over_ topo own, map_append, map_filterMap]
  refine (List.Perm.of_eq (congrArg (_ ++ ·) settled)).trans ?_
  apply filterMap_append_perm
  intro entry
  cases heldSince at_ baseline values over_ entry.2.2 with
  | none => exact .inl ⟨rfl, rfl⟩
  | some since =>
    rw [Option.bind_some, Option.bind_some, Option.map_some, heldDetection_key, heldLarge_key]
    unfold heldRule isWatched
    cases hasTransfer topo entry with
    | true => exact .inl ⟨rfl, rfl⟩
    | false =>
      cases hasLargePackets values entry.2.2 with
      | false => exact .inl ⟨rfl, rfl⟩
      | true =>
        cases isAttack topo (largeHeld collected at_ baseline values over_ topo) entry with
        | false | true => exact .inr ⟨rfl, rfl⟩

end Ports

/-! ### The other rules' keys -/

section Others

variable [Readers] {collected : Collected} {at_ : Time} {values : Thresholds} {topo : Topology}

omit [Readers] in
theorem isRated_of_rate {entry : PortEntry} {rate : ℚ}
    (notCounted : portsCounted entry.2.1 = false) (isRate : entry.2.2.rxPps = some rate) :
    isRated values entry = decide (values.scanFallbackPps ≤ rate) := by
  unfold isRated
  rw [notCounted, isRate]
  rfl

theorem fallback_keys :
    (fallback collected values topo).map Detection.key =
      (ports collected).filterMap (fun entry =>
        if isRated values entry then some (portKey collected .highRate entry) else none) := by
  unfold fallback ports
  rw [map_flatMap, filterMap_flatMap]
  congr 1
  funext ⟨controller, switch⟩
  rw [filterMap_map]
  dsimp only
  cases isCounted : portsCounted switch with
  | true =>
    rw [if_pos rfl]
    symm
    rw [map_nil, filterMap_eq_nil_iff]
    intro port _
    show (if isRated values (controller, switch, port) then _ else _) = _
    unfold isRated
    rw [isCounted]
    rfl
  | false =>
    rw [if_neg Bool.false_ne_true, map_filterMap]
    congr 1
    funext port
    show _ = (if isRated values (controller, switch, port) then _ else _)
    cases isRate : port.rxPps with
    | none =>
      unfold isRated
      rw [isRate, Option.any_none, Bool.and_false]
      rfl
    | some rate =>
      rw [isRated_of_rate isCounted isRate]
      dsimp only
      by_cases low : rate < values.scanFallbackPps
      · rw [if_pos low, decide_eq_false (not_le.mpr low)]
        rfl
      · rw [if_neg low, decide_eq_true (not_lt.mp low)]
        rfl

omit [Readers] in
theorem noteSighting_distinct {place : Str × Str × Str} {sighting : Sighting} {seen : List Seen}
    (distinct : (seen.map Seen.place).Nodup) :
    ((noteSighting place sighting seen).map Seen.place).Nodup :=
  Log.put_distinct distinct

theorem sighted_distinct {controller : Controller} {switch : Switch} {seen : List Seen}
    (distinct : (seen.map Seen.place).Nodup) :
    ((sighted at_ controller switch seen).map Seen.place).Nodup := by
  unfold sighted
  refine List.foldlRecOn switch.flows _ (motive := fun held : List Seen =>
    (held.map Seen.place).Nodup) distinct ?_
  · intro held heldDistinct flow _
    split
    · exact noteSighting_distinct heldDistinct
    · exact heldDistinct

theorem sightings_distinct {seen : List Seen} (distinct : (seen.map Seen.place).Nodup) :
    ((sightings collected at_ values seen).map Seen.place).Nodup := by
  unfold sightings
  dsimp only
  have allDistinct : ((((switches collected).filter (fun pair => portsCounted pair.2)).foldl
      (fun seen pair => sighted at_ pair.1 pair.2 seen) seen).map Seen.place).Nodup := by
    refine List.foldlRecOn _ _ (motive := fun held : List Seen => (held.map Seen.place).Nodup)
      distinct ?_
    intro held heldDistinct pair _
    exact sighted_distinct heldDistinct
  refine nodup_map_filterMap ?_ allDistinct
  intro entry kept isKept
  split at isKept
  · cases isKept
  · cases isKept
    rfl

omit [Readers] in
theorem scans_distinct {seen : List Seen} (distinct : (seen.map Seen.place).Nodup) :
    ((scans collected values seen).map Detection.key).Nodup := by
  have distinctKeys : (seen.map (fun entry : Seen => (⟨.scan, collected.network, entry.connection,
      entry.dpidHex, .source entry.source⟩ : Key))).Nodup := by
    have injective : Function.Injective (fun place : Str × Str × Str =>
        (⟨.scan, collected.network, place.1, place.2.1, .source place.2.2⟩ : Key)) := by
      rintro ⟨connection, dpidHex, source⟩ ⟨_, _, _⟩ same
      cases same
      rfl
    have keys := distinct.map injective
    rw [map_map] at keys
    exact keys
  refine nodup_map_filterMap ?_ distinctKeys
  intro entry detection isDetection
  split at isDetection
  · rename_i controller switch found
    split at isDetection
    · cases isDetection
    · cases isDetection
      have isNamed := List.find?_some found
      simp only [Bool.and_eq_true, decide_eq_true_eq] at isNamed
      show (⟨.scan, collected.network, controller.connection, switch.dpidHex,
        .source entry.source⟩ : Key) = _
      rw [isNamed.1.2, isNamed.2]
  · cases isDetection

theorem unauthorised_distinct [Unicode] (listed : Listed collected) (intent : FlowIntent.Intent) :
    ((unauthorised collected intent).map Detection.key).Nodup := by
  unfold unauthorised readSwitches
  cases intent with
  | none => exact nodup_nil
  | some records =>
    dsimp only
    rw [map_flatMap]
    have readOnce := listed.eachSwitch.sublist
      ((filter_sublist (p := fun pair : Controller × Switch =>
        pair.2.activeFlows.isSome)).map (fun pair => (pair.1.connection, pair.2.dpidHex)))
    refine nodup_flatMap_named (fun key : Key => (key.connection, key.dpidHex)) ?_ readOnce ?_
    · intro pair _ key member
      obtain ⟨detection, isDetection, rfl⟩ := mem_map.mp member
      obtain ⟨flow, _, rfl⟩ := mem_map.mp isDetection
      rfl
    · intro pair isRead
      rw [map_map]
      have ids : (((FlowIntent.classify records pair.1.connection pair.1.ownCookies
          pair.2.flows).filter (·.owner = .unauthorised)).map (·.id)).Nodup := by
        have flows := listed.eachFlow pair (mem_filter.mp isRead).1
        have classified : (FlowIntent.classify records pair.1.connection pair.1.ownCookies
            pair.2.flows).map (·.id) = pair.2.flows.map ReadFlow.id := map_map
        rw [← classified] at flows
        exact flows.sublist (filter_sublist.map _)
      have injective : Function.Injective (fun id : Str =>
          keyOn .unauthorisedFlow collected pair.1 pair.2 (.flow id)) := by
        intro one other same
        cases same
        rfl
      have keys := ids.map injective
      rw [map_map] at keys
      exact keys

end Others

/-! ### Each detection is of its own subject -/

section Distinct

variable [Unicode] [Readers] {collected : Collected}

omit [Unicode] [Readers] in
theorem ports_distinct (listed : Listed collected) :
    ((ports collected).map PortEntry.place).Nodup := by
  unfold ports
  rw [map_flatMap]
  refine nodup_flatMap_named (fun place : Str × Str × Subject => (place.1, place.2.1))
    ?_ listed.eachSwitch ?_
  · intro pair _ place member
    obtain ⟨entry, isEntry, rfl⟩ := mem_map.mp member
    obtain ⟨port, _, rfl⟩ := mem_map.mp isEntry
    rfl
  · intro pair isPair
    rw [map_map]
    have injective : Function.Injective (fun portNo : PortNo =>
        (pair.1.connection, pair.2.dpidHex, Subject.port portNo)) := by
      intro one other same
      cases same
      rfl
    have places := (listed.eachPort pair isPair).map injective
    rw [map_map] at places
    exact places

omit [Unicode] [Readers] in
theorem portKeys_distinct (listed : Listed collected) {found : PortEntry → Option Key}
    (ofPort : ∀ entry key, found entry = some key → key.place = PortEntry.place entry) :
    ((ports collected).filterMap found).Nodup :=
  (nodup_map_filterMap ofPort (ports_distinct listed)).of_map

variable {at_ : Time} {values : Thresholds} {intent : FlowIntent.Intent} {topo : Topology}
  {state : NetworkState}

omit [Unicode] in
theorem fallback_distinct (listed : Listed collected) :
    ((fallback collected values topo).map Detection.key).Nodup := by
  rw [fallback_keys]
  apply portKeys_distinct listed
  intro entry key isKey
  split at isKey
  · cases isKey
    rfl
  · cases isKey

omit [Unicode] in
theorem flood_distinct {baseline : Baseline} {over_ : Over} (listed : Listed collected) :
    ((flood collected at_ baseline values over_ topo).detections.map Detection.key).Nodup := by
  rw [(flood_keys_perm listed.ownPortIds).nodup_iff]
  apply portKeys_distinct listed
  intro entry key isKey
  obtain ⟨since, _, rfl⟩ := Option.map_eq_some_iff.mp isKey
  rfl

omit [Unicode] in
theorem rates_apart_iff {baseline : Baseline} {over_ : Over} (listed : Listed collected) :
    List.Disjoint ((fallback collected values topo).map Detection.key)
        ((flood collected at_ baseline values over_ topo).detections.map Detection.key) ↔
      FoundOnce collected at_ baseline values over_ topo := by
  have memFlood : ∀ key,
      key ∈ (flood collected at_ baseline values over_ topo).detections.map Detection.key ↔ _ :=
    fun key => (flood_keys_perm listed.ownPortIds).mem_iff
  rw [fallback_keys]
  constructor
  · intro apart entry member ⟨rated, held, watched⟩
    obtain ⟨since, isHeld⟩ := Option.isSome_iff_exists.mp held
    apply @apart (portKey collected .highRate entry)
    · exact mem_filterMap.mpr ⟨entry, member, if_pos rated⟩
    · rw [memFlood]
      refine mem_filterMap.mpr ⟨entry, member, ?_⟩
      rw [isHeld, Option.map_some]
      unfold heldRule
      rw [if_pos watched]
  · intro foundOnce key rated flooded
    obtain ⟨entry, member, isKey⟩ := mem_filterMap.mp rated
    obtain ⟨other, otherMember, isOther⟩ := mem_filterMap.mp ((memFlood key).mp flooded)
    obtain ⟨since, isHeld, rfl⟩ := Option.map_eq_some_iff.mp isOther
    split at isKey
    · rename_i isRate
      injection isKey with same
      have samePort : entry = other :=
        inj_on_of_nodup_map (ports_distinct listed) member otherMember
          (congrArg Key.place same)
      subst samePort
      have sameRule := congrArg Key.rule same
      refine foundOnce entry member ⟨isRate, ?_, ?_⟩
      · rw [isHeld]
        rfl
      · by_contra notWatched
        unfold heldRule at sameRule
        rw [if_neg notWatched] at sameRule
        cases sameRule
    · cases isKey

omit [Unicode] [Readers] in
theorem keys_disjoint {early late : List Detection}
    (differ : ∀ one ∈ early, ∀ other ∈ late, one.key.rule ≠ other.key.rule) :
    List.Disjoint (early.map Detection.key) (late.map Detection.key) := by
  intro key isEarly isLate
  obtain ⟨one, oneMember, rfl⟩ := mem_map.mp isEarly
  obtain ⟨other, otherMember, same⟩ := mem_map.mp isLate
  exact differ one oneMember other otherMember (congrArg Key.rule same.symm)

/-- **Each detection of a collection is of its own subject** exactly where no port is found by
the scan rule's rate and watched by the flood rule at once. -/
theorem detections_distinct_iff (listed : Listed collected)
    (once : (state.seen.map Seen.place).Nodup) :
    ((judge collected at_ values intent topo state).detections.map Detection.key).Nodup ↔
      FoundOnce collected at_ state.baseline values state.over_ topo := by
  have ratesScans : List.Disjoint ((fallback collected values topo).map Detection.key)
      ((scans collected values (sightings collected at_ values state.seen)).map Detection.key) := by
    apply keys_disjoint
    intro one isRate other isScan
    rw [rule_of_mem_fallback isRate, (scan_of_mem_scans isScan).1]
    decide
  have scansFloods : List.Disjoint
      ((scans collected values (sightings collected at_ values state.seen)).map Detection.key)
      ((flood collected at_ state.baseline values state.over_ topo).detections.map
        Detection.key) := by
    apply keys_disjoint
    intro one isScan other isFlood
    rw [(scan_of_mem_scans isScan).1]
    rcases rule_of_mem_flood isFlood with isRule | isRule
    · rw [isRule]
      decide
    · rw [isRule]
      decide
  have flowsApart : List.Disjoint (((fallback collected values topo ++
        scans collected values (sightings collected at_ values state.seen)) ++
        (flood collected at_ state.baseline values state.over_ topo).detections).map
          Detection.key) ((unauthorised collected intent).map Detection.key) := by
    apply keys_disjoint
    intro one isOne other isFlow
    rw [(flow_of_mem_unauthorised isFlow).1]
    rcases List.mem_append.mp isOne with early | isFlood
    · rcases List.mem_append.mp early with isRate | isScan
      · rw [rule_of_mem_fallback isRate]
        decide
      · rw [(scan_of_mem_scans isScan).1]
        decide
    · rcases rule_of_mem_flood isFlood with isRule | isRule
      · rw [isRule]
        decide
      · rw [isRule]
        decide
  unfold judge
  dsimp only
  rw [List.map_append, keys_markReplies, List.nodup_append', List.map_append, List.nodup_append',
    List.map_append, List.nodup_append', List.disjoint_append_left, rates_apart_iff listed]
  constructor
  · rintro ⟨⟨_, _, foundOnce, _⟩, _⟩
    exact foundOnce
  · intro foundOnce
    rw [List.map_append, List.map_append] at flowsApart
    exact ⟨⟨⟨fallback_distinct listed, scans_distinct (sightings_distinct once), ratesScans⟩,
      flood_distinct listed, foundOnce, scansFloods⟩, unauthorised_distinct listed intent,
      flowsApart⟩

end Distinct

/-! ### One port -/

namespace OnePort

def portId : Str := "port:ryu:0000000000000001:1".ascii

/-- One switch of L2 flows, its port received 900 packets a second of this many
bytes each. -/
def collection (bytes : ℚ) : Collected :=
  ⟨"lab".ascii, some 946684830, .ok, [⟨"ryu".ascii, [0],
    [⟨1, "0000000000000001".ascii, [], some 1, some ⟨false⟩,
      [⟨.number 1, portId, some 900, some (900 * bytes)⟩]⟩]⟩]⟩

def values : Thresholds := ⟨20, 60, 100, 5, 30, 200⟩

/-- The port was quiet until half a minute ago. -/
def state : NetworkState :=
  ⟨some 946684825, fun id => if id = portId then some ⟨[2, 2, 2, 2, 2], 946684795⟩ else none,
    fun id => if id = portId then some 946684800 else none, [], ⟨[], List.nodup_nil⟩, []⟩

theorem listed (bytes : ℚ) : Listed (collection bytes) where
  eachSwitch := nodup_singleton _
  eachPort := by
    intro pair member
    rw [mem_singleton.mp member]
    exact nodup_singleton _
  ownPortIds := nodup_singleton _
  eachFlow := by
    intro pair member
    rw [mem_singleton.mp member]
    exact nodup_nil

end OnePort

open OnePort in
/-- A flood of small packets is a high rate and a flood, each its own. -/
theorem small_packets_distinct :
    letI := basicLatin
    letI := plainReaders
    ((judge (collection 42) 946684830 values (some []) none state).detections.map
      Detection.key).Nodup := by
  let _ := basicLatin
  let _ := plainReaders
  have once : (state.seen.map Seen.place).Nodup := List.nodup_nil
  exact (detections_distinct_iff (listed 42) once).mpr (by decide +kernel)

open OnePort in
/-- A stream of large packets is a high rate by each of the two rules. -/
theorem large_packets_doubled :
    letI := basicLatin
    letI := plainReaders
    Listed (collection 1500) ∧ (state.seen.map Seen.place).Nodup ∧
      ¬ ((judge (collection 1500) 946684830 values (some []) none state).detections.map
        Detection.key).Nodup := by
  let _ := basicLatin
  let _ := plainReaders
  exact ⟨listed 1500, List.nodup_nil, by decide +kernel⟩

end Nmas.Sdn.Detect
