import Mathlib.Algebra.Order.Floor.Defs
import Mathlib.Algebra.Order.Round
import Mathlib.Data.Rat.Floor
import Mathlib.Logic.Function.Basic
import Nmas.Sdn.Detect.Traffic
import Nmas.Sdn.FlowIntent.Classify

/-!
Contract: the detection rules over one collection.

Owns: `sdn/detect.py`, `scan`, `baseline_of`, `update_baseline`, `flood`,
`_large_packets`, `mark_replies` and `unauthorised`, with what each of them
judged.

Does not own: what becomes of a detection once it is found.
-/

namespace Nmas.Sdn.Detect

open Nmas.Text

/-- `RULES`. -/
inductive Rule where
  | scan
  | flood
  | unauthorisedFlow
  | highRate
deriving DecidableEq

inductive Subject where
  | source (address : Str)
  | port (portNo : PortNo)
  | flow (id : Str)
deriving DecidableEq

/-- What a rule judges: a switch's flow table (`flows_scope`), or a port by its
evidence id. -/
inductive Scope where
  | flows (connection dpidHex : Str)
  | port (id : Str)
deriving DecidableEq

/-- `detection_key`, by what its digest is taken of. -/
structure Key where
  rule : Rule
  network : Str
  connection : Str
  dpidHex : Str
  subject : Subject
deriving DecidableEq

inductive Basis where
  | rate
  | transfer
  | largePackets
  | ports
  | intent
deriving DecidableEq

def ScopedBy (key : Key) (scope : Scope) : Prop :=
  match key.rule with
  | .scan | .unauthorisedFlow => scope = .flows key.connection key.dpidHex
  | .flood | .highRate => ∃ id, scope = .port id

structure Detection where
  key : Key
  dpid : Nat
  scope : Scope
  source : Option Str
  sources : List Str
  targets : List Str
  dstHosts : List Str
  port : Option Value
  basis : Basis
  since : Option Time
  replyingHosts : List Str
  isScoped : ScopedBy key scope
deriving DecidableEq

/-- `thresholds`' values. -/
structure Thresholds where
  scanPorts : ℚ
  scanWindowSeconds : ℚ
  scanFallbackPps : ℚ
  floodFactor : ℚ
  floodWindowSeconds : ℚ
  floodMaxMeanBytes : ℚ

def keyOn (rule : Rule) (collected : Collected) (controller : Controller) (switch : Switch)
    (subject : Subject) : Key :=
  ⟨rule, collected.network, controller.connection, switch.dpidHex, subject⟩

/-! ### Scan -/

/-- A destination port a source reached. -/
structure Sighting where
  port : Str
  at_ : Time
  id : Str
  dst : Option Str
deriving DecidableEq

/-- The sightings of one source on one switch, each port once. -/
structure Seen where
  connection : Str
  dpidHex : Str
  source : Str
  ports : List Sighting
deriving DecidableEq

def Seen.place (seen : Seen) : Str × Str × Str := (seen.connection, seen.dpidHex, seen.source)

def portsCounted (switch : Switch) : Bool := switch.coverage.any Coverage.scanByPorts

section Scan

variable [Readers]

def noteSighting (place : Str × Str × Str) (sighting : Sighting) (seen : List Seen) : List Seen :=
  let held := ((seen.find? (·.place = place)).map Seen.ports).getD []
  Log.put Seen.place ⟨place.1, place.2.1, place.2.2, Log.put Sighting.port sighting held⟩ seen

/-- The sightings of a counted switch, added to those kept. -/
def sighted (at_ : Time) (controller : Controller) (switch : Switch) (seen : List Seen) :
    List Seen :=
  switch.flows.foldl (fun seen flow =>
    match dstPort flow.match_, address flow.match_ .src with
    | some port, some src =>
      noteSighting (controller.connection, switch.dpidHex, src)
        ⟨port, at_, flow.id, address flow.match_ .dst⟩ seen
    | _, _ => seen) seen

/-- `scan`'s sightings after the collection, those past the window dropped. -/
def sightings (collected : Collected) (at_ : Time) (values : Thresholds) (seen : List Seen) :
    List Seen :=
  let all := ((switches collected).filter (fun pair => portsCounted pair.2)).foldl
    (fun seen pair => sighted at_ pair.1 pair.2 seen) seen
  all.filterMap (fun entry =>
    let kept := entry.ports.filter (fun sighting =>
      ((at_ - sighting.at_ : Int) : ℚ) ≤ values.scanWindowSeconds)
    if kept.isEmpty then none else some { entry with ports := kept })

def countedSwitch (collected : Collected) (entry : Seen) : Option (Controller × Switch) :=
  (switches collected).reverse.find? (fun pair =>
    portsCounted pair.2 && pair.1.connection = entry.connection && pair.2.dpidHex = entry.dpidHex)

def scanDetection (collected : Collected) (entry : Seen) (controller : Controller)
    (switch : Switch) : Detection where
  key := keyOn .scan collected controller switch (.source entry.source)
  dpid := switch.dpid
  scope := .flows controller.connection switch.dpidHex
  source := some entry.source
  sources := []
  targets := (entry.ports.filterMap Sighting.dst).dedup
  dstHosts := []
  port := none
  basis := .ports
  since := none
  replyingHosts := []
  isScoped := rfl

def scans (collected : Collected) (values : Thresholds) (seen : List Seen) : List Detection :=
  seen.filterMap (fun entry =>
    match countedSwitch collected entry with
    | some (controller, switch) =>
      if (entry.ports.length : ℚ) < values.scanPorts then none
      else some (scanDetection collected entry controller switch)
    | none => none)

def portDetection (rule : Rule) (isPort : rule = .flood ∨ rule = .highRate) (basis : Basis)
    (collected : Collected) (controller : Controller) (switch : Switch) (port : Port)
    (source : Option Str) (sources targets dstHosts : List Str) (since : Option Time) :
    Detection where
  key := keyOn rule collected controller switch (.port port.portNo)
  dpid := switch.dpid
  scope := .port port.id
  source := source
  sources := sources
  targets := targets
  dstHosts := dstHosts
  port := some port.portNo.value
  basis := basis
  since := since
  replyingHosts := []
  isScoped := by rcases isPort with rfl | rfl <;> exact ⟨_, rfl⟩

/-- The rates `scan` judges in place of the ports it cannot count. -/
def fallback (collected : Collected) (values : Thresholds) (topo : Topology) : List Detection :=
  (switches collected).flatMap (fun (controller, switch) =>
    if portsCounted switch then []
    else switch.ports.filterMap (fun port =>
      match port.rxPps with
      | some rate =>
        if rate < values.scanFallbackPps then none
        else
          let flows := entering switch port.portNo
          let named := portDetectionSource flows topo controller.connection switch.dpid port.portNo
          some (portDetection .highRate (.inr rfl) .rate collected controller switch port
            named.1 [] [] (dstHosts flows topo controller.connection) none)
      | none => none))

end Scan

/-- What `scan` judged: the counted switches' tables, and the measured ports of
the others. -/
def scanJudged (collected : Collected) : List Scope :=
  (switches collected).flatMap (fun (controller, switch) =>
    if portsCounted switch then [.flows controller.connection switch.dpidHex]
    else (switch.ports.filter (·.rxPps.isSome)).map (fun port => .port port.id))

/-! ### The baseline -/

/-- A port's rates over its last collections, and when the last was taken. -/
structure Sampled where
  samples : List ℚ
  at_ : Time
deriving DecidableEq

abbrev Baseline := Str → Option Sampled

def baselineSamples : Nat := 12
def baselineReady : Nat := 5
def baselineStaleSeconds : Int := 3600
def baselineFloorPps : ℚ := 10

def Sampled.stale (entry : Sampled) (at_ : Time) : Bool := at_ - entry.at_ > baselineStaleSeconds

/-- `round(x)`, a half to the even side. -/
def roundHalfEven (x : ℚ) : Int :=
  if x - ⌊x⌋ = 1 / 2 then (if ⌊x⌋ % 2 = 0 then ⌊x⌋ else ⌊x⌋ + 1) else round x

/-- `round(x, 3)`. -/
def round3 (x : ℚ) : ℚ := roundHalfEven (x * 1000) / 1000

/-- `statistics.median`, zero for no value. -/
def median (values : List ℚ) : ℚ :=
  let sorted := values.insertionSort (· ≤ ·)
  let upper := sorted.getD (values.length / 2) 0
  if values.length % 2 = 1 then upper else (sorted.getD (values.length / 2 - 1) 0 + upper) / 2

def lastOf {α : Type} (count : Nat) (values : List α) : List α :=
  values.drop (values.length - count)

/-- `baseline_of`: the median, and the samples held. -/
def baselineOf (baseline : Baseline) (id : Str) (at_ : Time) : Option ℚ × Nat :=
  match baseline id with
  | none => (none, 0)
  | some entry =>
    if entry.stale at_ then (none, 0)
    else if entry.samples.length < baselineReady then (none, entry.samples.length)
    else (some (round3 (median (lastOf baselineSamples entry.samples))), entry.samples.length)

def ports (collected : Collected) : List (Controller × Switch × Port) :=
  (switches collected).flatMap (fun (controller, switch) =>
    switch.ports.map (fun port => (controller, switch, port)))

def sample (at_ : Time) (exclude : Str → Bool) (baseline : Baseline) (port : Port) : Baseline :=
  match port.rxPps with
  | none => baseline
  | some rate =>
    if exclude port.id then baseline
    else
      let held := ((baseline port.id).filter (fun entry => !entry.stale at_)).map Sampled.samples
      Function.update baseline port.id (some ⟨lastOf baselineSamples (held.getD [] ++ [rate]), at_⟩)

def updateBaseline (baseline : Baseline) (collected : Collected) (at_ : Time)
    (exclude : Str → Bool) : Baseline :=
  let taken := ((ports collected).map (·.2.2)).foldl (sample at_ exclude) baseline
  fun id => (taken id).filter (fun entry => !entry.stale at_)

/-! ### Flood -/

abbrev Over := Str → Option Time

structure Large where
  flood : Detection
  /-- The same, as High packet rate. -/
  watched : Detection
deriving DecidableEq

structure Flooded where
  detections : List Detection
  judged : List Scope
  over_ : Over
  pending : List Str
  noBaseline : List (Str × Nat)
  large : List Large

def portMean (port : Port) : Option ℚ :=
  match port.rxPps, port.rxBytesPerS with
  | some pps, some bytes => if pps = 0 then none else some (bytes / pps)
  | _, _ => none

def floodLimit (values : Thresholds) (baseline : ℚ) : ℚ :=
  round3 (values.floodFactor * max baseline baselineFloorPps)

section Flood

variable [Readers]

def heldFlood (collected : Collected) (values : Thresholds) (topo : Topology)
    (controller : Controller) (switch : Switch) (port : Port) (since : Time) (acc : Flooded) :
    Flooded :=
  let flows := entering switch port.portNo
  let named := portDetectionSource flows topo controller.connection switch.dpid port.portNo
  match transfer switch port.portNo topo controller.connection with
  | some shape =>
    { acc with detections := acc.detections ++
        [portDetection .highRate (.inr rfl) .transfer collected controller switch port
          (if shape.side = .data then named.1 else none) [] [] [] (some since)] }
  | none =>
    let detection (rule : Rule) (isPort : rule = .flood ∨ rule = .highRate) (basis : Basis) :=
      portDetection rule isPort basis collected controller switch port named.1 named.2.1
        (targets flows) (dstHosts flows topo controller.connection) (some since)
    if (portMean port).any (fun mean => values.floodMaxMeanBytes < mean) then
      { acc with large := acc.large ++
          [⟨detection .flood (.inl rfl) .rate, detection .highRate (.inr rfl) .largePackets⟩] }
    else
      { acc with detections := acc.detections ++ [detection .flood (.inl rfl) .rate] }

def Flooded.cleared (acc : Flooded) (id : Str) : Flooded :=
  { acc with over_ := Function.update acc.over_ id none }

def Flooded.overSince (acc : Flooded) (id : Str) (since : Time) : Flooded :=
  { acc with over_ := Function.update acc.over_ id (some since) }

/-- What the flood rule makes of a measured port. -/
inductive Verdict where
  | noBaseline (samples : Nat)
  | under
  | pending (since : Time)
  | held (since : Time)

def verdict (at_ : Time) (baseline : Baseline) (values : Thresholds) (over_ : Over) (id : Str)
    (rate : ℚ) : Verdict :=
  match baselineOf baseline id at_ with
  | (none, samples) => .noBaseline samples
  | (some median, _) =>
    if rate < floodLimit values median then .under
    else
      let since := (over_ id).getD at_
      if ((at_ - since : Int) : ℚ) < values.floodWindowSeconds then .pending since
      else .held since

def Flooded.note (collected : Collected) (values : Thresholds) (topo : Topology)
    (controller : Controller) (switch : Switch) (port : Port) (acc : Flooded) :
    Verdict → Flooded
  | .noBaseline samples =>
    { acc.cleared port.id with noBaseline := acc.noBaseline ++ [(port.id, samples)] }
  | .under => acc.cleared port.id
  | .pending since =>
    { acc.overSince port.id since with pending := acc.pending ++ [port.id] }
  | .held since =>
    heldFlood collected values topo controller switch port since (acc.overSince port.id since)

/-- `flood`, of one port. -/
def floodPort (collected : Collected) (at_ : Time) (baseline : Baseline) (values : Thresholds)
    (topo : Topology) (acc : Flooded) (entry : Controller × Switch × Port) : Flooded :=
  match entry.2.2.rxPps with
  | none => acc
  | some rate =>
    Flooded.note collected values topo entry.1 entry.2.1 entry.2.2
      { acc with judged := acc.judged ++ [Scope.port entry.2.2.id] }
      (verdict at_ baseline values acc.over_ entry.2.2.id rate)

def canonAddr (value : Str) : Str := (hostText value).getD (lowered (strip value))

def destinations (detection : Detection) : List Str :=
  (detection.targets ++ detection.dstHosts).map canonAddr

def attackSources : Nat := 2

def attacked (large : List Large) (candidate : Large) : Bool :=
  (destinations candidate.flood).any (fun host => host ≠ [] &&
    attackSources ≤ (((large.filter (fun other => host ∈ destinations other.flood)).filterMap
      (·.flood.source)).filter (· ≠ [])).dedup.length)

def largePackets (large : List Large) : List Detection :=
  large.map (fun candidate =>
    if attacked large candidate then candidate.flood else candidate.watched)

def flood (collected : Collected) (at_ : Time) (baseline : Baseline) (values : Thresholds)
    (over_ : Over) (topo : Topology) : Flooded :=
  let found := (ports collected).foldl (floodPort collected at_ baseline values topo)
    ⟨[], [], over_, [], [], []⟩
  { found with detections := found.detections ++ largePackets found.large }

/-! ### Replies -/

def senderSizeRatio : ℚ := 3

def meanPacket (collected : Collected) (detection : Detection) : Option ℚ :=
  ((ports collected).find? (fun (controller, switch, port) =>
      controller.connection = detection.key.connection &&
        switch.dpidHex = detection.key.dpidHex &&
        some port.portNo.value = detection.port)).bind (fun found => portMean found.2.2)

def rateSource (detection : Detection) : Option Str :=
  if detection.basis = .rate then detection.source.filter (· ≠ []) else none

def repliesTo (collected : Collected) (one other : Detection) : Bool :=
  match rateSource one, rateSource other with
  | some mine, some theirs =>
    canonAddr mine ≠ canonAddr theirs && canonAddr mine ∈ destinations other &&
      !(canonAddr theirs ∈ destinations one && sends one other)
  | _, _ => false
where
  /-- The pair's sizes say that the first of it sends. -/
  sends (one other : Detection) : Bool :=
    match meanPacket collected one, meanPacket collected other with
    | some mine, some theirs => mine ≠ 0 && theirs ≠ 0 && senderSizeRatio * theirs ≤ mine
    | _, _ => false

def markReplies (detections : List Detection) (collected : Collected) : List Detection :=
  detections.map (fun detection =>
    if detections.any (repliesTo collected detection) then
      { detection with
        source := none, sources := []
        replyingHosts := ((detection.source.toList ++ detection.sources).filter (· ≠ [])).eraseDups }
    else detection)

end Flood

/-! ### Unauthorised flows -/

section Unauthorised

variable [Unicode] [Readers]

def flowDetection (collected : Collected) (controller : Controller) (switch : Switch)
    (flow : ReadFlow) : Detection where
  key := keyOn .unauthorisedFlow collected controller switch (.flow flow.id)
  dpid := switch.dpid
  scope := .flows controller.connection switch.dpidHex
  source := address flow.match_ .src
  sources := []
  targets := (address flow.match_ .dst).toList
  dstHosts := []
  port := inPort flow.match_
  basis := .intent
  since := none
  replyingHosts := []
  isScoped := rfl

def readSwitches (collected : Collected) : List (Controller × Switch) :=
  (switches collected).filter (·.2.activeFlows.isSome)

def unauthorised (collected : Collected) (intent : FlowIntent.Intent) : List Detection :=
  match intent with
  | none => []
  | some records =>
    (readSwitches collected).flatMap (fun (controller, switch) =>
      ((FlowIntent.classify records controller.connection controller.ownCookies
          switch.flows).filter (·.owner = .unauthorised)).map (fun flow =>
        flowDetection collected controller switch flow.toReadFlow))

end Unauthorised

/-- What `unauthorised` judged. -/
def unauthorisedJudged (collected : Collected) (intent : FlowIntent.Intent) : List Scope :=
  match intent with
  | none => []
  | some _ => (readSwitches collected).map (fun (controller, switch) =>
    .flows controller.connection switch.dpidHex)

end Nmas.Sdn.Detect
