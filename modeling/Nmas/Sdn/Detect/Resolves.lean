import Nmas.Sdn.Detect.Flooding

/-!
Contract: a detection resolves when its own rule judged its subject.

Owns: what each rule judges of a collection, and when `observe` resolves
nothing else.

A scan and an unauthorised flow name a switch's table by one scope, which both
rules judge, each under a condition of its own.
-/

namespace Nmas.Sdn.Detect

open Nmas.Text List

def SomeSwitch (collected : Collected) (key : Key) (has : Switch → Bool) : Prop :=
  ∃ pair ∈ switches collected,
    (pair.1.connection = key.connection ∧ pair.2.dpidHex = key.dpidHex) ∧ has pair.2 = true

instance (collected : Collected) (key : Key) (has : Switch → Bool) :
    Decidable (SomeSwitch collected key has) :=
  inferInstanceAs (Decidable (∃ pair ∈ switches collected, _))

def PortsCounted (collected : Collected) (key : Key) : Prop := SomeSwitch collected key portsCounted

/-- The table of the key's switch was read, and the flow intent with it. -/
def TableJudged (collected : Collected) (intent : FlowIntent.Intent) (key : Key) : Prop :=
  intent.isSome = true ∧ SomeSwitch collected key (·.activeFlows.isSome)

instance (collected : Collected) (key : Key) : Decidable (PortsCounted collected key) :=
  inferInstanceAs (Decidable (SomeSwitch _ _ _))

instance (collected : Collected) (intent : FlowIntent.Intent) (key : Key) :
    Decidable (TableJudged collected intent key) :=
  inferInstanceAs (Decidable (_ ∧ _))

def PortMeasured (collected : Collected) (scope : Scope) : Prop :=
  ∃ entry ∈ ports collected, entry.2.2.rxPps.isSome ∧ scope = .port entry.2.2.id

instance (collected : Collected) (scope : Scope) : Decidable (PortMeasured collected scope) :=
  inferInstanceAs (Decidable (∃ entry ∈ ports collected, _))

/-- The rule that raised a detection judged its subject in this collection. -/
def OwnRuleJudged (collected : Collected) (intent : FlowIntent.Intent) (detection : Detection) :
    Prop :=
  match detection.key.rule with
  | .scan => PortsCounted collected detection.key
  | .unauthorisedFlow => TableJudged collected intent detection.key
  | .flood | .highRate => PortMeasured collected detection.scope

/-- A firing detection the collection does not show ends only when its own rule
judged it, and otherwise goes on and is said to be unjudged. -/
def ResolvesItsOwn (collected : Collected) (intent : FlowIntent.Intent) (before : NetworkState)
    (answer : Answer) (after : NetworkState) : Prop :=
  ∀ entry ∈ before.firing.entries, entry.key ∉ answer.detections.map Detection.key →
    (entry.key ∈ answer.resolved → OwnRuleJudged collected intent entry.detection) ∧
    (¬ OwnRuleJudged collected intent entry.detection →
      entry.key ∈ after.firing.entries.map Entry.key ∧ entry.key ∈ answer.unjudged)

/-- The subject's table is not judged by the other rule alone: for a scan, not
while its destination ports are not counted; for an unauthorised flow, not
counted while the flows were not judged. -/
def NotByTheOther (collected : Collected) (intent : FlowIntent.Intent) (key : Key) : Prop :=
  match key.rule with
  | .scan => TableJudged collected intent key → PortsCounted collected key
  | .unauthorisedFlow => PortsCounted collected key → TableJudged collected intent key
  | .flood | .highRate => True

instance (collected : Collected) (intent : FlowIntent.Intent) (key : Key) :
    Decidable (NotByTheOther collected intent key) := by
  unfold NotByTheOther
  cases key.rule <;> exact inferInstance

/-! ### What each rule judges -/

theorem mem_scanJudged_flows {collected : Collected} {key : Key} :
    .flows key.connection key.dpidHex ∈ scanJudged collected ↔ PortsCounted collected key := by
  unfold scanJudged
  rw [mem_flatMap]
  constructor
  · rintro ⟨pair, member, inside⟩
    dsimp only at inside
    split at inside
    · rename_i counted
      injection mem_singleton.mp inside with sameConnection sameSwitch
      exact ⟨pair, member, ⟨sameConnection.symm, sameSwitch.symm⟩, counted⟩
    · obtain ⟨port, _, isPort⟩ := mem_map.mp inside
      cases isPort
  · rintro ⟨pair, member, ⟨sameConnection, sameSwitch⟩, counted⟩
    refine ⟨pair, member, ?_⟩
    dsimp only
    rw [if_pos counted, sameConnection, sameSwitch]
    exact .head _

theorem mem_ports {collected : Collected} {pair : Controller × Switch} {port : Port}
    (member : pair ∈ switches collected) (portMember : port ∈ pair.2.ports) :
    (pair.1, pair.2, port) ∈ ports collected :=
  mem_flatMap.mpr ⟨pair, member, mem_map.mpr ⟨port, portMember, rfl⟩⟩

theorem measured_of_scanJudged {collected : Collected} {id : Str}
    (judged : .port id ∈ scanJudged collected) : PortMeasured collected (.port id) := by
  unfold scanJudged at judged
  obtain ⟨pair, member, inside⟩ := mem_flatMap.mp judged
  dsimp only at inside
  split at inside
  · rw [mem_singleton] at inside
    cases inside
  · obtain ⟨port, portMember, isPort⟩ := mem_map.mp inside
    obtain ⟨inSwitch, measured⟩ := mem_filter.mp portMember
    exact ⟨_, mem_ports member inSwitch, measured, isPort.symm⟩

theorem mem_unauthorisedJudged {collected : Collected} {intent : FlowIntent.Intent} {key : Key} :
    .flows key.connection key.dpidHex ∈ unauthorisedJudged collected intent ↔
      TableJudged collected intent key := by
  unfold unauthorisedJudged TableJudged readSwitches
  cases intent with
  | none =>
    constructor
    · intro inside
      cases inside
    · intro judged
      cases judged.1
  | some records =>
    dsimp only
    rw [mem_map]
    constructor
    · rintro ⟨pair, member, same⟩
      obtain ⟨inCollection, read⟩ := mem_filter.mp member
      injection same with sameConnection sameSwitch
      exact ⟨rfl, pair, inCollection, ⟨sameConnection, sameSwitch⟩, read⟩
    · rintro ⟨_, pair, member, ⟨sameConnection, sameSwitch⟩, read⟩
      refine ⟨pair, mem_filter.mpr ⟨member, read⟩, ?_⟩
      rw [sameConnection, sameSwitch]

theorem not_mem_unauthorisedJudged_port {collected : Collected} {intent : FlowIntent.Intent}
    {id : Str} : .port id ∉ unauthorisedJudged collected intent := by
  unfold unauthorisedJudged
  cases intent with
  | none => exact not_mem_nil
  | some records =>
    intro inside
    obtain ⟨pair, _, same⟩ := mem_map.mp inside
    cases same

section Judge

variable [Unicode] [Readers] {collected : Collected} {at_ : Time} {values : Thresholds}
  {intent : FlowIntent.Intent} {topo : Topology} {state : NetworkState}

theorem mem_judged_flows {key : Key} :
    .flows key.connection key.dpidHex ∈ (judge collected at_ values intent topo state).judged ↔
      PortsCounted collected key ∨ TableJudged collected intent key := by
  show _ ∈ scanJudged collected ++ (flood _ _ _ _ _ _).judged ++ unauthorisedJudged _ _ ↔ _
  rw [mem_append, mem_append, mem_scanJudged_flows, mem_unauthorisedJudged,
    mem_flood_judged]
  constructor
  · rintro ((counted | ⟨id, isPort, _⟩) | judged)
    · exact .inl counted
    · cases isPort
    · exact .inr judged
  · rintro (counted | judged)
    · exact .inl (.inl counted)
    · exact .inr judged

theorem mem_judged_port {id : Str} :
    .port id ∈ (judge collected at_ values intent topo state).judged ↔
      PortMeasured collected (.port id) := by
  show _ ∈ scanJudged collected ++ (flood _ _ _ _ _ _).judged ++ unauthorisedJudged _ _ ↔ _
  rw [mem_append, mem_append, mem_flood_judged]
  constructor
  · rintro ((scanned | ⟨other, isPort, entry, member, measured, isId⟩) | judged)
    · exact measured_of_scanJudged scanned
    · cases isPort
      exact ⟨entry, member, measured, by rw [isId]⟩
    · exact absurd judged not_mem_unauthorisedJudged_port
  · rintro ⟨entry, member, measured, isId⟩
    cases isId
    exact .inl (.inr ⟨_, rfl, entry, member, measured, rfl⟩)

omit [Unicode] in
theorem keys_markReplies (detections : List Detection) :
    (markReplies detections collected).map Detection.key = detections.map Detection.key := by
  unfold markReplies
  rw [map_map]
  apply map_congr_left
  intro detection _
  show (if _ then _ else detection : Detection).key = detection.key
  split
  · rfl
  · rfl

theorem mem_judge_keys {key : Key}
    (member : key ∈ (judge collected at_ values intent topo state).detections.map Detection.key) :
    key ∈ (fallback collected values topo).map Detection.key ∨
      key ∈ (scans collected values (sightings collected at_ values state.seen)).map Detection.key ∨
      key ∈ (flood collected at_ state.baseline values state.over_ topo).detections.map
        Detection.key ∨
      key ∈ (unauthorised collected intent).map Detection.key := by
  unfold judge at member
  dsimp only at member
  rw [map_append, keys_markReplies, map_append, map_append, mem_append,
    mem_append, mem_append] at member
  rcases member with ((rate | scan) | flooded) | flow
  · exact .inl rate
  · exact .inr (.inl scan)
  · exact .inr (.inr (.inl flooded))
  · exact .inr (.inr (.inr flow))

omit [Unicode] in
theorem rule_of_mem_fallback {detection : Detection}
    (member : detection ∈ fallback collected values topo) : detection.key.rule = .highRate := by
  unfold fallback at member
  obtain ⟨pair, _, inside⟩ := mem_flatMap.mp member
  dsimp only at inside
  split at inside
  · cases inside
  · obtain ⟨port, _, isDetection⟩ := mem_filterMap.mp inside
    split at isDetection
    · split at isDetection
      · cases isDetection
      · injection isDetection with same
        rw [← same]
        rfl
    · cases isDetection

omit [Unicode] [Readers] in
theorem scan_of_mem_scans {detection : Detection} {seen : List Seen}
    (member : detection ∈ scans collected values seen) :
    detection.key.rule = .scan ∧ PortsCounted collected detection.key := by
  obtain ⟨entry, _, isDetection⟩ := mem_filterMap.mp member
  split at isDetection
  · rename_i controller switch found
    split at isDetection
    · cases isDetection
    · injection isDetection with same
      rw [← same]
      have counted := List.find?_some found
      have inCollection := mem_of_find?_eq_some found
      simp only [Bool.and_eq_true] at counted
      exact ⟨rfl, (controller, switch), mem_reverse.mp inCollection, ⟨rfl, rfl⟩, counted.1.1⟩
  · cases isDetection

theorem flow_of_mem_unauthorised {detection : Detection}
    (member : detection ∈ unauthorised collected intent) :
    detection.key.rule = .unauthorisedFlow ∧ TableJudged collected intent detection.key := by
  unfold unauthorised readSwitches at member
  cases intent with
  | none => cases member
  | some records =>
    obtain ⟨pair, inRead, inside⟩ := mem_flatMap.mp member
    obtain ⟨flow, _, same⟩ := mem_map.mp inside
    obtain ⟨inCollection, read⟩ := mem_filter.mp inRead
    rw [← same]
    exact ⟨rfl, rfl, pair, inCollection, ⟨rfl, rfl⟩, read⟩

omit [Unicode] in
theorem rule_of_mem_flood {detection : Detection}
    (member : detection ∈ (flood collected at_ state.baseline values state.over_ topo).detections) :
    detection.key.rule = .flood ∨ detection.key.rule = .highRate := by
  obtain ⟨entry, _, since, _, isFlood, _⟩ := flood_fromPort member
  exact isFlood.rule

end Judge

/-! ### What ends -/

theorem mem_current {detections : List Detection} {key : Key} :
    key ∈ (current detections).map Detection.key ↔ key ∈ detections.map Detection.key := by
  have general : ∀ held : List Detection,
      key ∈ (detections.foldl (fun held detection => Log.put Detection.key detection held)
        held).map Detection.key ↔
      key ∈ held.map Detection.key ∨ key ∈ detections.map Detection.key := by
    induction detections with
    | nil =>
      intro held
      simp
    | cons detection rest ih =>
      intro held
      rw [foldl_cons, ih, Log.mem_map_put, map_cons, mem_cons]
      constructor
      · rintro ((isNew | old) | later)
        · exact .inr (.inl isNew)
        · exact .inl old
        · exact .inr (.inr later)
      · rintro (old | isNew | later)
        · exact .inl (.inr old)
        · exact .inl (.inl isNew)
        · exact .inr later
  rw [current, general]
  simp

theorem absent_iff {detections : List Detection} {entry : Entry} :
    absent (current detections) entry ↔ entry.key ∉ detections.map Detection.key := by
  rw [← mem_current, absent, Bool.not_eq_true', any_eq_false, mem_map]
  constructor
  · intro none_ ⟨detection, member, isKey⟩
    exact none_ detection member (decide_eq_true isKey)
  · intro none_ detection member isKey
    exact none_ ⟨detection, member, of_decide_eq_true isKey⟩

section Settle

variable {at_ : Time} {values : Thresholds} {judged : Judged} {firing : Firing} {entry : Entry}

theorem eq_of_key {other : Entry} (member : entry ∈ firing.entries)
    (otherMember : other ∈ firing.entries) (same : other.key = entry.key) : other = entry :=
  inj_on_of_nodup_map firing.distinct otherMember member same

theorem mem_resolved (member : entry ∈ firing.entries)
    (isAbsent : entry.key ∉ judged.detections.map Detection.key) :
    entry.key ∈ (settle at_ values judged firing).resolved.map Entry.key ↔
      entry.detection.scope ∈ judged.judged := by
  have isEnd : ends judged entry ↔ entry.detection.scope ∈ judged.judged := by
    rw [ends, absent_iff.mpr isAbsent, Bool.true_and, decide_eq_true_eq]
  rw [← isEnd]
  constructor
  · intro resolved
    obtain ⟨other, otherMember, same⟩ := mem_map.mp resolved
    obtain ⟨inFiring, otherEnds⟩ := mem_filter.mp otherMember
    rw [eq_of_key member inFiring same] at otherEnds
    exact otherEnds
  · intro entryEnds
    exact mem_map.mpr ⟨entry, mem_filter.mpr ⟨member, entryEnds⟩, rfl⟩

theorem goes_on (member : entry ∈ firing.entries)
    (isAbsent : entry.key ∉ judged.detections.map Detection.key)
    (notJudged : entry.detection.scope ∉ judged.judged) :
    entry.key ∈ (settle at_ values judged firing).firing.entries.map Entry.key ∧
      entry.key ∈ (settle at_ values judged firing).unjudged.map Entry.key := by
  have notEnds : ends judged entry = false := by
    rw [ends, decide_eq_false notJudged, Bool.and_false]
  constructor
  · show _ ∈ (List.map _ _ ++ starts at_ values judged firing.entries).map Entry.key
    rw [map_append, keys_shown]
    apply mem_append_left
    apply mem_map_of_mem
    exact mem_filter.mpr ⟨member, by rw [notEnds]; rfl⟩
  · apply mem_map_of_mem
    apply mem_filter.mpr
    refine ⟨member, ?_⟩
    rw [notEnds, absent_iff.mpr isAbsent]
    rfl

end Settle

section Observe

variable [Unicode] [Readers] {network : Str} {values : Thresholds}
  {intent : FlowIntent.Intent} {topo : Topology} {refusal : Option Alerts.Refusal}
  {world after : World} {collected : Collected} {answer : Answer} {at_ : Time}

theorem scope_judged_flows {entry : Entry} {state : NetworkState}
    (isScoped : entry.detection.scope =
      .flows entry.detection.key.connection entry.detection.key.dpidHex) :
    entry.detection.scope ∈ (judge collected at_ values intent topo state).judged ↔
      PortsCounted collected entry.key ∨ TableJudged collected intent entry.key := by
  rw [isScoped, mem_judged_flows]
  rfl

theorem absent_of_not_counted (at_ : Time) (values : Thresholds) (intent : FlowIntent.Intent)
    (topo : Topology) (state : NetworkState) {key : Key} (isScan : key.rule = .scan)
    (notCounted : ¬ PortsCounted collected key) :
    key ∉ (judge collected at_ values intent topo state).detections.map Detection.key := by
  intro member
  rcases mem_judge_keys member with inRates | inScans | inFloods | inFlows
  · obtain ⟨detection, found, isKey⟩ := mem_map.mp inRates
    have rule := rule_of_mem_fallback found
    rw [isKey, isScan] at rule
    cases rule
  · obtain ⟨detection, found, isKey⟩ := mem_map.mp inScans
    have counted := (scan_of_mem_scans found).2
    rw [isKey] at counted
    exact notCounted counted
  · obtain ⟨detection, found, isKey⟩ := mem_map.mp inFloods
    have rule := rule_of_mem_flood found
    rw [isKey, isScan] at rule
    rcases rule with rule | rule <;> cases rule
  · obtain ⟨detection, found, isKey⟩ := mem_map.mp inFlows
    have rule := (flow_of_mem_unauthorised found).1
    rw [isKey, isScan] at rule
    cases rule

theorem absent_of_not_judged (at_ : Time) (values : Thresholds) (topo : Topology)
    (state : NetworkState) {key : Key}
    (isFlow : key.rule = .unauthorisedFlow) (notJudged : ¬ TableJudged collected intent key) :
    key ∉ (judge collected at_ values intent topo state).detections.map Detection.key := by
  intro member
  rcases mem_judge_keys member with inRates | inScans | inFloods | inFlows
  · obtain ⟨detection, found, isKey⟩ := mem_map.mp inRates
    have rule := rule_of_mem_fallback found
    rw [isKey, isFlow] at rule
    cases rule
  · obtain ⟨detection, found, isKey⟩ := mem_map.mp inScans
    have rule := (scan_of_mem_scans found).1
    rw [isKey, isFlow] at rule
    cases rule
  · obtain ⟨detection, found, isKey⟩ := mem_map.mp inFloods
    have rule := rule_of_mem_flood found
    rw [isKey, isFlow] at rule
    rcases rule with rule | rule <;> cases rule
  · obtain ⟨detection, found, isKey⟩ := mem_map.mp inFlows
    have judged := (flow_of_mem_unauthorised found).2
    rw [isKey] at judged
    exact notJudged judged

/-- The scope of a firing detection was judged exactly when its own rule judged
it, where the other rule did not judge it alone. -/
theorem scope_judged_iff_own (at_ : Time) (values : Thresholds) (topo : Topology)
    (state : NetworkState) {entry : Entry}
    (notByTheOther : NotByTheOther collected intent entry.key) :
    entry.detection.scope ∈ (judge collected at_ values intent topo state).judged ↔
      OwnRuleJudged collected intent entry.detection := by
  have ruled := entry.detection.isScoped
  unfold OwnRuleJudged
  unfold ScopedBy at ruled
  unfold NotByTheOther Entry.key at notByTheOther
  cases isRule : entry.detection.key.rule with
  | scan =>
    rw [isRule] at ruled notByTheOther
    rw [scope_judged_flows ruled]
    constructor
    · intro either
      rcases either with counted | tableJudged
      · exact counted
      · exact notByTheOther tableJudged
    · intro counted
      exact .inl counted
  | unauthorisedFlow =>
    rw [isRule] at ruled notByTheOther
    rw [scope_judged_flows ruled]
    constructor
    · intro either
      rcases either with counted | tableJudged
      · exact notByTheOther counted
      · exact tableJudged
    · intro tableJudged
      exact .inr tableJudged
  | flood | highRate =>
    rw [isRule] at ruled
    obtain ⟨id, isPort⟩ := ruled
    rw [isPort]
    exact mem_judged_port

theorem resolved_by_the_other (at_ : Time) (values : Thresholds) (topo : Topology) {entry : Entry}
    {state : NetworkState} (member : entry ∈ state.firing.entries)
    (byTheOther : ¬ NotByTheOther collected intent entry.key) :
    entry.key ∉ (judge collected at_ values intent topo state).detections.map Detection.key ∧
      ¬ OwnRuleJudged collected intent entry.detection ∧
      entry.key ∈ (settle at_ values (judge collected at_ values intent topo state)
        state.firing).resolved.map Entry.key := by
  have ruled := entry.detection.isScoped
  unfold OwnRuleJudged
  unfold ScopedBy at ruled
  unfold NotByTheOther at byTheOther
  cases isRule : entry.key.rule with
  | scan =>
    rw [isRule] at byTheOther
    rw [show entry.detection.key.rule = .scan from isRule] at ruled ⊢
    obtain ⟨tableJudged, notCounted⟩ := Classical.not_imp.mp byTheOther
    have isAbsent := absent_of_not_counted at_ values intent topo state isRule notCounted
    refine ⟨isAbsent, notCounted, ?_⟩
    apply (mem_resolved member isAbsent).mpr
    exact (scope_judged_flows ruled).mpr (.inr tableJudged)
  | unauthorisedFlow =>
    rw [isRule] at byTheOther
    rw [show entry.detection.key.rule = .unauthorisedFlow from isRule] at ruled ⊢
    obtain ⟨counted, notJudged⟩ := Classical.not_imp.mp byTheOther
    have isAbsent := absent_of_not_judged at_ values topo state isRule notJudged
    refine ⟨isAbsent, notJudged, ?_⟩
    apply (mem_resolved member isAbsent).mpr
    exact (scope_judged_flows ruled).mpr (.inl counted)
  | flood | highRate =>
    rw [isRule] at byTheOther
    exact absurd trivial byTheOther

/-- **A detection resolves when its own rule judged its subject** exactly when
no firing detection's table is judged by the other rule alone. -/
theorem resolves_its_own_iff
    (observed : observe network values intent topo refusal world collected =
      .ok (answer, after)) :
    ResolvesItsOwn collected intent world.state answer after.state ↔
      ∀ entry ∈ world.state.firing.entries, NotByTheOther collected intent entry.key := by
  obtain ⟨at_, _, isResult⟩ := observe_ok observed
  cases isResult
  constructor
  · intro resolvesItsOwn entry member
    by_contra byTheOther
    obtain ⟨isAbsent, notOwn, resolved⟩ :=
      resolved_by_the_other at_ values topo member byTheOther
    exact notOwn ((resolvesItsOwn entry member isAbsent).1 resolved)
  · intro notByTheOther entry member isAbsent
    have ownJudged := scope_judged_iff_own at_ values topo world.state
      (notByTheOther entry member)
    constructor
    · intro resolved
      exact ownJudged.mp ((mem_resolved member isAbsent).mp resolved)
    · intro notOwn
      apply goes_on member isAbsent
      intro judgedScope
      exact notOwn (ownJudged.mp judgedScope)

end Observe

/-! ### One switch -/

namespace Lab

def flowOf (field : Field) (value : Int) : ReadFlow :=
  { dpid := 1, tableId := 0, priority := 10, cookie := 0
    match_ := [(.ipProto, .int 6), (field, .int value)], actions := []
    idleTimeout := 0, hardTimeout := 0, packetCount := none, byteCount := none
    durationSec := none, id := "flow:lab:0000000000000001:t0:p10:0".ascii }

/-- A switch whose one flow shows destination ports, or does not. -/
def switchOf (counted : Bool) : Switch where
  dpid := 1
  dpidHex := "0000000000000001".ascii
  flows := [if counted then flowOf .tcpDst 22 else flowOf .ipDscp 0]
  activeFlows := some 1
  coverage := some ⟨counted⟩
  ports := []

def collection (counted : Bool) : Collected :=
  ⟨"lab".ascii, some 946684900, .ok, [⟨"ryu".ascii, [0], [switchOf counted]⟩]⟩

def scanFound : Detection :=
  scanDetection (collection true) ⟨"ryu".ascii, "0000000000000001".ascii, "192.0.2.1".ascii, []⟩
    ⟨"ryu".ascii, [0], []⟩ (switchOf true)

def values : Thresholds := ⟨20, 60, 100, 5, 30, 200⟩

def scanning : NetworkState :=
  { emptyNetwork with
    collectedAt := some 946684800
    firing := ⟨[fire 946684800 values scanFound], List.nodup_singleton _⟩ }

end Lab

open Lab in
/-- A scan whose switch's ports are counted again resolves by its own rule. -/
theorem counted_scan_resolves :
    letI := basicLatin
    letI := plainReaders
    ∃ answer after, observe "lab".ascii values (some []) none none ⟨scanning, []⟩
        (collection true) = .ok (answer, after) ∧
      ResolvesItsOwn (collection true) (some []) scanning answer after.state := by
  letI := basicLatin
  letI := plainReaders
  have observed : observe "lab".ascii values (some []) none none ⟨scanning, []⟩
      (collection true) =
    .ok (observeAt values (some []) none none ⟨scanning, []⟩ (collection true) 946684900) := by
    rfl
  exact ⟨_, _, observed, (resolves_its_own_iff observed).mpr (by decide)⟩

open Lab in
/-- A scan is resolved by a read of its switch's table alone, with the
destination ports it was found by not counted. -/
theorem scan_ended_by_table_read :
    letI := basicLatin
    letI := plainReaders
    ∃ answer after, observe "lab".ascii values (some []) none none ⟨scanning, []⟩
        (collection false) = .ok (answer, after) ∧
      ¬ ResolvesItsOwn (collection false) (some []) scanning answer after.state := by
  letI := basicLatin
  letI := plainReaders
  refine ⟨_, _, by rfl, ?_⟩
  intro resolvesItsOwn
  have member : fire 946684800 values scanFound ∈ scanning.firing.entries :=
    List.mem_singleton_self _
  have byTheOther : ¬ NotByTheOther (collection false) (some [])
      (fire 946684800 values scanFound).key := by decide
  obtain ⟨isAbsent, notOwn, resolved⟩ :=
    resolved_by_the_other 946684900 values none member byTheOther
  exact notOwn ((resolvesItsOwn _ member isAbsent).1 resolved)

end Nmas.Sdn.Detect
