import Nmas.Sdn.Detect.Runs

/-!
Contract: a port flooded for as long as it lasts.

Owns: what a port measured at or above its limit in every collection keeps:
the baseline it is held against, and the detection of it.

The baseline is not sampled while the port is over, so it grows old: past
`BASELINE_STALE_SECONDS` without a sample it is dropped, and the flood with it.
-/

namespace Nmas.Sdn.Detect

open Nmas.Text List
open Function

def Attacked (id : Str) (limit : ℚ) (collected : Collected) : Prop :=
  Measured collected id ∧ ∀ entry ∈ ports collected, entry.2.2.id = id →
    ∀ rate ∈ entry.2.2.rxPps, limit ≤ rate

instance (id : Str) (limit : ℚ) (collected : Collected) : Decidable (Attacked id limit collected) :=
  inferInstanceAs (Decidable (_ ∧ _))

def limitOf (values : Thresholds) (held : Sampled) : ℚ :=
  floodLimit values (round3 (median (lastOf baselineSamples held.samples)))

def ShowsFlood (id : Str) (detection : Detection) : Prop :=
  detection.scope = .port id ∧
    (detection.key.rule = .flood ∨
      (detection.key.rule = .highRate ∧
        (detection.basis = .transfer ∨ detection.basis = .largePackets)))

instance (id : Str) (detection : Detection) : Decidable (ShowsFlood id detection) :=
  inferInstanceAs (Decidable (_ ∧ _))

structure HeldAgainst (baseline : Baseline) (id : Str) (held : Sampled) (at_ : Time) : Prop where
  isHeld : baseline id = some held
  ready : baselineReady ≤ held.samples.length
  fresh : at_ - held.at_ ≤ baselineStaleSeconds

theorem HeldAgainst.notStale {baseline : Baseline} {id : Str} {held : Sampled} {at_ : Time}
    (against : HeldAgainst baseline id held at_) : held.stale at_ = false := by
  unfold Sampled.stale
  exact decide_eq_false (not_lt.mpr against.fresh)

theorem baselineOf_ready {baseline : Baseline} {id : Str} {held : Sampled} {at_ : Time}
    (against : HeldAgainst baseline id held at_) :
    baselineOf baseline id at_ =
      (some (round3 (median (lastOf baselineSamples held.samples))), held.samples.length) := by
  unfold baselineOf
  rw [against.isHeld]
  dsimp only
  rw [against.notStale, if_neg Bool.false_ne_true, if_neg (not_lt.mpr against.ready)]

def AllAbove (id : Str) (limit : ℚ) (entries : List (Controller × Switch × Port)) : Prop :=
  ∀ entry ∈ entries, entry.2.2.id = id → ∀ rate ∈ entry.2.2.rxPps, limit ≤ rate

theorem AllAbove.tail {id : Str} {limit : ℚ} {entry : Controller × Switch × Port}
    {rest : List (Controller × Switch × Port)} (above : AllAbove id limit (entry :: rest)) :
    AllAbove id limit rest :=
  fun other member => above other (.tail _ member)

/-! ### The pass over the ports -/

def Flooded.Shows (found : Flooded) (id : Str) : Prop :=
  (∃ detection ∈ found.detections, ShowsFlood id detection) ∨
    ∃ candidate ∈ found.large, ShowsFlood id candidate.flood ∧ ShowsFlood id candidate.watched

structure Flooded.OverFor (found : Flooded) (values : Thresholds) (at_ : Time) (id : Str)
    (since : Time) : Prop where
  over_ : found.over_ id = some since
  shown : values.floodWindowSeconds ≤ ((at_ - since : Int) : ℚ) → found.Shows id

section Pass

variable [Readers] {collected : Collected} {at_ : Time} {baseline : Baseline}
  {values : Thresholds} {topo : Topology} {acc : Flooded} {id : Str} {since : Time}
  {held : Sampled}

theorem heldFlood_shows (entry : Controller × Switch × Port) (acc : Flooded) (since : Time) :
    (heldFlood collected values topo entry.1 entry.2.1 entry.2.2 since acc).Shows entry.2.2.id := by
  unfold heldFlood
  split
  · apply Or.inl
    refine ⟨_, mem_append_right _ (.head _), ?_⟩
    exact ⟨rfl, Or.inr ⟨rfl, Or.inl rfl⟩⟩
  · split
    · apply Or.inr
      refine ⟨_, mem_append_right _ (.head _), ?_, ?_⟩
      · exact ⟨rfl, Or.inl rfl⟩
      · exact ⟨rfl, Or.inr ⟨rfl, Or.inr rfl⟩⟩
    · apply Or.inl
      refine ⟨_, mem_append_right _ (.head _), ?_⟩
      exact ⟨rfl, Or.inl rfl⟩

theorem floodPort_keeps_shows (entry : Controller × Switch × Port) (shown : acc.Shows id) :
    (floodPort collected at_ baseline values topo acc entry).Shows id := by
  unfold floodPort
  split
  · exact shown
  · rename_i rate _
    cases verdict at_ baseline values acc.over_ entry.2.2.id rate with
    | noBaseline samples | under | pending since => exact shown
    | held since =>
      show (heldFlood collected values topo entry.1 entry.2.1 entry.2.2 since _).Shows id
      rcases heldFlood_cases collected values topo _ entry since with
        ⟨detection, _, adds⟩ | ⟨candidate, _, _, adds⟩
      · rw [adds]
        rcases shown with ⟨old, member, isFlood⟩ | large
        · exact .inl ⟨old, mem_append_left _ member, isFlood⟩
        · exact .inr large
      · rw [adds]
        rcases shown with called | ⟨old, member, isFlood⟩
        · exact .inl called
        · exact .inr ⟨old, mem_append_left _ member, isFlood⟩

variable (collected at_ baseline values topo acc) in
theorem floodPort_over_other {entry : Controller × Switch × Port}
    (other : entry.2.2.rxPps = none ∨ entry.2.2.id ≠ id) :
    (floodPort collected at_ baseline values topo acc entry).over_ id = acc.over_ id := by
  unfold floodPort
  split
  · rfl
  · rename_i rate measured
    rw [note_over, update_of_ne]
    rcases other with unmeasured | differs
    · rw [measured] at unmeasured
      cases unmeasured
    · exact differs.symm

variable (collected topo acc) in
theorem floodPort_over_limit {entry : Controller × Switch × Port} {rate : ℚ}
    (against : HeldAgainst baseline id held at_) (isPort : entry.2.2.id = id)
    (measured : entry.2.2.rxPps = some rate) (above : limitOf values held ≤ rate) :
    (floodPort collected at_ baseline values topo acc entry).OverFor values at_ id
      ((acc.over_ id).getD at_) := by
  have decided : verdict at_ baseline values acc.over_ id rate =
      if (((at_ - (acc.over_ id).getD at_ : Int)) : ℚ) < values.floodWindowSeconds then
        .pending ((acc.over_ id).getD at_)
      else .held ((acc.over_ id).getD at_) := by
    unfold limitOf at above
    unfold verdict
    rw [baselineOf_ready against]
    dsimp only
    rw [if_neg (not_lt.mpr above)]
  unfold floodPort
  rw [measured, isPort]
  dsimp only
  rw [decided]
  split
  · rename_i short
    constructor
    · rw [note_over, isPort, update_self]
      rfl
    · intro long
      exact absurd short (not_lt.mpr long)
  · constructor
    · rw [note_over, isPort, update_self]
      rfl
    · intro _
      rw [← isPort]
      exact heldFlood_shows entry _ _

theorem foldl_stays_over (against : HeldAgainst baseline id held at_)
    (entries : List (Controller × Switch × Port))
    (above : AllAbove id (limitOf values held) entries) (isOver : acc.OverFor values at_ id since) :
    (entries.foldl (floodPort collected at_ baseline values topo) acc).OverFor values at_ id
      since := by
  induction entries generalizing acc with
  | nil => exact isOver
  | cons entry rest ih =>
    apply ih above.tail
    constructor
    · by_cases isPort : entry.2.2.id = id
      · cases measured : entry.2.2.rxPps with
        | none =>
          rw [floodPort_over_other collected at_ baseline values topo acc (.inl measured),
            isOver.over_]
        | some rate =>
          have limit := above entry (.head _) isPort rate measured
          rw [(floodPort_over_limit collected topo acc against isPort measured limit).over_,
            isOver.over_]
          rfl
      · rw [floodPort_over_other collected at_ baseline values topo acc (.inr isPort), isOver.over_]
    · intro long
      exact floodPort_keeps_shows entry (isOver.shown long)

variable (collected topo acc) in
theorem foldl_over (against : HeldAgainst baseline id held at_)
    (entries : List (Controller × Switch × Port))
    (above : AllAbove id (limitOf values held) entries)
    (measured : ∃ entry ∈ entries, entry.2.2.rxPps.isSome ∧ entry.2.2.id = id) :
    (entries.foldl (floodPort collected at_ baseline values topo) acc).OverFor values at_ id
      ((acc.over_ id).getD at_) := by
  induction entries generalizing acc with
  | nil =>
    obtain ⟨entry, member, _⟩ := measured
    cases member
  | cons entry rest ih =>
    rw [foldl_cons]
    by_cases here : entry.2.2.rxPps.isSome = true ∧ entry.2.2.id = id
    · obtain ⟨rate, isRate⟩ := Option.isSome_iff_exists.mp here.1
      apply foldl_stays_over against rest above.tail
      exact floodPort_over_limit collected topo acc against here.2 isRate
        (above entry (.head _) here.2 rate isRate)
    · have other : entry.2.2.rxPps = none ∨ entry.2.2.id ≠ id := by
        by_cases isPort : entry.2.2.id = id
        · apply Or.inl
          by_contra isMeasured
          exact here ⟨Option.isSome_iff_ne_none.mpr isMeasured, isPort⟩
        · exact Or.inr isPort
      rw [← floodPort_over_other collected at_ baseline values topo acc other]
      apply ih _ above.tail
      obtain ⟨later, member, isPort⟩ := measured
      rcases mem_cons.mp member with same | inRest
      · rw [same] at isPort
        exact absurd isPort here
      · exact ⟨later, inRest, isPort⟩

/-- **One collection of an attack**: the port is over since it was, or since
now, and shown once that is the window ago. -/
theorem flood_attacked (topo : Topology) (over_ : Over) (against : HeldAgainst baseline id held at_)
    (attacked : Attacked id (limitOf values held) collected) :
    let found := flood collected at_ baseline values over_ topo
    found.over_ id = some ((over_ id).getD at_) ∧
      (values.floodWindowSeconds ≤ ((at_ - (over_ id).getD at_ : Int) : ℚ) →
        ∃ detection ∈ found.detections, ShowsFlood id detection) := by
  have isOver := foldl_over collected topo ⟨[], [], over_, [], [], []⟩ against (ports collected) attacked.2 attacked.1
  constructor
  · exact isOver.over_
  · intro long
    rw [flood_detections]
    rcases isOver.shown long with ⟨detection, member, shows⟩ | ⟨candidate, member, asFlood, asRate⟩
    · exact ⟨detection, mem_append_left _ member, shows⟩
    · refine ⟨_, mem_append_right _ (mem_map_of_mem member), ?_⟩
      split
      · exact asFlood
      · exact asRate

end Pass

/-! ### The baseline -/

theorem foldl_sample_excluded {at_ : Time} {exclude : Str → Bool} {id : Str}
    (excluded : exclude id) (measured : List Port) (baseline : Baseline) :
    (measured.foldl (sample at_ exclude) baseline) id = baseline id := by
  induction measured generalizing baseline with
  | nil => rfl
  | cons port rest ih =>
    rw [foldl_cons, ih]
    unfold sample
    cases port.rxPps with
    | none => rfl
    | some rate =>
      dsimp only
      split
      · rfl
      · rename_i included
        rw [update_of_ne]
        intro same
        rw [same] at excluded
        exact included excluded

theorem updateBaseline_excluded {baseline : Baseline} {id : Str} {held : Sampled} {at_ : Time}
    {collected : Collected} {exclude : Str → Bool} (excluded : exclude id)
    (against : HeldAgainst baseline id held at_) :
    updateBaseline baseline collected at_ exclude id = some held := by
  show Option.filter _ ((List.foldl (sample at_ exclude) baseline _) id) = some held
  rw [foldl_sample_excluded excluded, against.isHeld, Option.filter_some, against.notStale]
  rfl

/-! ### A run -/

/-- What a collection of an attack leaves: no rate of it in the baseline, the
limit in force, and the flood shown once it has lasted the window. -/
structure LimitKept (values : Thresholds) (id : Str) (held : Sampled) (first : Time)
    (step : Step) : Prop where
  baseline : step.next.state.baseline id = some held
  limit : (baselineOf step.next.state.baseline id step.at_).1.map (floodLimit values) =
    some (limitOf values held)
  shown : values.floodWindowSeconds ≤ ((step.at_ - first : Int) : ℚ) →
    ∃ detection ∈ step.answer.detections, ShowsFlood id detection

section Runs

variable [Unicode] [Readers]

/-- A flood never becomes its own baseline and never ends itself: a port with a
ready baseline, attacked in every collection of the period. -/
def FloodOutlasted (network : Str) (values : Thresholds) (id : Str) (world : World)
    (period : List Call) : Prop :=
  ∀ held, world.state.baseline id = some held → baselineReady ≤ held.samples.length →
    (∀ step ∈ steps network values world period,
      Attacked id (limitOf values held) step.call.collected) →
    ∀ first ∈ (steps network values world period).head?,
      first.at_ - held.at_ ≤ baselineStaleSeconds →
      ∀ step ∈ steps network values world period, LimitKept values id held first.at_ step

variable {network : Str} {values : Thresholds} {id : Str} {held : Sampled} {world : World}

omit [Unicode] in
theorem shows_markReplies {detections : List Detection} (collected : Collected)
    (shown : ∃ detection ∈ detections, ShowsFlood id detection) :
    ∃ detection ∈ markReplies detections collected, ShowsFlood id detection := by
  obtain ⟨detection, member, isFlood⟩ := shown
  refine ⟨_, mem_map_of_mem member, ?_⟩
  split
  · exact isFlood
  · exact isFlood

variable (values world) in
theorem observeAt_attacked (call : Call) {at_ : Time}
    (against : HeldAgainst world.state.baseline id held at_)
    (attacked : Attacked id (limitOf values held) call.collected) :
    let result := call.observeAt values world at_
    result.2.state.over_ id = some ((world.state.over_ id).getD at_) ∧
      result.2.state.baseline id = some held ∧
      (values.floodWindowSeconds ≤ ((at_ - (world.state.over_ id).getD at_ : Int) : ℚ) →
        ∃ detection ∈ result.1.detections, ShowsFlood id detection) := by
  obtain ⟨isOver, shown⟩ := flood_attacked call.topo world.state.over_ against attacked
  dsimp only
  rw [observeAt_over]
  constructor
  · exact isOver
  constructor
  · apply updateBaseline_excluded _ against
    show ((flood _ _ _ _ _ _).over_ id).isSome = true
    rw [isOver]
    rfl
  · intro long
    obtain ⟨detection, member, isFlood⟩ := shown long
    obtain ⟨marked, inMarked, shows⟩ := shows_markReplies call.collected
      ⟨detection, mem_append_right
        (fallback call.collected values call.topo ++ scans call.collected values
          (sightings call.collected at_ values world.state.seen)) member, isFlood⟩
    exact ⟨marked, mem_append_left _ inMarked, shows⟩

theorem steps_attacked {first : Time} (calls : List Call)
    (isHeld : world.state.baseline id = some held) (ready : baselineReady ≤ held.samples.length)
    (attacked : ∀ step ∈ steps network values world calls,
      Attacked id (limitOf values held) step.call.collected)
    (fresh : ∀ step ∈ steps network values world calls, step.at_ - held.at_ ≤ baselineStaleSeconds)
    (since : ∀ step ∈ (steps network values world calls).head?,
      (world.state.over_ id).getD step.at_ ≤ first) :
    ∀ step ∈ steps network values world calls, LimitKept values id held first step := by
  induction calls generalizing world with
  | nil =>
    intro step member
    cases member
  | cons call rest ih =>
    unfold steps at attacked fresh since ⊢
    cases judged : judgeable network call.collected world.state.collectedAt with
    | error why =>
      rw [judged] at attacked fresh since
      exact ih isHeld attacked fresh since
    | ok at_ =>
      rw [judged] at attacked fresh since
      dsimp only at attacked fresh since ⊢
      have against : HeldAgainst world.state.baseline id held at_ :=
        ⟨isHeld, ready, fresh _ (.head _)⟩
      have overSince := since _ rfl
      dsimp only at overSince
      obtain ⟨isOver, keeps, shown⟩ := observeAt_attacked values world call against
        (attacked _ (.head _))
      intro step member
      rcases mem_cons.mp member with isHere | later
      · rw [isHere]
        constructor
        · exact keeps
        · dsimp only
          rw [baselineOf_ready ⟨keeps, ready, against.fresh⟩]
          rfl
        · intro long
          apply shown
          apply le_trans long
          dsimp only
          exact_mod_cast Int.sub_le_sub_left overSince at_
      · apply ih keeps _ _ _ step later
        · intro other inRest
          exact attacked other (.tail _ inRest)
        · intro other inRest
          exact fresh other (.tail _ inRest)
        · intro other _
          rw [isOver]
          exact overSince

/-- **A flood never becomes its own baseline and never ends itself**, in every
run in which no collection of it comes later than the port's last sample by more
than the time a baseline is kept. -/
theorem flood_outlasted (history : List Alerts.Row) (before period : List Call)
    (sampledLately : ∀ held ∈ (run network values ⟨emptyNetwork, history⟩
        before).state.baseline id,
      ∀ step ∈ steps network values (run network values ⟨emptyNetwork, history⟩ before) period,
        step.at_ - held.at_ ≤ baselineStaleSeconds) :
    FloodOutlasted network values id (run network values ⟨emptyNetwork, history⟩ before)
      period := by
  intro held isHeld ready attacked first isFirst _
  apply steps_attacked period isHeld ready attacked (sampledLately held isHeld)
  intro step isStep
  rw [isFirst] at isStep
  cases isStep
  have past : (run network values ⟨emptyNetwork, history⟩ before).state.OverPast :=
    run_overPast network values emptyNetwork_overPast before
  exact getD_past (past.past (judged_of_head isFirst)) id

end Runs

/-! ### One port -/

namespace Quiet

def portId : Str := "port:ryu:0000000000000001:1".ascii

/-- One switch whose first port received this many packets a second. -/
def collection (at_ : Time) (rate : ℚ) : Collected :=
  ⟨"lab".ascii, some (946684800 + at_), .ok, [⟨"ryu".ascii, [0],
    [⟨1, "0000000000000001".ascii, [], none, none, [⟨.number 1, portId, some rate, none⟩]⟩]⟩]⟩

def call (at_ : Time) (rate : ℚ) : Call := ⟨collection at_ rate, some [], none, none⟩

def values : Thresholds := ⟨20, 60, 10000, 5, 30, 200⟩

/-- Five quiet collections, half an hour apart. -/
def before : List Call := [call 0 2, call 1800 2, call 3600 2, call 5400 2, call 7200 2]

def period : List Call := [call 9000 900, call 10800 900, call 12600 900]

def world : World := @run basicLatin plainReaders "lab".ascii values ⟨emptyNetwork, []⟩ before

/-- The baseline the flood is held against. -/
def held : Sampled := ⟨[2, 2, 2, 2, 2], 946692000⟩

end Quiet

open Quiet in
/-- A flood of half an hour leaves the limit as it was. -/
theorem short_flood_outlasted :
    letI := basicLatin
    letI := plainReaders
    FloodOutlasted "lab".ascii values portId world (period.take 2) := by
  letI := basicLatin
  letI := plainReaders
  apply flood_outlasted [] before
  decide +kernel

open Quiet in
/-- A flood of an hour becomes the port's baseline, and ends. -/
theorem long_flood_learned :
    letI := basicLatin
    letI := plainReaders
    ¬ FloodOutlasted "lab".ascii values portId world period := by
  letI := basicLatin
  letI := plainReaders
  intro outlasted
  have isHeld : world.state.baseline portId = some held := by decide +kernel
  have attacked : ∀ step ∈ steps "lab".ascii values world period,
      Attacked portId (limitOf values held) step.call.collected := by decide +kernel
  have ready : ∃ first ∈ (steps "lab".ascii values world period).head?,
      first.at_ - held.at_ ≤ baselineStaleSeconds := by decide +kernel
  have learned : ∃ step ∈ steps "lab".ascii values world period,
      step.next.state.baseline portId = some ⟨[900], 946697400⟩ := by decide +kernel
  obtain ⟨first, isFirst, fresh⟩ := ready
  obtain ⟨step, member, isLearned⟩ := learned
  have kept := outlasted held isHeld (by decide) attacked first isFirst fresh step member
  have differs := kept.baseline.symm.trans isLearned
  exact absurd differs (by decide)

end Nmas.Sdn.Detect
