import Nmas.Sdn.Detect.Observe

/-!
Contract: what the flood rule's pass over a collection's ports can do.

Owns: the outcomes of one port, and from them, for the whole pass, which
scopes it judges and where its detections come from.
-/

namespace Nmas.Sdn.Detect

open Nmas.Text List

def Measured (collected : Collected) (id : Str) : Prop :=
  ∃ entry ∈ ports collected, entry.2.2.rxPps.isSome ∧ entry.2.2.id = id

instance (collected : Collected) (id : Str) : Decidable (Measured collected id) :=
  inferInstanceAs (Decidable (∃ entry ∈ ports collected, _))

structure FloodDetection (collected : Collected) (entry : Controller × Switch × Port)
    (since : Time) (detection : Detection) : Prop where
  rule : detection.key.rule = .flood ∨ detection.key.rule = .highRate
  place : detection.key = keyOn detection.key.rule collected entry.1 entry.2.1
    (.port entry.2.2.portNo)
  scope : detection.scope = .port entry.2.2.id
  since : detection.since = some since

/-- A detection the pass holds, called already or still to be. -/
def Flooded.Holds (found : Flooded) (detection : Detection) : Prop :=
  detection ∈ found.detections ∨
    ∃ candidate ∈ found.large, detection = candidate.flood ∨ detection = candidate.watched

def Over.Past (over_ : Over) (now : Time) : Prop := ∀ id since, over_ id = some since → since ≤ now

/-- Where a detection of the pass comes from: a port of the collection, over
since no later than now if every port was when the pass began. -/
def FromPort (collected : Collected) (at_ : Time) (over_ : Over) (detection : Detection) : Prop :=
  ∃ entry ∈ ports collected, ∃ since, entry.2.2.rxPps.isSome ∧
    FloodDetection collected entry since detection ∧ (over_.Past at_ → since ≤ at_)

theorem not_holds_empty (collected : Collected) (at_ : Time) (over_ : Over)
    (detection : Detection) (holds : (⟨[], [], over_, [], [], []⟩ : Flooded).Holds detection) :
    FromPort collected at_ over_ detection := by
  rcases holds with member | ⟨candidate, member, _⟩
  · cases member
  · cases member

section Verdicts

variable {at_ : Time} {baseline : Baseline} {values : Thresholds}

theorem verdict_since {over_ : Over} {id : Str} {rate : ℚ} {since : Time}
    (is : verdict at_ baseline values over_ id rate = .pending since ∨
      verdict at_ baseline values over_ id rate = .held since) :
    since = (over_ id).getD at_ := by
  unfold verdict at is
  split at is
  · rcases is with is | is <;> cases is
  · split at is
    · rcases is with is | is <;> cases is
    · dsimp only at is
      split at is
      · rcases is with is | is
        · cases is
          rfl
        · cases is
      · rcases is with is | is
        · cases is
        · cases is
          rfl

theorem getD_past {over_ : Over} (past : over_.Past at_) (id : Str) :
    (over_ id).getD at_ ≤ at_ := by
  cases here : over_ id with
  | none => exact le_refl at_
  | some since => exact past id since here

/-- The since a verdict keeps for a port that is over. -/
def Verdict.over_ : Verdict → Option Time
  | .noBaseline _ => none
  | .under => none
  | .pending since => some since
  | .held since => some since

theorem verdict_over_since {over_ : Over} {id : Str} {rate : ℚ} {since : Time}
    (isOver : (verdict at_ baseline values over_ id rate).over_ = some since) :
    since = (over_ id).getD at_ := by
  cases decided : verdict at_ baseline values over_ id rate with
  | noBaseline samples | under =>
    rw [decided] at isOver
    cases isOver
  | pending since' =>
    rw [decided] at isOver
    cases isOver
    exact verdict_since (.inl decided)
  | held since' =>
    rw [decided] at isOver
    cases isOver
    exact verdict_since (.inr decided)

end Verdicts

variable [Readers] {collected : Collected} {at_ : Time} {baseline : Baseline}
  {values : Thresholds} {topo : Topology} {acc : Flooded}

/-! ### One port -/

section Port

variable {entry : Controller × Switch × Port} {since : Time}

variable (collected values topo acc entry since) in
theorem heldFlood_cases :
    (∃ detection, FloodDetection collected entry since detection ∧
      heldFlood collected values topo entry.1 entry.2.1 entry.2.2 since acc =
        { acc with detections := acc.detections ++ [detection] }) ∨
    (∃ candidate : Large, FloodDetection collected entry since candidate.flood ∧
      FloodDetection collected entry since candidate.watched ∧
      heldFlood collected values topo entry.1 entry.2.1 entry.2.2 since acc =
        { acc with large := acc.large ++ [candidate] }) := by
  unfold heldFlood
  split
  · exact .inl ⟨_, ⟨.inr rfl, rfl, rfl, rfl⟩, rfl⟩
  · split
    · exact .inr ⟨_, ⟨.inl rfl, rfl, rfl, rfl⟩, ⟨.inr rfl, rfl, rfl, rfl⟩, rfl⟩
    · exact .inl ⟨_, ⟨.inl rfl, rfl, rfl, rfl⟩, rfl⟩

theorem heldFlood_judged :
    (heldFlood collected values topo entry.1 entry.2.1 entry.2.2 since acc).judged =
      acc.judged := by
  rcases heldFlood_cases collected values topo acc entry since with ⟨_, _, adds⟩ | ⟨_, _, _, adds⟩
  · rw [adds]
  · rw [adds]

theorem heldFlood_over :
    (heldFlood collected values topo entry.1 entry.2.1 entry.2.2 since acc).over_ = acc.over_ := by
  rcases heldFlood_cases collected values topo acc entry since with ⟨_, _, adds⟩ | ⟨_, _, _, adds⟩
  · rw [adds]
  · rw [adds]

theorem heldFlood_holds {detection : Detection}
    (holds : (heldFlood collected values topo entry.1 entry.2.1 entry.2.2 since acc).Holds
      detection) :
    acc.Holds detection ∨ FloodDetection collected entry since detection := by
  rcases heldFlood_cases collected values topo acc entry since with ⟨new, isFlood, adds⟩ | ⟨new, isFlood, isWatched, adds⟩
  · rw [adds] at holds
    rcases holds with member | candidate
    · rcases mem_append.mp member with old | isNew
      · exact .inl (.inl old)
      · rw [mem_singleton.mp isNew]
        exact .inr isFlood
    · exact .inl (.inr candidate)
  · rw [adds] at holds
    rcases holds with member | ⟨candidate, member, either⟩
    · exact .inl (.inl member)
    · rcases mem_append.mp member with old | isNew
      · exact .inl (.inr ⟨candidate, old, either⟩)
      · rw [mem_singleton.mp isNew] at either
        rcases either with isFlooding | isWatching
        · exact .inr (isFlooding ▸ isFlood)
        · exact .inr (isWatching ▸ isWatched)

end Port

section Note

variable {entry : Controller × Switch × Port} {decided : Verdict}

theorem note_judged :
    (Flooded.note collected values topo entry.1 entry.2.1 entry.2.2 acc decided).judged =
      acc.judged := by
  cases decided with
  | noBaseline samples | under | pending since => rfl
  | held since => exact heldFlood_judged

theorem note_over :
    (Flooded.note collected values topo entry.1 entry.2.1 entry.2.2 acc decided).over_ =
      Function.update acc.over_ entry.2.2.id decided.over_ := by
  cases decided with
  | noBaseline samples | under | pending since => rfl
  | held since => exact heldFlood_over

theorem note_holds {detection : Detection}
    (holds : (Flooded.note collected values topo entry.1 entry.2.1 entry.2.2 acc
      decided).Holds detection) :
    acc.Holds detection ∨
      ∃ since, decided = .held since ∧ FloodDetection collected entry since detection := by
  cases decided with
  | noBaseline samples | under | pending since => exact .inl holds
  | held since =>
    rcases heldFlood_holds holds with old | new
    · exact .inl old
    · exact .inr ⟨since, rfl, new⟩

end Note

section Pass

variable (collected at_ baseline values topo)

theorem floodPort_judged (acc : Flooded) (entry : Controller × Switch × Port) :
    (floodPort collected at_ baseline values topo acc entry).judged =
      acc.judged ++ (if entry.2.2.rxPps.isSome then [Scope.port entry.2.2.id] else []) := by
  unfold floodPort
  cases entry.2.2.rxPps with
  | none => exact (append_nil _).symm
  | some rate => exact note_judged

theorem foldl_judged (entries : List (Controller × Switch × Port)) (acc : Flooded) :
    (entries.foldl (floodPort collected at_ baseline values topo) acc).judged =
      acc.judged ++ entries.flatMap (fun entry =>
        if entry.2.2.rxPps.isSome then [Scope.port entry.2.2.id] else []) := by
  induction entries generalizing acc with
  | nil => exact (append_nil _).symm
  | cons entry rest ih =>
    rw [foldl_cons, ih, floodPort_judged, flatMap_cons, append_assoc]

theorem mem_flood_judged {over_ : Over} {scope : Scope} :
    scope ∈ (flood collected at_ baseline values over_ topo).judged ↔
      ∃ id, scope = .port id ∧ Measured collected id := by
  unfold flood
  dsimp only
  rw [foldl_judged, nil_append, mem_flatMap]
  constructor
  · rintro ⟨entry, member, inside⟩
    split at inside
    · rename_i measured
      rw [mem_singleton] at inside
      exact ⟨entry.2.2.id, inside, entry, member, measured, rfl⟩
    · cases inside
  · rintro ⟨id, isPort, entry, member, measured, isId⟩
    refine ⟨entry, member, ?_⟩
    rw [if_pos measured, isPort, isId]
    exact .head _

end Pass

theorem floodPort_past {entry : Controller × Switch × Port} (past : Over.Past acc.over_ at_) :
    Over.Past (floodPort collected at_ baseline values topo acc entry).over_ at_ := by
  unfold floodPort
  cases entry.2.2.rxPps with
  | none => exact past
  | some rate =>
    intro id since here
    dsimp only at here
    rw [note_over] at here
    by_cases same : id = entry.2.2.id
    · rw [same, Function.update_self] at here
      rw [verdict_over_since here]
      exact getD_past past entry.2.2.id
    · rw [Function.update_of_ne same] at here
      exact past id since here

theorem floodPort_holds {over_ : Over} {entry : Controller × Switch × Port} {detection : Detection}
    (member : entry ∈ ports collected) (past : over_.Past at_ → Over.Past acc.over_ at_)
    (holds : (floodPort collected at_ baseline values topo acc entry).Holds detection) :
    acc.Holds detection ∨ FromPort collected at_ over_ detection := by
  unfold floodPort at holds
  cases measured : entry.2.2.rxPps with
  | none =>
    rw [measured] at holds
    exact .inl holds
  | some rate =>
    rw [measured] at holds
    rcases note_holds holds with old | ⟨since, isHeld, isFlood⟩
    · exact Or.inl old
    · apply Or.inr
      refine ⟨entry, member, since, ?_, isFlood, ?_⟩
      · rw [measured]
        rfl
      · intro overPast
        rw [verdict_since (.inr isHeld)]
        exact getD_past (past overPast) entry.2.2.id

variable (baseline values topo) in
theorem foldl_holds {over_ : Over} {acc : Flooded} (entries : List (Controller × Switch × Port))
    (members : ∀ entry ∈ entries, entry ∈ ports collected)
    (past : over_.Past at_ → Over.Past acc.over_ at_)
    (known : ∀ detection, acc.Holds detection → FromPort collected at_ over_ detection) :
    let found := entries.foldl (floodPort collected at_ baseline values topo) acc
    (over_.Past at_ → Over.Past found.over_ at_) ∧
      ∀ detection, found.Holds detection → FromPort collected at_ over_ detection := by
  induction entries generalizing acc with
  | nil => exact ⟨past, known⟩
  | cons entry rest ih =>
    apply ih
    · intro other member
      exact members other (.tail _ member)
    · intro overPast
      exact floodPort_past (past overPast)
    · intro detection holds
      rcases floodPort_holds (members entry (.head _)) past holds with old | new
      · exact known detection old
      · exact new

theorem flood_past {over_ : Over} (past : over_.Past at_) :
    Over.Past (flood collected at_ baseline values over_ topo).over_ at_ :=
  (foldl_holds baseline values topo (ports collected) (fun _ member => member)
    (fun same => same) (not_holds_empty collected at_ over_)).1 past

theorem flood_detections (over_ : Over) :
    let found := (ports collected).foldl (floodPort collected at_ baseline values topo)
      ⟨[], [], over_, [], [], []⟩
    (flood collected at_ baseline values over_ topo).detections =
      found.detections ++ found.large.map (fun candidate =>
        if attacked found.large candidate then candidate.flood else candidate.watched) :=
  rfl

theorem flood_fromPort {over_ : Over} {detection : Detection}
    (member : detection ∈ (flood collected at_ baseline values over_ topo).detections) :
    FromPort collected at_ over_ detection := by
  have known := (foldl_holds baseline values topo (ports collected) (fun _ member => member)
    (fun same => same) (not_holds_empty collected at_ over_)).2
  rw [flood_detections] at member
  rcases mem_append.mp member with called | large
  · exact known detection (Or.inl called)
  · obtain ⟨candidate, isLarge, isDetection⟩ := mem_map.mp large
    apply known detection
    apply Or.inr
    refine ⟨candidate, isLarge, ?_⟩
    split at isDetection
    · exact Or.inl isDetection.symm
    · exact Or.inr isDetection.symm

end Nmas.Sdn.Detect
