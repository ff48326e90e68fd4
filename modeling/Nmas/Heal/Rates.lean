import Nmas.Heal.Decide
import Nmas.Log.Machine
import Nmas.Log.Window

/-!
Contract: how often a network is healed, over every run of decision passes.

Owns:
- what a decision to heal found in the record it was judged by;
- the rates of the heals decided, on the network and on each device;
- when the same departure of a device is never healed twice within the hours the
  policy sets, and a run in which it is.
-/

namespace Nmas.Heal

open Nmas.Text List
open Nmas.Log (since RateBounded Apart)
open Nmas.Log.Machine (Along)

def decided (rows : List Row) : List Decision := rows.filterMap Row.decided?

def heals (rows : List Row) : List Decision :=
  (decided rows).filter (fun decision => decision.outcome = .heal)

def healsOn (device : Str) (rows : List Row) : List Decision :=
  (heals rows).filter (fun decision => decision.device = device)

def SameDeparture (one other : Decision) : Prop :=
  one.device = other.device ∧ one.departure = other.departure

namespace Decide

variable {inc : Incident} {policy : Policy} {answers : Answers} {incidents : List Incident}
  {record : Option (List Row)} {rows : List Row} {now from_ : Clock} {made : Made} {hit : Hit}

/-! ### What a decision to heal found -/

theorem firstHit_none {guards : List (Option Hit)} :
    firstHit guards = none ↔ ∀ guard ∈ guards, guard = none := by
  unfold firstHit
  rw [List.findSome?_eq_none_iff]
  rfl

theorem firstHit_some {guards : List (Option Hit)} (isHit : firstHit guards = some hit) :
    some hit ∈ guards := by
  obtain ⟨guard, member, isGuard⟩ := exists_of_findSome?_eq_some isHit
  exact isGuard ▸ member

theorem stops_outcome {halt : Option (Option Halt)} {planned : Planned}
    (isHit : stops policy halt planned now = some hit) : hit.outcome ≠ .heal := by
  have member := firstHit_some isHit
  simp only [mem_cons, not_mem_nil, or_false] at member
  rcases member with isGuard | isGuard | isGuard
  · unfold Guards.g1KillSwitch at isGuard
    grind
  · unfold Guards.g2Mode at isGuard
    grind
  · unfold Guards.g3Planned at isGuard
    grind

theorem guards_outcome {records : List Record}
    (isHit : guards inc policy answers incidents records now = some hit) : hit.outcome ≠ .heal := by
  have member := firstHit_some isHit
  simp only [mem_cons, not_mem_nil, or_false] at member
  rcases member with isGuard | isGuard | isGuard | isGuard | isGuard | isGuard | isGuard
  · unfold Guards.g5Topology at isGuard
    cases isHeld : answers.topology <;> grind
  · unfold Guards.g6Many at isGuard
    grind
  · unfold Guards.g7Person at isGuard
    grind
  · unfold Guards.g8Grace at isGuard
    grind
  · unfold Guards.g9DeviceRate at isGuard
    grind
  · unfold Guards.g10NetworkRate at isGuard
    grind
  · unfold Guards.g11Repeat at isGuard
    grind

theorem outcomeOf_heal {classified : Classified} (heals : outcomeOf policy classified = .heal) :
    policy.mode = .auto := by
  unfold outcomeOf at heals
  grind

theorem propose_frame {records : List Record} {lastHaltEpoch : Clock} :
    (propose made policy answers records lastHaltEpoch).device = made.device ∧
      (propose made policy answers records lastHaltEpoch).departure = made.departure := by
  unfold propose
  dsimp only
  split
  · exact ⟨rfl, rfl⟩
  · split
    · exact ⟨rfl, rfl⟩
    · split
      · split
        · exact ⟨rfl, rfl⟩
        · split <;> exact ⟨rfl, rfl⟩
      · exact ⟨rfl, rfl⟩

theorem propose_heal {records : List Record} {lastHaltEpoch : Clock}
    (heals : (propose made policy answers records lastHaltEpoch).outcome = .heal) :
    policy.mode = .auto := by
  unfold propose at heals
  dsimp only at heals
  split at heals
  · cases heals
  · split at heals
    · rename_i hit isHit
      have member := firstHit_some isHit
      simp only [mem_cons, not_mem_nil, or_false] at member
      change hit.outcome = .heal at heals
      rcases member with isGuard | isGuard
      · unfold Guards.g12Size at isGuard
        grind
      · unfold Guards.g14RolledBack at isGuard
        grind
    · split at heals
      · split at heals
        · cases heals
        · split at heals
          · cases heals
          · exact outcomeOf_heal heals
      · exact outcomeOf_heal heals

theorem judge_device : (judge inc policy answers incidents record now).device = inc.device := by
  unfold judge
  dsimp only
  repeat' split
  all_goals first | rfl | exact propose_frame.1

/-- A decision to heal was judged in AUTO, by a record that could be read, with no
guard of it applying, on an incident that settled as departed; it names the
departure the incident settled on, where that has one. -/
theorem judge_heal (isRecord : ∀ read ∈ record, read = rows)
    (heals : (judge inc policy answers incidents record now).outcome = .heal) :
    policy.mode = .auto ∧
      guards inc policy answers incidents (decisions rows) now = none ∧
      inc.settled.map Settled.how ≠ some .atGolden ∧
      (settledDeparture inc ≠ [] →
        (judge inc policy answers incidents record now).departure = settledDeparture inc) := by
  generalize isMade : judge inc policy answers incidents record now = made at heals ⊢
  unfold judge at isMade
  dsimp only at isMade
  split at isMade
  · rw [← isMade] at heals
    cases heals
  · split at isMade
    · rename_i hit isHit
      unfold Guards.g4Golden at isHit
      rw [← isMade] at heals
      change hit.outcome = .heal at heals
      grind
    · split at isMade
      · rw [← isMade] at heals
        cases heals
      · rename_i read
        rw [isRecord read rfl] at isMade
        split at isMade
        · rename_i hit isHit
          rw [← isMade] at heals
          exact absurd heals (guards_outcome isHit)
        · rename_i passed
          split at isMade
          · split at isMade <;> rw [← isMade] at heals <;> cases heals
          · rename_i departed
            split at isMade
            · rw [← isMade] at heals
              cases heals
            · rename_i departure isRead
              split at isMade
              · rw [← isMade] at heals
                cases heals
              · rename_i unmoved
                split at isMade
                · rw [← isMade] at heals
                  cases heals
                · rw [← isMade] at heals ⊢
                  refine ⟨propose_heal heals, passed, departed, ?_⟩
                  intro fingerprinted
                  rw [propose_frame.2]
                  by_contra moved
                  exact unmoved ⟨fingerprinted, moved⟩

/-! ### What the record counts -/

theorem counted_heals (distinct : ((decided rows).map Decision.id).Nodup) :
    (Guards.counted (decisions rows) .heal from_).map Record.toDecision =
      since Decision.epoch from_ (heals rows) := by
  unfold since heals
  rw [decided, ← decisions_decided distinct, filter_filter, filter_map]
  congr 1
  apply filter_congr
  intro record _
  simp [Bool.and_comm]

structure Cleared (limits : Limits) (rows : List Row) (made : Made) (now : Clock) : Prop where
  network : (since Decision.epoch (now - 3600) (heals rows)).length < limits.maxPerNetworkHour
  device : (since Decision.epoch (now - 3600) (healsOn made.device rows)).length <
    limits.maxPerDeviceHour

def NoneAlike (limits : Limits) (rows : List Row) (made : Made) (now : Clock) : Prop :=
  ∀ earlier ∈ since Decision.epoch (now - limits.repeatHaltsHours * 3600) (heals rows),
    ¬ (earlier.device = made.device ∧ earlier.departure = made.departure)

theorem since_healsOn {device : Str} :
    since Decision.epoch from_ (healsOn device rows) =
      (since Decision.epoch from_ (heals rows)).filter (fun decision => decision.device = device) := by
  unfold since healsOn
  rw [filter_filter, filter_filter]
  apply filter_congr
  intro decision _
  exact Bool.and_comm _ _

theorem judge_cleared (distinct : ((decided rows).map Decision.id).Nodup)
    (isRecord : ∀ read ∈ record, read = rows)
    (heals : (judge inc policy answers incidents record now).outcome = .heal) :
    Cleared policy.limits rows (judge inc policy answers incidents record now) now := by
  obtain ⟨isAuto, passed, -, -⟩ := judge_heal isRecord heals
  have guarded := firstHit_none.mp passed
  simp only [mem_cons, not_mem_nil, or_false, forall_eq_or_imp, forall_eq, counts,
    isAuto, if_true] at guarded
  obtain ⟨-, -, -, -, deviceRate, networkRate, -⟩ := guarded
  constructor
  · unfold Guards.g10NetworkRate at networkRate
    rw [← counted_heals distinct, length_map]
    grind
  · unfold Guards.g9DeviceRate at deviceRate
    rw [judge_device, since_healsOn, ← counted_heals distinct, filter_map, length_map]
    change ((Guards.counted (decisions rows) .heal (now - 3600)).filter
      (fun record => record.device = inc.device)).length < policy.limits.maxPerDeviceHour
    grind

/-- An incident settled as departed names the departure. -/
def Fingerprinted (inc : Incident) : Prop :=
  ∀ settled ∈ inc.settled, settled.how = .persisted → settled.operands.departure ≠ []

theorem judge_none_alike (distinct : ((decided rows).map Decision.id).Nodup)
    (isRecord : ∀ read ∈ record, read = rows) (fingerprinted : Fingerprinted inc)
    (heals : (judge inc policy answers incidents record now).outcome = .heal) :
    NoneAlike policy.limits rows (judge inc policy answers incidents record now) now := by
  obtain ⟨isAuto, passed, departed, named⟩ := judge_heal isRecord heals
  have guarded := firstHit_none.mp passed
  simp only [mem_cons, not_mem_nil, or_false, forall_eq_or_imp, forall_eq, counts,
    isAuto, if_true] at guarded
  obtain ⟨-, -, -, grace, -, -, again⟩ := guarded
  have isFingerprint : settledDeparture inc ≠ [] := by
    unfold Guards.g8Grace at grace
    unfold settledDeparture
    cases isSettled : inc.settled with
    | none =>
      rw [isSettled] at grace
      cases grace
    | some settled =>
      have persisted : settled.how = .persisted := by
        rw [isSettled] at grace departed
        simp only [Option.map_some] at grace departed
        grind
      exact fingerprinted settled isSettled persisted
  unfold Guards.g11Repeat at again
  rw [if_neg isFingerprint] at again
  intro earlier member alike
  rw [judge_device, named isFingerprint] at alike
  rw [← counted_heals distinct] at member
  obtain ⟨found, isFound, rfl⟩ := mem_map.mp member
  have inGot : found ∈ (Guards.counted (decisions rows) .heal
      (now - policy.limits.repeatHaltsHours * 3600)).filter
        (fun record => record.device = inc.device ∧ record.departure = settledDeparture inc) :=
    mem_filter.mpr ⟨isFound, decide_eq_true alike⟩
  dsimp only at again
  rw [if_pos (ne_nil_of_mem inGot)] at again
  cases again

/-! ### What a step can do -/

/-- The decision a pass has made and not yet written, and when it made it. -/
def State.unwritten (state : State) : Option (Made × Clock) :=
  match state.pass with
  | some ⟨now, .recording _ made, _⟩ => some (made, now)
  | _ => none

def State.inHand (state : State) : Option (Incident × Policy) :=
  match state.pass with
  | some ⟨_, .judging inc policy, _⟩ => some (inc, policy)
  | _ => none

variable {state : State} {event : Event} {limits : Limits} {pass : Pass} {turn : Turn}

/-- What a step leaves of a pass: what it had in hand or made before, or a
decision just made of the incident in hand. -/
structure Leaves (state : State) (event : Event) (next : State) : Prop where
  unwritten : ∀ made now, next.unwritten = some (made, now) → made.outcome = .heal →
    state.unwritten = some (made, now) ∨
      ∃ inc policy answers record incidents, state.inHand = some (inc, policy) ∧
        (∀ read ∈ record, read = next.rows) ∧
        made = judge inc policy answers incidents record now
  inHand : ∀ inc policy, next.inHand = some (inc, policy) →
    state.inHand = some (inc, policy) ∨ ∃ turn, event = .goesOn turn ∧ policy = turn.policy

theorem leaves_of_idle {next : State} (nothing : next.unwritten = none) (idle : next.inHand = none) :
    Leaves state event next := by
  constructor
  · intro made now isMade
    rw [nothing] at isMade
    cases isMade
  · intro inc policy isInHand
    rw [idle] at isInHand
    cases isInHand

theorem takeUp_idle (state : State) (pass : Pass) (turn : Turn) :
    (takeUp state pass turn).rows = state.rows ∧
      (takeUp state pass turn).unwritten = none ∧ (takeUp state pass turn).inHand = none := by
  unfold takeUp
  repeat' split
  all_goals exact ⟨rfl, rfl, rfl⟩

theorem settles_idle (state : State) (pass : Pass) (decision : Decision) (turn : Turn) :
    (settles state pass decision turn).rows = state.rows ∧
      (settles state pass decision turn).unwritten = none ∧
      (settles state pass decision turn).inHand = none := by
  unfold settles
  dsimp only
  repeat' split
  all_goals exact ⟨rfl, rfl, rfl⟩

theorem goOn_cases (isPass : state.pass = some pass) :
    (decided (goOn state pass turn).rows = decided state.rows ∧
      Leaves state (.goesOn turn) (goOn state pass turn)) ∨
    (∃ made now, state.unwritten = some (made, now) ∧
      decided (goOn state pass turn).rows = decided state.rows ++ [⟨made, turn.draw, now⟩] ∧
      (goOn state pass turn).unwritten = none ∧ (goOn state pass turn).inHand = none) := by
  obtain ⟨now, stage, rest⟩ := pass
  cases stage with
  | between =>
    left
    obtain ⟨rows, unwritten, inHand⟩ := takeUp_idle state ⟨now, .between, rest⟩ turn
    exact ⟨congrArg decided rows, leaves_of_idle unwritten inHand⟩
  | stopping inc =>
    left
    unfold goOn
    dsimp only
    split
    · exact ⟨rfl, leaves_of_idle rfl rfl⟩
    · split
      · rename_i hit isHit
        refine ⟨rfl, ?_, ?_⟩
        · intro made decidedAt isMade heals
          cases isMade
          exact absurd heals (stops_outcome isHit)
        · intro later policy isInHand
          cases isInHand
      · refine ⟨rfl, ?_, ?_⟩
        · intro made decidedAt isMade
          cases isMade
        · intro later policy isInHand
          cases isInHand
          exact .inr ⟨turn, rfl, rfl⟩
  | judging inc policy =>
    left
    unfold goOn
    dsimp only
    split
    · exact ⟨rfl, leaves_of_idle rfl rfl⟩
    · refine ⟨rfl, ?_, ?_⟩
      · intro made decidedAt isMade heals
        cases isMade
        refine .inr ⟨inc, policy, turn.answers, _, _, ?_, ?_, rfl⟩
        · unfold State.inHand
          rw [isPass]
        · intro read isRead
          split at isRead
          · exact (Option.some.inj isRead).symm
          · cases isRead
      · intro later policy isInHand
        cases isInHand
  | recording inc made =>
    unfold goOn
    dsimp only
    split
    · exact .inl ⟨rfl, leaves_of_idle rfl rfl⟩
    · right
      refine ⟨made, now, ?_, ?_, rfl, rfl⟩
      · unfold State.unwritten
        rw [isPass]
      · exact filterMap_append
  | halting decision =>
    left
    unfold goOn
    dsimp only
    split
    · split
      · split
        · exact ⟨rfl, leaves_of_idle rfl rfl⟩
        · refine ⟨?_, leaves_of_idle rfl rfl⟩
          exact filterMap_append.trans (append_nil _)
      · exact ⟨rfl, leaves_of_idle rfl rfl⟩
    · exact ⟨rfl, leaves_of_idle rfl rfl⟩
  | settling decision =>
    left
    obtain ⟨rows, unwritten, inHand⟩ :=
      settles_idle state ⟨now, .settling decision, rest⟩ decision turn
    exact ⟨congrArg decided rows, leaves_of_idle unwritten inHand⟩
  | failing incident =>
    left
    unfold goOn
    dsimp only
    split <;> exact ⟨rfl, leaves_of_idle rfl rfl⟩

theorem step_cases :
    (decided (step state event).rows = decided state.rows ∧ Leaves state event (step state event)) ∨
    (∃ turn made now, event = .goesOn turn ∧ state.unwritten = some (made, now) ∧
      decided (step state event).rows = decided state.rows ++ [⟨made, turn.draw, now⟩] ∧
      (step state event).unwritten = none ∧ (step state event).inHand = none) := by
  cases event with
  | change act =>
    left
    exact ⟨rfl, fun made now isMade _ => .inl isMade, fun inc policy isInHand => .inl isInHand⟩
  | writes row other =>
    left
    refine ⟨?_, fun made now isMade _ => .inl isMade, fun inc policy isInHand => .inl isInHand⟩
    show decided (state.rows ++ [row]) = decided state.rows
    unfold decided
    rw [filterMap_append, filterMap_cons_none other, filterMap_nil, append_nil]
  | begins now =>
    left
    rw [step]
    split
    · exact ⟨rfl, fun made now isMade _ => .inl isMade, fun inc policy isInHand => .inl isInHand⟩
    · exact ⟨rfl, leaves_of_idle rfl rfl⟩
  | goesOn turn =>
    rw [step]
    split
    · left
      exact ⟨rfl, fun made now isMade _ => .inl isMade, fun inc policy isInHand => .inl isInHand⟩
    · rename_i pass isPass
      rcases goOn_cases isPass with left | ⟨made, now, writes⟩
      · exact .inl left
      · exact .inr ⟨turn, made, now, rfl, writes⟩
  | dies => exact .inl ⟨rfl, leaves_of_idle rfl rfl⟩

/-! ### Every run -/

/-- A decision is written under an id new to the record, and the limits do not
change. -/
def Orderly (limits : Limits) (state : State) : Event → Prop
  | .goesOn turn =>
    turn.policy.limits = limits ∧
      ∀ _made ∈ state.unwritten, ∀ decision ∈ decided state.rows, decision.id ≠ turn.draw
  | _ => True

/-- The heals of a record are bounded on the network and on every device. -/
structure Rated (limits : Limits) (rows : List Row) : Prop where
  network : RateBounded Decision.epoch 3600 limits.maxPerNetworkHour (heals rows)
  device : ∀ device, RateBounded Decision.epoch 3600 limits.maxPerDeviceHour (healsOn device rows)

/-- No deviation of a device is healed twice within the hours of a repeat. -/
def Unrepeated (limits : Limits) (rows : List Row) : Prop :=
  Apart Decision.epoch SameDeparture (limits.repeatHaltsHours * 3600) (heals rows)

structure Kept (limits : Limits) (state : State) : Prop where
  distinct : ((decided state.rows).map Decision.id).Nodup
  rated : Rated limits state.rows
  inHand : ∀ inc policy, state.inHand = some (inc, policy) → policy.limits = limits
  cleared : ∀ made now, state.unwritten = some (made, now) → made.outcome = .heal →
    Cleared limits state.rows made now

theorem heals_congr {next : List Row} (same : decided next = decided rows) :
    heals next = heals rows := by
  unfold heals
  rw [same]

theorem healsOn_congr {next : List Row} {device : Str} (same : decided next = decided rows) :
    healsOn device next = healsOn device rows := by
  unfold healsOn
  rw [heals_congr same]

theorem heals_written {next : List Row} {decision : Decision}
    (wrote : decided next = decided rows ++ [decision]) :
    heals next = heals rows ++ (if decision.outcome = .heal then [decision] else []) := by
  unfold heals
  rw [wrote, filter_append]
  by_cases isHeal : decision.outcome = .heal
  · simp [isHeal]
  · simp [isHeal]

theorem Rated.write {next : List Row} {made : Made} {id : Str} {now : Clock}
    (rated : Rated limits rows) (cleared : made.outcome = .heal → Cleared limits rows made now)
    (wrote : decided next = decided rows ++ [⟨made, id, now⟩]) : Rated limits next := by
  have isNext := heals_written wrote
  by_cases isHeal : made.outcome = .heal
  · rw [if_pos isHeal] at isNext
    constructor
    · rw [isNext]
      exact rated.network.append (cleared isHeal).network
    · intro device
      unfold healsOn
      rw [isNext, filter_append]
      by_cases isDevice : made.device = device
      · subst isDevice
        rw [filter_cons_of_pos (by simp), filter_nil]
        exact (rated.device made.device).append (cleared isHeal).device
      · rw [filter_cons_of_neg (by simpa using isDevice), filter_nil, append_nil]
        exact rated.device device
  · rw [if_neg isHeal, append_nil] at isNext
    constructor
    · rw [isNext]
      exact rated.network
    · intro device
      unfold healsOn
      rw [isNext]
      exact rated.device device

theorem cleared_congr {next : List Row} (same : decided next = decided rows) :
    Cleared limits next made now ↔ Cleared limits rows made now := by
  constructor
  · intro cleared
    exact ⟨heals_congr same ▸ cleared.network, healsOn_congr same ▸ cleared.device⟩
  · intro cleared
    exact ⟨heals_congr same ▸ cleared.network, healsOn_congr same ▸ cleared.device⟩

theorem Kept.step (kept : Kept limits state) (orderly : Orderly limits state event) :
    Kept limits (step state event) := by
  rcases @step_cases state event with
    ⟨same, leaves⟩ | ⟨turn, made, now, rfl, isMade, wrote, nothing, idle⟩
  · constructor
    · rw [same]
      exact kept.distinct
    · exact ⟨heals_congr same ▸ kept.rated.network,
        fun device => healsOn_congr same ▸ kept.rated.device device⟩
    · intro inc policy isInHand
      rcases leaves.inHand inc policy isInHand with before | ⟨turn, rfl, rfl⟩
      · exact kept.inHand inc policy before
      · exact orderly.1
    · intro made now isMade isHeal
      rw [cleared_congr same]
      rcases leaves.unwritten made now isMade isHeal with
        before | ⟨inc, policy, answers, record, incidents, isInHand, isRecord, rfl⟩
      · exact kept.cleared made now before isHeal
      · rw [← kept.inHand inc policy isInHand, ← cleared_congr same]
        apply judge_cleared _ isRecord isHeal
        rw [same]
        exact kept.distinct
  · constructor
    · rw [wrote, map_append, map_singleton, nodup_append]
      refine ⟨kept.distinct, pairwise_singleton _ _, ?_⟩
      intro id before other isNew
      obtain ⟨decision, member, rfl⟩ := mem_map.mp before
      rw [mem_singleton.mp isNew]
      exact orderly.2 _ isMade decision member
    · exact kept.rated.write (kept.cleared made now isMade) wrote
    · intro inc policy isInHand
      rw [idle] at isInHand
      cases isInHand
    · intro later at_ isLater
      rw [nothing] at isLater
      cases isLater

/-- The incident a step judges settled with a departure, if as departed. -/
def JudgesFingerprinted (state : State) (_ : Event) : Prop :=
  ∀ inHand ∈ state.inHand, Fingerprinted inHand.1

structure Spread (limits : Limits) (state : State) : Prop extends Kept limits state where
  unrepeated : Unrepeated limits state.rows
  noneAlike : ∀ made now, state.unwritten = some (made, now) → made.outcome = .heal →
    NoneAlike limits state.rows made now

theorem noneAlike_congr {next : List Row} (same : decided next = decided rows) :
    NoneAlike limits next made now ↔ NoneAlike limits rows made now := by
  unfold NoneAlike
  rw [heals_congr same]

theorem Spread.step (spread : Spread limits state) (orderly : Orderly limits state event)
    (fingerprinted : JudgesFingerprinted state event) : Spread limits (step state event) := by
  have kept := spread.toKept.step orderly
  rcases @step_cases state event with
    ⟨same, leaves⟩ | ⟨turn, made, now, rfl, isMade, wrote, nothing, idle⟩
  · refine ⟨kept, ?_, ?_⟩
    · unfold Unrepeated
      rw [heals_congr same]
      exact spread.unrepeated
    · intro made now isMade isHeal
      rw [noneAlike_congr same]
      rcases leaves.unwritten made now isMade isHeal with
        before | ⟨inc, policy, answers, record, incidents, isInHand, isRecord, rfl⟩
      · exact spread.noneAlike made now before isHeal
      · rw [← spread.inHand inc policy isInHand, ← noneAlike_congr same]
        apply judge_none_alike _ isRecord (fingerprinted (inc, policy) isInHand) isHeal
        rw [same]
        exact spread.distinct
  · refine ⟨kept, ?_, ?_⟩
    · unfold Unrepeated
      rw [heals_written wrote]
      by_cases isHeal : made.outcome = .heal
      · rw [if_pos isHeal]
        exact Apart.append spread.unrepeated (spread.noneAlike made now isMade isHeal)
      · rw [if_neg isHeal, append_nil]
        exact spread.unrepeated
    · intro later at_ isLater
      rw [nothing] at isLater
      cases isLater

theorem spread_start (limits : Limits) : Spread limits start := by
  refine ⟨⟨nodup_nil, ⟨?_, ?_⟩, ?_, ?_⟩, ?_, ?_⟩
  · exact Nmas.Log.rateBounded_nil
  · intro device
    exact Nmas.Log.rateBounded_nil
  · intro inc policy isInHand
    cases isInHand
  · intro made now isMade
    cases isMade
  · exact Nmas.Log.apart_nil
  · intro made now isMade
    cases isMade

/-- **Heals are rate-bounded over every run**: no hour holds more of them than
the limits, on the network or on a device; and where every incident judged as
departed names its departure, no deviation is healed twice within the hours of a
repeat. -/
theorem heals_rated {events : List Event} (orderly : Along step (Orderly limits) start events) :
    Rated limits (Log.Machine.run step start events).rows ∧
      (Along step JudgesFingerprinted start events →
        Unrepeated limits (Log.Machine.run step start events).rows) := by
  constructor
  · have kept := @Along.keeps _ _ _ _ (Kept limits) _ _
      (fun state event kept orderly => kept.step orderly) orderly (spread_start limits).toKept
    exact kept.rated
  · intro fingerprinted
    have spread := @Along.keeps _ _ _ _ (Spread limits) _ _
      (fun state event spread both => spread.step both.1 both.2)
      (orderly.and fingerprinted) (spread_start limits)
    exact spread.unrepeated

instance (limits : Limits) : ∀ state event, Decidable (Orderly limits state event)
  | _, .goesOn _ => inferInstanceAs (Decidable (_ ∧ _))
  | _, .change _ | _, .writes _ _ | _, .begins _ | _, .dies => inferInstanceAs (Decidable True)

instance (inc : Incident) : Decidable (Fingerprinted inc) :=
  inferInstanceAs (Decidable (∀ settled ∈ inc.settled, _))

instance (state : State) (event : Event) : Decidable (JudgesFingerprinted state event) :=
  inferInstanceAs (Decidable (∀ inHand ∈ state.inHand, _))

instance (one other : Decision) : Decidable (SameDeparture one other) :=
  inferInstanceAs (Decidable (_ ∧ _))

instance (limits : Limits) (rows : List Row) : Decidable (Unrepeated limits rows) :=
  inferInstanceAs (Decidable (List.Pairwise _ _))

/-! ### A device that loses a line of its golden twice, two hours apart -/

namespace TwiceLost

def strict : Limits := ⟨120, 3, 3, 10, 1, 6, 24, 1, 1⟩

def device : Str := "r2".ascii

def trigger (key : Str) (epoch : Clock) : Trigger := ⟨.drift, some key, epoch, none, []⟩

def read (departure : Str) (epoch : Clock) : Read := ⟨epoch, .drifted, departure, some 2, []⟩

def missing : FixUnit :=
  ⟨.add, ["interface Loopback0".ascii], ["description core".ascii], false, .missingLine⟩

def met (draw : Str) : Turn where
  policy := ⟨false, .auto, [.missingLine], [], strict⟩
  planned := .nothing
  answers := ⟨false, .atIntent, none, 0, false, some "5f1c".ascii, true,
    ⟨[missing], .missingLine, 1, false⟩, "a0".ascii, false, false⟩
  readable := true
  draw := draw
  fails := false

/-- The device departs, is read twice, and is healed: one decision. -/
def healed (id draw departure : Str) (from_ : Clock) : List Event :=
  let reads := [read departure (from_ + 10), read departure (from_ + 140)]
  [.change (.sight id device (trigger id from_) from_ (fun _ => none)),
    .change (.settle id (Grace.judge reads [] 120 (from_ + 140))),
    .begins (from_ + 200)] ++
    List.replicate 7 (.goesOn (met draw)) ++
    [.change (.close id why)]

/-- The two heals, settled on reads with this departure. -/
def events (departure : Str) : List Event :=
  healed "hi-1".ascii "hd-1".ascii departure 0 ++ healed "hi-2".ascii "hd-2".ascii departure 7200

end TwiceLost

open TwiceLost in
theorem fingerprinted_once :
    Rated strict (Log.Machine.run step start (events "5f1c".ascii)).rows ∧
      Unrepeated strict (Log.Machine.run step start (events "5f1c".ascii)).rows :=
  have rated := heals_rated (show Along step (Orderly strict) start (events "5f1c".ascii) by decide +kernel)
  ⟨rated.1, rated.2 (by decide +kernel)⟩

open TwiceLost in
/-- Settled on reads without a fingerprint, the same departure is healed twice
within two hours. -/
theorem unfingerprinted_twice :
    ¬ ∀ events, Along step (Orderly strict) start events →
      Unrepeated strict (Log.Machine.run step start events).rows := by
  intro unrepeated
  exact absurd (unrepeated (events []) (by decide +kernel)) (by decide +kernel)

end Decide

end Nmas.Heal
