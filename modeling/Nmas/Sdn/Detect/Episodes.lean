import Nmas.Alerts.Moments
import Nmas.Sdn.Detect.Resolves
import Nmas.Sdn.Detect.Runs

/-!
Contract: an episode for every time a detection fired.

Owns: the intervals a run's detections fire in, and when the alert history, as
`observe` offers it their transitions, reads back as exactly these.

A detection's interval begins when its condition did, which for a port is when
it went over its limit. A port can stay over while its detection ends, as the
shape of its traffic changes; the detection returns with the beginning it had,
and the store already holds that transition.
-/

namespace Nmas.Sdn.Detect

open Nmas.Text List
open Nmas.Alerts

def Key.identity (key : Key) : Identity := ⟨store, key.rule.title, key.labels⟩

def ofNetwork (network : Str) (identity : Identity) : Bool :=
  identity.store = store && identity.labels.lookup "network".ascii = some network

/-! ### Instances -/

theorem title_injective : Function.Injective Rule.title := by
  intro one other same
  cases one <;> cases other <;> first | rfl | exact absurd same (by decide)

theorem value_str_injective {one other : PortNo} (same : one.value.str = other.value.str) :
    one = other := by
  have isNumber : ∀ number : Nat, Nat.toDigits 10 number ≠ "LOCAL".ascii := by
    intro number isLocal
    have inDigits : 'L' ∈ Nat.toDigits 10 number := by
      rw [isLocal]
      decide
    have isDigit := Nat.isDigit_of_mem_toDigits (by omega) (by omega) inDigits
    exact absurd isDigit (by decide)
  cases one with
  | number one =>
    cases other with
    | number other =>
      have digits : Nat.toDigits 10 one = Nat.toDigits 10 other := same
      have read := congrArg (fun text => Nat.ofDigitChars 10 text 0) digits
      simp only [Nat.ofDigitChars_toDigits (show 1 < 10 by omega) (le_refl 10)] at read
      rw [read]
    | «local» => exact absurd same (isNumber one)
  | «local» =>
    cases other with
    | number other => exact absurd same.symm (isNumber other)
    | «local» => rfl

theorem label_injective : Function.Injective Subject.label := by
  intro one other same
  have sameKind := congrArg Prod.fst same
  have sameValue := congrArg Prod.snd same
  cases one <;> cases other <;> first
    | exact absurd sameKind (by simp only [Subject.label]; decide)
    | exact congrArg _ sameValue
    | exact congrArg _ (value_str_injective sameValue)

theorem identity_injective : Function.Injective Key.identity := by
  intro one other same
  injection same with _ sameTitle sameLabels
  have sameRule := title_injective sameTitle
  unfold Key.labels at sameLabels
  simp only [List.cons.injEq, Prod.mk.injEq, true_and, and_true] at sameLabels
  obtain ⟨_, sameNetwork, sameConnection, sameSwitch, sameSubject⟩ := sameLabels
  have sameSubject := label_injective sameSubject
  cases one
  cases other
  cases sameRule
  cases sameNetwork
  cases sameConnection
  cases sameSwitch
  cases sameSubject
  rfl

theorem ofNetwork_identity (key : Key) : ofNetwork key.network key.identity := by
  have isLabel : key.identity.labels.lookup "network".ascii = some key.network := rfl
  unfold ofNetwork
  rw [isLabel, Bool.and_eq_true]
  exact ⟨decide_eq_true rfl, decide_eq_true rfl⟩

/-! ### What a collection finds -/

section Begins

variable [Unicode] [Readers] {collected : Collected} {at_ : Time} {values : Thresholds}
  {intent : FlowIntent.Intent} {topo : Topology} {state : NetworkState}

def Detection.BegunBy (network : Str) (at_ : Time) (detection : Detection) : Prop :=
  detection.key.network = network ∧ detection.since.getD at_ ≤ at_

omit [Unicode] in
theorem fallback_begun {detection : Detection}
    (member : detection ∈ fallback collected values topo) :
    detection.BegunBy collected.network at_ := by
  obtain ⟨pair, _, inside⟩ := mem_flatMap.mp member
  dsimp only at inside
  split at inside
  · cases inside
  · obtain ⟨port, _, isDetection⟩ := mem_filterMap.mp inside
    split at isDetection
    · split at isDetection
      · cases isDetection
      · injection isDetection with same
        rw [← same]
        exact ⟨rfl, le_refl at_⟩
    · cases isDetection

omit [Unicode] [Readers] in
theorem scans_begun {detection : Detection} {seen : List Seen}
    (member : detection ∈ scans collected values seen) :
    detection.BegunBy collected.network at_ := by
  obtain ⟨entry, _, isDetection⟩ := mem_filterMap.mp member
  split at isDetection
  · split at isDetection
    · cases isDetection
    · injection isDetection with same
      rw [← same]
      exact ⟨rfl, le_refl at_⟩
  · cases isDetection

omit [Unicode] in
theorem flood_begun {detection : Detection} (past : state.over_.Past at_)
    (member : detection ∈ (flood collected at_ state.baseline values state.over_ topo).detections) :
    detection.BegunBy collected.network at_ := by
  obtain ⟨entry, _, since, _, isFlood, bound⟩ := flood_fromPort member
  constructor
  · rw [isFlood.place]
    rfl
  · rw [isFlood.since]
    exact bound past

theorem unauthorised_begun {detection : Detection}
    (member : detection ∈ unauthorised collected intent) :
    detection.BegunBy collected.network at_ := by
  unfold unauthorised at member
  cases intent with
  | none => cases member
  | some records =>
    obtain ⟨pair, _, inside⟩ := mem_flatMap.mp member
    obtain ⟨flow, _, same⟩ := mem_map.mp inside
    rw [← same]
    exact ⟨rfl, le_refl at_⟩

omit [Unicode] in
theorem markReplies_begun {detections : List Detection}
    (begun : ∀ detection ∈ detections, detection.BegunBy collected.network at_) :
    ∀ detection ∈ markReplies detections collected, detection.BegunBy collected.network at_ := by
  intro detection member
  obtain ⟨old, oldMember, isMarked⟩ := mem_map.mp member
  rw [← isMarked]
  split
  · exact begun old oldMember
  · exact begun old oldMember

theorem judge_begun (past : state.over_.Past at_) :
    ∀ detection ∈ (judge collected at_ values intent topo state).detections,
      detection.BegunBy collected.network at_ := by
  intro detection member
  rcases mem_append.mp member with marked | flow
  · apply markReplies_begun _ detection marked
    intro old oldMember
    rcases mem_append.mp oldMember with rateOrScan | flooded
    · rcases mem_append.mp rateOrScan with rate | scan
      · exact fallback_begun rate
      · exact scans_begun scan
    · exact flood_begun past flooded
  · exact unauthorised_begun flow

end Begins

theorem current_subset {detections : List Detection} {detection : Detection}
    (member : detection ∈ current detections) : detection ∈ detections := by
  have general := List.foldlRecOn detections
    (fun held detection => Log.put Detection.key detection held)
    (motive := fun held => ∀ detection ∈ held, detection ∈ detections)
    (fun detection inNil => absurd inNil not_mem_nil)
    (by
      intro held known found foundMember detection inPut
      rcases Log.mem_put inPut with old | new
      · exact known detection old
      · rw [new]
        exact foundMember)
  exact general detection member

/-! ### The intervals of a run -/

def Firing.holds (firing : Firing) (identity : Identity) : Bool :=
  firing.entries.any (·.key.identity = identity)

def startedIn (before after : Firing) : List (Identity × Time) :=
  (after.entries.filter (fun entry => !before.entries.any (·.key = entry.key))).map
    (fun entry => (entry.key.identity, entry.since))

/-- What the states of a run make of the intervals found before it: those of
detections that left are ended, and those of new ones begun. -/
def firingIntervals [Unicode] [Readers] (network : Str) (values : Thresholds) :
    List Interval → World → List Call → List Interval
  | found, _, [] => found
  | found, world, call :: rest =>
    match judgeable network call.collected world.state.collectedAt with
    | .ok at_ =>
      let next := (call.observeAt values world at_).2
      firingIntervals network values
        (advance found next.state.firing.holds at_
          (startedIn world.state.firing next.state.firing)) next rest
    | .error _ => firingIntervals network values found world rest

/-- What a state keeps of the intervals that led to it. -/
structure EpisodesKept (network : Str) (intervals : List Interval) (world : World) : Prop where
  /-- Every start and every end has a transition of its own. -/
  own : ((journal intervals).map Row.key).Nodup
  kept : ∀ row ∈ journal intervals, row.kept ∈ world.history ∨ row ∈ world.state.unrecorded
  once : ((world.history.filter (ofNetwork network ·.identity)).map Row.key).Nodup
  episodes : world.state.unrecorded = [] → ∀ firingNow,
    ((Alerts.episodes (world.history.filter (ofNetwork network ·.identity)) firingNow).map
      Episode.span).Perm (intervals.map Interval.span)

def BeginsAnew (world : World) (at_ : Time) (detection : Detection) : Prop :=
  ∀ row ∈ world.history ++ world.state.unrecorded, row.identity = detection.key.identity →
    row.to_ = .normal → row.at_ < detection.since.getD at_

instance (world : World) (at_ : Time) (detection : Detection) :
    Decidable (BeginsAnew world at_ detection) :=
  inferInstanceAs (Decidable (∀ row ∈ _, _))

section Anew

variable [Unicode] [Readers]

def Call.StartsAnew (values : Thresholds) (world : World) (at_ : Time) (call : Call) : Prop :=
  ∀ detection ∈ current (judge call.collected at_ values call.intent call.topo
      world.state).detections,
    (∀ entry ∈ world.state.firing.entries, entry.key ≠ detection.key) →
      BeginsAnew world at_ detection

instance (values : Thresholds) (world : World) (at_ : Time) (call : Call) :
    Decidable (call.StartsAnew values world at_) :=
  inferInstanceAs (Decidable (∀ detection ∈ _, _))

/-- So does every one that starts in the run. -/
def AllStartAnew (network : Str) (values : Thresholds) : World → List Call → Prop
  | _, [] => True
  | world, call :: rest =>
    match judgeable network call.collected world.state.collectedAt with
    | .ok at_ => call.StartsAnew values world at_ ∧
        AllStartAnew network values (call.observeAt values world at_).2 rest
    | .error _ => AllStartAnew network values world rest

def decideAllStartAnew (network : Str) (values : Thresholds) :
    (world : World) → (calls : List Call) → Decidable (AllStartAnew network values world calls)
  | _, [] => isTrue trivial
  | world, call :: rest => by
    unfold AllStartAnew
    exact
      match judgeable network call.collected world.state.collectedAt with
      | .ok at_ =>
        have := decideAllStartAnew network values (call.observeAt values world at_).2 rest
        inferInstanceAs (Decidable (_ ∧ _))
      | .error _ => decideAllStartAnew network values world rest

instance (network : Str) (values : Thresholds) (world : World) (calls : List Call) :
    Decidable (AllStartAnew network values world calls) :=
  decideAllStartAnew network values world calls

end Anew

/-! ### What is firing after a collection -/

section Settled

variable {at_ : Time} {values : Thresholds} {judged : Judged} {firing : Firing} {entry : Entry}

theorem mem_settledFiring : entry ∈ (settledFiring at_ values judged firing).entries ↔
    (∃ old ∈ firing.entries, ends judged old = false ∧
      old.shown (current judged.detections) = entry) ∨
    ∃ detection ∈ current judged.detections,
      (∀ old ∈ firing.entries, old.key ≠ detection.key) ∧ fire at_ values detection = entry := by
  show entry ∈ _ ++ _ ↔ _
  rw [mem_append, mem_map, starts, mem_map]
  simp [and_assoc]

theorem mem_starts : entry ∈ starts at_ values judged firing.entries ↔
    ∃ detection ∈ current judged.detections,
      (∀ old ∈ firing.entries, old.key ≠ detection.key) ∧ fire at_ values detection = entry := by
  rw [starts, mem_map]
  simp [and_assoc]

theorem not_holds_of_ends (member : entry ∈ firing.entries) (isEnd : ends judged entry) :
    (settledFiring at_ values judged firing).holds entry.key.identity = false := by
  apply any_eq_false.mpr
  intro now nowMember same
  have sameKey := identity_injective (of_decide_eq_true same)
  rcases mem_settledFiring.mp nowMember with
    ⟨old, oldMember, goesOn, isShown⟩ | ⟨detection, _, fresh, isFired⟩
  · rw [← isShown, key_shown] at sameKey
    have sameEntry := eq_of_key member oldMember sameKey
    rw [sameEntry, isEnd] at goesOn
    cases goesOn
  · rw [← isFired] at sameKey
    exact fresh entry member sameKey.symm

theorem holds_of_goes_on (member : entry ∈ firing.entries) (goesOn : ends judged entry = false) :
    (settledFiring at_ values judged firing).holds entry.key.identity := by
  apply any_eq_true.mpr
  refine ⟨entry.shown (current judged.detections),
    mem_settledFiring.mpr (.inl ⟨entry, member, goesOn, rfl⟩), ?_⟩
  rw [key_shown]
  exact decide_eq_true rfl

theorem mem_startedIn {new : Identity × Time} :
    new ∈ startedIn firing (settledFiring at_ values judged firing) ↔
      ∃ entry ∈ starts at_ values judged firing.entries,
        (entry.key.identity, entry.since) = new := by
  unfold startedIn
  rw [mem_map]
  apply exists_congr
  intro entry
  apply and_congr_left
  intro _
  rw [mem_filter, mem_settledFiring, mem_starts]
  constructor
  · intro both
    obtain ⟨either, fresh⟩ := both
    rcases either with ⟨old, oldMember, _, isShown⟩ | isStart
    · rw [← isShown, key_shown] at fresh
      simp only [Bool.not_eq_true', any_eq_false, decide_eq_true_eq] at fresh
      exact absurd rfl (fresh old oldMember)
    · exact isStart
  · intro isStart
    refine ⟨.inr isStart, ?_⟩
    obtain ⟨detection, _, fresh, isFired⟩ := isStart
    rw [← isFired]
    simp only [Bool.not_eq_true', any_eq_false, decide_eq_true_eq]
    exact fresh

theorem holds_of_started {new : Identity × Time}
    (isNew : new ∈ startedIn firing (settledFiring at_ values judged firing)) :
    (settledFiring at_ values judged firing).holds new.1 := by
  obtain ⟨entry, isStart, isPair⟩ := mem_startedIn.mp isNew
  apply any_eq_true.mpr
  refine ⟨entry, mem_settledFiring.mpr (.inr (mem_starts.mp isStart)), ?_⟩
  rw [← isPair]
  exact decide_eq_true rfl

theorem startedIn_once :
    ((startedIn firing (settledFiring at_ values judged firing)).map Prod.fst).Nodup := by
  unfold startedIn
  rw [map_map]
  have distinct := (settledFiring at_ values judged firing).distinct
  have identities := distinct.map identity_injective
  rw [map_map] at identities
  exact identities.sublist (filter_sublist.map _)

end Settled

/-! ### One collection -/

structure Tracked (network : Str) (intervals : List Interval) (world : World) : Prop where
  spaced : Spaced intervals
  begun : ∀ interval ∈ intervals, ∃ last ∈ world.state.collectedAt, interval.since ≤ last
  ours : ∀ interval ∈ intervals, ofNetwork network interval.identity = true
  fires : ∀ interval ∈ intervals, interval.ended = none →
    world.state.firing.holds interval.identity = true
  firing : ∀ entry ∈ world.state.firing.entries,
    entry.inst.identity store = entry.key.identity ∧
      ∃ interval ∈ intervals, interval.identity = entry.key.identity ∧ interval.ended = none
  over_ : world.state.OverPast
  offered : ∀ row ∈ world.state.unrecorded, row ∈ journal intervals
  holds : Holds (journal intervals) (ofNetwork network · = true) world.history
    world.state.unrecorded

theorem tracked_empty {network : Str} {history : List Row}
    (none_ : ∀ row ∈ history, ofNetwork network row.identity = false) :
    Tracked network [] ⟨emptyNetwork, history⟩ where
  spaced := ⟨fun _ member => absurd member not_mem_nil, List.Pairwise.nil⟩
  begun := fun _ member => absurd member not_mem_nil
  ours := fun _ member => absurd member not_mem_nil
  fires := fun _ member => absurd member not_mem_nil
  firing := fun _ member => absurd member not_mem_nil
  over_ := emptyNetwork_overPast
  offered := fun _ member => absurd member not_mem_nil
  holds := by
    constructor
    · intro identity isOurs
      have noRows : rowsOf identity history = [] := by
        apply filter_eq_nil_iff.mpr
        intro row member same
        have notOurs := none_ row member
        rw [of_decide_eq_true same, isOurs] at notOurs
        cases notOurs
      rw [noRows]
      exact nil_prefix
    · exact fun _ member => absurd member not_mem_nil

theorem Tracked.isJournal {network : Str} {intervals : List Interval}
    (spaced : Spaced intervals)
    (ours : ∀ interval ∈ intervals, ofNetwork network interval.identity) :
    IsJournal (journal intervals) (ofNetwork network ·) where
  isOurs := by
    intro row member
    obtain ⟨interval, inIntervals, inRows⟩ := mem_flatMap.mp member
    rw [identity_of_mem_rows inRows]
    exact ours interval inIntervals
  transition := fun _ member => isTransition_of_mem_journal member
  transitions := by
    intro identity
    rw [rowsOf_journal]
    exact journal_transitions (spaced.filter _)
      (fun interval member => of_decide_eq_true (mem_filter.mp member).2)

theorem offer_recorded {journal history rows : List Row} {ours : Identity → Prop}
    (isJournal : IsJournal journal ours) (refusal : Option Refusal)
    (members : ∀ row ∈ rows, row ∈ journal) (holds : Holds journal ours history rows) :
    Recorded journal ours history (offer history refusal rows) := by
  unfold offer
  split
  · rename_i isEmpty
    refine ⟨⟨[], (append_nil _).symm, nofun⟩, holds.isPrefix, ?_⟩
    intro _ row member
    rcases holds.rest row member with kept | waiting
    · exact kept
    · rw [isEmpty_iff.mp isEmpty] at waiting
      cases waiting
  · exact record_recorded isJournal refusal members holds

section Step

variable {network : Str} {intervals : List Interval} {world : World} {at_ : Time}
  {values : Thresholds} {judged : Judged}

theorem Tracked.startsAfter (tracked : Tracked network intervals world)
    (anew : ∀ detection ∈ current judged.detections,
      (∀ entry ∈ world.state.firing.entries, entry.key ≠ detection.key) →
        BeginsAnew world at_ detection) :
    StartsAfter intervals (startedIn world.state.firing
      (settledFiring at_ values judged world.state.firing)) where
  once := startedIn_once
  apart := by
    intro new isNew interval member same
    obtain ⟨entry, isStart, isPair⟩ := mem_startedIn.mp isNew
    obtain ⟨detection, found, fresh, isFired⟩ := mem_starts.mp isStart
    rw [← isPair, ← isFired] at same ⊢
    have same : interval.identity = detection.key.identity := same
    cases isEnded : interval.ended with
    | none =>
      -- An interval that goes on is of a detection firing, which this one is not.
      have isFiring := tracked.fires interval member isEnded
      obtain ⟨old, oldMember, isOld⟩ := any_eq_true.mp isFiring
      rw [same] at isOld
      exact absurd (identity_injective (of_decide_eq_true isOld)) (fresh old oldMember)
    | some ended =>
      refine ⟨ended, rfl, ?_⟩
      have inJournal : Row.resolves interval.identity ended ∈ journal intervals :=
        mem_flatMap.mpr ⟨interval, member, mem_rows.mpr (.inr ⟨ended, isEnded, rfl⟩)⟩
      rcases tracked.holds.rest _ inJournal with recorded | waiting
      · exact anew detection found fresh _ (mem_append_left _ recorded) same rfl
      · exact anew detection found fresh _ (mem_append_right _ waiting) same rfl

theorem Tracked.mem_offered (tracked : Tracked network intervals world) {row : Row} :
    row ∈ fromDetections store
        ((starts at_ values judged world.state.firing.entries).map Entry.inst)
        ((world.state.firing.entries.filter (ends judged)).map Entry.inst) at_ ↔
      (∃ interval ∈ intervals, interval.ended = none ∧
        (settledFiring at_ values judged world.state.firing).holds interval.identity = false ∧
        row = .resolves interval.identity at_) ∨
      ∃ new ∈ startedIn world.state.firing
        (settledFiring at_ values judged world.state.firing), row = .fires new.1 new.2 := by
  unfold fromDetections
  rw [mem_append, map_map, map_map, mem_map, mem_map, or_comm]
  apply or_congr
  · constructor
    · rintro ⟨entry, member, isRow⟩
      obtain ⟨isFiring, isEnd⟩ := mem_filter.mp member
      obtain ⟨isInstance, interval, inIntervals, same, isOpen⟩ := tracked.firing entry isFiring
      refine ⟨interval, inIntervals, isOpen, ?_, ?_⟩
      · rw [same]
        exact not_holds_of_ends isFiring isEnd
      · rw [same, ← isInstance]
        exact isRow.symm
    · rintro ⟨interval, member, isOpen, left_, isRow⟩
      have isFiring := tracked.fires interval member isOpen
      obtain ⟨entry, entryMember, same⟩ := any_eq_true.mp isFiring
      have same := of_decide_eq_true same
      refine ⟨entry, mem_filter.mpr ⟨entryMember, ?_⟩, ?_⟩
      · cases isEnd : ends judged entry with
        | true => rfl
        | false =>
          rw [← same, holds_of_goes_on entryMember isEnd] at left_
          cases left_
      · rw [isRow, ← same, ← (tracked.firing entry entryMember).1]
        rfl
  · constructor
    · rintro ⟨entry, isStart, isRow⟩
      refine ⟨_, mem_startedIn.mpr ⟨entry, isStart, rfl⟩, ?_⟩
      obtain ⟨detection, _, _, isFired⟩ := mem_starts.mp isStart
      rw [← isRow, ← isFired]
      rfl
    · rintro ⟨new, isNew, isRow⟩
      obtain ⟨entry, isStart, isPair⟩ := mem_startedIn.mp isNew
      refine ⟨entry, isStart, ?_⟩
      obtain ⟨detection, _, _, isFired⟩ := mem_starts.mp isStart
      rw [isRow, ← isPair, ← isFired]
      rfl

end Step

section Step

variable [Unicode] [Readers] {network : Str} {intervals : List Interval} {world : World}
  {at_ : Time} {values : Thresholds} {call : Call}

theorem Tracked.step (tracked : Tracked network intervals world)
    (isJudged : judgeable network call.collected world.state.collectedAt = .ok at_)
    (anew : call.StartsAnew values world at_) :
    Tracked network
      (advance intervals (call.observeAt values world at_).2.state.firing.holds at_
        (startedIn world.state.firing (call.observeAt values world at_).2.state.firing))
      (call.observeAt values world at_).2 := by
  have isNetwork : call.collected.network = network := judgeable_network isJudged
  have overPast := tracked.over_.past isJudged
  set judged := judge call.collected at_ values call.intent call.topo world.state with isRules
  have isFiring : (call.observeAt values world at_).2.state.firing =
      settledFiring at_ values judged world.state.firing := rfl
  rw [isFiring]
  set firing := settledFiring at_ values judged world.state.firing with isSettled
  have past : ∀ interval ∈ intervals, interval.since ≤ at_ := by
    intro interval member
    obtain ⟨last, isLast, bound⟩ := tracked.begun interval member
    exact le_trans bound (judgeable_not_older isJudged last isLast)
  have after : StartsAfter intervals (startedIn world.state.firing firing) :=
    tracked.startsAfter anew
  have spaced : Spaced (advance intervals firing.holds at_
      (startedIn world.state.firing firing)) := tracked.spaced.advance after past
  have started : ∀ new ∈ startedIn world.state.firing firing,
      new.2 ≤ at_ ∧ ofNetwork network new.1 = true := by
    intro new isNew
    obtain ⟨entry, isStart, isPair⟩ := mem_startedIn.mp isNew
    obtain ⟨detection, found, _, isFired⟩ := mem_starts.mp isStart
    obtain ⟨sameNetwork, begun⟩ := judge_begun overPast detection (current_subset found)
    rw [← isPair, ← isFired]
    constructor
    · exact begun
    · rw [← isNetwork, ← sameNetwork]
      exact ofNetwork_identity detection.key
  have ours : ∀ interval ∈ advance intervals firing.holds at_
      (startedIn world.state.firing firing), ofNetwork network interval.identity = true := by
    intro interval member
    rcases mem_advance.mp member with ⟨old, oldMember, isClosed⟩ | ⟨new, newMember, isBegun⟩
    · rw [← isClosed, close_identity]
      exact tracked.ours old oldMember
    · rw [← isBegun]
      exact (started new newMember).2
  set next := advance intervals firing.holds at_ (startedIn world.state.firing firing) with isNext
  have isJournal := Tracked.isJournal spaced ours
  set rows := world.state.unrecorded ++ fromDetections store
    ((starts at_ values judged world.state.firing.entries).map Entry.inst)
    ((world.state.firing.entries.filter (ends judged)).map Entry.inst) at_ with isRows
  have offered : ∀ row ∈ rows, row ∈ journal next := by
    intro row member
    apply mem_journal_advance.mpr
    rcases mem_append.mp member with waiting | new
    · exact .inl (tracked.offered row waiting)
    · exact .inr (tracked.mem_offered.mp new)
  have holds : Holds (journal next) (ofNetwork network ·) world.history rows := by
    constructor
    · intro identity isOurs
      exact (tracked.holds.isPrefix identity isOurs).trans
        ((rowsOf_journal_advance tracked.spaced identity).map _)
    · intro row member
      rcases mem_journal_advance.mp member with old | new
      · rcases tracked.holds.rest row old with recorded | waiting
        · exact .inl recorded
        · exact .inr (mem_append_left _ waiting)
      · exact .inr (mem_append_right _ (tracked.mem_offered.mpr new))
  have recorded := offer_recorded isJournal call.refusal offered holds
  have isHistory : (call.observeAt values world at_).2.history =
      (offer world.history call.refusal rows).1 := rfl
  have isUnrecorded : (call.observeAt values world at_).2.state.unrecorded =
      if (offer world.history call.refusal rows).2 then [] else rows := rfl
  constructor
  case spaced => exact spaced
  case ours => exact ours
  case over_ => exact observeAt_overPast overPast
  case begun =>
    intro interval member
    refine ⟨at_, rfl, ?_⟩
    rcases mem_advance.mp member with ⟨old, oldMember, isClosed⟩ | ⟨new, newMember, isBegun⟩
    · rw [← isClosed, close_since]
      exact past old oldMember
    · rw [← isBegun]
      exact (started new newMember).1
  case fires =>
    intro interval member isOpen
    rcases mem_advance.mp member with ⟨old, oldMember, isClosed⟩ | ⟨new, newMember, isBegun⟩
    · rw [← isClosed] at isOpen ⊢
      rw [close_identity]
      exact (goesOn_of_open isOpen).2
    · rw [← isBegun]
      exact holds_of_started newMember
  case firing =>
    intro entry member
    rcases mem_settledFiring.mp member with
      ⟨old, oldMember, goesOn, isShown⟩ | ⟨detection, found, fresh, isFired⟩
    · obtain ⟨isInstance, interval, inIntervals, same, isOpen⟩ := tracked.firing old oldMember
      rw [← isShown, key_shown]
      refine ⟨isInstance, interval, ?_, same, isOpen⟩
      apply mem_advance.mpr
      refine .inl ⟨interval, inIntervals, close_of_goesOn ?_⟩
      rw [same]
      exact holds_of_goes_on oldMember goesOn
    · rw [← isFired]
      refine ⟨rfl, .begin (detection.key.identity, detection.since.getD at_), ?_, rfl, rfl⟩
      apply mem_advance.mpr
      refine .inr ⟨_, mem_startedIn.mpr ⟨fire at_ values detection, ?_, rfl⟩, rfl⟩
      exact mem_starts.mpr ⟨detection, found, fresh, rfl⟩
  case offered =>
    intro row member
    rw [isUnrecorded] at member
    split at member
    · cases member
    · exact offered row member
  case holds =>
    constructor
    · rw [isHistory]
      exact recorded.isPrefix
    · intro row member
      rw [isHistory, isUnrecorded]
      split
      · rename_i isOk
        exact .inl (recorded.complete isOk row member)
      · rcases holds.rest row member with kept | waiting
        · obtain ⟨added, isGrown, _⟩ := recorded.grown
          rw [isGrown]
          exact .inl (mem_append_left _ kept)
        · exact .inr waiting

end Step

/-! ### What a tracked state keeps -/

section Kept

variable {network : Str} {intervals : List Interval} {world : World}

theorem rowsOf_ofNetwork (history : List Row) (identity : Identity) :
    rowsOf identity (history.filter (ofNetwork network ·.identity)) =
      if ofNetwork network identity then rowsOf identity history else [] := by
  unfold rowsOf
  rw [filter_filter]
  split
  · rename_i isOurs
    apply filter_congr
    intro row _
    by_cases same : row.identity = identity
    · rw [same, isOurs, Bool.and_true]
    · rw [decide_eq_false same, Bool.false_and]
  · rename_i notOurs
    apply filter_eq_nil_iff.mpr
    intro row _ both
    rw [Bool.and_eq_true] at both
    rw [of_decide_eq_true both.1] at both
    exact notOurs both.2

theorem Tracked.isPrefix (tracked : Tracked network intervals world) (identity : Identity) :
    rowsOf identity (world.history.filter (ofNetwork network ·.identity)) <+:
      (rowsOf identity (journal intervals)).map Row.kept := by
  rw [rowsOf_ofNetwork]
  split
  · rename_i isOurs
    exact tracked.holds.isPrefix identity isOurs
  · exact nil_prefix

theorem kept_keys (spaced : Spaced intervals) (identity : Identity) :
    (((rowsOf identity (journal intervals)).map Row.kept).map Row.key).Nodup := by
  rw [map_map]
  exact rowsOf_journal_keys spaced identity

theorem Tracked.all_recorded (tracked : Tracked network intervals world)
    (nothingWaits : world.state.unrecorded = []) (identity : Identity) :
    rowsOf identity (world.history.filter (ofNetwork network ·.identity)) =
      (rowsOf identity (journal intervals)).map Row.kept := by
  obtain ⟨rest, isSplit⟩ := tracked.isPrefix identity
  have noRest : rest = [] := by
    apply eq_nil_iff_forall_not_mem.mpr
    intro row inRest
    have inAll : row ∈ (rowsOf identity (journal intervals)).map Row.kept := by
      rw [← isSplit]
      exact mem_append_right _ inRest
    obtain ⟨old, oldMember, isKept⟩ := mem_map.mp inAll
    obtain ⟨inJournal, same⟩ := mem_rowsOf.mp oldMember
    have inHistory : row ∈ rowsOf identity
        (world.history.filter (ofNetwork network ·.identity)) := by
      rw [← isKept]
      refine mem_rowsOf.mpr ⟨mem_filter.mpr ⟨?_, ?_⟩, same⟩
      · rcases tracked.holds.rest old inJournal with recorded | waiting
        · exact recorded
        · rw [nothingWaits] at waiting
          cases waiting
      · exact (Tracked.isJournal tracked.spaced tracked.ours).isOurs old inJournal
    have nodup := List.Nodup.of_map _ (kept_keys tracked.spaced identity)
    rw [← isSplit] at nodup
    exact disjoint_of_nodup_append nodup inHistory inRest
  rw [← isSplit, noRest, append_nil]

theorem Tracked.episodesKept (tracked : Tracked network intervals world) :
    EpisodesKept network intervals world where
  own := keys_nodup (rowsOf_journal_keys tracked.spaced)
  kept := tracked.holds.rest
  once := by
    apply keys_nodup
    intro identity
    exact List.Nodup.sublist ((tracked.isPrefix identity).sublist.map _)
      (kept_keys tracked.spaced identity)
  episodes := by
    intro nothingWaits firingNow
    exact episodes_perm tracked.spaced (tracked.all_recorded nothingWaits) firingNow

end Kept

/-! ### Runs -/

section Runs

variable [Unicode] [Readers] {network : Str} {values : Thresholds}

theorem Tracked.run {intervals : List Interval} {world : World} (calls : List Call)
    (tracked : Tracked network intervals world) (anew : AllStartAnew network values world calls) :
    Tracked network (firingIntervals network values intervals world calls)
      (run network values world calls) := by
  induction calls generalizing intervals world with
  | nil => exact tracked
  | cons call rest ih =>
    unfold AllStartAnew at anew
    unfold firingIntervals Detect.run
    cases isJudged : judgeable network call.collected world.state.collectedAt with
    | error why =>
      rw [isJudged] at anew
      exact ih tracked anew
    | ok at_ =>
      rw [isJudged] at anew
      exact ih (tracked.step isJudged anew.1) anew.2

/-- **Every episode is kept**, in every run whose detections each begin, as they
start to fire, after the last time they ended. -/
theorem episodes_kept (history : List Row) (calls : List Call)
    (newNetwork : ∀ row ∈ history, ofNetwork network row.identity = false)
    (anew : AllStartAnew network values ⟨emptyNetwork, history⟩ calls) :
    EpisodesKept network (firingIntervals network values [] ⟨emptyNetwork, history⟩ calls)
      (run network values ⟨emptyNetwork, history⟩ calls) :=
  ((tracked_empty newNetwork).run calls anew).episodesKept

end Runs

/-! ### One port -/

namespace Returning

/-- One switch whose first port received this many packets a second, of this
many bytes each. -/
def call (at_ : Time) (rate size : ℚ) : Call :=
  ⟨⟨"lab".ascii, some (946684800 + at_), .ok, [⟨"ryu".ascii, [0],
    [⟨1, "0000000000000001".ascii, [], none, none, [⟨.number 1,
      "port:ryu:0000000000000001:1".ascii, some rate, some (rate * size)⟩]⟩]⟩]⟩,
    some [], none, none⟩

def values : Thresholds := ⟨20, 60, 10000, 5, 30, 200⟩

def quiet : List Call := [call 0 2 100, call 10 2 100, call 20 2 100, call 30 2 100, call 40 2 100]

def once : List Call := quiet ++ [call 100 900 100, call 130 900 100, call 160 2 100]

/-- A flood whose packets are large for a while. -/
def calls : List Call :=
  quiet ++ [call 100 900 100, call 130 900 100, call 140 900 1000, call 150 900 100, call 160 2 100]

def world : World := @run basicLatin plainReaders "lab".ascii values ⟨emptyNetwork, []⟩ calls

def intervals : List Interval :=
  @firingIntervals basicLatin plainReaders "lab".ascii values [] ⟨emptyNetwork, []⟩ calls

end Returning

open Returning in
/-- A flood that fires once and ends is an episode. -/
theorem flood_once_kept :
    letI := basicLatin
    letI := plainReaders
    EpisodesKept "lab".ascii
      (firingIntervals "lab".ascii values [] ⟨emptyNetwork, []⟩ once)
      (run "lab".ascii values ⟨emptyNetwork, []⟩ once) := by
  letI := basicLatin
  letI := plainReaders
  apply episodes_kept [] once
  · decide
  · decide +kernel

open Returning in
/-- The flood that returns is firing a second time, and no episode has it. -/
theorem returning_flood_lost : ¬ EpisodesKept "lab".ascii intervals world := by
  intro kept
  have nothingWaits : world.state.unrecorded = [] := by decide +kernel
  have perm := (kept.episodes nothingWaits (fun _ => false)).length_eq
  rw [List.length_map, List.length_map] at perm
  have two : (Alerts.episodes (world.history.filter (ofNetwork "lab".ascii ·.identity))
      (fun _ => false)).length = 2 := by decide +kernel
  have three : intervals.length = 3 := by decide +kernel
  rw [two, three] at perm
  exact absurd perm (by decide)

end Nmas.Sdn.Detect
