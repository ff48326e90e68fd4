import Nmas.Sdn.FlowOps.Standing

/-!
Contract: what a planned step does to the switch it was planned on.

Owns: `Fits`, everything a step planned on a switch can be, one case for each
planner; `Follows`, steps each of which fits the switch the ones before it
leave; and what they leave of every subject.
-/

namespace Nmas.Sdn.FlowOps

open Nmas.Text List
open Nmas.Sdn.FlowIntent (sameActions)
open Nmas.Log (Touch EachChanges)
open Function

section Steps

variable [Unicode] [Readers]

/-- A flow named as the switch holds it, whatever its timeouts. -/
structure Names (spec found : Flow) : Prop where
  place : placeOf spec = placeOf found
  cookie : spec.cookie = found.cookie
  actions : spec.actions = found.actions
  idleTimeout : spec.idleTimeout = found.idleTimeout

inductive Fits (switch : Switch) : Step → Prop where
  | addFlow {flow : Flow} {reinstall : Bool}
      (free : ∀ held ∈ switch.flows, placeOf held ≠ placeOf flow) :
      Fits switch ⟨.addFlow, .addFlow flow, some (.deleteFlowStrict flow), .present flow, reinstall⟩
  | removeFlow {found spec : Flow} {undo : Option Request} (member : found ∈ switch.flows)
      (names : Names spec found) (hard : spec.hardTimeout = remaining found)
      (undoes : ∀ request, undo = some request → request = .addFlow spec) :
      Fits switch ⟨.removeFlow, .deleteFlowStrict spec, undo, .absent spec, false⟩
  | editFlow {found sent old : Flow} (member : found ∈ switch.flows)
      (place : placeOf sent = placeOf found) (cookie : sent.cookie = found.cookie)
      (hard : sent.hardTimeout = found.hardTimeout)
      (differs : sameActions sent.actions found.actions = false)
      (names : Names old found) (oldHard : old.hardTimeout = found.hardTimeout) :
      Fits switch ⟨.editFlow, .modifyFlowStrict sent, some (.modifyFlowStrict old),
        .present sent, false⟩
  | addMeter {meter : Meter} {reinstall : Bool}
      (free : ∀ held ∈ switch.meters, held.meterId ≠ meter.meterId) :
      Fits switch ⟨.addMeter, .addMeter meter, some (.deleteMeter meter.meterId), .meter meter,
        reinstall⟩
  | removeMeter {held : Meter} {meterId : Nat} {undo : Option Request}
      (member : held ∈ switch.meters) (isId : held.meterId = meterId)
      (undoes : ∀ request, undo = some request →
        ∃ back : Meter, request = .addMeter back ∧ back.sent = held.sent) :
      Fits switch ⟨.removeMeter, .deleteMeter meterId, undo, .noMeter meterId, false⟩

/-- Steps, each planned on the switch the ones before it leave. -/
inductive Follows : Switch → List Step → Prop where
  | nil {switch : Switch} : Follows switch []
  | cons {switch : Switch} {step : Step} {rest : List Step} (fits : Fits switch step)
      (follows : Follows (switch.execute step.request) rest) : Follows switch (step :: rest)

def Switch.reached (switch : Switch) (steps : List Step) : Switch :=
  steps.foldl (fun switch step => switch.execute step.request) switch

/-! ### The requests, flow by flow -/

variable {switch : Switch} {flow held : Flow} {meter heldMeter : Meter}

theorem mem_addFlow : held ∈ (switch.execute (.addFlow flow)).flows ↔
    (held ∈ switch.flows ∧ placeOf held ≠ placeOf flow) ∨ held = flow := by
  show held ∈ switch.flows.filter _ ++ [flow] ↔ _
  rw [mem_append, mem_filter, mem_singleton, Bool.not_eq_true', samePlace_eq_false,
    target_place]

theorem mem_deleteFlowStrict : held ∈ (switch.execute (.deleteFlowStrict flow)).flows ↔
    held ∈ switch.flows ∧ ¬ (placeOf held = placeOf flow ∧ held.cookie = flow.cookie) := by
  show held ∈ switch.flows.filter _ ↔ _
  rw [mem_filter, Bool.not_eq_true', ← Bool.not_eq_true, named_target]

theorem mem_modifyFlowStrict : held ∈ (switch.execute (.modifyFlowStrict flow)).flows ↔
    (held ∈ switch.flows ∧ placeOf held ≠ placeOf flow) ∨
      ∃ old ∈ switch.flows, placeOf old = placeOf flow ∧ held = amended flow.actions old := by
  show held ∈ switch.flows.map _ ↔ _
  rw [mem_map]
  constructor
  · intro ⟨old, member, isHeld⟩
    split at isHeld
    · rename_i atPlace
      exact .inr ⟨old, member, samePlace_iff.mp atPlace, isHeld.symm⟩
    · rename_i elsewhere
      subst isHeld
      exact .inl ⟨member, fun same => elsewhere (samePlace_iff.mpr same)⟩
  · rintro (⟨member, elsewhere⟩ | ⟨old, member, atPlace, rfl⟩)
    · exact ⟨held, member, if_neg (fun same => elsewhere (samePlace_iff.mp same))⟩
    · exact ⟨old, member, if_pos (samePlace_iff.mpr atPlace)⟩

theorem mem_addMeter : heldMeter ∈ (switch.execute (.addMeter meter)).meters ↔
    (heldMeter ∈ switch.meters ∧ heldMeter.meterId ≠ meter.meterId) ∨ heldMeter = meter.sent := by
  show heldMeter ∈ switch.meters.filter _ ++ [meter.sent] ↔ _
  rw [mem_append, mem_filter, mem_singleton, decide_eq_true_eq]

theorem mem_deleteMeter {meterId : Nat} :
    heldMeter ∈ (switch.execute (.deleteMeter meterId)).meters ↔
      heldMeter ∈ switch.meters ∧ heldMeter.meterId ≠ meterId := by
  show heldMeter ∈ switch.meters.filter _ ↔ _
  rw [mem_filter, decide_eq_true_eq]

/-! ### What a request leaves of each subject -/

noncomputable instance : DecidableEq Subject := Classical.decEq _

theorem standing_addFlow (free : ∀ held ∈ switch.flows, placeOf held ≠ placeOf flow) :
    standing (switch.execute (.addFlow flow)) =
      update (standing switch) (subjectOf flow) (some (flowStanding flow)) := by
  funext subject
  by_cases isOwn : subject = subjectOf flow
  · rw [isOwn, update_self]
    exact standing_of_flow (mem_addFlow.mpr (.inr rfl))
  · rw [update_of_ne isOwn]
    cases subject with
    | meter meterId => rfl
    | flow place cookie =>
      apply standing_flow_congr
      intro held atPlace itsCookie
      rw [mem_addFlow]
      constructor
      · rintro (⟨member, _⟩ | rfl)
        · exact member
        · exact absurd (by rw [subjectOf, atPlace, itsCookie]) isOwn
      · intro member
        exact .inl ⟨member, free held member⟩

theorem standing_deleteFlowStrict :
    standing (switch.execute (.deleteFlowStrict flow)) =
      update (standing switch) (subjectOf flow) none := by
  funext subject
  by_cases isOwn : subject = subjectOf flow
  · rw [isOwn, update_self]
    apply standing_flow_none
    intro held member
    exact (mem_deleteFlowStrict.mp member).2
  · rw [update_of_ne isOwn]
    cases subject with
    | meter meterId => rfl
    | flow place cookie =>
      apply standing_flow_congr
      intro held atPlace itsCookie
      rw [mem_deleteFlowStrict, and_iff_left]
      intro ⟨samePlace, sameCookie⟩
      exact isOwn (by rw [subjectOf, ← atPlace, ← itsCookie, samePlace, sameCookie])

theorem standing_modifyFlowStrict (member : held ∈ switch.flows)
    (place : placeOf flow = placeOf held) (cookie : flow.cookie = held.cookie) :
    standing (switch.execute (.modifyFlowStrict flow)) =
      update (standing switch) (subjectOf flow)
        (some (flowStanding (amended flow.actions held))) := by
  funext subject
  have isSubject : subjectOf flow = subjectOf held := by rw [subjectOf, subjectOf, place, cookie]
  by_cases isOwn : subject = subjectOf flow
  · rw [isOwn, update_self, isSubject]
    exact standing_of_flow (mem_modifyFlowStrict.mpr (.inr ⟨held, member, place.symm, rfl⟩))
  · rw [update_of_ne isOwn]
    cases subject with
    | meter meterId => rfl
    | flow otherPlace otherCookie =>
      apply standing_flow_congr
      intro other atPlace itsCookie
      have elsewhere : other ∈ switch.flows → placeOf other ≠ placeOf flow := by
        intro otherMember same
        have isHeld := switch.flow_unique otherMember member (same.trans place)
        exact isOwn (by rw [isSubject, subjectOf, ← isHeld, atPlace, itsCookie])
      rw [mem_modifyFlowStrict]
      constructor
      · rintro (⟨otherMember, _⟩ | ⟨old, oldMember, oldPlace, rfl⟩)
        · exact otherMember
        · have isHeld := switch.flow_unique oldMember member (oldPlace.trans place)
          subst isHeld
          exact absurd (by rw [isSubject, subjectOf, ← atPlace, ← itsCookie]; rfl) isOwn
      · intro otherMember
        exact .inl ⟨otherMember, elsewhere otherMember⟩

omit [Unicode] [Readers] in
theorem meterStanding_sent (meter : Meter) : meterStanding meter.sent = meterStanding meter := by
  unfold meterStanding comparedBands Meter.sent
  rw [map_map]
  congr 1
  apply map_congr_left
  intro band _
  show band.sent.plain.sent = band.plain.sent
  cases band with
  | mk type rate burstSize => cases type <;> rfl

theorem standing_addMeter :
    standing (switch.execute (.addMeter meter)) =
      update (standing switch) (.meter meter.meterId) (some (meterStanding meter)) := by
  funext subject
  by_cases isOwn : subject = .meter meter.meterId
  · rw [isOwn, update_self, ← meterStanding_sent]
    exact standing_of_meter (mem_addMeter.mpr (.inr rfl))
  · rw [update_of_ne isOwn]
    cases subject with
    | flow place cookie => rfl
    | meter meterId =>
      apply standing_meter_congr
      intro held isHeld
      have otherId : held.meterId ≠ meter.meterId := fun same => isOwn (by rw [← isHeld, same])
      rw [mem_addMeter]
      constructor
      · rintro (⟨member, _⟩ | rfl)
        · exact member
        · exact absurd rfl otherId
      · intro member
        exact .inl ⟨member, otherId⟩

theorem standing_deleteMeter {meterId : Nat} :
    standing (switch.execute (.deleteMeter meterId)) =
      update (standing switch) (.meter meterId) none := by
  funext subject
  by_cases isOwn : subject = .meter meterId
  · rw [isOwn, update_self]
    apply standing_meter_none
    intro held member
    exact (mem_deleteMeter.mp member).2
  · rw [update_of_ne isOwn]
    cases subject with
    | flow place cookie => rfl
    | meter otherId =>
      apply standing_meter_congr
      intro held isHeld
      rw [mem_deleteMeter, and_iff_left]
      intro same
      exact isOwn (by rw [← isHeld, same])

/-! ### What a step leaves -/

/-- **A step that fits a switch gives its subject the standing it expects**,
another than it had, and no other subject. -/
theorem Fits.touches {step : Step} (fits : Fits switch step) :
    ∃ touch, touched step.expect = some touch ∧ standing switch touch.key ≠ touch.value ∧
      standing (switch.execute step.request) = update (standing switch) touch.key touch.value := by
  cases fits with
  | @addFlow flow reinstall free =>
    refine ⟨_, rfl, ?_, standing_addFlow free⟩
    show standing switch (.flow (placeOf flow) flow.cookie) ≠ _
    rw [standing_flow_none (fun held member isHeld => free held member isHeld.1)]
    exact (Option.some_ne_none _).symm
  | @removeFlow found spec undo member names hard undoes =>
    refine ⟨_, rfl, ?_, standing_deleteFlowStrict⟩
    have isSubject : subjectOf spec = subjectOf found := by
      rw [subjectOf, subjectOf, names.place, names.cookie]
    show standing switch (subjectOf spec) ≠ none
    rw [isSubject, standing_of_flow member]
    exact Option.some_ne_none _
  | @editFlow found sent old member place cookie hard differs names oldHard =>
    have isSubject : subjectOf sent = subjectOf found := by
      rw [subjectOf, subjectOf, place, cookie]
    have sentStanding : flowStanding (amended sent.actions found) = flowStanding sent := by
      unfold flowStanding amended
      rw [hard]
    refine ⟨_, rfl, ?_, ?_⟩
    · show standing switch (subjectOf sent) ≠ some (flowStanding sent)
      rw [isSubject, standing_of_flow member, ne_eq, Option.some.injEq, eq_comm, flowStanding_eq,
        differs]
      exact fun same => Bool.false_ne_true same.1
    · rw [← sentStanding]
      exact standing_modifyFlowStrict member place cookie
  | @addMeter meter reinstall free =>
    refine ⟨_, rfl, ?_, standing_addMeter⟩
    show standing switch (.meter meter.meterId) ≠ _
    rw [standing_meter_none free]
    exact (Option.some_ne_none _).symm
  | @removeMeter held meterId undo member isId undoes =>
    refine ⟨_, rfl, ?_, standing_deleteMeter⟩
    show standing switch (.meter meterId) ≠ none
    rw [← isId, standing_of_meter member]
    exact Option.some_ne_none _

def touches (steps : List Step) : List (Touch Subject (Option Standing)) :=
  (steps.map Step.expect).filterMap touched

theorem touches_cons {step : Step} {rest : List Step} {touch : Touch Subject (Option Standing)}
    (isTouch : touched step.expect = some touch) :
    touches (step :: rest) = touch :: touches rest := by
  unfold touches
  rw [map_cons, filterMap_cons, isTouch]

/-- **What steps leave on a switch is what their touches leave.** -/
theorem Follows.leaves {steps : List Step} (follows : Follows switch steps) :
    standing (switch.reached steps) = Log.leaves (standing switch) (touches steps) ∧
      EachChanges (standing switch) (touches steps) := by
  induction follows with
  | nil => exact ⟨rfl, trivial⟩
  | @cons switch step rest fits follows ih =>
    obtain ⟨touch, isTouch, changes, left⟩ := fits.touches
    rw [left] at ih
    rw [touches_cons isTouch]
    exact ⟨ih.1, changes, ih.2⟩

end Steps

end Nmas.Sdn.FlowOps
