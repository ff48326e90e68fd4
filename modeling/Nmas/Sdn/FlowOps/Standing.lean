import Mathlib.Data.Multiset.Basic
import Nmas.Log.Touches
import Nmas.Sdn.FlowOps.Verify

/-!
Contract: what stands on a switch of the flows and meters an operation touches.

Owns:
- a switch as a map from subjects to what Verify compares of them;
- the checks of Verify as questions to that map;
- what a step that fits a switch does to it: it gives one subject another
  standing, and touches no other.
-/

namespace Nmas.Sdn.FlowOps

open Nmas.Text List
open Nmas.Sdn.FlowIntent (normalActions sameMatch sameActions)
open Nmas.Log (Touch)

/-- What a step is about: a flow by its place and cookie, a meter by its id. -/
inductive Subject where
  | flow (place : Place) (cookie : Nat)
  | meter (meterId : Nat)

inductive Standing where
  | flow (instructions : Multiset Action) (applied : List Action) (hardTimeout : Nat)
  | meter (bands : List Band)

theorem find?_of_unique {Entry : Type} {test : Entry → Bool} {entries : List Entry} {entry : Entry}
    (member : entry ∈ entries) (accepts : test entry)
    (unique : ∀ other ∈ entries, test other → other = entry) :
    entries.find? test = some entry := by
  cases found : entries.find? test with
  | none => exact absurd accepts (List.find?_eq_none.mp found entry member)
  | some other =>
    rw [unique other (mem_of_find?_eq_some found) (List.find?_some found)]

section Standing

variable [Unicode] [Readers]

def subjectOf (flow : Flow) : Subject := .flow (placeOf flow) flow.cookie

def flowStanding (flow : Flow) : Standing :=
  .flow (normalActions flow.actions).1 (normalActions flow.actions).2 flow.hardTimeout

def meterStanding (meter : Meter) : Standing := .meter (comparedBands meter)

theorem flowStanding_eq {one other : Flow} :
    flowStanding one = flowStanding other ↔
      sameActions one.actions other.actions ∧ one.hardTimeout = other.hardTimeout := by
  unfold flowStanding sameActions
  rw [Standing.flow.injEq, Multiset.coe_eq_coe, Bool.and_eq_true, isPerm_iff, beq_iff_eq,
    and_assoc]

open Classical in
noncomputable def isAt (place : Place) (cookie : Nat) (flow : Flow) : Bool :=
  placeOf flow = place ∧ flow.cookie = cookie

@[simp] theorem isAt_iff {place : Place} {cookie : Nat} {flow : Flow} :
    isAt place cookie flow ↔ placeOf flow = place ∧ flow.cookie = cookie := by
  simp [isAt]

noncomputable def standing (switch : Switch) : Subject → Option Standing
  | .flow place cookie => (switch.flows.find? (isAt place cookie)).map flowStanding
  | .meter meterId =>
    (switch.meters.find? (fun meter => meter.meterId = meterId)).map meterStanding

/-! ### Reading the map -/

variable {switch : Switch}

theorem Switch.places_nodup (switch : Switch) : (switch.flows.map placeOf).Nodup := by
  unfold List.Nodup
  rw [pairwise_map]
  exact switch.onePlace.imp (fun differ => samePlace_eq_false.mp differ)

theorem Switch.flow_unique {one other : Flow} (first : one ∈ switch.flows)
    (second : other ∈ switch.flows) (same : placeOf one = placeOf other) : one = other :=
  inj_on_of_nodup_map switch.places_nodup first second same

theorem Switch.meter_unique {one other : Meter} (first : one ∈ switch.meters)
    (second : other ∈ switch.meters) (same : one.meterId = other.meterId) : one = other :=
  inj_on_of_nodup_map switch.oneId first second same

theorem standing_of_flow {flow : Flow} (member : flow ∈ switch.flows) :
    standing switch (subjectOf flow) = some (flowStanding flow) := by
  refine Option.map_eq_some_iff.mpr ⟨flow, find?_of_unique member ?_ ?_, rfl⟩
  · simp
  · intro other otherMember isFlow
    exact switch.flow_unique otherMember member (isAt_iff.mp isFlow).1

theorem standing_flow_none {place : Place} {cookie : Nat}
    (absent : ∀ flow ∈ switch.flows, ¬ (placeOf flow = place ∧ flow.cookie = cookie)) :
    standing switch (.flow place cookie) = none := by
  unfold standing
  rw [Option.map_eq_none_iff, List.find?_eq_none]
  simpa using absent

theorem standing_of_meter {meter : Meter} (member : meter ∈ switch.meters) :
    standing switch (.meter meter.meterId) = some (meterStanding meter) := by
  refine Option.map_eq_some_iff.mpr ⟨meter, find?_of_unique member ?_ ?_, rfl⟩
  · exact decide_eq_true rfl
  · intro other otherMember isMeter
    exact switch.meter_unique otherMember member (of_decide_eq_true isMeter)

theorem standing_meter_none {meterId : Nat}
    (absent : ∀ meter ∈ switch.meters, meter.meterId ≠ meterId) :
    standing switch (.meter meterId) = none := by
  unfold standing
  rw [Option.map_eq_none_iff, List.find?_eq_none]
  simpa using absent

theorem standing_flow_congr {other : Switch} {place : Place} {cookie : Nat}
    (same : ∀ flow, placeOf flow = place → flow.cookie = cookie →
      (flow ∈ other.flows ↔ flow ∈ switch.flows)) :
    standing other (.flow place cookie) = standing switch (.flow place cookie) := by
  by_cases held : ∃ flow ∈ switch.flows, placeOf flow = place ∧ flow.cookie = cookie
  · obtain ⟨flow, member, rfl, rfl⟩ := held
    have otherMember := (same flow rfl rfl).mpr member
    exact (standing_of_flow otherMember).trans (standing_of_flow member).symm
  · have absent : ∀ flow ∈ switch.flows, ¬ (placeOf flow = place ∧ flow.cookie = cookie) :=
      fun flow member isHeld => held ⟨flow, member, isHeld⟩
    rw [standing_flow_none absent, standing_flow_none]
    intro flow member isHeld
    exact absent flow ((same flow isHeld.1 isHeld.2).mp member) isHeld

theorem standing_meter_congr {other : Switch} {meterId : Nat}
    (same : ∀ meter, meter.meterId = meterId → (meter ∈ other.meters ↔ meter ∈ switch.meters)) :
    standing other (.meter meterId) = standing switch (.meter meterId) := by
  by_cases held : ∃ meter ∈ switch.meters, meter.meterId = meterId
  · obtain ⟨meter, member, rfl⟩ := held
    have otherMember := (same meter rfl).mpr member
    exact (standing_of_meter otherMember).trans (standing_of_meter member).symm
  · have absent : ∀ meter ∈ switch.meters, meter.meterId ≠ meterId :=
      fun meter member isHeld => held ⟨meter, member, isHeld⟩
    rw [standing_meter_none absent, standing_meter_none]
    intro meter member isHeld
    exact absent meter ((same meter isHeld).mp member) isHeld

/-! ### The checks -/

def touched : Expect → Option (Touch Subject (Option Standing))
  | .present flow => some ⟨subjectOf flow, some (flowStanding flow)⟩
  | .absent flow => some ⟨subjectOf flow, none⟩
  | .meter meter => some ⟨.meter meter.meterId, some (meterStanding meter)⟩
  | .noMeter meterId => some ⟨.meter meterId, none⟩
  | .nothing => none

theorem named_target {flow held : Flow} :
    named (target flow) held ↔ placeOf held = placeOf flow ∧ held.cookie = flow.cookie := by
  unfold named
  rw [Bool.and_eq_true, samePlace_iff, target_place]
  simp [target]

theorem find_target_isNone {flow : Flow} :
    (find switch.flows (target flow)).isNone ↔ standing switch (subjectOf flow) = none := by
  unfold find
  rw [Option.isNone_iff_eq_none, List.find?_eq_none]
  constructor
  · intro absent
    apply standing_flow_none
    intro held member isHeld
    exact absent held member (named_target.mpr isHeld)
  · intro gone held member isHeld
    obtain ⟨samePlace, sameCookie⟩ := named_target.mp isHeld
    have stands := standing_of_flow member
    rw [subjectOf, samePlace, sameCookie] at stands
    rw [subjectOf, stands] at gone
    exact Option.some_ne_none _ gone

theorem isPresent_iff {flow : Flow} :
    isPresent switch.flows flow ↔ standing switch (subjectOf flow) = some (flowStanding flow) := by
  unfold isPresent
  rw [Option.any_eq_true]
  constructor
  · intro ⟨hit, found, asSent⟩
    obtain ⟨samePlace, sameCookie⟩ := named_target.mp (List.find?_some found)
    have stands := standing_of_flow (mem_of_find?_eq_some found)
    rw [subjectOf, samePlace, sameCookie] at stands
    rw [subjectOf, stands, Option.some.injEq, eq_comm, flowStanding_eq]
    simp only [Bool.and_eq_true, decide_eq_true_eq] at asSent
    exact ⟨asSent.1.2, asSent.2.symm⟩
  · intro stands
    by_cases held : ∃ hit ∈ switch.flows, placeOf hit = placeOf flow ∧ hit.cookie = flow.cookie
    · obtain ⟨hit, member, samePlace, sameCookie⟩ := held
      have found : find switch.flows (target flow) = some hit :=
        find?_of_unique member (named_target.mpr ⟨samePlace, sameCookie⟩)
          (fun other otherMember isNamed =>
            switch.flow_unique otherMember member
              ((named_target.mp isNamed).1.trans samePlace.symm))
      have hitStands := standing_of_flow member
      rw [subjectOf, samePlace, sameCookie] at hitStands
      rw [subjectOf, hitStands, Option.some.injEq, eq_comm, flowStanding_eq] at stands
      have place := Place.mk.injEq _ _ _ _ _ _ ▸ samePlace
      have sameMatch : sameMatch flow.match_ hit.match_ :=
        sameMatch_iff.mpr (fun field => (congrFun place.2.2 field).symm)
      refine ⟨hit, found, ?_⟩
      simp only [Bool.and_eq_true, decide_eq_true_eq]
      exact ⟨⟨⟨⟨place.1, place.2.1⟩, sameMatch⟩, stands.1⟩, stands.2.symm⟩
    · rw [subjectOf, standing_flow_none (fun hit member isHit => held ⟨hit, member, isHit⟩)] at stands
      exact absurd stands.symm (Option.some_ne_none _)

theorem meter_check_iff {want : Meter} :
    (switch.meters.find? (fun meter => meter.meterId = want.meterId)).any (fun held =>
      comparedBands held = comparedBands want) = true ↔
      standing switch (.meter want.meterId) = some (meterStanding want) := by
  unfold standing meterStanding
  rw [Option.any_eq_true, Option.map_eq_some_iff]
  simp only [decide_eq_true_eq, Standing.meter.injEq]

theorem noMeter_check_iff {meterId : Nat} :
    (!switch.meters.any (fun meter => meter.meterId = meterId)) = true ↔
      standing switch (.meter meterId) = none := by
  unfold standing
  rw [Option.map_eq_none_iff, List.find?_eq_none, Bool.not_eq_true', any_eq_false]

theorem checkOf_isSome (flows : List Flow) (meters : List Meter) (expect : Expect) :
    (checkOf flows meters expect).isSome = (touched expect).isSome := by
  cases expect <;> rfl

theorem checkOf_passes {expect : Expect} {touch : Touch Subject (Option Standing)}
    (isTouch : touched expect = some touch) :
    checkOf switch.flows switch.meters expect = some true ↔
      standing switch touch.key = touch.value := by
  cases expect with
  | nothing => exact absurd isTouch.symm (Option.some_ne_none _)
  | present flow =>
    obtain rfl := Option.some.inj isTouch
    exact Option.some_inj.trans isPresent_iff
  | absent flow =>
    obtain rfl := Option.some.inj isTouch
    exact Option.some_inj.trans find_target_isNone
  | meter want =>
    obtain rfl := Option.some.inj isTouch
    exact Option.some_inj.trans meter_check_iff
  | noMeter meterId =>
    obtain rfl := Option.some.inj isTouch
    exact Option.some_inj.trans noMeter_check_iff

theorem checkOf_flows {expect : Expect} (noMeters : expect.needsMeters = false)
    (flows : List Flow) (one other : List Meter) :
    checkOf flows one expect = checkOf flows other expect := by
  cases expect with
  | meter want | noMeter meterId => exact absurd noMeters (by simp [Expect.needsMeters])
  | _ => rfl

theorem checksOf_switch (expects : List Expect) :
    checksOf expects ⟨some switch.flows, some switch.meters⟩ =
      expects.filterMap (checkOf switch.flows switch.meters) := by
  show (if expects.any Expect.needsMeters then
      expects.filterMap (checkOf switch.flows switch.meters)
    else expects.filterMap (checkOf switch.flows [])) = _
  split
  · rfl
  · rename_i noMeters
    apply filterMap_congr
    intro expect member
    apply checkOf_flows
    by_contra needs
    exact noMeters (any_eq_true.mpr ⟨expect, member, by simpa using needs⟩)

theorem checks_nil_iff {expects : List Expect} :
    expects.filterMap (checkOf switch.flows switch.meters) = [] ↔
      expects.filterMap touched = [] := by
  rw [filterMap_eq_nil_iff, filterMap_eq_nil_iff]
  simp only [← Option.isNone_iff_eq_none, ← Option.not_isSome, checkOf_isSome]

theorem checks_all_iff {expects : List Expect} :
    (expects.filterMap (checkOf switch.flows switch.meters)).all id ↔
      ∀ touch ∈ expects.filterMap touched, standing switch touch.key = touch.value := by
  rw [all_eq_true]
  constructor
  · intro passes touch member
    obtain ⟨expect, expectMember, isTouch⟩ := mem_filterMap.mp member
    have hasCheck := checkOf_isSome switch.flows switch.meters expect
    rw [isTouch] at hasCheck
    obtain ⟨passed, isCheck⟩ := Option.isSome_iff_exists.mp hasCheck
    have passedTrue : passed := passes passed (mem_filterMap.mpr ⟨expect, expectMember, isCheck⟩)
    exact (checkOf_passes isTouch).mp (passedTrue ▸ isCheck)
  · intro stands passed member
    obtain ⟨expect, expectMember, isCheck⟩ := mem_filterMap.mp member
    have hasTouch := checkOf_isSome switch.flows switch.meters expect
    rw [isCheck] at hasTouch
    obtain ⟨touch, isTouch⟩ := Option.isSome_iff_exists.mp hasTouch.symm
    have passes := (checkOf_passes isTouch).mpr
      (stands touch (mem_filterMap.mpr ⟨expect, expectMember, isTouch⟩))
    exact Option.some.inj (isCheck.symm.trans passes)

/-- **Verify passes on a switch when there is something to check, and every
subject stands as its step should leave it.** -/
theorem verifyInstalled_iff {expects : List Expect} :
    verifyInstalled expects switch.readings ↔
      expects.filterMap touched ≠ [] ∧
        ∀ touch ∈ expects.filterMap touched, standing switch touch.key = touch.value := by
  unfold verifyInstalled Switch.readings verifyReads
  rw [any_replicate, checksOf_switch, if_neg (by decide), Bool.and_eq_true, checks_all_iff,
    decide_eq_true_eq, ne_eq, checks_nil_iff]

end Standing

end Nmas.Sdn.FlowOps
