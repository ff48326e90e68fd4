import Nmas.Sdn.FlowOps.Settled

/-!
Contract: what a rollback leaves of the switch an operation found.

Each undo takes its step back on a switch that is as its step left it, so the
undos, newest first, leave the switch as it was found. What the rollback reports
is another matter: the inverses of all steps are read on the last table, so two
steps on one flow have it report a failure where there is none.
-/

namespace Nmas.Sdn.FlowOps

open Nmas.Text List
open Nmas.Log (Touch)
open Function

section Undone

variable [Unicode] [Readers]

/-! ### The switch as it was -/

/-- A flow as it was, up to its counters and the remainder of its hard
timeout. -/
structure AsItWas (old new : Flow) : Prop extends Names new old where
  hard : new.hardTimeout = old.hardTimeout ∨ new.hardTimeout = remaining old

/-- A switch that holds the flows and the meters another held, and no other. -/
structure Restored (before after : Switch) : Prop where
  kept : ∀ old ∈ before.flows, ∃ new ∈ after.flows, AsItWas old new
  noOther : ∀ new ∈ after.flows, ∃ old ∈ before.flows, AsItWas old new
  meters : ∀ meter, meter ∈ before.meters.map Meter.sent ↔ meter ∈ after.meters.map Meter.sent

variable {switch after : Switch} {step : Step}

theorem Restored.refl (switch : Switch) : Restored switch switch where
  kept old member := ⟨old, member, ⟨⟨rfl, rfl, rfl, rfl⟩, .inl rfl⟩⟩
  noOther new member := ⟨new, member, ⟨⟨rfl, rfl, rfl, rfl⟩, .inl rfl⟩⟩
  meters _ := Iff.rfl

theorem undo_addFlow {flow : Flow} (free : ∀ held ∈ switch.flows, placeOf held ≠ placeOf flow)
    (restored : Restored (switch.execute (.addFlow flow)) after) :
    Restored switch (after.execute (.deleteFlowStrict flow)) where
  kept old member := by
    obtain ⟨new, newMember, asItWas⟩ :=
      restored.kept old (mem_addFlow.mpr (.inl ⟨member, free old member⟩))
    refine ⟨new, mem_deleteFlowStrict.mpr ⟨newMember, fun same => ?_⟩, asItWas⟩
    exact free old member (asItWas.place.symm.trans same.1)
  noOther new member := by
    obtain ⟨newMember, other⟩ := mem_deleteFlowStrict.mp member
    obtain ⟨old, oldMember, asItWas⟩ := restored.noOther new newMember
    rcases mem_addFlow.mp oldMember with ⟨before, _⟩ | isFlow
    · exact ⟨old, before, asItWas⟩
    · rw [isFlow] at asItWas
      exact absurd ⟨asItWas.place, asItWas.cookie⟩ other
  meters := restored.meters

theorem undo_removeFlow {found spec : Flow} (member : found ∈ switch.flows)
    (names : Names spec found) (hard : spec.hardTimeout = remaining found)
    (restored : Restored (switch.execute (.deleteFlowStrict spec)) after) :
    Restored switch (after.execute (.addFlow spec)) where
  kept old oldMember := by
    by_cases isFound : old = found
    · rw [isFound]
      exact ⟨spec, mem_addFlow.mpr (.inr rfl), names, .inr hard⟩
    · have elsewhere : placeOf old ≠ placeOf spec := by
        rw [names.place]
        exact fun same => isFound (switch.flow_unique oldMember member same)
      obtain ⟨new, newMember, asItWas⟩ :=
        restored.kept old (mem_deleteFlowStrict.mpr ⟨oldMember, fun same => elsewhere same.1⟩)
      refine ⟨new, mem_addFlow.mpr (.inl ⟨newMember, ?_⟩), asItWas⟩
      rw [asItWas.place]
      exact elsewhere
  noOther new newMember := by
    rcases mem_addFlow.mp newMember with ⟨before, _⟩ | isSpec
    · obtain ⟨old, oldMember, asItWas⟩ := restored.noOther new before
      exact ⟨old, (mem_deleteFlowStrict.mp oldMember).1, asItWas⟩
    · rw [isSpec]
      exact ⟨found, member, names, .inr hard⟩
  meters := restored.meters

theorem asItWas_amended {found new : Flow} {sent old : List Action}
    (asItWas : AsItWas (amended sent found) new) (isOld : old = found.actions) :
    AsItWas found (amended old new) :=
  ⟨⟨asItWas.place, asItWas.cookie, isOld, asItWas.idleTimeout⟩, asItWas.hard⟩

theorem undo_editFlow {found sent old : Flow} (member : found ∈ switch.flows)
    (place : placeOf sent = placeOf found) (names : Names old found)
    (restored : Restored (switch.execute (.modifyFlowStrict sent)) after) :
    Restored switch (after.execute (.modifyFlowStrict old)) where
  kept held heldMember := by
    by_cases isFound : held = found
    · have isAmended : amended sent.actions found ∈
          (switch.execute (.modifyFlowStrict sent)).flows :=
        mem_modifyFlowStrict.mpr (.inr ⟨found, member, place.symm, rfl⟩)
      obtain ⟨new, newMember, asItWas⟩ := restored.kept _ isAmended
      have newPlace : placeOf new = placeOf old := asItWas.place.trans names.place.symm
      rw [isFound]
      exact ⟨_, mem_modifyFlowStrict.mpr (.inr ⟨new, newMember, newPlace, rfl⟩),
        asItWas_amended asItWas names.actions⟩
    · have elsewhere : placeOf held ≠ placeOf found :=
        fun same => isFound (switch.flow_unique heldMember member same)
      obtain ⟨new, newMember, asItWas⟩ :=
        restored.kept held (mem_modifyFlowStrict.mpr (.inl ⟨heldMember, place ▸ elsewhere⟩))
      refine ⟨new, mem_modifyFlowStrict.mpr (.inl ⟨newMember, ?_⟩), asItWas⟩
      rw [asItWas.place, names.place]
      exact elsewhere
  noOther new newMember := by
    rcases mem_modifyFlowStrict.mp newMember with ⟨before, elsewhere⟩ | ⟨between, isHeld, atPlace, rfl⟩
    · obtain ⟨held, heldMember, asItWas⟩ := restored.noOther new before
      rcases mem_modifyFlowStrict.mp heldMember with ⟨inSwitch, _⟩ | ⟨edited, _, editedPlace, rfl⟩
      · exact ⟨held, inSwitch, asItWas⟩
      · exact absurd (asItWas.place.trans (editedPlace.trans (place.trans names.place.symm))) elsewhere
    · obtain ⟨held, heldMember, asItWas⟩ := restored.noOther between isHeld
      rcases mem_modifyFlowStrict.mp heldMember with ⟨_, apart⟩ | ⟨edited, inSwitch, editedPlace, rfl⟩
      · exact absurd (asItWas.place.symm.trans (atPlace.trans (names.place.trans place.symm))) apart
      · have isFound := switch.flow_unique inSwitch member (editedPlace.trans place)
        rw [isFound] at asItWas
        exact ⟨found, member, asItWas_amended asItWas names.actions⟩
  meters := restored.meters

theorem undo_addMeter {meter : Meter}
    (free : ∀ held ∈ switch.meters, held.meterId ≠ meter.meterId)
    (restored : Restored (switch.execute (.addMeter meter)) after) :
    Restored switch (after.execute (.deleteMeter meter.meterId)) where
  kept := restored.kept
  noOther := restored.noOther
  meters sent := by
    rw [mem_map, mem_map]
    constructor
    · intro ⟨held, member, isSent⟩
      have added : sent ∈ (switch.execute (.addMeter meter)).meters.map Meter.sent :=
        mem_map.mpr ⟨held, mem_addMeter.mpr (.inl ⟨member, free held member⟩), isSent⟩
      obtain ⟨own, ownMember, isOwn⟩ := mem_map.mp ((restored.meters sent).mp added)
      refine ⟨own, mem_deleteMeter.mpr ⟨ownMember, ?_⟩, isOwn⟩
      rw [← own.sent_meterId, isOwn, ← isSent]
      exact free held member
    · intro ⟨own, member, isOwn⟩
      obtain ⟨ownMember, other⟩ := mem_deleteMeter.mp member
      obtain ⟨held, heldMember, isSent⟩ :=
        mem_map.mp ((restored.meters sent).mpr (mem_map.mpr ⟨own, ownMember, isOwn⟩))
      rcases mem_addMeter.mp heldMember with ⟨before, _⟩ | isMeter
      · exact ⟨held, before, isSent⟩
      · refine absurd ?_ other
        rw [← own.sent_meterId, isOwn, ← isSent, isMeter]
        rfl

theorem undo_removeMeter {held back : Meter} (member : held ∈ switch.meters)
    (isBack : back.sent = held.sent)
    (restored : Restored (switch.execute (.deleteMeter held.meterId)) after) :
    Restored switch (after.execute (.addMeter back)) where
  kept := restored.kept
  noOther := restored.noOther
  meters sent := by
    have backId : back.meterId = held.meterId := by
      rw [← back.sent_meterId, isBack, held.sent_meterId]
    rw [mem_map, mem_map]
    constructor
    · intro ⟨own, ownMember, isOwn⟩
      by_cases isHeld : own.meterId = held.meterId
      · refine ⟨back.sent, mem_addMeter.mpr (.inr rfl), ?_⟩
        rw [back.sent_sent, isBack, ← isOwn, switch.meter_unique ownMember member isHeld]
      · have kept : sent ∈ (switch.execute (.deleteMeter held.meterId)).meters.map Meter.sent :=
          mem_map.mpr ⟨own, mem_deleteMeter.mpr ⟨ownMember, isHeld⟩, isOwn⟩
        obtain ⟨there, thereMember, isThere⟩ := mem_map.mp ((restored.meters sent).mp kept)
        refine ⟨there, mem_addMeter.mpr (.inl ⟨thereMember, ?_⟩), isThere⟩
        rw [← there.sent_meterId, isThere, ← isOwn, own.sent_meterId, backId]
        exact isHeld
    · intro ⟨own, ownMember, isOwn⟩
      rcases mem_addMeter.mp ownMember with ⟨before, _⟩ | isSent
      · obtain ⟨there, thereMember, isThere⟩ :=
          mem_map.mp ((restored.meters sent).mpr (mem_map.mpr ⟨own, before, isOwn⟩))
        exact ⟨there, (mem_deleteMeter.mp thereMember).1, isThere⟩
      · refine ⟨held, member, ?_⟩
        rw [← isOwn, isSent, back.sent_sent, isBack]

/-- **An undo takes its step back** on a switch that is as the step left it. -/
theorem Fits.undo {undo : Request} (fits : Fits switch step) (isUndo : step.undo = some undo)
    (restored : Restored (switch.execute step.request) after) :
    Restored switch (after.execute undo) := by
  cases fits with
  | addFlow free =>
    cases isUndo
    exact undo_addFlow free restored
  | removeFlow member names hard undoes =>
    rw [undoes undo isUndo]
    exact undo_removeFlow member names hard restored
  | editFlow member place cookie hard differs names oldHard =>
    cases isUndo
    exact undo_editFlow member place names restored
  | addMeter free =>
    cases isUndo
    exact undo_addMeter free restored
  | removeMeter member isId undoes =>
    obtain ⟨back, isRequest, isBack⟩ := undoes undo isUndo
    rw [isRequest]
    rw [← isId] at restored
    exact undo_removeMeter member isBack restored

/-! ### The undos, newest first -/

def always : Nat → Bool := fun _ => true

theorem undoSteps_append (undone : Undone) (newer older : List Step) :
    undoSteps always undone (newer ++ older) =
      undoSteps always (undoSteps always undone newer) older := by
  induction newer generalizing undone with
  | nil => rfl
  | cons step rest ih =>
    cases isUndo : step.undo with
    | none | some undo =>
      simp only [cons_append, undoSteps, isUndo]
      exact ih _

theorem undoSteps_reverse (undone : Undone) {undo : Request} (isUndo : step.undo = some undo)
    (rest : List Step) :
    undoSteps always undone (step :: rest).reverse =
      { undoSteps always undone rest.reverse with
        switch := (undoSteps always undone rest.reverse).switch.execute undo
        inverses := (undoSteps always undone rest.reverse).inverses ++ [inverse step] } := by
  rw [reverse_cons, undoSteps_append]
  conv_lhs => unfold undoSteps
  rw [isUndo]
  rfl

def takenBack (after : Switch) (steps : List Step) : Undone :=
  undoSteps always ⟨after, true, []⟩ steps.reverse

/-- **Steps that all have an undo leave the switch as it was**, taken back. -/
theorem Follows.restored {steps : List Step} (follows : Follows switch steps)
    (undone : ∀ step ∈ steps, step.undo.isSome) :
    Restored switch (takenBack (switch.reached steps) steps).switch ∧
      (takenBack (switch.reached steps) steps).ok ∧
      (takenBack (switch.reached steps) steps).inverses = (steps.map inverse).reverse := by
  induction follows with
  | nil => exact ⟨Restored.refl _, rfl, rfl⟩
  | @cons switch step rest fits follows ih =>
    obtain ⟨restored, ok, inverses⟩ :=
      ih (fun later member => undone later (mem_cons_of_mem step member))
    obtain ⟨undo, isUndo⟩ := Option.isSome_iff_exists.mp (undone step (.head _))
    have isTakenBack := undoSteps_reverse
      ⟨(switch.execute step.request).reached rest, true, []⟩ isUndo rest
    change takenBack (switch.reached (step :: rest)) (step :: rest) = _ at isTakenBack
    rw [isTakenBack]
    refine ⟨fits.undo isUndo restored, ok, ?_⟩
    rw [map_cons, reverse_cons]
    exact congrArg (· ++ [inverse step]) inverses

theorem undoSteps_not_ok {undone : Undone} {steps : List Step}
    (missing : undone.ok = false ∨ ∃ step ∈ steps, step.undo = none) :
    (undoSteps always undone steps).ok = false := by
  induction steps generalizing undone with
  | nil =>
    rcases missing with already | ⟨step, member, _⟩
    · exact already
    · cases member
  | cons first rest ih =>
    unfold undoSteps
    split
    · exact ih (.inl rfl)
    · rename_i undo isUndo
      apply ih
      refine missing.imp id (fun ⟨step, member, noUndo⟩ => ?_)
      rcases mem_cons.mp member with isFirst | later
      · rw [← isFirst, noUndo] at isUndo
        cases isUndo
      · exact ⟨step, later, noUndo⟩

/-! ### What is reported -/

def Expect.flow : Expect → Option Flow
  | .present flow | .absent flow => some flow
  | _ => none

def Expect.meterId : Expect → Option Nat
  | .meter held => some held.meterId
  | .noMeter gone => some gone
  | _ => none

/-- Two steps of a plan on one flow, or on a meter that the later one adds. -/
def clash (earlier later : Expect) : Bool :=
  earlier.flow.any (fun one => later.flow.any (fun other => named (target other) one)) ||
    match later with
    | .meter meter => earlier.meterId = some meter.meterId
    | _ => false

theorem subject_of_touched {expect : Expect} {touch : Touch Subject (Option Standing)}
    (isTouch : touched expect = some touch) :
    (∃ flow, expect.flow = some flow ∧ touch.key = subjectOf flow) ∨
      ∃ meterId, expect.meterId = some meterId ∧ touch.key = .meter meterId := by
  cases expect with
  | nothing => cases isTouch
  | present flow | absent flow =>
    cases isTouch
    exact .inl ⟨flow, rfl, rfl⟩
  | meter meter | noMeter meterId =>
    cases isTouch
    exact .inr ⟨_, rfl, rfl⟩

theorem subject_of_inverse (fits : Fits switch step) {touch : Touch Subject (Option Standing)}
    (isTouch : touched (inverse step) = some touch) :
    (∃ flow, step.expect.flow = some flow ∧ touch.key = subjectOf flow) ∨
      ∃ meter, step.expect = .meter meter ∧ touch.key = .meter meter.meterId := by
  cases fits with
  | addFlow free | removeFlow member names hard undoes =>
    cases isTouch
    exact .inl ⟨_, rfl, rfl⟩
  | editFlow member place cookie hard differs names oldHard =>
    cases isTouch
    refine .inl ⟨_, rfl, ?_⟩
    show subjectOf _ = subjectOf _
    rw [subjectOf, subjectOf, names.place, names.cookie, place, cookie]
  | addMeter free =>
    cases isTouch
    exact .inr ⟨_, rfl, rfl⟩
  | removeMeter member isId undoes => cases isTouch

theorem clash_of_inverse {earlier : Expect} (fits : Fits switch step)
    {touch own : Touch Subject (Option Standing)} (isTouch : touched earlier = some touch)
    (isOwn : touched (inverse step) = some own) (same : own.key = touch.key) :
    clash earlier step.expect := by
  unfold clash
  rw [Bool.or_eq_true]
  rcases subject_of_touched isTouch with ⟨one, isOne, oneKey⟩ | ⟨meterId, isMeter, meterKey⟩
  · rcases subject_of_inverse fits isOwn with ⟨other, isOther, otherKey⟩ | ⟨meter, _, isKey⟩
    · rw [otherKey, oneKey, subjectOf, subjectOf, Subject.flow.injEq] at same
      refine .inl ?_
      rw [isOne, isOther]
      exact named_target.mpr ⟨same.1.symm, same.2.symm⟩
    · rw [isKey, oneKey] at same
      cases same
  · rcases subject_of_inverse fits isOwn with ⟨other, _, otherKey⟩ | ⟨meter, isExpect, isKey⟩
    · rw [otherKey, meterKey] at same
      cases same
    · rw [isKey, meterKey, Subject.meter.injEq] at same
      refine .inr ?_
      rw [isExpect]
      exact decide_eq_true (isMeter.trans (congrArg some same.symm))

theorem clash_of_flow {earlier later : Expect} {touch own : Touch Subject (Option Standing)}
    {place : Place} {cookie : Nat} (isTouch : touched earlier = some touch)
    (isOwn : touched later = some own) (same : own.key = touch.key)
    (isFlow : touch.key = .flow place cookie) : clash earlier later := by
  unfold clash
  rw [Bool.or_eq_true]
  rcases subject_of_touched isTouch with ⟨one, isOne, oneKey⟩ | ⟨meterId, _, meterKey⟩
  · rcases subject_of_touched isOwn with ⟨other, isOther, otherKey⟩ | ⟨meterId, _, meterKey⟩
    · rw [otherKey, oneKey, subjectOf, subjectOf, Subject.flow.injEq] at same
      refine .inl ?_
      rw [isOne, isOther]
      exact named_target.mpr ⟨same.1.symm, same.2.symm⟩
    · rw [meterKey, isFlow] at same
      cases same
  · rw [meterKey] at isFlow
    cases isFlow

/-- **An undo gives its step's subject the standing its inverse expects**, and
no other subject. A flow edited in place must stand as its step left it: the
undo of an edit keeps the timeouts it finds. -/
theorem Fits.undo_standing {undo : Request} (fits : Fits switch step)
    (isUndo : step.undo = some undo) (restored : Restored (switch.execute step.request) after) :
    ∃ touch value, touched step.expect = some touch ∧
      standing (after.execute undo) = update (standing after) touch.key value ∧
      ∀ own, touched (inverse step) = some own → own.key = touch.key ∧
        ((∀ place cookie, touch.key = .flow place cookie →
            standing after touch.key = standing (switch.execute step.request) touch.key) →
          own.value = value) := by
  cases fits with
  | @addFlow flow reinstall free =>
    cases isUndo
    refine ⟨_, none, rfl, standing_deleteFlowStrict, fun own isOwn => ?_⟩
    cases isOwn
    exact ⟨rfl, fun _ => rfl⟩
  | @removeFlow found spec _ member names hard undoes =>
    rw [undoes undo isUndo]
    have free : ∀ held ∈ after.flows, placeOf held ≠ placeOf spec := by
      intro held heldMember samePlace
      obtain ⟨old, oldMember, asItWas⟩ := restored.noOther held heldMember
      obtain ⟨inSwitch, other⟩ := mem_deleteFlowStrict.mp oldMember
      have oldPlace : placeOf old = placeOf spec := asItWas.place.symm.trans samePlace
      have isFound := switch.flow_unique inSwitch member (oldPlace.trans names.place)
      exact other ⟨oldPlace, by rw [isFound, names.cookie]⟩
    refine ⟨_, _, rfl, standing_addFlow free, fun own isOwn => ?_⟩
    cases isOwn
    exact ⟨rfl, fun _ => rfl⟩
  | @editFlow found sent old member place cookie hard differs names oldHard =>
    cases isUndo
    have isAmended : amended sent.actions found ∈ (switch.execute (.modifyFlowStrict sent)).flows :=
      mem_modifyFlowStrict.mpr (.inr ⟨found, member, place.symm, rfl⟩)
    obtain ⟨new, newMember, asItWas⟩ := restored.kept _ isAmended
    have newPlace : placeOf new = placeOf found := asItWas.place
    have newCookie : new.cookie = found.cookie := asItWas.cookie
    have isSubject : ∀ flow : Flow, placeOf flow = placeOf found → flow.cookie = found.cookie →
        subjectOf flow = subjectOf found := by
      intro flow samePlace sameCookie
      rw [subjectOf, subjectOf, samePlace, sameCookie]
    have left := standing_modifyFlowStrict newMember (names.place.trans newPlace.symm)
      (names.cookie.trans newCookie.symm)
    refine ⟨_, some (flowStanding (amended old.actions new)), rfl, ?_, fun own isOwn => ?_⟩
    · rw [isSubject old names.place names.cookie, ← isSubject sent place cookie] at left
      exact left
    · cases isOwn
      refine ⟨(isSubject old names.place names.cookie).trans (isSubject sent place cookie).symm,
        fun untouched => ?_⟩
      have stands := untouched _ _ rfl
      change standing after (subjectOf sent) =
        standing (switch.execute (.modifyFlowStrict sent)) (subjectOf sent) at stands
      rw [isSubject sent place cookie, ← isSubject new newPlace newCookie,
        standing_of_flow newMember, isSubject new newPlace newCookie,
        ← isSubject (amended sent.actions found) rfl rfl, standing_of_flow isAmended,
        Option.some.injEq, flowStanding_eq] at stands
      apply congrArg some
      show Standing.flow _ _ _ = Standing.flow _ _ _
      have newHard : new.hardTimeout = old.hardTimeout := stands.2.trans oldHard.symm
      rw [show (amended old.actions new).hardTimeout = old.hardTimeout from newHard]
      rfl
  | @addMeter meter reinstall free =>
    cases isUndo
    refine ⟨_, none, rfl, standing_deleteMeter, fun own isOwn => ?_⟩
    cases isOwn
    exact ⟨rfl, fun _ => rfl⟩
  | @removeMeter held meterId _ member isId undoes =>
    obtain ⟨back, isRequest, isBack⟩ := undoes undo isUndo
    have backId : back.meterId = meterId := by
      rw [← back.sent_meterId, isBack, held.sent_meterId, isId]
    rw [isRequest]
    refine ⟨_, _, rfl, backId ▸ standing_addMeter, fun own isOwn => ?_⟩
    cases isOwn

theorem takenBack_cons {undo : Request} (isUndo : step.undo = some undo) (rest : List Step) :
    (takenBack (switch.reached (step :: rest)) (step :: rest)).switch =
      (takenBack ((switch.execute step.request).reached rest) rest).switch.execute undo :=
  congrArg Undone.switch
    (undoSteps_reverse ⟨(switch.execute step.request).reached rest, true, []⟩ isUndo rest)

theorem Follows.untouched {steps : List Step} (follows : Follows switch steps)
    (undone : ∀ step ∈ steps, step.undo.isSome) {subject : Subject}
    (untouched : subject ∉ (touches steps).map Touch.key) :
    standing (takenBack (switch.reached steps) steps).switch subject = standing switch subject := by
  induction follows with
  | nil => rfl
  | @cons switch step rest fits follows ih =>
    obtain ⟨undo, isUndo⟩ := Option.isSome_iff_exists.mp (undone step (.head _))
    have restUndone := fun later member => undone later (mem_cons_of_mem step member)
    obtain ⟨touch, value, isTouch, left, -⟩ :=
      fits.undo_standing isUndo (follows.restored restUndone).1
    obtain ⟨touch', isTouch', -, sent⟩ := fits.touches
    obtain rfl := Option.some.inj (isTouch.symm.trans isTouch')
    rw [touches_cons isTouch, map_cons, mem_cons, not_or] at untouched
    rw [takenBack_cons isUndo, left, update_of_ne untouched.1,
      ih restUndone untouched.2, sent, update_of_ne untouched.1]

theorem Follows.fits_of_mem {steps : List Step} (follows : Follows switch steps) :
    ∀ step ∈ steps, ∃ before, Fits before step := by
  induction follows with
  | nil =>
    intro step member
    cases member
  | @cons switch first rest fits follows ih =>
    intro step member
    rcases mem_cons.mp member with isFirst | later
    · exact ⟨switch, isFirst ▸ fits⟩
    · exact ih step later

/-- **Every inverse holds on the switch taken back**, where no two steps
clash. -/
theorem Follows.inverses {steps : List Step} (follows : Follows switch steps)
    (undone : ∀ step ∈ steps, step.undo.isSome)
    (apart : (steps.map Step.expect).Pairwise (fun earlier later => clash earlier later = false)) :
    ∀ own ∈ (steps.map inverse).filterMap touched,
      standing (takenBack (switch.reached steps) steps).switch own.key = own.value := by
  induction follows with
  | nil =>
    intro own member
    cases member
  | @cons switch step rest fits follows ih =>
    obtain ⟨undo, isUndo⟩ := Option.isSome_iff_exists.mp (undone step (.head _))
    have restUndone := fun later member => undone later (mem_cons_of_mem step member)
    obtain ⟨touch, value, isTouch, left, isOwn⟩ :=
      fits.undo_standing isUndo (follows.restored restUndone).1
    rw [map_cons, pairwise_cons] at apart
    intro own member
    obtain ⟨expect, expectMember, isInverse⟩ := mem_filterMap.mp member
    rw [takenBack_cons isUndo, left]
    rcases mem_cons.mp expectMember with isStep | later
    · rw [isStep] at isInverse
      obtain ⟨sameKey, isValue⟩ := isOwn own isInverse
      rw [sameKey, update_self]
      refine (isValue (fun place cookie isFlow => ?_)).symm
      apply follows.untouched restUndone
      intro again
      obtain ⟨other, otherMember, isOther⟩ := mem_map.mp again
      obtain ⟨laterExpect, laterMember, isLater⟩ := mem_filterMap.mp otherMember
      have clashes := clash_of_flow isTouch isLater isOther isFlow
      rw [apart.1 laterExpect laterMember] at clashes
      cases clashes
    · obtain ⟨laterStep, laterMember, isLater⟩ := mem_map.mp later
      obtain ⟨before, laterFits⟩ := follows.fits_of_mem laterStep laterMember
      rw [← isLater] at isInverse
      have otherKey : own.key ≠ touch.key := by
        intro same
        have clashes := clash_of_inverse laterFits isTouch isInverse same
        rw [apart.1 _ (mem_map_of_mem laterMember)] at clashes
        cases clashes
      rw [update_of_ne otherKey]
      exact ih restUndone apart.2 own
        (mem_filterMap.mpr ⟨_, mem_map_of_mem laterMember, isInverse⟩)

theorem inverse_checked (fits : Fits switch step) (other : step.role ≠ .removeMeter) :
    ∃ own, touched (inverse step) = some own := by
  cases fits with
  | addFlow free => exact ⟨_, rfl⟩
  | removeFlow member names hard undoes => exact ⟨_, rfl⟩
  | editFlow member place cookie hard differs names oldHard => exact ⟨_, rfl⟩
  | addMeter free => exact ⟨_, rfl⟩
  | removeMeter member isId undoes => exact absurd rfl other

theorem Follows.landed {steps : List Step} (follows : Follows switch steps) (answers : Nat → Bool) :
    Follows switch (send answers switch steps).2 := by
  induction follows generalizing answers with
  | nil => exact .nil
  | @cons switch step rest fits follows ih =>
    unfold send
    split
    · exact .cons fits (ih _)
    · exact .nil

variable [Driver]

/-- **A rollback leaves the switch as the operation found it** when each step
that landed has an undo, and says so when it is not: a step without one is
reported. It reports that all came back where no two of the steps clash and
something is read back. -/
theorem rollback_restores {site : Site} {ask : Ask} {planned : Planned} (answers : Nat → Bool)
    (isRead : ReadFrom site switch) (accepted : plan site ask = .ok planned) :
    let sent := send answers switch planned.steps
    ((∀ step ∈ sent.2, step.undo.isSome = true) →
      Restored switch (rollback always sent.1 sent.2).1 ∧
        ((sent.2.map Step.expect).Pairwise (fun earlier later => clash earlier later = false) →
          (sent.2 = [] ∨ ∃ step ∈ sent.2, step.role ≠ .removeMeter) →
            (rollback always sent.1 sent.2).2 = true)) ∧
      ((∃ step ∈ sent.2, step.undo = none) → (rollback always sent.1 sent.2).2 = false) := by
  obtain ⟨context, start, opens, mirrors, plans, acts⟩ := plan_plans isRead accepted
  have follows := ((plans.fits mirrors needsMeters_of_actedIn).1).landed answers
  intro sent
  have isReached : sent.1 = switch.reached sent.2 := send_switch answers switch planned.steps
  rw [isReached]
  refine ⟨fun undone => ?_, fun missing => ?_⟩
  · obtain ⟨restored, ok, inverses⟩ := follows.restored undone
    refine ⟨restored, fun apart something => ?_⟩
    have holds := follows.inverses undone apart
    have isRollback : (rollback always (switch.reached sent.2) sent.2).2 =
        ((takenBack (switch.reached sent.2) sent.2).ok &&
          ((takenBack (switch.reached sent.2) sent.2).inverses.isEmpty ||
            verifyInstalled (takenBack (switch.reached sent.2) sent.2).inverses
              (takenBack (switch.reached sent.2) sent.2).switch.readings)) := rfl
    rw [isRollback, ok, inverses, Bool.true_and, Bool.or_eq_true]
    rcases something with none | ⟨step, member, other⟩
    · refine Or.inl ?_
      rw [none]
      rfl
    · refine Or.inr (verifyInstalled_iff.mpr ⟨?_, ?_⟩)
      · obtain ⟨before, fits⟩ := follows.fits_of_mem step member
        obtain ⟨own, isOwn⟩ := inverse_checked fits other
        apply List.ne_nil_of_mem
        exact List.mem_filterMap.mpr
          ⟨inverse step, List.mem_reverse.mpr (List.mem_map_of_mem member), isOwn⟩
      · intro own ownMember
        rw [List.filterMap_reverse, List.mem_reverse] at ownMember
        exact holds own ownMember
  · have notOk : (undoSteps always ⟨switch.reached sent.2, true, []⟩ sent.2.reverse).ok = false :=
      undoSteps_not_ok (Or.inr (by simpa using missing))
    dsimp only [rollback]
    rw [notOk, Bool.false_and]

end Undone

open OneFlow in
/-- An edit taken back. -/
theorem edit_taken_back :
    letI := basicLatin
    letI := plainReaders
    letI := driver
    ∃ planned, plan site (edits [3]) = .ok planned ∧
      let sent := send always switch planned.steps
      Restored switch (rollback always sent.1 sent.2).1 ∧
        (rollback always sent.1 sent.2).2 = true := by
  letI := basicLatin
  letI := plainReaders
  letI := driver
  obtain ⟨planned, isPlanned, isRun⟩ := ok_of_map (show (plan site (edits [3])).map (fun planned =>
      ((send always switch planned.steps).2.map (fun step => (step.undo.isSome, step.role)),
        (send always switch planned.steps).2.length)) = .ok ([(true, .editFlow)], 1) by decide +kernel)
  refine ⟨planned, isPlanned, ?_⟩
  obtain ⟨landed, oneStep⟩ := Prod.mk.inj isRun
  obtain ⟨step, isLanded⟩ := List.length_eq_one_iff.mp oneStep
  rw [isLanded, List.map_singleton, List.cons.injEq, Prod.mk.injEq] at landed
  have back := (rollback_restores always isRead isPlanned).1
  dsimp only at back ⊢
  rw [isLanded] at back ⊢
  have restored := back (by simpa using landed.1.1)
  refine ⟨restored.1, restored.2 (List.pairwise_singleton _ _) (Or.inr ⟨step, by simp, ?_⟩)⟩
  rw [landed.1.2]
  decide

namespace Bare

/-- A meter read without its configuration. -/
def meter : Meter := ⟨5, [], []⟩

def site : Site := { OneFlow.site with flows := some [], meters := some [meter] }

def switch : @Switch basicLatin plainReaders :=
  letI := basicLatin
  letI := plainReaders
  ⟨[], [meter], .nil, List.nodup_singleton _⟩

end Bare

open OneFlow in
/-- A removed meter with no configuration to add again stays removed, and the
inverses of two edits of one flow contradict each other. -/
theorem rollback_leaves_behind :
    letI := basicLatin
    letI := plainReaders
    letI := driver
    (∃ planned, plan Bare.site ⟨[.removeMeter 5], false⟩ = .ok planned ∧
      let sent := send always Bare.switch planned.steps
      sent.2.length = 1 ∧ (rollback always sent.1 sent.2).1.meters = [] ∧
        (rollback always sent.1 sent.2).2 = false) ∧
    ∃ planned, plan site (edits [3, 4]) = .ok planned ∧
      let sent := send always switch planned.steps
      sent.2.length = 2 ∧ (rollback always sent.1 sent.2).2 = false := by
  letI := basicLatin
  letI := plainReaders
  letI := driver
  constructor
  · obtain ⟨planned, isPlanned, isRun⟩ := ok_of_map (show (plan Bare.site
        ⟨[.removeMeter 5], false⟩).map (fun planned =>
          let sent := send always Bare.switch planned.steps
          (sent.2.length, (rollback always sent.1 sent.2).1.meters,
            (rollback always sent.1 sent.2).2)) = .ok (1, [], false) by decide +kernel)
    obtain ⟨oneStep, isRun⟩ := Prod.mk.inj isRun
    obtain ⟨noMeter, notOk⟩ := Prod.mk.inj isRun
    exact ⟨planned, isPlanned, oneStep, noMeter, notOk⟩
  · obtain ⟨planned, isPlanned, isRun⟩ := ok_of_map (show (plan site (edits [3, 4])).map
        (fun planned =>
          let sent := send always switch planned.steps
          (sent.2.length, (rollback always sent.1 sent.2).2)) = .ok (2, false) by decide +kernel)
    obtain ⟨twoSteps, notOk⟩ := Prod.mk.inj isRun
    exact ⟨planned, isPlanned, twoSteps, notOk⟩

end Nmas.Sdn.FlowOps
