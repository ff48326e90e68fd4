import Nmas.Sdn.FlowOps.Planning

/-!
Contract: when the steps of a flow operation, all carried out, verify.

Every expectation is written when its step is planned and read on the last
table. Two steps on one flow or one meter expect different things of it, so an
operation verifies exactly when each of its changes acts on what the plan read,
as it was read.
-/

namespace Nmas.Sdn.FlowOps

open Nmas.Text List
open Nmas.Log (Touch EachFinds)

section Settled

variable [Unicode] [Readers]

/-! ### The condition -/

/-- What a planner acts on is as it was read: a flow or a meter it takes is one
of those read, and none of those read is at the place and cookie, or under the
id, of one it adds. -/
def Acted.asRead (read : Planned) : Acted → Bool
  | .adds flow => (find read.table (target flow)).isNone
  | .takes found => found ∈ read.table
  | .addsMeter meter => !read.meters.any (fun held => held.meterId = meter.meterId)
  | .takesMeter held => held ∈ read.meters

variable [Driver]

/-- What the planners of an ask's changes act on, each as the ones before it
leave the plan. -/
def actedIn (context : Context) : Planned → List Change → List Acted
  | _, [] => []
  | planned, change :: rest =>
    actedBy context planned change ++
      match planChange context planned change with
      | .ok next => actedIn context next rest
      | .error _ => []

/-- Every change of an ask acts on the switch as its plan read it. -/
def changesActAsRead (site : Site) (ask : Ask) : Bool :=
  match opening site ask with
  | some (context, start) => (actedIn context start ask.changes).all (Acted.asRead start)
  | none => true

/-! ### What the planners act on -/

variable {context : Context} {planned next read : Planned} {switch first : Switch}
  {metersRead : Bool} {acted : Acted} {step : Step}

omit [Driver] in
theorem Plans.subject (plans : Plans planned acted step next) :
    ∃ touch, touched step.expect = some touch ∧ touch.key = acted.subject := by
  cases plans with
  | addFlow free table meters | addMeter free table meters => exact ⟨_, rfl, rfl⟩
  | removeFlow member names hard undoes table meters =>
    exact ⟨_, rfl, by rw [Acted.subject, subjectOf, subjectOf, names.place, names.cookie]⟩
  | editFlow member place cookie hard differs names oldHard table meters =>
    exact ⟨_, rfl, by rw [Acted.subject, subjectOf, subjectOf, place, cookie]⟩
  | removeMeter member isId undoes table meters =>
    exact ⟨_, rfl, by rw [Acted.subject, isId]⟩

omit [Driver] in
theorem PlansAll.subjects {others : List Acted} {steps : List Step}
    (all : PlansAll planned others steps next) :
    (touches steps).map Touch.key = others.map Acted.subject := by
  induction all with
  | nil => rfl
  | cons plans appends _ ih =>
    obtain ⟨touch, isTouch, isSubject⟩ := plans.subject
    rw [touches_cons isTouch, map_cons, map_cons, ih, isSubject]

omit [Driver] in
theorem Mirrors.standing_meter (mirrors : Mirrors metersRead planned switch)
    (isRead : metersRead) {held : Meter} (member : held ∈ planned.meters) :
    standing switch (.meter held.meterId) = some (meterStanding held) := by
  obtain ⟨own, ownMember, same⟩ := mirrors.mem_meters isRead member
  rw [← held.sent_meterId, ← same, own.sent_meterId, standing_of_meter ownMember,
    ← meterStanding_sent own, same, meterStanding_sent]

omit [Driver] in
theorem Mirrors.standing_no_meter (mirrors : Mirrors metersRead planned switch)
    (isRead : metersRead) {meterId : Nat} (free : ∀ held ∈ planned.meters, held.meterId ≠ meterId) :
    standing switch (.meter meterId) = none := by
  apply standing_meter_none
  intro own member
  obtain ⟨held, heldMember, same⟩ := mirrors.mem_planned isRead member
  rw [← own.sent_meterId, ← same]
  exact free held heldMember

omit [Driver] in
theorem Plans.stands (plans : Plans planned acted step next)
    (mirrors : Mirrors metersRead planned switch) (mirrorsFirst : Mirrors metersRead read first)
    (needs : acted.needsMeters → metersRead) (asRead : acted.asRead read) :
    standing switch acted.subject = standing first acted.subject := by
  cases plans with
  | @addFlow flow reinstall _ free table meters =>
    rw [mirrors.table] at free
    unfold Acted.asRead at asRead
    rw [mirrorsFirst.table, find_target_isNone] at asRead
    rw [Acted.subject, asRead]
    exact standing_flow_none (fun held member isHeld => free held member isHeld.1)
  | @removeFlow found spec undo _ member names hard undoes table meters
  | @editFlow found sent old _ member place cookie hard differs names oldHard table meters =>
    have inFirst : found ∈ first.flows := mirrorsFirst.table ▸ of_decide_eq_true asRead
    rw [Acted.subject, standing_of_flow inFirst, standing_of_flow (mirrors.table ▸ member)]
  | @addMeter meter reinstall _ free table meters =>
    have freeFirst : ∀ held ∈ read.meters, held.meterId ≠ meter.meterId := by
      simpa [Acted.asRead] using asRead
    rw [Acted.subject, mirrors.standing_no_meter (needs rfl) free,
      mirrorsFirst.standing_no_meter (needs rfl) freeFirst]
  | @removeMeter held meterId undo _ member isId undoes table meters =>
    rw [Acted.subject, mirrors.standing_meter (needs rfl) member,
      mirrorsFirst.standing_meter (needs rfl) (of_decide_eq_true asRead)]

omit [Driver] in
theorem PlansAll.finds {others : List Acted} {steps : List Step}
    (all : PlansAll planned others steps next) (mirrors : Mirrors metersRead planned switch)
    (mirrorsFirst : Mirrors metersRead read first)
    (needs : others.any Acted.needsMeters → metersRead) (asRead : others.all (Acted.asRead read)) :
    EachFinds (fun touch found => found = standing first touch.key) (standing switch)
      (touches steps) := by
  induction all generalizing switch with
  | nil => trivial
  | @cons planned between next acted step others rest plans appends all ih =>
    rw [any_cons, Bool.or_eq_true] at needs
    rw [all_cons, Bool.and_eq_true] at asRead
    obtain ⟨fits, mirrorsBetween⟩ := plans.fits mirrors (fun own => needs (.inl own))
    obtain ⟨touch, isTouch, _, left⟩ := fits.touches
    obtain ⟨touch', isTouch', isSubject⟩ := plans.subject
    obtain rfl := Option.some.inj (isTouch.symm.trans isTouch')
    rw [touches_cons isTouch]
    refine ⟨?_, ?_⟩
    · show standing switch touch.key = standing first touch.key
      rw [isSubject]
      exact plans.stands mirrors mirrorsFirst (fun own => needs (.inl own)) asRead.1
    · rw [← left]
      exact ih mirrorsBetween (fun other => needs (.inr other)) asRead.2

/-! ### What the plan has not acted on -/

/-- A plan that still holds, as they were read, the flows and meters it has not
acted on, and no other. -/
structure Keeps (read : Planned) (acted : List Subject) (planned : Planned) : Prop where
  flowIn : ∀ flow ∈ planned.table, flow ∈ read.table ∨ subjectOf flow ∈ acted
  flowLeft : ∀ flow ∈ read.table, flow ∈ planned.table ∨ subjectOf flow ∈ acted
  meterIn : ∀ meter ∈ planned.meters, meter ∈ read.meters ∨ .meter meter.meterId ∈ acted
  meterLeft : ∀ meter ∈ read.meters, meter ∈ planned.meters ∨ .meter meter.meterId ∈ acted

omit [Unicode] [Readers] [Driver] in
theorem mem_updateFound {found flow : Flow} {actions : List Action} {flows : List Flow}
    (member : flow ∈ updateFound found actions flows) :
    flow ∈ flows ∨ flow = amended actions found := by
  induction flows with
  | nil => exact .inl member
  | cons held rest ih =>
    unfold updateFound at member
    split at member
    · rename_i isFound
      rcases mem_cons.mp member with isAmended | later
      · exact .inr (isFound ▸ isAmended)
      · exact .inl (mem_cons_of_mem held later)
    · rcases mem_cons.mp member with isHeld | later
      · exact .inl (isHeld ▸ mem_cons_self)
      · exact (ih later).imp_left (mem_cons_of_mem held)

omit [Unicode] [Readers] [Driver] in
theorem mem_updateFound_of_ne {found flow : Flow} {actions : List Action} {flows : List Flow}
    (member : flow ∈ flows) (other : flow ≠ found) : flow ∈ updateFound found actions flows := by
  induction flows with
  | nil => cases member
  | cons held rest ih =>
    unfold updateFound
    rcases mem_cons.mp member with isHeld | later
    · rw [if_neg (isHeld ▸ other), isHeld]
      exact mem_cons_self
    · split
      · exact mem_cons_of_mem _ later
      · exact mem_cons_of_mem _ (ih later)

variable {others : List Subject}

omit [Driver] in
theorem Keeps.widen (keeps : Keeps read others planned) (subject : Subject) :
    Keeps read (subject :: others) planned where
  flowIn flow member := (keeps.flowIn flow member).imp_right (mem_cons_of_mem subject)
  flowLeft flow member := (keeps.flowLeft flow member).imp_right (mem_cons_of_mem subject)
  meterIn meter member := (keeps.meterIn meter member).imp_right (mem_cons_of_mem subject)
  meterLeft meter member := (keeps.meterLeft meter member).imp_right (mem_cons_of_mem subject)

omit [Driver] in
theorem Plans.keeps (plans : Plans planned acted step next) (keeps : Keeps read others planned) :
    Keeps read (acted.subject :: others) next := by
  have wider := keeps.widen acted.subject
  cases plans with
  | @addFlow flow reinstall _ free table meters =>
    refine ⟨?_, ?_, meters ▸ wider.meterIn, meters ▸ wider.meterLeft⟩ <;> rw [table]
    · intro held member
      rcases mem_append.mp member with before | isFlow
      · exact wider.flowIn held before
      · rw [mem_singleton.mp isFlow]
        exact .inr mem_cons_self
    · intro held member
      exact (wider.flowLeft held member).imp_left (mem_append_left [flow])
  | @removeFlow found spec undo _ member names hard undoes table meters =>
    refine ⟨?_, ?_, meters ▸ wider.meterIn, meters ▸ wider.meterLeft⟩ <;> rw [table]
    · intro held heldMember
      exact wider.flowIn held (mem_of_mem_erase heldMember)
    · intro held heldMember
      by_cases isFound : held = found
      · rw [isFound]
        exact .inr mem_cons_self
      · exact (wider.flowLeft held heldMember).imp_left (mem_erase_of_ne isFound).mpr
  | @editFlow found sent old _ member place cookie hard differs names oldHard table meters =>
    refine ⟨?_, ?_, meters ▸ wider.meterIn, meters ▸ wider.meterLeft⟩ <;> rw [table]
    · intro held heldMember
      rcases mem_updateFound heldMember with before | isAmended
      · exact wider.flowIn held before
      · rw [isAmended]
        exact .inr mem_cons_self
    · intro held heldMember
      by_cases isFound : held = found
      · rw [isFound]
        exact .inr mem_cons_self
      · exact (wider.flowLeft held heldMember).imp_left
          (fun before => mem_updateFound_of_ne before isFound)
  | @addMeter meter reinstall _ free table meters =>
    refine ⟨table ▸ wider.flowIn, table ▸ wider.flowLeft, ?_, ?_⟩ <;> rw [meters]
    · intro held member
      rcases mem_append.mp member with before | isMeter
      · exact wider.meterIn held before
      · rw [mem_singleton.mp isMeter]
        exact .inr mem_cons_self
    · intro held member
      exact (wider.meterLeft held member).imp_left (mem_append_left [meter])
  | @removeMeter taken meterId undo _ member isId undoes table meters =>
    refine ⟨table ▸ wider.flowIn, table ▸ wider.flowLeft, ?_, ?_⟩ <;> rw [meters]
    · intro held heldMember
      exact wider.meterIn held (mem_filter.mp heldMember).1
    · intro held heldMember
      by_cases isTaken : held.meterId = meterId
      · rw [isTaken, ← isId]
        exact .inr mem_cons_self
      · exact (wider.meterLeft held heldMember).imp_left
          (fun before => mem_filter.mpr ⟨before, decide_eq_true isTaken⟩)

omit [Driver] in
theorem Plans.asRead (plans : Plans planned acted step next) (keeps : Keeps read others planned)
    (fresh : acted.subject ∉ others) : acted.asRead read := by
  cases plans with
  | @addFlow flow reinstall _ free table meters =>
    show (find read.table (target flow)).isNone = true
    rw [Option.isNone_iff_eq_none]
    apply List.find?_eq_none.mpr
    intro held member isNamed
    obtain ⟨samePlace, sameCookie⟩ := named_target.mp isNamed
    rcases keeps.flowLeft held member with there | actedOn
    · exact free held there samePlace
    · rw [subjectOf, samePlace, sameCookie] at actedOn
      exact fresh actedOn
  | @removeFlow found spec undo _ member names hard undoes table meters
  | @editFlow found sent old _ member place cookie hard differs names oldHard table meters =>
    exact decide_eq_true ((keeps.flowIn found member).resolve_right fresh)
  | @addMeter meter reinstall _ free table meters =>
    have freeRead : ∀ held ∈ read.meters, held.meterId ≠ meter.meterId := by
      intro held member same
      rcases keeps.meterLeft held member with there | actedOn
      · exact free held there same
      · rw [same] at actedOn
        exact fresh actedOn
    simpa [Acted.asRead] using freeRead
  | @removeMeter held meterId undo _ member isId undoes table meters =>
    exact decide_eq_true ((keeps.meterIn held member).resolve_right fresh)

omit [Driver] in
theorem PlansAll.asRead {all : List Acted} {steps : List Step}
    (plansAll : PlansAll planned all steps next) (keeps : Keeps read others planned)
    (distinct : (all.map Acted.subject).Nodup) (fresh : ∀ one ∈ all, one.subject ∉ others) :
    all.all (Acted.asRead read) := by
  induction plansAll generalizing others with
  | nil => rfl
  | @cons planned between next acted step rest restSteps plans appends _ ih =>
    rw [map_cons, nodup_cons] at distinct
    rw [all_cons, Bool.and_eq_true]
    refine ⟨plans.asRead keeps (fresh acted mem_cons_self), ?_⟩
    apply ih (plans.keeps keeps) distinct.2
    intro one member actedOn
    rcases mem_cons.mp actedOn with again | before
    · exact distinct.1 (again ▸ mem_map_of_mem member)
    · exact fresh one (mem_cons_of_mem acted member) before

/-! ### The plan of an ask -/

theorem planChanges_ok {changes : List Change}
    (ok : planChanges context planned changes = .ok next) :
    ∃ steps, PlansAll planned (actedIn context planned changes) steps next := by
  induction changes generalizing planned with
  | nil =>
    cases ok
    exact ⟨[], .nil⟩
  | cons change rest ih =>
    unfold planChanges at ok
    unfold actedIn
    cases isPlanned : planChange context planned change with
    | error refusal =>
      rw [isPlanned] at ok
      cases ok
    | ok between =>
      rw [isPlanned] at ok
      obtain ⟨steps, plans⟩ := planChange_ok isPlanned
      obtain ⟨restSteps, restPlans⟩ := ih ok
      exact ⟨steps ++ restSteps, plans.append restPlans⟩

omit [Driver] in
theorem needsMeters_of_actedBy {change : Change}
    (acts : (actedBy context planned change).any Acted.needsMeters) :
    change.needsMeters := by
  have notTaken : ∀ found : Option Flow,
      (found.toList.map Acted.takes).any Acted.needsMeters = false := by
    intro found
    cases found <;> rfl
  cases change with
  | addFlow flow reinstall => exact absurd acts Bool.false_ne_true
  | removeFlow wanted => exact absurd (acts.symm.trans (notTaken _)) (Bool.false_ne_true ·.symm)
  | editFlow wanted flow =>
    refine absurd acts ?_
    dsimp only [actedBy]
    split
    · exact Bool.false_ne_true
    · split
      · rw [any_append, notTaken]
        exact Bool.false_ne_true
      · exact Bool.false_ne_true
  | addMeter meter reinstall | removeMeter meterId => rfl

theorem needsMeters_of_actedIn {changes : List Change}
    (acts : (actedIn context planned changes).any Acted.needsMeters) :
    changes.any Change.needsMeters := by
  induction changes generalizing planned with
  | nil => exact acts
  | cons change rest ih =>
    unfold actedIn at acts
    rw [any_append, Bool.or_eq_true] at acts
    rw [any_cons, Bool.or_eq_true]
    refine acts.imp needsMeters_of_actedBy (fun later => ?_)
    split at later
    · exact ih later
    · exact absurd later Bool.false_ne_true

theorem actedBy_ne_nil {change : Change} (ok : planChange context planned change = .ok next) :
    actedBy context planned change ≠ [] := by
  cases change with
  | addFlow flow reinstall | addMeter meter reinstall => exact cons_ne_nil _ _
  | removeFlow wanted =>
    obtain ⟨found, step, isFound, plans, appends⟩ := planRemoveFlow_ok ok
    simp [actedBy, isFound]
  | editFlow wanted flow =>
    change planEditFlow context wanted flow planned = .ok next at ok
    unfold planEditFlow at ok
    split at ok
    · cases ok
    · rename_i found isFound
      simp only [actedBy, isFound]
      split <;> simp
  | removeMeter meterId =>
    obtain ⟨held, step, isFound, plans, appends⟩ := planRemoveMeter_ok ok
    simp [actedBy, isFound]

structure ReadFrom (site : Site) (switch : Switch) : Prop where
  flows : site.flows = some switch.flows
  meters : ∀ meters, site.meters = some meters → meters = switch.meters

omit [Driver] in
theorem opening_mirrors {site : Site} {ask : Ask} {start : Planned} (isRead : ReadFrom site switch)
    (opens : opening site ask = some (context, start)) :
    start.steps = [] ∧ Mirrors (ask.changes.any Change.needsMeters) start switch := by
  unfold opening at opens
  split at opens
  · rename_i flows meters features recorded response recordedMeters isSwitch _ _ _
    cases opens
    refine ⟨rfl, ?_⟩
    unfold readSwitch at isSwitch
    rw [isRead.flows, Option.bind_some] at isSwitch
    split at isSwitch
    · rename_i needs
      obtain ⟨held, isHeld, isSwitch⟩ := Option.bind_eq_some_iff.mp isSwitch
      obtain ⟨_, _, isSwitch⟩ := Option.map_eq_some_iff.mp isSwitch
      cases isSwitch
      exact ⟨rfl, fun _ => by rw [isRead.meters _ isHeld]⟩
    · rename_i needsNone
      cases isSwitch
      exact ⟨rfl, fun needs => absurd needs needsNone⟩
  · cases opens

/-- **A plan's steps are planned one after the other on the switch it read.** -/
theorem plan_plans {site : Site} {ask : Ask} (isRead : ReadFrom site switch)
    (accepted : plan site ask = .ok planned) :
    ∃ context start, opening site ask = some (context, start) ∧
      Mirrors (ask.changes.any Change.needsMeters) start switch ∧
      PlansAll start (actedIn context start ask.changes) planned.steps planned ∧
      actedIn context start ask.changes ≠ [] := by
  unfold plan at accepted
  split at accepted
  · cases accepted
  · rename_i someChange
    split at accepted
    · cases accepted
    · rename_i context start opens
      obtain ⟨noStep, mirrors⟩ := opening_mirrors isRead opens
      obtain ⟨steps, plans⟩ := planChanges_ok accepted
      have isSteps := plans.steps
      rw [noStep, nil_append] at isSteps
      refine ⟨context, start, opens, mirrors, isSteps ▸ plans, ?_⟩
      obtain ⟨change, rest, isChanges⟩ := exists_cons_of_ne_nil someChange
      rw [isChanges] at accepted ⊢
      unfold planChanges at accepted
      unfold actedIn
      cases isPlanned : planChange context start change with
      | error refusal =>
        rw [isPlanned] at accepted
        cases accepted
      | ok between => exact append_ne_nil_of_left_ne_nil (actedBy_ne_nil isPlanned) _

/-! ### The result -/

omit [Driver] in
theorem send_switch (answers : Nat → Bool) (switch : Switch) (steps : List Step) :
    (send answers switch steps).1 = switch.reached (send answers switch steps).2 := by
  induction steps generalizing answers switch with
  | nil => rfl
  | cons step rest ih =>
    unfold send
    split
    · exact ih _ _
    · rfl

/-- **An operation whose steps were all carried out verifies exactly when each
of its changes acts on the switch as it was read.** -/
theorem verifies_iff_changesActAsRead {site : Site} {ask : Ask} (answers : Nat → Bool)
    (isRead : ReadFrom site switch) (accepted : plan site ask = .ok planned)
    (landed : (send answers switch planned.steps).2 = planned.steps) :
    verifyInstalled (planned.steps.map Step.expect) (send answers switch planned.steps).1.readings =
      true ↔ changesActAsRead site ask = true := by
  obtain ⟨context, start, opens, mirrors, plans, acts⟩ := plan_plans isRead accepted
  have needs := fun meters : (actedIn context start ask.changes).any Acted.needsMeters = true =>
    needsMeters_of_actedIn meters
  obtain ⟨follows, -⟩ := plans.fits mirrors needs
  obtain ⟨left, changes⟩ := follows.leaves
  have subjects := plans.subjects
  have someTouch : touches planned.steps ≠ [] := by
    intro none
    rw [none, List.map_nil, eq_comm, List.map_eq_nil_iff] at subjects
    exact acts subjects
  have isCondition : changesActAsRead site ask =
      (actedIn context start ask.changes).all (Acted.asRead start) := by
    unfold changesActAsRead
    rw [opens]
  rw [send_switch, landed, verifyInstalled_iff, left, isCondition]
  change touches planned.steps ≠ [] ∧ (∀ touch ∈ touches planned.steps, _) ↔ _
  rw [and_iff_right someTouch, Log.all_left_iff changes]
  constructor
  · intro distinct
    rw [subjects] at distinct
    have keeps : Keeps start [] start :=
      ⟨fun _ => Or.inl, fun _ => Or.inl, fun _ => Or.inl, fun _ => Or.inl⟩
    exact plans.asRead keeps distinct (fun _ _ => List.not_mem_nil)
  · intro asRead
    exact Log.nodup_of_found changes (plans.finds mirrors mirrors needs asRead)

omit [Driver] in
theorem send_all (switch : Switch) (steps : List Step) :
    (send (fun _ => true) switch steps).2 = steps := by
  induction steps generalizing switch with
  | nil => rfl
  | cons step rest ih =>
    unfold send
    exact congrArg (step :: ·) (ih _)

end Settled

/-! ### One flow -/

namespace OneFlow

def output (port : Int) : List Action := [.apply (.output (.int port))]

def mercury : Nat := 0x4d45000000000001

def installed (port : Int) : Flow :=
  ⟨1, 0, 10, mercury, [(.inPort, .int 1)], output port, 0, 0, none, none, none⟩

def record : FlowIntent.Record :=
  ⟨mercury, "lab".ascii, true, 1, 0, 10, [(.inPort, .int 1)], output 2, none, 0, 0⟩

def site : Site := ⟨1, some [installed 2], some [], some none, some [record], some [], some 3600⟩

def edits (ports : List Int) : Ask :=
  ⟨ports.map (fun port => .editFlow (target (installed port)) (installed port)), false⟩

@[reducible] def driver : Driver := ⟨fun _ => true⟩

def switch : @Switch basicLatin plainReaders :=
  letI := basicLatin
  letI := plainReaders
  ⟨[installed 2], [], List.pairwise_singleton _ _, List.nodup_nil⟩

theorem isRead :
    letI := basicLatin
    letI := plainReaders
    ReadFrom site switch :=
  letI := basicLatin
  letI := plainReaders
  ⟨rfl, fun _ isMeters => (Option.some.inj isMeters).symm⟩

theorem ok_of_map {Result Answer : Type} {result : Except Refusal Result} {read : Result → Answer}
    {answer : Answer} (isAnswer : result.map read = .ok answer) :
    ∃ value, result = .ok value ∧ read value = answer := by
  cases result with
  | error refusal => cases isAnswer
  | ok value =>
    cases isAnswer
    exact ⟨value, rfl, rfl⟩

def verifies (planned : Planned) : Bool :=
  letI := basicLatin
  letI := plainReaders
  verifyInstalled (planned.steps.map Step.expect)
    (send (fun _ => true) switch planned.steps).1.readings

end OneFlow

open OneFlow in
/-- An edit of one flow verifies. -/
theorem edited_once_verifies :
    letI := basicLatin
    letI := plainReaders
    letI := driver
    ∃ planned, plan site (edits [3]) = .ok planned ∧
      verifyInstalled (planned.steps.map Step.expect)
        (send (fun _ => true) switch planned.steps).1.readings = true := by
  letI := basicLatin
  letI := plainReaders
  letI := driver
  obtain ⟨planned, isPlanned, -⟩ :=
    ok_of_map (show (plan site (edits [3])).map verifies = .ok true by decide)
  refine ⟨planned, isPlanned, ?_⟩
  exact (verifies_iff_changesActAsRead (fun _ => true) isRead isPlanned
    (send_all switch planned.steps)).mpr (by decide)

open OneFlow in
/-- A flow edited twice does not: the first edit's actions are gone when its
expectation is read. -/
theorem edited_twice_fails :
    letI := basicLatin
    letI := plainReaders
    letI := driver
    ∃ planned, plan site (edits [3, 4]) = .ok planned ∧
      (send (fun _ => true) switch planned.steps).2 = planned.steps ∧
      verifyInstalled (planned.steps.map Step.expect)
        (send (fun _ => true) switch planned.steps).1.readings = false := by
  letI := basicLatin
  letI := plainReaders
  letI := driver
  obtain ⟨planned, isPlanned, fails⟩ :=
    ok_of_map (show (plan site (edits [3, 4])).map verifies = .ok false by decide)
  exact ⟨planned, isPlanned, send_all switch planned.steps, fails⟩

end Nmas.Sdn.FlowOps
