import Nmas.Sdn.FlowOps.Steps

/-!
Contract: the steps of a plan fit the switch it was made on.

Owns: `Plans`, everything one planner can append to a plan, read off the
planners; the switch a plan mirrors while it is made; and `plan_follows`.
-/

namespace Nmas.Sdn.FlowOps

open Nmas.Text List
open Nmas.Sdn.FlowIntent (canonicalValue fieldKind normalMatch sameMatch sameActions)
open Nmas.Sdn.MatchRules (normalise normalised)

section Planning

variable [Unicode] [Readers]

/-! ### Normalising a match leaves its place -/

theorem canonicalValue_normalised (field : Field) (value : Value) :
    canonicalValue field (normalised field value) = canonicalValue field value := by
  cases value with
  | text written =>
    unfold normalised
    cases kind : fieldKind field with
    | int =>
      cases number : Readers.int 0 (strip written) with
      | none => simp only [number, Option.map_none, Option.getD_none]
      | some read => simp [canonicalValue, kind, number]
    | address | mac | asWritten => rfl
  | int number | bool value | json written => rfl

theorem normalMatch_normalise (fields : Match) : normalMatch (normalise fields) = normalMatch fields := by
  unfold normalMatch normalise
  rw [map_map]
  apply map_congr_left
  intro entry _
  show (entry.1, canonicalValue entry.1 (normalised entry.1 entry.2)) = _
  rw [canonicalValue_normalised]

theorem placeOf_spec (context : Context) (flow : Flow) : placeOf (spec context flow) = placeOf flow := by
  unfold placeOf Target.place target spec
  rw [normalMatch_normalise]

theorem removedSpec_names (context : Context) (found : Flow) :
    Names (removedSpec context found) found :=
  ⟨placeOf_spec context found, rfl, rfl, rfl⟩

theorem asRead_names (context : Context) (found : Flow) : Names (asRead context found) found :=
  ⟨placeOf_spec context found, rfl, rfl, rfl⟩

/-! ### The planners -/

inductive Acted where
  | adds (flow : Flow)
  | takes (found : Flow)
  | addsMeter (meter : Meter)
  | takesMeter (held : Meter)

def Acted.subject : Acted → Subject
  | .adds flow | .takes flow => subjectOf flow
  | .addsMeter meter | .takesMeter meter => .meter meter.meterId

def actedBy (context : Context) (planned : Planned) : Change → List Acted
  | .addFlow flow _ => [.adds (spec context flow)]
  | .removeFlow wanted => (find planned.table (normalisedTarget wanted)).toList.map .takes
  | .editFlow wanted flow =>
    match find planned.table (normalisedTarget wanted) with
    | none => []
    | some found =>
      if replaces (spec context flow) found then
        (find planned.table (normalisedTarget (identity found))).toList.map .takes ++
          [.adds (spec context (spec context flow))]
      else [.takes found]
  | .addMeter meter _ => [.addsMeter meter]
  | .removeMeter meterId =>
    (planned.meters.find? (fun meter => meter.meterId = meterId)).toList.map .takesMeter

inductive Plans (planned : Planned) : Acted → Step → Planned → Prop where
  | addFlow {flow : Flow} {reinstall : Bool} {next : Planned}
      (free : ∀ held ∈ planned.table, placeOf held ≠ placeOf flow)
      (table : next.table = planned.table ++ [flow]) (meters : next.meters = planned.meters) :
      Plans planned (.adds flow)
        ⟨.addFlow, .addFlow flow, some (.deleteFlowStrict flow), .present flow, reinstall⟩ next
  | removeFlow {found spec : Flow} {undo : Option Request} {next : Planned}
      (member : found ∈ planned.table) (names : Names spec found)
      (hard : spec.hardTimeout = remaining found)
      (undoes : ∀ request, undo = some request → request = .addFlow spec)
      (table : next.table = planned.table.erase found) (meters : next.meters = planned.meters) :
      Plans planned (.takes found)
        ⟨.removeFlow, .deleteFlowStrict spec, undo, .absent spec, false⟩ next
  | editFlow {found sent old : Flow} {next : Planned} (member : found ∈ planned.table)
      (place : placeOf sent = placeOf found) (cookie : sent.cookie = found.cookie)
      (hard : sent.hardTimeout = found.hardTimeout)
      (differs : sameActions sent.actions found.actions = false)
      (names : Names old found) (oldHard : old.hardTimeout = found.hardTimeout)
      (table : next.table = updateFound found sent.actions planned.table)
      (meters : next.meters = planned.meters) :
      Plans planned (.takes found)
        ⟨.editFlow, .modifyFlowStrict sent, some (.modifyFlowStrict old), .present sent, false⟩ next
  | addMeter {meter : Meter} {reinstall : Bool} {next : Planned}
      (free : ∀ held ∈ planned.meters, held.meterId ≠ meter.meterId)
      (table : next.table = planned.table) (meters : next.meters = planned.meters ++ [meter]) :
      Plans planned (.addsMeter meter)
        ⟨.addMeter, .addMeter meter, some (.deleteMeter meter.meterId), .meter meter, reinstall⟩ next
  | removeMeter {held : Meter} {meterId : Nat} {undo : Option Request} {next : Planned}
      (member : held ∈ planned.meters) (isId : held.meterId = meterId)
      (undoes : ∀ request, undo = some request → request = .addMeter held)
      (table : next.table = planned.table)
      (meters : next.meters = planned.meters.filter (fun meter => meter.meterId ≠ meterId)) :
      Plans planned (.takesMeter held)
        ⟨.removeMeter, .deleteMeter meterId, undo, .noMeter meterId, false⟩ next

inductive PlansAll : Planned → List Acted → List Step → Planned → Prop where
  | nil {planned : Planned} : PlansAll planned [] [] planned
  | cons {planned between next : Planned} {acted : Acted} {step : Step} {others : List Acted}
      {rest : List Step} (plans : Plans planned acted step between)
      (appends : between.steps = planned.steps ++ [step])
      (all : PlansAll between others rest next) :
      PlansAll planned (acted :: others) (step :: rest) next

theorem PlansAll.append {planned between next : Planned} {acted others : List Acted}
    {steps rest : List Step} (first : PlansAll planned acted steps between)
    (second : PlansAll between others rest next) :
    PlansAll planned (acted ++ others) (steps ++ rest) next := by
  induction first with
  | nil => exact second
  | cons plans appends _ ih => exact .cons plans appends (ih second)

theorem PlansAll.steps {planned next : Planned} {acted : List Acted} {steps : List Step}
    (all : PlansAll planned acted steps next) : next.steps = planned.steps ++ steps := by
  induction all with
  | nil => exact (append_nil _).symm
  | cons plans appends _ ih =>
    rw [ih, appends, append_assoc, singleton_append]

theorem find_place_none {flow : Flow} {table : List Flow}
    (none : find table { target flow with cookie := none } = none) :
    ∀ held ∈ table, placeOf held ≠ placeOf flow := by
  intro held member same
  apply List.find?_eq_none.mp none held member
  unfold named
  rw [Bool.and_eq_true]
  exact ⟨samePlace_iff.mpr same, rfl⟩

omit [Unicode] [Readers] in
theorem not_refused {condition : Prop} [Decidable condition] {refusal : Refusal}
    {others : Option Refusal} (accepted : (if condition then some refusal else others) = none) :
    ¬ condition ∧ others = none := by
  split at accepted
  · cases accepted
  · exact ⟨‹_›, accepted⟩

variable {context : Context} {planned next : Planned}

theorem place_free {flow : Flow} {reinstall : Bool} {response : Option Nat}
    (accepted : addFlowRefusal context flow reinstall response planned = none) :
    find planned.table { target flow with cookie := none } = none := by
  unfold addFlowRefusal at accepted
  split at accepted
  · rename_i refused
    exact absurd accepted (Option.isSome_iff_ne_none.mp refused)
  · obtain ⟨-, accepted⟩ := not_refused accepted
    obtain ⟨-, accepted⟩ := not_refused accepted
    obtain ⟨-, accepted⟩ := not_refused accepted
    obtain ⟨-, accepted⟩ := not_refused accepted
    obtain ⟨free, -⟩ := not_refused accepted
    simpa using free

variable [Driver]

omit [Unicode] [Readers] in
theorem rendered_request {request answer : Request} (renders : rendered request = some answer) :
    answer = request :=
  (rendered_eq_some.mp renders).2.symm

theorem planAddSpec_ok {flow : Flow} {reinstall : Bool} {response : Option Nat}
    (ok : planAddSpec context flow reinstall response planned = .ok next) :
    ∃ step, Plans planned (.adds flow) step next ∧ next.steps = planned.steps ++ [step] := by
  unfold planAddSpec at ok
  split at ok
  · cases ok
  · rename_i accepted
    split at ok
    · rename_i request undo addRenders undoRenders
      cases ok
      rw [rendered_request addRenders, rendered_request undoRenders]
      exact ⟨_, .addFlow (find_place_none (place_free accepted)) rfl rfl, rfl⟩
    · cases ok

theorem planRemoveFlow_ok {wanted : Target}
    (ok : planRemoveFlow context wanted planned = .ok next) :
    ∃ found step, find planned.table (normalisedTarget wanted) = some found ∧
      Plans planned (.takes found) step next ∧ next.steps = planned.steps ++ [step] := by
  unfold planRemoveFlow at ok
  split at ok
  · cases ok
  · rename_i found isFound
    unfold planRemoveFound at ok
    split at ok
    · cases ok
    · rename_i request renders
      cases ok
      rw [rendered_request renders]
      refine ⟨found, _, isFound, .removeFlow (mem_of_find?_eq_some isFound)
        (removedSpec_names context found) rfl ?_ rfl rfl, rfl⟩
      intro undo undoRenders
      exact rendered_request undoRenders

theorem planModify_ok {new found : Flow} (member : found ∈ planned.table)
    (inPlace : replaces new found = false) (ok : planModify context new found planned = .ok next) :
    ∃ step, Plans planned (.takes found) step next ∧ next.steps = planned.steps ++ [step] := by
  unfold planModify at ok
  split at ok
  · cases ok
  · rename_i differs
    split at ok
    · rename_i request undo modifyRenders undoRenders
      cases ok
      rw [rendered_request modifyRenders, rendered_request undoRenders]
      have place : placeOf (modifiedSpec new found) = placeOf found := by
        unfold replaces at inPlace
        simp only [ne_eq, decide_not, Bool.or_eq_false_iff, Bool.not_eq_false', decide_eq_true_eq]
          at inPlace
        apply samePlace_iff.mp
        unfold samePlace
        simp only [modifiedSpec, target, inPlace, decide_true, Bool.and_self]
      exact ⟨_, .editFlow member place rfl rfl (Bool.not_eq_true _ ▸ differs)
        (asRead_names context found) rfl rfl rfl, rfl⟩
    · cases ok

omit [Driver] in
theorem Plans.all {acted : Acted} {step : Step} (plans : Plans planned acted step next)
    (appends : next.steps = planned.steps ++ [step]) : PlansAll planned [acted] [step] next :=
  .cons plans appends .nil

theorem planReplace_ok {new found : Flow} (ok : planReplace context new found planned = .ok next) :
    ∃ steps, PlansAll planned
      ((find planned.table (normalisedTarget (identity found))).toList.map .takes ++
        [.adds (spec context new)]) steps next := by
  unfold planReplace at ok
  split at ok
  · cases ok
  · cases removal : planRemoveFlow context (identity found) planned with
    | error refusal =>
      rw [removal] at ok
      cases ok
    | ok between =>
      rw [removal] at ok
      obtain ⟨removed, first, isFound, plansFirst, appendsFirst⟩ := planRemoveFlow_ok removal
      obtain ⟨second, plansSecond, appendsSecond⟩ := planAddSpec_ok ok
      rw [isFound]
      exact ⟨_, (plansFirst.all appendsFirst).append (plansSecond.all appendsSecond)⟩

theorem planEditFlow_ok {wanted : Target} {flow : Flow}
    (ok : planEditFlow context wanted flow planned = .ok next) :
    ∃ steps, PlansAll planned (actedBy context planned (.editFlow wanted flow)) steps next := by
  unfold planEditFlow at ok
  split at ok
  · cases ok
  · rename_i found isFound
    simp only [actedBy, isFound]
    dsimp only at ok
    split at ok
    · cases ok
    · split at ok
      · cases ok
      · split at ok
        · cases ok
        · split at ok
          · rename_i isReplaced
            rw [if_pos isReplaced]
            exact planReplace_ok ok
          · rename_i inPlace
            rw [if_neg inPlace]
            obtain ⟨step, plans, appends⟩ :=
              planModify_ok (mem_of_find?_eq_some isFound) (Bool.not_eq_true _ ▸ inPlace) ok
            exact ⟨_, plans.all appends⟩

omit [Unicode] [Readers] [Driver] in
theorem meterId_free {meter : Meter} {reinstall : Bool}
    (accepted : addMeterRefusal context meter reinstall planned = none) :
    ∀ held ∈ planned.meters, held.meterId ≠ meter.meterId := by
  unfold addMeterRefusal at accepted
  obtain ⟨-, accepted⟩ := not_refused accepted
  obtain ⟨-, accepted⟩ := not_refused accepted
  obtain ⟨free, -⟩ := not_refused accepted
  simpa using free

theorem planAddMeter_ok {meter : Meter} {reinstall : Bool}
    (ok : planAddMeter context meter reinstall planned = .ok next) :
    ∃ step, Plans planned (.addsMeter meter) step next ∧ next.steps = planned.steps ++ [step] := by
  unfold planAddMeter at ok
  split at ok
  · cases ok
  · rename_i accepted
    split at ok
    · rename_i request undo addRenders undoRenders
      cases ok
      rw [rendered_request addRenders, rendered_request undoRenders]
      exact ⟨_, .addMeter (meterId_free accepted) rfl rfl, rfl⟩
    · cases ok

omit [Unicode] [Readers] [Driver] in
theorem plain_of_sound {meter : Meter} (sound : meterSound meter.plain) : meter.plain = meter := by
  have bands : meter.bands.map Band.plain = meter.bands := by
    unfold meterSound at sound
    simp only [Bool.and_eq_true] at sound
    have allSound := all_eq_true.mp sound.2
    conv_rhs => rw [← map_id meter.bands]
    apply map_congr_left
    intro band member
    have bandSound := allSound band.plain (mem_map_of_mem member)
    obtain ⟨type, rate, burstSize⟩ := band
    cases type with
    | dscpRemark precLevel => simp [Band.plain, FlowOps.bandSound] at bandSound
    | drop | other name => rfl
  show Meter.mk _ _ (meter.bands.map Band.plain) = meter
  rw [bands]

theorem planRemoveMeter_ok {meterId : Nat} (ok : planRemoveMeter meterId planned = .ok next) :
    ∃ held step, planned.meters.find? (fun meter => meter.meterId = meterId) = some held ∧
      Plans planned (.takesMeter held) step next ∧ next.steps = planned.steps ++ [step] := by
  unfold planRemoveMeter at ok
  split at ok
  · cases ok
  · rename_i held isFound
    split at ok
    · cases ok
    · split at ok
      · cases ok
      · rename_i request renders
        cases ok
        rw [rendered_request renders]
        have isId : held.meterId = meterId := by simpa using List.find?_some isFound
        refine ⟨held, _, isFound,
          .removeMeter (mem_of_find?_eq_some isFound) isId ?_ rfl rfl, rfl⟩
        intro undo undoRenders
        have sound := (rendered_eq_some.mp undoRenders).1.1
        rw [rendered_request undoRenders, plain_of_sound sound]

/-- **What a change appends to a plan.** -/
theorem planChange_ok {change : Change} (ok : planChange context planned change = .ok next) :
    ∃ steps, PlansAll planned (actedBy context planned change) steps next := by
  cases change with
  | addFlow flow reinstall =>
    obtain ⟨step, plans, appends⟩ := planAddSpec_ok ok
    exact ⟨_, plans.all appends⟩
  | removeFlow wanted =>
    obtain ⟨found, step, isFound, plans, appends⟩ := planRemoveFlow_ok ok
    simp only [actedBy, isFound]
    exact ⟨_, plans.all appends⟩
  | editFlow wanted flow => exact planEditFlow_ok ok
  | addMeter meter reinstall =>
    obtain ⟨step, plans, appends⟩ := planAddMeter_ok ok
    exact ⟨_, plans.all appends⟩
  | removeMeter meterId =>
    obtain ⟨held, step, isFound, plans, appends⟩ := planRemoveMeter_ok ok
    simp only [actedBy, isFound]
    exact ⟨_, plans.all appends⟩

/-! ### The switch a plan mirrors -/

structure Mirrors (metersRead : Bool) (planned : Planned) (switch : Switch) : Prop where
  table : planned.table = switch.flows
  meters : metersRead = true → planned.meters.map Meter.sent = switch.meters.map Meter.sent

variable {switch : Switch} {metersRead : Bool}

omit [Driver] in
theorem updateFound_eq_map {found : Flow} {actions : List Action} {flows : List Flow}
    (distinct : (flows.map placeOf).Nodup) (member : found ∈ flows) :
    updateFound found actions flows =
      flows.map (fun held => if samePlace held (target found) then amended actions held else held) := by
  induction flows with
  | nil => rfl
  | cons flow rest ih =>
    rw [map_cons, nodup_cons] at distinct
    unfold updateFound
    rw [map_cons]
    by_cases isFound : flow = found
    · subst isFound
      rw [if_pos rfl, if_pos (samePlace_iff.mpr rfl)]
      congr 1
      conv_lhs => rw [← map_id rest]
      apply map_congr_left
      intro held heldMember
      rw [if_neg]
      · rfl
      · intro same
        apply distinct.1
        rw [← target_place flow, ← samePlace_iff.mp same]
        exact mem_map_of_mem heldMember
    · have later := (mem_cons.mp member).resolve_left (fun same => isFound same.symm)
      rw [if_neg isFound, ih distinct.2 later, if_neg]
      intro same
      apply distinct.1
      rw [samePlace_iff.mp same]
      exact mem_map_of_mem later

omit [Driver] in
theorem erase_eq_filter {found spec : Flow} (member : found ∈ switch.flows)
    (names : Names spec found) :
    switch.flows.erase found = switch.flows.filter (fun held => !named (target spec) held) := by
  rw [(List.Nodup.of_map _ switch.places_nodup).erase_eq_filter]
  apply filter_congr
  intro held heldMember
  rw [Bool.eq_iff_iff, bne_iff_ne, Bool.not_eq_true', ← Bool.not_eq_true, named_target, names.place,
    names.cookie, ne_eq, not_iff_not]
  constructor
  · rintro rfl
    exact ⟨rfl, rfl⟩
  · intro same
    exact switch.flow_unique heldMember member same.1

omit [Unicode] [Readers] [Driver] in
theorem map_sent_filter (meters : List Meter) (meterId : Nat) :
    (meters.filter (fun meter => meter.meterId ≠ meterId)).map Meter.sent =
      (meters.map Meter.sent).filter (fun meter => meter.meterId ≠ meterId) := by
  rw [filter_map]
  rfl

omit [Driver] in
theorem Mirrors.mem_meters (mirrors : Mirrors metersRead planned switch)
    (read : metersRead) {held : Meter} (member : held ∈ planned.meters) :
    ∃ own ∈ switch.meters, own.sent = held.sent := by
  have sent : held.sent ∈ switch.meters.map Meter.sent :=
    mirrors.meters read ▸ mem_map_of_mem member
  exact mem_map.mp sent

omit [Driver] in
theorem Mirrors.mem_planned (mirrors : Mirrors metersRead planned switch)
    (read : metersRead) {own : Meter} (member : own ∈ switch.meters) :
    ∃ held ∈ planned.meters, held.sent = own.sent := by
  have sent : own.sent ∈ planned.meters.map Meter.sent :=
    mirrors.meters read ▸ mem_map_of_mem member
  exact mem_map.mp sent

def Acted.needsMeters : Acted → Bool
  | .addsMeter _ | .takesMeter _ => true
  | .adds _ | .takes _ => false

omit [Driver] in
/-- **A planner's step fits the switch its plan mirrors**, and the plan mirrors
the switch the step leaves. -/
theorem Plans.fits {acted : Acted} {step : Step} (plans : Plans planned acted step next)
    (mirrors : Mirrors metersRead planned switch) (needs : acted.needsMeters → metersRead) :
    Fits switch step ∧ Mirrors metersRead next (switch.execute step.request) := by
  cases plans with
  | @addFlow flow reinstall _ free table meters =>
    rw [mirrors.table] at free table
    refine ⟨.addFlow free, ?_, fun read => by rw [meters]; exact mirrors.meters read⟩
    rw [table]
    show _ = switch.flows.filter _ ++ [flow]
    rw [filter_eq_self.mpr]
    intro held member
    rw [Bool.not_eq_true', samePlace_eq_false]
    exact free held member
  | @removeFlow found spec undo _ member names hard undoes table meters =>
    rw [mirrors.table] at member table
    refine ⟨.removeFlow member names hard undoes, ?_, fun read => by
      rw [meters]; exact mirrors.meters read⟩
    rw [table]
    exact erase_eq_filter member names
  | @editFlow found sent old _ member place cookie hard differs names oldHard table meters =>
    rw [mirrors.table] at member table
    refine ⟨.editFlow member place cookie hard differs names oldHard, ?_, fun read => by
      rw [meters]; exact mirrors.meters read⟩
    rw [table, updateFound_eq_map switch.places_nodup member]
    show _ = switch.flows.map _
    apply map_congr_left
    intro held _
    have samePlaces : samePlace held (target found) = samePlace held (target sent) := by
      rw [Bool.eq_iff_iff, samePlace_iff, samePlace_iff, target_place, target_place, place]
    rw [samePlaces]
  | @addMeter meter reinstall _ free table meters =>
    have read := needs rfl
    have freeThere : ∀ own ∈ switch.meters, own.meterId ≠ meter.meterId := by
      intro own member
      obtain ⟨held, heldMember, same⟩ := mirrors.mem_planned read member
      rw [← own.sent_meterId, ← same]
      exact free held heldMember
    refine ⟨.addMeter freeThere, by rw [table]; exact mirrors.table, fun _ => ?_⟩
    rw [meters, map_append, mirrors.meters read]
    show _ = (switch.meters.filter _ ++ [meter.sent]).map Meter.sent
    rw [filter_eq_self.mpr (fun own member => decide_eq_true (freeThere own member)),
      map_append]
    congr 1
    show [meter.sent] = [meter.sent.sent]
    rw [Meter.sent_sent]
  | @removeMeter held meterId undo _ member isId undoes table meters =>
    have read := needs rfl
    obtain ⟨own, ownMember, same⟩ := mirrors.mem_meters read member
    refine ⟨.removeMeter ownMember ?_ ?_, by rw [table]; exact mirrors.table, fun _ => ?_⟩
    · rw [← own.sent_meterId, same]
      exact isId
    · intro request isUndo
      exact ⟨held, undoes request isUndo, same.symm⟩
    · rw [meters]
      show _ = (switch.meters.filter _).map Meter.sent
      rw [map_sent_filter, map_sent_filter, mirrors.meters read]

omit [Driver] in
theorem PlansAll.fits {acted : List Acted} {steps : List Step}
    (all : PlansAll planned acted steps next) (mirrors : Mirrors metersRead planned switch)
    (needs : acted.any Acted.needsMeters → metersRead) :
    Follows switch steps ∧ Mirrors metersRead next (switch.reached steps) := by
  induction all generalizing switch with
  | nil => exact ⟨.nil, mirrors⟩
  | @cons planned between next first step others rest plans appends all ih =>
    rw [any_cons, Bool.or_eq_true] at needs
    obtain ⟨fits, mirrorsBetween⟩ := plans.fits mirrors (fun own => needs (.inl own))
    obtain ⟨follows, mirrorsNext⟩ := ih mirrorsBetween (fun other => needs (.inr other))
    exact ⟨.cons fits follows, mirrorsNext⟩

end Planning

end Nmas.Sdn.FlowOps
