import Nmas.Heal.Overtaken

/-!
Contract: the reads a detect pass settles on, under any changes made meanwhile.

What a pass holds of an incident covers the outside changes on it, as long as
none is sighted on an incident the pass has in hand. Then the reads it settles
on stand after every outside change held.
-/

namespace Nmas.Heal.Detect

open Nmas.Text List
open Nmas.Log (focus_some exists_left_of_mem)
open Nmas.Log.Machine (Along)

def Stage.inHand : Stage → Option Incident
  | .between => none
  | .reading inc _ => some inc
  | .working work _ => some work.inc

/-- The incidents a pass has read and neither settled nor left. -/
def Pass.pending (pass : Pass) : List Incident := pass.stage.inHand.toList ++ pass.rest

def State.pending (state : State) : List Incident := (state.pass.map Pass.pending).getD []

/-- No outside change held of an incident settled came at or after the first
read judged. -/
def Settlement.Stands (settlement : Settlement) : Prop :=
  ∀ settled ∈ settlement.inc.settled, ∀ place ∈ settled.first,
    ∃ read ∈ settlement.reads[place]?,
      ∀ trigger ∈ settlement.inc.triggers, trigger.outside = true → trigger.epoch < read.epoch

instance (settlement : Settlement) : Decidable settlement.Stands := by
  unfold Settlement.Stands
  infer_instance

/-- The ids drawn are new to the store. -/
def Drawn (state : State) : Event → Prop
  | .change act _ => Fresh state.incidents act
  | _ => True

/-- No outside change is sighted on an incident the pass has in hand. -/
def Undisturbed (state : State) : Event → Prop
  | .change (.sight draw device trigger now radiusOf) _ =>
    let sighted := sight draw device trigger now radiusOf state.incidents
    trigger.outside = true → sighted.action ≠ .duplicate →
      sighted.incident ∉ state.pending.map Incident.id
  | _ => True

instance decidableDrawn (state : State) : ∀ event, Decidable (Drawn state event)
  | .change act _ => inferInstanceAs (Decidable (Fresh state.incidents act))
  | .begins _ _ | .goesOn _ => isTrue trivial

instance decidableUndisturbed (state : State) : ∀ event, Decidable (Undisturbed state event)
  | .change (.sight draw device trigger now radiusOf) _ =>
    inferInstanceAs (Decidable (trigger.outside = true →
      (sight draw device trigger now radiusOf state.incidents).action ≠ .duplicate →
        (sight draw device trigger now radiusOf state.incidents).incident ∉
          state.pending.map Incident.id))
  | .change (.recordRead _ _ _) _ | .change (.settle _ _) _ | .change (.claim _ _) _
  | .change (.defer _ _ _) _ | .change (.close _ _) _ | .change .closeWatching _
  | .begins _ _ | .goesOn _ => isTrue trivial

variable {state : State} {event : Event} {incidents changed : List Incident} {act : Act}
  {inc later : Incident} {pass : Pass}

/-! ### What the other changes leave -/

theorem own_triggers (steady : Steady inc later) : later.triggers = inc.triggers :=
  (List.cons.inj steady.triggers).1

theorem steady_symptomatic (steady : Steady inc later) (symptomatic : Symptomatic inc) :
    Symptomatic later where
  own symptom := by
    rw [own_triggers steady]
    exact symptomatic.own (steady.cause.symm.trans symptom)
  attached member isMember := by
    have attached := (List.cons.inj steady.triggers).2
    have inLater : member.triggers ∈ (later.attached.map Member.toHolder).map Holder.triggers :=
      mem_map_of_mem (mem_map_of_mem isMember)
    rw [attached] at inLater
    obtain ⟨holder, isHolder, sameTriggers⟩ := mem_map.mp inLater
    obtain ⟨other, isOther, rfl⟩ := mem_map.mp isHolder
    rw [← sameTriggers]
    exact symptomatic.attached other isOther

structure Left (incidents changed : List Incident) : Prop where
  symptomatic : ∀ inc ∈ changed, Symptomatic inc
  ids : (changed.map Incident.id).Nodup
  outside : ∀ later ∈ changed, ∀ one ∈ later.triggers, one.outside = true →
    ∃ inc ∈ incidents, inc.id = later.id ∧ one ∈ inc.triggers

theorem left_of_steady (steady : List.Forall₂ Steady incidents changed)
    (symptomatic : ∀ inc ∈ incidents, Symptomatic inc) (ids : (incidents.map Incident.id).Nodup) :
    Left incidents changed where
  symptomatic later member := by
    obtain ⟨inc, isBefore, steady⟩ := exists_left_of_mem steady member
    exact steady_symptomatic steady (symptomatic inc isBefore)
  ids := by
    rw [kept_ids (steady.imp (fun _ _ steady => steady.toKept))]
    exact ids
  outside later member one isOne _ := by
    obtain ⟨inc, isBefore, steady⟩ := exists_left_of_mem steady member
    rw [own_triggers steady] at isOne
    exact ⟨inc, isBefore, steady.id.symm, isOne⟩

theorem Left.trim (left : Left incidents changed) : Left incidents (trim changed) where
  symptomatic inc member := left.symptomatic inc (mem_filter.mp member).1
  ids := (filter_sublist.map _).nodup left.ids
  outside inc member := left.outside inc (mem_filter.mp member).1

theorem attempt_some (attempted : attempt incidents act = some changed) :
    ∃ between, act.change incidents = .ok between ∧ changed = Heal.trim between := by
  unfold attempt at attempted
  split at attempted
  · rename_i between ok
    exact ⟨between, ok, (Option.some.inj attempted).symm⟩
  · cases attempted

theorem attempt_left (attempted : attempt incidents act = some changed)
    (other : ∀ draw device trigger now radiusOf, act ≠ .sight draw device trigger now radiusOf)
    (symptomatic : ∀ inc ∈ incidents, Symptomatic inc) (ids : (incidents.map Incident.id).Nodup) :
    Left incidents changed := by
  obtain ⟨between, ok, rfl⟩ := attempt_some attempted
  exact (left_of_steady (change_steady ok other) symptomatic ids).trim

/-! ### The invariant -/

def Pass.Judges (pass : Pass) : Prop :=
  ∀ work left, pass.stage = .working work left →
    work.judged = Grace.judge work.reads (outsideChanges work.inc) pass.graceSeconds pass.now

structure Grounded (state : State) : Prop where
  symptomatic : ∀ inc ∈ state.incidents, Symptomatic inc
  ids : (state.incidents.map Incident.id).Nodup
  covered : ∀ pending ∈ state.pending, ∀ inc ∈ state.incidents, inc.id = pending.id →
    ∀ one ∈ inc.triggers, one.outside = true → one ∈ pending.triggers
  judges : ∀ pass ∈ state.pass, pass.Judges
  settled : ∀ settlement ∈ state.settled, settlement.Stands

theorem grounded_start : Grounded start where
  symptomatic inc member := by cases member
  ids := nodup_nil
  covered pending member := by cases member
  judges pass isPass := by cases isPass
  settled settlement member := by cases member

theorem Grounded.writes (grounded : Grounded state) (left : Left state.incidents changed)
    {pass : Option Pass} (pending : ∀ inc ∈ (pass.map Pass.pending).getD [], inc ∈ state.pending)
    (judges : ∀ one ∈ pass, one.Judges) :
    Grounded { state with incidents := changed, pass := pass } where
  symptomatic := left.symptomatic
  ids := left.ids
  covered inHand isPending inc member sameId one isOne isOutside := by
    obtain ⟨before, isBefore, id, held⟩ := left.outside inc member one isOne isOutside
    exact grounded.covered inHand (pending inHand isPending) before isBefore
      (id.trans sameId) one held isOutside
  judges := judges
  settled := grounded.settled

theorem Grounded.moves (grounded : Grounded state) {pass : Option Pass}
    (pending : ∀ inc ∈ (pass.map Pass.pending).getD [], inc ∈ state.pending)
    (judges : ∀ one ∈ pass, one.Judges) : Grounded { state with pass := pass } where
  symptomatic := grounded.symptomatic
  ids := grounded.ids
  covered inHand isPending := grounded.covered inHand (pending inHand isPending)
  judges := judges
  settled := grounded.settled

/-! ### Each step -/

theorem pending_of_pass (isPass : state.pass = some pass) : state.pending = pass.pending := by
  unfold State.pending
  rw [isPass]
  rfl

theorem Grounded.change (grounded : Grounded state) (elsewhere : isSettle act = false)
    (drawn : Drawn state (.change act elsewhere))
    (undisturbed : Undisturbed state (.change act elsewhere)) :
    Grounded (step state (.change act elsewhere)) := by
  show Grounded { state with incidents := mutate state.incidents act }
  unfold mutate
  split
  · rename_i changed ok
    have ids := (change_grows ok).ids_nodup grounded.ids drawn
    cases act with
    | sight draw device trigger now radiusOf =>
      cases ok
      refine ⟨fun inc member => ?_, ?_, fun inHand isPending inc member sameId one isOne
        isOutside => ?_, grounded.judges, grounded.settled⟩
      · exact (sight_traced grounded.symptomatic (mem_filter.mp member).1).1
      · exact (filter_sublist.map _).nodup ids
      · rcases (sight_traced grounded.symptomatic (mem_filter.mp member).1).2 one isOne
          isOutside with
          ⟨before, isBefore, id, held⟩ | ⟨taken, isTrigger, into⟩
        · exact grounded.covered inHand isPending before isBefore (id.trans sameId) one held
            isOutside
        · refine absurd ?_ (undisturbed (isTrigger ▸ isOutside) taken)
          rw [← into, sameId]
          exact mem_map_of_mem isPending
    | _ =>
      refine grounded.writes (left_of_steady (change_steady ok ?_) grounded.symptomatic
        grounded.ids).trim (fun inc isPending => isPending) grounded.judges
      intro draw device trigger now radiusOf isSight
      cases isSight
  · exact grounded

theorem Grounded.begins (grounded : Grounded state) (graceSeconds now : Clock) :
    Grounded (step state (.begins graceSeconds now)) := by
  cases isPass : state.pass with
  | some pass =>
    simp only [step, isPass]
    exact grounded
  | none =>
    simp only [step, isPass]
    refine ⟨grounded.symptomatic, grounded.ids, fun inHand isPending inc member sameId => ?_,
      fun pass isPass work left isWork => ?_, grounded.settled⟩
    · have isIncident : inHand ∈ state.incidents := (mem_filter.mp isPending).1
      rw [inj_on_of_nodup_map grounded.ids member isIncident sameId]
      exact fun one isOne _ => isOne
    · cases isPass
      cases isWork

theorem Pass.takeUp_pending (pass : Pass) (inc : Incident) :
    ∀ one ∈ (pass.takeUp inc).pending, one = inc ∨ one ∈ pass.rest := by
  intro one member
  unfold Pass.takeUp at member
  dsimp only at member
  split at member
  · exact .inr member
  · split at member
    · split at member
      · exact .inr member
      · exact mem_cons.mp member
    · exact mem_cons.mp member

theorem Pass.takeUp_judges (pass : Pass) (inc : Incident) : (pass.takeUp inc).Judges := by
  intro work left isWork
  unfold Pass.takeUp at isWork ⊢
  dsimp only at isWork ⊢
  split at isWork
  · cases isWork
  · rename_i due
    split at isWork
    · split at isWork <;> cases isWork
    · rename_i notDue
      rw [if_neg due, if_neg notDue]
      cases isWork
      rfl

theorem Pass.next_judges (pass : Pass) (budget : Nat) : (pass.next budget).Judges := by
  intro work left isWork
  cases isWork

theorem mem_pending_next (budget : Nat) (isPass : state.pass = some pass) :
    ∀ inc ∈ ((some (pass.next budget)).map Pass.pending).getD [], inc ∈ state.pending := by
  intro inc member
  rw [pending_of_pass isPass]
  exact mem_append_right _ member

theorem Grounded.readOwn (grounded : Grounded state) (isPass : state.pass = some pass)
    {inHand : Incident} {left : Nat} (stage : pass.stage = .reading inHand left) (read : Read) :
    Grounded (readOwn state pass inHand left read) := by
  have pending : ∀ work left, work.inc = inHand →
      ∀ inc ∈ ((some { pass with stage := .working work left }).map Pass.pending).getD [],
        inc ∈ state.pending := by
    intro work left isHand inc member
    rw [pending_of_pass isPass, Pass.pending, stage]
    have inPass : inc ∈ work.inc :: pass.rest := member
    rw [isHand] at inPass
    exact inPass
  unfold Detect.readOwn
  dsimp only
  split
  · refine grounded.moves (pending _ _ rfl) (fun one isOne work left isWork => ?_)
    cases isOne
    cases isWork
    rfl
  · split
    · rename_i incidents attempted
      have leaves := attempt_left attempted nofun grounded.symptomatic grounded.ids
      refine grounded.writes leaves (pending _ _ rfl) (fun one isOne work left isWork => ?_)
      cases isOne
      cases isWork
      rfl
    · refine grounded.moves (mem_pending_next _ isPass) (fun one isOne => ?_)
      cases isOne
      exact pass.next_judges _

theorem Grounded.readMember (grounded : Grounded state) (isPass : state.pass = some pass)
    {work : Work} {unread : List Member} {left budget : Nat} {member : Member}
    (stage : pass.stage = .working work budget) (read : Read) :
    Grounded (readMember state pass { work with unread := unread } member left read) := by
  have pending : ∀ left,
      ∀ inc ∈ ((some { pass with stage := .working { work with unread := unread } left }).map
        Pass.pending).getD [], inc ∈ state.pending := by
    intro left inc member
    rw [pending_of_pass isPass, Pass.pending, stage]
    exact member
  have judges : ∀ left,
      ({ pass with stage := .working { work with unread := unread } left } : Pass).Judges := by
    intro left one budget isWork
    cases isWork
    exact grounded.judges pass isPass work _ stage
  unfold Detect.readMember
  split
  · refine grounded.moves (pending _) (fun one isOne => ?_)
    cases isOne
    exact judges _
  · split
    · refine grounded.moves (pending _) (fun one isOne => ?_)
      cases isOne
      exact judges _
    · split
      · rename_i incidents attempted
        have leaves := attempt_left attempted nofun grounded.symptomatic grounded.ids
        refine grounded.writes leaves (pending _) (fun one isOne => ?_)
        cases isOne
        exact judges _
      · refine grounded.moves (mem_pending_next _ isPass) (fun one isOne => ?_)
        cases isOne
        exact pass.next_judges _

theorem settle_settled {id : Str} {judged : Grace.Judged} (ids : (incidents.map Incident.id).Nodup)
    (attempted : attempt incidents (.settle id judged) = some changed) (member : later ∈ changed)
    (isId : later.id = id) :
    later.settled = some ⟨judged.state, judged.first, judged.second, judged.operands⟩ := by
  obtain ⟨between, ok, rfl⟩ := attempt_some attempted
  have inBetween := (mem_filter.mp member).1
  change settle id judged incidents = .ok between at ok
  unfold settle at ok
  split at ok
  · unfold changeOne at ok
    split at ok
    · rename_i found isFound
      dsimp only at ok
      split at ok
      · cases ok
      · cases ok
        rcases Nmas.Log.Focus.mem_put.mp inBetween with isHere | inRest
        · rw [isHere]
        · obtain ⟨isPut, hasId⟩ := focus_some isFound
          have distinct := (found.put_perm found.here).map Incident.id
          rw [← isPut] at distinct
          have apart := nodup_cons.mp (distinct.nodup_iff.mp ids)
          refine absurd ?_ apart.1
          rw [of_decide_eq_true hasId, ← isId]
          exact mem_map_of_mem inRest
    · cases ok
  · cases ok

theorem Grounded.finishOne (grounded : Grounded state) (isPass : state.pass = some pass)
    {work : Work} {left : Nat} (stage : pass.stage = .working work left) :
    Grounded (finishOne state pass work left) := by
  unfold Detect.finishOne
  split
  · split
    · rename_i incidents attempted
      have leaves := attempt_left attempted nofun grounded.symptomatic grounded.ids
      have moved := grounded.writes leaves (mem_pending_next left isPass)
        (fun one isOne => by cases isOne; exact pass.next_judges _)
      refine ⟨moved.symptomatic, moved.ids, moved.covered, moved.judges, ?_⟩
      intro settlement member
      rcases mem_append.mp member with before | new
      · exact grounded.settled settlement before
      · obtain ⟨inc, isInc, rfl⟩ := mem_map.mp new
        obtain ⟨isIncident, isId⟩ := mem_filter.mp isInc
        intro settled isSettled place isPlace
        rw [settle_settled grounded.ids attempted isIncident (of_decide_eq_true isId)] at isSettled
        cases isSettled
        rw [grounded.judges pass isPass work left stage] at isPlace
        obtain ⟨read, isRead, after⟩ := Grace.judge_first isPlace
        refine ⟨read, isRead, fun trigger isTrigger isOutside => after _ ?_⟩
        have isPending : work.inc ∈ state.pending := by
          rw [pending_of_pass isPass, Pass.pending, stage]
          exact .head _
        obtain ⟨before, isBefore, sameId, held⟩ :=
          leaves.outside inc isIncident trigger isTrigger isOutside
        have known := grounded.covered work.inc isPending before isBefore
          (sameId.trans (of_decide_eq_true isId)) trigger held isOutside
        unfold outsideChanges
        rw [mem_mergeSort]
        exact mem_append_left _ (mem_map_of_mem (mem_filter.mpr ⟨known, isOutside⟩))
    · refine grounded.moves (mem_pending_next _ isPass) (fun one isOne => ?_)
      cases isOne
      exact pass.next_judges _
  · refine grounded.moves (mem_pending_next _ isPass) (fun one isOne => ?_)
    cases isOne
    exact pass.next_judges _

theorem Grounded.goesOn (grounded : Grounded state) (read : Read) :
    Grounded (step state (.goesOn read)) := by
  cases isPass : state.pass with
  | none =>
    simp only [step, isPass]
    exact grounded
  | some pass =>
    simp only [step, isPass]
    split
    · rename_i stage
      split
      · refine grounded.moves (fun inc member => by cases member) (fun one isOne => by cases isOne)
      · rename_i inc rest isRest
        refine grounded.moves (fun one member => ?_) (fun one isOne => ?_)
        · rw [pending_of_pass isPass]
          apply mem_append_right
          rw [isRest]
          exact mem_cons.mpr (Pass.takeUp_pending _ inc one member)
        · cases isOne
          exact Pass.takeUp_judges _ inc
    · rename_i inc left stage
      exact grounded.readOwn isPass stage read
    · rename_i work left stage
      split
      · exact grounded.readMember isPass stage read
      · exact grounded.finishOne isPass stage

/-- **Every allowed step keeps what is grounded.** -/
theorem Grounded.step (grounded : Grounded state) (drawn : Drawn state event)
    (undisturbed : Undisturbed state event) : Grounded (step state event) := by
  cases event with
  | change act elsewhere => exact grounded.change elsewhere drawn undisturbed
  | begins graceSeconds now => exact grounded.begins graceSeconds now
  | goesOn read => exact grounded.goesOn read

/-- **An incident is ready on reads that stand.** In every run of detect passes
and changes in which no outside change is sighted on an incident a pass has in
hand, every incident settled holds no outside change at or after the first read
it was judged by. -/
theorem ready_reads_stand {events : List Event}
    (undisturbed : Along Detect.step
      (fun state event => Drawn state event ∧ Undisturbed state event) start events) :
    ∀ settlement ∈ (Log.Machine.run Detect.step start events).settled, settlement.Stands :=
  (undisturbed.keeps (fun _ _ grounded allowed => grounded.step allowed.1 allowed.2)
    grounded_start).settled

namespace OneDevice

def drift : Trigger := ⟨.drift, some "k1".ascii, 0, none, []⟩

def outside (epoch : Clock) : Trigger := ⟨.configChange, some "k2".ascii, epoch, some .outside, []⟩

def drifted (epoch : Clock) : Read := ⟨epoch, .drifted, "d1".ascii, some 1, []⟩

def sighted (draw : Str) (trigger : Trigger) : Event :=
  .change (.sight draw "r2".ascii trigger trigger.epoch (fun _ => none)) rfl

/-- A pass that makes the incident's one due read. -/
def reading (now : Clock) (beforeRead : List Event) : List Event :=
  .begins 120 now :: .goesOn (drifted now) :: beforeRead ++
    [.goesOn (drifted now), .goesOn (drifted now), .goesOn (drifted now)]

/-- A drift sighted, and two passes that read it, the grace period apart. -/
def settling (beforeRead : List Event) : List Event :=
  sighted "hi-1".ascii drift :: sighted "hi-2".ascii (outside 0) ::
    (reading 10 [] ++ reading 200 beforeRead)

end OneDevice

open OneDevice in
/-- Two reads, the grace period apart, settle the incident and stand. -/
theorem two_reads_stand :
    let state := Log.Machine.run step start (settling [])
    state.settled.length = 1 ∧ ∀ settlement ∈ state.settled, settlement.Stands :=
  ⟨by decide +kernel, ready_reads_stand (by decide +kernel)⟩

open OneDevice in
/-- A change sighted between the judgement that a read is due and the settling
is held as the incident becomes ready, on a first read it has overtaken. -/
theorem overtaken_ready :
    ¬ ∀ settlement ∈ (Log.Machine.run step start
        (settling [sighted "hi-3".ascii { outside 150 with key := some "k3".ascii }])).settled,
      settlement.Stands := by
  decide +kernel

end Nmas.Heal.Detect
