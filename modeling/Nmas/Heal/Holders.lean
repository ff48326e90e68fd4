import Mathlib.Data.List.Forall2
import Mathlib.Data.List.Nodup
import Nmas.Heal.Incidents

/-!
Contract: what the open incidents hold of each device, over every run of
changes.

A change of the store moves holders between incidents; apart from the one its
trigger is pushed on, each is kept whole. So a device is held once, and a
trigger held stays held.
-/

namespace Nmas.Heal

open Nmas.Text List
open Nmas.Log (Focus focus focus_some focus_none)

def Incident.holders (inc : Incident) : List Holder :=
  inc.toHolder :: inc.attached.map Member.toHolder

def openHolders (incidents : List Incident) : List Holder :=
  (incidents.filter (fun inc => inc.status.isOpen)).flatMap Incident.holders

def held (incidents : List Incident) (device : Str) : Option Holder :=
  (openHolders incidents).find? (fun holder => holder.device = device)

variable {incidents before after rest : List Incident} {inc other : Incident} {device : Str}
  {trigger : Trigger} {radiusOf : Radius} {found : Focus Incident} {cut : Option (List Str)}

theorem openHolders_append :
    openHolders (before ++ after) = openHolders before ++ openHolders after := by
  simp [openHolders]

theorem openHolders_open (isOpen : inc.status.isOpen) :
    openHolders (inc :: rest) = inc.holders ++ openHolders rest := by
  simp [openHolders, isOpen]

theorem openHolders_closed (isClosed : inc.status.isOpen = false) :
    openHolders (inc :: rest) = openHolders rest := by
  simp [openHolders, isClosed]

theorem openHolders_put (found : Focus Incident) (inc : Incident) (isOpen : inc.status.isOpen) :
    (openHolders (found.put inc)).Perm (inc.holders ++ openHolders found.rest) := by
  unfold Focus.put Focus.rest
  rw [openHolders_append, openHolders_open isOpen, openHolders_append, ← append_assoc,
    ← append_assoc]
  exact List.Perm.append_right _ perm_append_comm

theorem mem_openHolders {holder : Holder} :
    holder ∈ openHolders incidents ↔
      ∃ inc ∈ incidents, inc.status.isOpen ∧ holder ∈ inc.holders := by
  simp only [openHolders, mem_flatMap, mem_filter, and_assoc]

theorem holds_iff :
    inc.holds device ↔ inc.status.isOpen ∧ ∃ holder ∈ inc.holders, holder.device = device := by
  simp [Incident.holds, Incident.holders]

theorem holders_attach (more : List Member) :
    ({ inc with attached := inc.attached ++ more } : Incident).holders =
      inc.holders ++ more.map Member.toHolder := by
  simp [Incident.holders]

/-! ### The fold -/

/-- An incident after a change: still itself, its relations kept, and open only
if it was. -/
structure Kept (before after : Incident) : Prop where
  id : after.id = before.id
  related : before.related ⊆ after.related
  wasOpen : after.status.isOpen = true → before.status.isOpen = true

theorem Kept.refl (inc : Incident) : Kept inc inc := ⟨rfl, .refl _, fun isOpen => isOpen⟩

def Folded (before after : Incident) : Prop :=
  after = before ∨
    ∃ into, before.cause = .symptom ∧ after = { before with status := .closed, foldedInto := some into }

theorem Folded.kept (folded : Folded inc other) : Kept inc other := by
  rcases folded with same | ⟨into, _, isClosed⟩
  · rw [same]
    exact Kept.refl inc
  · rw [isClosed]
    exact ⟨rfl, .refl _, nofun⟩

def CameFrom (others : List Incident) (member : Member) : Prop :=
  ∃ other ∈ others, (other.cause = .symptom ∧ member = other.folded) ∨ member ∈ other.attached

/-- What a loop of `_absorb` leaves: the incident with more attached, and every
holder still held. -/
structure Absorbed (inc : Incident) (others : List Incident) (taken : Incident)
    (left : List Incident) : Prop where
  here : ∃ more, taken = { inc with attached := inc.attached ++ more } ∧
    ∀ member ∈ more, CameFrom others member
  holders : (taken.holders ++ openHolders left).Perm (inc.holders ++ openHolders others)
  folded : List.Forall₂ Folded others left

theorem CameFrom.cons {others : List Incident} {member : Member} (came : CameFrom others member) :
    CameFrom (other :: others) member := by
  obtain ⟨one, isOther, how⟩ := came
  exact ⟨one, mem_cons_of_mem other isOther, how⟩

theorem absorbed_cons (isOpen : other.status.isOpen) (symptom : other.cause = .symptom)
    {taken : Incident} {others left : List Incident}
    (absorbed : Absorbed { inc with attached := inc.attached ++ other.folded :: other.attached }
      others taken left) :
    Absorbed inc (other :: others) taken
      ({ other with status := .closed, foldedInto := some inc.id } :: left) where
  here := by
    obtain ⟨more, isTaken, came⟩ := absorbed.here
    refine ⟨other.folded :: other.attached ++ more, ?_, fun member isMember => ?_⟩
    · rw [isTaken, ← append_assoc]
    · rcases mem_append.mp isMember with own | later
      · refine ⟨other, .head _, ?_⟩
        exact (mem_cons.mp own).imp_left (fun isFolded => ⟨symptom, isFolded⟩)
      · exact (came member later).cons
  holders := by
    rw [openHolders_closed rfl, openHolders_open isOpen]
    refine absorbed.holders.trans (List.Perm.of_eq ?_)
    simp [Incident.holders, Incident.folded]
  folded := .cons (.inr ⟨inc.id, symptom, rfl⟩) absorbed.folded

theorem absorbFrom_absorbed (cut : Option (List Str)) (others : List Incident) (inc : Incident) :
    Absorbed inc others (absorbFrom cut inc others).1 (absorbFrom cut inc others).2 := by
  induction others generalizing inc with
  | nil => exact ⟨⟨[], by simp [absorbFrom]⟩, .refl _, .nil⟩
  | cons other others ih =>
    unfold absorbFrom
    split
    · rename_i takes
      unfold absorbs at takes
      simp only [Bool.and_eq_true, decide_eq_true_eq] at takes
      have isOpen : other.status.isOpen := by rw [takes.1.2]; rfl
      exact absorbed_cons isOpen takes.1.1 (ih _)
    · have absorbed := ih inc
      obtain ⟨more, isTaken, came⟩ := absorbed.here
      refine ⟨⟨more, isTaken, fun member isMember => (came member isMember).cons⟩, ?_,
        .cons (.inl rfl) absorbed.folded⟩
      change ((absorbFrom cut inc others).1.holders ++
        openHolders ([other] ++ (absorbFrom cut inc others).2)).Perm
          (inc.holders ++ openHolders ([other] ++ others))
      rw [openHolders_append, openHolders_append]
      refine (perm_append_comm_assoc _ _ _).trans ?_
      exact (absorbed.holders.append_left _).trans (perm_append_comm_assoc _ _ _)

/-- **The fold keeps what is held**: the incident absorbing has more attached,
and the holders are those it and the others had. -/
theorem absorb_absorbed (radiusOf : Radius) (found : Focus Incident) (inc : Incident) :
    (∃ more fold, (absorb found inc radiusOf).here =
        { inc with attached := inc.attached ++ more, fold := fold } ∧
          ∀ member ∈ more, CameFrom found.rest member) ∧
      ((absorb found inc radiusOf).here.holders ++
        openHolders (absorb found inc radiusOf).rest).Perm (inc.holders ++ openHolders found.rest) ∧
      List.Forall₂ Folded found.before (absorb found inc radiusOf).before ∧
      List.Forall₂ Folded found.after (absorb found inc radiusOf).after := by
  unfold absorb
  dsimp only
  generalize isJudged : ({ inc with fold := _ } : Incident) = judged
  have first := absorbFrom_absorbed (radiusOf inc.device) found.before judged
  generalize absorbFrom (radiusOf inc.device) judged found.before = taken at first
  have second := absorbFrom_absorbed (radiusOf inc.device) found.after taken.1
  generalize absorbFrom (radiusOf inc.device) taken.1 found.after = last at second
  have sameHolders : judged.holders = inc.holders := by rw [← isJudged]; rfl
  refine ⟨?_, ?_, first.folded, second.folded⟩
  · obtain ⟨more, isTaken, came⟩ := first.here
    obtain ⟨again, isLast, cameAfter⟩ := second.here
    refine ⟨more ++ again, judged.fold, ?_, fun member isMember => ?_⟩
    · rw [isLast, isTaken, ← isJudged, ← append_assoc]
    · rcases mem_append.mp isMember with before | after
      · obtain ⟨one, isOne, how⟩ := came member before
        exact ⟨one, mem_append_left _ isOne, how⟩
      · obtain ⟨one, isOne, how⟩ := cameAfter member after
        exact ⟨one, mem_append_right _ isOne, how⟩
  · have beforeHolders := first.holders
    rw [sameHolders] at beforeHolders
    show (last.1.holders ++ openHolders (taken.2 ++ last.2)).Perm
      (inc.holders ++ openHolders (found.before ++ found.after))
    rw [openHolders_append, openHolders_append]
    refine (perm_append_comm_assoc _ _ _).trans ?_
    refine (second.holders.append_left _).trans ?_
    refine (perm_append_comm_assoc _ _ _).trans ?_
    rw [← append_assoc, ← append_assoc]
    exact beforeHolders.append_right _

/-! ### What a trigger is pushed on -/

/-- Nothing held yet of a device. -/
def blank (device : Str) : Holder := ⟨device, [], 0, []⟩

inductive Pushed (device : Str) (trigger : Trigger) (before after : List Holder) : Prop
  | on (holder : Holder) (others : List Holder) (isDevice : holder.device = device)
      (was : before.Perm (holder :: others)) (is_ : after.Perm (holder.push trigger :: others))
  | first (free : ∀ holder ∈ before, holder.device ≠ device)
      (is_ : after.Perm ((blank device).push trigger :: before))

theorem sightNew_pushed (draw : Str) (now : Clock)
    (free : ∀ holder ∈ openHolders incidents, holder.device ≠ device) :
    Pushed device trigger (openHolders incidents)
      (openHolders (sightNew draw device trigger now radiusOf incidents).incidents) := by
  refine .first free ?_
  unfold sightNew
  dsimp only
  split
  · obtain ⟨⟨more, fold, isHere, -⟩, holders, -, -⟩ := absorb_absorbed radiusOf
      ⟨incidents, { opening draw device trigger now with
        toHolder := (opening draw device trigger now).push trigger }, []⟩
      { opening draw device trigger now with
        toHolder := (opening draw device trigger now).push trigger }
    refine (openHolders_put _ _ (by rw [isHere]; rfl)).trans (holders.trans (List.Perm.of_eq ?_))
    show _ ++ openHolders (incidents ++ []) = _
    rw [append_nil]
    rfl
  · split
    · rename_i found isTarget
      have isFound : incidents = found.put found.here ∧ found.here.status.isOpen := by
        rcases Option.or_eq_some_iff.mp isTarget with linked | ⟨-, inside⟩
        · obtain ⟨isPut, test⟩ := focus_some linked
          rw [Bool.and_eq_true] at test
          exact ⟨isPut, test.1⟩
        · obtain ⟨isPut, test⟩ := focus_some inside
          rw [Bool.and_eq_true, Bool.and_eq_true] at test
          exact ⟨isPut, test.1.1⟩
      obtain ⟨isPut, isOpen⟩ := isFound
      refine (openHolders_put found { found.here with
        attached := found.here.attached ++ [attaching device trigger] } isOpen).trans ?_
      have was := openHolders_put found found.here isOpen
      rw [← isPut] at was
      refine List.Perm.trans ?_ (was.symm.cons _)
      rw [holders_attach, append_assoc]
      exact perm_middle
    · rw [openHolders_append]
      exact perm_append_comm

theorem sightOwn_pushed (isOpen : found.here.status.isOpen)
    (isDevice : found.here.device = device) :
    Pushed device trigger (openHolders (found.put found.here))
      (openHolders (sightOwn trigger radiusOf found).incidents) := by
  refine .on found.here.toHolder (found.here.attached.map Member.toHolder ++
    openHolders found.rest) isDevice (openHolders_put _ _ isOpen) ?_
  unfold sightOwn
  dsimp only
  have pushed : ∀ after : Focus Incident, after.here.status.isOpen →
      (after.here.holders ++ openHolders after.rest).Perm
        (found.here.push trigger :: (found.here.attached.map Member.toHolder ++
          openHolders found.rest)) →
      (openHolders (after.put (if trigger.kind.isCause = true ∧ after.here.status = .ready then
        { after.here with status := .watching, settled := none } else after.here))).Perm
          (found.here.push trigger :: (found.here.attached.map Member.toHolder ++
            openHolders found.rest)) := by
    intro after stillOpen holders
    split
    · exact (openHolders_put _ _ rfl).trans holders
    · exact (openHolders_put _ _ stillOpen).trans holders
  apply pushed
  · split
    · obtain ⟨⟨more, fold, isHere, -⟩, -⟩ := absorb_absorbed radiusOf found
        { found.here with toHolder := found.here.push trigger, cause := .change }
      rw [isHere]
      exact isOpen
    · exact isOpen
  · split
    · exact (absorb_absorbed radiusOf found _).2.1
    · exact .refl _

theorem sightMember_pushed (draw : Str) (now : Clock) {member : Focus Member}
    (isOpen : found.here.status.isOpen) (isMember : found.here.attached = member.put member.here)
    (isDevice : member.here.device = device) :
    Pushed device trigger (openHolders (found.put found.here))
      (openHolders (sightMember draw trigger now radiusOf found member).incidents) := by
  have others : ∀ entry : Member, ((member.put entry).map Member.toHolder).Perm
      (entry.toHolder :: member.rest.map Member.toHolder) :=
    fun entry => (member.put_perm entry).map Member.toHolder
  refine .on member.here.toHolder (found.here.toHolder :: member.rest.map Member.toHolder ++
    openHolders found.rest) isDevice ?_ ?_
  · refine (openHolders_put _ _ isOpen).trans ?_
    show (found.here.toHolder :: found.here.attached.map Member.toHolder ++ _).Perm _
    rw [isMember]
    exact (((others member.here).cons _).trans (List.Perm.swap _ _ _)).append_right _
  · unfold sightMember
    dsimp only
    split
    · refine (openHolders_put found { found.here with
        attached := member.put { member.here with toHolder := member.here.push trigger } }
        isOpen).trans ?_
      exact (((others { member.here with toHolder := member.here.push trigger }).cons
        _).trans (List.Perm.swap _ _ _)).append_right _
    · split
      · rename_i watching
        obtain ⟨⟨more, fold, isHere, -⟩, holders, -⟩ := absorb_absorbed radiusOf found
          { found.here with
            toHolder := member.here.push trigger
            cause := .change
            attached := member.rest ++ [⟨found.here.toHolder, none⟩] }
        refine (openHolders_put _ _ (by rw [isHere]; exact isOpen)).trans (holders.trans ?_)
        refine List.Perm.cons _ (List.Perm.append_right _ ?_)
        rw [map_append]
        exact perm_append_comm
      · rw [openHolders_append]
        refine perm_append_comm.trans (List.Perm.cons _ ?_)
        exact openHolders_put _ _ isOpen

/-- **A trigger is pushed on its device's holder**, and every other holder is
kept, wherever it goes. -/
theorem sight_pushed (draw : Str) (now : Clock)
    (taken : (sight draw device trigger now radiusOf incidents).action ≠ .duplicate) :
    Pushed device trigger (openHolders incidents)
      (openHolders (sight draw device trigger now radiusOf incidents).incidents) := by
  unfold sight at taken ⊢
  split
  · rename_i isFree
    apply sightNew_pushed
    intro holder member isDevice
    obtain ⟨inc, isIncident, isOpen, isHolder⟩ := mem_openHolders.mp member
    have holds := holds_iff.mpr ⟨isOpen, holder, isHolder, isDevice⟩
    rw [focus_none.mp isFree inc isIncident] at holds
    cases holds
  · rename_i found isFound
    obtain ⟨isPut, holds⟩ := focus_some isFound
    obtain ⟨isOpen, holder, isHolder, isDevice⟩ := holds_iff.mp holds
    rw [isFound] at taken
    dsimp only at taken ⊢
    split
    · rename_i isKnown
      rw [if_pos isKnown] at taken
      exact absurd rfl taken
    · rw [isPut]
      split
      · rename_i isOwn
        apply sightOwn_pushed isOpen
        unfold Incident.memberAt at isOwn
        split at isOwn
        · assumption
        · rename_i other
          rcases mem_cons.mp isHolder with isHere | attached
          · rw [← isDevice, isHere]
          · obtain ⟨member, isAttached, rfl⟩ := mem_map.mp attached
            have none := focus_none.mp isOwn member isAttached
            exact absurd isDevice (of_decide_eq_false none)
      · rename_i member isMember
        unfold Incident.memberAt at isMember
        split at isMember
        · cases isMember
        · obtain ⟨isAttached, isHere⟩ := focus_some isMember
          exact sightMember_pushed draw now isOpen isAttached (of_decide_eq_true isHere)

end Nmas.Heal
