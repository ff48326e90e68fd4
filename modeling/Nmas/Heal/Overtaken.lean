import Nmas.Heal.Kept
import Nmas.Heal.Detect

/-!
Contract: what an incident holds when a detect pass settles it.

A pass judges an incident as it read it and settles it later, asking only that
it is still watching. The reads judged stand after every outside change the pass
saw; a change sighted since is not asked about.
-/

namespace Nmas.Heal

open Nmas.Text List
open Nmas.Log (Focus focus focus_some exists_left_of_mem)

variable {incidents changed : List Incident} {inc other later : Incident} {device : Str}
  {trigger one : Trigger} {radiusOf : Radius} {found : Focus Incident}

/-! ### Symptoms alone -/

structure Symptomatic (inc : Incident) : Prop where
  own : inc.cause = .symptom → ∀ trigger ∈ inc.triggers, trigger.kind.isCause = false
  attached : ∀ member ∈ inc.attached, ∀ trigger ∈ member.triggers, trigger.kind.isCause = false

theorem mem_push {holder : Holder} (member : one ∈ (holder.push trigger).triggers) :
    one ∈ holder.triggers ∨ one = trigger := by
  have isPushed : one ∈ holder.triggers ++ [trigger] := mem_of_mem_drop member
  exact (mem_append.mp isPushed).imp_right mem_singleton.mp

theorem Folded.symptomatic (folded : Folded inc other) (symptomatic : Symptomatic inc) :
    Symptomatic other := by
  rcases folded with same | ⟨into, _, isClosed⟩
  · exact same ▸ symptomatic
  · rw [isClosed]
    exact ⟨symptomatic.own, symptomatic.attached⟩

theorem CameFrom.symptoms {others : List Incident} {member : Member}
    (came : CameFrom others member) (symptomatic : ∀ other ∈ others, Symptomatic other) :
    ∀ trigger ∈ member.triggers, trigger.kind.isCause = false := by
  obtain ⟨other, isOther, ⟨symptom, rfl⟩ | isAttached⟩ := came
  · exact (symptomatic other isOther).own symptom
  · exact (symptomatic other isOther).attached member isAttached

theorem absorb_symptomatic (radiusOf : Radius)
    (symptomatic : ∀ other ∈ found.rest, Symptomatic other)
    (own : Symptomatic inc) : Symptomatic (absorb found inc radiusOf).here := by
  obtain ⟨⟨more, fold, isHere, came⟩, -⟩ := absorb_absorbed radiusOf found inc
  rw [isHere]
  refine ⟨own.own, fun member isMember => ?_⟩
  rcases mem_append.mp isMember with before | isMore
  · exact own.attached member before
  · exact (came member isMore).symptoms symptomatic

theorem absorb_mem (member : later ∈ (absorb found inc radiusOf).put other) :
    later = other ∨ ∃ before ∈ found.rest, Folded before later := by
  obtain ⟨-, -, foldedBefore, foldedAfter⟩ := absorb_absorbed radiusOf found inc
  refine (Focus.mem_put.mp member).imp_right (fun inRest => ?_)
  rcases mem_append.mp inRest with inBefore | inAfter
  · obtain ⟨before, isBefore, folded⟩ := exists_left_of_mem foldedBefore inBefore
    exact ⟨before, mem_append_left _ isBefore, folded⟩
  · obtain ⟨before, isBefore, folded⟩ := exists_left_of_mem foldedAfter inAfter
    exact ⟨before, mem_append_right _ isBefore, folded⟩

/-! ### Where an outside change can come from -/

theorem not_outside (symptom : one.kind.isCause = false) : one.outside = false := by
  unfold Trigger.outside
  have other : one.kind ≠ .configChange := fun isChange => by
    rw [isChange] at symptom
    cases symptom
  exact decide_eq_false (fun outside => other outside.1)

/-- An incident after a trigger was sighted: an outside change on it was there
before, or is the one sighted, into this incident. -/
structure Traced (incidents : List Incident) (trigger : Trigger) (into : Str)
    (later : Incident) : Prop extends Symptomatic later where
  outside : ∀ one ∈ later.triggers, one.outside = true →
    (∃ inc ∈ incidents, inc.id = later.id ∧ one ∈ inc.triggers) ∨ (one = trigger ∧ later.id = into)

variable {into : Str}

theorem traced_same (member : inc ∈ incidents) (id : later.id = inc.id)
    (triggers : later.triggers = inc.triggers) (symptomatic : Symptomatic later) :
    Traced incidents trigger into later where
  toSymptomatic := symptomatic
  outside _ isOne _ := .inl ⟨inc, member, id.symm, triggers ▸ isOne⟩

theorem traced_folded (member : inc ∈ incidents) (folded : Folded inc later)
    (symptomatic : Symptomatic inc) : Traced incidents trigger into later := by
  apply traced_same member folded.kept.id ?_ (folded.symptomatic symptomatic)
  rcases folded with same | ⟨_, _, isClosed⟩
  · rw [same]
  · rw [isClosed]

theorem traced_pushed {holder : Holder} (id : later.id = into)
    (triggers : later.triggers = (holder.push trigger).triggers) (symptomatic : Symptomatic later)
    (before : ∀ one ∈ holder.triggers, one.outside →
      ∃ inc ∈ incidents, inc.id = later.id ∧ one ∈ inc.triggers) :
    Traced incidents trigger into later where
  toSymptomatic := symptomatic
  outside one isOne isOutside := by
    rw [triggers] at isOne
    exact (mem_push isOne).imp (fun inHolder => before one inHolder isOutside)
      (fun isTrigger => ⟨isTrigger, id⟩)

theorem symptomatic_opening {draw : Str} {now : Clock} {holder : Holder}
    (change : trigger.kind.isCause = false →
      ∀ one ∈ holder.triggers, one.kind.isCause = false) (fold : Fold) (related : List Related) :
    Symptomatic { opening draw device trigger now with
      toHolder := holder, fold := fold, related := related } where
  own symptom := by
    apply change
    by_contra isCause
    rw [Bool.not_eq_false] at isCause
    simp [opening, isCause] at symptom
  attached member isMember := by cases isMember

theorem sightNew_traced {draw : Str} {now : Clock}
    (symptomatic : ∀ inc ∈ incidents, Symptomatic inc)
    (member : later ∈ (sightNew draw device trigger now radiusOf incidents).incidents) :
    Traced incidents trigger
      (sightNew draw device trigger now radiusOf incidents).incident later := by
  have own : ∀ fold, Symptomatic { opening draw device trigger now with
      toHolder := (opening draw device trigger now).push trigger, fold := fold } := by
    intro fold
    refine symptomatic_opening (fun symptom one isOne => ?_) fold []
    rcases mem_push isOne with none | isTrigger
    · cases none
    · rw [isTrigger]
      exact symptom
  have nothing : ∀ one ∈ (opening draw device trigger now).triggers, one.outside →
      ∃ inc ∈ incidents, inc.id = draw ∧ one ∈ inc.triggers := by
    intro one isOne
    cases isOne
  unfold sightNew at member ⊢
  dsimp only at member ⊢
  split at member
  · rename_i isCause
    rw [if_pos isCause]
    have rest : ∀ other ∈ incidents ++ [], Symptomatic other := by
      rw [append_nil]
      exact symptomatic
    rcases absorb_mem member with isHere | ⟨before, isBefore, folded⟩
    · obtain ⟨⟨more, fold, isAbsorbed, -⟩, -⟩ := absorb_absorbed radiusOf
        ⟨incidents, { opening draw device trigger now with
          toHolder := (opening draw device trigger now).push trigger }, []⟩
        { opening draw device trigger now with
          toHolder := (opening draw device trigger now).push trigger }
      have absorbed : Symptomatic later := isHere ▸ absorb_symptomatic _ rest (own .none)
      rw [isAbsorbed] at isHere
      refine traced_pushed (by rw [isHere]; rfl) (by rw [isHere]) absorbed ?_
      rw [isHere]
      exact nothing
    · have isIncident : before ∈ incidents := by
        rw [← append_nil incidents]
        exact isBefore
      exact traced_folded isIncident folded (symptomatic before isIncident)
  · rename_i symptom
    rw [if_neg symptom]
    split at member
    · rename_i target isTarget
      have isPut : incidents = target.put target.here := by
        rcases Option.or_eq_some_iff.mp isTarget with linked | ⟨-, inside⟩
        · exact (focus_some linked).1
        · exact (focus_some inside).1
      have isHere : target.here ∈ incidents := by
        rw [isPut]
        exact Focus.mem_put.mpr (.inl rfl)
      rcases Focus.mem_put.mp member with isChanged | inRest
      · refine traced_same isHere (by rw [isChanged]) (by rw [isChanged]) ?_
        rw [isChanged]
        refine ⟨(symptomatic _ isHere).own, fun one isOne => ?_⟩
        rcases mem_append.mp isOne with before | isNew
        · exact (symptomatic _ isHere).attached one before
        · rw [mem_singleton.mp isNew]
          intro only isOnly
          rw [mem_singleton.mp isOnly]
          exact Bool.not_eq_true _ ▸ symptom
      · have isIncident : later ∈ incidents := by
          rw [isPut]
          exact Focus.mem_put.mpr (.inr inRest)
        exact traced_same isIncident rfl rfl (symptomatic later isIncident)
    · rcases mem_append.mp member with isIncident | isNew
      · exact traced_same isIncident rfl rfl (symptomatic later isIncident)
      · rw [mem_singleton.mp isNew]
        exact traced_pushed rfl rfl (own .notFolded) nothing

theorem sightOwn_traced (isPut : incidents = found.put found.here)
    (symptomatic : ∀ inc ∈ incidents, Symptomatic inc)
    (member : later ∈ (sightOwn trigger radiusOf found).incidents) :
    Traced incidents trigger found.here.id later := by
  have isHere : found.here ∈ incidents := by
    rw [isPut]
    exact Focus.mem_put.mpr (.inl rfl)
  have inRest : ∀ other ∈ found.rest, other ∈ incidents := by
    intro other isOther
    rw [isPut]
    exact Focus.mem_put.mpr (.inr isOther)
  have before : ∀ one ∈ found.here.triggers, one.outside →
      ∃ inc ∈ incidents, inc.id = found.here.id ∧ one ∈ inc.triggers :=
    fun one isOne _ => ⟨found.here, isHere, rfl, isOne⟩
  have resets : ∀ (after : Incident) (reset : Prop) [Decidable reset], after.id = found.here.id →
      after.triggers = (found.here.push trigger).triggers → Symptomatic after →
      Traced incidents trigger found.here.id
        (if reset then { after with status := .watching, settled := none } else after) := by
    intro after reset _ id triggers own
    split
    · exact traced_pushed id triggers ⟨own.own, own.attached⟩ (id ▸ before)
    · exact traced_pushed id triggers own (id ▸ before)
  unfold sightOwn at member
  dsimp only at member
  split at member
  · obtain ⟨⟨more, fold, isAbsorbed, -⟩, -⟩ := absorb_absorbed radiusOf found
      { found.here with toHolder := found.here.push trigger, cause := .change }
    have own : Symptomatic { found.here with
        toHolder := found.here.push trigger, cause := .change } :=
      ⟨(fun change => nomatch change), (symptomatic _ isHere).attached⟩
    have absorbed := absorb_symptomatic radiusOf
      (fun other isOther => symptomatic other (inRest other isOther)) own
    rcases absorb_mem member with isLater | ⟨prior, isPrior, folded⟩
    · rw [isLater]
      exact resets _ _ (by rw [isAbsorbed]) (by rw [isAbsorbed]) absorbed
    · exact traced_folded (inRest prior isPrior) folded (symptomatic prior (inRest prior isPrior))
  · rename_i keepsCause
    rcases Focus.mem_put.mp member with isLater | inOthers
    · rw [isLater]
      refine resets _ _ rfl rfl ⟨fun symptom one isOne => ?_, (symptomatic _ isHere).attached⟩
      rcases mem_push isOne with held | isTrigger
      · exact (symptomatic _ isHere).own symptom one held
      · rw [isTrigger, ← Bool.not_eq_true]
        intro isCause
        refine keepsCause ⟨isCause, fun change => ?_⟩
        have isSymptom : found.here.cause = .symptom := symptom
        rw [change] at isSymptom
        cases isSymptom
    · exact traced_same (inRest later inOthers) rfl rfl (symptomatic later (inRest later inOthers))

theorem sightMember_traced {draw : Str} {now : Clock} {at_ : Focus Member}
    (isPut : incidents = found.put found.here) (isAttached : found.here.attached = at_.put at_.here)
    (symptomatic : ∀ inc ∈ incidents, Symptomatic inc)
    (member : later ∈ (sightMember draw trigger now radiusOf found at_).incidents) :
    Traced incidents trigger (sightMember draw trigger now radiusOf found at_).incident later := by
  have isHere : found.here ∈ incidents := by
    rw [isPut]
    exact Focus.mem_put.mpr (.inl rfl)
  have inRest : ∀ other ∈ found.rest, other ∈ incidents := by
    intro other isOther
    rw [isPut]
    exact Focus.mem_put.mpr (.inr isOther)
  have attached := (symptomatic _ isHere).attached
  rw [isAttached] at attached
  have symptoms := attached at_.here (Focus.mem_put.mpr (.inl rfl))
  have others : ∀ other ∈ at_.rest, ∀ one ∈ other.triggers, one.kind.isCause = false :=
    fun other isOther => attached other (Focus.mem_put.mpr (.inr isOther))
  have noneOutside : ∀ id, ∀ one ∈ at_.here.triggers, one.outside →
      ∃ inc ∈ incidents, inc.id = id ∧ one ∈ inc.triggers := by
    intro id one isOne isOutside
    rw [not_outside (symptoms one isOne)] at isOutside
    cases isOutside
  unfold sightMember at member ⊢
  dsimp only at member ⊢
  split at member
  · rename_i symptom
    rw [if_pos symptom]
    rcases Focus.mem_put.mp member with isLater | inOthers
    · refine traced_same isHere (by rw [isLater]) (by rw [isLater]) ?_
      rw [isLater]
      refine ⟨(symptomatic _ isHere).own, fun other isOther => ?_⟩
      rcases Focus.mem_put.mp isOther with isPushed | inRest
      · rw [isPushed]
        intro one isOne
        rcases mem_push isOne with held | isTrigger
        · exact symptoms one held
        · rw [isTrigger, ← Bool.not_eq_true]
          exact symptom
      · exact others other inRest
    · exact traced_same (inRest later inOthers) rfl rfl (symptomatic later (inRest later inOthers))
  · rename_i isCause
    rw [if_neg isCause]
    split at member
    · rename_i promotes
      rw [if_pos promotes]
      have own : Symptomatic { found.here with
          toHolder := at_.here.push trigger
          cause := .change
          attached := at_.rest ++ [⟨found.here.toHolder, none⟩] } := by
        refine ⟨(fun change => nomatch change), fun other isOther => ?_⟩
        rcases mem_append.mp isOther with inRest | isOld
        · exact others other inRest
        · rw [mem_singleton.mp isOld]
          apply (symptomatic _ isHere).own
          cases isSymptom : found.here.cause with
          | change => exact absurd isSymptom promotes.1
          | symptom => rfl
      have absorbed := absorb_symptomatic radiusOf
        (fun other isOther => symptomatic other (inRest other isOther)) own
      obtain ⟨⟨more, fold, isAbsorbed, -⟩, -⟩ := absorb_absorbed radiusOf found { found.here with
        toHolder := at_.here.push trigger
        cause := .change
        attached := at_.rest ++ [⟨found.here.toHolder, none⟩] }
      rcases absorb_mem member with isLater | ⟨prior, isPrior, folded⟩
      · rw [isLater]
        exact traced_pushed (by rw [isAbsorbed]) (by rw [isAbsorbed]) absorbed (noneOutside _)
      · exact traced_folded (inRest prior isPrior) folded (symptomatic prior (inRest prior isPrior))
    · rename_i moves
      rw [if_neg moves]
      rcases mem_append.mp member with inOld | isNew
      · rcases Focus.mem_put.mp inOld with isLeft | inOthers
        · refine traced_same isHere (by rw [isLeft]) (by rw [isLeft]) ?_
          rw [isLeft]
          exact ⟨(symptomatic _ isHere).own, others⟩
        · exact traced_same (inRest later inOthers) rfl rfl
            (symptomatic later (inRest later inOthers))
      · rw [mem_singleton.mp isNew]
        refine traced_pushed rfl rfl (symptomatic_opening (fun symptom => ?_) _ _) (noneOutside _)
        exact absurd (Bool.not_eq_true _ ▸ symptom) isCause

/-- **Where an outside change comes from**: after a sighting, an incident's
outside changes are those it had, and the one sighted if it is the incident that
takes it. -/
theorem sight_traced {draw : Str} {now : Clock} (symptomatic : ∀ inc ∈ incidents, Symptomatic inc)
    (member : later ∈ (sight draw device trigger now radiusOf incidents).incidents) :
    Symptomatic later ∧ ∀ one ∈ later.triggers, one.outside →
      (∃ inc ∈ incidents, inc.id = later.id ∧ one ∈ inc.triggers) ∨
        (sight draw device trigger now radiusOf incidents).action ≠ .duplicate ∧
          one = trigger ∧ later.id = (sight draw device trigger now radiusOf incidents).incident := by
  by_cases isDuplicate : (sight draw device trigger now radiusOf incidents).action = .duplicate
  · rw [sight_duplicate isDuplicate] at member
    exact ⟨symptomatic later member, fun one isOne _ => .inl ⟨later, member, rfl, isOne⟩⟩
  · suffices traced : Traced incidents trigger
        (sight draw device trigger now radiusOf incidents).incident later from
      ⟨traced.toSymptomatic, fun one isOne isOutside =>
        (traced.outside one isOne isOutside).imp_right (fun is_ => ⟨isDuplicate, is_⟩)⟩
    unfold sight at member isDuplicate ⊢
    split at member
    · exact sightNew_traced symptomatic member
    · rename_i found isFound
      rw [isFound] at isDuplicate
      dsimp only at isDuplicate ⊢
      split at member
      · rename_i isKnown
        rw [if_pos isKnown] at isDuplicate
        exact absurd rfl isDuplicate
      · rename_i notKnown
        rw [if_neg notKnown]
        have isPut := (focus_some isFound).1
        split at member
        · exact sightOwn_traced isPut symptomatic member
        · rename_i at_ isMember
          unfold Incident.memberAt at isMember
          split at isMember
          · cases isMember
          · exact sightMember_traced isPut (focus_some isMember).1 symptomatic member

end Nmas.Heal
