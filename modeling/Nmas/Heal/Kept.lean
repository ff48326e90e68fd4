import Nmas.Heal.OneIncident

/-!
Contract: what a trigger leaves of everything held before it.

The device's holder takes the trigger, every other holder is as it was, and two
incidents that name each other as related do so while both are open. The ids
drawn are taken to be new to the store.
-/

namespace Nmas.Heal

open Nmas.Text List
open Nmas.Log (Focus focus focus_some exists_right_of_mem exists_left_of_mem)

variable {incidents changed before after : List Incident} {inc : Incident} {device : Str}
  {trigger : Trigger} {radiusOf : Radius} {act : Act}

/-! ### The incidents, in their places -/

structure Grows (draw : Option Str) (before after : List Incident) : Prop where
  grows : ∃ kept added, List.Forall₂ Kept before kept ∧ after = kept ++ added ∧
    (added.map Incident.id).Sublist draw.toList

theorem grows_of_kept {draw : Option Str} (kept : List.Forall₂ Kept before after) :
    Grows draw before after :=
  ⟨after, [], kept, (append_nil after).symm, nil_sublist _⟩

theorem grows_of_added {draw : Str} (kept : List.Forall₂ Kept before after)
    (isDraw : inc.id = draw) : Grows (some draw) before (after ++ [inc]) :=
  ⟨after, [inc], kept, rfl, by simp [isDraw]⟩

theorem kept_self (incidents : List Incident) : List.Forall₂ Kept incidents incidents :=
  List.forall₂_same.mpr (fun inc _ => Kept.refl inc)

theorem kept_of_folded (folded : List.Forall₂ Folded before after) :
    List.Forall₂ Kept before after :=
  folded.imp (fun _ _ => Folded.kept)

theorem absorb_kept (radiusOf : Radius) {found : Focus Incident} (kept : Kept found.here inc) :
    List.Forall₂ Kept found.before (absorb found inc radiusOf).before ∧
      List.Forall₂ Kept found.after (absorb found inc radiusOf).after ∧
      Kept found.here (absorb found inc radiusOf).here := by
  obtain ⟨⟨more, fold, isHere, -⟩, -, foldedBefore, foldedAfter⟩ := absorb_absorbed radiusOf found inc
  refine ⟨kept_of_folded foldedBefore, kept_of_folded foldedAfter, ?_⟩
  rw [isHere]
  exact ⟨kept.id, kept.related, kept.wasOpen⟩

theorem sightOwn_kept {found : Focus Incident} (isOpen : found.here.status.isOpen) :
    List.Forall₂ Kept (found.put found.here) (sightOwn trigger radiusOf found).incidents := by
  unfold sightOwn
  dsimp only
  have resets : ∀ after : Focus Incident, List.Forall₂ Kept found.before after.before →
      List.Forall₂ Kept found.after after.after → Kept found.here after.here →
      List.Forall₂ Kept (found.put found.here)
        (after.put (if trigger.kind.isCause = true ∧ after.here.status = .ready then
          { after.here with status := .watching, settled := none } else after.here)) := by
    intro after keptBefore keptAfter kept
    apply forall₂_put keptBefore keptAfter
    split
    · exact ⟨kept.id, kept.related, fun _ => isOpen⟩
    · exact kept
  split
  · obtain ⟨keptBefore, keptAfter, kept⟩ := absorb_kept radiusOf
      (show Kept found.here { found.here with
        toHolder := found.here.push trigger, cause := .change } from
          ⟨rfl, .refl _, fun isOpen => isOpen⟩)
    exact resets _ keptBefore keptAfter kept
  · exact resets _ (kept_self _) (kept_self _) ⟨rfl, .refl _, fun isOpen => isOpen⟩

theorem sightMember_grows (draw : Str) (now : Clock) {found : Focus Incident}
    (member : Focus Member) :
    Grows (some draw) (found.put found.here)
      (sightMember draw trigger now radiusOf found member).incidents := by
  unfold sightMember
  dsimp only
  split
  · exact grows_of_kept (forall₂_put (kept_self _) (kept_self _)
      ⟨rfl, .refl _, fun isOpen => isOpen⟩)
  · split
    · obtain ⟨keptBefore, keptAfter, kept⟩ := absorb_kept radiusOf
        (show Kept found.here { found.here with
          toHolder := member.here.push trigger
          cause := .change
          attached := member.rest ++ [⟨found.here.toHolder, none⟩] } from
            ⟨rfl, .refl _, fun isOpen => isOpen⟩)
      exact grows_of_kept (forall₂_put keptBefore keptAfter kept)
    · refine grows_of_added (forall₂_put (kept_self _) (kept_self _) ?_) rfl
      exact ⟨rfl, subset_append_left _ _, fun isOpen => isOpen⟩

theorem sight_grows (draw device : Str) (trigger : Trigger) (now : Clock) (radiusOf : Radius)
    (incidents : List Incident) :
    Grows (some draw) incidents (sight draw device trigger now radiusOf incidents).incidents := by
  unfold sight
  split
  · unfold sightNew
    dsimp only
    split
    · obtain ⟨⟨more, fold, isHere, -⟩, -, foldedBefore, foldedAfter⟩ := absorb_absorbed radiusOf
        ⟨incidents, { opening draw device trigger now with
          toHolder := (opening draw device trigger now).push trigger }, []⟩
        { opening draw device trigger now with
          toHolder := (opening draw device trigger now).push trigger }
      unfold Focus.put
      rw [List.forall₂_nil_left_iff.mp foldedAfter]
      exact grows_of_added (kept_of_folded foldedBefore) (by rw [isHere]; rfl)
    · split
      · rename_i found isTarget
        have isPut : incidents = found.put found.here := by
          rcases Option.or_eq_some_iff.mp isTarget with linked | ⟨-, inside⟩
          · exact (focus_some linked).1
          · exact (focus_some inside).1
        conv => arg 2; rw [isPut]
        exact grows_of_kept (forall₂_put (kept_self _) (kept_self _)
          ⟨rfl, .refl _, fun isOpen => isOpen⟩)
      · exact grows_of_added (kept_self _) rfl
  · rename_i found isFound
    split
    · exact grows_of_kept (kept_self _)
    · conv => arg 2; rw [(focus_some isFound).1]
      split
      · obtain ⟨isOpen, -⟩ := holds_iff.mp (focus_some isFound).2
        exact grows_of_kept (sightOwn_kept isOpen)
      · rename_i member isMember
        exact sightMember_grows draw now member

def Act.draw : Act → Option Str
  | .sight draw _ _ _ _ => some draw
  | _ => none

theorem change_grows (ok : act.change incidents = .ok changed) :
    Grows act.draw incidents changed := by
  cases act with
  | sight draw device trigger now radiusOf =>
    cases ok
    exact sight_grows draw device trigger now radiusOf incidents
  | _ =>
    refine grows_of_kept ((change_steady ok ?_).imp (fun inc after steady => steady.toKept))
    intro draw device trigger now radiusOf isSight
    cases isSight

/-! ### Ids drawn once -/

/-- The id an act draws is new to the store. -/
def Fresh (incidents : List Incident) (act : Act) : Prop :=
  ∀ draw ∈ act.draw, draw ∉ incidents.map Incident.id

/-- The stores of the runs whose ids are new when they are drawn. -/
inductive Reached : List Incident → Prop
  | empty : Reached []
  | change {incidents : List Incident} {act : Act} (reached : Reached incidents)
      (fresh : Fresh incidents act) : Reached (mutate incidents act)

instance (incidents : List Incident) (act : Act) : Decidable (Fresh incidents act) :=
  inferInstanceAs (Decidable (∀ draw ∈ act.draw, draw ∉ incidents.map Incident.id))

def FreshAll : List Incident → List Act → Prop
  | _, [] => True
  | incidents, act :: rest => Fresh incidents act ∧ FreshAll (mutate incidents act) rest

instance decidableFreshAll : ∀ incidents acts, Decidable (FreshAll incidents acts)
  | _, [] => isTrue trivial
  | incidents, act :: rest =>
    have := decidableFreshAll (mutate incidents act) rest
    inferInstanceAs (Decidable (_ ∧ _))

theorem reached_run (acts : List Act) (reached : Reached incidents)
    (fresh : FreshAll incidents acts) : Reached (acts.foldl mutate incidents) := by
  induction acts generalizing incidents with
  | nil => exact reached
  | cons act rest ih =>
    exact ih (.change reached fresh.1) fresh.2

theorem kept_ids (kept : List.Forall₂ Kept before after) :
    after.map Incident.id = before.map Incident.id := by
  induction kept with
  | nil => rfl
  | cons keeps _ ih =>
    rw [map_cons, map_cons, keeps.id, ih]

theorem Grows.ids_nodup {draw : Option Str} (grows : Grows draw before after)
    (nodup : (before.map Incident.id).Nodup) (fresh : ∀ id ∈ draw, id ∉ before.map Incident.id) :
    (after.map Incident.id).Nodup := by
  obtain ⟨kept, added, isKept, rfl, drawn⟩ := grows.grows
  rw [map_append, kept_ids isKept]
  refine nodup_append'.mpr ⟨nodup, drawn.nodup (by cases draw <;> simp), ?_⟩
  intro id inBefore inAdded
  exact fresh id (Option.mem_toList.mp (drawn.subset inAdded)) inBefore

theorem ids_nodup (reached : Reached incidents) : (incidents.map Incident.id).Nodup := by
  induction reached with
  | empty => exact nodup_nil
  | change reached fresh nodup =>
    unfold mutate
    split
    · rename_i changed ok
      exact (filter_sublist.map _).nodup ((change_grows ok).ids_nodup nodup fresh)
    · exact nodup

theorem devices_nodup (reached : Reached incidents) : (openDevices incidents).Nodup := by
  induction reached with
  | empty => exact nodup_nil
  | change reached fresh nodup => exact mutate_devices_nodup _ nodup

theorem trim_open (nodup : (incidents.map Incident.id).Nodup) :
    (trim incidents).filter (fun inc => inc.status.isOpen) =
      incidents.filter (fun inc => inc.status.isOpen) := by
  unfold trim
  dsimp only
  rw [filter_filter]
  apply filter_congr
  intro inc member
  by_cases isOpen : inc.status.isOpen = true
  · rw [isOpen, Bool.true_and, Bool.not_eq_true', ← Bool.not_eq_true, contains_iff_mem]
    intro dropped
    obtain ⟨closed, isClosed, sameId⟩ := mem_map.mp dropped
    obtain ⟨closedMember, status⟩ := mem_filter.mp (mem_of_mem_take isClosed)
    rw [inj_on_of_nodup_map nodup closedMember member sameId] at status
    rw [Status.isOpen, of_decide_eq_true status] at isOpen
    cases isOpen
  · rw [Bool.not_eq_true] at isOpen
    rw [isOpen, Bool.false_and]

theorem openHolders_trim (nodup : (incidents.map Incident.id).Nodup) :
    openHolders (trim incidents) = openHolders incidents := by
  unfold openHolders
  rw [trim_open nodup]

/-! ### What is held of a device -/

theorem held_eq_some (nodup : (openDevices incidents).Nodup) {holder : Holder} :
    held incidents device = some holder ↔
      holder ∈ openHolders incidents ∧ holder.device = device := by
  unfold held
  constructor
  · intro isHeld
    exact ⟨mem_of_find?_eq_some isHeld, by simpa using List.find?_some isHeld⟩
  · intro ⟨member, isDevice⟩
    cases isHeld : (openHolders incidents).find? (fun holder => holder.device = device) with
    | none => exact absurd (decide_eq_true isDevice) (List.find?_eq_none.mp isHeld holder member)
    | some other =>
      have otherDevice : other.device = device := by simpa using List.find?_some isHeld
      rw [inj_on_of_nodup_map nodup (mem_of_find?_eq_some isHeld) member
        (otherDevice.trans isDevice.symm)]

theorem held_eq_none :
    held incidents device = none ↔ ∀ holder ∈ openHolders incidents, holder.device ≠ device := by
  unfold held
  rw [List.find?_eq_none]
  simp

theorem Pushed.mem {old new : List Holder} (pushed : Pushed device trigger old new)
    {holder : Holder} (other : holder.device ≠ device) : holder ∈ new ↔ holder ∈ old := by
  cases pushed with
  | on pushedOn others isDevice was is_ =>
    have notPushed : holder ≠ pushedOn.push trigger := fun same => other (same ▸ isDevice)
    have notBefore : holder ≠ pushedOn := fun same => other (same ▸ isDevice)
    rw [was.mem_iff, is_.mem_iff, mem_cons, mem_cons, or_iff_right notPushed,
      or_iff_right notBefore]
  | first free is_ =>
    have notPushed : holder ≠ (blank device).push trigger := fun same => other (same ▸ rfl)
    rw [is_.mem_iff, mem_cons, or_iff_right notPushed]

/-- **A trigger pushed reaches its device's holder and no other.** -/
theorem Pushed.held (nodup : (openDevices before).Nodup)
    (pushed : Pushed device trigger (openHolders before) (openHolders after)) :
    held after device = some (((held before device).getD (blank device)).push trigger) ∧
      ∀ other, other ≠ device → held after other = held before other := by
  have afterNodup : (openDevices after).Nodup := pushed.devices_nodup nodup
  constructor
  · rw [held_eq_some afterNodup]
    cases pushed with
    | on holder others isDevice was is_ =>
      have wasHeld : Heal.held before device = some holder :=
        (held_eq_some nodup).mpr ⟨was.mem_iff.mpr (.head _), isDevice⟩
      rw [wasHeld]
      exact ⟨is_.mem_iff.mpr (.head _), isDevice⟩
    | first free is_ =>
      rw [held_eq_none.mpr free]
      exact ⟨is_.mem_iff.mpr (.head _), rfl⟩
  · intro other isOther
    apply Option.ext
    intro holder
    rw [held_eq_some afterNodup, held_eq_some nodup]
    apply and_congr_left
    intro isHolder
    exact pushed.mem (isHolder.trans_ne isOther)

/-! ### Relations -/

def Names (incidents : List Incident) (one other : Str) : Prop :=
  ∃ inc ∈ incidents, inc.id = one ∧ inc.status.isOpen = true ∧
    ∃ link ∈ inc.related, link.incident = other

def Open (incidents : List Incident) (one : Str) : Prop :=
  ∃ inc ∈ incidents, inc.id = one ∧ inc.status.isOpen = true

theorem Grows.names {draw : Option Str} {one other : Str} (grows : Grows draw before after)
    (nodup : (after.map Incident.id).Nodup) (names : Names before one other)
    (stillOpen : Open after one) : Names after one other := by
  obtain ⟨kept, added, isKept, rfl, -⟩ := grows.grows
  obtain ⟨inc, member, isOne, -, link, isLink, isOther⟩ := names
  obtain ⟨current, currentMember, isCurrent, isOpen⟩ := stillOpen
  obtain ⟨later, laterMember, keeps⟩ := exists_right_of_mem isKept member
  have isLater : current = later :=
    inj_on_of_nodup_map nodup currentMember (mem_append_left added laterMember)
      (isCurrent.trans (isOne.symm.trans keeps.id.symm))
  exact ⟨current, currentMember, isCurrent, isOpen, link, isLater ▸ keeps.related isLink, isOther⟩

theorem open_trim {one : Str} (isOpen : Open (trim incidents) one) : Open incidents one := by
  obtain ⟨inc, member, isOne, status⟩ := isOpen
  exact ⟨inc, (mem_filter.mp member).1, isOne, status⟩

theorem names_trim {one other : Str} (nodup : (incidents.map Incident.id).Nodup)
    (names : Names incidents one other) : Names (trim incidents) one other := by
  obtain ⟨inc, member, isOne, isOpen, link⟩ := names
  have kept : inc ∈ (trim incidents).filter (fun inc => inc.status.isOpen) := by
    rw [trim_open nodup]
    exact mem_filter.mpr ⟨member, isOpen⟩
  exact ⟨inc, (mem_filter.mp kept).1, isOne, isOpen, link⟩

theorem names_mutate {one other : Str} (reached : Reached incidents)
    (fresh : Fresh incidents act) (names : Names incidents one other)
    (stillOpen : Open (mutate incidents act) one) : Names (mutate incidents act) one other := by
  unfold mutate at stillOpen ⊢
  split at stillOpen
  · rename_i changed ok
    have grows := change_grows ok
    have nodup := grows.ids_nodup (ids_nodup reached) fresh
    exact names_trim nodup (grows.names nodup names (open_trim stillOpen))
  · exact names

theorem mutate_sight (draw : Str) (now : Clock) (reached : Reached incidents)
    (fresh : draw ∉ incidents.map Incident.id) :
    openHolders (mutate incidents (.sight draw device trigger now radiusOf)) =
      openHolders (sight draw device trigger now radiusOf incidents).incidents := by
  refine openHolders_trim ((sight_grows draw device trigger now radiusOf
    incidents).ids_nodup (ids_nodup reached) (fun id isDraw => ?_))
  rw [← Option.some.inj isDraw]
  exact fresh

/-- **No trigger is lost in the fold.** A trigger taken is pushed on what is
held of its device, and what is held of every other device stays; two incidents
that name each other go on doing so, whatever the change, while both are
open. -/
theorem triggers_kept (reached : Reached incidents) :
    (∀ draw device trigger now radiusOf, draw ∉ incidents.map Incident.id →
      (sight draw device trigger now radiusOf incidents).action ≠ .duplicate →
        let after := mutate incidents (.sight draw device trigger now radiusOf)
        held after device = some (((held incidents device).getD (blank device)).push trigger) ∧
          ∀ other, other ≠ device → held after other = held incidents other) ∧
      ∀ act one other, Fresh incidents act → Names incidents one other →
        Names incidents other one →
          let after := mutate incidents act
          Open after one → Open after other → Names after one other ∧ Names after other one := by
  constructor
  · intro draw device trigger now radiusOf fresh taken
    have pushed := sight_pushed draw now taken
    rw [← mutate_sight draw now reached fresh] at pushed
    exact pushed.held (devices_nodup reached)
  · intro act one other fresh names back after oneOpen otherOpen
    exact ⟨names_mutate reached fresh names oneOpen, names_mutate reached fresh back otherOpen⟩

namespace TwoChanged

def alert (key : Str) (related : List Str) : Trigger := ⟨.alert, some key, 10, none, related⟩

def edited (key : Str) : Trigger := ⟨.configChange, some key, 20, some .outside, []⟩

def noRadius : Radius := fun _ => none

/-- A change on r2, a symptom on r1 whose link names it, a change on r1. -/
def acts : List Act :=
  [.sight "hi-1".ascii "r2".ascii (edited "k1".ascii) 20 noRadius,
    .sight "hi-2".ascii "r1".ascii (alert "k2".ascii ["r2".ascii]) 30 noRadius,
    .sight "hi-2".ascii "r1".ascii (edited "k3".ascii) 40 noRadius]

def again : Act := .sight "hi-3".ascii "r2".ascii (alert "k4".ascii []) 50 noRadius

theorem reached : Reached (run acts) := reached_run acts .empty (by decide +kernel)

end TwoChanged

open TwoChanged in
/-- An alert on r2 leaves what is held of r1, and the two changes related. -/
theorem two_changes_kept :
    held (mutate (run acts) again) "r1".ascii = held (run acts) "r1".ascii ∧
      Names (mutate (run acts) again) "hi-1".ascii "hi-2".ascii ∧
      Names (mutate (run acts) again) "hi-2".ascii "hi-1".ascii := by
  obtain ⟨keeps, related⟩ := triggers_kept reached
  refine ⟨(keeps _ _ _ _ _ (by decide +kernel) (by decide +kernel)).2 "r1".ascii
    (by decide +kernel), ?_⟩
  unfold Names Open at *
  exact related again _ _ (by decide +kernel) (by decide +kernel) (by decide +kernel)
    (by decide +kernel) (by decide +kernel)

/-! ### Open for one stretch -/

theorem open_mutate {id : Str} (isOpen : Open (mutate incidents act) id) :
    Open incidents id ∨ act.draw = some id := by
  unfold mutate at isOpen
  split at isOpen
  · rename_i changed ok
    obtain ⟨kept, added, isKept, rfl, drawn⟩ := (change_grows ok).grows
    obtain ⟨inc, member, rfl, status⟩ := open_trim isOpen
    rcases mem_append.mp member with isOld | isAdded
    · obtain ⟨old, wasHeld, keeps⟩ := exists_left_of_mem isKept isOld
      exact .inl ⟨old, wasHeld, keeps.id.symm, keeps.wasOpen status⟩
    · exact .inr (Option.mem_toList.mp (drawn.subset (mem_map_of_mem isAdded)))
  · exact .inl isOpen

theorem open_drawn {id : Str} {acts : List Act} (isOpen : Open (acts.foldl mutate incidents) id) :
    Open incidents id ∨ id ∈ acts.filterMap Act.draw := by
  induction acts using reverseRecOn with
  | nil => exact .inl isOpen
  | append_singleton acts act ih =>
    rw [foldl_append] at isOpen
    rw [filterMap_append, mem_append]
    rcases open_mutate isOpen with before | drawn
    · exact (ih before).imp_right .inl
    · exact .inr (.inr (mem_filterMap.mpr ⟨act, .head _, drawn⟩))

/-- **An incident is open for one stretch.** In every run that draws no id twice, one
that was open and is not is never open again, whatever the triggers, merges and trims. -/
theorem open_once {first then_ later : List Act} {id : Str}
    (distinct : ((first ++ then_ ++ later).filterMap Act.draw).Nodup)
    (wasOpen : Open (run first) id) (notOpen : ¬ Open (run (first ++ then_)) id) :
    ¬ Open (run (first ++ then_ ++ later)) id := by
  intro isOpen
  unfold run at wasOpen notOpen isOpen
  rw [foldl_append] at isOpen
  have isDrawn := (open_drawn wasOpen).resolve_left fun ⟨inc, member, _⟩ => by cases member
  have isAgain := (open_drawn isOpen).resolve_left notOpen
  rw [append_assoc, filterMap_append, filterMap_append] at distinct
  exact (nodup_append'.mp distinct).2.2 isDrawn (mem_append_right _ isAgain)

open TwoChanged in
/-- An incident on r2 is closed, and the next trigger opens another. -/
theorem closed_once :
    let first := [Act.sight "hi-1".ascii "r2".ascii (edited "k1".ascii) 20 noRadius]
    ¬ Open (run (first ++ [Act.close "hi-1".ascii "fixed".ascii] ++
      [.sight "hi-2".ascii "r2".ascii (edited "k2".ascii) 30 noRadius])) "hi-1".ascii := by
  refine open_once (by decide) ?_ ?_ <;> unfold Open <;> decide +kernel

end Nmas.Heal
