import Mathlib.Data.List.Flatten
import Nmas.Heal.Holders

/-!
Contract: the incidents of every run of changes.

Every change keeps each incident in its place and adds at most one, under the id
it drew; only `sight` moves a holder. So a device has one open incident, and two
incidents that name each other do so while both are open.
-/

namespace Nmas.Heal

open Nmas.Text List
open Nmas.Log (Focus focus focus_some focus_none)

/-- The devices the open incidents hold, each as often as it is held. -/
def openDevices (incidents : List Incident) : List Str := (openHolders incidents).map Holder.device

variable {incidents changed before after rest : List Incident} {inc other : Incident}
  {device : Str} {trigger : Trigger} {radiusOf : Radius} {found : Focus Incident}

theorem openDevices_sublist (sublist : after.Sublist before) :
    (openDevices after).Sublist (openDevices before) :=
  ((sublist.filter _).flatMap _).map _

theorem Pushed.devices_nodup {old new : List Holder} (pushed : Pushed device trigger old new)
    (nodup : (old.map Holder.device).Nodup) : (new.map Holder.device).Nodup := by
  cases pushed with
  | on holder others isDevice was is_ =>
    rw [(is_.map Holder.device).nodup_iff]
    rw [(was.map Holder.device).nodup_iff] at nodup
    exact nodup
  | first free is_ =>
    rw [(is_.map Holder.device).nodup_iff]
    refine nodup_cons.mpr ⟨fun again => ?_, nodup⟩
    obtain ⟨holder, member, isDevice⟩ := mem_map.mp again
    exact free holder member isDevice

theorem sight_duplicate {draw : Str} {now : Clock}
    (isDuplicate : (sight draw device trigger now radiusOf incidents).action = .duplicate) :
    (sight draw device trigger now radiusOf incidents).incidents = incidents := by
  unfold sight at isDuplicate ⊢
  split at isDuplicate
  · unfold sightNew at isDuplicate
    dsimp only at isDuplicate
    split at isDuplicate
    · cases isDuplicate
    · split at isDuplicate <;> cases isDuplicate
  · split at isDuplicate
    · rename_i isKnown
      rw [if_pos isKnown]
    · split at isDuplicate
      · cases isDuplicate
      · unfold sightMember at isDuplicate
        dsimp only at isDuplicate
        split at isDuplicate
        · cases isDuplicate
        · split at isDuplicate <;> cases isDuplicate

/-! ### The other changes -/

structure Steady (before after : Incident) : Prop extends Kept before after where
  cause : after.cause = before.cause
  devices : after.holders.map Holder.device = before.holders.map Holder.device
  triggers : after.holders.map Holder.triggers = before.holders.map Holder.triggers

theorem Steady.refl (inc : Incident) : Steady inc inc := ⟨Kept.refl inc, rfl, rfl, rfl⟩

theorem steady_self (incidents : List Incident) : List.Forall₂ Steady incidents incidents :=
  List.forall₂_same.mpr (fun inc _ => Steady.refl inc)

theorem forall₂_put {Keeps : Incident → Incident → Prop} {other : Focus Incident}
    (keepsBefore : List.Forall₂ Keeps found.before other.before)
    (keepsAfter : List.Forall₂ Keeps found.after other.after) (keeps : Keeps found.here inc) :
    List.Forall₂ Keeps (found.put found.here) (other.put inc) :=
  rel_append keepsBefore (.cons keeps keepsAfter)

theorem changeOne_steady {id : Str} {change : Incident → Except Refused Incident}
    (steady : ∀ inc after, change inc = .ok after → Steady inc after)
    (ok : changeOne id change incidents = .ok changed) : List.Forall₂ Steady incidents changed := by
  unfold changeOne at ok
  split at ok
  · rename_i found isFound
    rw [(focus_some isFound).1]
    cases isChanged : change found.here with
    | error refused =>
      rw [isChanged] at ok
      cases ok
    | ok after =>
      rw [isChanged] at ok
      cases ok
      apply forall₂_put
      · exact steady_self _
      · exact steady_self _
      · exact steady _ _ isChanged
  · cases ok

theorem recordRead_steady {id : Str} {read : Read}
    (ok : recordRead id device read incidents = .ok changed) :
    List.Forall₂ Steady incidents changed := by
  refine changeOne_steady (fun inc after isChanged => ?_) ok
  split at isChanged
  · cases isChanged
    exact ⟨⟨rfl, .refl _, fun isOpen => isOpen⟩, rfl, rfl, rfl⟩
  · split at isChanged
    · rename_i member isMember
      cases isChanged
      unfold Incident.memberAt at isMember
      split at isMember
      · cases isMember
      · have isAttached := (focus_some isMember).1
        refine ⟨⟨rfl, .refl _, fun isOpen => isOpen⟩, rfl, ?_, ?_⟩
        · simp [Incident.holders, isAttached, Focus.put, Holder.keep]
        · simp [Incident.holders, isAttached, Focus.put, Holder.keep]
    · cases isChanged

theorem steady_of_status {after : Incident} (id : after.id = inc.id)
    (related : after.related = inc.related) (wasOpen : inc.status.isOpen)
    (cause : after.cause = inc.cause) (holders : after.holders = inc.holders) : Steady inc after :=
  ⟨⟨id, related ▸ .refl _, fun _ => wasOpen⟩, cause, by rw [holders], by rw [holders]⟩

theorem settle_steady {id : Str} {judged : Grace.Judged}
    (ok : settle id judged incidents = .ok changed) : List.Forall₂ Steady incidents changed := by
  unfold settle at ok
  split at ok
  · refine changeOne_steady (fun inc after isChanged => ?_) ok
    split at isChanged
    · cases isChanged
    · rename_i watching
      cases isChanged
      refine steady_of_status rfl rfl ?_ rfl rfl
      rw [not_not.mp watching]
      rfl
  · cases ok

theorem claim_steady {id by_ : Str} (ok : claim id by_ incidents = .ok changed) :
    List.Forall₂ Steady incidents changed := by
  refine changeOne_steady (fun inc after isChanged => ?_) ok
  split at isChanged
  · cases isChanged
  · rename_i ready
    cases isChanged
    refine steady_of_status rfl rfl ?_ rfl rfl
    rw [not_not.mp ready]
    rfl

theorem defer_steady {id why : Str} {until_ : Clock}
    (ok : defer id until_ why incidents = .ok changed) : List.Forall₂ Steady incidents changed := by
  unfold defer at ok
  split at ok
  · cases ok
  · refine changeOne_steady (fun inc after isChanged => ?_) ok
    split at isChanged
    · cases isChanged
    · rename_i taken
      cases isChanged
      refine steady_of_status rfl rfl ?_ rfl rfl
      rw [not_and_or, not_not, not_not] at taken
      rcases taken with claimed | ready
      · rw [claimed]
        rfl
      · rw [ready]
        rfl

theorem steady_closed : Steady inc { inc with status := .closed } :=
  ⟨⟨rfl, .refl _, nofun⟩, rfl, rfl, rfl⟩

theorem close_steady {id why : Str} (ok : close id why incidents = .ok changed) :
    List.Forall₂ Steady incidents changed := by
  unfold close at ok
  split at ok
  · cases ok
  · refine changeOne_steady (fun inc after isChanged => ?_) ok
    cases isChanged
    exact steady_closed

theorem closeWatching_steady : List.Forall₂ Steady incidents (closeWatching incidents) := by
  unfold closeWatching
  rw [List.forall₂_map_right_iff]
  refine List.forall₂_same.mpr (fun inc _ => ?_)
  split
  · exact steady_closed
  · exact Steady.refl inc

/-- **Every change but `sight` leaves each incident its devices.** -/
theorem change_steady {act : Act} (ok : act.change incidents = .ok changed)
    (other : ∀ draw device trigger now radiusOf, act ≠ .sight draw device trigger now radiusOf) :
    List.Forall₂ Steady incidents changed := by
  cases act with
  | sight draw device trigger now radiusOf => exact absurd rfl (other _ _ _ _ _)
  | recordRead id device read => exact recordRead_steady ok
  | settle id judged => exact settle_steady ok
  | claim id by_ => exact claim_steady ok
  | defer id until_ why => exact defer_steady ok
  | close id why => exact close_steady ok
  | closeWatching =>
    cases ok
    exact closeWatching_steady

theorem devices_sublist (steady : List.Forall₂ Steady before after) :
    (openDevices after).Sublist (openDevices before) := by
  induction steady with
  | nil => exact .refl _
  | @cons inc other before after steady _ ih =>
    unfold openDevices at ih ⊢
    by_cases stillOpen : other.status.isOpen = true
    · rw [openHolders_open stillOpen, openHolders_open (steady.wasOpen stillOpen),
        map_append, map_append, steady.devices]
      exact (List.Sublist.refl _).append ih
    · rw [openHolders_closed (Bool.not_eq_true _ ▸ stillOpen)]
      exact ih.trans (openDevices_sublist (sublist_cons_self inc before))

/-! ### One open incident per device -/

theorem change_devices_nodup {act : Act} (ok : act.change incidents = .ok changed)
    (nodup : (openDevices incidents).Nodup) : (openDevices changed).Nodup := by
  cases act with
  | sight draw device trigger now radiusOf =>
    cases ok
    by_cases taken : (sight draw device trigger now radiusOf incidents).action = .duplicate
    · rw [sight_duplicate taken]
      exact nodup
    · exact (sight_pushed draw now taken).devices_nodup nodup
  | _ =>
    refine (devices_sublist (change_steady ok ?_)).nodup nodup
    intro draw device trigger now radiusOf isSight
    cases isSight

theorem mutate_devices_nodup (act : Act) (nodup : (openDevices incidents).Nodup) :
    (openDevices (mutate incidents act)).Nodup := by
  unfold mutate
  split
  · rename_i changed ok
    have changedNodup := change_devices_nodup ok nodup
    exact (openDevices_sublist filter_sublist).nodup changedNodup
  · exact nodup

/-- **One open incident per device**: whatever the run, the open incidents hold
no device twice, as their own or attached. -/
theorem device_held_once (acts : List Act) : (openDevices (run acts)).Nodup := by
  refine List.foldlRecOn (motive := fun incidents => (openDevices incidents).Nodup) acts mutate
    List.nodup_nil ?_
  intro incidents nodup act _
  exact mutate_devices_nodup act nodup

end Nmas.Heal
