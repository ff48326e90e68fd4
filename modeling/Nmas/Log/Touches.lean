import Mathlib.Data.List.Nodup
import Mathlib.Logic.Function.Basic

/-!
Contract: what a run of writes leaves under its keys, read once all are done.

Owns: the values a list of touches leaves, and when every touch finds its own
value there at the end.

A touch that changes nothing is not one: `EachChanges` says that each finds
another value under its key than the one it writes. Read at the end, then, no
two of them can have had the same key.
-/

namespace Nmas.Log

open Function List

structure Touch (Key Value : Type) where
  key : Key
  value : Value

variable {Key Value : Type} [DecidableEq Key]

/-- What stands under each key after the touches, in their order. -/
def leaves (stood : Key → Value) : List (Touch Key Value) → Key → Value
  | [] => stood
  | touch :: rest => leaves (update stood touch.key touch.value) rest

def EachFinds (finds : Touch Key Value → Value → Prop) (stood : Key → Value) :
    List (Touch Key Value) → Prop
  | [] => True
  | touch :: rest =>
    finds touch (stood touch.key) ∧ EachFinds finds (update stood touch.key touch.value) rest

abbrev EachChanges (stood : Key → Value) (touches : List (Touch Key Value)) : Prop :=
  EachFinds (fun touch found => found ≠ touch.value) stood touches

theorem leaves_untouched {touches : List (Touch Key Value)} {key : Key} (stood : Key → Value)
    (untouched : key ∉ touches.map Touch.key) : leaves stood touches key = stood key := by
  induction touches generalizing stood with
  | nil => rfl
  | cons touch rest ih =>
    rw [map_cons, mem_cons, not_or] at untouched
    rw [leaves, ih _ untouched.2]
    exact update_of_ne untouched.1 _ _

theorem leaves_of_nodup {touches : List (Touch Key Value)} (stood : Key → Value)
    (distinct : (touches.map Touch.key).Nodup) :
    ∀ touch ∈ touches, leaves stood touches touch.key = touch.value := by
  induction touches generalizing stood with
  | nil =>
    intro touch member
    cases member
  | cons first rest ih =>
    rw [map_cons, nodup_cons] at distinct
    intro touch member
    rcases mem_cons.mp member with rfl | later
    · rw [leaves, leaves_untouched _ distinct.1]
      exact update_self _ _ _
    · exact ih _ distinct.2 touch later

theorem EachFinds.at_first {finds : Touch Key Value → Value → Prop}
    {touches : List (Touch Key Value)} {stood : Key → Value} (each : EachFinds finds stood touches)
    (distinct : (touches.map Touch.key).Nodup) :
    ∀ touch ∈ touches, finds touch (stood touch.key) := by
  induction touches generalizing stood with
  | nil =>
    intro touch member
    cases member
  | cons first rest ih =>
    rw [map_cons, nodup_cons] at distinct
    intro touch member
    rcases mem_cons.mp member with rfl | later
    · exact each.1
    · have otherKey : touch.key ≠ first.key := by
        intro same
        apply distinct.1
        rw [← same]
        exact mem_map_of_mem later
      have found := ih each.2 distinct.2 touch later
      rwa [update_of_ne otherKey] at found

/-- **Every touch finds its value at the end exactly when no key was touched
twice.** -/
theorem all_left_iff {touches : List (Touch Key Value)} {stood : Key → Value}
    (changes : EachChanges stood touches) :
    (∀ touch ∈ touches, leaves stood touches touch.key = touch.value) ↔
      (touches.map Touch.key).Nodup := by
  refine ⟨fun left => ?_, leaves_of_nodup stood⟩
  induction touches generalizing stood with
  | nil => exact nodup_nil
  | cons first rest ih =>
    rw [map_cons, nodup_cons]
    have restDistinct : (rest.map Touch.key).Nodup :=
      ih changes.2 (fun touch member =>
        left touch (mem_cons_of_mem first member))
    refine ⟨fun again => ?_, restDistinct⟩
    -- The touch that comes back to the first one's key finds the value both write.
    obtain ⟨second, member, sameKey⟩ := mem_map.mp again
    have ownValue := left first (.head _)
    have laterValue := left second (mem_cons_of_mem first member)
    rw [sameKey, ownValue] at laterValue
    apply changes.2.at_first restDistinct second member
    rw [sameKey, update_self, laterValue]

theorem nodup_of_found {touches : List (Touch Key Value)} {first stood : Key → Value}
    (changes : EachChanges stood touches)
    (found : EachFinds (fun touch value => value = first touch.key) stood touches) :
    (touches.map Touch.key).Nodup := by
  induction touches generalizing stood with
  | nil => exact nodup_nil
  | cons touch rest ih =>
    rw [map_cons, nodup_cons]
    have restDistinct := ih changes.2 found.2
    refine ⟨fun again => ?_, restDistinct⟩
    obtain ⟨second, member, sameKey⟩ := mem_map.mp again
    have secondFound := found.2.at_first restDistinct second member
    rw [sameKey, update_self, ← found.1] at secondFound
    exact changes.1 secondFound.symm

end Nmas.Log
