import Mathlib.Algebra.Order.Group.Defs
import Mathlib.Algebra.Order.Group.Unbundled.Basic
import Mathlib.Data.List.Basic

/-!
Contract: rates of a timed log whose entries look back before they are written.

Owns: what a log keeps, over every window of its time, of a look each entry took
back over one span when it came: so many at most, or none like itself.
-/

namespace Nmas.Log

open List

variable {Entry Time : Type} [AddCommGroup Time] [LinearOrder Time]

def since (time : Entry → Time) (start : Time) (log : List Entry) : List Entry :=
  log.filter (fun entry => start ≤ time entry)

def within (time : Entry → Time) (start span : Time) (log : List Entry) : List Entry :=
  log.filter (fun entry => start ≤ time entry ∧ time entry ≤ start + span)

/-- No window of this span holds more than `most` entries. -/
def RateBounded (time : Entry → Time) (span : Time) (most : Nat) (log : List Entry) : Prop :=
  ∀ start, (within time start span log).length ≤ most

/-- No two entries of one kind are within the span of each other. -/
def Apart (time : Entry → Time) (alike : Entry → Entry → Prop) (span : Time) (log : List Entry) :
    Prop :=
  log.Pairwise (fun earlier later => alike earlier later → span < time later - time earlier)

variable {time : Entry → Time} {span : Time} {most : Nat} {log : List Entry} {entry : Entry}
  {alike : Entry → Entry → Prop}

theorem rateBounded_nil : RateBounded time span most [] := fun _ => Nat.zero_le most

theorem apart_nil : Apart time alike span [] := List.Pairwise.nil

variable [IsOrderedAddMonoid Time]

/-- An entry that found fewer than `most` behind it, over the span, keeps the
rate: no window it ends reaches back further than it looked. -/
theorem RateBounded.append (bounded : RateBounded time span most log)
    (fewer : (since time (time entry - span) log).length < most) :
    RateBounded time span most (log ++ [entry]) := by
  intro start
  have earlier := bounded start
  unfold within at earlier ⊢
  rw [filter_append, length_append]
  by_cases inside : start ≤ time entry ∧ time entry ≤ start + span
  · have looked : (within time start span log).Sublist (since time (time entry - span) log) := by
      apply monotone_filter_right
      intro earlier inWindow
      apply decide_eq_true
      exact (sub_le_iff_le_add.mpr inside.2).trans (of_decide_eq_true inWindow).1
    have counted := looked.length_le
    unfold within at counted
    have one := length_filter_le
      (fun entry => decide (start ≤ time entry ∧ time entry ≤ start + span)) [entry]
    rw [length_singleton] at one
    omega
  · rw [filter_cons_of_neg (by simpa using inside), filter_nil, length_nil]
    exact earlier

theorem Apart.append (apart : Apart time alike span log)
    (none_alike : ∀ earlier ∈ since time (time entry - span) log, ¬ alike earlier entry) :
    Apart time alike span (log ++ [entry]) := by
  apply pairwise_append.mpr
  refine ⟨apart, pairwise_singleton _ _, ?_⟩
  intro earlier member later isEntry same
  rw [mem_singleton] at isEntry
  subst isEntry
  by_contra close
  have recent : time later - span ≤ time earlier := by
    rw [sub_le_comm]
    exact not_lt.mp close
  exact none_alike earlier (mem_filter.mpr ⟨member, decide_eq_true recent⟩) same

end Nmas.Log
