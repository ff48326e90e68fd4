import Mathlib.Data.List.Dedup

/-!
Contract: everything reachable from a start, with a stack of what is left.

Owns: the loop with a bound on its rounds, and that the bound suffices where
only finitely many items lead on.
-/

namespace Nmas.Fixpoint.Worklist

open List

variable {α : Type} [DecidableEq α]

/-- The items seen, once the stack is empty; none where that takes more than `room` rounds. -/
def closureFrom (next : α → List α) : (room : Nat) → (seen stack : List α) → Option (List α)
  | _, seen, [] => some seen
  | 0, _, _ :: _ => none
  | room + 1, seen, current :: rest =>
    if current ∈ seen then closureFrom next room seen rest
    else closureFrom next room (current :: seen) ((next current).reverse ++ rest)

variable {next : α → List α} {room : Nat} {seen stack : List α}

/-- How many items the unseen of `items` lead to. -/
def ahead (next : α → List α) (items seen : List α) : Nat :=
  ((items.filter (· ∉ seen)).flatMap next).length

theorem ahead_cons {items : List α} {current : α} (nodup : items.Nodup) (unseen : current ∉ seen)
    (isItem : current ∈ items) :
    ahead next items (current :: seen) + (next current).length = ahead next items seen := by
  unfold ahead
  induction items with
  | nil => cases isItem
  | cons item rest ih =>
    obtain ⟨notLater, restNodup⟩ := nodup_cons.mp nodup
    rcases mem_cons.mp isItem with rfl | later
    · have same : rest.filter (· ∉ current :: seen) = rest.filter (· ∉ seen) := by
        apply filter_congr
        intro other member
        have isOther : other ≠ current := by
          rintro rfl
          exact notLater member
        simp [isOther]
      rw [filter_cons_of_neg (by simp), filter_cons_of_pos (by simpa using unseen), same,
        flatMap_cons, length_append, Nat.add_comm]
    · have isOther : item ≠ current := by
        rintro rfl
        exact notLater later
      have less := ih restNodup later
      by_cases isSeen : item ∈ seen
      · rw [filter_cons_of_neg (by simp [isSeen]), filter_cons_of_neg (by simp [isSeen])]
        exact less
      · rw [filter_cons_of_pos (by simp [isSeen, isOther]),
          filter_cons_of_pos (by simp [isSeen]), flatMap_cons, flatMap_cons,
          length_append, length_append, ← less]
        omega

theorem closureFrom_ends {items : List α} (nodup : items.Nodup)
    (onlyItems : ∀ item ∉ items, next item = [])
    (enough : stack.length + ahead next items seen ≤ room) :
    ∃ result, closureFrom next room seen stack = some result := by
  induction room generalizing seen stack with
  | zero =>
    have isEmpty : stack = [] := length_eq_zero_iff.mp (by omega)
    subst isEmpty
    exact ⟨seen, by unfold closureFrom; rfl⟩
  | succ room ih =>
    rcases stack with - | ⟨current, rest⟩
    · exact ⟨seen, by unfold closureFrom; rfl⟩
    · rw [length_cons] at enough
      unfold closureFrom
      split_ifs with isSeen
      · exact ih (by omega)
      · apply ih
        rw [length_append, length_reverse]
        by_cases isItem : current ∈ items
        · have less : ahead next items (current :: seen) + (next current).length =
              ahead next items seen := ahead_cons nodup isSeen isItem
          omega
        · have same : ahead next items (current :: seen) = ahead next items seen := by
            unfold ahead
            congr 2
            apply filter_congr
            intro other member
            have isOther : other ≠ current := by
              rintro rfl
              exact isItem member
            simp [isOther]
          rw [same, onlyItems current isItem, length_nil]
          omega

end Nmas.Fixpoint.Worklist
