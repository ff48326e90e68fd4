import Mathlib.Data.List.Sort
import Mathlib.Data.Set.Basic

/-!
Contract: a range of numbers less some others, as the pieces that are left.

Owns:
- the numbers a list of ranges covers;
- the sweep over sorted cuts, from the range's first number to its last;
- the pieces it leaves cover what the range holds and no cut does.

The sweep needs the number after a cut's last; there is none after `top`.
-/

namespace Nmas.Ranges

open List

/-- The numbers some range holds. -/
def covered (ranges : List (Nat × Nat)) : Set Nat :=
  { number | ∃ range ∈ ranges, range.1 ≤ number ∧ number ≤ range.2 }

def Before (one other : Nat × Nat) : Prop := one.1 < other.1 ∨ one.1 = other.1 ∧ one.2 ≤ other.2

instance (one other : Nat × Nat) : Decidable (Before one other) :=
  inferInstanceAs (Decidable (_ ∨ _))

instance : Std.Total Before where
  total one other := by
    unfold Before
    omega

instance : IsTrans (Nat × Nat) Before where
  trans one two three := by
    unfold Before
    omega

/-- The sweep: the pieces from `from_` to `last` that sorted cuts leave. -/
def sweep (top last : Nat) : Nat → List (Nat × Nat) → Option (List (Nat × Nat))
  | from_, [] => some (if from_ ≤ last then [(from_, last)] else [])
  | from_, cut :: rest =>
    if cut.2 < from_ ∨ last < cut.1 then sweep top last from_ rest
    else if cut.2 = top then none
    else
      let piece := if from_ < cut.1 then [(from_, cut.1 - 1)] else []
      let next := max from_ (cut.2 + 1)
      if last < next then some piece else (sweep top last next rest).map (piece ++ ·)

variable {top last from_ number : Nat} {cuts left one other : List (Nat × Nat)} {range : Nat × Nat}

theorem covered_append : number ∈ covered (one ++ other) ↔
    number ∈ covered one ∨ number ∈ covered other := by
  unfold covered
  simp only [mem_append, Set.mem_ofPred_eq, or_and_right, exists_or]

theorem covered_cons : number ∈ covered (range :: other) ↔
    (range.1 ≤ number ∧ number ≤ range.2) ∨ number ∈ covered other := by
  unfold covered
  simp only [mem_cons, Set.mem_ofPred_eq, or_and_right, exists_or, exists_eq_left]

theorem covered_nil : number ∉ covered [] := by
  rintro ⟨range, isRange, -⟩
  cases isRange

theorem covered_piece {first : Nat} : number ∈ covered (if from_ < first then [(from_, first - 1)] else []) ↔
    from_ ≤ number ∧ number < first := by
  split
  · rw [covered_cons]
    have notNil := @covered_nil number
    simp only [notNil, or_false]
    omega
  · refine ⟨fun inNil => absurd inNil covered_nil, fun between => ?_⟩
    omega

/-- **The sweep.** What it leaves covers the numbers from the first to the last that
no cut holds. -/
theorem mem_sweep (sorted : cuts.Pairwise Before) (isLeft : sweep top last from_ cuts = some left) :
    number ∈ covered left ↔ (from_ ≤ number ∧ number ≤ last) ∧ number ∉ covered cuts := by
  induction cuts generalizing from_ left with
  | nil =>
    cases isLeft
    have notNil := @covered_nil number
    split
    · simp only [covered_cons, notNil, or_false, not_false_iff, and_true]
    · refine ⟨fun inNil => absurd inNil covered_nil, fun between => ?_⟩
      omega
  | cons cut rest ih =>
    obtain ⟨isFirst, restSorted⟩ := pairwise_cons.mp sorted
    -- The cuts that follow begin no earlier.
    have later (inRest : number ∈ covered rest) : cut.1 ≤ number := by
      obtain ⟨range, isRange, least, -⟩ := inRest
      have isBefore := isFirst range isRange
      unfold Before at isBefore
      omega
    unfold sweep at isLeft
    split at isLeft
    · rename_i isPast
      rw [ih restSorted isLeft, covered_cons]
      constructor
      · rintro ⟨between, notRest⟩
        refine ⟨between, ?_⟩
        rintro (inCut | inRest)
        · omega
        · exact notRest inRest
      · rintro ⟨between, notCut⟩
        exact ⟨between, fun inRest => notCut (.inr inRest)⟩
    · rename_i notPast
      split at isLeft
      · cases isLeft
      · rename_i notTop
        simp only at isLeft
        split at isLeft
        · rename_i isDone
          cases isLeft
          rw [covered_piece, covered_cons]
          constructor
          · intro between
            refine ⟨by omega, ?_⟩
            rintro (inCut | inRest)
            · omega
            · have least := later inRest
              omega
          · rintro ⟨between, notCut⟩
            have notIn := fun inCut => notCut (.inl inCut)
            omega
        · rename_i notDone
          obtain ⟨pieces, isPieces, rfl⟩ := Option.map_eq_some_iff.mp isLeft
          rw [covered_append, covered_piece, ih restSorted isPieces, covered_cons]
          constructor
          · rintro (between | ⟨between, notRest⟩)
            · refine ⟨by omega, ?_⟩
              rintro (inCut | inRest)
              · omega
              · have least := later inRest
                omega
            · refine ⟨by omega, ?_⟩
              rintro (inCut | inRest)
              · omega
              · exact notRest inRest
          · rintro ⟨between, notCut⟩
            have notIn := fun inCut => notCut (.inl inCut)
            by_cases isBelow : number < cut.1
            · exact .inl (by omega)
            · exact .inr ⟨by omega, fun inRest => notCut (.inr inRest)⟩

/-- The pieces of a range that cuts leave, in any order of the cuts. -/
def cutOut (top : Nat) (range : Nat × Nat) (cuts : List (Nat × Nat)) : Option (List (Nat × Nat)) :=
  sweep top range.2 range.1 (cuts.insertionSort Before)

theorem mem_cutOut (isLeft : cutOut top range cuts = some left) :
    number ∈ covered left ↔ (range.1 ≤ number ∧ number ≤ range.2) ∧ number ∉ covered cuts := by
  have same : number ∈ covered (cuts.insertionSort Before) ↔ number ∈ covered cuts := by
    unfold covered
    simp only [mem_insertionSort, Set.mem_ofPred_eq]
  rw [mem_sweep (pairwise_insertionSort Before cuts) isLeft, same]

end Nmas.Ranges
