import Mathlib.Data.List.Pairwise
import Nmas.Ranges.Cuts

/-!
Contract: the runs a sweep leaves, and when it can be finished.

Owns:
- the runs of a set of numbers, each as long as it can be;
- a spaced list of ranges as the list of the runs of what it covers;
- the pieces of a range less some others as the runs of what is left;
- exactly when the sweep meets the number after `top`.
-/

namespace Nmas.Ranges

open List

structure IsRun (held : Set Nat) (range : Nat × Nat) : Prop where
  inhabited : range.1 ≤ range.2
  within : ∀ number, range.1 ≤ number → number ≤ range.2 → number ∈ held
  starts : ∀ number, number + 1 = range.1 → number ∉ held
  ends : range.2 + 1 ∉ held

structure AreRuns (held : Set Nat) (ranges : List (Nat × Nat)) : Prop where
  mem_iff : ∀ range, range ∈ ranges ↔ IsRun held range
  ascending : ranges.Pairwise (fun one other => one.2 < other.1)

structure Spaced (ranges : List (Nat × Nat)) : Prop where
  inhabited : ∀ range ∈ ranges, range.1 ≤ range.2
  apart : ranges.Pairwise (fun one other => one.2 + 1 < other.1)

variable {top last from_ number : Nat} {cuts left ranges : List (Nat × Nat)}
  {one other range cut : Nat × Nat} {held : Set Nat}

theorem spaced_nil : Spaced [] where
  inhabited _ isRange := by cases isRange
  apart := List.Pairwise.nil

theorem Spaced.cons (spaced : Spaced ranges) (inhabited : range.1 ≤ range.2)
    (later : ∀ other ∈ ranges, range.2 + 1 < other.1) : Spaced (range :: ranges) where
  inhabited := forall_mem_cons.mpr ⟨inhabited, spaced.inhabited⟩
  apart := pairwise_cons.mpr ⟨later, spaced.apart⟩

def Between (one other : Nat × Nat) : Prop :=
  one = other ∨ one.2 + 1 < other.1 ∨ other.2 + 1 < one.1

instance : Std.Symm Between where
  symm one other either := by
    rcases either with same | before | after
    · exact .inl same.symm
    · exact .inr (.inr before)
    · exact .inr (.inl after)

theorem Spaced.between (spaced : Spaced ranges) (isOne : one ∈ ranges) (isOther : other ∈ ranges) :
    Between one other := by
  have apart : ranges.Pairwise Between := spaced.apart.imp fun apart => .inr (.inl apart)
  have own : ∀ range ∈ ranges, Between range range := fun _ _ => .inl rfl
  exact apart.forall_of_forall own isOne isOther

theorem Spaced.isRun (spaced : Spaced ranges) (isRange : range ∈ ranges) :
    IsRun (covered ranges) range := by
  have inhabited := spaced.inhabited range isRange
  refine ⟨inhabited, fun number least most => ⟨range, isRange, least, most⟩, ?_, ?_⟩
  · rintro number isBefore ⟨other, isOther, least, most⟩
    have otherInhabited := spaced.inhabited other isOther
    rcases spaced.between isRange isOther with rfl | before | after
    · omega
    · omega
    · omega
  · rintro ⟨other, isOther, least, most⟩
    rcases spaced.between isRange isOther with rfl | before | after
    · omega
    · omega
    · omega

theorem IsRun.eq_of_mem (isOne : IsRun held one) (isOther : IsRun held other)
    (inOne : one.1 ≤ number ∧ number ≤ one.2) (inOther : other.1 ≤ number ∧ number ≤ other.2) :
    one = other := by
  -- A run that starts inside another has a number of the set in front of it.
  have first {one other : Nat × Nat} (isOne : IsRun held one) (isOther : IsRun held other)
      (inOne : one.1 ≤ number ∧ number ≤ one.2) (inOther : other.1 ≤ number ∧ number ≤ other.2) :
      one.1 ≤ other.1 := by
    by_contra after
    exact isOne.starts (one.1 - 1) (by omega) (isOther.within _ (by omega) (by omega))
  have final {one other : Nat × Nat} (isOne : IsRun held one) (isOther : IsRun held other)
      (inOne : one.1 ≤ number ∧ number ≤ one.2) (inOther : other.1 ≤ number ∧ number ≤ other.2) :
      other.2 ≤ one.2 := by
    by_contra after
    exact isOne.ends (isOther.within _ (by omega) (by omega))
  refine Prod.ext ?_ ?_
  · exact le_antisymm (first isOne isOther inOne inOther) (first isOther isOne inOther inOne)
  · exact le_antisymm (final isOther isOne inOther inOne) (final isOne isOther inOne inOther)

/-- **A spaced list is the runs of what it covers.** -/
theorem Spaced.areRuns (spaced : Spaced ranges) : AreRuns (covered ranges) ranges where
  mem_iff range := by
    refine ⟨spaced.isRun, fun isRun => ?_⟩
    obtain ⟨other, isOther, inOther⟩ := isRun.within range.1 le_rfl isRun.inhabited
    have same := isRun.eq_of_mem (spaced.isRun isOther) ⟨le_rfl, isRun.inhabited⟩ inOther
    rwa [same]
  ascending := spaced.apart.imp fun apart => by omega

/-! ### The sweep -/

theorem sweep_spaced (inhabited : ∀ cut ∈ cuts, cut.1 ≤ cut.2)
    (isLeft : sweep top last from_ cuts = some left) :
    Spaced left ∧ ∀ range ∈ left, from_ ≤ range.1 := by
  induction cuts generalizing from_ left with
  | nil =>
    cases isLeft
    split
    · rename_i isLast
      exact ⟨spaced_nil.cons isLast (by simp), by simp⟩
    · exact ⟨spaced_nil, by simp⟩
  | cons cut rest ih =>
    obtain ⟨isCut, restInhabited⟩ := forall_mem_cons.mp inhabited
    unfold sweep at isLeft
    split at isLeft
    · exact ih restInhabited isLeft
    · split at isLeft
      · cases isLeft
      · simp only at isLeft
        split at isLeft
        · cases isLeft
          split
          · exact ⟨spaced_nil.cons (by show from_ ≤ cut.1 - 1; omega) (by simp), by simp⟩
          · exact ⟨spaced_nil, by simp⟩
        · obtain ⟨pieces, isPieces, rfl⟩ := Option.map_eq_some_iff.mp isLeft
          obtain ⟨spaced, later⟩ := ih restInhabited isPieces
          have least (range : Nat × Nat) (isRange : range ∈ pieces) : from_ ≤ range.1 :=
            (le_max_left _ _).trans (later range isRange)
          split
          · refine ⟨spaced.cons (by show from_ ≤ cut.1 - 1; omega) fun other isOther => ?_, ?_⟩
            · have afterCut := (le_max_right _ _).trans (later other isOther)
              show cut.1 - 1 + 1 < other.1
              omega
            · exact forall_mem_cons.mpr ⟨le_rfl, least⟩
          · exact ⟨spaced, least⟩

def Overruns (top last : Nat) (cuts : List (Nat × Nat)) : Prop :=
  ∃ cut ∈ cuts, cut.2 = top ∧ cut.1 ≤ last ∧
    ∀ other ∈ cuts, other.1 ≤ cut.1 → other.2 < last ∨ other.2 = top

theorem overruns_skip (isLess : cut.2 < last) (notTop : cut.2 ≠ top) :
    Overruns top last (cut :: cuts) ↔ Overruns top last cuts := by
  unfold Overruns
  simp only [mem_cons, exists_eq_or_imp, forall_eq_or_imp, notTop, false_and, false_or, isLess,
    true_or, implies_true, true_and]

theorem sweep_eq_none_iff (sorted : cuts.Pairwise Before) (bounded : ∀ cut ∈ cuts, cut.2 ≤ top)
    (isFrom : from_ ≤ last) (isTop : last ≤ top) :
    sweep top last from_ cuts = none ↔ Overruns top last cuts := by
  induction cuts generalizing from_ with
  | nil => simp [sweep, Overruns]
  | cons cut rest ih =>
    obtain ⟨isFirst, restSorted⟩ := pairwise_cons.mp sorted
    obtain ⟨cutBounded, restBounded⟩ := forall_mem_cons.mp bounded
    have notBefore (other : Nat × Nat) (isOther : other ∈ rest) : cut.1 ≤ other.1 := by
      have isBefore := isFirst other isOther
      unfold Before at isBefore
      omega
    unfold sweep
    split
    · rename_i isPast
      rw [ih restSorted restBounded isFrom]
      rcases isPast with isPast | isPast
      · exact (overruns_skip (by omega) (by omega)).symm
      · -- Every cut from here on starts past the end.
        have none (cuts : List (Nat × Nat)) (past : ∀ other ∈ cuts, last < other.1) :
            ¬ Overruns top last cuts := by
          rintro ⟨other, isOther, -, isWithin, -⟩
          have isPast := past other isOther
          omega
        have restPast (other : Nat × Nat) (isOther : other ∈ rest) : last < other.1 :=
          isPast.trans_le (notBefore other isOther)
        exact iff_of_false (none rest restPast)
          (none _ (forall_mem_cons.mpr ⟨isPast, restPast⟩))
    · rename_i notPast
      split
      · rename_i atTop
        refine iff_of_true rfl ⟨cut, (.head _) .., atTop, by omega, ?_⟩
        intro other isOther notAfter
        rcases mem_cons.mp isOther with rfl | inRest
        · exact .inr atTop
        · have isBefore := isFirst other inRest
          have isBounded := restBounded other inRest
          unfold Before at isBefore
          omega
      · rename_i notTop
        simp only
        split
        · rename_i isDone
          refine iff_of_false (by simp) ?_
          rintro ⟨other, isOther, atTop, isWithin, earlier⟩
          have ofCut := earlier cut (mem_cons_self ..)
          rcases mem_cons.mp isOther with rfl | inRest
          · exact notTop atTop
          · have isBefore := notBefore other inRest
            omega
        · rename_i notDone
          rw [Option.map_eq_none_iff, ih restSorted restBounded (by omega)]
          exact (overruns_skip (by omega) notTop).symm

/-! ### The pieces of a range -/

theorem overruns_sorted : Overruns top last (cuts.insertionSort Before) ↔ Overruns top last cuts := by
  unfold Overruns
  simp only [mem_insertionSort]

theorem cutOut_eq_none_iff (bounded : ∀ cut ∈ cuts, cut.2 ≤ top) (isRange : range.1 ≤ range.2)
    (isTop : range.2 ≤ top) : cutOut top range cuts = none ↔ Overruns top range.2 cuts := by
  have sortedBounded : ∀ cut ∈ cuts.insertionSort Before, cut.2 ≤ top := by
    simpa only [mem_insertionSort] using bounded
  unfold cutOut
  rw [sweep_eq_none_iff (pairwise_insertionSort Before cuts) sortedBounded isRange isTop,
    overruns_sorted]

/-- **The pieces are the runs of what the cuts leave of the range.** -/
theorem cutOut_areRuns (inhabited : ∀ cut ∈ cuts, cut.1 ≤ cut.2)
    (isLeft : cutOut top range cuts = some left) :
    AreRuns { number | (range.1 ≤ number ∧ number ≤ range.2) ∧ number ∉ covered cuts } left := by
  have sortedInhabited : ∀ cut ∈ cuts.insertionSort Before, cut.1 ≤ cut.2 := by
    simpa only [mem_insertionSort] using inhabited
  have runs := (sweep_spaced sortedInhabited isLeft).1.areRuns
  have same : covered left =
      { number | (range.1 ≤ number ∧ number ≤ range.2) ∧ number ∉ covered cuts } :=
    Set.ext fun number => mem_cutOut isLeft
  rwa [same] at runs

end Nmas.Ranges
