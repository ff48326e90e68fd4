import Mathlib
import Nmas.Dhcp.Pools
import Nmas.Log.Machine

/-!
Contract: an excluded address is in no pool Kea is given.

Owns:
- the addresses a text holds, and those a list of texts does;
- the pieces of a pool as what its exclusions leave of it;
- the runs of applied plans over one subnet, when they keep every excluded address
  out of its pools and the pools, with the exclusions, the range last set; and one
  that does not.
-/

namespace Nmas.Dhcp

open Nmas.Text List
open Nmas.Ranges (covered cutOut mem_cutOut)
open Nmas.Log.Machine (run Along)

def Holds (text : RangeText) (address : Nat) : Prop :=
  match text with
  | .range first last | .prefix_ first last => first ≤ address ∧ address ≤ last
  | .one only => address = only
  | .other _ => False

/-- The addresses some text holds. -/
def HeldBy (texts : List RangeText) (address : Nat) : Prop := ∃ text ∈ texts, Holds text address

def Shaped.given (shaped : Shaped) : List RangeText := shaped.pools.map Pool.pool

def excluded (exclusions : List Exclusion) : List RangeText := exclusions.map Exclusion.range

variable {top : Nat} {net range : Nat × Nat} {text : RangeText} {texts left : List RangeText}
  {ranges : List (Nat × Nat)} {address : Nat} {shaped after : Shaped} {note : Option Str}
  {exclusions : List Exclusion}

theorem holds_span (isSpan : span text = some range) :
    Holds text address ↔ range.1 ≤ address ∧ address ≤ range.2 := by
  cases text with
  | range first last =>
    simp only [span] at isSpan
    split at isSpan
    · cases isSpan
    · cases isSpan
      rfl
  | one only =>
    cases isSpan
    show address = only ↔ only ≤ address ∧ address ≤ only
    omega
  | prefix_ first last | other text => cases isSpan

theorem holds_words : Holds (words range) address ↔ range.1 ≤ address ∧ address ≤ range.2 := by
  unfold words
  split
  · rename_i same
    show address = range.1 ↔ _
    omega
  · rfl

theorem heldBy_words : HeldBy (ranges.map words) address ↔ address ∈ covered ranges := by
  unfold HeldBy covered
  simp only [mem_map, exists_exists_and_eq_and, holds_words]
  rfl

theorem heldBy_cons {rest : List RangeText} : HeldBy (text :: rest) address ↔
    Holds text address ∨ HeldBy rest address := by
  unfold HeldBy
  simp only [mem_cons, or_and_right, exists_or, exists_eq_left]

theorem heldBy_spans (isSpans : texts.mapM span = some ranges) :
    address ∈ covered ranges ↔ HeldBy texts address := by
  induction texts generalizing ranges with
  | nil =>
    cases isSpans
    exact ⟨fun inNil => absurd inNil Nmas.Ranges.covered_nil, fun ⟨_, isText, _⟩ => by cases isText⟩
  | cons text rest ih =>
    rw [mapM_cons] at isSpans
    obtain ⟨range, isSpan, isRest⟩ := Option.bind_eq_some_iff.mp isSpans
    obtain ⟨others, isOthers, isList⟩ := Option.bind_eq_some_iff.mp isRest
    cases isList
    rw [Nmas.Ranges.covered_cons, heldBy_cons, ih isOthers, holds_span isSpan]

/-- **The pieces of a pool** hold what the pool does and no exclusion. -/
theorem heldBy_pieces (isPieces : pieces top text texts = some left) :
    HeldBy left address ↔ Holds text address ∧ ¬ HeldBy texts address := by
  unfold pieces at isPieces
  obtain ⟨range, isSpan, isPieces⟩ := Option.bind_eq_some_iff.mp isPieces
  obtain ⟨cuts, isCuts, isPieces⟩ := Option.bind_eq_some_iff.mp isPieces
  obtain ⟨ranges, isRanges, isLeft⟩ := Option.bind_eq_some_iff.mp isPieces
  cases isLeft
  rw [heldBy_words, mem_cutOut isRanges, heldBy_spans isCuts, holds_span isSpan]

/-! ### The runs -/

/-- A subnet, and the range a person last set for it. -/
structure Served where
  shaped : Shaped
  set : RangeText
deriving DecidableEq

namespace Served

def begin_ (pool : Pool) (rest : Str) : Served := ⟨⟨[pool], rest, [], none⟩, pool.pool⟩

/-- The range last set, after a plan. -/
def setBy (set : RangeText) : Asked → RangeText
  | .edit (some text) _ => text
  | _ => set

/-- A plan applied to what the earlier ones left. -/
def step (top : Nat) (net : Nat × Nat) (served : Served) (planning : Planning) : Served :=
  match planned top net served.shaped planning with
  | none => served
  | some shaped => ⟨shaped, setBy served.set planning.asked⟩

/-- No pool holds an excluded address, and the pools with the exclusions of the range
last set are that range. -/
structure Exact (served : Served) : Prop where
  out : ∀ address, HeldBy (excluded served.shaped.exclusions) address →
    ¬ HeldBy served.shaped.given address
  whole : ∀ address, HeldBy served.shaped.given address ∨
    (HeldBy (excluded served.shaped.exclusions) address ∧ Holds served.set address) ↔
      Holds served.set address

/-- **The condition.** A range set holds no excluded address; and the range an
exclusion's plan cuts from (the recorded one, or the one pool's) is the range last
set, but for the addresses excluded then. -/
def Fits (net : Nat × Nat) (served : Served) (asked : Asked) : Prop :=
  match asked with
  | .edit (some text) _ =>
    ∀ address, Holds text address → ¬ HeldBy (excluded served.shaped.exclusions) address
  | .edit none _ => True
  | asked => ∀ exclusions ∈ leaves net served.shaped.exclusions asked,
      ∀ asSet ∈ asSetOf served.shaped, ∀ address, ¬ HeldBy (excluded exclusions) address →
        (Holds asSet address ↔ Holds served.set address)

variable {served : Served} {asked : Asked} {beside : Beside} {planning : Planning}

theorem given_withNote (pools : List Pool) :
    (pools.map (fun pool => withNote pool note)).map Pool.pool = pools.map Pool.pool := by
  rw [map_map]
  refine map_congr_left fun pool _ => ?_
  cases note <;> rfl

theorem note_exact (exact_ : Exact served) (isPlan : planEdit net served.shaped none note beside = some after) :
    Exact ⟨after, served.set⟩ := by
  simp only [planEdit, settings] at isPlan
  split at isPlan
  · rename_i pools rest isPools isRest
    split at isPlan
    · cases isPlan
    · cases isPlan
      cases isPools
      have sameGiven : ({ served.shaped with
          pools := served.shaped.pools.map (fun pool => withNote pool note), rest := rest } :
            Shaped).given = served.shaped.given := given_withNote _
      constructor
      · intro address
        rw [sameGiven]
        exact exact_.out address
      · intro address
        rw [sameGiven]
        exact exact_.whole address
  · cases isPlan

/-- **A range set** is exact where it holds no excluded address. -/
theorem edit_exact (isPlan : planEdit net shaped (some text) note beside = some after) :
    Exact ⟨after, text⟩ ↔
      ∀ address, Holds text address → ¬ HeldBy (excluded shaped.exclusions) address := by
  simp only [planEdit, settings] at isPlan
  split at isPlan
  · rename_i pools rest isPools isRest
    split at isPools
    · cases isPools
    · rename_i range isRange
      split at isPools
      · cases isPools
        split at isPlan
        · cases isPlan
        · cases isPlan
          have isText : text = .range range.1 range.2 := by
            cases text with
            | range first last =>
              simp only [poolOf] at isRange
              split at isRange
              · cases isRange
                rfl
              · cases isRange
            | one only | prefix_ first last | other words => cases isRange
          subst isText
          have isGiven (address : Nat) : HeldBy [RangeText.range range.1 range.2] address ↔
              Holds (.range range.1 range.2) address := by
            unfold HeldBy
            simp only [mem_singleton, exists_eq_left]
          constructor
          · intro exact_ address isSet inExcluded
            exact exact_.out address inExcluded ((isGiven address).mpr isSet)
          · intro apart
            constructor
            · intro address inExcluded inGiven
              exact apart address ((isGiven address).mp inGiven) inExcluded
            · intro address
              exact ⟨fun either => either.elim (isGiven address).mp And.right,
                fun isSet => .inl ((isGiven address).mpr isSet)⟩
      · cases isPools
  · cases isPlan

theorem shape_given {asSet : RangeText} (isAsSet : asSetOf shaped = some asSet)
    (isShape : shape top shaped exclusions = some after) :
    after.exclusions = exclusions ∧ ∀ address, HeldBy after.given address ↔
      Holds asSet address ∧ ¬ HeldBy (excluded exclusions) address := by
  simp only [shape, isAsSet] at isShape
  split at isShape
  · cases isShape
  · cases isShape
  · rename_i left notNil isLeft
    cases isShape
    refine ⟨rfl, fun address => ?_⟩
    unfold Shaped.given
    simp only [map_map]
    have isGiven : HeldBy (left.map id) address ↔
        Holds asSet address ∧ ¬ HeldBy (excluded exclusions) address := by
      rw [map_id]
      exact heldBy_pieces isLeft
    exact isGiven

/-- **An exclusion's plan** is exact where it cuts from the range last set. -/
theorem shape_exact {set asSet : RangeText} (isAsSet : asSetOf shaped = some asSet)
    (isShape : shape top shaped exclusions = some after) :
    Exact ⟨after, set⟩ ↔ ∀ address, ¬ HeldBy (excluded exclusions) address →
      (Holds asSet address ↔ Holds set address) := by
  obtain ⟨isExclusions, given⟩ := shape_given isAsSet isShape
  constructor
  · intro exact_ address notExcluded
    have whole := exact_.whole address
    rw [isExclusions] at whole
    constructor
    · intro inAsSet
      exact whole.mp (.inl ((given address).mpr ⟨inAsSet, notExcluded⟩))
    · intro inSet
      rcases whole.mpr inSet with inGiven | ⟨inExcluded, -⟩
      · exact ((given address).mp inGiven).1
      · exact absurd inExcluded notExcluded
  · intro agrees
    constructor
    · intro address inExcluded inGiven
      rw [isExclusions] at inExcluded
      exact ((given address).mp inGiven).2 inExcluded
    · intro address
      rw [isExclusions]
      by_cases inExcluded : HeldBy (excluded exclusions) address
      · constructor
        · rintro (inGiven | ⟨-, inSet⟩)
          · exact absurd inExcluded ((given address).mp inGiven).2
          · exact inSet
        · exact fun inSet => .inr ⟨inExcluded, inSet⟩
      · constructor
        · rintro (inGiven | ⟨isIn, -⟩)
          · exact (agrees address inExcluded).mp ((given address).mp inGiven).1
          · exact absurd isIn inExcluded
        · intro inSet
          exact .inl ((given address).mpr ⟨(agrees address inExcluded).mpr inSet, inExcluded⟩)

theorem step_exact_iff (served : Served) (planning : Planning) (exact_ : Exact served) :
    Exact (step top net served planning) ↔
      ((planned top net served.shaped planning).isSome → Fits net served planning.asked) := by
  unfold step
  cases isPlan : planned top net served.shaped planning with
  | none => exact iff_of_true exact_ nofun
  | some after =>
    refine Iff.trans ?_ (imp_iff_right rfl).symm
    -- An exclusion's plan shapes the subnet by the exclusions it leaves.
    have shaped (isShape : (leaves net served.shaped.exclusions planning.asked).bind
          (shape top served.shaped) = some after) (sameSet : setBy served.set planning.asked = served.set)
        (isFits : Fits net served planning.asked ↔
          ∀ exclusions ∈ leaves net served.shaped.exclusions planning.asked,
            ∀ asSet ∈ asSetOf served.shaped, ∀ address, ¬ HeldBy (excluded exclusions) address →
              (Holds asSet address ↔ Holds served.set address)) :
        Exact ⟨after, setBy served.set planning.asked⟩ ↔ Fits net served planning.asked := by
      obtain ⟨exclusions, isLeft, isShape⟩ := Option.bind_eq_some_iff.mp isShape
      obtain ⟨asSet, isAsSet⟩ : ∃ asSet, asSetOf served.shaped = some asSet := by
        cases isAsSet : asSetOf served.shaped with
        | some asSet => exact ⟨asSet, rfl⟩
        | none =>
          simp only [shape, isAsSet] at isShape
          cases isShape
      rw [sameSet, shape_exact isAsSet isShape, isFits]
      constructor
      · intro agrees one isOne other isOther
        cases isLeft.symm.trans isOne
        cases isAsSet.symm.trans isOther
        exact agrees
      · intro fits
        exact fits exclusions isLeft asSet isAsSet
    obtain ⟨asked, beside⟩ := planning
    simp only [planned] at isPlan
    split at isPlan
    · cases isPlan
    · cases asked with
      | edit pool note =>
        cases pool with
        | none => exact iff_of_true (note_exact exact_ isPlan) trivial
        | some text => exact edit_exact isPlan
      | exclude range reason source detail | include_ was => exact shaped isPlan rfl Iff.rfl

/-- **An excluded address is in no pool Kea is given**, and the pools with the
exclusions are the range last set, after each applied plan, exactly when each
applied plan fits. -/
theorem exact_iff (top : Nat) (net : Nat × Nat) (pool : Pool) (rest : Str)
    (plans : List Planning) :
    Along (step top net) (fun served planning => Exact (step top net served planning))
        (begin_ pool rest) plans ↔
      Along (step top net) (fun served planning =>
        (planned top net served.shaped planning).isSome = true → Fits net served planning.asked)
        (begin_ pool rest) plans := by
  refine Nmas.Log.Machine.along_iff (fun _ _ (_ : True) => trivial)
    (fun served planning _ exact_ => step_exact_iff served planning exact_) trivial ?_
  constructor
  · rintro address ⟨text, isText, -⟩
    cases isText
  · intro address
    have isGiven : HeldBy (begin_ pool rest).shaped.given address ↔
        Holds (begin_ pool rest).set address := by
      show HeldBy [pool.pool] address ↔ _
      unfold HeldBy
      simp only [List.mem_singleton, exists_eq_left]
      exact Iff.rfl
    exact ⟨fun either => either.elim isGiven.mp And.right, fun inSet => Or.inl (isGiven.mpr inSet)⟩

/-- 10.0.0.20 is excluded from .10 - .50, and then the pool is set to .10 - .60. -/
def widened : List Planning :=
  [⟨.exclude (.one 0x0a000014) "a printer's own".ascii "manual".ascii [], ⟨[], none, false⟩⟩,
    ⟨.edit (some (.range 0x0a00000a 0x0a00003c)) none, ⟨[], some [], false⟩⟩]

theorem widened_given :
    ¬ Exact (run (step (2 ^ 32 - 1) (0x0a000000, 0x0a0000ff))
      (begin_ ⟨.range 0x0a00000a 0x0a000032, [], []⟩ []) widened) := by
  intro exact_
  have isRun : run (step (2 ^ 32 - 1) (0x0a000000, 0x0a0000ff))
      (begin_ ⟨.range 0x0a00000a 0x0a000032, [], []⟩ []) widened =
        ⟨⟨[⟨.range 0x0a00000a 0x0a00003c, [], []⟩], [],
          [⟨.one 0x0a000014, "a printer's own".ascii, "manual".ascii, []⟩],
          some (.range 0x0a00000a 0x0a000032)⟩, .range 0x0a00000a 0x0a00003c⟩ := by
    decide +kernel
  rw [isRun] at exact_
  refine exact_.out 0x0a000014 ⟨.one 0x0a000014, List.mem_singleton_self _, rfl⟩
    ⟨.range 0x0a00000a 0x0a00003c, List.mem_singleton_self _, ?_⟩
  show 0x0a00000a ≤ 0x0a000014 ∧ 0x0a000014 ≤ 0x0a00003c
  decide

end Served

end Nmas.Dhcp
