import Mathlib.Data.Int.Bitwise

/-!
Contract: the numbers that agree with a value under a mask.

Owns: masked values of numbers up to a width, the one that two of them have in
common, and when one takes every number another does.

The masks are integers as an interpreter has them, of any size and sign. A mask
that reaches past the width is of no number of that width and takes none.
-/

namespace Nmas.Bits

theorem eq_zero_iff {number : ℤ} : number = 0 ↔ ∀ bit, number.testBit bit = false := by
  constructor
  · intro isZero bit
    rw [isZero]
    exact Nat.zero_testBit bit
  · intro noBit
    cases number with
    | ofNat natural =>
      have isZero : natural = 0 := Nat.eq_of_testBit_eq (fun bit => by
        rw [Nat.zero_testBit]
        exact noBit bit)
      rw [isZero]
      rfl
    | negSucc natural =>
      -- Past its last bit a negative number has them all.
      have isSet : Int.testBit (.negSucc natural) natural := by
        show (!natural.testBit natural) = true
        rw [Nat.testBit_lt_two_pow Nat.lt_two_pow_self]
        rfl
      rw [noBit natural] at isSet
      cases isSet

theorem land_lnot_eq_zero {one other : ℤ} :
    Int.land one (Int.lnot other) = 0 ↔ ∀ bit, one.testBit bit → other.testBit bit := by
  rw [eq_zero_iff]
  apply forall_congr'
  intro bit
  rw [Int.testBit_land, Int.testBit_lnot]
  cases one.testBit bit <;> cases other.testBit bit <;> simp

theorem land_xor_eq_zero {one other mask : ℤ} :
    Int.land (Int.xor one other) mask = 0 ↔
      ∀ bit, mask.testBit bit → one.testBit bit = other.testBit bit := by
  rw [eq_zero_iff]
  apply forall_congr'
  intro bit
  rw [Int.testBit_land, Int.testBit_lxor]
  cases one.testBit bit <;> cases other.testBit bit <;> cases mask.testBit bit <;> simp

/-- A value and its mask. Up to the width the value has no bit outside it. -/
structure Masked (width : Nat) where
  value : ℤ
  mask : ℤ
  within : ∀ bit < width, value.testBit bit = true → mask.testBit bit = true
deriving DecidableEq

namespace Masked

variable {width : Nat}

def under (mask value : ℤ) : Masked width where
  value := Int.land value mask
  mask := mask
  within := by
    intro bit _ isSet
    rw [Int.testBit_land, Bool.and_eq_true] at isSet
    exact isSet.2

def whole (value : ℤ) : Masked width where
  value := value
  mask := (2 ^ width - 1 : Nat)
  within := by
    intro bit isBit _
    show Nat.testBit (2 ^ width - 1) bit = true
    rw [Nat.testBit_two_pow_sub_one]
    exact decide_eq_true isBit

/-- The number agrees with the value wherever the mask is set. -/
def Takes (masked : Masked width) (number : ℤ) : Prop :=
  ∀ bit, masked.mask.testBit bit = true →
    bit < width ∧ number.testBit bit = masked.value.testBit bit

def meet (one other : Masked width) : Option (Masked width) :=
  if Int.land (Int.land (Int.xor one.value other.value) one.mask) other.mask = 0 then
    some
      { value := Int.lor one.value other.value
        mask := Int.lor one.mask other.mask
        within := by
          intro bit isBit isSet
          rw [Int.testBit_lor, Bool.or_eq_true] at isSet ⊢
          exact isSet.imp (one.within bit isBit) (other.within bit isBit) }
  else none

/-- Whether the one takes every number the other does. -/
def covers (one other : Masked width) : Bool :=
  Int.land one.mask (Int.lnot other.mask) = 0 &&
    Int.land (Int.xor one.value other.value) one.mask = 0

theorem takes_value {masked : Masked width} {mask : Nat} (isMask : masked.mask = mask)
    (fits : mask < 2 ^ width) : masked.Takes masked.value := by
  intro bit isSet
  refine ⟨?_, rfl⟩
  by_contra past
  have noBit : mask.testBit bit = false := by
    apply Nat.testBit_lt_two_pow
    exact lt_of_lt_of_le fits (Nat.pow_le_pow_right (by omega) (not_lt.mp past))
  rw [isMask] at isSet
  have isSet : mask.testBit bit := isSet
  rw [noBit] at isSet
  cases isSet

theorem whole_takes (value : ℤ) : (whole value : Masked width).Takes value :=
  takes_value rfl (Nat.sub_lt (Nat.two_pow_pos width) (by omega))

variable {one other : Masked width} {number : ℤ}

theorem meet_takes (takesOne : one.Takes number) (takesOther : other.Takes number) :
    ∃ both, meet one other = some both ∧ both.Takes number := by
  have agree : Int.land (Int.land (Int.xor one.value other.value) one.mask) other.mask = 0 := by
    apply eq_zero_iff.mpr
    intro bit
    rw [Int.testBit_land, Int.testBit_land, Int.testBit_lxor]
    cases inOne : one.mask.testBit bit with
    | false => simp
    | true =>
      cases inOther : other.mask.testBit bit with
      | false => simp
      | true =>
        rw [← (takesOne bit inOne).2, ← (takesOther bit inOther).2]
        simp
  unfold meet
  rw [if_pos agree]
  refine ⟨_, rfl, ?_⟩
  intro bit isSet
  rw [Int.testBit_lor, Bool.or_eq_true] at isSet
  rw [Int.testBit_lor]
  -- A bit outside a mask is not in its value either.
  have outside : ∀ masked : Masked width, bit < width → masked.mask.testBit bit = false →
      masked.value.testBit bit = false := by
    intro masked isBit notMasked
    cases isSet : masked.value.testBit bit with
    | false => rfl
    | true =>
      rw [masked.within bit isBit isSet] at notMasked
      cases notMasked
  cases inOne : one.mask.testBit bit with
  | true =>
    obtain ⟨isBit, isOne⟩ := takesOne bit inOne
    refine ⟨isBit, ?_⟩
    cases inOther : other.mask.testBit bit with
    | true =>
      rw [← isOne, ← (takesOther bit inOther).2, Bool.or_self]
    | false =>
      rw [← isOne, outside other isBit inOther, Bool.or_false]
  | false =>
    rcases isSet with inOne' | inOther
    · rw [inOne] at inOne'
      cases inOne'
    · obtain ⟨isBit, isOther⟩ := takesOther bit inOther
      refine ⟨isBit, ?_⟩
      rw [← isOther, outside one isBit inOne, Bool.false_or]

theorem takes_of_covers (isCovered : covers one other) (takesOther : other.Takes number) :
    one.Takes number := by
  unfold covers at isCovered
  rw [Bool.and_eq_true, decide_eq_true_eq, decide_eq_true_eq] at isCovered
  have inMask := land_lnot_eq_zero.mp isCovered.1
  have agree := land_xor_eq_zero.mp isCovered.2
  intro bit isSet
  obtain ⟨isBit, isOther⟩ := takesOther bit (inMask bit isSet)
  exact ⟨isBit, isOther.trans (agree bit isSet).symm⟩

/-! ### Numbers of any size -/

def Agrees (masked : Masked width) (number : ℤ) : Prop :=
  ∀ bit, masked.mask.testBit bit = true → number.testBit bit = masked.value.testBit bit

/-- No value has a bit that only the other's mask asks for. -/
def Tidy (one other : Masked width) : Prop :=
  (∀ bit, one.mask.testBit bit = true → other.mask.testBit bit = false →
      other.value.testBit bit = true → one.value.testBit bit = true) ∧
    ∀ bit, other.mask.testBit bit = true → one.mask.testBit bit = false →
      one.value.testBit bit = true → other.value.testBit bit = true

theorem agrees_value (masked : Masked width) : masked.Agrees masked.value := fun _ _ => rfl

theorem agrees_of_zero {masked : Masked width} (isZero : masked.mask = 0) (number : ℤ) :
    masked.Agrees number := by
  intro bit isSet
  rw [eq_zero_iff.mp isZero bit] at isSet
  cases isSet

theorem meet_eq_none_iff :
    meet one other = none ↔ ∃ bit, one.mask.testBit bit ∧ other.mask.testBit bit ∧
      one.value.testBit bit ≠ other.value.testBit bit := by
  have agree : Int.land (Int.land (Int.xor one.value other.value) one.mask) other.mask = 0 ↔
      ∀ bit, one.mask.testBit bit = true → other.mask.testBit bit = true →
        one.value.testBit bit = other.value.testBit bit := by
    rw [eq_zero_iff]
    apply forall_congr'
    intro bit
    rw [Int.testBit_land, Int.testBit_land, Int.testBit_lxor]
    cases one.value.testBit bit <;> cases other.value.testBit bit <;>
      cases one.mask.testBit bit <;> cases other.mask.testBit bit <;> simp
  unfold meet
  split
  · rename_i isZero
    simp only [reduceCtorEq, false_iff]
    rintro ⟨bit, inOne, inOther, differ⟩
    exact differ (agree.mp isZero bit inOne inOther)
  · rename_i notZero
    simp only [true_iff]
    by_contra nowhere
    push Not at nowhere
    exact notZero (agree.mpr nowhere)

theorem exists_agrees (same : ∀ bit, one.mask.testBit bit → other.mask.testBit bit →
    one.value.testBit bit = other.value.testBit bit) :
    ∃ number, one.Agrees number ∧ other.Agrees number := by
  refine ⟨Int.lor (Int.land one.value one.mask) (Int.land other.value (Int.lnot one.mask)), ?_, ?_⟩
  · intro bit inOne
    rw [Int.testBit_lor, Int.testBit_land, Int.testBit_land, Int.testBit_lnot, inOne]
    simp
  · intro bit inOther
    rw [Int.testBit_lor, Int.testBit_land, Int.testBit_land, Int.testBit_lnot]
    cases inOne : one.mask.testBit bit with
    | false => simp
    | true => simpa using same bit inOne inOther

theorem meet_agrees_iff {both : Masked width} (isMeet : meet one other = some both) :
    (∀ number, both.Agrees number ↔ one.Agrees number ∧ other.Agrees number) ↔ Tidy one other := by
  have same : ∀ bit, one.mask.testBit bit → other.mask.testBit bit →
      one.value.testBit bit = other.value.testBit bit := by
    intro bit inOne inOther
    by_contra differ
    rw [meet_eq_none_iff.mpr ⟨bit, inOne, inOther, differ⟩] at isMeet
    cases isMeet
  have isMask : both.mask = Int.lor one.mask other.mask ∧
      both.value = Int.lor one.value other.value := by
    unfold meet at isMeet
    split at isMeet
    · cases isMeet
      exact ⟨rfl, rfl⟩
    · cases isMeet
  constructor
  · intro exactly
    obtain ⟨number, underOne, underOther⟩ := exists_agrees same
    have underBoth := (exactly number).mpr ⟨underOne, underOther⟩
    refine ⟨?_, ?_⟩
    · intro bit inOne _ isSet
      have isBit := underBoth bit (by rw [isMask.1, Int.testBit_lor, inOne, Bool.true_or])
      rw [isMask.2, Int.testBit_lor, isSet, Bool.or_true, underOne bit inOne] at isBit
      exact isBit
    · intro bit inOther _ isSet
      have isBit := underBoth bit (by rw [isMask.1, Int.testBit_lor, inOther, Bool.or_true])
      rw [isMask.2, Int.testBit_lor, isSet, Bool.true_or, underOther bit inOther] at isBit
      exact isBit
  · rintro ⟨tidyOne, tidyOther⟩ number
    -- Under a mask the joined value is that mask's own.
    have ofOne : ∀ bit, one.mask.testBit bit → both.value.testBit bit = one.value.testBit bit := by
      intro bit inOne
      rw [isMask.2, Int.testBit_lor]
      cases inOther : other.mask.testBit bit with
      | true => rw [same bit inOne inOther, Bool.or_self]
      | false =>
        cases isSet : other.value.testBit bit with
        | false => rw [Bool.or_false]
        | true => rw [tidyOne bit inOne inOther isSet, Bool.or_true]
    have ofOther : ∀ bit, other.mask.testBit bit →
        both.value.testBit bit = other.value.testBit bit := by
      intro bit inOther
      rw [isMask.2, Int.testBit_lor]
      cases inOne : one.mask.testBit bit with
      | true => rw [same bit inOne inOther, Bool.or_self]
      | false =>
        cases isSet : one.value.testBit bit with
        | false => rw [Bool.false_or]
        | true => rw [tidyOther bit inOther inOne isSet, Bool.true_or]
    constructor
    · intro underBoth
      refine ⟨?_, ?_⟩
      · intro bit inOne
        rw [underBoth bit (by rw [isMask.1, Int.testBit_lor, inOne, Bool.true_or])]
        exact ofOne bit inOne
      · intro bit inOther
        rw [underBoth bit (by rw [isMask.1, Int.testBit_lor, inOther, Bool.or_true])]
        exact ofOther bit inOther
    · rintro ⟨underOne, underOther⟩ bit isSet
      rw [isMask.1, Int.testBit_lor, Bool.or_eq_true] at isSet
      rcases isSet with inOne | inOther
      · rw [underOne bit inOne, ofOne bit inOne]
      · rw [underOther bit inOther, ofOther bit inOther]

theorem covers_iff_agrees :
    covers one other ↔ ∀ number, other.Agrees number → one.Agrees number := by
  unfold covers
  rw [Bool.and_eq_true, decide_eq_true_eq, decide_eq_true_eq, land_lnot_eq_zero, land_xor_eq_zero]
  constructor
  · rintro ⟨inMask, agree⟩ number underOther bit isSet
    rw [underOther bit (inMask bit isSet), agree bit isSet]
  · intro every
    have agree : ∀ bit, one.mask.testBit bit → one.value.testBit bit = other.value.testBit bit :=
      fun bit isSet => (every other.value other.agrees_value bit isSet).symm
    refine ⟨?_, agree⟩
    intro bit isSet
    by_contra notMasked
    -- A bit the other leaves open can be turned.
    have underOther : other.Agrees (Int.xor other.value (2 ^ bit : Nat)) := by
      intro place inOther
      have isOther : place ≠ bit := by
        rintro rfl
        exact notMasked inOther
      have noBit : Int.testBit ((2 ^ bit : Nat) : ℤ) place = false := by
        show Nat.testBit (2 ^ bit) place = false
        rw [Nat.testBit_two_pow]
        exact decide_eq_false isOther.symm
      rw [Int.testBit_lxor, noBit, Bool.xor_false]
    have isTurned := every _ underOther bit isSet
    have hasBit : Int.testBit ((2 ^ bit : Nat) : ℤ) bit := by
      show Nat.testBit (2 ^ bit) bit = true
      rw [Nat.testBit_two_pow_self]
    rw [Int.testBit_lxor, hasBit, agree bit isSet, Bool.xor_true] at isTurned
    exact absurd isTurned (by cases other.value.testBit bit <;> simp)

theorem eq_of_agrees_whole {one other : Nat} (fitsOne : one < 2 ^ width) (fitsOther : other < 2 ^ width)
    {number : ℤ} (underOne : (whole one : Masked width).Agrees number)
    (underOther : (whole other : Masked width).Agrees number) : one = other := by
  apply Nat.eq_of_testBit_eq
  intro bit
  by_cases inWidth : bit < width
  · have isSet : Int.testBit ((2 ^ width - 1 : Nat) : ℤ) bit := by
      show Nat.testBit (2 ^ width - 1) bit = true
      rw [Nat.testBit_two_pow_sub_one]
      exact decide_eq_true inWidth
    exact (underOne bit isSet).symm.trans (underOther bit isSet)
  · have past : 2 ^ width ≤ 2 ^ bit := Nat.pow_le_pow_right (by omega) (not_lt.mp inWidth)
    rw [Nat.testBit_lt_two_pow (lt_of_lt_of_le fitsOne past),
      Nat.testBit_lt_two_pow (lt_of_lt_of_le fitsOther past)]

end Masked

end Nmas.Bits
