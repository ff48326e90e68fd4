import Nmas.Dhcp.PoolTexts
import Nmas.Log.Machine
import Nmas.Text.Dotted

/-!
Contract: a pool that is written is a pool that is read, and pools of two subnets
stay apart.

Owns:
- the texts `pieces` and `_settings` write, and which of them `pool_span` reads;
- exactly when the form's pool is refused for every pool it shares an address
  with;
- the runs of plans, over any number of subnets, in which no two subnets' pools
  share an address.

What the `ipaddress` module writes of an address it reads back: the one law of
its that is used.
-/

namespace Nmas.Dhcp.PoolTexts

open Nmas.Text List
open Nmas.Log.Machine (run Along)

/-- An address is written without a blank, a dash or a slash, and read back. -/
class Printed [Readers] : Prop where
  reads : ∀ address, Readers.ipAddress (Readers.compressed address) = some address
  plain : ∀ address, ∀ c ∈ Readers.compressed address,
    isSpace c = false ∧ isDash c = false ∧ c ≠ '/'
  visible : ∀ address, Readers.compressed address ≠ []

section

variable [Readers]

/-- A text `pieces` or `_settings` writes. -/
def Written (text : Str) : Prop :=
  ∃ range : Span, range.Ordered ∧ (text = words range ∨ text = dashed range)

/-- `words` of one address. -/
def Lone (text : Str) : Prop := ∃ address, text = Readers.compressed address

/-- `pool_span` reads the first address and the last that are meant. -/
def ReadsBack (text : Str) : Prop := (span text).isSome ∧ poolSpan text = span text

def InPool (range : Span) (text : Str) : Prop := ∃ own, span text = some own ∧ range.Meets own

/-- The form's pool is refused wherever it shares an address with another subnet's pool. -/
def Refuses (network : Network) (others : List (List Str)) : Prop :=
  ∀ text asked, poolIn network text = some asked →
    (∃ pools ∈ others, ∃ mate ∈ pools, InPool asked mate) → setPool network others text = none

def Guarded (network : Network) (others : List (List Str)) : Prop :=
  ∀ pools ∈ others, ∀ address, Readers.compressed address ∈ pools →
    inNetwork network address = true →
      ∃ mates ∈ others, ∃ mate ∈ mates, ¬ Lone mate ∧ InPool (address, address) mate

end

/-! ### Texts -/

section Parts

variable {isSeparator : Char → Bool} {front rest text : Str} {c : Char}

theorem splitWhere_plain (plain : ∀ c ∈ text, isSeparator c = false) :
    splitWhere isSeparator text = [text] := by
  induction text with
  | nil => rfl
  | cons c rest ih =>
    obtain ⟨isPlain, restPlain⟩ := forall_mem_cons.mp plain
    rw [splitWhere, isPlain, ih restPlain]
    rfl

theorem splitWhere_append (plain : ∀ c ∈ front, isSeparator c = false) (separates : isSeparator c) :
    splitWhere isSeparator (front ++ c :: rest) = front :: splitWhere isSeparator rest := by
  induction front with
  | nil =>
    rw [nil_append, splitWhere, separates]
    rfl
  | cons d front ih =>
    obtain ⟨isPlain, frontPlain⟩ := forall_mem_cons.mp plain
    rw [cons_append, splitWhere, isPlain, ih frontPlain]
    rfl

theorem strip_blank_after (noSpace : ∀ c ∈ text, isSpace c = false) : strip (text ++ [' ']) = text := by
  rw [← strip_rstrip, rstrip, rdropWhile_concat_pos _ _ _ rfl]
  show strip (rstrip text) = text
  rw [strip_rstrip, strip_of_no_space noSpace]

theorem strip_blank_before (noSpace : ∀ c ∈ text, isSpace c = false) : strip (' ' :: text) = text := by
  have blank : strip ([' '] ++ text) = strip text := strip_indent (by decide)
  exact blank.trans (strip_of_no_space noSpace)

end Parts

section Texts

variable [Readers] [Printed] {address : Address} {range own other asked : Span} {text mate : Str}
  {network : Network} {others : List (List Str)} {pools : List Str}

omit [Readers] [Printed] in
theorem isDash_dash : isDash '-' := rfl

theorem noSpace_compressed (address : Address) : ∀ c ∈ Readers.compressed address, isSpace c = false :=
  fun c isIn => (Printed.plain address c isIn).1

theorem partsAt_compressed {isSeparator : Char → Bool}
    (plain : ∀ c, isDash c = false → isSeparator c = false) :
    partsAt isSeparator (Readers.compressed address) = [Readers.compressed address] := by
  unfold partsAt
  rw [splitWhere_plain fun c isIn => plain c (Printed.plain address c isIn).2.1, map_singleton,
    strip_of_no_space (noSpace_compressed address)]
  simp [Printed.visible address]

theorem partsAt_dashed {isSeparator : Char → Bool}
    (plain : ∀ c, isDash c = false → isSeparator c = false) (separates : isSeparator '-') :
    partsAt isSeparator (dashed range) =
      [Readers.compressed range.1, Readers.compressed range.2] := by
  have noSeparator (address : Address) : ∀ c ∈ Readers.compressed address, isSeparator c = false :=
    fun c isIn => plain c (Printed.plain address c isIn).2.1
  have blank : isSeparator ' ' = false := plain ' ' rfl
  have first : ∀ c ∈ Readers.compressed range.1 ++ [' '], isSeparator c = false := by
    intro c isIn
    rcases mem_append.mp isIn with isIn | isIn
    · exact noSeparator range.1 c isIn
    · rw [mem_singleton.mp isIn]
      exact blank
  have second : ∀ c ∈ ' ' :: Readers.compressed range.2, isSeparator c = false :=
    forall_mem_cons.mpr ⟨blank, noSeparator range.2⟩
  have shape : dashed range =
      (Readers.compressed range.1 ++ [' ']) ++ '-' :: ' ' :: Readers.compressed range.2 := by
    simp [dashed]
  unfold partsAt
  rw [shape, splitWhere_append first separates, splitWhere_plain second, map_cons,
    map_singleton, strip_blank_after (noSpace_compressed range.1),
    strip_blank_before (noSpace_compressed range.2)]
  simp [Printed.visible range.1, Printed.visible range.2]

omit [Readers] [Printed] in
theorem dash_of_not_isDash (c : Char) (notDash : isDash c = false) : decide (c = '-') = false := by
  by_contra isDash_
  have isHyphen : c = '-' := by simpa using isDash_
  rw [isHyphen] at notDash
  cases notDash

theorem span_compressed : span (Readers.compressed address) = some (address, address) := by
  unfold span
  rw [partsAt_compressed fun c notDash => notDash]
  simp only [Printed.reads, Option.map_some]

theorem span_dashed (ordered : range.Ordered) : span (dashed range) = some range := by
  unfold span
  rw [partsAt_dashed (fun c notDash => notDash) isDash_dash]
  simp only [Printed.reads, Option.bind_eq_bind, Option.bind_some]
  exact if_pos ordered

theorem span_words (ordered : range.Ordered) : span (words range) = some range := by
  unfold words
  split
  · rename_i same
    rw [span_compressed]
    exact congrArg some (Prod.ext rfl same)
  · exact span_dashed ordered

theorem poolSpan_compressed : poolSpan (Readers.compressed address) = none := by
  unfold poolSpan
  rw [partsAt_compressed dash_of_not_isDash]
  exact if_neg fun isSlash => (Printed.plain address '/' isSlash).2.2 rfl

theorem poolSpan_dashed : poolSpan (dashed range) = some range := by
  unfold poolSpan
  rw [partsAt_dashed dash_of_not_isDash rfl]
  simp only [Printed.reads, Option.bind_eq_bind, Option.bind_some]
  rfl

omit [Printed] in
theorem Written.cases (written : Written text) :
    (∃ address, text = Readers.compressed address) ∨ ∃ range : Span, range.Ordered ∧ text = dashed range := by
  obtain ⟨range, ordered, isWords | isDashed⟩ := written
  · unfold words at isWords
    split at isWords
    · exact .inl ⟨_, isWords⟩
    · exact .inr ⟨range, ordered, isWords⟩
  · exact .inr ⟨range, ordered, isDashed⟩

/-- **What is written is read back exactly when it is not a lone address.** -/
theorem readsBack_iff (written : Written text) : ReadsBack text ↔ ¬ Lone text := by
  rcases written.cases with ⟨address, rfl⟩ | ⟨range, ordered, rfl⟩
  · refine iff_of_false ?_ fun notLone => notLone ⟨address, rfl⟩
    rintro ⟨-, isSame⟩
    rw [poolSpan_compressed, span_compressed] at isSame
    cases isSame
  · refine iff_of_true ⟨?_, ?_⟩ ?_
    · rw [span_dashed ordered]
      rfl
    · rw [poolSpan_dashed, span_dashed ordered]
    · rintro ⟨address, isLone⟩
      have isRead : poolSpan (dashed range) = some range := poolSpan_dashed
      rw [isLone, poolSpan_compressed] at isRead
      cases isRead

theorem poolSpan_some (written : Written text) (isRead : poolSpan text = some range) :
    ¬ Lone text ∧ span text = some range ∧ range.Ordered := by
  rcases written.cases with ⟨address, rfl⟩ | ⟨own, ordered, rfl⟩
  · rw [poolSpan_compressed] at isRead
    cases isRead
  · have notLone : ¬ Lone (dashed own) :=
      (readsBack_iff ⟨own, ordered, .inr rfl⟩).mp
        ⟨by rw [span_dashed ordered]; rfl, by rw [poolSpan_dashed, span_dashed ordered]⟩
    rw [poolSpan_dashed] at isRead
    cases isRead
    exact ⟨notLone, span_dashed ordered, ordered⟩

theorem poolSpan_of_not_lone (written : Written text) (notLone : ¬ Lone text) :
    poolSpan text = span text :=
  ((readsBack_iff written).mpr notLone).2

/-! ### The network -/

omit [Readers] [Printed] in
theorem and_netmask (network : Network) (sameFamily : address.isV6 = network.networkAddress.isV6) :
    address.number &&& network.netmask =
      (address.number >>> (address.maxPrefixlen - network.prefixlen)) <<<
        (address.maxPrefixlen - network.prefixlen) := by
  have sameWidth : network.networkAddress.maxPrefixlen = address.maxPrefixlen := by
    unfold Address.maxPrefixlen
    rw [sameFamily]
  have fits : address.number < 2 ^ address.maxPrefixlen := address.fits
  unfold Network.netmask Address.netmask
  rw [sameWidth]
  generalize address.maxPrefixlen = width at fits
  apply Nat.eq_of_testBit_eq
  intro place
  simp only [Nat.testBit_and, Nat.testBit_shiftLeft, Nat.testBit_shiftRight, Nat.testBit_two_pow_sub_one]
  by_cases isHost : place < width - network.prefixlen
  · simp [Nat.not_le.mpr isHost]
  · have isNetwork : width - network.prefixlen ≤ place := Nat.le_of_not_lt isHost
    have same : width - network.prefixlen + (place - (width - network.prefixlen)) = place := by omega
    simp only [ge_iff_le, isNetwork, decide_true, Bool.true_and, same]
    by_cases isBeyond : width ≤ place
    · have isZero : address.number.testBit place = false :=
        Nat.testBit_lt_two_pow (fits.trans_le (Nat.pow_le_pow_right (by omega) isBeyond))
      simp [isZero]
    · have isWithin : place - (width - network.prefixlen) < network.prefixlen := by omega
      simp [isWithin]

omit [Readers] [Printed] in
theorem inNetwork_between {first last : Address} (isFirst : inNetwork network first)
    (isLast : inNetwork network last) (sameFamily : address.isV6 = first.isV6)
    (least : first.number ≤ address.number) (most : address.number ≤ last.number) :
    inNetwork network address := by
  simp only [inNetwork, decide_eq_true_eq] at isFirst isLast ⊢
  have ofNetwork := sameFamily.trans isFirst.1
  refine ⟨ofNetwork, ?_⟩
  have width {one : Address} (isOne : one.isV6 = network.networkAddress.isV6) :
      one.maxPrefixlen = network.networkAddress.maxPrefixlen := congrArg maxPrefixlenOf isOne
  have firstShift := isFirst.2
  have lastShift := isLast.2
  rw [and_netmask network isFirst.1, width isFirst.1] at firstShift
  rw [and_netmask network isLast.1, width isLast.1] at lastShift
  rw [and_netmask network ofNetwork, width ofNetwork]
  simp only [Nat.shiftLeft_eq, Nat.shiftRight_eq_div_pow] at firstShift lastShift ⊢
  refine le_antisymm ?_ ?_
  · rw [← lastShift]
    exact Nat.mul_le_mul_right _ (Nat.div_le_div_right most)
  · rw [← firstShift]
    exact Nat.mul_le_mul_right _ (Nat.div_le_div_right least)

omit [Printed] in
theorem poolIn_some (isAsked : poolIn network text = some asked) :
    asked.Ordered ∧ inNetwork network asked.1 ∧ inNetwork network asked.2 := by
  unfold poolIn at isAsked
  split at isAsked
  · obtain ⟨first, -, isLast⟩ := Option.bind_eq_some_iff.mp isAsked
    obtain ⟨last, -, isRange⟩ := Option.bind_eq_some_iff.mp isLast
    split at isRange
    · rename_i within
      cases isRange
      have firstFamily : first.isV6 = network.networkAddress.isV6 := (of_decide_eq_true within.1).1
      have lastFamily : last.isV6 = network.networkAddress.isV6 := (of_decide_eq_true within.2.1).1
      exact ⟨⟨firstFamily.trans lastFamily.symm, within.2.2⟩, within.1, within.2.1⟩
    · cases isRange
  · cases isAsked

theorem poolIn_one (inNet : inNetwork network address) :
    poolIn network (dashed (address, address)) = some (address, address) := by
  unfold poolIn
  rw [partsAt_dashed (fun c notDash => notDash) isDash_dash]
  simp only [Printed.reads, Option.bind_eq_bind, Option.bind_some]
  exact if_pos ⟨inNet, inNet, le_rfl⟩

/-! ### The refusal -/

omit [Readers] [Printed] in
theorem overlaps_iff (otherOrdered : other.Ordered) :
    overlaps asked other = some false ↔ ¬ asked.Meets other := by
  unfold overlaps Span.Meets
  have sameOther := otherOrdered.1
  split
  · rename_i notFamily
    exact iff_of_true rfl fun meets => notFamily meets.1.symm
  · rename_i isFamily
    rw [ne_eq, not_not] at isFamily
    split
    · rename_i isBefore
      exact iff_of_true rfl fun meets => absurd meets.2.2 (Nat.not_le.mpr isBefore)
    · rename_i notBefore
      rw [if_neg (by rw [← sameOther, isFamily]; exact not_not.mpr rfl)]
      simp only [Option.some.injEq, decide_eq_false_iff_not]
      constructor
      · exact fun notMeets meets => notMeets meets.2.1
      · exact fun notMeets isWithin => notMeets ⟨isFamily.symm, isWithin, Nat.le_of_not_lt notBefore⟩

theorem setPool_eq_none_iff (written : ∀ pools ∈ others, ∀ mate ∈ pools, Written mate)
    (isAsked : poolIn network text = some asked) :
    setPool network others text = none ↔
      ∃ pools ∈ others, ∃ mate ∈ pools, ¬ Lone mate ∧ InPool asked mate := by
  unfold setPool
  rw [isAsked, Option.bind_some, ite_eq_right_iff]
  simp only [reduceCtorEq, imp_false, all_eq_true, decide_eq_true_eq, not_forall]
  constructor
  · rintro ⟨pools, isPools, other, isOther, meets⟩
    obtain ⟨mate, isMate, isRead⟩ := mem_filterMap.mp isOther
    obtain ⟨notLone, isSpan, otherOrdered⟩ := poolSpan_some (written pools isPools mate isMate) isRead
    rw [overlaps_iff otherOrdered, not_not] at meets
    exact ⟨pools, isPools, mate, isMate, notLone, other, isSpan, meets⟩
  · rintro ⟨pools, isPools, mate, isMate, notLone, other, isSpan, meets⟩
    have isRead := (poolSpan_of_not_lone (written pools isPools mate isMate) notLone).trans isSpan
    have otherOrdered := span_ordered isSpan
    refine ⟨pools, isPools, other, mem_filterMap.mpr ⟨mate, isMate, isRead⟩, ?_⟩
    rw [overlaps_iff otherOrdered, not_not]
    exact meets

/-- **The form's pool is refused wherever it shares an address exactly when every lone address
it could hold is in a pool that is read.** -/
theorem refuses_iff (written : ∀ pools ∈ others, ∀ mate ∈ pools, Written mate) :
    Refuses network others ↔ Guarded network others := by
  constructor
  · intro refuses pools isPools address isLone inNet
    have isAsked := poolIn_one inNet
    have isRefused := refuses _ _ isAsked ⟨pools, isPools, _, isLone, (address, address),
      span_compressed, rfl, le_rfl, le_rfl⟩
    exact (setPool_eq_none_iff written isAsked).mp isRefused
  · rintro guarded text asked isAsked ⟨pools, isPools, mate, isMate, own, isSpan, meets⟩
    rw [setPool_eq_none_iff written isAsked]
    by_cases lone : Lone mate
    · obtain ⟨address, rfl⟩ := lone
      rw [span_compressed] at isSpan
      cases isSpan
      obtain ⟨-, inFirst, inLast⟩ := poolIn_some isAsked
      have inNet := inNetwork_between inFirst inLast meets.1.symm meets.2.1 meets.2.2
      obtain ⟨mates, isMates, mate, isMate, notLone, own, isSpan, holds⟩ :=
        guarded pools isPools address isMate inNet
      refine ⟨mates, isMates, mate, isMate, notLone, own, isSpan, meets.1.trans holds.1, ?_, ?_⟩
      · exact meets.2.1.trans holds.2.1
      · exact holds.2.2.trans meets.2.2
    · exact ⟨pools, isPools, mate, isMate, lone, own, isSpan, meets⟩

theorem length_poolsOf_iff (written : ∀ text ∈ pools, Written text) :
    (poolsOf pools).length = pools.length ↔ ∀ text ∈ pools, ¬ Lone text := by
  unfold poolsOf
  rw [length_filterMap_eq_countP, countP_eq_length]
  refine forall₂_congr fun text isIn => ?_
  rw [← readsBack_iff (written text isIn)]
  obtain ⟨range, ordered, isText⟩ := written text isIn
  have isSpan : span text = some range := by
    rcases isText with rfl | rfl
    · exact span_words ordered
    · exact span_dashed ordered
  unfold ReadsBack
  rw [isSpan]
  constructor
  · intro isRead
    obtain ⟨own, isOwn⟩ := Option.isSome_iff_exists.mp isRead
    have isSame := (poolSpan_some (written text isIn) isOwn).2.1
    exact ⟨rfl, isOwn.trans (isSame.symm.trans isSpan)⟩
  · rintro ⟨-, isSame⟩
    rw [isSame]
    rfl

end Texts

/-! ### Plans of several subnets -/

section Plans

variable [Readers]

/-- A plan of `_settings`: a new subnet's pool, or another pool for a subnet in its place. -/
inductive Plan where
  | add (network : Network) (pool : Str)
  | edit (place : Nat) (network : Network) (pool : Str)

/-- Each subnet's pools once a plan is taken; a plan that is refused leaves them. -/
def planned (state : List (List Str)) : Plan → List (List Str)
  | .add network pool =>
    match setPool network state pool with
    | some text => state ++ [[text]]
    | none => state
  | .edit place network pool =>
    match setPool network (state.eraseIdx place) pool with
    | some text => state.set place [text]
    | none => state

/-- **The condition.** Every lone address of the other subnets that the pool could hold is in a
pool that is read. -/
def Guards (state : List (List Str)) : Plan → Prop
  | .add network _ => Guarded network state
  | .edit place network _ => Guarded network (state.eraseIdx place)

def Shares (one other : List Str) : Prop :=
  ∃ text ∈ one, ∃ range, span text = some range ∧ ∃ mate ∈ other, InPool range mate

/-- The pools are as they are written, and those of two subnets share no address. -/
structure Apart (state : List (List Str)) : Prop where
  written : ∀ pools ∈ state, ∀ text ∈ pools, Written text
  apart : ∀ (place other : Nat) (one two : List Str), place ≠ other → state[place]? = some one →
    state[other]? = some two → ¬ Shares one two

variable {state : List (List Str)} {one other : List Str} {network : Network} {text pool : Str}
  {place : Nat} {others : List (List Str)}

omit [Readers] in
theorem getElem?_concat {last found : List Str} (isFound : (state ++ [last])[place]? = some found) :
    place = state.length ∧ found = last ∨ place ≠ state.length ∧ state[place]? = some found := by
  rw [List.getElem?_append] at isFound
  split at isFound
  · rename_i isWithin
    exact .inr ⟨isWithin.ne, isFound⟩
  · rename_i notWithin
    obtain ⟨isPlace, isLast⟩ := List.getElem?_eq_some_iff.mp isFound
    rw [length_singleton] at isPlace
    refine .inl ⟨by omega, ?_⟩
    rw [← isLast, getElem_singleton]

theorem Shares.symm (shares : Shares one other) : Shares other one := by
  obtain ⟨text, isText, range, isRange, mate, isMate, own, isOwn, family, least, most⟩ := shares
  exact ⟨mate, isMate, own, isOwn, text, isText, range, isRange, family.symm, most, least⟩

variable [Printed]

theorem setPool_apart (written : ∀ pools ∈ others, ∀ mate ∈ pools, Written mate)
    (guarded : Guarded network others) (isSet : setPool network others text = some pool) :
    Written pool ∧ ∀ pools ∈ others, ¬ Shares [pool] pools := by
  obtain ⟨asked, isAsked, isPool⟩ := Option.bind_eq_some_iff.mp isSet
  have ordered := (poolIn_some isAsked).1
  split at isPool
  · cases isPool
    refine ⟨⟨asked, ordered, .inr rfl⟩, fun pools isPools shares => ?_⟩
    obtain ⟨text, isText, range, isRange, mate, isMate, inPool⟩ := shares
    rw [mem_singleton.mp isText, span_dashed ordered] at isRange
    cases isRange
    have isRefused := (refuses_iff written).mpr guarded _ _ isAsked ⟨pools, isPools, mate, isMate, inPool⟩
    rw [isSet] at isRefused
    cases isRefused
  · cases isPool

omit [Printed] in
theorem Apart.placed {next : List (List Str)} (apart : Apart state) (place : Nat) (isWritten : Written pool)
    (notShared : ∀ other pools, other ≠ place → next[other]? = some pools → ¬ Shares [pool] pools)
    (isNext : ∀ other pools, next[other]? = some pools →
      other = place ∧ pools = [pool] ∨ other ≠ place ∧ state[other]? = some pools) : Apart next where
  written pools isPools := by
    obtain ⟨other, isOther⟩ := mem_iff_getElem?.mp isPools
    rcases isNext other pools isOther with ⟨-, rfl⟩ | ⟨-, isOld⟩
    · exact forall_mem_singleton.mpr isWritten
    · exact apart.written pools (mem_of_getElem? isOld)
  apart first second one two notSame isOne isTwo := by
    rcases isNext first one isOne with ⟨rfl, rfl⟩ | ⟨firstNot, oneOld⟩
    · exact notShared second two (Ne.symm notSame) isTwo
    · rcases isNext second two isTwo with ⟨rfl, rfl⟩ | ⟨secondNot, twoOld⟩
      · exact fun shares => notShared first one firstNot isOne shares.symm
      · exact apart.apart first second one two notSame oneOld twoOld

/-- **A plan.** Pools that are apart are apart once it is taken. -/
theorem planned_apart (state : List (List Str)) (plan : Plan) (apart : Apart state)
    (guards : Guards state plan) : Apart (planned state plan) := by
  cases plan with
  | add network pool =>
    simp only [planned]
    split
    · rename_i text isSet
      obtain ⟨isWritten, notShared⟩ := setPool_apart apart.written guards isSet
      refine apart.placed state.length isWritten (fun other pools notLast isOther => ?_)
        fun other pools isOther => ?_
      · rcases getElem?_concat isOther with ⟨isLast, -⟩ | ⟨-, isOld⟩
        · exact absurd isLast notLast
        · exact notShared pools (mem_of_getElem? isOld)
      · exact getElem?_concat isOther
    · exact apart
  | edit place network pool =>
    simp only [planned]
    split
    · rename_i text isSet
      have written : ∀ pools ∈ state.eraseIdx place, ∀ mate ∈ pools, Written mate :=
        fun pools isPools => apart.written pools (mem_of_mem_eraseIdx isPools)
      obtain ⟨isWritten, notShared⟩ := setPool_apart written guards isSet
      refine apart.placed place isWritten (fun other pools notPlace isOther => ?_)
        fun other pools isOther => ?_
      · rw [List.getElem?_set_ne (Ne.symm notPlace)] at isOther
        exact notShared pools (mem_eraseIdx_iff_getElem?.mpr ⟨other, notPlace, isOther⟩)
      · by_cases isPlace : other = place
        · subst isPlace
          obtain ⟨isWithin, -⟩ := List.getElem?_eq_some_iff.mp isOther
          rw [List.getElem?_set_self (by simpa using isWithin)] at isOther
          cases isOther
          exact .inl ⟨rfl, rfl⟩
        · rw [List.getElem?_set_ne (Ne.symm isPlace)] at isOther
          exact .inr ⟨isPlace, isOther⟩
    · exact apart

/-- **What writes a pool and what reads it agree exactly off the lone addresses.** A text is read
back, and no pool is left out, exactly when it is none; a plan is refused for every address it
would share exactly when each lone one is in a pool that is read; and plans for which it is leave
the subnets' pools apart. -/
theorem pools_agree :
    (∀ text, Written text → (ReadsBack text ↔ ¬ Lone text)) ∧
    (∀ pools : List Str, (∀ text ∈ pools, Written text) →
      ((poolsOf pools).length = pools.length ↔ ∀ text ∈ pools, ¬ Lone text)) ∧
    (∀ network others, (∀ pools ∈ others, ∀ text ∈ pools, Written text) →
      (Refuses network others ↔ Guarded network others)) ∧
    ∀ state plans, Apart state → Along planned Guards state plans →
      Apart (run planned state plans) :=
  ⟨fun _ => readsBack_iff, fun _ => length_poolsOf_iff, fun _ _ => refuses_iff,
    fun _ _ apart along => along.keeps planned_apart apart⟩

end Plans

theorem printed_groupReaders : @Printed groupReaders :=
  let _ : Readers := groupReaders
  { reads := groupReaders_reads
    plain := fun address c isIn => by
      have isPlain := groupReaders_plain address c isIn
      refine ⟨isPlain.1, ?_, isPlain.2.2.2⟩
      simp [isDash, isPlain.2.1, isPlain.2.2.1]
    visible := groupReaders_visible }

def testNet : Network := ⟨⟨false, 0xc0000200, by decide⟩, 24, by decide⟩

/-- Two subnets of one prefix, each given its half. -/
theorem pools_agree_halves :
    letI : Readers := groupReaders
    Apart (run planned [] [.add testNet "192.0.2.1 - 192.0.2.9".ascii,
      .add testNet "192.0.2.10 - 192.0.2.99".ascii]) := by
  let _ : Readers := groupReaders
  have _ : Printed := printed_groupReaders
  have isFirst : planned [] (.add testNet "192.0.2.1 - 192.0.2.9".ascii) =
      [["192.0.2.1 - 192.0.2.9".ascii]] := by
    decide
  refine pools_agree.2.2.2 [] _ ⟨by simp, by simp⟩ ⟨?_, ?_, trivial⟩
  · intro pools isPools
    cases isPools
  · rw [isFirst]
    intro pools isPools address isLone
    rw [List.mem_singleton.mp isPools, List.mem_singleton] at isLone
    have noDash := groupReaders_plain address '-' (by rw [isLone]; decide)
    exact absurd rfl noDash.2.1

/-- A pool cut down to one address is written so that it is not read, and another subnet is given
that address. -/
theorem lone_piece :
    letI : Readers := groupReaders
    pieces "192.0.2.1 - 192.0.2.5".ascii ["192.0.2.2 - 192.0.2.5".ascii] = some ["192.0.2.1".ascii] ∧
      ¬ ReadsBack "192.0.2.1".ascii ∧
      setPool testNet [["192.0.2.1".ascii]] "192.0.2.1 - 192.0.2.9".ascii =
        some "192.0.2.1 - 192.0.2.9".ascii := by
  let _ : Readers := groupReaders
  refine ⟨by decide, ?_, by decide⟩
  rintro ⟨-, isSame⟩
  have isRead : poolSpan "192.0.2.1".ascii = none := by decide
  have isSpan : (span "192.0.2.1".ascii).isSome = true := by decide
  rw [← isSame, isRead] at isSpan
  cases isSpan

end Nmas.Dhcp.PoolTexts
