import Nmas.Ranges.Runs
import Nmas.Text.Addresses
import Nmas.Text.Str

/-!
Contract: the texts of a subnet's pools, as they are written and as they are read.

Owns: `dhcp_exclusions.span`, `words` and `pieces`; `dhcp_subnets.pool_span`,
`_pools_of` and `_pool`, and the pool of `_settings`; each on the texts
themselves, over the `ipaddress` module's readers.

A reader that raises answers none, a comparison of two families among them.
-/

namespace Nmas.Dhcp.PoolTexts

open Nmas.Text List
open Nmas.Ranges (cutOut)

def splitWhere (isSeparator : Char → Bool) : Str → List Str
  | [] => [[]]
  | c :: rest =>
    if isSeparator c then [] :: splitWhere isSeparator rest
    else (splitWhere isSeparator rest).modifyHead (c :: ·)

def partsAt (isSeparator : Char → Bool) (text : Str) : List Str :=
  ((splitWhere isSeparator text).map strip).filter (fun part => part ≠ [])

/-- `[-–]`. -/
def isDash (c : Char) : Bool := c = '-' || c = '–'

/-- `IPv4Address(number)` or `IPv6Address(number)`. -/
def addressOf (isV6 : Bool) (number : Nat) : Option Address :=
  if fits : number < 2 ^ maxPrefixlenOf isV6 then some ⟨isV6, number, fits⟩ else none

def topOf (isV6 : Bool) : Nat := 2 ^ maxPrefixlenOf isV6 - 1

abbrev Span := Address × Address

namespace Span

def numbers (range : Span) : Nat × Nat := (range.1.number, range.2.number)

/-- The two are of one family, the last not before the first. -/
def Ordered (range : Span) : Prop := range.1.isV6 = range.2.isV6 ∧ range.1.number ≤ range.2.number

instance (range : Span) : Decidable range.Ordered := inferInstanceAs (Decidable (_ ∧ _))

def Meets (one other : Span) : Prop :=
  one.1.isV6 = other.1.isV6 ∧ one.1.number ≤ other.2.number ∧ other.1.number ≤ one.2.number

instance (one other : Span) : Decidable (one.Meets other) := inferInstanceAs (Decidable (_ ∧ _))

end Span

section Read

variable [Readers]

def span (text : Str) : Option Span :=
  match partsAt isDash text with
  | [one] => (Readers.ipAddress one).map (fun address => (address, address))
  | [one, other] => do
    let first ← Readers.ipAddress one
    let last ← Readers.ipAddress other
    if Span.Ordered (first, last) then some (first, last) else none
  | _ => none

/-- `a - b`, as `_settings` writes a pool. -/
def dashed (range : Span) : Str :=
  Readers.compressed range.1 ++ ' ' :: '-' :: ' ' :: Readers.compressed range.2

def words (range : Span) : Str :=
  if range.1 = range.2 then Readers.compressed range.1 else dashed range

def spanOf (isV6 : Bool) (range : Nat × Nat) : Option Span := do
  let first ← addressOf isV6 range.1
  let last ← addressOf isV6 range.2
  return (first, last)

def pieces (pool : Str) (excluded : List Str) : Option (List Str) := do
  let range ← span pool
  let cuts ← excluded.mapM span
  let isV6 := range.1.isV6
  if cuts.all (fun cut => cut.1.isV6 = isV6) then
    let left ← cutOut (topOf isV6) range.numbers (cuts.map Span.numbers)
    let runs ← left.mapM (spanOf isV6)
    return runs.map words
  else none

def boundsOf (network : Network) : Option Span :=
  let lowest := network.networkAddress
  let hosts := 2 ^ (lowest.maxPrefixlen - network.prefixlen)
  (addressOf lowest.isV6 (lowest.number + (hosts - 1))).map (lowest, ·)

def poolSpan (text : Str) : Option Span :=
  match partsAt (· = '-') text with
  | [one, other] => do
    let first ← Readers.ipAddress one
    let last ← Readers.ipAddress other
    return (first, last)
  | [one] => if '/' ∈ one then (Readers.ipNetwork one).bind boundsOf else none
  | _ => none

def poolsOf (pools : List Str) : List Span := pools.filterMap poolSpan

/-- `address in network`. -/
def inNetwork (network : Network) (address : Address) : Bool :=
  address.isV6 = network.networkAddress.isV6 ∧
    address.number &&& network.netmask = network.networkAddress.number

/-- `_pool`. -/
def poolIn (network : Network) (text : Str) : Option Span :=
  match partsAt isDash text with
  | [one, other] => do
    let first ← Readers.ipAddress one
    let last ← Readers.ipAddress other
    if inNetwork network first ∧ inNetwork network last ∧ first.number ≤ last.number then
      some (first, last)
    else none
  | _ => none

/-- The test of another subnet's pool against the one asked. -/
def overlaps (asked other : Span) : Option Bool :=
  if other.1.isV6 ≠ asked.1.isV6 then some false
  else if asked.2.number < other.1.number then some false
  else if other.2.isV6 ≠ asked.1.isV6 then none
  else some (asked.1.number ≤ other.2.number)

/-- `_settings`, of the form's pool against the other subnets': the text of the pool. -/
def setPool (network : Network) (others : List (List Str)) (text : Str) : Option Str :=
  (poolIn network text).bind (fun asked =>
    if others.all (fun pools => (poolsOf pools).all (fun other => overlaps asked other = some false))
    then some (dashed asked) else none)

end Read

/-! ### The pieces of a pool -/

section Exact

variable [Readers]

/-- What the exclusions leave of a pool. -/
def leftOf (range : Span) (cuts : List Span) : Set Nat :=
  { number | (range.1.number ≤ number ∧ number ≤ range.2.number) ∧
    ∀ cut ∈ cuts, ¬ (cut.1.number ≤ number ∧ number ≤ cut.2.number) }

/-- The pieces of the pool are the runs of its addresses that no exclusion holds, as they are
written. -/
def PiecesExact (pool : Str) (excluded : List Str) : Prop :=
  ∀ range cuts, span pool = some range → excluded.mapM span = some cuts →
    (∀ cut ∈ cuts, cut.1.isV6 = range.1.isV6) →
      ∃ runs : List Span, pieces pool excluded = some (runs.map words) ∧
        (∀ run ∈ runs, run.1.isV6 = range.1.isV6 ∧ run.2.isV6 = range.1.isV6) ∧
        Ranges.AreRuns (leftOf range cuts) (runs.map Span.numbers)

/-- An exclusion that reaches the highest address of the family starts in the pool or before it,
and none that starts no later reaches the pool's end short of that address. -/
def ReachesTop (pool : Str) (excluded : List Str) : Prop :=
  ∃ range cuts, span pool = some range ∧ excluded.mapM span = some cuts ∧
    (∀ cut ∈ cuts, cut.1.isV6 = range.1.isV6) ∧
    ∃ cut ∈ cuts, cut.2.number = topOf range.1.isV6 ∧ cut.1.number ≤ range.2.number ∧
      ∀ other ∈ cuts, other.1.number ≤ cut.1.number →
        other.2.number < range.2.number ∨ other.2.number = topOf range.1.isV6

variable {pool text : Str} {excluded : List Str} {range cut : Span} {cuts : List Span}
  {left : List (Nat × Nat)} {isV6 : Bool} {number : Nat}

omit [Readers] in
theorem number_le_topOf (address : Address) : address.number ≤ topOf address.isV6 :=
  Nat.le_sub_one_of_lt address.fits

omit [Readers] in
theorem addressOf_eq (isBelow : number ≤ topOf isV6) :
    ∃ address, addressOf isV6 number = some address ∧ address.isV6 = isV6 ∧
      address.number = number := by
  have fits : number < 2 ^ maxPrefixlenOf isV6 := Nat.lt_of_le_pred (Nat.two_pow_pos _) isBelow
  exact ⟨⟨isV6, number, fits⟩, dif_pos fits, rfl, rfl⟩

theorem span_ordered (isSpan : span text = some range) : range.Ordered := by
  unfold span at isSpan
  split at isSpan
  · obtain ⟨address, -, rfl⟩ := Option.map_eq_some_iff.mp isSpan
    exact ⟨rfl, le_rfl⟩
  · obtain ⟨first, -, isLast⟩ := Option.bind_eq_some_iff.mp isSpan
    obtain ⟨last, -, isRange⟩ := Option.bind_eq_some_iff.mp isLast
    split at isRange
    · rename_i ordered
      cases isRange
      exact ordered
    · cases isRange
  · cases isSpan

theorem spans_ordered (isCuts : excluded.mapM span = some cuts) : ∀ cut ∈ cuts, cut.Ordered := by
  induction excluded generalizing cuts with
  | nil =>
    cases isCuts
    simp
  | cons text rest ih =>
    rw [mapM_cons] at isCuts
    obtain ⟨first, isFirst, isRest⟩ := Option.bind_eq_some_iff.mp isCuts
    obtain ⟨later, isLater, isPure⟩ := Option.bind_eq_some_iff.mp isRest
    cases isPure
    exact forall_mem_cons.mpr ⟨span_ordered isFirst, ih isLater⟩

omit [Readers] in
theorem mapM_spanOf (bounded : ∀ range ∈ left, range.1 ≤ topOf isV6 ∧ range.2 ≤ topOf isV6) :
    ∃ runs, left.mapM (spanOf isV6) = some runs ∧ runs.map Span.numbers = left ∧
      ∀ run ∈ runs, run.1.isV6 = isV6 ∧ run.2.isV6 = isV6 := by
  induction left with
  | nil => exact ⟨[], rfl, rfl, by simp⟩
  | cons range rest ih =>
    obtain ⟨isRange, restBounded⟩ := forall_mem_cons.mp bounded
    obtain ⟨runs, isRuns, isNumbers, ofFamily⟩ := ih restBounded
    obtain ⟨first, isFirst, firstFamily, firstNumber⟩ := addressOf_eq isRange.1
    obtain ⟨last, isLast, lastFamily, lastNumber⟩ := addressOf_eq isRange.2
    refine ⟨(first, last) :: runs, ?_, ?_, ?_⟩
    · rw [mapM_cons]
      simp only [spanOf, isFirst, isLast, isRuns, Option.bind_eq_bind, Option.bind_some,
        Option.pure_def]
    · rw [map_cons, isNumbers]
      exact congrArg (· :: rest) (Prod.ext firstNumber lastNumber)
    · exact forall_mem_cons.mpr ⟨⟨firstFamily, lastFamily⟩, ofFamily⟩

theorem pieces_eq (isPool : span pool = some range) (isCuts : excluded.mapM span = some cuts)
    (oneFamily : ∀ cut ∈ cuts, cut.1.isV6 = range.1.isV6) :
    pieces pool excluded =
      (cutOut (topOf range.1.isV6) range.numbers (cuts.map Span.numbers)).bind (fun left =>
        (left.mapM (spanOf range.1.isV6)).map (fun runs => runs.map words)) := by
  have all : cuts.all (fun cut => cut.1.isV6 = range.1.isV6) = true := by
    simpa using oneFamily
  unfold pieces
  rw [isPool, isCuts]
  simp only [Option.bind_eq_bind, Option.bind_some, all, if_true, Option.map_eq_bind]
  rfl

omit [Readers] in
theorem overruns_numbers : Ranges.Overruns (topOf isV6) range.numbers.2 (cuts.map Span.numbers) ↔
    ∃ cut ∈ cuts, cut.2.number = topOf isV6 ∧ cut.1.number ≤ range.2.number ∧
      ∀ other ∈ cuts, other.1.number ≤ cut.1.number →
        other.2.number < range.2.number ∨ other.2.number = topOf isV6 := by
  unfold Ranges.Overruns
  simp only [forall_mem_map]
  simp only [mem_map, exists_exists_and_eq_and, Span.numbers]

omit [Readers] in
theorem covered_numbers : number ∈ Ranges.covered (cuts.map Span.numbers) ↔
    ∃ cut ∈ cuts, cut.1.number ≤ number ∧ number ≤ cut.2.number := by
  unfold Ranges.covered
  simp only [mem_map, exists_exists_and_eq_and, Set.mem_ofPred_eq, Span.numbers]

omit [Readers] in
theorem left_eq : { number | (range.numbers.1 ≤ number ∧ number ≤ range.numbers.2) ∧
    number ∉ Ranges.covered (cuts.map Span.numbers) } = leftOf range cuts := by
  ext number
  simp only [Set.mem_ofPred_eq, covered_numbers, leftOf, not_exists, not_and, Span.numbers]

theorem numbers_bounded (isCuts : excluded.mapM span = some cuts)
    (oneFamily : ∀ cut ∈ cuts, cut.1.isV6 = isV6) :
    ∀ cut ∈ cuts.map Span.numbers, cut.1 ≤ cut.2 ∧ cut.2 ≤ topOf isV6 := by
  refine forall_mem_map.mpr fun cut isCut => ?_
  have ordered := spans_ordered isCuts cut isCut
  have bound := number_le_topOf cut.2
  rw [← ordered.1, oneFamily cut isCut] at bound
  exact ⟨ordered.2, bound⟩

theorem runs_of_cutOut (isCuts : excluded.mapM span = some cuts)
    (ordered : range.Ordered) (oneFamily : ∀ cut ∈ cuts, cut.1.isV6 = range.1.isV6)
    (isLeft : cutOut (topOf range.1.isV6) range.numbers (cuts.map Span.numbers) = some left) :
    ∃ runs, left.mapM (spanOf range.1.isV6) = some runs ∧
      (∀ run ∈ runs, run.1.isV6 = range.1.isV6 ∧ run.2.isV6 = range.1.isV6) ∧
      Ranges.AreRuns (leftOf range cuts) (runs.map Span.numbers) := by
  have bounded := numbers_bounded isCuts oneFamily
  have areRuns := Ranges.cutOut_areRuns (fun cut isCut => (bounded cut isCut).1) isLeft
  rw [left_eq] at areRuns
  have poolBound := number_le_topOf range.2
  rw [← ordered.1] at poolBound
  have leftBounded : ∀ run ∈ left, run.1 ≤ topOf range.1.isV6 ∧ run.2 ≤ topOf range.1.isV6 := by
    intro run isRun
    have ofRun := (areRuns.mem_iff run).mp isRun
    have first := (ofRun.within run.1 le_rfl ofRun.inhabited).1.2
    have last := (ofRun.within run.2 ofRun.inhabited le_rfl).1.2
    exact ⟨first.trans poolBound, last.trans poolBound⟩
  obtain ⟨runs, isRuns, isNumbers, ofFamily⟩ := mapM_spanOf leftBounded
  exact ⟨runs, isRuns, ofFamily, by rwa [isNumbers]⟩

/-- **The pieces of a pool are exactly its addresses in no exclusion, in their longest runs,
unless the sweep comes to an exclusion that reaches the highest address of the family.** -/
theorem pieces_exact (pool : Str) (excluded : List Str) :
    PiecesExact pool excluded ↔ ¬ ReachesTop pool excluded := by
  constructor
  · rintro exact_ ⟨range, cuts, isPool, isCuts, oneFamily, reaches⟩
    obtain ⟨runs, isPieces, -⟩ := exact_ range cuts isPool isCuts oneFamily
    have ordered := span_ordered isPool
    have bounded := numbers_bounded isCuts oneFamily
    have poolBound := number_le_topOf range.2
    rw [← ordered.1] at poolBound
    have isNone : cutOut (topOf range.1.isV6) range.numbers (cuts.map Span.numbers) = none :=
      (Ranges.cutOut_eq_none_iff (fun cut isCut => (bounded cut isCut).2) ordered.2 poolBound).mpr
        (overruns_numbers.mpr reaches)
    rw [pieces_eq isPool isCuts oneFamily, isNone] at isPieces
    cases isPieces
  · intro notTop range cuts isPool isCuts oneFamily
    have ordered := span_ordered isPool
    have bounded := numbers_bounded isCuts oneFamily
    have poolBound := number_le_topOf range.2
    rw [← ordered.1] at poolBound
    have notNone : cutOut (topOf range.1.isV6) range.numbers (cuts.map Span.numbers) ≠ none := by
      rw [Ne, Ranges.cutOut_eq_none_iff (fun cut isCut => (bounded cut isCut).2) ordered.2 poolBound,
        overruns_numbers]
      exact fun reaches => notTop ⟨range, cuts, isPool, isCuts, oneFamily, reaches⟩
    obtain ⟨left, isLeft⟩ := Option.ne_none_iff_exists'.mp notNone
    obtain ⟨runs, isRuns, ofFamily, areRuns⟩ := runs_of_cutOut isCuts ordered oneFamily isLeft
    refine ⟨runs, ?_, ofFamily, areRuns⟩
    rw [pieces_eq isPool isCuts oneFamily, isLeft, Option.bind_some, isRuns, Option.map_some]

end Exact

/-- A pool that ends at the highest address, and an exclusion of that address. -/
theorem broadcast_excluded :
    letI : Readers := plainReaders
    ¬ PiecesExact "255.255.255.250 - 255.255.255.255".ascii ["255.255.255.255".ascii] := by
  let _ : Readers := plainReaders
  intro exact_
  obtain ⟨runs, isPieces, -⟩ := exact_
    (⟨false, 0xfffffffa, by decide⟩, ⟨false, 0xffffffff, by decide⟩)
    [(⟨false, 0xffffffff, by decide⟩, ⟨false, 0xffffffff, by decide⟩)]
    (by decide +kernel) (by decide +kernel) (by simp)
  have isNone : pieces "255.255.255.250 - 255.255.255.255".ascii ["255.255.255.255".ascii] = none := by
    decide +kernel
  rw [isNone] at isPieces
  cases isPieces

end Nmas.Dhcp.PoolTexts
