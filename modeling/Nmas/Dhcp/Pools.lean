import Nmas.Ranges.Cuts
import Nmas.Text.Str

/-!
Contract: a subnet's pools, as the subnet's form and its exclusions shape them.

Owns: `dhcp_exclusions.span`, `words`, `pieces` and `_plan`; the pool and its
description in `dhcp_subnets._settings`, with `_pool`, `pool_span` and
`_with_note`; `_plan_edit` of a subnet's pools; and what an applied plan leaves
in Mercury's subnet file and in the exclusions' record.

A text is what it reads as, and an address its number: a text of the other family
reads as neither an address nor a range. `top` is the family's last address. What
the form's other fields make of the subnet, and the refusals that ask for neither
a pool nor an exclusion, are a plan's surroundings.
-/

namespace Nmas.Dhcp

open Nmas.Text
open Nmas.Ranges (cutOut)

/-- What the text of a pool, an exclusion or the form's range reads as. -/
inductive RangeText where
  /-- `a - b`. -/
  | range (first last : Nat)
  | one (address : Nat)
  /-- A prefix, by its first address and its last. -/
  | prefix_ (first last : Nat)
  | other (text : Str)
deriving DecidableEq

/-- `span`; none where it is `Refused`. -/
def span : RangeText → Option (Nat × Nat)
  | .one address => some (address, address)
  | .range first last => if last < first then none else some (first, last)
  | .prefix_ _ _ | .other _ => none

/-- `pool_span`; none where it is a `ValueError`. -/
def poolSpan : RangeText → Option (Nat × Nat)
  | .range first last => some (first, last)
  | .prefix_ first last => some (first, last)
  | .one _ | .other _ => none

def words (range : Nat × Nat) : RangeText :=
  if range.1 = range.2 then .one range.1 else .range range.1 range.2

/-- A pool of Mercury's subnet file: its range, the description in its
`user-context`, and that context's other keys. -/
structure Pool where
  pool : RangeText
  description : Str
  context : Str
deriving DecidableEq

def withNote (pool : Pool) : Option Str → Pool
  | none => pool
  | some note => { pool with description := note }

/-- `_pool`, against the subnet's first address and its last. -/
def poolOf (net : Nat × Nat) : RangeText → Option (Nat × Nat)
  | .range first last =>
    if (net.1 ≤ first ∧ first ≤ net.2) ∧ (net.1 ≤ last ∧ last ≤ net.2) ∧ first ≤ last then
      some (first, last)
    else none
  | _ => none

/-- Two ranges share no address. -/
def Apart (one other : Nat × Nat) : Prop := one.2 < other.1 ∨ other.2 < one.1

instance (one other : Nat × Nat) : Decidable (Apart one other) := inferInstanceAs (Decidable (_ ∨ _))

structure Exclusion where
  range : RangeText
  reason : Str
  source : Str
  detail : Str
deriving DecidableEq

/-- A subnet in Mercury's file, and its rows of the exclusions' record: its
exclusions, and its pool as set where that is recorded. -/
structure Shaped where
  pools : List Pool
  rest : Str
  exclusions : List Exclusion
  asSet : Option RangeText
deriving DecidableEq

inductive Asked where
  /-- The form's pool and its description, each where it is sent. -/
  | edit (pool : Option RangeText) (note : Option Str)
  | exclude (range : RangeText) (reason source detail : Str)
  | include_ (was : RangeText)
deriving DecidableEq

/-- What a plan finds besides: the other subnets' pools, what the form's other
fields make of the subnet, and a refusal of another kind. -/
structure Beside where
  neighbours : List RangeText
  rest : Option Str
  refused : Bool
deriving DecidableEq

structure Planning where
  asked : Asked
  beside : Beside
deriving DecidableEq

variable (top : Nat) (net : Nat × Nat)

def described (pools : List Pool) : Str :=
  ((pools.find? (fun pool => pool.description ≠ [])).map Pool.description).getD []

/-- `_settings`, of the pool and its description. -/
def settings (pools : List Pool) (neighbours : List RangeText) (pool : Option RangeText)
    (note : Option Str) : Option (List Pool) :=
  match pool with
  | some text =>
    match poolOf net text with
    | none => none
    | some range =>
      if (neighbours.filterMap poolSpan).all (fun other => Apart range other) then
        some [withNote ⟨.range range.1 range.2, [], []⟩ (some (note.getD (described pools)))]
      else none
  | none => some (pools.map (fun pool => withNote pool note))

/-- `_plan_edit`, of the subnet's pools. -/
def planEdit (shaped : Shaped) (pool : Option RangeText) (note : Option Str) (beside : Beside) :
    Option Shaped :=
  match settings net shaped.pools beside.neighbours pool note, beside.rest with
  | some pools, some rest =>
    let after := { shaped with pools := pools, rest := rest }
    if after = shaped then none else some after
  | _, _ => none

/-- The range the exclusions are cut from: the recorded one, or the one pool's. -/
def asSetOf (shaped : Shaped) : Option RangeText :=
  match shaped.asSet, shaped.pools with
  | some text, _ => some text
  | none, [pool] => some pool.pool
  | none, _ => none

def pieces (pool : RangeText) (excluded : List RangeText) : Option (List RangeText) := do
  let range ← span pool
  let cuts ← excluded.mapM span
  (← cutOut top range cuts).map words

def excluding (exclusions : List Exclusion) (range : RangeText) (reason source detail : Str) :
    Option (List Exclusion) :=
  match span range, (exclusions.map Exclusion.range).mapM span with
  | some asked, some recorded =>
    let why := joinWords (Text.words reason)
    if (net.1 ≤ asked.1 ∧ asked.1 ≤ net.2) ∧ (net.1 ≤ asked.2 ∧ asked.2 ≤ net.2) ∧
        recorded.all (fun other => Apart asked other) ∧ 8 ≤ why.length then
      some (exclusions ++ [⟨words asked, why, source, detail.take 120⟩])
    else none
  | _, _ => none

def including (exclusions : List Exclusion) (was : RangeText) : Option (List Exclusion) :=
  if (exclusions.filter (fun exclusion => exclusion.range = was)).length = 1 then
    some (exclusions.filter (fun exclusion => exclusion.range ≠ was))
  else none

/-- `_plan`, from the exclusions it would leave. -/
def shape (shaped : Shaped) (exclusions : List Exclusion) : Option Shaped :=
  match asSetOf shaped with
  | none => none
  | some asSet =>
    match pieces top asSet (exclusions.map Exclusion.range) with
    | none | some [] => none
    | some left =>
      let context := ((shaped.pools.find? (fun pool => pool.description ≠ [] ∨
        pool.context ≠ [])).map (fun pool => (pool.description, pool.context))).getD ([], [])
      some { shaped with
        pools := left.map (fun text => ⟨text, context.1, context.2⟩)
        exclusions := exclusions
        asSet := some asSet }

def leaves (exclusions : List Exclusion) : Asked → Option (List Exclusion)
  | .edit _ _ => none
  | .exclude range reason source detail => excluding net exclusions range reason source detail
  | .include_ was => including exclusions was

def planned (shaped : Shaped) (planning : Planning) : Option Shaped :=
  if planning.beside.refused then none
  else match planning.asked with
  | .edit pool note => planEdit net shaped pool note planning.beside
  | asked => (leaves net shaped.exclusions asked).bind (shape top shaped)

end Nmas.Dhcp
