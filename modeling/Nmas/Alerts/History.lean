import Mathlib.Data.Prod.Lex
import Mathlib.Data.List.Sort
import Nmas.Text.Str

/-!
Contract: the alert history, one row for each transition of an alert.

Owns: `alert_history.py`, `record`, `from_detections` and `episodes`.

Does not own: the readers that offer transitions, or the data lake rows move
to. A time is the whole second its text names, and a digest is what it is
taken of. The rows are the transitions of the store; a row's rule, device and
value, which nothing here reads, are left out.
-/

namespace Nmas.Alerts

open Nmas.Text

abbrev Time := Int

/-- `identity`: an alert instance across its life. -/
structure Identity where
  store : Str
  rule : Str
  labels : List (Str × Str)
deriving DecidableEq

/-- `KIND_WORDS`' keys. -/
inductive Kind where
  | pending
  | condition
  | noData
  | error
  | normal
  | unknownState
deriving DecidableEq

structure Row where
  identity : Identity
  state : Str
  to_ : Kind
  at_ : Time
  /-- Kept only after a recorded state that it ends. -/
  requiresOpen : Bool
deriving DecidableEq

structure TransitionKey where
  identity : Identity
  state : Str
  at_ : Time
deriving DecidableEq

namespace Row

def key (row : Row) : TransitionKey := ⟨row.identity, (strip row.state).map Char.toLower, row.at_⟩

/-- A row's place in time: a resolve after the state it ends, at one second. -/
def mark (row : Row) : ℤ ×ₗ Bool := toLex (row.at_, decide (row.to_ = .normal))

def kept (row : Row) : Row := { row with requiresOpen := false }

end Row

/-- `sorted(rows, key=...)`. -/
def inOrder (rows : List Row) : List Row :=
  rows.insertionSort (fun one other => one.mark ≤ other.mark)

/-! ### Record -/

def held (history : List Row) (row : Row) : Bool := history.any (·.key = row.key)

def lastMark (history : List Row) (identity : Identity) : Option (ℤ ×ₗ Bool) :=
  ((history.filter (·.identity = identity)).map Row.mark).max?

/-- The instance's latest recorded state is one a resolve at `row` ends. -/
def opened (history : List Row) (row : Row) : Bool :=
  (lastMark history row.identity).any (fun last =>
    !(ofLex last).2 && (ofLex last).1 ≤ row.at_)

/-- How the store fails: it cannot be read or locked, or an append raises after
this many. -/
inductive Refusal where
  | unreadable
  | raises (appended : Nat)
deriving DecidableEq

/-- The rows of one `record`, in their order: the store after them, and whether
every one could be written. -/
def recordFrom (history : List Row) : Option Nat → List Row → List Row × Bool
  | _, [] => (history, true)
  | room, row :: rest =>
    if held history row then recordFrom history room rest
    else if row.requiresOpen && !opened history row then recordFrom history room rest
    else
      match room with
      | none => recordFrom (history ++ [row.kept]) none rest
      | some 0 => (history, false)
      | some (left + 1) => recordFrom (history ++ [row.kept]) (some left) rest

/-- `record`: the store after it, and `ok`. -/
def record (history : List Row) (refusal : Option Refusal) (rows : List Row) : List Row × Bool :=
  match refusal with
  | some .unreadable => (history, false)
  | some (.raises appended) => recordFrom history (some appended) (inOrder rows)
  | none => recordFrom history none (inOrder rows)

/-! ### Episodes -/

/-- A state an episode went through. -/
structure Stage where
  at_ : Time
  state : Str
  to_ : Kind
deriving DecidableEq

def alertingOnNoData (state : Str) : Bool :=
  (state.filter (fun c => !isSpace c)).map Char.toLower = "alerting(nodata)".ascii

def kindRead (row : Row) : Kind :=
  if row.to_ = .noData ∧ alertingOnNoData row.state then .condition else row.to_

structure Episode where
  identity : Identity
  startedAt : Time
  firedAt : Option Time
  resolvedAt : Option Time
  resolvedState : Str
  states : List Stage
  ongoing : Bool
deriving DecidableEq

namespace Episode

def begin (row : Row) : Episode := ⟨row.identity, row.at_, none, none, [], [], false⟩

def reach (row : Row) (episode : Episode) : Episode :=
  { episode with
    states := episode.states ++ [⟨row.at_, row.state, kindRead row⟩]
    firedAt := episode.firedAt.or (if kindRead row = .condition then some row.at_ else none) }

def resolve (row : Row) (episode : Episode) : Episode :=
  { episode with resolvedAt := some row.at_, resolvedState := row.state }

/-- `OUTCOMES`, by the states gone through. -/
def outcome (episode : Episode) : Kind :=
  let kinds := episode.states.map Stage.to_
  if .condition ∈ kinds then .condition
  else if .noData ∈ kinds then .noData
  else if .error ∈ kinds then .error
  else .pending

def span (episode : Episode) : Identity × Time × Option Time :=
  (episode.identity, episode.startedAt, episode.resolvedAt)

end Episode

def stretches (ongoing : Bool) : Option Episode → List Row → List Episode
  | none, [] => []
  | some episode, [] => [{ episode with ongoing := ongoing }]
  | current, row :: rest =>
    if row.to_ = .normal then
      match current with
      | some episode => episode.resolve row :: stretches ongoing none rest
      | none => stretches ongoing none rest
    else stretches ongoing (some ((current.getD (.begin row)).reach row)) rest

def episodes (rows : List Row) (firingNow : Identity → Bool) : List Episode :=
  (((rows.map Row.identity).eraseDups).flatMap (fun identity =>
      stretches (firingNow identity) none
        (inOrder (rows.filter (·.identity = identity))))).insertionSort
    (fun one other => other.startedAt ≤ one.startedAt)

/-! ### Detections -/

/-- An alert instance in the reader's shape. -/
structure Instance where
  rule : Str
  ruleUid : Str
  labels : List (Str × Str)
  /-- When its condition began. -/
  activeAt : Time
  /-- When it began to alert. -/
  startsAt : Time
  forSeconds : Int
deriving DecidableEq

def Instance.identity (store : Str) (instance_ : Instance) : Identity :=
  ⟨store, instance_.rule, instance_.labels⟩

def Row.fires (identity : Identity) (at_ : Time) : Row :=
  ⟨identity, "Alerting".ascii, .condition, at_, false⟩

def Row.resolves (identity : Identity) (at_ : Time) : Row :=
  ⟨identity, "Normal".ascii, .normal, at_, true⟩

def fromDetections (store : Str) (fired resolved : List Instance) (at_ : Time) : List Row :=
  fired.map (fun instance_ => .fires (instance_.identity store) instance_.activeAt) ++
    resolved.map (fun instance_ => .resolves (instance_.identity store) at_)

end Nmas.Alerts
