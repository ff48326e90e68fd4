import Nmas.Heal.Grace
import Nmas.Log.Keyed
import Nmas.Text.Unicode

/-!
Contract: the fix kinds and their tiers, and a network's heal decisions, one
append-only record.

Owns: `kinds.TIER`, and what the decision reads of `kinds.classify`'s answer;
`heal/decisions.py`: its rows, how `decisions` reads them, what `take` and
`withdraw` append or refuse, and the halts.

Does not own: how a unit is found and classed, the locks a row is appended under,
and the words of a row. A time written as text is its whole seconds; an id is the
one the call drew.
-/

namespace Nmas.Heal

open Nmas.Text

inductive FixKind where
  | missingLine
  | changedLine
  | addedLine
  | adminDown
  | processReset
  | qosPolicy
  | secretAddedBack
  | physical
  | unknownCause
  | securityAcl
  | credentials
  | managementPath
  | multiDevice
  | portBounce
  | sessionClear
  | ospfReset
  | dampeningProposal
deriving DecidableEq, Repr

def FixKind.tier : FixKind → Nat
  | .missingLine | .changedLine | .addedLine | .adminDown => 1
  | .processReset | .qosPolicy | .secretAddedBack => 2
  | .physical | .unknownCause => 3
  | .securityAcl | .credentials | .managementPath | .multiDevice => 4
  | .portBounce | .sessionClear | .ospfReset => 1
  | .dampeningProposal => 2

inductive UnitOp where
  | add
  | change
  | remove
deriving DecidableEq, Repr

structure FixUnit where
  op : UnitOp
  chain : List Str
  lines : List Str
  stanza : Bool
  kind : FixKind
deriving DecidableEq

def FixUnit.section_ (unit : FixUnit) : Str :=
  match unit.chain with
  | header :: _ => header
  | [] => if unit.stanza then unit.lines.headD [] else "the global configuration".ascii

/-- What `classify` answers of the units it found. -/
structure Classified where
  units : List FixUnit
  kind : FixKind
  tier : Nat
  blocked : Bool
deriving DecidableEq

end Nmas.Heal

namespace Nmas.Heal

open Nmas.Text
open Nmas.Log (put amend)

/-- `policy.current`'s mode. -/
inductive HealMode where
  | off
  | dryRun
  | auto
deriving DecidableEq, Repr

/-- `decisions.OUTCOMES`. -/
inductive Outcome where
  | heal
  | wouldHeal
  | propose
  | cantFix
  | nothing
  | held
  | halted
  | off
  | deferred
deriving DecidableEq, Repr

/-- What `decide_one` makes of an incident. -/
structure Made where
  incident : Str
  device : Str
  outcome : Outcome
  mode : HealMode
  guard : Option Nat
  kind : Option FixKind
  tier : Nat
  departure : Str
  programHash : Str
  until_ : Option Clock
deriving DecidableEq

/-- A decision as `record` writes it. -/
structure Decision extends Made where
  id : Str
  epoch : Clock
deriving DecidableEq

/-- What became of a taken decision: `act.OUTCOMES`, `DECLINED` and `WITHDRAWN`. -/
inductive Ended where
  | healed
  | symptomRemains
  | partlyShown
  | refused
  | rolledBack
  | failed
  | interrupted
  | declined
  | withdrawn
deriving DecidableEq, Repr

/-- A time as `_iso` writes it. -/
abbrev Stamp := ℤ

def iso (epoch : Clock) : Stamp := epoch.floor

structure Mark where
  right : Bool
  by_ : Str
  at_ : Stamp
deriving DecidableEq

structure Taken where
  by_ : Str
  at_ : Stamp
deriving DecidableEq

structure Applied where
  outcome : Ended
  by_ : Str
  at_ : Stamp
deriving DecidableEq

inductive WithdrawnHow where
  | atIntent
  | changed
deriving DecidableEq, Repr

structure Withdrawn where
  how : WithdrawnHow
  by_ : Str
  at_ : Stamp
deriving DecidableEq

/-- A halt; `decision` is the one its operands name. -/
structure Halt where
  id : Str
  guard : Nat
  decision : Option Str
  epoch : Clock
deriving DecidableEq

/-- A line of `decisions.jsonl`. -/
inductive Row where
  | decision (decided : Decision)
  | mark (decision : Str) (mark : Mark)
  | taken (decision : Str) (taken : Taken)
  | applied (decision : Str) (applied : Applied)
  | withdrawn (decision : Str) (withdrawn : Withdrawn)
  | halt (halt : Halt)
  | lift (halt : Str)
deriving DecidableEq

/-- A decision as `decisions` answers it. -/
structure Record extends Decision where
  mark : Option Mark
  taken : Option Taken
  applied : Option Applied
  withdrawn : Option Withdrawn
deriving DecidableEq

def Row.decided? : Row → Option Decision
  | .decision decided => some decided
  | _ => none

def Decision.record (decided : Decision) : Record := ⟨decided, none, none, none, none⟩

def readRow (records : List Record) : Row → List Record
  | .decision _ | .halt _ | .lift _ => records
  | .mark id mark => amend (·.id) id (fun record => { record with mark := some mark }) records
  | .taken id taken => amend (·.id) id (fun record => { record with taken := some taken }) records
  | .applied id applied =>
    amend (·.id) id (fun record => { record with applied := some applied }) records
  | .withdrawn id withdrawn =>
    amend (·.id) id (fun record => { record with
      taken := some ⟨withdrawn.by_, withdrawn.at_⟩
      applied := some ⟨.withdrawn, withdrawn.by_, withdrawn.at_⟩
      withdrawn := some withdrawn }) records

def decisions (rows : List Row) : List Record :=
  rows.foldl readRow
    ((rows.filterMap Row.decided?).foldl (fun records decided => put (·.id) decided.record records) [])

/-- `find`. -/
def findDecision (rows : List Row) (id : Str) : Option Record :=
  (decisions rows).find? (fun record => record.id = id)

def toApply (rows : List Row) : List Record :=
  (decisions rows).filter (fun record => record.outcome = .heal ∧ record.taken.isNone)

def proposals (rows : List Row) : List Record :=
  (decisions rows).filter (fun record => record.outcome = .propose ∧ record.taken.isNone)

inductive NotTaken where
  | notHeld (id : Str)
  | outcome (id : Str) (outcome : Outcome)
  | takenBefore (id : Str) (taken : Taken)
deriving DecidableEq

/-- What `take` appends. -/
def take (id by_ : Str) (now : Clock) (rows : List Row) : Except NotTaken Row :=
  match findDecision rows id with
  | none => .error (.notHeld id)
  | some record =>
    if record.outcome ≠ .heal ∧ record.outcome ≠ .propose then .error (.outcome id record.outcome)
    else
      match record.taken with
      | some taken => .error (.takenBefore id taken)
      | none => .ok (.taken id ⟨by_, iso now⟩)

/-- What `withdraw` appends. -/
def withdraw (id : Str) (how : WithdrawnHow) (by_ : Str) (now : Clock) (rows : List Row) :
    Except NotTaken Row :=
  match findDecision rows id with
  | none => .error (.notHeld id)
  | some record =>
    if record.outcome ≠ .propose then .error (.outcome id record.outcome)
    else
      match record.taken with
      | some taken => .error (.takenBefore id taken)
      | none => .ok (.withdrawn id ⟨how, by_, iso now⟩)

/-- `halted`: the newest halt with no lift after it. -/
def halted (rows : List Row) : Option Halt :=
  rows.foldl (fun current row =>
    match row with
    | .halt halt => some halt
    | .lift id => if current.any (fun halt => halt.id = id) then none else current
    | _ => current) none

def lastHaltEpoch (rows : List Row) : Clock :=
  ((rows.filterMap (fun row =>
    match row with
    | .halt halt => some halt.epoch
    | _ => none)).max?).getD 0

variable {rows : List Row} {records : List Record} {row : Row}

/-! ### What `decisions` answers -/

theorem readRow_decision : (readRow records row).map Record.toDecision =
    records.map Record.toDecision := by
  have amends : ∀ {id : Str} (change : Record → Record),
      (∀ record, (change record).toDecision = record.toDecision) →
      (amend (fun record : Record => record.id) id change records).map Record.toDecision =
        records.map Record.toDecision := fun change keeps => Nmas.Log.amend_map keeps records
  cases row with
  | decision decided | halt halt | lift id => rfl
  | mark id mark => exact amends _ (fun record => rfl)
  | taken id taken => exact amends _ (fun record => rfl)
  | applied id applied => exact amends _ (fun record => rfl)
  | withdrawn id withdrawn => exact amends _ (fun record => rfl)

theorem foldl_readRow_decision : (rows.foldl readRow records).map Record.toDecision =
    records.map Record.toDecision := by
  induction rows generalizing records with
  | nil => rfl
  | cons row rest ih =>
    rw [List.foldl_cons, ih, readRow_decision]

theorem foldl_put_decision {decided : List Decision}
    (distinct : (records.map (fun record => record.id) ++ decided.map Decision.id).Nodup) :
    (decided.foldl (fun records decided => put (·.id) decided.record records) records).map
      Record.toDecision = records.map Record.toDecision ++ decided := by
  induction decided generalizing records with
  | nil => simp
  | cons first rest ih =>
    have new : ∀ record ∈ records, record.id ≠ first.record.id := by
      intro record member same
      apply (List.nodup_append.mp distinct).2.2 _ (List.mem_map_of_mem member) _ (.head _)
      exact same
    have placed : put (fun record : Record => record.id) first.record records =
        records ++ [first.record] := Nmas.Log.put_of_new new
    rw [List.foldl_cons, placed, ih]
    · simp [Decision.record]
    · rw [List.map_append, List.append_assoc]
      exact distinct

/-- **The decisions read are the decisions written**, in their order, where no
two share an id. -/
theorem decisions_decided (distinct : ((rows.filterMap Row.decided?).map Decision.id).Nodup) :
    (decisions rows).map Record.toDecision = rows.filterMap Row.decided? := by
  unfold decisions
  rw [foldl_readRow_decision, foldl_put_decision (by simpa using distinct)]
  rfl

end Nmas.Heal
