import Nmas.Heal.Decisions
import Nmas.Heal.Detect

/-!
Contract: the hard stops of a heal decision, guards 1 to 12 and 14.

Owns: `heal/guards.py`. A guard answers nothing where it does not apply, else
the outcome it gives the decision and, for some, when to check again.

Does not own: the tier (guard 13), the words and the operands of a guard, and
how the policy, the planned work and the topology hold are read.
-/

namespace Nmas.Heal

open Nmas.Text

/-- The hard stops' values. -/
structure Limits where
  graceSeconds : Nat
  maxDevicesDrifting : Nat
  personWorkingChanges : Nat
  personWorkingMinutes : Nat
  maxPerDeviceHour : Nat
  maxPerNetworkHour : Nat
  repeatHaltsHours : Nat
  maxRemovedUnits : Nat
  maxUnits : Nat
deriving DecidableEq

/-- The policy in force, as `policy.current` answers it. -/
structure Policy where
  stopped : Bool
  mode : HealMode
  kindsAuto : List FixKind
  kindsPropose : List FixKind
  limits : Limits
deriving DecidableEq

/-- What planned work guard 3 finds. -/
inductive Planned where
  | nothing
  | unreadable
  | restart (windowEnd : Clock)
  | held
  | noChange
deriving DecidableEq

inductive Golden where
  | atIntent
  | departs
  | unknown
deriving DecidableEq, Repr

structure Hit where
  guard : Nat
  outcome : Outcome
  until_ : Option Clock
deriving DecidableEq

namespace Guards

def settleSeconds : Clock := 1140

def g1KillSwitch (policy : Policy) : Option Hit :=
  if policy.stopped then some ⟨1, .off, none⟩ else none

/-- `halt` is nothing where the record cannot be read. -/
def g2Mode (policy : Policy) (halt : Option (Option Halt)) : Option Hit :=
  if policy.mode = .off then some ⟨2, .off, none⟩
  else
    match halt with
    | none => some ⟨2, .halted, none⟩
    | some (some _) => some ⟨2, .halted, none⟩
    | some none => none

def g3Planned (planned : Planned) (now : Clock) : Option Hit :=
  match planned with
  | .nothing => none
  | .unreadable | .held => some ⟨3, .held, some (now + 60)⟩
  | .restart windowEnd => some ⟨3, .held, some (windowEnd + settleSeconds)⟩
  | .noChange => some ⟨3, .held, some (now + 15 * 60)⟩

def g4Golden (golden : Golden) : Option Hit :=
  if golden = .atIntent then none else some ⟨4, .held, none⟩

/-- `held` is the hold's end, where it has one. -/
def g5Topology (held : Option (Option Clock)) (now : Clock) : Option Hit :=
  held.map (fun until_ => ⟨5, .held, some (until_.getD (now + 15 * 60))⟩)

def g6Many (incidents : List Incident) (now graceSeconds : Clock) (most : Nat) : Option Hit :=
  let departed := incidents.filter (fun inc => inc.cause = .change ∧
    now - graceSeconds ≤ inc.openedEpoch ∧ inc.openedEpoch ≤ now)
  if (departed.map (fun inc => inc.device)).dedup.length > most then some ⟨6, .held, none⟩ else none

def g7Person (inc : Incident) (now : Clock) (changes minutes : Nat) : Option Hit :=
  let window : Clock := minutes * 60
  let recent := (Detect.outsideChanges { inc with deferUntil := none }).filter
    (fun change => now - window ≤ change ∧ change ≤ now)
  if recent.length ≥ changes then some ⟨7, .held, recent.max?.map (· + window)⟩ else none

/-- `clock` is the time the guard reads itself. -/
def g8Grace (inc : Incident) (clock : Clock) : Option Hit :=
  match inc.settled.map Settled.how with
  | some .persisted | some .atGolden => none
  | some .notCheckable | some .unreadable => some ⟨8, .cantFix, none⟩
  | _ => some ⟨8, .held, some (clock + 60)⟩

def counted (rows : List Record) (outcome : Outcome) (since : Clock) : List Record :=
  rows.filter (fun record => record.outcome = outcome ∧ since ≤ record.epoch)

def g9DeviceRate (rows : List Record) (device : Str) (outcome : Outcome) (now : Clock) (most : Nat) :
    Option Hit :=
  let got := (counted rows outcome (now - 3600)).filter (fun record => record.device = device)
  if got.length ≥ most then some ⟨9, .held, none⟩ else none

def g10NetworkRate (rows : List Record) (outcome : Outcome) (now : Clock) (most : Nat) :
    Option Hit :=
  if (counted rows outcome (now - 3600)).length ≥ most then some ⟨10, .halted, none⟩ else none

def g11Repeat (rows : List Record) (device departure : Str) (outcome : Outcome) (now : Clock)
    (hours : Nat) : Option Hit :=
  if departure = [] then none
  else
    let got := (counted rows outcome (now - hours * 3600)).filter
      (fun record => record.device = device ∧ record.departure = departure)
    if got ≠ [] then some ⟨11, .halted, none⟩ else none

def g12Size (units : List FixUnit) (mostRemoved mostSections : Nat) : Option Hit :=
  if (units.filter (fun unit => unit.op = .remove)).length > mostRemoved then
    some ⟨12, .cantFix, none⟩
  else if (units.map FixUnit.section_).dedup.length > mostSections then some ⟨12, .cantFix, none⟩
  else none

def g14RolledBack (rows : List Record) (device : Str) (lastHaltEpoch : Clock) : Option Hit :=
  if rows.any (fun record => record.device = device &&
      record.applied.any (fun applied =>
        applied.outcome = .rolledBack && lastHaltEpoch < applied.at_)) then
    some ⟨14, .halted, none⟩
  else none

end Guards

end Nmas.Heal
