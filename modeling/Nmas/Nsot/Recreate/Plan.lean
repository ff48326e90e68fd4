import Mathlib.Data.List.Sort
import Nmas.Log.Keyed
import Nmas.Nsot.Merge
import Nmas.Nsot.Removal.Verdict
import Nmas.Nsot.Rollback.LineRanges
import Nmas.Text.Lines

/-!
Contract: the IP SLA operations of a configuration, the program that re-creates
one, and the one that takes it back.

Owns: `nsot/recreate.py`'s `HEADER`, `SCHEDULE`, `operations` and `exclude`,
which scan the lines of a text each in its own way; `_dependents`, `_same`,
`_fragment`, `_definition_program`, `plan` and `undo_program`.
-/

namespace Nmas.Nsot.Recreate

open Nmas.Text Nmas.Log

/-- One entry of what `operations` answers. -/
structure Operation where
  body : List Str
  schedule : List Str
deriving DecidableEq

/-- `{number: operation}`. -/
abbrev Operations := List (Str × Operation)

/-- `ops.get(number)`. -/
def Operations.get (ops : Operations) (number : Str) : Option Operation :=
  (ops.find? (fun entry => entry.1 = number)).map Prod.snd

/-- `ops.setdefault(number, {"body": [], "schedule": []})`. -/
def Operations.setDefault (ops : Operations) (number : Str) : Operations :=
  if (ops.get number).isSome then ops else ops ++ [(number, ⟨[], []⟩)]

def Operations.change (ops : Operations) (number : Str) (change : Operation → Operation) :
    Operations :=
  amend Prod.fst number (fun entry => (entry.1, change entry.2)) ops

def Operation.addBody (operation : Operation) (line : Str) : Operation :=
  { operation with body := operation.body ++ [line] }

def Operation.addSchedule (operation : Operation) (line : Str) : Operation :=
  { operation with schedule := operation.schedule ++ [line] }

/-- `line.startswith(" ")`. -/
def isInner (line : Str) : Bool := line.head? = some ' '

section Scan

variable [Unicode]

/-- `HEADER.match`, on a line without white space at its end: the number. -/
def header (line : Str) : Option Str :=
  (afterPrefix "ip sla ".ascii line).bind (fun number =>
    if number ≠ [] ∧ number.all isDecimal then some number else none)

/-- `SCHEDULE.match`: the number. A digit is followed by no word boundary, so only
all the digits there are can match. -/
def scheduled (line : Str) : Option Str :=
  (afterPrefix "ip sla schedule ".ascii line).bind (fun rest =>
    if rest.takeWhile isDecimal ≠ [] ∧ wordEnds (rest.dropWhile isDecimal) then
      some (rest.takeWhile isDecimal)
    else none)

/-- What `operations` keeps from line to line. -/
structure Scan where
  ops : Operations
  current : Option Str
deriving DecidableEq

/-- What `operations` does with a line. -/
def readLine (scan : Scan) (raw : Str) : Scan :=
  let line := rstrip raw
  if strip line = [] ∨ strip line = "!".ascii then
    if strip line = "!".ascii then { scan with current := none } else scan
  else if isInner line then
    match scan.current with
    | some number => { scan with ops := scan.ops.change number (·.addBody line) }
    | none => scan
  else
    match header line with
    | some number => ⟨scan.ops.setDefault number, some number⟩
    | none =>
      match scheduled line with
      | some number => ⟨(scan.ops.setDefault number).change number (·.addSchedule line), none⟩
      | none => ⟨scan.ops, none⟩

def readLines (lines : List Str) : Scan := lines.foldl readLine ⟨[], none⟩

def operations (config : Str) : Operations := (readLines (splitlines config)).ops

/-- A re-created operation: what the device ran of it, and what intent wants. -/
structure Recreated where
  number : Str
  old : Operation
  new : Operation
deriving DecidableEq

/-- The loop of `exclude`: a line is kept or left out, and the lines under a named
header are skipped. -/
def excludeLines (numbers : List Str) (skipping : Bool) : List Str → List Str
  | [] => []
  | raw :: rest =>
    if raw ≠ [] ∧ ¬ isInner raw then
      let skipping := (header (rstrip raw)).any numbers.contains
      if skipping ∨ (scheduled (rstrip raw)).any numbers.contains then
        excludeLines numbers skipping rest
      else raw :: excludeLines numbers skipping rest
    else if skipping then excludeLines numbers skipping rest
    else raw :: excludeLines numbers skipping rest

def exclude (config : Str) (units : List Recreated) : Str :=
  let numbers := units.map Recreated.number
  if numbers = [] then config
  else
    joinLines (excludeLines numbers false (splitlines config)) ++
      if config.getLast? = some '\n' then ['\n'] else []

end Scan

end Nmas.Nsot.Recreate

namespace Nmas.Nsot.Recreate

open Nmas.Text Nmas.Text.Regex
open Nmas.Nsot.Removal (Measured unmeasured said joined)
open Nmas.Nsot.Rollback (decimalValue)

/-- `f"ip sla {n}"`. -/
def headerLine (number : Str) : Str := "ip sla ".ascii ++ number

/-- `f"no ip sla {n}"`. -/
def deletion (number : Str) : Str := "no ip sla ".ascii ++ number

def fragment (number : Str) (operation : Operation) : Str :=
  joinLines (headerLine number :: (operation.body ++ operation.schedule)) ++ ['\n']

def same (one other : Operation) : Bool :=
  one.body.map strip = other.body.map strip ∧ one.schedule.map strip = other.schedule.map strip

/-- An entry of `refused`. -/
structure Refused where
  number : Str
  reason : Str
deriving DecidableEq

/-- What `plan` answers. -/
structure Planned where
  units : List Recreated
  commands : List Str
  refused : List Refused
deriving DecidableEq

/-- What `undo_program` raises. -/
inductive UndoError where
  /-- `RuntimeError`: the snapshot does not define the operation. -/
  | notInSnapshot (number : Str)
  | deploy (error : DeployError)
deriving DecidableEq

section Program

variable [Unicode]

def dependents (number : Str) : List Regex :=
  [ .all [start, said "ip sla ",
      anyOf ["reaction-configuration", "reaction-trigger", "enable reaction-alert"], plus space,
      lit number, edge],
    .all [start, said "ip sla group schedule ", plus visible, said " ", many dot, edge, lit number,
      edge],
    .all [start, said "track ", plus digit, said " ", anyOf ["ip sla", "rtr"], said " ", lit number,
      edge] ]

def definitionProgram (number : Str) (operation : Operation) : Except DeployError (List Str) :=
  mergeCommands (fragment number operation) []

/-- The delete, and the definition from nothing. -/
def redefinition (number : Str) (operation : Operation) : Except DeployError (List Str) :=
  (definitionProgram number operation).map (fun program => deletion number :: program)

/-- What `plan` makes of one operation that both sides define. -/
inductive Judged where
  | unchanged
  | refused (refusal : Refused)
  | recreated (unit : Recreated)

/-- The loop of `plan` up to the program. -/
def judge (measured : Measured) (dialect : Str) (top : List Str) (number : Str)
    (new old : Operation) : Judged :=
  if new.body = [] ∨ old.body = [] ∨ same new old then .unchanged
  else
    match unmeasured measured dialect [] (headerLine number) .stanza with
    | some why =>
      .refused ⟨number, "ip sla ".ascii ++ number ++ (" is running, and IOS refuses to modify a " ++
        "running operation, so the change deletes it and re-creates it; that delete is not " ++
        "allowed: ").ascii ++ why⟩
    | none =>
      match top.flatMap (fun line => ((dependents number).filter (fun pattern =>
          pattern.found line)).map (fun _ => line)) with
      | [] => .recreated ⟨number, old, new⟩
      | naming =>
        .refused ⟨number, "ip sla ".ascii ++ number ++ (" is running and must be deleted to " ++
          "change it, and the device has configuration naming it that deleting it removes or " ++
          "breaks, which intent does not model: ").ascii ++ joined "; ".ascii naming⟩

/-- `sorted(set(want) & set(have), key=int)`; of numbers written two ways the order of
the set is not known, and the intended one's stands. -/
def sharedNumbers (want held : Operations) : List Str :=
  ((want.map Prod.fst).filter (fun number => (held.get number).isSome)).insertionSort
    (fun one other => decimalValue one ≤ decimalValue other)

def topLines (captured : Str) : List Str :=
  ((splitlines captured).filter (fun line => line ≠ [] ∧ ¬ isInner line)).map rstrip

def judgements (measured : Measured) (dialect intended captured : Str) : List Judged :=
  (sharedNumbers (operations intended) (operations captured)).map (fun number =>
    judge measured dialect (topLines captured) number
      (((operations intended).get number).getD ⟨[], []⟩)
      (((operations captured).get number).getD ⟨[], []⟩))

def Judged.unit? : Judged → Option Recreated
  | recreated unit => some unit
  | _ => none

def Judged.refusal? : Judged → Option Refused
  | refused refusal => some refusal
  | _ => none

def plan (measured : Measured) (dialect intended captured : Str) : Except DeployError Planned := do
  let judged := judgements measured dialect intended captured
  let units := judged.filterMap Judged.unit?
  let programs ← units.mapM (fun unit => redefinition unit.number unit.new)
  let commands := programs.flatten
  if commands ≠ [] then assertSendable commands
  return ⟨units, commands, judged.filterMap Judged.refusal?⟩

/-- One unit of `undo_program`. -/
def undoUnit (before : Operations) (unit : Recreated) : Except UndoError (List Str) :=
  match before.get unit.number with
  | some old =>
    if old.body = [] then .error (.notInSnapshot unit.number)
    else (redefinition unit.number old).mapError .deploy
  | none => .error (.notInSnapshot unit.number)

def undoProgram (units : List Recreated) (preConfig : Str) : Except UndoError (List Str) :=
  (units.mapM (undoUnit (operations preConfig))).map List.flatten

end Program

end Nmas.Nsot.Recreate
