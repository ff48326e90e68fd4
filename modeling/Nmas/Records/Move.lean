import Mathlib.Data.Char
import Mathlib.Data.List.Lex
import Mathlib.Data.List.Sort
import Nmas.Log.Appends
import Nmas.Log.Machine
import Nmas.Text.Str

/-!
Contract: a line store of `records_migrate.py`, while it is appended to and moved.

Owns: `store_append` and `store_rows`, `copy`, `check`, `move`, `_back` and
`move_back`, as the steps in which each reads and writes the store's files, its
table and its setting, with any of them failing and any process dying between two.

Does not own: the preview's words and fingerprint, a record of the switch, and
what a row says: a line is kept as its text on both backends.

One write to a file is one step, as one transaction of the table is.
-/

namespace Nmas.Records

open Nmas.Text
open Nmas.Log.Appends (Account returnedOf ReadOnce Before)

/-- Where the store's setting keeps its records. -/
inductive Backend where
  | file
  | postgres
deriving DecidableEq

abbrev Line := Nmas.Log.Appends.Line Str Str

/-- A `store_append` between reading the backend and its write. -/
abbrev Call := Nmas.Log.Appends.Call Str Str Backend

/-- A row of the store's table, of the network of its line. A line written since the move
has no `source_line`. -/
structure Row where
  seq : Nat
  line : Line
  sourceLine : Option Nat
deriving DecidableEq

/-- The loops of a move over the store's networks. -/
inductive Pass where
  | copy (again : Bool)
  | check (ok : Bool)
  | readOnly
  | writable
  | exported
deriving DecidableEq

/-- What the running operation does next. -/
inductive Stage where
  /-- Lists the networks of a pass. -/
  | list (pass : Pass)
  /-- The pass, with the networks that are left. -/
  | each (pass : Pass) (todo : List Str)
  /-- `copy` has read the network's file and not yet committed. -/
  | copying (again : Bool) (network : Str) (texts : List Line) (todo : List Str)
  /-- `_back` has read the network's rows and not yet written the file. -/
  | exporting (network : Str) (got : List Row) (todo : List Str)
  /-- `_back` has written the file and not yet deleted the rows. -/
  | deleting (network : Str) (got : List Row) (todo : List Str)
  /-- `_switch`. -/
  | switch (backend : Backend)

/-- What the migration asks of the store and of the system. -/
structure Site where
  sha : Str → Str
  fold : List Str → List Str
  /-- Whether Mercury's processes write a read-only file. -/
  root : Bool

/-- The setting, the files that exist, the table, the appends and the operation that runs. -/
structure Store where
  backend : Backend
  networks : List Str
  lines : Str → List Line
  readOnly : Str → Bool
  rows : List Row
  nextSeq : Nat
  calls : List Call
  returned : List Call
  nextAppend : Nat
  stage : Option Stage

namespace Store

def new : Store where
  backend := .file
  networks := []
  lines _ := []
  readOnly _ := false
  rows := []
  nextSeq := 1
  calls := []
  returned := []
  nextAppend := 0
  stage := none

variable (site : Site) (store : Store) (network : Str)

/-! ### Reads -/

/-- A network's rows with a `source_line`. -/
def copiedRows : List Row :=
  store.rows.filter (fun row => row.line.key = network ∧ row.sourceLine.isSome)

/-- A network's rows written since the move, by `seq`. -/
def sinceRows : List Row :=
  store.rows.filter (fun row => row.line.key = network ∧ row.sourceLine = none)

/-- The copied lines by `source_line`. -/
def copiedLines : List Line :=
  ((store.copiedRows network).insertionSort
    (fun one other => one.sourceLine.getD 0 ≤ other.sourceLine.getD 0)).map Row.line

/-- `table_lines`: copied lines in file order, then the lines written since. -/
def tableLines : List Line := store.copiedLines network ++ (store.sinceRows network).map Row.line

def storeRows : List Line :=
  match store.backend with
  | .postgres => store.tableLines network
  | .file => store.lines network

/-- `_copied`: the row of the table for one line of the file. -/
def copiedAt (place : Nat) : Option Row :=
  (store.copiedRows network).find? (fun row => row.sourceLine = some place)

/-! ### Writes -/

def appendTo (texts : List Line) : Option Store :=
  if store.readOnly network ∧ ¬ site.root then none
  else some { store with
    networks := if network ∈ store.networks then store.networks else store.networks ++ [network]
    lines := Function.update store.lines network (store.lines network ++ texts)
    readOnly := Function.update store.readOnly network false }

def insert (line : Line) (sourceLine : Option Nat) : Store :=
  { store with
    rows := store.rows ++ [⟨store.nextSeq, line, sourceLine⟩]
    nextSeq := store.nextSeq + 1 }

/-- The lines of a file that the table has no row for, each with its place. -/
def missing (texts : List Line) : List (Line × Nat) :=
  (texts.zipIdx 1).filter (fun one => store.copiedAt network one.2 = none)

def conflicts (texts : List Line) : Bool :=
  (texts.zipIdx 1).any (fun one =>
    (store.copiedAt network one.2).any (fun row => site.sha row.line.text ≠ site.sha one.1.text))

/-- The transaction of `copy` for one network; nothing where it is refused. -/
def copy (texts : List Line) : Option Store :=
  if store.conflicts site network texts then none
  else some ((store.missing network texts).foldl
    (fun state one => state.insert one.1 (some one.2)) store)

/-- `check` of one network. -/
def agrees : Bool :=
  ((store.lines network).zipIdx 1).all (fun one =>
    (store.copiedAt network one.2).any (fun row => site.sha row.line.text = site.sha one.1.text)) &&
  (store.copiedRows network).length ≤ (store.lines network).length &&
  site.fold ((store.lines network).map (·.text)) =
    site.fold ((store.copiedLines network).map (·.text))

/-- The rows `_back` read for a network, deleted. -/
def delete (got : List Row) : Store :=
  { store with
    rows := store.rows.filter (fun row => ¬ (row.line.key = network ∧ row.seq ∈ got.map Row.seq)) }

def listed : Pass → List Str
  | .copy _ | .readOnly | .writable => store.networks.insertionSort (· ≤ ·)
  | .check _ =>
    (store.networks ++ store.rows.map (fun row => row.line.key)).dedup.insertionSort (· ≤ ·)
  | .exported =>
    ((store.rows.filter (fun row => row.sourceLine = none)).map (fun row => row.line.key)).dedup

/-! ### The operation -/

def enter (stage : Option Stage) : Store := { store with stage := stage }

end Store

def Pass.after : Pass → Option Stage
  | .copy false => some (.switch .postgres)
  | .copy true => some (.list (.check true))
  | .check true => some (.list .readOnly)
  | .check false => some (.list .writable)
  | .readOnly => none
  | .writable => some (.list .exported)
  | .exported => some (.switch .file)

/-- What follows an exception in `copy`: before the switch it is the caller's. -/
def refused (again : Bool) : Option Stage := if again then some (.list .writable) else none

namespace Store

/-- The next step of the operation that runs. -/
def work (site : Site) (store : Store) : Stage → Store
  | .list pass => store.enter (some (.each pass (store.listed pass)))
  | .each pass [] => store.enter pass.after
  | .each (.copy again) (network :: todo) =>
    store.enter (some (.copying again network (store.lines network) todo))
  | .each (.check ok) (network :: todo) =>
    store.enter (some (.each (.check (ok && store.agrees site network)) todo))
  | .each .readOnly (network :: todo) =>
    { store with
      readOnly := Function.update store.readOnly network true
      stage := some (.each .readOnly todo) }
  | .each .writable (network :: todo) =>
    { store with
      readOnly := Function.update store.readOnly network false
      stage := some (.each .writable todo) }
  | .each .exported (network :: todo) =>
    store.enter (some (.exporting network (store.sinceRows network) todo))
  | .copying again network texts todo =>
    match store.copy site network texts with
    | some copied => copied.enter (some (.each (.copy again) todo))
    | none => store.enter (refused again)
  | .exporting network got todo =>
    match store.appendTo site network (got.map Row.line) with
    | some written => written.enter (some (.deleting network got todo))
    | none => store.enter none
  | .deleting network got todo =>
    (store.delete network got).enter (some (.each .exported todo))
  | .switch .postgres =>
    { store with backend := .postgres, stage := some (.list (.copy true)) }
  | .switch .file => { store with backend := .file, stage := none }

/-- The `try` of `move`: an exception after the switch is a `_back`. -/
def stumble (store : Store) : Stage → Store
  | .list (.copy true) | .each (.copy true) _ | .copying true _ _ _ | .list (.check _)
  | .each (.check _) _ => store.enter (some (.list .writable))
  | _ => store

def land (site : Site) (store : Store) (call : Call) : Option Store :=
  match call.route with
  | .postgres => some (store.insert call.line none)
  | .file => store.appendTo site call.line.key [call.line]

end Store

inductive Act where
  /-- A `store_append` reads the backend. -/
  | begins (network text : Str)
  /-- It writes, and returns unless its process ends there. -/
  | lands (place : Nat) (returns : Bool)
  /-- It ends without its line. -/
  | fails (place : Nat)
  | move
  | moveBack
  /-- The operation's next step. -/
  | works
  /-- The operation's step raises inside the `try` of `move`. -/
  | stumbles
  /-- The operation's process ends, or an exception leaves it. -/
  | dies

namespace Store

def step (site : Site) (store : Store) : Act → Store
  | .begins network text =>
    { store with
      calls := store.calls ++ [⟨⟨store.nextAppend, network, text⟩, store.backend,
        returnedOf store.returned network⟩]
      nextAppend := store.nextAppend + 1 }
  | .lands place returns =>
    match store.calls[place]? with
    | none => store
    | some call =>
      match store.land site call with
      | none => { store with calls := store.calls.eraseIdx place }
      | some landed =>
        { landed with
          calls := store.calls.eraseIdx place
          returned := if returns then store.returned ++ [call] else store.returned }
  | .fails place => { store with calls := store.calls.eraseIdx place }
  | .move =>
    if store.stage.isNone ∧ store.backend = .file then
      store.enter (some (.list (.copy false)))
    else store
  | .moveBack =>
    if store.stage.isNone ∧ store.backend = .postgres then store.enter (some (.list .writable))
    else store
  | .works => store.stage.elim store (store.work site)
  | .stumbles => store.stage.elim store store.stumble
  | .dies => store.enter none

/-- What is asked of the store: while no operation runs, every line whose append returned
is read once, after every line of its network whose append had returned before it began. -/
def LinesKept (store : Store) : Prop :=
  store.stage.isNone → ∀ call ∈ store.returned, ReadOnce call (store.storeRows call.line.key)

instance (store : Store) : Decidable store.LinesKept := inferInstanceAs (Decidable (_ → _))

/-! ### When the steps are in time -/

def looksAtFile (site : Site) (store : Store) (network : Str) : Bool :=
  match store.stage with
  | none => false
  | some (.each (.check ok) todo) =>
    !ok || network ∈ todo || todo.any (fun other => !store.agrees site other)
  | some (.list .readOnly) | some (.each .readOnly _) => false
  | some _ => true

/-- Whether no `_back` has read the network's rows. -/
def looksAtTable (store : Store) (network : Str) : Bool :=
  match store.stage with
  | some (.each .exported todo) => network ∈ todo
  | some (.exporting _ _ todo) | some (.deleting _ _ todo) => network ∈ todo
  | some (.switch .file) => false
  | _ => true

def Covered (store : Store) : Prop :=
  ∀ network ∈ store.networks, (store.copiedRows network).length = (store.lines network).length

instance (store : Store) : Decidable store.Covered := inferInstanceAs (Decidable (∀ _ ∈ _, _))

def WriteInTime (site : Site) (store : Store) (call : Call) : Prop :=
  (call.route = .file → store.backend = .file ∨ (store.readOnly call.line.key ∧ ¬ site.root) ∨
    store.looksAtFile site call.line.key) ∧
  (call.route = .postgres → store.backend = .postgres ∧ store.looksAtTable call.line.key)

instance (site : Site) (store : Store) (call : Call) : Decidable (store.WriteInTime site call) :=
  inferInstanceAs (Decidable (_ ∧ _))

/-- An operation that ends on the database leaves nothing behind in the files. -/
def EndsWhole (store : Store) : Prop := store.backend = .postgres → store.Covered

instance (store : Store) : Decidable store.EndsWhole := inferInstanceAs (Decidable (_ → _))

/-- Whether `_back` is to write a file whose mode refuses it. -/
def exportRefused (site : Site) (store : Store) : Bool :=
  match store.stage with
  | some (.exporting network _ _) => store.readOnly network && !site.root
  | _ => false

/-- Every write of an append lands before the last look of the operation that runs, and
an operation is cut off only where nothing is between the two backends. -/
def InTime (site : Site) (store : Store) : Act → Prop
  | .lands place _ => ∀ call ∈ store.calls[place]?, store.WriteInTime site call
  | .works => store.exportRefused site → store.EndsWhole
  | .dies => store.EndsWhole
  | _ => True

instance (site : Site) (store : Store) : ∀ act, Decidable (store.InTime site act)
  | .lands place _ => inferInstanceAs (Decidable (∀ call ∈ store.calls[place]?, _))
  | .works => inferInstanceAs (Decidable (_ → _))
  | .dies => inferInstanceAs (Decidable store.EndsWhole)
  | .begins _ _ | .fails _ | .move | .moveBack | .stumbles => isTrue trivial

end Store

end Nmas.Records
