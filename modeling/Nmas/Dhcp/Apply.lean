import Mathlib.Logic.Function.Basic
import Nmas.Dhcp.Reservations

/-!
Contract: a DHCP change as it is applied to Mercury's files and to Kea.

Owns: `dhcp_subnets.apply_edit` with `_moved`, and `dhcp_reservations.apply` with
its read-back, each as its own checks and then the steps the two share: Kea's own
test, the write, the reload, the read-back, the restore and the record.

What the file system, Kea and the record answer is given; an answer of nothing is
an exception the code does not catch. A file is its text as it is read. How a
file's text holds its list is a parameter.

Does not own: the lock held meanwhile, the copies Kea's test reads, and the words
of what went wrong.
-/

namespace Nmas.Dhcp

open Nmas.Text

abbrev Files := Str → Option Str

/-- What a call has done to a file, or asked of Kea with the files as they were. -/
inductive Act where
  | created (path : Str)
  | replaced (path text : Str)
  | asked (files : Files)

structure World where
  files : Files
  acts : List Act

namespace World

/-- `_write_file` of a file that does not exist. -/
def create (world : World) (path : Str) : World :=
  ⟨Function.update world.files path (some "[]\n".ascii), world.acts ++ [.created path]⟩

def replace (world : World) (path text : Str) : World :=
  ⟨Function.update world.files path (some text), world.acts ++ [.replaced path text]⟩

/-- `config-reload`. -/
def asks (world : World) : World := { world with acts := world.acts ++ [.asked world.files] }

end World

/-- What the calls behind an apply answer; `Reading` is what Kea's configuration
reads as. The read-back's inner nothing is `Refused`, which is caught. -/
structure Answers (Reading : Type) where
  creates : Option Unit
  config : Option Reading
  main : Option Unit
  test : Option Bool
  writes : Option Unit
  reload : Bool
  readBack : Option (Option Reading)
  restores : Option Unit
  reloadsAgain : Bool
  record : Option Bool

/-- What `error` says. -/
inductive Fault where
  | reason
  | family
  | subnet
  | refused (refusal : Str)
  | moved
  | ack
  | test
  | reload
  | readBack
  | differs
  | record
deriving DecidableEq

/-- `out`: `error`, `outcome` and whether the restored file was reloaded. -/
structure Out where
  error : Option Fault
  outcome : Bool
  rolledBack : Option Bool
deriving DecidableEq

inductive Result where
  | raised
  | returned (out : Out)
deriving DecidableEq

def Result.fails (fault : Fault) : Result := .returned ⟨some fault, false, none⟩

/-- A call's checks: it stops before it writes a file of Kea's, or goes on to
replace one text by another, having created a file or none. -/
inductive Head where
  | stops (result : Result)
  | goes (previous candidate : Str) (created : Option Str)

section Shared

variable {Reading : Type}

def restore (answers : Answers Reading) (path previous : Str) (fault : Fault) (world : World) :
    Result × World :=
  match answers.restores with
  | none => (.raised, world)
  | some () =>
    (.returned ⟨some fault, false, some answers.reloadsAgain⟩, (world.replace path previous).asks)

/-- From the test on: `judge` is what the read-back makes of Kea's configuration. -/
def serves (answers : Answers Reading) (path previous candidate : Str) (judge : Reading → Bool)
    (world : World) : Result × World :=
  match answers.test, answers.writes with
  | none, _ => (.raised, world)
  | some false, _ => (.fails .test, world)
  | some true, none => (.raised, world)
  | some true, some () =>
    let world := (world.replace path candidate).asks
    if !answers.reload then restore answers path previous .reload world
    else match answers.readBack with
      | none => (.raised, world)
      | some none => (.fails .readBack, world)
      | some (some config) =>
        if !judge config then restore answers path previous .differs world
        else match answers.record with
          | none => (.raised, world)
          | some false => (.returned ⟨some .record, true, none⟩, world)
          | some true => (.returned ⟨none, true, none⟩, world)

/-- The checks' verdict carried out. -/
def carry (answers : Answers Reading) (path : Str) (judge : Reading → Bool) (world : World) :
    Head → Result × World
  | .stops result => (result, world)
  | .goes previous candidate created =>
    let world := match created with
      | some fresh => world.create fresh
      | none => world
    match answers.config, answers.main with
    | some _, some () => serves answers path previous candidate judge world
    | _, _ => (.raised, world)

end Shared

/-! ### A subnet -/

/-- A subnet of Mercury's subnet file: its id, the file its reservations are
included from, and the rest. -/
structure FileSubnet where
  id : Int
  reservations : Str
  rest : Str
deriving DecidableEq

inductive Change where
  | edit (id : Int) (after : FileSubnet)
  | add (after : FileSubnet)
  | remove (id : Int)

def Change.id : Change → Int
  | .edit id _ => id
  | .add after => after.id
  | .remove id => id

structure EditPlan where
  change : Change
  /-- Its effect on the clients served is to be acknowledged. -/
  ack : Bool
  hash : Str

/-- What `apply_edit` is called with; `planned` is its plan, or why it is refused. -/
structure Edit where
  reason : Str
  family : Str
  planned : Except Str EditPlan
  confirmed : Str
  ack : Bool

/-- Kea's configuration as `_moved` compares it: its settings but `hash`, and its
subnets' texts. -/
structure Running where
  settings : List (Str × Str)
  subnets : List (Int × Str)
deriving DecidableEq

/-- What moved besides what was asked. -/
inductive Moved where
  | setting (key : Str)
  | subnets
  | subnet (id : Int)
  | unchanged (id : Int)
deriving DecidableEq

/-- `{x.get("id"): x}`: the last of an id stands. -/
def byId (subnets : List (Int × Str)) (id : Int) : Option Str := subnets.reverse.lookup id

def eitherKeys {Key : Type} [DecidableEq Key] (one other : List Key) : List Key :=
  (one ++ other).eraseDups

/-- `_moved`. -/
def movedOf (before after : Running) (change : Change) : List Moved :=
  let sid := change.id
  let b := before.subnets.map Prod.fst
  let a := after.subnets.map Prod.fst
  let want := match change with
    | .edit _ _ => b
    | .add _ => sid :: b
    | .remove _ => b.filter (· ≠ sid)
  (eitherKeys (before.settings.map Prod.fst) (after.settings.map Prod.fst)).filterMap (fun key =>
      if before.settings.lookup key = after.settings.lookup key then none
      else some (.setting key)) ++
    (if a ⊆ want ∧ want ⊆ a then [] else [.subnets]) ++
    ((a.eraseDups.filter (· ∈ b)).filterMap (fun id =>
      if id ≠ sid ∧ byId after.subnets id ≠ byId before.subnets id then some (.subnet id)
      else none)) ++
    match change with
    | .edit _ _ =>
      if sid ∈ a ∧ sid ∈ b ∧ byId after.subnets sid = byId before.subnets sid then
        [.unchanged sid]
      else []
    | _ => []

def Change.candidate (change : Change) (subnets : List FileSubnet) : List FileSubnet :=
  match change with
  | .add after => subnets ++ [after]
  | .remove id => subnets.filter (fun subnet => subnet.id ≠ id)
  | .edit id after => subnets.map (fun subnet => if subnet.id = id then after else subnet)

/-- The file a subnet added has its reservations included from, where there is none. -/
def Change.fresh (change : Change) (files : Files) : Option Str :=
  match change with
  | .add after => if files after.reservations = none then some after.reservations else none
  | _ => none

section Format

variable (loadSubnets : Str → Option (List FileSubnet)) (dumpSubnets : List FileSubnet → Str)
  (loadEntries : Str → Option (List Entry)) (dumpEntries : List Entry → Str)

/-- `apply_edit` up to its test. -/
def editHead (edit : Edit) (path : Str) (creates : Option Unit) (files : Files) : Head :=
  if strip edit.reason = [] then .stops (.fails .reason)
  else match Family.ofText edit.family with
  | none => .stops (.fails .family)
  | some _ =>
    match edit.planned with
    | .error refusal => .stops (.fails (.refused refusal))
    | .ok planned =>
      if planned.hash ≠ edit.confirmed then .stops (.fails .moved)
      else if planned.ack ∧ !edit.ack then .stops (.fails .ack)
      else match files path with
      | none => .stops .raised
      | some previous =>
        match loadSubnets previous with
        | none => .stops .raised
        | some subnets =>
          let candidate := dumpSubnets (planned.change.candidate subnets)
          match planned.change.fresh files, creates with
          | none, _ => .goes previous candidate none
          | some _, none => .stops .raised
          | some fresh, some () => .goes previous candidate (some fresh)

/-- What the read-back expects of an edit that reaches it. -/
def Edit.judge (edit : Edit) (answers : Answers Running) (after : Running) : Bool :=
  match edit.planned, answers.config with
  | .ok planned, some before => movedOf before after planned.change = []
  | _, _ => false

def applyEdit (edit : Edit) (path : Str) (answers : Answers Running) (files : Files) :
    Result × World :=
  carry answers path (edit.judge answers) ⟨files, []⟩
    (editHead loadSubnets dumpSubnets edit path answers.creates files)

/-! ### A reservation -/

/-- A reservation Kea can never give. -/
structure Stranded where
  home : Option (Str × Int)
  key : Str
  identity : Str
  address : Str
  subnet : Str
deriving DecidableEq

/-- What `apply` is called with. -/
structure Reserve where
  reason : Str
  family : Str
  subnet : Str
  planned : Except Str (Plan × List Stranded × Str)
  confirmed : Str

variable [Readers]

def stranded (family : Family) (config : Config) : List Stranded :=
  (everyReservation family config).flatMap (fun row =>
    (row.addresses.filter (fun address =>
      !(match row.home with
        | some _ => within address row.subnet
        | none => config.subnets.any (fun subnet => within address subnet.subnet)))).map
      (fun address => ⟨row.home, row.key, row.identity, address, row.subnet⟩))

/-- `apply` up to its test. -/
def reserveHead (reserve : Reserve) (path : Str) (files : Files) : Head :=
  if strip reserve.reason = [] then .stops (.fails .reason)
  else match Family.ofText reserve.family with
  | none => .stops (.fails .family)
  | some _ =>
    match Readers.int 10 reserve.subnet with
    | none => .stops (.fails .subnet)
    | some _ =>
      match reserve.planned with
      | .error refusal => .stops (.fails (.refused refusal))
      | .ok (planned, _, hash) =>
        if hash ≠ reserve.confirmed then .stops (.fails .moved)
        else match files path with
        | none => .stops .raised
        | some previous =>
          match loadEntries previous with
          | none => .stops .raised
          | some mine => .goes previous (dumpEntries (candidate planned mine)) none

def keyOf (row : Held) : Option (Str × Int) × Str × Str × List Str :=
  (row.home, row.key, row.identity, row.addresses)

/-- What a reservation is read back as. -/
def entryKeyOf (family : Family) (home : Option (Str × Int)) (entry : Entry) :
    Option (Str × Int) × Str × Str × List Str :=
  keyOf (held family home [] entry)

/-- What the read-back expects of a change that reaches it. -/
def Reserve.judge (reserve : Reserve) (answers : Answers Config) (after : Config) : Bool :=
  match reserve.planned, answers.config with
  | .ok (planned, strandedBefore, _), some before =>
    let family := planned.family
    let beforeAll := everyReservation family before
    let afterAll := everyReservation family after
    let home := (((beforeAll ++ afterAll).map Held.home).find? (fun home =>
      home.map Prod.snd = some planned.subnetId)).getD (some ([], planned.subnetId))
    let expected := (beforeAll.map keyOf).filter (fun key => planned.before.all (fun entry =>
      key ≠ entryKeyOf family home entry)) ++ planned.after.toList.map (entryKeyOf family home)
    let got := afterAll.map keyOf
    got.all (· ∈ expected) && expected.all (· ∈ got) &&
      decide (stranded family after = strandedBefore)
  | _, _ => false

/-- `apply`. -/
def applyReserve (reserve : Reserve) (path : Str) (answers : Answers Config) (files : Files) :
    Result × World :=
  carry answers path (reserve.judge answers) ⟨files, []⟩
    (reserveHead loadEntries dumpEntries reserve path files)

end Format

end Nmas.Dhcp
