import Mathlib.Data.Int.Bitwise
import Nmas.Sdn.FlowIntent.Effect
import Nmas.Sdn.Trace.Select

/-!
Contract: one switch's pipeline for a packet.

Owns: `_set_field`, `_outputs` and `through_switch` of `sdn/trace.py`; that the tables are
always left (`throughSwitch_room`), and that what is sent has only what came in or is written
by a flow of the switch (`throughSwitch_from`).

An ending keeps what its words name. Where the source would combine a metadata that is not a
number it raises `TypeError`, and there is no answer.
-/

namespace Nmas.Sdn.Trace

open Nmas.Text Nmas.Sdn.FlowIntent List

/-! ### Fields and ports -/

/-- `_set_field`: none where it sets a VLAN's field. -/
def setField [Unicode] [Readers] (packet : Pkt) (field : Field) (value : Value) : Option Pkt :=
  if field = .vlanVid ∨ field = .vlanPcp then none
  else some (packet.insert field (canonicalValue field value))

/-- A packet without its pipeline fields (`_PIPELINE`). -/
def sent (packet : Pkt) : Pkt := ((packet.erase .inPort).erase .inPhyPort).erase .metadata

/-- `str.upper()` of an ASCII text. -/
def uppered (text : Str) : Str := text.map Char.toUpper

inductive NotSent where
  | noPorts (name : Str)
  | normal
  | reserved (name : Str)
deriving DecidableEq

def standardPorts (inPort : Value) (listed : List Value) : List Value :=
  ((listed.filterMap (fun port =>
      match port with
      | .int number => if port = inPort then none else some number
      | _ => none)).insertionSort (fun one other => one ≤ other)).map Value.int

/-- `_outputs`: the ports, each with whether it is a number naming the ingress port. -/
def outputs (port inPort : Value) (ports : Option (List Value)) :
    Except NotSent (List (Value × Bool)) :=
  match port with
  | .int _ => .ok [(port, decide (port = inPort))]
  | _ =>
    let name := uppered port.str
    if name = "IN_PORT".ascii then .ok [(inPort, false)]
    else if name = "CONTROLLER".ascii ∨ name = "LOCAL".ascii then .ok [(.text name, false)]
    else if name = "ALL".ascii ∨ name = "FLOOD".ascii then
      match ports with
      | none => .error (.noPorts name)
      | some listed => .ok ((standardPorts inPort listed).map (fun port => (port, false)))
    else if name = "NORMAL".ascii then .error .normal
    else .error (.reserved name)

/-! ### What a flow does -/

/-- Why a switch's answer is "cannot tell". -/
inductive Unknown where
  | doubt (doubt : Doubt)
  | notSent (flow : Flow) (why : NotSent)
  | setsVlan (flow : Flow) (field : Field)
  | notModelled (flow : Flow) (action : Applied)
  | writesNotModelled (flow : Flow) (action : Applied)
  | goesBack (flow : Flow) (goto : Value) (table : Int)
deriving DecidableEq

/-- How a packet's branch ends inside a switch. -/
inductive Ends where
  | unknown (why : Unknown)
  | noMatch (table : Int)
  | dropped (flow : Option Flow)
deriving DecidableEq

structure Emit where
  port : Value
  packet : Pkt
  flow : Flow
  /-- The port is the ingress port, by its number. -/
  back : Bool
deriving DecidableEq

inductive SetKey where
  | setField (field : Field)
  | output
  | group
  | change (type : Change)
  | unparsed
deriving DecidableEq

def SetKey.of : Applied → SetKey
  | .setField field _ => .setField field
  | .output _ => .output
  | .group _ => .group
  | .change type _ => .change type
  | .unparsed _ => .unparsed

/-- `_NOTED`: what changes nothing the walk follows. -/
def isNoted : Applied → Bool
  | .change .decNwTtl _ | .change .setNwTtl _ | .change .copyTtlOut _ | .change .copyTtlIn _
  | .change .setQueue _ => true
  | _ => false

def isModelled : Applied → Bool
  | .setField _ _ | .output _ => true
  | action => isNoted action

/-- `through_switch`'s variables. -/
structure Pipeline where
  packet : Pkt
  actionSet : List (SetKey × Applied × Flow)
  taken : List Flow
  emits : List Emit
  notes : List (Flow × Action)

def Pipeline.arrive (inPort : Value) (packet : Pkt) : Pipeline where
  packet := ((packet.insert .inPort inPort).insert .inPhyPort inPort).insert .metadata (.int 0)
  actionSet := []
  taken := []
  emits := []
  notes := []

/-- `emit`'s appends. -/
def Pipeline.emit (pipe : Pipeline) (flow : Flow) (got : List (Value × Bool)) : Pipeline :=
  { pipe with emits := pipe.emits ++ got.map (fun out => ⟨out.1, sent pipe.packet, flow, out.2⟩) }

def asNumber : Value → Option Int
  | .int number => some number
  | .bool value => some (if value then 1 else 0)
  | _ => none

/-- `value or 0`. -/
def orZero (value : Value) : Value := if isFalsy value then .int 0 else value

structure Instructions where
  apply : List Applied
  write : Option (List Applied)
  clear : Bool
  metadata : Option (Value × Value)
  goto : Option Value

def Instructions.read (got : Instructions) : Action → Instructions
  | .meter _ => got
  | .gotoTable tableId => { got with goto := some tableId }
  | .clearActions => { got with clear := true }
  | .writeActions actions => { got with write := some actions }
  | .writeMetadata metadata mask => { got with metadata := some (orZero metadata, orZero mask) }
  | .apply action => { got with apply := got.apply ++ [action] }

def instructionsOf (actions : List Action) : Instructions :=
  actions.foldl Instructions.read ⟨[], none, false, none, none⟩

def isMeter : Action → Bool
  | .meter _ => true
  | _ => false

def Pipeline.take (pipe : Pipeline) (flow : Flow) : Pipeline :=
  { pipe with
    taken := pipe.taken ++ [flow]
    notes := pipe.notes ++ (flow.actions.filter isMeter).map (flow, ·) }

def Pipeline.write (pipe : Pipeline) (flow : Flow) (got : Instructions) : Pipeline :=
  { pipe with
    actionSet := (got.write.getD []).foldl
      (fun set action => Log.put Prod.fst (SetKey.of action, action, flow) set)
      (if got.clear then [] else pipe.actionSet) }

/-- `(pkt["metadata"] & ~mask) | (value & mask)`. -/
def combined (held value mask : Int) : Int :=
  Int.lor (Int.land held (Int.lnot mask)) (Int.land value mask)

def Pipeline.writeMetadata (pipe : Pipeline) (got : Instructions) : Option Pipeline :=
  match got.metadata with
  | none => some pipe
  | some (value, mask) => do
    let held ← (pipe.packet.lookup .metadata).bind asNumber
    let value ← asNumber value
    let mask ← asNumber mask
    return { pipe with packet := pipe.packet.insert .metadata (.int (combined held value mask)) }

inductive Turn where
  | ends (pipe : Pipeline) (why : Ends)
  | finish (pipe : Pipeline)
  | goes (table : Int) (pipe : Pipeline)
  | raises

/-- Why `through_switch` has no answer. -/
inductive Stop where
  | typeError
  | outOfRoom
deriving DecidableEq

structure Through where
  flows : List Flow
  emits : List Emit
  notes : List (Flow × Action)
  ended : Option Ends

def Pipeline.done (pipe : Pipeline) (ended : Option Ends) : Through :=
  ⟨pipe.taken, pipe.emits, pipe.notes, ended⟩

section Through

variable [Unicode] [Readers]

def applyOne (ports : Option (List Value)) (inPort : Value) (flow : Flow) (pipe : Pipeline)
    (action : Applied) : Pipeline × Option Unknown :=
  match action with
  | .output port =>
    match outputs port inPort ports with
    | .ok got => (pipe.emit flow got, none)
    | .error why => (pipe, some (.notSent flow why))
  | .setField field value =>
    match setField pipe.packet field value with
    | some packet => ({ pipe with packet := packet }, none)
    | none => (pipe, some (.setsVlan flow field))
  | _ =>
    if isNoted action then ({ pipe with notes := pipe.notes ++ [(flow, .apply action)] }, none)
    else (pipe, some (.notModelled flow action))

def applyAll (ports : Option (List Value)) (inPort : Value) (flow : Flow) :
    Pipeline → List Applied → Pipeline × Option Unknown
  | pipe, [] => (pipe, none)
  | pipe, action :: rest =>
    match applyOne ports inPort flow pipe action with
    | (after, none) => applyAll ports inPort flow after rest
    | (after, some why) => (after, some why)

def goTo (flow : Flow) (table : Int) (pipe : Pipeline) : Option Value → Turn
  | none => .finish pipe
  | some goto =>
    match asNumber goto with
    | none => .ends pipe (.unknown (.goesBack flow goto table))
    | some other =>
      if other ≤ table then .ends pipe (.unknown (.goesBack flow goto table))
      else .goes other pipe

def tableTurn (flows : List Flow) (ports : Option (List Value)) (inPort : Value) (table : Int)
    (pipe : Pipeline) : Turn :=
  match select flows table pipe.packet with
  | .cannot doubt => .ends pipe (.unknown (.doubt doubt))
  | .miss => .ends pipe (.noMatch table)
  | .takes flow =>
    let got := instructionsOf flow.actions
    match applyAll ports inPort flow (pipe.take flow) got.apply with
    | (after, some why) => .ends after (.unknown why)
    | (after, none) =>
      match (after.write flow got).writeMetadata got with
      | none => .raises
      | some written => goTo flow table written got.goto

def setFields : Pipeline → List (SetKey × Applied × Flow) → Pipeline × Option Unknown
  | pipe, [] => (pipe, none)
  | pipe, (_, .setField field value, flow) :: rest =>
    match setField pipe.packet field value with
    | some packet => setFields { pipe with packet := packet } rest
    | none => (pipe, some (.setsVlan flow field))
  | pipe, _ :: rest => setFields pipe rest

def putOut (ports : Option (List Value)) (inPort : Value) (pipe : Pipeline) :
    Pipeline × Option Unknown :=
  match pipe.actionSet.find? (fun entry => entry.1 = .output) with
  | some (_, .output port, flow) =>
    match outputs port inPort ports with
    | .ok got => (pipe.emit flow got, none)
    | .error why => (pipe, some (.notSent flow why))
  | _ => (pipe, none)

def finish (ports : Option (List Value)) (inPort : Value) (pipe : Pipeline) : Through :=
  match pipe.actionSet.find? (fun entry => !isModelled entry.2.1) with
  | some (_, action, flow) => pipe.done (some (.unknown (.writesNotModelled flow action)))
  | none =>
    match setFields pipe pipe.actionSet with
    | (after, some why) => after.done (some (.unknown why))
    | (after, none) =>
      match putOut ports inPort after with
      | (after, some why) => after.done (some (.unknown why))
      | (after, none) =>
        if after.emits = [] then after.done (some (.dropped after.taken.getLast?))
        else after.done none

def tables (flows : List Flow) (ports : Option (List Value)) (inPort : Value) :
    (room : Nat) → Int → Pipeline → Except Stop Through
  | 0, _, _ => .error .outOfRoom
  | room + 1, table, pipe =>
    match tableTurn flows ports inPort table pipe with
    | .ends after why => .ok (after.done (some why))
    | .finish after => .ok (finish ports inPort after)
    | .goes other after => tables flows ports inPort room other after
    | .raises => .error .typeError

/-- `through_switch`. Each table gone to is a later one, and one without flows ends it. -/
def throughSwitch (flows : List Flow) (ports : Option (List Value)) (inPort : Value)
    (packet : Pkt) : Except Stop Through :=
  tables flows ports inPort (flows.length + 1) 0 (.arrive inPort packet)

/-! ### The tables are left -/

variable {flows : List Flow} {ports : Option (List Value)} {inPort : Value} {table : Int}
  {pipe : Pipeline}

omit [Unicode] [Readers] in
theorem goTo_goes {flow : Flow} {goto : Option Value} {other : Int} {after : Pipeline}
    (goes : goTo flow table pipe goto = .goes other after) : table < other ∧ after = pipe := by
  unfold goTo at goes
  split at goes
  · cases goes
  · split at goes
    · cases goes
    · split at goes
      · cases goes
      · rename_i isLater
        cases goes
        exact ⟨not_le.mp isLater, rfl⟩

theorem tableTurn_goes {other : Int} {after : Pipeline}
    (goes : tableTurn flows ports inPort table pipe = .goes other after) :
    table < other ∧ ∃ flow ∈ flows, (flow.tableId : Int) = table := by
  unfold tableTurn at goes
  split at goes
  · cases goes
  · cases goes
  · rename_i flow isTaken
    obtain ⟨member, isTable, -⟩ := select_sound.1 flow isTaken
    dsimp only at goes
    split at goes
    · cases goes
    · split at goes
      · cases goes
      · exact ⟨(goTo_goes goes).1, flow, member, isTable⟩

theorem tables_room {room : Nat}
    (fits : (flows.filter (fun f => table ≤ (f.tableId : Int))).length < room) :
    tables flows ports inPort room table pipe ≠ .error .outOfRoom := by
  induction room generalizing table pipe with
  | zero => omega
  | succ room ih =>
    intro isOut
    rw [tables] at isOut
    split at isOut
    · cases isOut
    · cases isOut
    · rename_i other after goes
      obtain ⟨isLater, flow, member, isTable⟩ := tableTurn_goes goes
      refine ih ?_ isOut
      have fewer : (flows.filter (fun f => other ≤ (f.tableId : Int))).length <
          (flows.filter (fun f => table ≤ (f.tableId : Int))).length := by
        have isSub : (flows.filter (fun f => other ≤ (f.tableId : Int))).Sublist
            (flows.filter (fun f => table ≤ (f.tableId : Int))) := by
          apply monotone_filter_right
          intro f isAfter
          exact decide_eq_true (isLater.le.trans (of_decide_eq_true isAfter))
        refine lt_of_le_of_ne isSub.length_le (fun same => ?_)
        have isHere : flow ∈ flows.filter (fun f => table ≤ (f.tableId : Int)) :=
          mem_filter.mpr ⟨member, decide_eq_true isTable.ge⟩
        rw [← isSub.eq_of_length same] at isHere
        have isAfter := of_decide_eq_true (mem_filter.mp isHere).2
        omega
      omega
    · cases isOut

theorem throughSwitch_room {packet : Pkt} :
    throughSwitch flows ports inPort packet ≠ .error .outOfRoom :=
  tables_room (Nat.lt_succ_of_le (length_filter_le _ _))

/-! ### What keeps over a switch's tables -/

def Sets (flow : Flow) (field : Field) (value : Value) : Prop :=
  .apply (.setField field value) ∈ flow.actions ∨
    ∃ written, .writeActions written ∈ flow.actions ∧ .setField field value ∈ written

/-- What each step of a flow's actions keeps. -/
structure Keeps (flows : List Flow) (Holds : Pipeline → Prop) : Prop where
  take : ∀ pipe flow, Holds pipe → Holds (pipe.take flow)
  emit : ∀ pipe flow got, Holds pipe → Holds (pipe.emit flow got)
  note : ∀ pipe notes, Holds pipe → Holds { pipe with notes := notes }
  set : ∀ pipe, ∀ flow ∈ flows, ∀ field value, Sets flow field value → Holds pipe →
    Holds { pipe with packet := pipe.packet.insert field (canonicalValue field value) }
  write : ∀ pipe, ∀ flow ∈ flows, Holds pipe → Holds (pipe.write flow (instructionsOf flow.actions))
  metadata : ∀ pipe number, Holds pipe →
    Holds { pipe with packet := pipe.packet.insert .metadata (.int number) }

def Turn.Holds (Holds : Pipeline → Prop) : Turn → Prop
  | .ends pipe _ | .finish pipe | .goes _ pipe => Holds pipe
  | .raises => True

omit [Unicode] [Readers] in
theorem instructions_read (actions : List Action) (got : Instructions) :
    (∀ action ∈ (actions.foldl Instructions.read got).apply,
      action ∈ got.apply ∨ .apply action ∈ actions) ∧
    (∀ written, (actions.foldl Instructions.read got).write = some written →
      got.write = some written ∨ .writeActions written ∈ actions) ∧
    ∀ both, (actions.foldl Instructions.read got).metadata = some both → got.metadata = some both ∨
      ∃ metadata mask, .writeMetadata metadata mask ∈ actions ∧
        both = (orZero metadata, orZero mask) := by
  induction actions generalizing got with
  | nil =>
    exact ⟨fun action member => .inl member, fun written isWritten => .inl isWritten,
      fun both isBoth => .inl isBoth⟩
  | cons first rest ih =>
    obtain ⟨applies, writes, metadatas⟩ := ih (got.read first)
    rw [foldl_cons]
    refine ⟨fun action member => ?_, fun written isWritten => ?_, fun both isBoth => ?_⟩
    · rcases applies action member with isOld | isLater
      · cases first with
        | apply own =>
          rcases mem_append.mp isOld with isOld | isOwn
          · exact .inl isOld
          · rw [mem_singleton.mp isOwn]
            exact .inr (.head _)
        | _ => exact .inl isOld
      · exact .inr (.tail _ isLater)
    · rcases writes written isWritten with isOld | isLater
      · cases first with
        | writeActions own =>
          rw [← Option.some.inj isOld]
          exact .inr (.head _)
        | _ => exact .inl isOld
      · exact .inr (.tail _ isLater)
    · rcases metadatas both isBoth with isOld | ⟨metadata, mask, isLater, isBoth⟩
      · cases first with
        | writeMetadata metadata mask =>
          exact .inr ⟨metadata, mask, .head _, (Option.some.inj isOld).symm⟩
        | _ => exact .inl isOld
      · exact .inr ⟨metadata, mask, .tail _ isLater, isBoth⟩

omit [Unicode] [Readers] in
theorem mem_apply {actions : List Action} {action : Applied}
    (member : action ∈ (instructionsOf actions).apply) : .apply action ∈ actions := by
  rcases (instructions_read actions ⟨[], none, false, none, none⟩).1 action member with old | own
  · cases old
  · exact own

theorem setField_eq {packet after : Pkt} {field : Field} {value : Value}
    (isSet : setField packet field value = some after) :
    after = packet.insert field (canonicalValue field value) := by
  unfold setField at isSet
  split at isSet
  · cases isSet
  · exact (Option.some.inj isSet).symm

variable {Holds : Pipeline → Prop}

theorem Keeps.applyOne (keeps : Keeps flows Holds) {flow : Flow} (member : flow ∈ flows)
    {action : Applied} (isOwn : .apply action ∈ flow.actions) (holds : Holds pipe) :
    Holds (Trace.applyOne ports inPort flow pipe action).1 := by
  unfold Trace.applyOne
  split
  · split
    · exact keeps.emit pipe flow _ holds
    · exact holds
  · split
    · rename_i isSet
      rw [setField_eq isSet]
      exact keeps.set pipe flow member _ _ (.inl isOwn) holds
    · exact holds
  · split
    · exact keeps.note pipe _ holds
    · exact holds

theorem Keeps.applyAll (keeps : Keeps flows Holds) {flow : Flow} (member : flow ∈ flows)
    {actions : List Applied} (areOwn : ∀ action ∈ actions, .apply action ∈ flow.actions)
    (holds : Holds pipe) : Holds (Trace.applyAll ports inPort flow pipe actions).1 := by
  induction actions generalizing pipe with
  | nil => exact holds
  | cons action rest ih =>
    have one : Holds (Trace.applyOne ports inPort flow pipe action).1 :=
      keeps.applyOne member (areOwn action (.head _)) holds
    rw [Trace.applyAll]
    split
    · rename_i after isOne
      rw [isOne] at one
      exact ih (fun other isLater => areOwn other (.tail _ isLater)) one
    · rename_i after why isOne
      rw [isOne] at one
      exact one

theorem Keeps.tableTurn (keeps : Keeps flows Holds) (holds : Holds pipe) :
    (Trace.tableTurn flows ports inPort table pipe).Holds Holds := by
  unfold Trace.tableTurn
  split
  · exact holds
  · exact holds
  · rename_i flow isTaken
    have member := (select_sound.1 flow isTaken).1
    have applied : Holds (Trace.applyAll ports inPort flow (pipe.take flow)
        (instructionsOf flow.actions).apply).1 :=
      keeps.applyAll member (fun action isApplied => mem_apply isApplied)
        (keeps.take pipe flow holds)
    dsimp only
    split
    · rename_i isAll
      rw [isAll] at applied
      exact applied
    · rename_i after isAll
      rw [isAll] at applied
      have wrote := keeps.write after flow member applied
      split
      · trivial
      · rename_i written isWritten
        have holdsWritten : Holds written := by
          unfold Pipeline.writeMetadata at isWritten
          split at isWritten
          · rw [← Option.some.inj isWritten]
            exact wrote
          · obtain ⟨held, -, isWritten⟩ := Option.bind_eq_some_iff.mp isWritten
            obtain ⟨value, -, isWritten⟩ := Option.bind_eq_some_iff.mp isWritten
            obtain ⟨mask, -, isWritten⟩ := Option.bind_eq_some_iff.mp isWritten
            rw [← Option.some.inj isWritten]
            exact keeps.metadata _ _ wrote
        unfold goTo
        split
        · exact holdsWritten
        · split
          · exact holdsWritten
          · split <;> exact holdsWritten

/-! ### Where a packet's values come from -/

omit [Unicode] [Readers] in
theorem lookup_sent {packet : Pkt} {field : Field} :
    (sent packet).lookup field =
      if field = .inPort ∨ field = .inPhyPort ∨ field = .metadata then none
      else packet.lookup field := by
  unfold sent
  by_cases isMetadata : field = .metadata
  · rw [isMetadata, Finmap.lookup_erase, if_pos (.inr (.inr rfl))]
  · rw [Finmap.lookup_erase_ne isMetadata]
    by_cases isPhyPort : field = .inPhyPort
    · rw [isPhyPort, Finmap.lookup_erase, if_pos (.inr (.inl rfl))]
    · rw [Finmap.lookup_erase_ne isPhyPort]
      by_cases isPort : field = .inPort
      · rw [isPort, Finmap.lookup_erase, if_pos (.inl rfl)]
      · rw [Finmap.lookup_erase_ne isPort, if_neg]
        rintro (same | same | same)
        · exact isPort same
        · exact isPhyPort same
        · exact isMetadata same

omit [Unicode] [Readers] in
theorem lookup_sent_insert {packet : Pkt} {field other : Field} {value held : Value}
    (isHeld : (sent (packet.insert field value)).lookup other = some held) :
    (sent packet).lookup other = some held ∨
      (other = field ∧ held = value ∧
        ¬ (other = .inPort ∨ other = .inPhyPort ∨ other = .metadata)) := by
  rw [lookup_sent] at isHeld ⊢
  split at isHeld
  · cases isHeld
  · rename_i isHeader
    rw [if_neg isHeader]
    by_cases same : other = field
    · rw [same, Finmap.lookup_insert] at isHeld
      exact .inr ⟨same, (Option.some.inj isHeld).symm, isHeader⟩
    · rw [Finmap.lookup_insert_of_ne _ same] at isHeld
      exact .inl isHeld

def Pkt.From (entries : Field → Value → Prop) (packet : Pkt) : Prop :=
  ∀ field value, packet.lookup field = some value → entries field value

structure Pipeline.From (entries : Field → Value → Prop) (pipe : Pipeline) : Prop where
  packet : Pkt.From entries (sent pipe.packet)
  emits : ∀ emit ∈ pipe.emits, Pkt.From entries emit.packet
  actionSet : ∀ entry ∈ pipe.actionSet, ∀ field value, entry.2.1 = .setField field value →
    entries field (canonicalValue field value)

variable {entries : Field → Value → Prop}

theorem Pipeline.From.set (from_ : pipe.From entries) {field : Field} {value : Value}
    (isEntry : entries field value) :
    Pipeline.From entries { pipe with packet := pipe.packet.insert field value } where
  packet := by
    intro other held isHeld
    rcases lookup_sent_insert isHeld with old | ⟨isField, isValue, -⟩
    · exact from_.packet other held old
    · rw [isField, isValue]
      exact isEntry
  emits := from_.emits
  actionSet := from_.actionSet

theorem Pipeline.From.emit (from_ : pipe.From entries) (flow : Flow)
    (got : List (Value × Bool)) : (pipe.emit flow got).From entries where
  packet := from_.packet
  emits := by
    intro emit member
    rcases mem_append.mp member with old | new
    · exact from_.emits emit old
    · obtain ⟨out, -, rfl⟩ := mem_map.mp new
      exact from_.packet
  actionSet := from_.actionSet

omit [Unicode] [Readers] in
theorem mem_write {flow : Flow} {entry : SetKey × Applied × Flow}
    (member : entry ∈ (pipe.write flow (instructionsOf flow.actions)).actionSet) :
    entry ∈ pipe.actionSet ∨
      ∃ written, .writeActions written ∈ flow.actions ∧ entry.2.1 ∈ written := by
  unfold Pipeline.write at member
  have isPut : ∀ (actions : List Applied) (set : List (SetKey × Applied × Flow)),
      entry ∈ actions.foldl
        (fun set action => Log.put Prod.fst (SetKey.of action, action, flow) set) set →
      entry ∈ set ∨ entry.2.1 ∈ actions := by
    intro actions
    induction actions with
    | nil => exact fun set isIn => .inl isIn
    | cons action rest ih =>
      intro set isIn
      rcases ih _ isIn with before | isLater
      · rcases Log.mem_put before with old | new
        · exact .inl old
        · rw [new]
          exact .inr (.head _)
      · exact .inr (.tail _ isLater)
  rcases isPut _ _ member with isOld | isNew
  · split at isOld
    · cases isOld
    · exact .inl isOld
  · cases isWrite : (instructionsOf flow.actions).write with
    | none =>
      rw [isWrite] at isNew
      cases isNew
    | some written =>
      rw [isWrite] at isNew
      rcases (instructions_read flow.actions ⟨[], none, false, none, none⟩).2.1 written isWrite
        with isOld | isOwn
      · cases isOld
      · exact .inr ⟨written, isOwn, isNew⟩

theorem keeps_from (sets : ∀ flow ∈ flows, ∀ field value, Sets flow field value →
    entries field (canonicalValue field value)) : Keeps flows (Pipeline.From entries) where
  take := fun _ _ from_ => ⟨from_.packet, from_.emits, from_.actionSet⟩
  emit := fun _ flow got from_ => from_.emit flow got
  note := fun _ _ from_ => ⟨from_.packet, from_.emits, from_.actionSet⟩
  set := fun _ flow member field value isSet from_ =>
    from_.set (sets flow member field value isSet)
  write := by
    intro pipe flow member from_
    refine ⟨from_.packet, from_.emits, fun entry isEntry field value isSet => ?_⟩
    rcases mem_write isEntry with old | ⟨written, isWritten, isIn⟩
    · exact from_.actionSet entry old field value isSet
    · rw [isSet] at isIn
      exact sets flow member field value (.inr ⟨written, isWritten, isIn⟩)
  metadata := by
    intro pipe number from_
    refine ⟨fun field value isValue => ?_, from_.emits, from_.actionSet⟩
    rcases lookup_sent_insert isValue with old | ⟨isMetadata, -, isHeader⟩
    · exact from_.packet field value old
    · exact absurd (.inr (.inr isMetadata)) isHeader

theorem from_setFields {rest : List (SetKey × Applied × Flow)} (isSub : rest ⊆ pipe.actionSet)
    (from_ : pipe.From entries) : (setFields pipe rest).1.From entries := by
  induction rest generalizing pipe with
  | nil => exact from_
  | cons entry rest ih =>
    have isRest : rest ⊆ pipe.actionSet :=
      fun other member => isSub (mem_cons_of_mem entry member)
    obtain ⟨key, action, flow⟩ := entry
    cases action with
    | setField field value =>
      rw [setFields]
      split
      · rename_i isSet
        rw [setField_eq isSet]
        have isEntry := from_.actionSet _ (isSub (.head _)) field value rfl
        exact ih isRest (from_.set isEntry)
      · exact from_
    | _ => exact ih isRest from_

theorem from_finish (from_ : pipe.From entries) :
    ∀ emit ∈ (finish ports inPort pipe).emits, Pkt.From entries emit.packet := by
  unfold finish
  split
  · exact from_.emits
  · have isSet := from_setFields (List.Subset.refl pipe.actionSet) from_
    split
    · rename_i after why isDone
      rw [isDone] at isSet
      exact isSet.emits
    · rename_i after isDone
      rw [isDone] at isSet
      have isOut : (putOut ports inPort after).1.From entries := by
        unfold putOut
        split
        · split
          · exact isSet.emit _ _
          · exact isSet
        · exact isSet
      split
      · rename_i last why isLast
        rw [isLast] at isOut
        exact isOut.emits
      · rename_i last isLast
        rw [isLast] at isOut
        split <;> exact isOut.emits

theorem from_tables {room : Nat} {got : Through}
    (sets : ∀ flow ∈ flows, ∀ field value, Sets flow field value →
      entries field (canonicalValue field value))
    (from_ : pipe.From entries) (isThrough : tables flows ports inPort room table pipe = .ok got) :
    ∀ emit ∈ got.emits, Pkt.From entries emit.packet := by
  induction room generalizing table pipe with
  | zero => cases isThrough
  | succ room ih =>
    have turned : (tableTurn flows ports inPort table pipe).Holds (Pipeline.From entries) :=
      (keeps_from sets).tableTurn from_
    rw [tables] at isThrough
    split at isThrough
    · rename_i after why isTurn
      rw [isTurn] at turned
      cases isThrough
      exact turned.emits
    · rename_i after isTurn
      rw [isTurn] at turned
      cases isThrough
      exact from_finish turned
    · rename_i other after isTurn
      rw [isTurn] at turned
      exact ih turned isThrough
    · cases isThrough

theorem throughSwitch_from {packet : Pkt} {got : Through} (own : Pkt.From entries packet)
    (sets : ∀ flow ∈ flows, ∀ field value, Sets flow field value →
      entries field (canonicalValue field value))
    (isThrough : throughSwitch flows ports inPort packet = .ok got) :
    ∀ emit ∈ got.emits, Pkt.From entries emit.packet := by
  refine from_tables sets ⟨?_, fun entry member => absurd member not_mem_nil,
    fun entry member => absurd member not_mem_nil⟩ isThrough
  intro field value isValue
  unfold Pipeline.arrive at isValue
  rcases lookup_sent_insert isValue with isValue | ⟨isMetadata, -, isHeader⟩
  · rcases lookup_sent_insert isValue with isValue | ⟨isPhyPort, -, isHeader⟩
    · rcases lookup_sent_insert isValue with isValue | ⟨isPort, -, isHeader⟩
      · rw [lookup_sent] at isValue
        split at isValue
        · cases isValue
        · exact own field value isValue
      · exact absurd (.inl isPort) isHeader
    · exact absurd (.inr (.inl isPhyPort)) isHeader
  · exact absurd (.inr (.inr isMetadata)) isHeader

/-! ### Metadata -/

structure Numeric (flow : Flow) : Prop where
  writes : ∀ metadata mask, .writeMetadata metadata mask ∈ flow.actions →
    (asNumber (orZero metadata)).isSome ∧ (asNumber (orZero mask)).isSome
  sets : ∀ value, Sets flow .metadata value → (asNumber (canonicalValue .metadata value)).isSome

def Pipeline.Numeric (pipe : Pipeline) : Prop :=
  ((pipe.packet.lookup .metadata).bind asNumber).isSome

theorem keeps_numeric (numeric : ∀ flow ∈ flows, Numeric flow) : Keeps flows Pipeline.Numeric where
  take := fun _ _ holds => holds
  emit := fun _ _ _ holds => holds
  note := fun _ _ holds => holds
  set := by
    intro pipe flow member field value isSet holds
    unfold Pipeline.Numeric
    by_cases isMetadata : field = .metadata
    · rw [isMetadata] at isSet ⊢
      rw [Finmap.lookup_insert, Option.bind_some]
      exact (numeric flow member).sets value isSet
    · rw [Finmap.lookup_insert_of_ne _ (Ne.symm isMetadata)]
      exact holds
  write := fun _ _ _ holds => holds
  metadata := by
    intro pipe number _
    unfold Pipeline.Numeric
    rw [Finmap.lookup_insert]
    rfl

theorem writeMetadata_isSome {flow : Flow} (numeric : Numeric flow) (holds : pipe.Numeric) :
    (pipe.writeMetadata (instructionsOf flow.actions)).isSome := by
  unfold Pipeline.writeMetadata
  split
  · rfl
  · rename_i value mask isBoth
    rcases (instructions_read flow.actions ⟨[], none, false, none, none⟩).2.2 _ isBoth
      with isOld | ⟨metadata, written, isOwn, isPair⟩
    · cases isOld
    · obtain ⟨isValue, isMask⟩ := numeric.writes metadata written isOwn
      cases isPair
      obtain ⟨held, isHeld⟩ := Option.isSome_iff_exists.mp holds
      obtain ⟨value, isValue⟩ := Option.isSome_iff_exists.mp isValue
      obtain ⟨mask, isMask⟩ := Option.isSome_iff_exists.mp isMask
      rw [isHeld, isValue, isMask]
      rfl

theorem tableTurn_numeric (numeric : ∀ flow ∈ flows, Numeric flow) (holds : pipe.Numeric) :
    tableTurn flows ports inPort table pipe ≠ .raises := by
  intro raises
  unfold tableTurn at raises
  split at raises
  · cases raises
  · cases raises
  · rename_i flow isTaken
    have member := (select_sound.1 flow isTaken).1
    have keeps := keeps_numeric numeric
    have applied : (applyAll ports inPort flow (pipe.take flow)
        (instructionsOf flow.actions).apply).1.Numeric :=
      keeps.applyAll member (fun action isApplied => mem_apply isApplied)
        (keeps.take pipe flow holds)
    dsimp only at raises
    split at raises
    · cases raises
    · rename_i after isAll
      rw [isAll] at applied
      have isSome := writeMetadata_isSome (numeric flow member)
        (keeps.write after flow member applied)
      split at raises
      · rename_i isNone
        rw [isNone] at isSome
        cases isSome
      · unfold goTo at raises
        split at raises
        · cases raises
        · split at raises
          · cases raises
          · split at raises <;> cases raises

theorem throughSwitch_numeric (numeric : ∀ flow ∈ flows, Numeric flow) {packet : Pkt} :
    throughSwitch flows ports inPort packet ≠ .error .typeError := by
  have every : ∀ room table pipe, Pipeline.Numeric pipe →
      tables flows ports inPort room table pipe ≠ .error .typeError := by
    intro room
    induction room with
    | zero => exact fun table pipe _ raises => by cases raises
    | succ room ih =>
      intro table pipe holds raises
      have turned : (tableTurn flows ports inPort table pipe).Holds Pipeline.Numeric :=
        (keeps_numeric numeric).tableTurn holds
      rw [tables] at raises
      split at raises
      · cases raises
      · cases raises
      · rename_i other after isTurn
        rw [isTurn] at turned
        exact ih other after turned raises
      · rename_i isTurn
        exact tableTurn_numeric numeric holds isTurn
  apply every
  unfold Pipeline.Numeric Pipeline.arrive
  rw [Finmap.lookup_insert]
  rfl

end Through

end Nmas.Sdn.Trace
