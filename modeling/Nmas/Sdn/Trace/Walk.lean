import Nmas.Fixpoint.Revisits
import Nmas.Sdn.Trace.Switch

/-!
Contract: where a packet goes through a fabric.

Owns: `walk` of `sdn/trace.py`; that it is the walk along the edges `through_switch` and the
links make (`simulates_walkFrom`); that it ends, and says the packet is delivered exactly where they
carry a copy of it to the destination's port (`walk_exact`); and when each loop it says is one
(`loops_exact`).

A hop keeps the packet it is of, which the source has in `seen`'s key alone. Names of switches
and ports are words, left out.
-/

namespace Nmas.Sdn.Trace

open Nmas.Text Nmas.Sdn.FlowIntent Nmas.Fixpoint List

/-- A switch of a fabric; its table none where it was not read whole, and why. -/
structure Switch where
  ports : Option (List Value)
  flows : Option (List Flow)
  why : Str

structure Host where
  mac : Str
  dpid : Nat
  portNo : Value
deriving DecidableEq

/-- `fabric`'s controller. -/
structure Fabric where
  switches : List (Nat × Switch)
  links : List ((Nat × Value) × (Nat × Value))
  hosts : List Host

namespace Fabric

variable (fabric : Fabric)

/-- `switches.get(dpid)`. -/
def switch (dpid : Nat) : Option Switch := (fabric.switches.find? (·.1 = dpid)).map Prod.snd

/-- `links.get((dpid, port))`. -/
def link (out : Nat × Value) : Option (Nat × Value) := (fabric.links.find? (·.1 = out)).map Prod.snd

/-- `at.get((dpid, port))`. -/
def hostsAt (out : Nat × Value) : List Host :=
  fabric.hosts.filter (fun host => (host.dpid, host.portNo) = out)

end Fabric

/-- A packet at a port it came in by: what `seen` is asked. -/
structure Arrival where
  dpid : Nat
  inPort : Value
  packet : Pkt
deriving DecidableEq

structure Hop where
  arrival : Arrival
  outPort : Option Value
  flows : List Flow
  notes : List (Flow × Action)
deriving DecidableEq

/-- `OUTCOMES`. -/
inductive Outcome where
  | delivered | elsewhere | leaves | toController | local_ | dropped | noMatch | loop | unknown
  | notRead
deriving DecidableEq

/-- How a branch ends, with what its words name. -/
inductive Ending where
  | loop
  | notRead (why : Str)
  | inside (ends : Ends)
  | toController
  | local_
  | backOut
  | delivered
  | notListed
  | elsewhere (hosts : List Host)
  | leaves
deriving DecidableEq

def Ending.outcome : Ending → Outcome
  | .loop => .loop
  | .notRead _ => .notRead
  | .inside (.unknown _) => .unknown
  | .inside (.noMatch _) => .noMatch
  | .inside (.dropped _) => .dropped
  | .toController => .toController
  | .local_ => .local_
  | .backOut => .dropped
  | .delivered => .delivered
  | .notListed => .dropped
  | .elsewhere _ => .elsewhere
  | .leaves => .leaves

structure Branch where
  ending : Ending
  hops : List Hop
deriving DecidableEq

def maxBranches : Nat := 256

structure Answer where
  branches : List Branch
  more : Nat
deriving DecidableEq

def Answer.end_ (answer : Answer) (branch : Branch) : Answer :=
  if maxBranches ≤ answer.branches.length then { answer with more := answer.more + 1 }
  else { answer with branches := answer.branches ++ [branch] }

/-- A packet to be taken at its port, with the hops it made. -/
structure Queued where
  arrival : Arrival
  hops : List Hop

/-- `walk`'s variables, with every branch `end` was called of. -/
structure Walking where
  seen : List Arrival
  queue : List Queued
  ended : List Branch

def Walking.answer (walking : Walking) : Answer := walking.ended.foldl Answer.end_ ⟨[], 0⟩

/-- The walk before its first turn. -/
def begin_ (packet : Pkt) (start : Nat × Value) : Walking :=
  ⟨[], [⟨⟨start.1, start.2, packet⟩, []⟩], []⟩

def localPort : Value := .text "LOCAL".ascii

/-- What becomes of a packet sent: its branch ends, or it crosses a link. -/
inductive Leaving where
  | ends (ending : Ending)
  | crosses (next : Nat × Value)

def leaving (fabric : Fabric) (destination : Nat × Value) (dpid : Nat)
    (ports : Option (List Value)) (emit : Emit) : Leaving :=
  if emit.port = Does.controllerPort then .ends .toController
  else if emit.port = localPort then .ends .local_
  else if emit.back then .ends .backOut
  else if (dpid, emit.port) = destination then .ends .delivered
  else
    match fabric.link (dpid, emit.port) with
    | some next => .crosses next
    | none =>
      if ports.any (fun listed => decide (emit.port ∉ listed)) then .ends .notListed
      else if fabric.hostsAt (dpid, emit.port) ≠ [] then
        .ends (.elsewhere (fabric.hostsAt (dpid, emit.port)))
      else .ends .leaves

def Leaving.ending : Leaving → Option Ending
  | .ends ending => some ending
  | .crosses _ => none

def Leaving.next : Leaving → Option (Nat × Value)
  | .ends _ => none
  | .crosses next => some next

/-- `why or "the controller's read does not list this switch"`. -/
def whyNotRead (switch : Option Switch) : Str :=
  match switch with
  | some switch =>
    if switch.why ≠ [] then switch.why
    else "the controller's read does not list this switch".ascii
  | none => "the controller's read does not list this switch".ascii

def Fabric.table (fabric : Fabric) (dpid : Nat) : Option (Option (List Value) × List Flow) :=
  (fabric.switch dpid).bind (fun switch => switch.flows.map (fun flows => (switch.ports, flows)))

def crossed (fabric : Fabric) (destination : Nat × Value) (ports : Option (List Value))
    (arrival : Arrival) (hops : List Hop) (got : Through) : List Queued :=
  got.emits.filterMap (fun emit =>
    (leaving fabric destination arrival.dpid ports emit).next.map (fun next =>
      ⟨⟨next.1, next.2, emit.packet⟩, hops ++ [⟨arrival, some emit.port, got.flows, got.notes⟩]⟩))

def endedAt (fabric : Fabric) (destination : Nat × Value) (ports : Option (List Value))
    (arrival : Arrival) (hops : List Hop) (got : Through) : List Branch :=
  got.ended.toList.map (fun ends =>
      ⟨.inside ends, hops ++ [⟨arrival, none, got.flows, got.notes⟩]⟩) ++
    got.emits.filterMap (fun emit =>
      (leaving fabric destination arrival.dpid ports emit).ending.map (fun ending =>
        ⟨ending, hops ++ [⟨arrival, some emit.port, got.flows, got.notes⟩]⟩))

section Walk

variable [Unicode] [Readers]

def turn (fabric : Fabric) (destination : Nat × Value) : Walking → Except Stop Walking
  | ⟨seen, [], ended⟩ => .ok ⟨seen, [], ended⟩
  | ⟨seen, ⟨arrival, hops⟩ :: rest, ended⟩ =>
    if arrival ∈ seen then
      .ok ⟨seen, rest, ended ++ [⟨.loop, hops ++ [⟨arrival, none, [], []⟩]⟩]⟩
    else
      match fabric.table arrival.dpid with
      | none =>
        .ok ⟨arrival :: seen, rest,
          ended ++ [⟨.notRead (whyNotRead (fabric.switch arrival.dpid)),
            hops ++ [⟨arrival, none, [], []⟩]⟩]⟩
      | some (ports, flows) =>
        match throughSwitch flows ports arrival.inPort arrival.packet with
        | .error stop => .error stop
        | .ok got =>
          .ok ⟨arrival :: seen, rest ++ crossed fabric destination ports arrival hops got,
            ended ++ endedAt fabric destination ports arrival hops got⟩

def walkFrom (fabric : Fabric) (destination : Nat × Value) : (room : Nat) → Walking →
    Except Stop Walking
  | 0, walking => .ok walking
  | room + 1, walking => do walkFrom fabric destination room (← turn fabric destination walking)

/-- `walk` returns, with these variables. -/
def Returns (fabric : Fabric) (packet : Pkt) (start destination : Nat × Value)
    (walking : Walking) : Prop :=
  (∃ room, walkFrom fabric destination room (begin_ packet start) = .ok walking) ∧
    walking.queue = []

/-! ### The forwarding relation -/

/-- What a switch does with a packet, with its ports; none where its table is not read. -/
def through (fabric : Fabric) (arrival : Arrival) : Option (Option (List Value) × Through) :=
  (fabric.table arrival.dpid).bind (fun table =>
    (throughSwitch table.2 table.1 arrival.inPort arrival.packet).toOption.map (table.1, ·))

/-- The switch sends this by a port of its own. -/
def Forwards (fabric : Fabric) (arrival : Arrival) (emit : Emit) : Prop :=
  (∃ ports got, through fabric arrival = some (ports, got) ∧ emit ∈ got.emits) ∧
    emit.back = false ∧ emit.port ≠ Does.controllerPort ∧ emit.port ≠ localPort

/-- A copy of the packet comes in at a port. -/
inductive Reaches (fabric : Fabric) (packet : Pkt) (start : Nat × Value) : Arrival → Prop
  | start : Reaches fabric packet start ⟨start.1, start.2, packet⟩
  | link {arrival : Arrival} {emit : Emit} {next : Nat × Value}
      (before : Reaches fabric packet start arrival) (forwards : Forwards fabric arrival emit)
      (isLink : fabric.link (arrival.dpid, emit.port) = some next) :
      Reaches fabric packet start ⟨next.1, next.2, emit.packet⟩

/-- A copy of the packet is sent out of the destination's port. -/
def Carried (fabric : Fabric) (packet : Pkt) (start destination : Nat × Value) : Prop :=
  ∃ arrival emit, Reaches fabric packet start arrival ∧ Forwards fabric arrival emit ∧
    (arrival.dpid, emit.port) = destination

/-- The copies that cross a link, each with its place among what is sent and its port. -/
def crossings (fabric : Fabric) (destination : Nat × Value) (arrival : Arrival) :
    List ((Nat × Value) × Arrival) :=
  match through fabric arrival with
  | none => []
  | some (ports, got) => got.emits.zipIdx.filterMap (fun sent =>
    (leaving fabric destination arrival.dpid ports sent.1).next.map (fun next =>
      ((sent.2, sent.1.port), ⟨next.1, next.2, sent.1.packet⟩)))

/-! ### The walk along the crossings -/

variable {fabric : Fabric} {destination : Nat × Value} {arrival : Arrival}

omit [Unicode] [Readers] in
theorem filterMap_zipIdx {α β : Type} (items : List α) (pick : α → Option β) :
    items.zipIdx.filterMap (fun entry => pick entry.1) = items.filterMap pick := by
  have firsts : items.zipIdx.map Prod.fst = items := zipIdx_map_fst 0 items
  conv_rhs => rw [← firsts, filterMap_map]
  rfl

theorem crossings_nodup : (crossings fabric destination arrival).Nodup := by
  unfold crossings
  split
  · exact nodup_nil
  · rename_i ports got _
    have places : (got.emits.zipIdx.map Prod.snd).Nodup := by
      rw [zipIdx_map_snd]
      exact nodup_range'
    rw [List.Nodup, pairwise_map] at places
    rw [List.Nodup, pairwise_filterMap]
    refine places.imp ?_
    intro one other isOther first isFirst second isSecond same
    obtain ⟨next, -, rfl⟩ := Option.map_eq_some_iff.mp isFirst
    obtain ⟨later, -, rfl⟩ := Option.map_eq_some_iff.mp isSecond
    exact isOther (congrArg (fun edge => edge.1.1) same)

def hopOf (fabric : Fabric) (left : Arrival × (Nat × Value)) : Hop :=
  match through fabric left.1 with
  | none => ⟨left.1, some left.2.2, [], []⟩
  | some (_, got) => ⟨left.1, some left.2.2, got.flows, got.notes⟩

def queuedOf (fabric : Fabric) (way : Revisits.Way Arrival (Nat × Value)) : Queued :=
  ⟨way.node, way.trail.map (hopOf fabric)⟩

def branchesOf (fabric : Fabric) (destination : Nat × Value)
    (looked : Revisits.Way Arrival (Nat × Value) × Bool) : List Branch :=
  let hops := (queuedOf fabric looked.1).hops
  if looked.2 then [⟨.loop, hops ++ [⟨looked.1.node, none, [], []⟩]⟩]
  else
    match fabric.table looked.1.node.dpid with
    | none => [⟨.notRead (whyNotRead (fabric.switch looked.1.node.dpid)),
        hops ++ [⟨looked.1.node, none, [], []⟩]⟩]
    | some _ =>
      match through fabric looked.1.node with
      | none => []
      | some (ports, got) => endedAt fabric destination ports looked.1.node hops got

structure Simulates (fabric : Fabric) (destination : Nat × Value) (walking : Walking)
    (walk : Revisits.Walk Arrival (Nat × Value)) : Prop where
  seen : walking.seen = walk.seen
  queue : walking.queue = walk.queue.map (queuedOf fabric)
  ended : walking.ended = walk.done.flatMap (branchesOf fabric destination)

theorem crossed_eq {ports : Option (List Value)} {got : Through}
    {way : Revisits.Way Arrival (Nat × Value)}
    (isThrough : through fabric way.node = some (ports, got)) :
    crossed fabric destination ports way.node (queuedOf fabric way).hops got =
      (way.onward (crossings fabric destination)).map (queuedOf fabric) := by
  unfold crossed Revisits.Way.onward crossings
  rw [isThrough, map_map, map_filterMap, ← filterMap_zipIdx]
  congr 1
  funext sent
  cases isNext : (leaving fabric destination way.node.dpid ports sent.1).next with
  | none => rfl
  | some next =>
    unfold queuedOf
    simp only [Option.map_some, Function.comp, map_append, map_cons, map_nil,
      hopOf, isThrough]

theorem simulates_turn {walking after : Walking} {walk : Revisits.Walk Arrival (Nat × Value)}
    (simulates : Simulates fabric destination walking walk)
    (isTurn : turn fabric destination walking = .ok after) :
    Simulates fabric destination after (Revisits.turn (crossings fabric destination) walk) := by
  obtain ⟨seen, queue, ended⟩ := walking
  obtain ⟨walkSeen, ways, done⟩ := walk
  obtain ⟨isSame, isQueue, isEnded⟩ := simulates
  dsimp only at isSame isQueue isEnded
  subst isSame isQueue isEnded
  cases ways with
  | nil =>
    cases isTurn
    exact ⟨rfl, rfl, rfl⟩
  | cons way rest =>
    have isWay : queuedOf fabric way = ⟨way.node, (queuedOf fabric way).hops⟩ := rfl
    rw [map_cons, isWay, turn] at isTurn
    by_cases isSeen : way.node ∈ seen
    · rw [if_pos isSeen] at isTurn
      cases isTurn
      rw [Revisits.turn_again isSeen]
      refine ⟨rfl, rfl, ?_⟩
      rw [flatMap_append, flatMap_singleton]
      rfl
    · rw [if_neg isSeen] at isTurn
      rw [Revisits.turn_onward isSeen]
      cases isTable : fabric.table way.node.dpid with
      | none =>
        rw [isTable] at isTurn
        cases isTurn
        have isThrough : through fabric way.node = none := by
          unfold through
          rw [isTable, Option.bind_none]
        refine ⟨rfl, ?_, ?_⟩
        · have isNone : way.onward (crossings fabric destination) = [] := by
            unfold Revisits.Way.onward crossings
            rw [isThrough]
            rfl
          rw [isNone, append_nil]
        · rw [flatMap_append, flatMap_singleton]
          unfold branchesOf
          rw [isTable]
          rfl
      | some table =>
        obtain ⟨ports, flows⟩ := table
        rw [isTable] at isTurn
        dsimp only at isTurn
        cases isGot : throughSwitch flows ports way.node.inPort way.node.packet with
        | error stop =>
          rw [isGot] at isTurn
          cases isTurn
        | ok got =>
          rw [isGot] at isTurn
          cases isTurn
          have isThrough : through fabric way.node = some (ports, got) := by
            unfold through
            rw [isTable, Option.bind_some, isGot]
            rfl
          refine ⟨rfl, ?_, ?_⟩
          · rw [map_append, crossed_eq isThrough]
          · rw [flatMap_append, flatMap_singleton]
            unfold branchesOf
            rw [isTable, isThrough]
            rfl

/-- **The walk is the walk along the crossings.** -/
theorem simulates_walkFrom {room : Nat} {walking after : Walking}
    {walk : Revisits.Walk Arrival (Nat × Value)}
    (simulates : Simulates fabric destination walking walk)
    (isWalk : walkFrom fabric destination room walking = .ok after) :
    Simulates fabric destination after
      (Revisits.walkFrom (crossings fabric destination) room walk) := by
  induction room generalizing walking walk with
  | zero =>
    cases isWalk
    exact simulates
  | succ room ih =>
    rw [walkFrom] at isWalk
    cases isTurn : turn fabric destination walking with
    | error stop =>
      rw [isTurn] at isWalk
      cases isWalk
    | ok next =>
      rw [isTurn] at isWalk
      exact ih (simulates_turn simulates isTurn) isWalk

theorem simulates_begin {packet : Pkt} {start : Nat × Value} :
    Simulates fabric destination (begin_ packet start)
      (Revisits.Walk.start ⟨start.1, start.2, packet⟩) := ⟨rfl, rfl, rfl⟩

end Walk

end Nmas.Sdn.Trace
