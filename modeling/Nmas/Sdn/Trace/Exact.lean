import Mathlib.Data.Finset.Powerset
import Mathlib.Data.Finite.Prod
import Nmas.Sdn.Trace.Walk

/-!
Contract: what a walk through a fabric says is so.

Owns: that every walk ends, and says the packet is delivered exactly where the switches and the
links carry a copy of it to the destination's port (`walk_exact`); and when each branch it ends
as a loop is one (`loops_exact`).

A packet on its way has only values it started with and those some flow sets, so that there
are finitely many.
-/

namespace Nmas.Sdn.Trace

open Nmas.Text Nmas.Sdn.FlowIntent Nmas.Fixpoint List

variable {fabric : Fabric} {packet : Pkt} {start destination : Nat × Value} {walking : Walking}
  {arrival : Arrival} {emit : Emit} {ports : Option (List Value)} {dpid : Nat}

/-! ### What a branch ends as -/

theorem answer_eq (walking : Walking) :
    walking.answer = ⟨walking.ended.take maxBranches, walking.ended.length - maxBranches⟩ := by
  unfold Walking.answer
  induction walking.ended using List.reverseRecOn with
  | nil => rfl
  | append_singleton ended branch ih =>
    rw [foldl_append, ih, foldl_cons, foldl_nil,
      Answer.end_, length_append, length_singleton]
    generalize maxBranches = limit
    by_cases isFull : limit ≤ ended.length
    · have isCounted : ended.length - limit + 1 = ended.length + 1 - limit := by omega
      rw [if_pos (by rw [length_take]; exact le_min le_rfl isFull),
        take_append_of_le_length isFull, isCounted]
    · have fits : ended.length < limit := not_le.mp isFull
      have noneMore : ended.length - limit = ended.length + 1 - limit := by omega
      have isLonger : (ended ++ [branch]).length ≤ limit := by
        rw [length_append]
        exact fits
      rw [if_neg (by rw [length_take]; omega), take_of_length_le fits.le,
        take_of_length_le isLonger, noneMore]

/-- The port is one a packet is sent on by, as the walk takes it. -/
def Emit.Leaves (emit : Emit) : Prop :=
  emit.back = false ∧ emit.port ≠ Does.controllerPort ∧ emit.port ≠ localPort

theorem leaving_next {next : Nat × Value} :
    (leaving fabric destination dpid ports emit).next = some next ↔
      emit.Leaves ∧ (dpid, emit.port) ≠ destination ∧
        fabric.link (dpid, emit.port) = some next := by
  unfold leaving Emit.Leaves
  by_cases isController : emit.port = Does.controllerPort
  · simp [isController, Leaving.next]
  · by_cases isLocal : emit.port = localPort
    · rw [if_neg isController, if_pos isLocal]
      simp [isLocal, Leaving.next]
    · rw [if_neg isController, if_neg isLocal]
      cases isBack : emit.back with
      | true => simp [Leaving.next]
      | false =>
        rw [if_neg Bool.false_ne_true]
        by_cases isThere : (dpid, emit.port) = destination
        · simp [isThere, Leaving.next]
        · rw [if_neg isThere]
          cases isLink : fabric.link (dpid, emit.port) with
          | some other => simp [isController, isLocal, isThere, Leaving.next]
          | none =>
            dsimp only
            split
            · simp [Leaving.next]
            · split <;> simp [Leaving.next]

theorem leaving_ending {ending : Ending} :
    (leaving fabric destination dpid ports emit).ending = some ending →
      (ending.outcome = .delivered ↔ emit.Leaves ∧ (dpid, emit.port) = destination) ∧
        ending.outcome ≠ .loop := by
  unfold leaving Emit.Leaves
  by_cases isController : emit.port = Does.controllerPort
  · rw [if_pos isController]
    intro isEnding
    cases isEnding
    simp [isController, Ending.outcome]
  · rw [if_neg isController]
    by_cases isLocal : emit.port = localPort
    · rw [if_pos isLocal]
      intro isEnding
      cases isEnding
      simp [isLocal, Ending.outcome]
    · rw [if_neg isLocal]
      cases isBack : emit.back with
      | true =>
        intro isEnding
        cases isEnding
        simp [Ending.outcome]
      | false =>
        rw [if_neg Bool.false_ne_true]
        by_cases isThere : (dpid, emit.port) = destination
        · rw [if_pos isThere]
          intro isEnding
          cases isEnding
          simp [isController, isLocal, isThere, Ending.outcome]
        · rw [if_neg isThere]
          cases isLink : fabric.link (dpid, emit.port) with
          | some other => exact nofun
          | none =>
            dsimp only
            split
            · intro isEnding
              cases isEnding
              simp [isThere, Ending.outcome]
            · split
              · intro isEnding
                cases isEnding
                simp [isThere, Ending.outcome]
              · intro isEnding
                cases isEnding
                simp [isThere, Ending.outcome]

theorem leaving_delivered (leaves : emit.Leaves) (isThere : (dpid, emit.port) = destination) :
    (leaving fabric destination dpid ports emit).ending = some .delivered := by
  obtain ⟨isBack, isController, isLocal⟩ := leaves
  unfold leaving
  rw [if_neg isController, if_neg isLocal, isBack, if_neg Bool.false_ne_true, if_pos isThere]
  rfl

section Walk

variable [Unicode] [Readers]

/-! ### Copies and crossings -/

theorem of_mem_crossings {edge : (Nat × Value) × Arrival}
    (member : edge ∈ crossings fabric destination arrival) :
    ∃ emit next, Forwards fabric arrival emit ∧ (arrival.dpid, emit.port) ≠ destination ∧
      fabric.link (arrival.dpid, emit.port) = some next ∧
        edge.2 = ⟨next.1, next.2, emit.packet⟩ := by
  unfold crossings at member
  split at member
  · cases member
  · rename_i ports got isThrough
    obtain ⟨sent, isSent, isEdge⟩ := mem_filterMap.mp member
    obtain ⟨next, isNext, rfl⟩ := Option.map_eq_some_iff.mp isEdge
    obtain ⟨leaves, isElsewhere, isLink⟩ := leaving_next.mp isNext
    have isEmit : sent.1 ∈ got.emits := fst_mem_of_mem_zipIdx isSent
    exact ⟨sent.1, next, ⟨⟨ports, got, isThrough, isEmit⟩, leaves⟩, isElsewhere, isLink, rfl⟩

theorem mem_crossings {next : Nat × Value} (forwards : Forwards fabric arrival emit)
    (isElsewhere : (arrival.dpid, emit.port) ≠ destination)
    (isLink : fabric.link (arrival.dpid, emit.port) = some next) :
    ∃ label, (label, Arrival.mk next.1 next.2 emit.packet) ∈
      crossings fabric destination arrival := by
  obtain ⟨⟨ports, got, isThrough, isEmit⟩, leaves⟩ := forwards
  obtain ⟨place, isPlace, isHere⟩ := mem_iff_getElem.mp isEmit
  refine ⟨(place, emit.port), ?_⟩
  unfold crossings
  rw [isThrough]
  refine mem_filterMap.mpr ⟨(emit, place), ?_, ?_⟩
  · exact mk_mem_zipIdx_iff_getElem?.mpr (by rw [List.getElem?_eq_getElem isPlace, isHere])
  · rw [leaving_next.mpr ⟨leaves, isElsewhere, isLink⟩]
    rfl

theorem reaches_of_follows {way : Revisits.Way Arrival (Nat × Value)}
    (follows : Revisits.Follows (crossings fabric destination) ⟨start.1, start.2, packet⟩ way) :
    Reaches fabric packet start way.node := by
  induction follows with
  | here => exact .start
  | step before isEdge ih =>
    obtain ⟨emit, next, forwards, -, isLink, isNode⟩ := of_mem_crossings isEdge
    rw [isNode]
    exact .link ih forwards isLink

def Delivers (fabric : Fabric) (packet : Pkt) (start destination : Nat × Value) : Prop :=
  ∃ way emit,
    Revisits.Follows (crossings fabric destination) ⟨start.1, start.2, packet⟩ way ∧
      Forwards fabric way.node emit ∧ (way.node.dpid, emit.port) = destination

theorem follows_of_reaches (reaches : Reaches fabric packet start arrival) :
    (∃ way, Revisits.Follows (crossings fabric destination) ⟨start.1, start.2, packet⟩ way ∧
      way.node = arrival) ∨ Delivers fabric packet start destination := by
  induction reaches with
  | start => exact .inl ⟨_, .here, rfl⟩
  | @link arrival emit next before forwards isLink ih =>
    rcases ih with ⟨way, follows, rfl⟩ | delivers
    · by_cases isThere : (way.node.dpid, emit.port) = destination
      · exact .inr ⟨way, emit, follows, forwards, isThere⟩
      · obtain ⟨label, isEdge⟩ := mem_crossings forwards isThere isLink
        exact .inl ⟨_, .step follows isEdge, rfl⟩
    · exact .inr delivers

theorem carried_iff : Carried fabric packet start destination ↔
    Delivers fabric packet start destination := by
  constructor
  · rintro ⟨arrival, emit, reaches, forwards, isThere⟩
    rcases follows_of_reaches reaches with ⟨way, follows, rfl⟩ | delivers
    · exact ⟨way, emit, follows, forwards, isThere⟩
    · exact delivers
  · rintro ⟨way, emit, follows, forwards, isThere⟩
    exact ⟨way.node, emit, reaches_of_follows follows, forwards, isThere⟩

/-! ### The branches of a way looked at -/

theorem loop_of_mem_branchesOf {way : Revisits.Way Arrival (Nat × Value)} {flag : Bool}
    {branch : Branch} (member : branch ∈ branchesOf fabric destination (way, flag)) :
    branch.ending.outcome = .loop ↔ flag := by
  cases flag with
  | true =>
    rw [mem_singleton.mp member]
    exact iff_of_true rfl rfl
  | false =>
    refine iff_of_false ?_ Bool.false_ne_true
    unfold branchesOf at member
    rw [if_neg Bool.false_ne_true] at member
    split at member
    · rw [mem_singleton.mp member]
      exact nofun
    · split at member
      · cases member
      · rcases mem_append.mp member with isInside | isLeaving
        · obtain ⟨ends, -, rfl⟩ := mem_map.mp isInside
          cases ends <;> exact nofun
        · obtain ⟨emit, -, isBranch⟩ := mem_filterMap.mp isLeaving
          obtain ⟨ending, isEnding, rfl⟩ := Option.map_eq_some_iff.mp isBranch
          exact (leaving_ending isEnding).2

theorem delivered_of_mem_branchesOf {way : Revisits.Way Arrival (Nat × Value)} {flag : Bool}
    {branch : Branch} (member : branch ∈ branchesOf fabric destination (way, flag))
    (isDelivered : branch.ending.outcome = .delivered) :
    ∃ emit, Forwards fabric way.node emit ∧ (way.node.dpid, emit.port) = destination := by
  unfold branchesOf at member
  dsimp only at member
  split at member
  · rw [mem_singleton.mp member] at isDelivered
    cases isDelivered
  · split at member
    · rw [mem_singleton.mp member] at isDelivered
      cases isDelivered
    · split at member
      · cases member
      · rename_i ports got isThrough
        rcases mem_append.mp member with isInside | isLeaving
        · obtain ⟨ends, -, rfl⟩ := mem_map.mp isInside
          cases ends <;> cases isDelivered
        · obtain ⟨emit, isEmit, isBranch⟩ := mem_filterMap.mp isLeaving
          obtain ⟨ending, isEnding, rfl⟩ := Option.map_eq_some_iff.mp isBranch
          obtain ⟨leaves, isThere⟩ := (leaving_ending isEnding).1.mp isDelivered
          exact ⟨emit, ⟨⟨ports, got, isThrough, isEmit⟩, leaves⟩, isThere⟩

theorem mem_branchesOf_delivered {way : Revisits.Way Arrival (Nat × Value)}
    (forwards : Forwards fabric way.node emit)
    (isThere : (way.node.dpid, emit.port) = destination) :
    ∃ branch ∈ branchesOf fabric destination (way, false), branch.ending.outcome = .delivered := by
  obtain ⟨⟨ports, got, isThrough, isEmit⟩, leaves⟩ := forwards
  refine ⟨⟨.delivered, (queuedOf fabric way).hops ++
    [⟨way.node, some emit.port, got.flows, got.notes⟩]⟩, ?_, rfl⟩
  unfold branchesOf
  rw [if_neg Bool.false_ne_true]
  cases isTable : fabric.table way.node.dpid with
  | none =>
    unfold through at isThrough
    rw [isTable] at isThrough
    cases isThrough
  | some table =>
    rw [isThrough]
    refine mem_append_right _ (mem_filterMap.mpr ⟨emit, isEmit, ?_⟩)
    rw [leaving_delivered leaves isThere]
    rfl

/-! ### The end -/

theorem Returns.walked (returns : Returns fabric packet start destination walking) :
    ∃ walk : Revisits.Walk Arrival (Nat × Value),
      Simulates fabric destination walking walk ∧ walk.queue = [] ∧ walk.ways.Nodup ∧
        Revisits.Walked (crossings fabric destination) ⟨start.1, start.2, packet⟩ walk := by
  obtain ⟨⟨room, isWalk⟩, isEmpty⟩ := returns
  have simulates := simulates_walkFrom simulates_begin isWalk
  refine ⟨_, simulates, ?_, ?_, Revisits.walked_walkFrom Revisits.walked_start room⟩
  · have isQueue := simulates.queue
    rw [isEmpty] at isQueue
    exact map_eq_nil_iff.mp isQueue.symm
  · exact Revisits.nodup_walkFrom (fun _ => crossings_nodup) Revisits.walked_start
      (nodup_singleton _) room

/-! ### Finitely many packets -/

def appliedOf : Action → List Applied
  | .apply action => [action]
  | .writeActions written => written
  | _ => []

omit [Unicode] [Readers] in
theorem mem_appliedOf {flow : Flow} {field : Field} {value : Value} (sets : Sets flow field value) :
    .setField field value ∈ flow.actions.flatMap appliedOf := by
  rcases sets with isOwn | ⟨written, isWritten, isIn⟩
  · exact mem_flatMap.mpr ⟨_, isOwn, mem_singleton.mpr rfl⟩
  · exact mem_flatMap.mpr ⟨_, isWritten, isIn⟩

def Entries (fabric : Fabric) (packet : Pkt) (field : Field) (value : Value) : Prop :=
  packet.lookup field = some value ∨
    ∃ entry ∈ fabric.switches, ∃ flow ∈ entry.2.flows.getD [], ∃ written,
      Sets flow field written ∧ value = canonicalValue field written

theorem finite_entries (fabric : Fabric) (packet : Pkt) :
    {entry : Field × Value | Entries fabric packet entry.1 entry.2}.Finite := by
  let own := packet.keys.toList.map (fun field =>
    (field, (packet.lookup field).getD (.int 0)))
  let applied := (fabric.switches.flatMap (fun entry => entry.2.flows.getD [])).flatMap (fun flow =>
    flow.actions.flatMap appliedOf)
  let asAction := fun entry : Field × Value => Applied.setField entry.1 entry.2
  have injective : Function.Injective asAction := by
    rintro ⟨field, value⟩ ⟨other, written⟩ same
    cases same
    rfl
  have written := (finite_toSet applied).preimage injective.injOn
  have set := written.image (fun entry => (entry.1, canonicalValue entry.1 entry.2))
  refine ((finite_toSet own).union set).subset ?_
  rintro ⟨field, value⟩ (isOwn | ⟨entry, isSwitch, flow, isFlow, written, sets, isValue⟩)
  · dsimp only at isOwn
    refine .inl (mem_map.mpr ⟨field, ?_, ?_⟩)
    · rw [Finset.mem_toList, Finmap.mem_keys, ← Finmap.lookup_isSome, isOwn]
      rfl
    · rw [isOwn, Option.getD_some]
  · dsimp only at sets isValue
    refine .inr ⟨(field, written), mem_flatMap.mpr ⟨flow, ?_, ?_⟩, ?_⟩
    · exact mem_flatMap.mpr ⟨entry, isSwitch, isFlow⟩
    · exact mem_appliedOf sets
    · rw [isValue]

omit [Unicode] [Readers] in
theorem finite_packets {entries : Field → Value → Prop}
    (finite : {entry : Field × Value | entries entry.1 entry.2}.Finite) :
    {packet : Pkt | packet.From entries}.Finite := by
  let held (packet : Pkt) : Finset (Field × Value) :=
    finite.toFinset.filter (fun entry => packet.lookup entry.1 = some entry.2)
  refine Set.Finite.of_injOn (f := held) (t := ↑finite.toFinset.powerset) ?_ ?_
    (Finset.finite_toSet _)
  · intro packet _
    exact Finset.mem_coe.mpr (Finset.mem_powerset.mpr (Finset.filter_subset _ _))
  · -- a packet is known by the entries it has
    have mem_held {packet : Pkt} (from_ : packet.From entries) (field : Field) (value : Value) :
        packet.lookup field = some value ↔ (field, value) ∈ held packet := by
      rw [Finset.mem_filter, Set.Finite.mem_toFinset]
      constructor
      · intro isHeld
        exact ⟨from_ field value isHeld, isHeld⟩
      · intro isIn
        exact isIn.2
    intro one isOne other isOther same
    apply Finmap.ext_lookup
    intro field
    apply Option.ext
    intro value
    rw [mem_held isOne, mem_held isOther, same]

def Within (fabric : Fabric) (packet : Pkt) (start : Nat × Value) : Set Arrival :=
  {arrival | (arrival.dpid, arrival.inPort) ∈ start :: fabric.links.map Prod.snd ∧
    arrival.packet.From (Entries fabric packet)}

theorem finite_within : (Within fabric packet start).Finite := by
  have places := finite_toSet (start :: fabric.links.map Prod.snd)
  have packets := finite_packets (finite_entries fabric packet)
  refine ((places.prod packets).image (fun both =>
    Arrival.mk both.1.1 both.1.2 both.2)).subset ?_
  intro arrival isIn
  exact ⟨((arrival.dpid, arrival.inPort), arrival.packet), isIn, rfl⟩

omit [Unicode] [Readers] in
theorem mem_of_table {flows : List Flow} (isTable : fabric.table dpid = some (ports, flows)) :
    ∃ entry ∈ fabric.switches, entry.2.flows.getD [] = flows := by
  obtain ⟨switch, isSwitch, isFlows⟩ := Option.bind_eq_some_iff.mp isTable
  obtain ⟨entry, isFound, rfl⟩ := Option.map_eq_some_iff.mp isSwitch
  obtain ⟨own, isOwn, isPair⟩ := Option.map_eq_some_iff.mp isFlows
  refine ⟨entry, mem_of_find?_eq_some isFound, ?_⟩
  rw [isOwn, Option.getD_some]
  exact congrArg Prod.snd isPair

theorem within_closed (isIn : arrival ∈ Within fabric packet start)
    {edge : (Nat × Value) × Arrival} (member : edge ∈ crossings fabric destination arrival) :
    edge.2 ∈ Within fabric packet start := by
  obtain ⟨emit, next, forwards, -, isLink, isNode⟩ := of_mem_crossings member
  obtain ⟨⟨ports, got, isThrough, isEmit⟩, -⟩ := forwards
  obtain ⟨⟨own, flows⟩, isTable, isGot⟩ := Option.bind_eq_some_iff.mp isThrough
  obtain ⟨answer, isAnswer, isPair⟩ := Option.map_eq_some_iff.mp isGot
  obtain ⟨rfl, rfl⟩ := Prod.mk.inj isPair
  rw [isNode]
  constructor
  · obtain ⟨link, isFound, isNext⟩ := Option.map_eq_some_iff.mp isLink
    refine mem_cons_of_mem _ (mem_map.mpr ⟨link, mem_of_find?_eq_some isFound, ?_⟩)
    exact isNext
  · obtain ⟨entry, isSwitch, isFlows⟩ := mem_of_table isTable
    have isOk : throughSwitch flows own arrival.inPort arrival.packet = .ok answer := by
      cases isRun : throughSwitch flows own arrival.inPort arrival.packet with
      | error stop =>
        rw [isRun] at isAnswer
        cases isAnswer
      | ok other =>
        rw [isRun] at isAnswer
        rw [Option.some.inj isAnswer]
    refine throughSwitch_from isIn.2 ?_ isOk emit isEmit
    intro flow isFlow field value sets
    exact .inr ⟨entry, isSwitch, flow, isFlows ▸ isFlow, value, sets, rfl⟩

/-! ### What a walk raises -/

/-- The metadata every flow of the fabric writes or sets is a number. -/
def Fabric.Numeric (fabric : Fabric) : Prop :=
  ∀ entry ∈ fabric.switches, ∀ flow ∈ entry.2.flows.getD [], Trace.Numeric flow

theorem turn_error {stop : Stop} (isError : turn fabric destination walking = .error stop) :
    stop = .typeError ∧ ¬ fabric.Numeric := by
  obtain ⟨seen, queue, ended⟩ := walking
  cases queue with
  | nil => cases isError
  | cons queued rest =>
    obtain ⟨arrival, hops⟩ := queued
    rw [turn] at isError
    split at isError
    · cases isError
    · split at isError
      · cases isError
      · rename_i ports flows isTable
        cases isRun : throughSwitch flows ports arrival.inPort arrival.packet with
        | ok got =>
          rw [isRun] at isError
          cases isError
        | error own =>
          rw [isRun] at isError
          cases isError
          cases stop with
          | outOfRoom => exact absurd isRun throughSwitch_room
          | typeError =>
            refine ⟨rfl, fun numeric => ?_⟩
            obtain ⟨entry, isSwitch, isFlows⟩ := mem_of_table isTable
            refine throughSwitch_numeric (fun flow isFlow => ?_) isRun
            exact numeric entry isSwitch flow (isFlows ▸ isFlow)

theorem walkFrom_error {room : Nat} {stop : Stop}
    (isError : walkFrom fabric destination room walking = .error stop) :
    stop = .typeError ∧ ¬ fabric.Numeric := by
  induction room generalizing walking with
  | zero => cases isError
  | succ room ih =>
    rw [walkFrom] at isError
    cases isTurn : turn fabric destination walking with
    | error own =>
      rw [isTurn] at isError
      cases isError
      exact turn_error isTurn
    | ok next =>
      rw [isTurn] at isError
      exact ih isError

theorem walk_ends (fabric : Fabric) (packet : Pkt) (start destination : Nat × Value) :
    (∃ walking, Returns fabric packet start destination walking) ∨
      ¬ fabric.Numeric ∧
        ∃ room, walkFrom fabric destination room (begin_ packet start) = .error .typeError := by
  have isIn : Arrival.mk start.1 start.2 packet ∈ Within fabric packet start :=
    ⟨.head _, fun field value isValue => .inl isValue⟩
  have closed : ∀ node ∈ Within fabric packet start, ∀ edge ∈ crossings fabric destination node,
      edge.2 ∈ Within fabric packet start := fun node isNode edge isEdge =>
    within_closed isNode isEdge
  obtain ⟨room, isEmpty⟩ := Revisits.walkFrom_ends finite_within isIn closed
  cases isWalk : walkFrom fabric destination room (begin_ packet start) with
  | error stop =>
    obtain ⟨rfl, notNumeric⟩ := walkFrom_error isWalk
    exact .inr ⟨notNumeric, room, isWalk⟩
  | ok walking =>
    refine .inl ⟨walking, ⟨room, isWalk⟩, ?_⟩
    rw [(simulates_walkFrom simulates_begin isWalk).queue, isEmpty, map_nil]

/-- **A walk ends, and is exact on delivery.** It returns, or raises where a flow's metadata is
not a number; and of the branches it reports or counts, one is delivered exactly where a copy
of the packet is carried to the destination's port. -/
theorem walk_exact (fabric : Fabric) (packet : Pkt) (start destination : Nat × Value) :
    ((∃ walking, Returns fabric packet start destination walking) ∨
      ¬ fabric.Numeric ∧
        ∃ room, walkFrom fabric destination room (begin_ packet start) = .error .typeError) ∧
    ∀ walking, Returns fabric packet start destination walking →
      walking.answer =
        ⟨walking.ended.take maxBranches, walking.ended.length - maxBranches⟩ ∧
      ((∃ branch ∈ walking.ended, branch.ending.outcome = .delivered) ↔
        Carried fabric packet start destination) := by
  refine ⟨walk_ends fabric packet start destination, fun walking returns => ?_⟩
  refine ⟨answer_eq walking, ?_⟩
  obtain ⟨walk, simulates, isEmpty, -, walked⟩ := returns.walked
  rw [carried_iff, simulates.ended]
  constructor
  · rintro ⟨branch, member, isDelivered⟩
    obtain ⟨⟨way, flag⟩, isDone, isBranch⟩ := List.mem_flatMap.mp member
    obtain ⟨emit, forwards, isThere⟩ := delivered_of_mem_branchesOf isBranch isDelivered
    have isWay : way ∈ walk.ways := List.mem_append_left _ (List.mem_map_of_mem isDone)
    exact ⟨way, emit, walked.follows way isWay, forwards, isThere⟩
  · rintro ⟨way, emit, follows, forwards, isThere⟩
    -- the copy goes on from the first way to its port
    obtain ⟨first, isDone, isNode⟩ := Revisits.walked_of_follows isEmpty walked follows
    rw [← isNode] at forwards isThere
    obtain ⟨branch, isBranch, isDelivered⟩ := mem_branchesOf_delivered forwards isThere
    exact ⟨branch, List.mem_flatMap.mpr ⟨(first, false), isDone, isBranch⟩, isDelivered⟩

/-! ### Loops -/

/-- The branch's last hop comes in as an earlier one of its own did. -/
def Branch.RevisitsOwn (branch : Branch) : Prop :=
  match branch.hops.reverse with
  | [] => False
  | last :: before => last.arrival ∈ before.map Hop.arrival

instance (branch : Branch) : Decidable branch.RevisitsOwn :=
  match isHops : branch.hops.reverse with
  | [] => .isFalse (by unfold Branch.RevisitsOwn; rw [isHops]; exact id)
  | last :: before => decidable_of_iff (last.arrival ∈ before.map Hop.arrival) (by
      unfold Branch.RevisitsOwn
      rw [isHops])

theorem revisitsOwn_iff {way : Revisits.Way Arrival (Nat × Value)} {ending : Ending} :
    Branch.RevisitsOwn ⟨ending, (queuedOf fabric way).hops ++ [⟨way.node, none, [], []⟩]⟩ ↔
      way.node ∈ way.passed := by
  have isArrival (left : Arrival × (Nat × Value)) : (hopOf fabric left).arrival = left.1 := by
    unfold hopOf
    split <;> rfl
  have arePassed : (queuedOf fabric way).hops.map Hop.arrival = way.passed := by
    unfold queuedOf Revisits.Way.passed
    rw [map_map]
    exact map_congr_left (fun left _ => isArrival left)
  unfold Branch.RevisitsOwn
  dsimp only
  rw [reverse_append]
  show way.node ∈ (queuedOf fabric way).hops.reverse.map Hop.arrival ↔ _
  rw [map_reverse, mem_reverse, arePassed]

/-- **Every branch a walk ends as a loop has itself been where it ends exactly where no port is
come to, with the packet the same, by two ways that each come nowhere twice.** The first
branches of them are the answer's. -/
theorem loops_exact (returns : Returns fabric packet start destination walking) :
    walking.answer.branches = walking.ended.take maxBranches ∧
    ((∀ branch ∈ walking.ended, branch.ending.outcome = .loop → branch.RevisitsOwn) ↔
      Revisits.NoTwoWays (crossings fabric destination) ⟨start.1, start.2, packet⟩) := by
  refine ⟨by rw [answer_eq], ?_⟩
  obtain ⟨walk, simulates, isEmpty, distinct, walked⟩ := returns.walked
  rw [← Revisits.ownRevisits_iff isEmpty walked distinct, simulates.ended]
  constructor
  · intro every way isEnded
    have isBranch : Branch.mk .loop ((queuedOf fabric way).hops ++
        [⟨way.node, none, [], []⟩]) ∈ branchesOf fabric destination (way, true) :=
      List.mem_singleton.mpr rfl
    exact revisitsOwn_iff.mp
      (every _ (List.mem_flatMap.mpr ⟨(way, true), isEnded, isBranch⟩) rfl)
  · intro own branch member isLoop
    obtain ⟨⟨way, flag⟩, isDone, isBranch⟩ := List.mem_flatMap.mp member
    have isAgain := (loop_of_mem_branchesOf isBranch).mp isLoop
    subst isAgain
    rw [List.mem_singleton.mp isBranch]
    exact revisitsOwn_iff.mpr (own way isDone)

theorem returns_of_any {test : Walking → Bool} (room : Nat)
    (isRun : (walkFrom fabric destination room (begin_ packet start)).toOption.any
      (fun walking => walking.queue.isEmpty && test walking) = true) :
    ∃ walking, Returns fabric packet start destination walking ∧ test walking := by
  cases isWalk : walkFrom fabric destination room (begin_ packet start) with
  | error stop =>
    rw [isWalk] at isRun
    cases isRun
  | ok walking =>
    rw [isWalk] at isRun
    obtain ⟨isEmpty, isTest⟩ := Bool.and_eq_true_iff.mp isRun
    exact ⟨walking, ⟨⟨room, isWalk⟩, isEmpty_iff.mp isEmpty⟩, isTest⟩

end Walk

/-! ### Two fabrics -/

/-- A switch whose one flow sends everything out of one port. -/
def sends (dpid : Nat) (port : Value) (ports : List Value) : Nat × Switch :=
  (dpid, ⟨some ports, some [⟨dpid, 0, 1, 0, [], [.apply (.output port)], 0, 0, none, none, none⟩],
    []⟩)

/-- A link, each way. -/
def cable (one other : Nat × Value) : List ((Nat × Value) × (Nat × Value)) :=
  [(one, other), (other, one)]

/-- Two ways from the first switch to the fourth, and one on to the fifth. -/
def diamond : Fabric where
  switches := [
    sends 1 (.text "FLOOD".ascii) [.int 1, .int 2, .int 3],
    sends 2 (.int 2) [.int 1, .int 2],
    sends 3 (.int 2) [.int 1, .int 2],
    sends 4 (.int 3) [.int 1, .int 2, .int 3],
    sends 5 (.int 2) [.int 1, .int 2]]
  links := cable (1, .int 2) (2, .int 1) ++ cable (1, .int 3) (3, .int 1) ++
    cable (2, .int 2) (4, .int 1) ++ cable (3, .int 2) (4, .int 2) ++ cable (4, .int 3) (5, .int 1)
  hosts := [⟨"00:00:00:00:00:01".ascii, 1, .int 1⟩, ⟨"00:00:00:00:00:02".ascii, 5, .int 2⟩]

/-- Two switches that send everything to each other. -/
def circle : Fabric where
  switches := [sends 1 (.int 2) [.int 1, .int 2, .int 3], sends 2 (.int 2) [.int 1, .int 2]]
  links := cable (1, .int 2) (2, .int 1) ++ cable (2, .int 2) (1, .int 1)
  hosts := [⟨"00:00:00:00:00:01".ascii, 1, .int 3⟩]

/-- An ICMP echo request, as `packet_of` makes it. -/
def echo : Pkt :=
  [(Field.ethSrc, Value.text "00:00:00:00:00:01".ascii),
    (.ethDst, .text "00:00:00:00:00:02".ascii), (.vlanVid, .int 0), (.ethType, .int 0x0800),
    (.ipDscp, .int 0), (.ipEcn, .int 0), (.ipv4Src, .text "10.0.0.1".ascii),
    (.ipv4Dst, .text "10.0.0.2".ascii), (.ipProto, .int 1), (.icmpv4Type, .int 8),
    (.icmpv4Code, .int 0)].foldr (fun entry packet => packet.insert entry.1 entry.2) ∅

theorem loops_exact_circle :
    letI : Unicode := basicLatin
    letI : Readers := plainReaders
    ∃ walking, Returns circle echo (1, .int 3) (1, .int 3) walking ∧
      walking.answer.branches = walking.ended.take maxBranches ∧
      ((∀ branch ∈ walking.ended, branch.ending.outcome = .loop → branch.RevisitsOwn) ↔
        Revisits.NoTwoWays (crossings circle (1, .int 3)) ⟨1, .int 3, echo⟩) := by
  let _ : Unicode := basicLatin
  let _ : Readers := plainReaders
  have isRun : (walkFrom circle (1, .int 3) 5 (begin_ echo (1, .int 3))).toOption.any
      (fun walking => walking.queue.isEmpty && true) = true := by
    decide +kernel
  obtain ⟨walking, returns, -⟩ := returns_of_any 5 isRun
  exact ⟨walking, returns, loops_exact returns⟩

/-- The copies a flood sends by two ways meet at the fifth switch, which forwards no copy to
where it has been. -/
theorem meeting_said_loop :
    letI : Unicode := basicLatin
    letI : Readers := plainReaders
    ∃ walking, Returns diamond echo (1, .int 1) (5, .int 2) walking ∧
      ∃ branch ∈ walking.answer.branches,
        branch.ending.outcome = .loop ∧ ¬ branch.RevisitsOwn := by
  let _ : Unicode := basicLatin
  let _ : Readers := plainReaders
  have isRun : (walkFrom diamond (5, .int 2) 10 (begin_ echo (1, .int 1))).toOption.any
      (fun walking => walking.queue.isEmpty && walking.answer.branches.any (fun branch =>
        decide (branch.ending.outcome = .loop ∧ ¬ branch.RevisitsOwn))) = true := by
    decide +kernel
  obtain ⟨walking, returns, isAny⟩ := returns_of_any 10 isRun
  obtain ⟨branch, isBranch, isLoop⟩ := List.any_eq_true.mp isAny
  exact ⟨walking, returns, branch, isBranch, of_decide_eq_true isLoop⟩

end Nmas.Sdn.Trace
