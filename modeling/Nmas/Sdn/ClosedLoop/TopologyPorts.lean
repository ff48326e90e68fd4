import Mathlib.Data.List.Sort
import Nmas.Fixpoint.BreadthFirst
import Nmas.Text.Str

/-!
Contract: where a switch sends each host's traffic.

Owns: `sdn/closed_loop.py`, `_topology_ports`, over what a controller answers of
its hosts and links (`drivers/base.py`, `topo_host` and `topo_port`).

The ports are kept by address, so that a host which has no way of its own may
still have its address in them by another that lists it too. The links of a
switch are sorted as pairs, which two ports of one neighbour refuse when one is
a number and the other a reserved port's name.
-/

namespace Nmas.Sdn.ClosedLoop

open Nmas.Text List
open Nmas.Fixpoint.BreadthFirst

/-- `_port_number`: a number, or a reserved port's name. -/
inductive TopoPort where
  | number (number : Int)
  | reserved (name : Str)
deriving DecidableEq

structure TopoHost where
  mac : Str
  dpid : Nat
  dpidHex : Str
  portNo : TopoPort
  ipv4 : List Str
deriving DecidableEq

structure TopoLink where
  src : Nat × TopoPort
  dst : Nat × TopoPort
deriving DecidableEq

/-! ### A switch's links in their order -/

/-- The two can be compared. -/
def sameKind : TopoPort → TopoPort → Bool
  | .number _, .number _ => true
  | .reserved _, .reserved _ => true
  | _, _ => false

def portLe : TopoPort → TopoPort → Bool
  | .number one, .number other => one ≤ other
  | .reserved one, .reserved other => !List.lex other one
  | _, _ => false

/-- `adj[here]`: the switch each link leads to, and the port it leaves by. -/
def outLinks (links : List TopoLink) (here : Nat) : List (Nat × TopoPort) :=
  (links.filter (·.src.1 = here)).map (fun link => (link.dst.1, link.src.2))

def edgeLe (one other : Nat × TopoPort) : Bool :=
  one.1 < other.1 || (one.1 = other.1 && portLe one.2 other.2)

/-- `sorted(adj.get(here, []))`, none where it raises: a sort compares some two
of one switch's ports when not all of them are of one kind. -/
def sortedLinks (links : List TopoLink) (here : Nat) : Option (List (Nat × TopoPort)) :=
  let edges := outLinks links here
  if edges.all (fun one => edges.all (fun other =>
      one.1 ≠ other.1 || sameKind one.2 other.2)) then
    some (edges.insertionSort (fun one other => edgeLe one other = true))
  else none

/-! ### The search -/

/-- `out if first[here] is None else first[here]`. -/
def firstHop (mark : Option TopoPort) (edge : Nat × TopoPort) : Option TopoPort :=
  some (mark.getD edge.2)

/-- The loop over `queue`, none where a sort raises. -/
def spread (links : List TopoLink) :
    (room : Nat) → Search Nat (Option TopoPort) → Option (Search Nat (Option TopoPort))
  | 0, search => some search
  | _ + 1, ⟨found, []⟩ => some ⟨found, []⟩
  | room + 1, ⟨found, here :: rest⟩ =>
    match sortedLinks links here with
    | some edges => spread links room (visit (fun _ => edges) firstHop here ⟨found, rest⟩)
    | none => none

/-- `first`. Each round visits a switch not visited before, and every switch but
the first is where a link leads. -/
def firstHops (links : List TopoLink) (dpid : Nat) : Option (Search Nat (Option TopoPort)) :=
  spread links (links.length + 1) ⟨[(dpid, none)], [dpid]⟩

/-! ### The hosts -/

def linkPorts (links : List TopoLink) : List (Nat × TopoPort) :=
  links.flatMap (fun link => [link.src, link.dst])

/-- Why a host has no port. -/
inductive Unplaced where
  | noAddress
  | linkPort
  | noLink
deriving DecidableEq

/-- A host's words in `unplaced`. -/
def Unplaced.words (host : TopoHost) : Unplaced → Str
  | .noAddress => host.mac ++ " (no IPv4 address listed)".ascii
  | .linkPort => [',', ' '].intercalate host.ipv4 ++
      " (listed on an inter-switch link port)".ascii
  | .noLink => [',', ' '].intercalate host.ipv4 ++ " (on ".ascii ++ host.dpidHex ++
      ", which no link reaches from this switch)".ascii

def portOf (links : List TopoLink) (first : Search Nat (Option TopoPort)) (dpid : Nat)
    (host : TopoHost) : Except Unplaced TopoPort :=
  if host.ipv4 = [] then .error .noAddress
  else if (host.dpid, host.portNo) ∈ linkPorts links then .error .linkPort
  else if host.dpid = dpid then .ok host.portNo
  else
    match first.markOf host.dpid with
    | some (some port) => .ok port
    | _ => .error .noLink

/-- `ports`, by address, and `unplaced`. -/
structure Placed where
  ports : List (Str × TopoPort)
  unplaced : List (TopoHost × Unplaced)

/-- `ports.update({a: port for a in v4})`. -/
def updated (addresses : List Str) (port : TopoPort) (ports : List (Str × TopoPort)) :
    List (Str × TopoPort) :=
  addresses.foldl (fun ports address => Log.put Prod.fst (address, port) ports) ports

def place (links : List TopoLink) (first : Search Nat (Option TopoPort)) (dpid : Nat)
    (source : Str) (placed : Placed) (host : TopoHost) : Placed :=
  if source ∈ host.ipv4 then placed
  else
    match portOf links first dpid host with
    | .ok port => { placed with ports := updated host.ipv4 port placed.ports }
    | .error why => { placed with unplaced := placed.unplaced ++ [(host, why)] }

/-- `_topology_ports`' answer. -/
structure TopologyPorts where
  ok : Bool
  error : Str
  ports : List (Str × TopoPort)
  unplaced : List Str
deriving DecidableEq

/-- `got.get("error") or ...`. -/
def readFailed (error : Str) : TopologyPorts :=
  ⟨false, if error = [] then "the controller's topology could not be read".ascii else error, [], []⟩

/-- `_topology_ports`, none where it raises. A read of the controller is its
answer, or why there is none. -/
def topologyPorts (hosts : Except Str (List TopoHost)) (links : Except Str (List TopoLink))
    (dpid : Nat) (source : Str) : Option TopologyPorts :=
  match hosts, links with
  | .error why, _ => some (readFailed why)
  | .ok _, .error why => some (readFailed why)
  | .ok hosts, .ok links =>
    (firstHops links dpid).map (fun first =>
      let placed := hosts.foldl (place links first dpid source) ⟨[], []⟩
      ⟨true, [], placed.ports, placed.unplaced.map (fun entry => entry.2.words entry.1)⟩)

/-! ### Routes -/

def IsRoute (links : List TopoLink) : Nat → List TopoLink → Nat → Prop
  | here, [], there => here = there
  | here, link :: rest, there =>
    (link ∈ links ∧ link.src.1 = here) ∧ IsRoute links link.dst.1 rest there

def IsShortestRoute (links : List TopoLink) (dpid : Nat) (route : List TopoLink)
    (there : Nat) : Prop :=
  IsRoute links dpid route there ∧
    ∀ other, IsRoute links dpid other there → route.length ≤ other.length

def Reached (links : List TopoLink) (dpid there : Nat) : Prop :=
  ∃ route, IsRoute links dpid route there

/-- No two links from one switch the search comes to lead to one neighbour by
ports of which one is a number and the other a reserved port's name. -/
def Sortable (links : List TopoLink) (dpid : Nat) : Prop :=
  ∀ one ∈ links, ∀ other ∈ links, Reached links dpid one.src.1 → one.src.1 = other.src.1 →
    one.dst.1 = other.dst.1 → sameKind one.src.2 other.src.2 = true

/-- The traffic of a host leaves by its own port on the switch, or by the first
link of a shortest route to the host's. -/
def LeavesBy (links : List TopoLink) (dpid : Nat) (host : TopoHost) (port : TopoPort) : Prop :=
  (host.dpid = dpid ∧ port = host.portNo) ∨
    (host.dpid ≠ dpid ∧ ∃ first rest, IsShortestRoute links dpid (first :: rest) host.dpid ∧
      port = first.src.2)

/-- The host has an address, hangs on no link's port, and can be led to. -/
def HasWay (links : List TopoLink) (dpid : Nat) (host : TopoHost) : Prop :=
  host.ipv4 ≠ [] ∧ (host.dpid, host.portNo) ∉ linkPorts links ∧ Reached links dpid host.dpid

section Routes

variable {links : List TopoLink} {dpid here there : Nat}

theorem isRoute_append {route rest : List TopoLink} :
    IsRoute links dpid (route ++ rest) there ↔
      ∃ between, IsRoute links dpid route between ∧ IsRoute links between rest there := by
  induction route generalizing dpid with
  | nil => simp [IsRoute]
  | cons link route ih =>
    simp only [cons_append, IsRoute, ih]
    tauto

theorem Reached.next {link : TopoLink} (reached : Reached links dpid link.src.1)
    (isLink : link ∈ links) : Reached links dpid link.dst.1 := by
  obtain ⟨route, isRoute⟩ := reached
  exact ⟨route ++ [link], isRoute_append.mpr ⟨_, isRoute, ⟨isLink, rfl⟩, rfl⟩⟩

/-! ### The links the search takes -/

def TopoLink.edge (link : TopoLink) : Nat × TopoPort := (link.dst.1, link.src.2)

theorem mem_outLinks {edge : Nat × TopoPort} :
    edge ∈ outLinks links here ↔ ∃ link ∈ links, link.src.1 = here ∧ link.edge = edge := by
  unfold outLinks TopoLink.edge
  simp only [mem_map, mem_filter, decide_eq_true_eq, and_assoc]

def nextOf (links : List TopoLink) (here : Nat) : List (Nat × TopoPort) :=
  (sortedLinks links here).getD []

theorem mem_outLinks_of_nextOf {edge : Nat × TopoPort} (member : edge ∈ nextOf links here) :
    edge ∈ outLinks links here := by
  unfold nextOf sortedLinks at member
  dsimp only at member
  split at member
  · exact (mem_insertionSort _).mp member
  · cases member

theorem sortedLinks_of_reached (sortable : Sortable links dpid) (reached : Reached links dpid here) :
    sortedLinks links here = some (nextOf links here) ∧
      ∀ edge, edge ∈ nextOf links here ↔ edge ∈ outLinks links here := by
  have comparable : (outLinks links here).all (fun one => (outLinks links here).all (fun other =>
      one.1 ≠ other.1 || sameKind one.2 other.2)) = true := by
    rw [all_eq_true]
    intro one isOne
    rw [all_eq_true]
    intro other isOther
    obtain ⟨oneLink, oneMember, oneHere, rfl⟩ := mem_outLinks.mp isOne
    obtain ⟨otherLink, otherMember, otherHere, rfl⟩ := mem_outLinks.mp isOther
    by_cases sameNeighbour : oneLink.dst.1 = otherLink.dst.1
    · rw [← oneHere] at reached
      have same := sortable oneLink oneMember otherLink otherMember reached
        (oneHere.trans otherHere.symm) sameNeighbour
      simp [TopoLink.edge, same]
    · simp [TopoLink.edge, sameNeighbour]
  have isSorted : sortedLinks links here = some ((outLinks links here).insertionSort
      (fun one other => edgeLe one other = true)) := if_pos comparable
  unfold nextOf
  rw [isSorted]
  exact ⟨rfl, fun edge => mem_insertionSort _⟩

theorem isRoute_of_isPath {path : List (Nat × TopoPort)}
    (isPath : IsPath (nextOf links) here path there) :
    ∃ route, IsRoute links here route there ∧ route.map TopoLink.edge = path := by
  induction path generalizing here with
  | nil => exact ⟨[], isPath, rfl⟩
  | cons edge rest ih =>
    obtain ⟨isEdge, onward⟩ := isPath
    obtain ⟨link, isLink, isHere, rfl⟩ := mem_outLinks.mp (mem_outLinks_of_nextOf isEdge)
    obtain ⟨route, isRoute, rfl⟩ := ih onward
    exact ⟨link :: route, ⟨⟨isLink, isHere⟩, isRoute⟩, rfl⟩

theorem isPath_of_isRoute (sortable : Sortable links dpid) {route : List TopoLink}
    (reached : Reached links dpid here) (isRoute : IsRoute links here route there) :
    IsPath (nextOf links) here (route.map TopoLink.edge) there := by
  induction route generalizing here with
  | nil => exact isRoute
  | cons link rest ih =>
    obtain ⟨⟨isLink, rfl⟩, onward⟩ := isRoute
    refine ⟨?_, ih (reached.next isLink) onward⟩
    rw [(sortedLinks_of_reached sortable reached).2]
    exact mem_outLinks.mpr ⟨link, isLink, rfl, rfl⟩

theorem reached_self : Reached links dpid dpid := ⟨[], rfl⟩

theorem isShortestRoute_of_isShortest (sortable : Sortable links dpid)
    {path : List (Nat × TopoPort)} (isShortest : IsShortest (nextOf links) dpid path there) :
    ∃ route, IsShortestRoute links dpid route there ∧ route.map TopoLink.edge = path := by
  obtain ⟨route, isRoute, rfl⟩ := isRoute_of_isPath isShortest.1
  refine ⟨route, ⟨isRoute, ?_⟩, rfl⟩
  intro other isOther
  have longer := isShortest.2 _ (isPath_of_isRoute sortable reached_self isOther)
  simpa using longer

/-! ### The search as it is made -/

theorem spread_eq (sortable : Sortable links dpid) (room : Nat)
    (search : Search Nat (Option TopoPort))
    (reached : ∀ node ∈ search.queue, Reached links dpid node) :
    spread links room search = some (searchFrom (nextOf links) firstHop room search) := by
  induction room generalizing search with
  | zero => rfl
  | succ room ih =>
    obtain ⟨found, queue⟩ := search
    cases queue with
    | nil => rfl
    | cons here rest =>
      have hereReached := reached here (.head _)
      have isSorted := (sortedLinks_of_reached sortable hereReached).1
      have sameVisit : visit (fun _ => nextOf links here) firstHop here ⟨found, rest⟩ =
          visit (nextOf links) firstHop here ⟨found, rest⟩ := rfl
      rw [spread, isSorted]
      dsimp only
      rw [sameVisit, searchFrom]
      apply ih
      intro node waits
      rcases mem_queue_visit waits with before | ⟨edge, isEdge, rfl⟩
      · exact reached node (.tail _ before)
      · obtain ⟨link, isLink, isHere, rfl⟩ := mem_outLinks.mp (mem_outLinks_of_nextOf isEdge)
        rw [← isHere] at hereReached
        exact hereReached.next isLink

def firstOf (path : List (Nat × TopoPort)) : Option TopoPort := path.head?.map Prod.snd

theorem firstOf_byPath (path : List (Nat × TopoPort)) (edge : Nat × TopoPort) :
    firstOf (byPath path edge) = firstHop (firstOf path) edge := by
  cases path with
  | nil | cons first rest => rfl

theorem firstHops_eq (sortable : Sortable links dpid) :
    ∃ found : List (Nat × List (Nat × TopoPort)),
      firstHops links dpid = some ⟨found.map (fun entry => (entry.1, firstOf entry.2)), []⟩ ∧
        (found.map Prod.fst).Nodup ∧
        (∀ entry ∈ found, IsShortest (nextOf links) dpid entry.2 entry.1) ∧
        ∀ there, Reached links dpid there → there ∈ found.map Prod.fst := by
  have within : ∀ node, ∀ edge ∈ nextOf links node, edge.1 ∈ dpid :: links.map (·.dst.1) := by
    intro node edge isEdge
    obtain ⟨link, isLink, _, rfl⟩ := mem_outLinks.mp (mem_outLinks_of_nextOf isEdge)
    exact mem_cons_of_mem _ (mem_map_of_mem isLink)
  have enough : (dpid :: links.map (·.dst.1)).length ≤ links.length + 1 := by simp
  obtain ⟨found, isEnd, distinct, shortest, complete⟩ :=
    searchFrom_shortest within mem_cons_self enough
  refine ⟨found, ?_, distinct, shortest, ?_⟩
  · have start : (⟨[(dpid, none)], [dpid]⟩ : Search Nat (Option TopoPort)) =
        Search.mapMarks firstOf ⟨[(dpid, [])], [dpid]⟩ := rfl
    unfold firstHops
    rw [spread_eq sortable, start, searchFrom_mapMarks firstOf_byPath, isEnd]
    · rfl
    · intro node member
      rw [mem_singleton.mp member]
      exact reached_self
  · rintro there ⟨route, isRoute⟩
    exact complete _ _ (isPath_of_isRoute sortable reached_self isRoute)

end Routes

/-! ### A host's port -/

section Hosts

variable {links : List TopoLink} {dpid : Nat} {first : Search Nat (Option TopoPort)}
  {host : TopoHost}

/-- What `first` holds of the switches the search has come to. -/
structure HoldsHops (links : List TopoLink) (dpid : Nat) (first : Search Nat (Option TopoPort)) :
    Prop where
  shortest : ∀ there port, there ≠ dpid → first.markOf there = some (some port) →
    ∃ link rest, IsShortestRoute links dpid (link :: rest) there ∧ port = link.src.2
  complete : ∀ there, there ≠ dpid → Reached links dpid there →
    ∃ port, first.markOf there = some (some port)

theorem firstHops_holds (sortable : Sortable links dpid) :
    ∃ first, firstHops links dpid = some first ∧ HoldsHops links dpid first := by
  obtain ⟨found, isFirst, distinct, shortest, complete⟩ := firstHops_eq sortable
  have marked : (⟨found.map (fun entry => (entry.1, firstOf entry.2)), []⟩ :
      Search Nat (Option TopoPort)) = Search.mapMarks firstOf ⟨found, []⟩ := rfl
  refine ⟨_, isFirst, ?_, ?_⟩
  · intro there port notHere isMark
    rw [marked, markOf_mapMarks, Option.map_eq_some_iff] at isMark
    obtain ⟨path, isPath, isPort⟩ := isMark
    obtain ⟨entry, isEntry, rfl⟩ := Option.map_eq_some_iff.mp isPath
    obtain ⟨member, rfl⟩ := (Log.find_eq_some_iff distinct).mp isEntry
    obtain ⟨route, isRoute, sameEdges⟩ :=
      isShortestRoute_of_isShortest sortable (shortest entry member)
    cases route with
    | nil => exact absurd isRoute.1.symm notHere
    | cons link rest =>
      refine ⟨link, rest, isRoute, ?_⟩
      rw [← sameEdges] at isPort
      exact (Option.some.inj isPort).symm
  · intro there notHere reached
    obtain ⟨entry, member, rfl⟩ := mem_map.mp (complete there reached)
    have isFound := (Log.find_eq_some_iff distinct).mpr ⟨member, rfl⟩
    rw [marked, markOf_mapMarks, Search.markOf, isFound]
    cases isPath : entry.2 with
    | nil =>
      have isStart := (shortest entry member).1
      rw [isPath] at isStart
      exact absurd isStart.symm notHere
    | cons edge rest =>
      refine ⟨edge.2, ?_⟩
      show some (firstOf entry.2) = _
      rw [isPath]
      rfl

theorem portOf_spec (holds : HoldsHops links dpid first) :
    (HasWay links dpid host → ∃ port, portOf links first dpid host = .ok port) ∧
      ∀ port, portOf links first dpid host = .ok port →
        HasWay links dpid host ∧ LeavesBy links dpid host port := by
  unfold portOf
  constructor
  · rintro ⟨addressed, noLink, reached⟩
    rw [if_neg addressed, if_neg noLink]
    by_cases isHere : host.dpid = dpid
    · rw [if_pos isHere]
      exact ⟨host.portNo, rfl⟩
    · obtain ⟨port, isMark⟩ := holds.complete host.dpid isHere reached
      rw [if_neg isHere, isMark]
      exact ⟨port, rfl⟩
  · intro port isPort
    split at isPort
    · cases isPort
    · rename_i addressed
      split at isPort
      · cases isPort
      · rename_i noLink
        split at isPort
        · rename_i isHere
          cases isPort
          have reached : Reached links dpid host.dpid := by
            rw [isHere]
            exact reached_self
          exact ⟨⟨addressed, noLink, reached⟩, .inl ⟨isHere, rfl⟩⟩
        · rename_i notHere
          split at isPort
          · rename_i found isMark
            cases isPort
            obtain ⟨link, rest, isRoute, isFirst⟩ := holds.shortest host.dpid port notHere isMark
            exact ⟨⟨addressed, noLink, _, isRoute.1⟩, .inr ⟨notHere, link, rest, isRoute, isFirst⟩⟩
          · cases isPort

/-! ### The ports by address -/

theorem mem_updated {addresses : List Str} {port : TopoPort} {ports : List (Str × TopoPort)}
    {entry : Str × TopoPort} (member : entry ∈ updated addresses port ports) :
    entry ∈ ports ∨ (entry.1 ∈ addresses ∧ entry.2 = port) := by
  induction addresses generalizing ports with
  | nil => exact .inl member
  | cons address rest ih =>
    rcases ih member with before | ⟨later, isPort⟩
    · rcases Log.mem_put before with old | isNew
      · exact .inl old
      · rw [isNew]
        exact .inr ⟨.head _, rfl⟩
    · exact .inr ⟨.tail _ later, isPort⟩

theorem mem_keys_updated {addresses : List Str} {port : TopoPort} {ports : List (Str × TopoPort)}
    {address : Str} : address ∈ (updated addresses port ports).map Prod.fst ↔
      address ∈ addresses ∨ address ∈ ports.map Prod.fst := by
  induction addresses generalizing ports with
  | nil => simp [updated]
  | cons first rest ih =>
    show address ∈ (updated rest port _).map Prod.fst ↔ _
    rw [ih, Log.mem_map_put, mem_cons]
    tauto

theorem updated_distinct {addresses : List Str} {port : TopoPort} {ports : List (Str × TopoPort)}
    (distinct : (ports.map Prod.fst).Nodup) :
    ((updated addresses port ports).map Prod.fst).Nodup := by
  induction addresses generalizing ports with
  | nil => exact distinct
  | cons first rest ih => exact ih (Log.put_distinct distinct)

/-- What the hosts taken so far have left. -/
structure Taken (links : List TopoLink) (first : Search Nat (Option TopoPort)) (dpid : Nat)
    (source : Str) (hosts : List TopoHost) (placed : Placed) : Prop where
  once : (placed.ports.map Prod.fst).Nodup
  ports : ∀ entry ∈ placed.ports, ∃ host ∈ hosts, source ∉ host.ipv4 ∧ entry.1 ∈ host.ipv4 ∧
    portOf links first dpid host = .ok entry.2
  addresses : ∀ host ∈ hosts, source ∉ host.ipv4 → ∀ port,
    portOf links first dpid host = .ok port →
      ∀ address ∈ host.ipv4, address ∈ placed.ports.map Prod.fst
  unplaced : ∀ entry, entry ∈ placed.unplaced ↔ entry.1 ∈ hosts ∧ source ∉ entry.1.ipv4 ∧
    portOf links first dpid entry.1 = .error entry.2

theorem Taken.place {source : Str} {hosts : List TopoHost} {placed : Placed}
    (taken : Taken links first dpid source hosts placed) (last : TopoHost) :
    Taken links first dpid source (hosts ++ [last]) (place links first dpid source placed last) := by
  obtain ⟨once, ports, addresses, unplaced⟩ := taken
  have oldPorts : ∀ entry ∈ placed.ports, ∃ host ∈ hosts ++ [last], source ∉ host.ipv4 ∧
      entry.1 ∈ host.ipv4 ∧ portOf links first dpid host = .ok entry.2 := by
    intro entry member
    obtain ⟨host, isHost, isEntry⟩ := ports entry member
    exact ⟨host, mem_append_left _ isHost, isEntry⟩
  unfold ClosedLoop.place
  by_cases isSource : source ∈ last.ipv4
  · rw [if_pos isSource]
    constructor
    · exact once
    · exact oldPorts
    · intro host member notSource
      rcases mem_append.mp member with before | isLast
      · exact addresses host before notSource
      · rw [mem_singleton.mp isLast] at notSource
        exact absurd isSource notSource
    · intro entry
      rw [unplaced, mem_append, mem_singleton]
      grind
  · rw [if_neg isSource]
    cases isPort : portOf links first dpid last with
    | error why =>
      constructor
      · exact once
      · exact oldPorts
      · intro host member notSource port isOk
        rcases mem_append.mp member with before | isLast
        · exact addresses host before notSource port isOk
        · rw [mem_singleton.mp isLast, isPort] at isOk
          cases isOk
      · intro entry
        show entry ∈ placed.unplaced ++ [(last, why)] ↔ _
        rw [mem_append, mem_append, mem_singleton, mem_singleton, unplaced]
        constructor
        · rintro (old | isLast)
          · exact ⟨.inl old.1, old.2⟩
          · rw [isLast]
            exact ⟨.inr rfl, isSource, isPort⟩
        · rintro ⟨before | isLast, notSource, isError⟩
          · exact .inl ⟨before, notSource, isError⟩
          · right
            rw [isLast, isPort] at isError
            cases isError
            exact Prod.ext isLast rfl
    | ok port =>
      constructor
      · exact updated_distinct once
      · intro entry member
        rcases mem_updated member with old | ⟨isAddress, isLast⟩
        · exact oldPorts entry old
        · rw [isLast]
          exact ⟨last, mem_append_right _ (.head _), isSource, isAddress, isPort⟩
      · intro host member notSource other isOk address isAddress
        rw [mem_keys_updated]
        rcases mem_append.mp member with before | isLast
        · exact .inr (addresses host before notSource other isOk address isAddress)
        · rw [mem_singleton.mp isLast] at isAddress
          exact .inl isAddress
      · intro entry
        rw [unplaced, mem_append, mem_singleton]
        grind

theorem taken_foldl (links : List TopoLink) (first : Search Nat (Option TopoPort)) (dpid : Nat)
    (source : Str) (hosts : List TopoHost) :
    Taken links first dpid source hosts (hosts.foldl (place links first dpid source) ⟨[], []⟩) := by
  induction hosts using List.reverseRecOn with
  | nil => exact ⟨nodup_nil, by simp, by simp, by simp⟩
  | append_singleton hosts last ih =>
    rw [foldl_concat]
    exact ih.place last

end Hosts

/-! ### Where each host's traffic goes -/

/-- Where a switch sends each host's traffic: a host with a way has every address it lists in
the ports and no other host is their reason, and a host without one is named. -/
structure SendsEach (hosts : List TopoHost) (links : List TopoLink) (dpid : Nat) (source : Str)
    (placed : Placed) : Prop where
  once : (placed.ports.map Prod.fst).Nodup
  /-- A host with a way is in the ports by every address it lists, and not in `unplaced`. -/
  inPorts : ∀ host ∈ hosts, source ∉ host.ipv4 → HasWay links dpid host →
    (∀ address ∈ host.ipv4, address ∈ placed.ports.map Prod.fst) ∧
      ∀ why, (host, why) ∉ placed.unplaced
  /-- Any other is in `unplaced`. -/
  named : ∀ host ∈ hosts, source ∉ host.ipv4 → ¬ HasWay links dpid host →
    ∃ why, (host, why) ∈ placed.unplaced
  /-- No port is of a host in `unplaced`: it is that of one which lists the address and has a
  way, as its traffic leaves. -/
  leaves : ∀ entry ∈ placed.ports, ∃ host ∈ hosts, source ∉ host.ipv4 ∧ entry.1 ∈ host.ipv4 ∧
    (∀ why, (host, why) ∉ placed.unplaced) ∧ LeavesBy links dpid host entry.2
  onlyHosts : ∀ entry ∈ placed.unplaced, entry.1 ∈ hosts ∧ source ∉ entry.1.ipv4

/-- **Where a switch sends each host's traffic is exact**, an address by a host that has a way. -/
theorem topologyPorts_sends (hosts : List TopoHost) (links : List TopoLink) (dpid : Nat)
    (source : Str) (sortable : Sortable links dpid) :
    ∃ placed : Placed,
      topologyPorts (.ok hosts) (.ok links) dpid source =
          some ⟨true, [], placed.ports, placed.unplaced.map (fun entry => entry.2.words entry.1)⟩ ∧
        SendsEach hosts links dpid source placed := by
  obtain ⟨first, isFirst, holds⟩ := firstHops_holds sortable
  have taken := taken_foldl links first dpid source hosts
  have notUnplaced : ∀ host port, portOf links first dpid host = .ok port → ∀ why,
      (host, why) ∉ (hosts.foldl (place links first dpid source) ⟨[], []⟩).unplaced := by
    intro host port isOk why member
    have isError := ((taken.unplaced _).mp member).2.2
    rw [isOk] at isError
    cases isError
  refine ⟨_, ?_, taken.once, ?_, ?_, ?_, ?_⟩
  · unfold topologyPorts
    dsimp only
    rw [isFirst]
    rfl
  · intro host member notSource hasWay
    obtain ⟨port, isOk⟩ := (portOf_spec holds).1 hasWay
    exact ⟨taken.addresses host member notSource port isOk, notUnplaced host port isOk⟩
  · intro host member notSource noWay
    cases isPort : portOf links first dpid host with
    | ok port => exact absurd ((portOf_spec holds).2 port isPort).1 noWay
    | error why => exact ⟨why, (taken.unplaced (host, why)).mpr ⟨member, notSource, isPort⟩⟩
  · intro entry member
    obtain ⟨host, isHost, notSource, isAddress, isOk⟩ := taken.ports entry member
    exact ⟨host, isHost, notSource, isAddress, notUnplaced host _ isOk,
      ((portOf_spec holds).2 _ isOk).2⟩
  · intro entry member
    obtain ⟨isHost, notSource, _⟩ := (taken.unplaced entry).mp member
    exact ⟨isHost, notSource⟩

/-! ### Three switches in a row -/

namespace Row

def link (one : Nat) (onePort : Int) (other : Nat) (otherPort : Int) : TopoLink :=
  ⟨(one, .number onePort), (other, .number otherPort)⟩

def links : List TopoLink := [link 1 1 2 1, link 2 1 1 1, link 2 2 3 1, link 3 1 2 2]

def host (dpid : Nat) (port : Int) (address : Str) : TopoHost :=
  ⟨"00:00:00:00:00:0a".ascii, dpid, Nat.toDigits 16 dpid, .number port, [address]⟩

def hosts : List TopoHost := [host 1 3 "10.0.0.1".ascii, host 3 2 "10.0.0.3".ascii]

/-- The first host's address as it was once seen between two switches. -/
def between : TopoHost := host 2 2 "10.0.0.1".ascii

theorem links_numbered : ∀ one ∈ links, ∀ other ∈ links, sameKind one.src.2 other.src.2 := by
  decide

end Row

open Row in
theorem row_sends :
    ∃ placed : Placed,
      topologyPorts (.ok hosts) (.ok links) 1 "10.0.0.9".ascii =
          some ⟨true, [], placed.ports, placed.unplaced.map (fun entry => entry.2.words entry.1)⟩ ∧
        SendsEach hosts links 1 "10.0.0.9".ascii placed :=
  topologyPorts_sends hosts links 1 "10.0.0.9".ascii
    (fun one isOne other isOther _ _ _ => links_numbered one isOne other isOther)

open Row in
/-- A host on a link's port is not in exactly one: it is named, and every address it lists is in
the ports by the host that has it. -/
theorem shared_address_in_both :
    ∃ answer, topologyPorts (.ok (hosts ++ [between])) (.ok links) 1 "10.0.0.9".ascii =
        some answer ∧ "10.0.0.9".ascii ∉ between.ipv4 ∧ between.ipv4 ≠ [] ∧
      ¬ ((∀ address ∈ between.ipv4, address ∈ answer.ports.map Prod.fst) ↔
        Unplaced.linkPort.words between ∉ answer.unplaced) := by
  refine ⟨⟨true, [], [("10.0.0.1".ascii, .number 3), ("10.0.0.3".ascii, .number 1)],
    ["10.0.0.1 (listed on an inter-switch link port)".ascii]⟩, by decide +kernel,
    by decide +kernel, by decide +kernel, ?_⟩
  decide +kernel

end Nmas.Sdn.ClosedLoop
