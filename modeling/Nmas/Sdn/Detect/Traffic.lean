import Mathlib.Algebra.GroupWithZero.Nat
import Mathlib.Data.Rat.Defs
import Mathlib.Data.List.Sort
import Nmas.Log.Keyed
import Nmas.Sdn.Flow

/-!
Contract: what a collection shows of the traffic entering a port.

Owns: a collection (`closed_loop.collect_threat_data`) and the controllers'
topology as the rules read them, and from `sdn/detect.py` the helpers that name
addresses, sources and destinations, with the shape of a transfer.

A time is whole seconds (`alert_history.epoch`), a rate or a share an exact
fraction. The words a detection carries are left out.
-/

namespace Nmas.Sdn.Detect

open Nmas.Text

abbrev Time := Int

/-- A switch port: its number, or `LOCAL`. -/
inductive PortNo where
  | number (number : Nat)
  | «local»
deriving DecidableEq

def PortNo.value : PortNo → Value
  | .number n => .int n
  | .local => .text "LOCAL".ascii

/-- A port's counters read twice; the rates only when both reads could be
compared (`closed_loop._rates`). -/
structure Port where
  portNo : PortNo
  id : Str
  rxPps : Option ℚ
  rxBytesPerS : Option ℚ

structure Coverage where
  scanByPorts : Bool

structure Switch where
  dpid : Nat
  dpidHex : Str
  flows : List ReadFlow
  /-- None when the table was not read. -/
  activeFlows : Option Nat
  coverage : Option Coverage
  ports : List Port

structure Controller where
  connection : Str
  ownCookies : List Nat
  switches : List Switch

inductive CollectionState where
  | ok
  | partial_
  | unreadable
  | none
deriving DecidableEq

structure Collected where
  network : Str
  collectedAt : Option Time
  state : CollectionState
  controllers : List Controller

def switches (collected : Collected) : List (Controller × Switch) :=
  collected.controllers.flatMap (fun controller =>
    controller.switches.map (fun switch => (controller, switch)))

/-! ### What a match names -/

inductive Side where
  | src
  | dst

def Side.ipv4 : Side → Field
  | .src => .ipv4Src
  | .dst => .ipv4Dst

def Side.ipv6 : Side → Field
  | .src => .ipv6Src
  | .dst => .ipv6Dst

def Side.eth : Side → Field
  | .src => .ethSrc
  | .dst => .ethDst

section Names

variable [Readers]

/-- `ipaddress.ip_address(text.strip()).compressed`. -/
def hostText (text : Str) : Option Str := (Readers.ipAddress (strip text)).map Readers.compressed

/-- `_address`. A text without a mask decides, whether it reads or not. -/
def address (fields : Match) (side : Side) : Option Str :=
  match fields.get side.ipv4 with
  | some (.text value) => if '/' ∈ value then fromV6 else hostText value
  | _ => fromV6
where
  fromV6 : Option Str :=
    match fields.get side.ipv6 with
    | some (.text value) => if '/' ∈ value then none else hostText value
    | _ => none

def dstPort (fields : Match) : Option Str :=
  match fields.get .tcpDst, fields.get .udpDst with
  | some value, _ => some (say "tcp/".ascii value)
  | none, some value => some (say "udp/".ascii value)
  | none, none => none
where
  say (proto : Str) (value : Value) : Str :=
    match Readers.int 10 (strip value.str) with
    | some number => proto ++ showInt number
    | none => proto ++ value.str

def inPort (fields : Match) : Option Value :=
  (fields.get .inPort).map (fun value =>
    match value with
    | .int number => .int number
    | .bool value => .int (if value then 1 else 0)
    | .text text => ((Readers.int 10 text).map Value.int).getD (.text text)
    | .json text => .json text)

/-- `str(match.get(eth_<side>) or "").strip().lower()`, empty for none. -/
def mac (fields : Match) (side : Side) : Str :=
  ((fields.get side.eth).map (fun value => lowered (strip value.str))).getD []

end Names

/-! ### The controllers' topology -/

/-- A host, by the port its controller lists it on. -/
structure Host where
  mac : Str
  dpid : Nat
  portNo : Nat
  ipv4 : List Str
  ipv6 : List Str

/-- A link, by its two ends' switch and port. -/
structure Link where
  src : Nat × Nat
  dst : Nat × Nat

structure ControllerTopology where
  name : Str
  /-- None when this controller's topology could not be read. -/
  listed : Option (List Host × List Link)

/-- `topology.stored`, none when it could not be read. -/
abbrev Topology := Option (List ControllerTopology)

def Topology.of (topo : Topology) (connection : Str) : Option ControllerTopology :=
  (topo.getD []).find? (·.name = connection)

/-- `SOURCE_STATES`. -/
inductive SourceState where
  | named
  | several
  | none
  | noAddress
  | link
  | unread
deriving DecidableEq

structure PortSource where
  state : SourceState
  source : Option Str
  /-- Each host on the port with an address to match: its MAC and address. -/
  hosts : List (Str × Str)
deriving DecidableEq

section Topology

variable [Readers]

def hostAddress (host : Host) : Option Str :=
  ((host.ipv4 ++ host.ipv6).filterMap (fun value => Readers.ipAddress (strip value))).find?
      (fun found => !found.isUnspecified && !(found.isV6 && found.isLinkLocal))
    |>.map Readers.compressed

def addressed (hosts : List Host) : List (Str × Str) :=
  hosts.foldl (fun listed host =>
    match hostAddress host with
    | some found =>
      if found ∈ listed.map Prod.snd then listed
      else listed ++ [(lowered host.mac, found)]
    | none => listed) []

def portSource (topo : Topology) (connection : Str) (dpid : Nat) (port : PortNo) : PortSource :=
  match port with
  | .local => ⟨.none, none, []⟩
  | .number number =>
    match (topo.of connection).bind ControllerTopology.listed with
    | none => ⟨.unread, none, []⟩
    | some (hosts, links) =>
      if links.any (fun link => link.src = (dpid, number) ∨ link.dst = (dpid, number)) then
        ⟨.link, none, []⟩
      else
        match hosts.filter (fun host => (host.dpid, host.portNo) = (dpid, number)) with
        | [] => ⟨.none, none, []⟩
        | on =>
          match addressed on with
          | [] => ⟨.noAddress, none, []⟩
          | [one] => ⟨.named, some one.2, [one]⟩
          | several => ⟨.several, none, several⟩

/-- `_macs_hosts`: each listed MAC with its addresses. -/
def macsHosts (topo : Topology) (connection : Str) : List (Str × List Str) :=
  (((topo.of connection).bind ControllerTopology.listed).getD ([], [])).1.foldl
    (fun listed host =>
      (host.ipv4 ++ host.ipv6).foldl (fun listed value =>
        match Readers.ipAddress (strip value) with
        | some found =>
          if found.isUnspecified then listed
          else
            let mac := lowered host.mac
            let held := (listed.lookup mac).getD []
            let text := Readers.compressed found
            Log.put Prod.fst (mac, if text ∈ held then held else held ++ [text]) listed
        | none => listed) listed) []

/-! ### The flows entering a port -/

/-- `_entering`: most packets first. -/
def entering (switch : Switch) (portNo : PortNo) : List ReadFlow :=
  (switch.flows.filter (fun flow => inPort flow.match_ = some portNo.value)).insertionSort
    (fun one other => other.packetCount.getD 0 ≤ one.packetCount.getD 0)

def flowSources (flows : List ReadFlow) : List Str :=
  (flows.filterMap (fun flow => address flow.match_ .src)).eraseDups

/-- `_port_detection_source`: the source a detection on the port names, every
source its flows name, and how the topology was asked. -/
def portDetectionSource (flows : List ReadFlow) (topo : Topology) (connection : Str) (dpid : Nat)
    (port : PortNo) : Option Str × List Str × Option PortSource :=
  match flowSources flows with
  | [] =>
    let found := portSource topo connection dpid port
    (found.source, [], some found)
  | [one] => (some one, [one], none)
  | several => (none, several, none)

/-- `_targets`, in any order. -/
def targets (flows : List ReadFlow) : List Str :=
  (flows.filterMap (fun flow => address flow.match_ .dst)).dedup

/-- `dst_hosts`, in any order. -/
def dstHosts (flows : List ReadFlow) (topo : Topology) (connection : Str) : List Str :=
  (flows.flatMap (fun flow =>
    if (address flow.match_ .dst).isSome then []
    else (((macsHosts topo connection).lookup (mac flow.match_ .dst)).getD []).filter
      (fun text => !((Readers.ipAddress text).any Address.isLinkLocal)))).dedup

/-! ### The shape of a transfer -/

def packets (flows : List ReadFlow) : Nat := (flows.map (·.packetCount.getD 0)).sum

def meanBytes (flows : List ReadFlow) : Option ℚ :=
  if packets flows = 0 then none
  else some ((flows.map (·.byteCount.getD 0)).sum / packets flows)

/-- `_ends`, one side: an address with its host's MAC, or a MAC with its host's
addresses. -/
def endNames (flow : ReadFlow) (hosts : List (Str × List Str)) (side : Side) : List Str :=
  byAddress ++ byMac
where
  byAddress : List Str :=
    match address flow.match_ side with
    | some found =>
      -- The last host listed with an address is the one it is known by.
      found :: ((hosts.reverse.find? (found ∈ ·.2)).map Prod.fst).toList
    | none => []
  byMac : List Str :=
    let found := mac flow.match_ side
    if found = [] ∨ '/' ∈ found then [] else found :: (hosts.lookup found).getD []

def session (flow : ReadFlow) : Option (Str × Str × Str) := do
  let port ← (flow.match_.get .tcpDst).or (flow.match_.get .tcpSrc)
  let src ← address flow.match_ .src
  let dst ← address flow.match_ .dst
  return (src, dst, "tcp/".ascii ++ port.str)

/-- `_reverse`. -/
def reverses (hosts : List (Str × List Str)) (one other : ReadFlow) : Bool :=
  (endNames one hosts .src).any (· ∈ endNames other hosts .dst) &&
    (endNames one hosts .dst).any (· ∈ endNames other hosts .src)

def transferSessions : Nat := 4
def transferShare : ℚ := 9 / 10
def transferDataBytes : ℚ := 500
def transferAckBytes : ℚ := 100
def transferAckShare : ℚ := 3 / 10

inductive TransferSide where
  | data
  | acks
deriving DecidableEq

structure Transfer where
  side : TransferSide
  session : Str × Str × Str
deriving DecidableEq

def acksFor (flows : List ReadFlow) (hosts : List (Str × List Str)) (datas : List ReadFlow) :
    Bool :=
  let back := flows.filter (fun flow => flow ∉ datas ∧ datas.any (reverses hosts · flow))
  back ≠ [] && (meanBytes back).any (· ≤ transferAckBytes) &&
    transferAckShare * packets datas ≤ packets back

def transfer (switch : Switch) (portNo : PortNo) (topo : Topology) (connection : Str) :
    Option Transfer :=
  let flows := entering switch portNo
  let total := packets flows
  if total = 0 then none
  else
    let hosts := macsHosts topo connection
    let sessions := flows.filter (fun flow => (session flow).isSome)
    let keys := (sessions.filterMap session).eraseDups
    match keys with
    | key :: _ =>
      if keys.length ≤ transferSessions ∧ transferShare * total ≤ packets sessions ∧
          transferDataBytes ≤ (meanBytes sessions).getD 0 ∧
          acksFor switch.flows hosts sessions then
        some ⟨.data, key⟩
      else ofAcks hosts flows total
    | [] => ofAcks hosts flows total
where
  ofAcks (hosts : List (Str × List Str)) (flows : List ReadFlow) (total : Nat) :
      Option Transfer := do
    let top ← flows.head?
    if transferShare * total ≤ top.packetCount.getD 0 ∧
        (meanBytes [top]).getD (transferAckBytes + 1) ≤ transferAckBytes then
      let data ← switch.flows.find? (fun flow =>
        (session flow).isSome && reverses hosts top flow &&
          transferDataBytes ≤ (meanBytes [flow]).getD 0 &&
          transferAckShare * flow.packetCount.getD 0 ≤ top.packetCount.getD 0)
      return ⟨.acks, ← session data⟩
    else none

end Topology

end Nmas.Sdn.Detect
