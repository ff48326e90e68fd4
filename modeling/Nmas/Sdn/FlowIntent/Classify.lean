import Nmas.Sdn.Flow

/-!
Contract: whose each installed flow is.

Owns: `sdn/flow_intent.py`, the canonical forms a match and actions are
compared in, what of an installed flow is not its record's, and `classify`.

Does not own: the intent log itself, or the words an answer carries. A recorded
flow is `classify`'s record; its cookie names it.
-/

namespace Nmas.Sdn.FlowIntent

open Nmas.Text

/-! ### The canonical forms -/

/-- How a field's values are compared: `_INT_FIELDS`, `_ADDRESS_FIELDS` and
`_MAC_FIELDS`. -/
inductive FieldKind where
  | int
  | address
  | mac
  | asWritten
deriving DecidableEq

def fieldKind : Field → FieldKind
  | .inPort | .inPhyPort | .ethType | .vlanVid | .vlanPcp | .ipDscp | .ipEcn | .ipProto
  | .tcpSrc | .tcpDst | .udpSrc | .udpDst | .sctpSrc | .sctpDst | .icmpv4Type | .icmpv4Code
  | .arpOp | .icmpv6Type | .icmpv6Code | .mplsLabel | .mplsTc | .mplsBos | .ipv6Flabel
  | .pbbIsid | .tunnelId | .metadata | .ipv6Exthdr => .int
  | .ipv4Src | .ipv4Dst | .arpSpa | .arpTpa | .ipv6Src | .ipv6Dst | .ipv6NdTarget => .address
  | .ethSrc | .ethDst | .arpSha | .arpTha | .ipv6NdSll | .ipv6NdTll => .mac
  | .other _ => .asWritten

/-- `text.partition("/")`: the text before the slash, and the mask after it. -/
def splitMask (text : Str) : Str × Option Str :=
  match text.dropWhile (· ≠ '/') with
  | [] => (text, none)
  | _ :: mask => (text.takeWhile (· ≠ '/'), some mask)

section Values

variable [Unicode] [Readers]

def prefixLen (mask : Str) : Option Nat :=
  if mask ≠ [] ∧ mask.all isDecimal then (Readers.int 10 mask).map Int.toNat
  else do
    let found ← Readers.ipAddress mask
    (List.range (found.maxPrefixlen + 1)).find? (fun length =>
      found.number = (2 ^ length - 1) <<< (found.maxPrefixlen - length))

/-- `_address`. -/
def canonicalAddress (value : Str) : Str :=
  let text := lowered (strip value)
  match splitMask text with
  | (written, none) => ((Readers.ipAddress written).map Readers.compressed).getD text
  | (written, some mask) =>
    match prefixLen mask with
    | none => text
    | some length =>
      match Readers.ipNetwork (written ++ '/' :: Nat.toDigits 10 length) with
      | none => text
      | some net =>
        if length = net.networkAddress.maxPrefixlen then
          Readers.compressed net.networkAddress
        else Readers.compressedNetwork net

/-- `_value`. -/
def canonicalValue (field : Field) : Value → Value
  | .text written =>
    match fieldKind field with
    | .int => ((Readers.int 0 (strip written)).map Value.int).getD (.text written)
    | .address => .text (canonicalAddress written)
    | .mac => .text (lowered (strip written))
    | .asWritten => .text written
  | other => other

/-- `normal_match`, without its order. -/
def normalMatch (fields : Match) : Match :=
  fields.map (fun entry => (entry.1, canonicalValue entry.1 entry.2))

/-- `_action` of an action. -/
def normalApplied : Applied → Applied
  | .output (.text port) =>
    .output (if port ≠ [] ∧ port.all isDecimal then
        ((Readers.int 10 port).map Value.int).getD (.text port)
      else .text port)
  | .setField field value => .setField field (canonicalValue field value)
  | other => other

/-- `_action`. -/
def normalAction : Action → Action
  | .apply action => .apply (normalApplied action)
  | .writeActions actions => .writeActions (actions.map normalApplied)
  | other => other

/-- `INSTRUCTION_TYPES`. -/
def isInstruction : Action → Bool
  | .apply _ => false
  | _ => true

/-- `normal_actions`: the instructions, in any order, and the apply-actions in
theirs. -/
def normalActions (actions : List Action) : List Action × List Action :=
  ((actions.map normalAction).filter isInstruction,
    (actions.map normalAction).filter (fun action => !isInstruction action))

/-- `normal_actions(one) == normal_actions(other)`. -/
def sameActions (one other : List Action) : Bool :=
  (normalActions one).1.isPerm (normalActions other).1 &&
    (normalActions one).2 == (normalActions other).2

/-- `normal_match(one) == normal_match(other)`. -/
def sameMatch (one other : Match) : Bool :=
  ((normalMatch one ++ normalMatch other).map Prod.fst).all (fun field =>
    (normalMatch one).get field = (normalMatch other).get field)

/-! ### Records and owners -/

/-- A flow recorded as installed, or the record of its withdrawal. -/
structure Record where
  cookie : Nat
  connection : Str
  installed : Bool
  dpid : Nat
  tableId : Nat
  priority : Nat
  match_ : Match
  actions : List Action
  installedAt : Option Int
  hardTimeout : Nat
  idleTimeout : Nat
deriving DecidableEq

/-- `intent()`'s answer: the records, none when they could not be read. -/
abbrev Intent := Option (List Record)

/-- `differences` finds none. -/
def asRecorded (record : Record) (flow : Flow) : Bool :=
  record.dpid = flow.dpid && record.tableId = flow.tableId && record.priority = flow.priority &&
    sameMatch record.match_ flow.match_ && sameActions record.actions flow.actions

/-- `_OWNER_WORDS`' keys. -/
inductive Owner where
  | mercury
  | mercuryDiffers
  | controllerOwn
  | unauthorised
deriving DecidableEq

/-- `records.get(cookie)`: the last record of a cookie on the connection. -/
def recordOf (records : List Record) (connection : Str) (cookie : Nat) : Option Record :=
  records.reverse.find? (fun record =>
    record.installed && record.connection = connection && record.cookie = cookie)

/-- `classify`, of one flow. -/
def owner (records : List Record) (connection : Str) (ownCookies : List Nat) (flow : Flow) :
    Owner :=
  match recordOf records connection flow.cookie with
  | some record => if asRecorded record flow then .mercury else .mercuryDiffers
  | none => if flow.cookie ∈ ownCookies then .controllerOwn else .unauthorised

/-- A row of `classify`'s flows. -/
structure OwnedFlow extends ReadFlow where
  owner : Owner
deriving DecidableEq

/-- `classify`'s flows. -/
def classify (records : List Record) (connection : Str) (ownCookies : List Nat)
    (flows : List ReadFlow) : List OwnedFlow :=
  flows.map (fun flow => ⟨flow, owner records connection ownCookies flow.toFlow⟩)

end Values

end Nmas.Sdn.FlowIntent
