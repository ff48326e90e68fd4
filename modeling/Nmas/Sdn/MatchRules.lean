import Nmas.Sdn.FlowIntent.Classify

/-!
Contract: the match prerequisites of OpenFlow 1.3, held before a flow is sent.

Owns: `sdn/match_rules.py`, what of a match or of its set-field actions breaks
them.

Does not own: the words of a problem, or the order they are said in.
-/

namespace Nmas.Sdn.MatchRules

open Nmas.Text
open Nmas.Sdn.FlowIntent (fieldKind splitMask)

def ethIpv4 : Int := 0x0800
def ethIpv6 : Int := 0x86dd
def ethArp : Int := 0x0806
def ethMpls : Int := 0x8847
def ethMplsMulticast : Int := 0x8848
def ethPbb : Int := 0x88e7

/-- A row of `PREREQUISITES`: the field needed, and the values it may hold. -/
structure Prerequisite where
  needed : Field
  values : Option (List Int)

/-- `PREREQUISITES`. -/
def prerequisite : Field → Option Prerequisite
  | .inPhyPort => some ⟨.inPort, none⟩
  | .vlanPcp => some ⟨.vlanVid, none⟩
  | .ipDscp | .ipEcn | .ipProto => some ⟨.ethType, some [ethIpv4, ethIpv6]⟩
  | .ipv4Src | .ipv4Dst => some ⟨.ethType, some [ethIpv4]⟩
  | .tcpSrc | .tcpDst => some ⟨.ipProto, some [6]⟩
  | .udpSrc | .udpDst => some ⟨.ipProto, some [17]⟩
  | .sctpSrc | .sctpDst => some ⟨.ipProto, some [132]⟩
  | .icmpv4Type | .icmpv4Code => some ⟨.ipProto, some [1]⟩
  | .arpOp | .arpSpa | .arpTpa | .arpSha | .arpTha => some ⟨.ethType, some [ethArp]⟩
  | .ipv6Src | .ipv6Dst | .ipv6Flabel | .ipv6Exthdr => some ⟨.ethType, some [ethIpv6]⟩
  | .icmpv6Type | .icmpv6Code => some ⟨.ipProto, some [58]⟩
  | .ipv6NdTarget => some ⟨.icmpv6Type, some [135, 136]⟩
  | .ipv6NdSll => some ⟨.icmpv6Type, some [135]⟩
  | .ipv6NdTll => some ⟨.icmpv6Type, some [136]⟩
  | .mplsLabel | .mplsTc | .mplsBos => some ⟨.ethType, some [ethMpls, ethMplsMulticast]⟩
  | .pbbIsid => some ⟨.ethType, some [ethPbb]⟩
  | _ => none

def family : Field → Option Int
  | .icmpv4Type | .icmpv4Code => some ethIpv4
  | .icmpv6Type | .icmpv6Code => some ethIpv6
  | _ => none

/-- `V6_FIELDS`, of the fields that hold an address. -/
def holdsV6 : Field → Bool
  | .ipv6Src | .ipv6Dst | .ipv6NdTarget => true
  | _ => false

/-- What `problems` names. -/
inductive Problem where
  | value (field : Field)
  | missing (field needed : Field)
  | needs (field needed : Field)
  | family (field : Field)
deriving DecidableEq

section Rules

variable [Unicode] [Readers]

def number : Value → Option Int
  | .int number => some number
  | .text written => Readers.int 0 (strip written)
  | .bool _ | .json _ => none

/-- A field's value, as `normalise` leaves it. -/
def normalised (field : Field) : Value → Value
  | .text written =>
    match fieldKind field with
    | .int => ((Readers.int 0 (strip written)).map Value.int).getD (.text written)
    | _ => .text written
  | other => other

def normalise (fields : Match) : Match :=
  fields.map (fun entry => (entry.1, normalised entry.1 entry.2))

def addressRead (text : Str) : Option Address :=
  match splitMask text with
  | (written, none) => Readers.ipAddress written
  | (written, some mask) =>
    (Readers.ipAddress written).bind (fun got =>
      if mask ≠ [] ∧ mask.all isDecimal then (Readers.ipNetwork text).map (fun _ => got)
      else (Readers.ipAddress mask).bind (fun netmask =>
        if netmask.isV6 = got.isV6 then some got else none))

/-- `[0-9a-f]{2}(:[0-9a-f]{2}){5}`, as far as `pairs` more. -/
def macShape : (pairs : Nat) → Str → Bool
  | 0, high :: low :: rest => isHex high && isHex low && (rest = [] || rest = ['\n'])
  | pairs + 1, high :: low :: ':' :: rest => isHex high && isHex low && macShape pairs rest
  | _, _ => false
where
  isHex (c : Char) : Bool := c.isDigit || ('a' ≤ c && c ≤ 'f')

/-- `_value_problem` finds one. -/
def valueProblem (field : Field) (value : Value) : Bool :=
  match fieldKind field with
  | .int => !(number value).any (0 ≤ ·)
  | .address =>
    match addressRead (strip value.str) with
    | some got => got.isV6 != holdsV6 field
    | none => true
  | .mac =>
    match splitMask (lowered (strip value.str)) with
    | (mac, none) => !macShape 5 mac
    | (mac, some mask) => !(macShape 5 mac && macShape 5 mask)
  | .asWritten => false

def need (field : Field) (match_ : Match) : Option Problem :=
  (prerequisite field).bind (fun rule =>
    match match_.get rule.needed with
    | none => some (.missing field rule.needed)
    | some held =>
      if rule.values.any (fun values => !(number held).any (· ∈ values)) then
        some (.needs field rule.needed)
      else if (family field).any (fun wanted =>
          (match_.get .ethType).any (fun ethType => number ethType ≠ some wanted)) then
        some (.family field)
      else none)

def problems (match_ : Match) : List Problem :=
  match_.flatMap (fun entry =>
    (if valueProblem entry.1 entry.2 then [.value entry.1] else []) ++ (need entry.1 match_).toList)

def appliedProblems (match_ : Match) : Applied → List Problem
  | .setField field value =>
    (if valueProblem field value then [.value field] else []) ++ (need field match_).toList
  | _ => []

def setFieldProblems (match_ : Match) (actions : List Action) : List Problem :=
  actions.flatMap (fun action =>
    match action with
    | .apply applied => appliedProblems match_ applied
    | .writeActions inner => inner.flatMap (appliedProblems match_)
    | _ => [])

end Rules

def isTableMiss (flow : Flow) : Bool := flow.priority = 0 && flow.match_ = []

end Nmas.Sdn.MatchRules
