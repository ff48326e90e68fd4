import Nmas.Text.Str
import Nmas.Text.Addresses

/-!
Owns: a flow entry in the drivers' one shape (`drivers/base.py`), as it is read
from a switch: its match, its actions and its counters.
-/

namespace Nmas.Sdn

open Nmas.Text

/-- `str.lower()` of an ASCII text. -/
def lowered (text : Str) : Str := text.map Char.toLower

/-- A key of a match: an OXM field by the name the specification gives it, or
any other name a controller answered. -/
inductive Field where
  | inPort | inPhyPort | metadata | ethDst | ethSrc | ethType | vlanVid | vlanPcp
  | ipDscp | ipEcn | ipProto | ipv4Src | ipv4Dst | tcpSrc | tcpDst | udpSrc | udpDst
  | sctpSrc | sctpDst | icmpv4Type | icmpv4Code | arpOp | arpSpa | arpTpa | arpSha | arpTha
  | ipv6Src | ipv6Dst | ipv6Flabel | icmpv6Type | icmpv6Code | ipv6NdTarget | ipv6NdSll
  | ipv6NdTll | mplsLabel | mplsTc | mplsBos | pbbIsid | tunnelId | ipv6Exthdr
  | other (name : Str)
deriving DecidableEq

/-- A value of a match or an action, as its JSON has it. -/
inductive Value where
  | int (number : Int)
  | text (text : Str)
  | bool (value : Bool)
  /-- Any other JSON, by its text. -/
  | json (text : Str)
deriving DecidableEq

/-- `str` of a number. -/
def showInt : Int → Str
  | .ofNat n => (Nat.toDigits 10 n)
  | .negSucc n => '-' :: (Nat.toDigits 10 (n + 1))

/-- `str(value)`. -/
def Value.str : Value → Str
  | .int number => showInt number
  | .text written => written
  | .bool value => if value then "True".ascii else "False".ascii
  | .json written => written

abbrev Match := List (Field × Value)

/-- `match.get(field)`. -/
def Match.get (field : Field) (fields : Match) : Option Value := List.lookup field fields

/-- The packet-changing actions without an argument, and those with one number. -/
inductive Change where
  | copyTtlOut | copyTtlIn | decMplsTtl | popVlan | decNwTtl | popPbb
  | pushVlan | pushMpls | popMpls | pushPbb | setMplsTtl | setNwTtl | setQueue
deriving DecidableEq

/-- An action, which `WRITE_ACTIONS` may hold too. -/
inductive Applied where
  | output (port : Value)
  | group (groupId : Value)
  | setField (field : Field) (value : Value)
  | change (type : Change) (argument : Option Value)
  /-- `UNPARSED`: kept with the controller's own text. -/
  | unparsed (text : Str)
deriving DecidableEq

/-- An entry of a flow's `actions`: an apply-action or an instruction. -/
inductive Action where
  | apply (action : Applied)
  | gotoTable (tableId : Value)
  | meter (meterId : Value)
  | writeMetadata (metadata metadataMask : Value)
  | writeActions (actions : List Applied)
  | clearActions
deriving DecidableEq

structure Flow where
  dpid : Nat
  tableId : Nat
  priority : Nat
  cookie : Nat
  match_ : Match
  actions : List Action
  idleTimeout : Nat
  hardTimeout : Nat
  packetCount : Option Nat
  byteCount : Option Nat
  durationSec : Option Nat
deriving DecidableEq

/-- A flow with its evidence id (`closed_loop.flow_ref`). -/
structure ReadFlow extends Flow where
  id : Str
deriving DecidableEq

end Nmas.Sdn
