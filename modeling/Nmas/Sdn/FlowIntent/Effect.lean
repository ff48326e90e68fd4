import Mathlib.Data.Finset.Basic
import Mathlib.Data.List.Sort
import Nmas.Sdn.FlowIntent.Matches

/-!
Contract: what an unauthorised flow does to the traffic it takes.

Owns: `sdn/flow_intent.py`, `effect` over a switch's table as read, with the
flows its answer rests on.

Does not own: which flows it displaced, or the words of the answer. The
bindings are the topology's addresses with their hosts' MACs.
-/

namespace Nmas.Sdn.FlowIntent

open Nmas.Text

/-- `EFFECTS`. -/
inductive Effect where
  | forwards
  | copiesToController
  | mirrors
  | diverts
  | drops
  | shadows
  | lifts
  | unknown
deriving DecidableEq

def effectNamed : Nat := 3

/-! ### What actions do -/

/-- What takes a packet beyond its table. -/
inductive Onward where
  | table (tableId : Value)
  | group (groupId : Value)
  | unread (text : Str)
deriving DecidableEq

/-- What actions do to a packet: the ports it leaves by, the meters, the changes
in their order, and what takes it onward. -/
structure Does where
  out : Finset Value
  meters : Finset Value
  rewrites : List Applied
  onward : List Onward
deriving DecidableEq

namespace Does

def nothing : Does := ⟨∅, ∅, [], []⟩

def applied (does : Does) : Applied → Does
  | .output port => { does with out := insert port does.out }
  | .group groupId => { does with onward := does.onward ++ [.group groupId] }
  | .unparsed text => { does with onward := does.onward ++ [.unread text] }
  | .setField field value => { does with rewrites := does.rewrites ++ [.setField field value] }
  | .change type argument => { does with rewrites := does.rewrites ++ [.change type argument] }

def controllerPort : Value := .text "CONTROLLER".ascii

def delivers (below does : Does) : Bool :=
  below.out ≠ ∅ && below.out ⊂ does.out && below.rewrites = does.rewrites

end Does

section Effect

variable [Unicode] [Readers]

def Does.performed (does : Does) (action : Action) : Does :=
  match normalAction action with
  | .apply action => does.applied action
  | .writeActions actions => (actions.map normalApplied).foldl Does.applied does
  | .gotoTable tableId => { does with onward := does.onward ++ [.table tableId] }
  | .meter meterId => { does with meters := insert meterId does.meters }
  | .writeMetadata _ _ | .clearActions => does

/-- `_does`. -/
def doesOf (actions : List Action) : Does := actions.foldl Does.performed .nothing

/-! ### The destination -/

/-- What `value or ""` reads as nothing. -/
def isFalsy : Value → Bool
  | .int number => number = 0
  | .text written => written = []
  | .bool value => !value
  | .json written => written ∈ ["null".ascii, "[]".ascii, "\x7b\x7d".ascii, "0.0".ascii]

/-- The text of a field, stripped; none when it is left out or empty. -/
def textOf (match_ : Match) (field : Field) : Option Str :=
  ((match_.get field).filter (!isFalsy ·)).bind (fun value =>
    if strip value.str = [] then none else some (strip value.str))

/-- `_bound_destination`'s MAC: that of the one host the match sends to by IP
alone, when the bindings list it. -/
def boundDestination (match_ : Match) (bindings : List (Str × Str)) : Option Str :=
  if bindings.isEmpty || (match_.get .ethDst).isSome ||
      (match_.get (.other "dl_dst".ascii)).isSome then none
  else
    ([.ipv4Dst, .ipv6Dst, .other "nw_dst".ascii].findSome? (textOf match_)).bind (fun raw =>
      (Readers.ipNetwork raw).bind (fun network =>
        if network.isOneAddress then
          (bindings.lookup (Readers.compressed network.networkAddress)).filter (· ≠ [])
        else none))

def boundMatch (match_ : Match) (bindings : List (Str × Str)) : Match :=
  match boundDestination match_ bindings with
  | some mac => Log.put Prod.fst (.ethDst, .text mac) match_
  | none => match_

/-! ### The table -/

def cookieHex (cookie : Nat) : Str :=
  let digits := Nat.toDigits 16 cookie
  "0x".ascii ++ List.replicate (16 - digits.length) '0' ++ digits

/-- A flow as the answer names it. -/
structure Piece where
  id : Str
  cookie : Nat
  actions : List Action
deriving DecidableEq

/-- A flow's evidence id, or its cookie where it has none. -/
def Piece.ref (piece : Piece) : Str := if piece.id ≠ [] then piece.id else cookieHex piece.cookie

def OwnedFlow.piece (flow : OwnedFlow) : Piece := ⟨flow.id, flow.cookie, flow.actions⟩

def OwnedFlow.ref (flow : OwnedFlow) : Str := flow.piece.ref

abbrev Row := OwnedFlow × ReadMatch

/-- The other rows of the flow's table, in the table's order; or the first whose
match cannot be read. -/
def readOthers (flow : OwnedFlow) (table : List OwnedFlow) : Except OwnedFlow (List Row) :=
  (table.filter (fun row => row.ref ≠ flow.ref && row.tableId = flow.tableId)).mapM (fun row =>
    match fields row.match_ with
    | .ok read => .ok (row, read)
    | .error _ => .error row)

def byPriority (rows : List Row) : List Row :=
  rows.insertionSort (fun one other => other.1.priority ≤ one.1.priority)

def coveredAbove (rows : List Row) (priority : Nat) (match_ : ReadMatch) : Option Row :=
  rows.find? (fun row => priority < row.1.priority && matchCovers row.2 match_)

def parts (flow : OwnedFlow) (mine : ReadMatch) (others : List Row) : List OwnedFlow :=
  (others.filter (fun row => row.1.priority < flow.priority &&
    (matchMeet mine row.2).any (fun both =>
      (coveredAbove others row.1.priority both).isNone))).map Prod.fst

def besides (flow : OwnedFlow) (mine : ReadMatch) (others : List Row) : List OwnedFlow :=
  (others.filter (fun row => row.1.priority = flow.priority &&
    (matchMeet mine row.2).isSome)).map Prod.fst

/-- What a part's flow tells of the traffic. -/
inductive Tells where
  | decided
  | controller
  | nothing
deriving DecidableEq

def tells (row : OwnedFlow) : Tells :=
  match row.owner with
  | .mercury => .decided
  | .controllerOwn =>
    if (doesOf row.actions).onward ≠ [] then .nothing
    else if (doesOf row.actions).out = {Does.controllerPort} then .controller
    else .decided
  | .mercuryDiffers | .unauthorised => .nothing

/-! ### The answer -/

structure EffectAnswer where
  cls : Effect
  evidence : List Str
deriving DecidableEq

/-- `answer`. -/
def answerOf (cls : Effect) (ids : List Str) : EffectAnswer :=
  ⟨cls, (ids.filter (· ≠ [])).eraseDups⟩

def named (rows : List OwnedFlow) : List Str := (rows.map OwnedFlow.ref).take effectNamed

def namedPieces (pieces : List Piece) : List Str := (pieces.map Piece.ref).take effectNamed

/-- `keeps`: Mercury's drop or meter is kept. -/
def keeps (does : Does) (piece : Piece) : Bool :=
  let mercury := doesOf piece.actions
  !(mercury.out = ∅ && mercury.onward = [] && does.out ≠ ∅) && mercury.meters \ does.meters = ∅

/-- The answer from what the parts tell: Mercury's flows first, then how the
others' delivery compares. -/
def compare (flow : OwnedFlow) (does : Does) (displacedFlows : List Piece)
    (beside taken : List OwnedFlow) : EffectAnswer :=
  let mercury := displacedFlows ++ (taken.filter (·.owner = .mercury)).map OwnedFlow.piece
  let decided := taken.filter (tells · = .decided)
  let controller := taken.filter (tells · = .controller)
  let cannot := beside ++ taken.filter (tells · = .nothing)
  let rest := named controller
  let lifted := mercury.filter (fun piece => !keeps does piece)
  let shadowed := mercury.filter (fun piece => !sameActions piece.actions flow.actions)
  let elsewhere := decided.filter (fun row => (doesOf row.actions).out ≠ does.out)
  let kept := elsewhere.filter (fun row => (doesOf row.actions).delivers does)
  let diverted := elsewhere.filter (· ∉ kept)
  let rewritten := decided.filter (fun row => (doesOf row.actions).rewrites ≠ does.rewrites)
  let mirrored := kept.filter (fun row =>
    (does.out \ (doesOf row.actions).out) \ {Does.controllerPort} ≠ ∅)
  if lifted ≠ [] then answerOf .lifts (namedPieces lifted)
  else if shadowed ≠ [] then answerOf .shadows (namedPieces shadowed)
  else if does.out = ∅ then
    answerOf .drops ((if decided ≠ [] then named decided else named cannot) ++ rest)
  else if diverted ≠ [] then answerOf .diverts (named elsewhere ++ named kept ++ rest)
  else if rewritten ≠ [] then answerOf .unknown (named rewritten)
  else if mirrored ≠ [] then answerOf .mirrors (named mirrored ++ rest)
  else if kept ≠ [] then answerOf .copiesToController (named kept ++ rest)
  else if decided ≠ [] then answerOf .forwards (named decided ++ rest)
  else answerOf .unknown (rest ++ named cannot)

/-- `effect`, of matches that could be read. -/
def effectAmong (flow : OwnedFlow) (displacedFlows : List Piece) (mine : ReadMatch)
    (others : List Row) : EffectAnswer :=
  let moved := displacedFlows.map Piece.id
  match coveredAbove others flow.priority mine with
  | some row => answerOf .unknown (row.1.ref :: moved)
  | none =>
    if (doesOf flow.actions).onward ≠ [] then answerOf .unknown moved
    else compare flow (doesOf flow.actions) displacedFlows (besides flow mine others)
      (parts flow mine others)

def effect (flow : OwnedFlow) (table : List OwnedFlow) (displacedFlows : List Piece)
    (bindings : List (Str × Str)) : EffectAnswer :=
  let moved := displacedFlows.map Piece.id
  match fields (boundMatch flow.match_ bindings) with
  | .error _ => answerOf .unknown moved
  | .ok mine =>
    match readOthers flow table with
    | .error row => answerOf .unknown (row.ref :: moved)
    | .ok others => effectAmong flow displacedFlows mine (byPriority others)

end Effect

end Nmas.Sdn.FlowIntent
