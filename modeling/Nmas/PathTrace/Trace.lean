import Mathlib.Data.Char
import Mathlib.Data.List.Lex
import Mathlib.Data.List.Sort
import Nmas.Text.Addresses
import Nmas.Text.Str

/-!
Contract: the path packets take to an address, followed level by level.

Owns: `parse_cef`, `trace` and `_end` of `path_trace.py`: what a device's answer
says, the devices asked at each level, the branches and how each ends.

A call of `read` answers each device with its text, or not; what it answers may
depend on the calls before it. Does not own: the words of answers, hops and
ends; `owners`; the reads and the record of the job.
-/

namespace Nmas.PathTrace

open Nmas.Text

def maxBranches : Nat := 8

def maxHops : Nat := 16

/-! ### One answer -/

structure NextHop where
  address : Str
  iface : Str
deriving DecidableEq

/-- The states of `parse_cef`, and `unread` of a device that was not read. -/
inductive CefState where
  | next
  | attached
  | receive
  | noRoute
  | drop
  | unknown
  | unread
deriving DecidableEq

structure Cef where
  state : CefState
  hops : List NextHop
  iface : Str
deriving DecidableEq

def behind (lead line : Str) : Option Str :=
  (afterPrefix lead (lstrip line)).bind (fun rest =>
    if startsIndented rest then some (lstrip rest) else none)

def visibles (text : Str) : Str := text.takeWhile (fun c => !isSpace c)

def nexthop (line : Str) : Option (Str × Str) :=
  (behind "nexthop".ascii line).bind (fun rest =>
    let address := visibles rest
    let iface := visibles (lstrip (rest.drop address.length))
    if address = [] ∨ iface = [] then none else some (address, iface))

def commaHop (lead : Str) (inAddress starts inIface : Char → Bool) (line : Str) :
    Option (Str × Str) :=
  (behind lead line).bind (fun rest =>
    let address := rest.takeWhile inAddress
    (afterPrefix ",".ascii (rest.drop address.length)).bind (fun rest =>
      let iface := (lstrip rest).takeWhile inIface
      if address = [] ∨ iface.head?.all (fun c => !starts c) then none else some (address, iface)))

def nextHop (line : Str) : Option (Str × Str) :=
  commaHop "next hop".ascii (fun c => c ≠ ',' && !isSpace c) (fun _ => true)
    (fun c => !isSpace c) line

def via (line : Str) : Option (Str × Str) :=
  commaHop "via".ascii (fun c => c.isDigit || c = '.') Char.isAlpha
    (fun c => c ≠ ',' && !isSpace c) line

/-- `_ATTACHED`. -/
def attachedTo (line : Str) : Option Str :=
  ((behind "attached to".ascii line).or (behind "connected to".ascii line)).bind (fun rest =>
    if visibles rest = [] then none else some (visibles rest))

def afterFirst (mark : Str) : Str → Str
  | [] => []
  | c :: rest => (afterPrefix mark (c :: rest)).getD (afterFirst mark rest)

variable [Readers]

/-- `str(ipaddress.IPv4Address(text))`. -/
def ipv4 (text : Str) : Option Str :=
  (Readers.ipAddress text).bind (fun address =>
    if address.isV6 then none else some (Readers.compressed address))

def Cef.readLine (cef : Cef) (line : Str) : Cef :=
  match (nexthop line).or ((nextHop line).or (via line)) with
  | some (written, iface) =>
    match ipv4 written with
    | none => cef
    | some address =>
      if ⟨address, iface⟩ ∈ cef.hops then cef
      else { cef with hops := cef.hops ++ [⟨address, iface⟩] }
  | none =>
    let low := (strip line).map Char.toLower
    match if cef.state = .unknown then attachedTo line else none with
    | some iface => { cef with state := .attached, iface := iface }
    | none =>
      if "receive".ascii.isPrefixOf low then
        { cef with state := .receive, iface := afterFirst " for ".ascii low }
      else if low = "no route".ascii then { cef with state := .noRoute }
      else if low ∈ ["drop".ascii, "discard".ascii, "null".ascii] ∨
          "attached to null".ascii.isPrefixOf low then
        { cef with state := .drop }
      else cef

def parseCef (text : Str) : Cef :=
  match (splitlines text).filter (fun line => strip line ≠ []) with
  | [] => ⟨.unknown, [], []⟩
  | first :: rest =>
    if "%".ascii.isPrefixOf (lstrip first) then ⟨.unknown, [], []⟩
    else
      let cef := (rest.map rstrip).foldl Cef.readLine ⟨.unknown, [], []⟩
      if cef.hops ≠ [] ∧ cef.state = .unknown then { cef with state := .next } else cef

/-! ### The trace -/

/-- What a trace is asked; `ownerOf` is empty where no device holds an address. -/
structure Given where
  source : Str
  dest : Str
  ownerOf : Str → Str
  managed : Str → Bool

def Given.destOwner (given : Given) : Str := given.ownerOf given.dest

/-- Where a hop hands the packet: the device, its address, and the interface out. -/
structure Leaves where
  to_ : Str
  toAddress : Str
  iface : Str
deriving DecidableEq

structure Hop where
  device : Str
  answer : Cef
  leaves : Option Leaves
deriving DecidableEq

inductive End_ where
  | delivered
  | dropped
  | unread
  | loop
  | edge
  | bounded
deriving DecidableEq

/-- `RANK` of `ENDS`. -/
def End_.rank : End_ → Nat
  | .delivered => 2
  | .edge => 1
  | _ => 0

/-- `_end`. -/
structure Branch where
  hops : List Hop
  end_ : End_
deriving DecidableEq

structure Active where
  hops : List Hop
  at_ : Str
  seen : List Str
deriving DecidableEq

/-- A call of `read`, by its number: what it answers each device it is asked for. -/
abbrev Read := Nat → List Str → Str → Option Str

def answerOf (got : Str → Option Str) (device : Str) : Cef :=
  match got device with
  | some text => parseCef text
  | none => ⟨.unread, [], []⟩

def Active.toward (given : Given) (cef : Cef) (way : Active) (hop : NextHop) : Branch ⊕ Active :=
  let owner := given.ownerOf hop.address
  let branch := way.hops ++ [⟨way.at_, cef, some ⟨owner, hop.address, hop.iface⟩⟩]
  if owner = [] then .inl ⟨branch, .edge⟩
  else if owner = given.destOwner then .inl ⟨branch, .delivered⟩
  else if owner ∈ way.seen then .inl ⟨branch, .loop⟩
  else if !given.managed owner then .inl ⟨branch, .edge⟩
  else if maxHops ≤ branch.length then .inl ⟨branch, .bounded⟩
  else .inr ⟨branch, owner, way.seen ++ [owner]⟩

/-- What becomes of a branch at its device's answer. -/
def Active.goes (given : Given) (cef : Cef) (way : Active) : List (Branch ⊕ Active) :=
  let ends := fun leaves end_ => [.inl ⟨way.hops ++ [⟨way.at_, cef, leaves⟩], end_⟩]
  if cef.state = .unread then ends none .unread
  else if cef.state = .receive ∨ (given.destOwner ≠ [] ∧ given.destOwner = way.at_) then
    ends none .delivered
  else
    match cef.state with
    | .attached => ends (some ⟨given.destOwner, given.dest, cef.iface⟩) .delivered
    | .noRoute | .drop => ends none .dropped
    | .next => cef.hops.map (way.toward given cef)
    | _ => ends none .unread

structure Level where
  answers : Str → Option Cef
  order : List (List Str)
  active : List Active
  done : List Branch

def begins (given : Given) : Level := ⟨fun _ => none, [], [⟨[], given.source, [given.source]⟩], []⟩

namespace Level

def need (level : Level) : List Str :=
  let unasked := (level.active.map (·.at_)).filter (fun device => (level.answers device).isNone)
  unasked.dedup.insertionSort (· ≤ ·)

/-- The devices of a level not asked yet are asked at once. -/
def ask (read : Read) (level : Level) : Level :=
  if level.need = [] then level
  else
    { level with
      answers := fun device =>
        if device ∈ level.need then some (answerOf (read level.order.length level.need) device)
        else level.answers device
      order := level.order ++ [level.need] }

def goes (given : Given) (level : Level) : List (Branch ⊕ Active) :=
  level.active.flatMap (fun way =>
    way.goes given ((level.answers way.at_).getD ⟨.unread, [], []⟩))

/-- Each branch goes on or ends, and those past `MAX_BRANCHES` are cut. -/
def follow (given : Given) (level : Level) : Level :=
  let done := level.done ++ (level.goes given).filterMap Sum.getLeft?
  let room := maxBranches - done.length
  let next := (level.goes given).filterMap Sum.getRight?
  { level with
    active := next.take room
    done := done ++ (next.drop room).map (fun way => ⟨way.hops, .bounded⟩) }

def turn (given : Given) (read : Read) (level : Level) : Level := (level.ask read).follow given

/-- The loop, for at most so many turns. -/
def untilDone (given : Given) (read : Read) : (turns : Nat) → Level → Option Level
  | 0, level => if level.active = [] then some level else none
  | turns + 1, level =>
    if level.active = [] then some level else untilDone given read turns (level.turn given read)

end Level

structure Traced where
  branches : List Branch
  readOrder : List (List Str)
  delivered : Nat

def Branch.before (one other : Branch) : Bool :=
  if one.end_.rank ≠ other.end_.rank then other.end_.rank < one.end_.rank
  else one.hops.map (·.device) ≤ other.hops.map (·.device)

def trace (given : Given) (read : Read) : Option Traced :=
  (Level.untilDone given read maxHops (begins given)).map (fun level =>
    { branches := level.done.insertionSort (fun one other => one.before other)
      readOrder := level.order
      delivered := level.done.countP (fun branch => branch.end_ = .delivered) })

end Nmas.PathTrace
