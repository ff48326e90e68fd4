import Nmas.Text.Str

/-!
Contract: the patterns of the interpreter's `re`, as a backtracking match.

A pattern's matches at a spot are listed in the order the engine tries them, so
the first one is the engine's. A repetition goes on only where its body took
something.

Owns: the constructs the modelled patterns are written in. Does not own: flags,
back references, and repetitions that give up characters first.
-/

namespace Nmas.Text

inductive Regex where
  | lit (text : Str)
  | one (accepts : Char → Bool)
  | seq (first second : Regex)
  | either (first second : Regex)
  /-- `*`, taking as much as it can. -/
  | many (body : Regex)
  /-- `^`. -/
  | start
  /-- `$`: at the end, or before a line feed there. -/
  | stop
  /-- `\b`. -/
  | edge
  /-- `(?P<name>...)`. -/
  | named (body : Regex)
  /-- `(?!...)`. -/
  | notAhead (body : Regex)
  /-- `(?<!...)` of one character. -/
  | notBehind (rejects : Char → Bool)

namespace Regex

structure Spot where
  before : Option Char
  rest : Str
  name : Option Str

/-- The spot after the next `length` characters. -/
def Spot.skip (spot : Spot) (length : Nat) : Spot where
  before := (spot.rest.take length).getLast?.or spot.before
  rest := spot.rest.drop length
  name := spot.name

/-- A body again and again, at most `room` times. -/
def again (body : Spot → List Spot) : (room : Nat) → Spot → List Spot
  | 0, spot => [spot]
  | room + 1, spot =>
    ((body spot).filter (fun next => next.rest.length < spot.rest.length)).flatMap
      (again body room) ++ [spot]

variable [Unicode]

def ends : Regex → Spot → List Spot
  | lit text, spot => if text.isPrefixOf spot.rest then [spot.skip text.length] else []
  | one accepts, spot => if spot.rest.head?.any accepts then [spot.skip 1] else []
  | seq first second, spot => (first.ends spot).flatMap second.ends
  | either first second, spot => first.ends spot ++ second.ends spot
  | many body, spot => again body.ends spot.rest.length spot
  | start, spot => if spot.before.isNone then [spot] else []
  | stop, spot => if spot.rest = [] ∨ spot.rest = ['\n'] then [spot] else []
  | edge, spot => if spot.before.any isWord ≠ spot.rest.head?.any isWord then [spot] else []
  | named body, spot => (body.ends spot).map (fun next =>
    { next with name := some (spot.rest.take (spot.rest.length - next.rest.length)) })
  | notAhead body, spot => if (body.ends spot).isEmpty then [spot] else []
  | notBehind rejects, spot => if spot.before.any rejects then [] else [spot]

def searchFrom (regex : Regex) (before : Option Char) : Str → Option Spot
  | [] => (regex.ends ⟨before, [], none⟩).head?
  | c :: rest =>
    ((regex.ends ⟨before, c :: rest, none⟩).head?).orElse (fun _ => searchFrom regex (some c) rest)

def search (regex : Regex) (text : Str) : Option Spot := regex.searchFrom none text

def found (regex : Regex) (text : Str) : Bool := (regex.search text).isSome

def groupName (regex : Regex) (text : Str) : Option Str := (regex.search text).bind Spot.name

/-- The first `room` matches of a pattern that takes something, each with its group's text. -/
def namesFrom (regex : Regex) : (room : Nat) → (before : Option Char) → Str → List Str
  | 0, _, _ => []
  | room + 1, before, text =>
    match regex.searchFrom before text with
    | none => []
    | some spot => spot.name.toList ++ namesFrom regex room spot.before spot.rest

/-- `re.findall` of a pattern with one group that takes something. -/
def findNames (regex : Regex) (text : Str) : List Str := regex.namesFrom text.length none text

end Regex

namespace Regex

/-- The nothing between two characters. -/
def nothing : Regex := lit []

def all (patterns : List Regex) : Regex := patterns.foldr seq nothing

/-- `?`. -/
def maybe (body : Regex) : Regex := either body nothing

/-- `+`. -/
def plus (body : Regex) : Regex := seq body (many body)

def anyOf (texts : List String) : Regex :=
  match texts.map (fun text => lit text.ascii) with
  | [] => nothing
  | first :: rest => rest.foldl either first

/-- `.`. -/
def dot : Regex := one (· ≠ '\n')

/-- `\S`. -/
def visible : Regex := one (fun c => !isSpace c)

/-- `\s`. -/
def space : Regex := one isSpace

/-- `\d`. -/
def digit [Unicode] : Regex := one isDecimal

end Regex

end Nmas.Text
