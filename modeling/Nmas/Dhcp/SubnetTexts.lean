import Nmas.Dhcp.Reservations

/-!
Contract: the move of a family's subnets out of Kea's configuration, on its text.

Owns: `dhcp_subnets.subnets_file`, `_skip`, `_keys`, `_array_end` and `move_plan`.

An index of the text is a place counted beside what stands from there on.  A
refusal is given by what its words name.
-/

namespace Nmas.Dhcp

open Nmas.Text

/-- `FILES[family][0]`. -/
def Family.key : Family → Str
  | .ipv4 => "subnet4".ascii
  | .ipv6 => "subnet6".ascii

/-- `FILES[family][1]`. -/
def Family.file : Family → Str
  | .ipv4 => "subnets4.json".ascii
  | .ipv6 => "subnets6.json".ascii

namespace SubnetTexts

def dirname (path : Str) : Str :=
  let head := path.rdropWhile (· ≠ '/')
  if head.all (· = '/') then head else head.rdropWhile (· = '/')

/-- One step of `os.path.join`. -/
def joinPath (path part : Str) : Str :=
  if part.head? = some '/' then part
  else if path = [] ∨ path.getLast? = some '/' then path ++ part
  else path ++ '/' :: part

def subnetsFile (main : Str) (family : Family) : Str :=
  joinPath (joinPath (dirname main) "nmas".ascii) family.file

/-- The words of the `ValueError` a text not closed raises. -/
inductive Unclosed where
  | text
  | comment
  | directive
  | array
deriving DecidableEq

/-- `text.find(mark)`. -/
def find (mark : Str) : Str → Option Nat
  | [] => if mark = [] then some 0 else none
  | c :: rest => if mark.isPrefixOf (c :: rest) then some 0 else (find mark rest).map (· + 1)

/-- How far behind an opening quote the text goes, with its closing quote. -/
def closing : Str → Option Nat
  | [] => none
  | c :: rest =>
    if c = '\\' then
      match rest with
      | [] => none
      | _ :: more => (closing more).map (· + 2)
    else if c = '"' then some 1
    else (closing rest).map (· + 1)

def lineMark : Str := ['/', '/']
def openMark : Str := ['/', '*']
def closeMark : Str := ['*', '/']
def askMark : Str := ['<', '?']
def askedMark : Str := ['?', '>']

/-- `_skip`, as how far it goes. -/
def skip (text : Str) : Except Unclosed Nat :=
  if text.head? = some '"' then
    match closing text.tail with
    | some far => .ok (far + 1)
    | none => .error .text
  else if lineMark.isPrefixOf text ∨ text.head? = some '#' then
    match find ['\n'] text with
    | some far => .ok (far + 1)
    | none => .ok text.length
  else if openMark.isPrefixOf text then
    match find closeMark (text.drop 2) with
    | some far => .ok (far + 4)
    | none => .error .comment
  else if askMark.isPrefixOf text then
    match find askedMark (text.drop 2) with
    | some far => .ok (far + 4)
    | none => .error .directive
  else .ok 0

/-- `" \t\r\n"`. -/
def isBlank (c : Char) : Bool := c = ' ' || c = '\t' || c = '\r' || c = '\n'

def colonAt : Str → Option Nat
  | [] => none
  | c :: rest =>
    if isBlank c then (colonAt rest).map (· + 1) else if c = ':' then some 1 else none

/-- `f'"{key}"'`. -/
def quoted (key : Str) : Str := '"' :: key ++ ['"']

/-- The key that starts a text which `_skip` takes `far` characters of. -/
def keyHere (key : Str) (place far : Nat) (text : Str) : List (Nat × Nat) :=
  if (quoted key).isPrefixOf text ∧ far = (quoted key).length then
    match colonAt (text.drop far) with
    | some more => [(place, place + far + more)]
    | none => []
  else []

/-- `_keys` from a place on, with what is still to be passed of a string, a
comment or a directive. -/
def keysFrom (key : Str) : Nat → Nat → Str → Except Unclosed (List (Nat × Nat))
  | _, _, [] => .ok []
  | passing + 1, place, _ :: rest => keysFrom key passing (place + 1) rest
  | 0, place, c :: rest => do
    let far ← skip (c :: rest)
    let later ← keysFrom key (far - 1) (place + 1) rest
    return keyHere key place far (c :: rest) ++ later

def keys (text key : Str) : Except Unclosed (List (Nat × Nat)) := keysFrom key 0 0 text

/-- `_array_end` from a place on. -/
def arrayEndFrom : Nat → Int → Nat → Str → Except Unclosed Nat
  | _, _, _, [] => .error .array
  | passing + 1, depth, place, _ :: rest => arrayEndFrom passing depth (place + 1) rest
  | 0, depth, place, c :: rest => do
    let far ← skip (c :: rest)
    if far ≠ 0 then arrayEndFrom (far - 1) depth (place + 1) rest
    else if c = '[' ∨ c = '{' then arrayEndFrom 0 (depth + 1) (place + 1) rest
    else if c = ']' ∨ c = '}' then
      if depth - 1 = 0 then return place else arrayEndFrom 0 (depth - 1) (place + 1) rest
    else arrayEndFrom 0 depth (place + 1) rest

def arrayEnd (text : Str) (place : Nat) : Except Unclosed Nat :=
  arrayEndFrom 0 0 place (text.drop place)

inductive Refusal where
  | sharedNetworks (main : Str)
  | found (key : Str) (times : Nat) (main : Str)
  | notArray (key main starts path : Str)
  | unreadable (main : Str) (why : Unclosed)
deriving DecidableEq

/-- `state`. -/
inductive MoveState where
  | move
  | done
  | refused
deriving DecidableEq

/-- The answer of `move_plan`. -/
structure MovePlan where
  state : MoveState
  refused : Option Refusal
  subnetsText : Str
  candidate : Str
  file : Str
deriving DecidableEq

/-- `f'<?include "{path}"?>'`. -/
def includeOf (path : Str) : Str := "<?include \"".ascii ++ path ++ "\"?>".ascii

def pastBlanks (text : Str) (place : Nat) : Nat :=
  place + ((text.drop place).takeWhile isBlank).length

/-- `move_plan` once the key is found, from the place just after its colon. -/
def movedFrom (mainText main : Str) (family : Family) (out : MovePlan) (after : Nat) :
    Except Unclosed MovePlan :=
  let place := pastBlanks mainText after
  let starts := mainText.drop place
  if (includeOf out.file).isPrefixOf starts then .ok { out with state := .done }
  else if starts.head? = some '[' then do
    let last ← arrayEnd mainText place
    return { out with
      state := .move
      subnetsText := starts.take (last + 1 - place) ++ ['\n']
      candidate := mainText.take place ++ includeOf out.file ++ mainText.drop (last + 1) }
  else .ok { out with refused := some (.notArray family.key main (starts.take 30) out.file) }

/-- What `move_plan` does in its `try`, with the answer it starts from. -/
def planned (mainText main : Str) (family : Family) (out : MovePlan) :
    Except Unclosed MovePlan := do
  let shared ← keys mainText "shared-networks".ascii
  if shared ≠ [] then return { out with refused := some (.sharedNetworks main) }
  else
    let hits ← keys mainText family.key
    match hits with
    | [(_, after)] => movedFrom mainText main family out after
    | _ => return { out with refused := some (.found family.key hits.length main) }

/-- The answer `move_plan` starts from. -/
def outOf (mainText main : Str) (family : Family) : MovePlan :=
  ⟨.refused, none, [], mainText, subnetsFile main family⟩

def movePlan (mainText main : Str) (family : Family) : MovePlan :=
  match planned mainText main family (outOf mainText main family) with
  | .ok plan => plan
  | .error why => { outOf mainText main family with refused := some (.unreadable main why) }

end SubnetTexts

end Nmas.Dhcp
