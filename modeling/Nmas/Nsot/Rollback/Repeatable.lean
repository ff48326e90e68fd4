import Nmas.Text.Str

/-!
Owns: `REPEATABLE_COMMANDS`, the commands a device keeps several of, and
`_negates_exactly`, which decides whether a pushed line's own `no` form removes
that instance and nothing the device held.
-/

namespace Nmas.Nsot.Rollback

open Nmas.Text

/-- A row of `REPEATABLE_COMMANDS`. -/
structure RepeatableRow where
  sections : List Str
  lead : List Str
  identity : Nat
  exact_ : Option Nat
  blankets : List Str

private def row (sections lead : List String) (identity : Nat) (exact_ : Option Nat)
    (blankets : List String) : RepeatableRow :=
  ⟨sections.map String.ascii, lead.map String.ascii, identity, exact_, blankets.map String.ascii⟩

private def routing : List String := ["router", "ipv6 router", "address-family"]

def repeatableCommands : List RepeatableRow :=
  [row [""] ["ntp", "server"] 1 none [],
    row [""] ["ntp", "peer"] 1 none [],
    row [""] ["logging", "host"] 1 none [],
    row [""] ["ip", "name-server"] 1 none [],
    row [""] ["ip", "route"] 3 none [],
    row [""] ["ipv6", "route"] 2 none [],
    row [""] ["snmp-server", "host"] 1 none [],
    row [""] ["snmp-server", "enable", "traps"] 1 none [],
    row [""] ["ip"] 1 (some 2) [],
    row [""] ["ipv6"] 1 (some 2) [],
    row [""] ["service"] 1 (some 2) [],
    row ["interface"] ["ip", "helper-address"] 1 none [],
    row ["interface"] ["ipv6", "address"] 1 none [],
    row ["interface"] ["ipv6", "dhcp", "relay", "destination"] 1 none [],
    row ["interface"] ["ipv6", "nd"] 1 (some 3) [],
    row routing ["passive-interface"] 1 none ["default"],
    row routing ["network"] 1 (some 2) [],
    row routing ["redistribute"] 1 none []]

/-- `_QUALIFIERS`: the number of arguments of a word that says where an instance
lives. -/
def qualifierArguments (word : Str) : Option Nat :=
  if word = "vrf".ascii then some 1 else if word = "ipv6".ascii then some 0 else none

def inSection (parent : Str) (sections : List Str) : Bool :=
  sections.any (fun section_ =>
    (words section_ == [] && words parent == []) ||
      (words section_ != [] && (words section_).isPrefixOf (words parent)))

def RepeatableRow.declares (row : RepeatableRow) (parent : Str) (line : List Str) : Bool :=
  row.lead.isPrefixOf line && inSection parent row.sections &&
    row.exact_.all (fun count => line.length == count)

/-- `_repeatable_row`: the declaring row with the most leading words. -/
def repeatableRow (chain : List Str) (line : Str) : Option RepeatableRow :=
  if words line = [] ∨ (words line).head? = some "no".ascii then none
  else
    repeatableCommands.foldl (fun best row =>
      if row.declares ((chain.getLast?.map strip).getD []) (words line) &&
          best.all (fun other => row.lead.length > other.lead.length)
      then some row else best) none

def qualifierWords : List Str → Nat
  | [] => 0
  | [word] => (qualifierArguments word).elim 0 (· + 1)
  | word :: next :: rest =>
    match qualifierArguments word with
    | none => 0
    | some 0 => 1 + qualifierWords (next :: rest)
    | some _ => 2 + qualifierWords rest

/-- `_repeatable_identity`: the instance a declared line configures. -/
def repeatableIdentity (chain : List Str) (line : Str) : Option (List Str) :=
  (repeatableRow chain line).bind (fun row =>
    let rest := (words line).drop row.lead.length
    let qualified := qualifierWords rest
    let instance_ := (rest.drop qualified).take row.identity
    if qualified > rest.length ∨ instance_.length < row.identity then none
    else some (row.lead ++ rest.take qualified ++ instance_))

def RepeatableRow.isBlanket (row : RepeatableRow) (line : Str) : Bool :=
  row.lead.isPrefixOf (words line) && (words line).length == row.lead.length + 1 &&
    (words line).getLast?.any row.blankets.contains

/-- `_negates_exactly`: is `no <line>` the undo of a line whose key matched the
held ones, and which instance was judged? -/
def negatesExactly (chain : List Str) (line : Str) (held : List Str) : Bool × Option (List Str) :=
  match repeatableIdentity chain line, repeatableRow chain line with
  | some identity, some row =>
    (!held.any (fun other =>
      row.isBlanket other || repeatableIdentity chain other == some identity), some identity)
  | _, _ => (false, none)

end Nmas.Nsot.Rollback
