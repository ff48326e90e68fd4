import Nmas.Nsot.Program
import Nmas.Text.Addresses

/-!
Owns: `nsot/vlan_read.py`, a VLAN read where the device keeps it. A switch in
VTP server or client mode prints no VLAN in its running configuration, so a
`vlan <N>` line and the name under it are read from the table that
`show vlan id <N>` prints.

An id is checked once, where it is made (`vlanId`), and carries that check.
-/

namespace Nmas.Nsot.ReadBack

open Nmas.Text

/-- `VLAN_ID` and the two bounds. -/
def isVlanId (text : Str) : Bool :=
  match text with
  | [] => false
  | first :: rest =>
    '1' ≤ first && first ≤ '9' && rest.all Char.isDigit && rest.length ≤ 3 &&
      (number 10 text).any (fun value => 1 ≤ value && value ≤ 4094)

/-- A VLAN id as typed in a `vlan` line or a read. -/
structure VlanId where
  text : Str
  isId : isVlanId text = true
deriving DecidableEq

/-- `vlan_id`; `none` is its `ValueError`. -/
def vlanId (value : Str) : Option VlanId :=
  if isId : isVlanId value = true then some ⟨value, isId⟩ else none

def command (vlan : VlanId) : Str := "show vlan id ".ascii ++ vlan.text

/-- `vlan_of`: the id a `vlan <N>` line configures. -/
def vlanOf (line : Str) : Option VlanId :=
  match words line with
  | [lead, id] => if lead = "vlan".ascii then vlanId id else none
  | _ => none

/-- Why an answer was not understood. -/
inductive Unreadable
  /-- "it was not read" -/
  | notRead
  /-- "the answer is empty" -/
  | noAnswer
  /-- "the answer has no VLAN table (…)", with its first line -/
  | noTable (shown : Str)
  /-- "the VLAN table shows …, not VLAN … alone" -/
  | otherRows (found : List Str)
deriving DecidableEq

/-- `parse`'s answer. -/
inductive VlanRead
  | present (name status row : Str)
  | absent (row : Str)
  | unreadable (why : Unreadable)
deriving DecidableEq

structure VlanRow where
  id : Str
  name : Str
  status : Str
  row : Str
deriving DecidableEq

/-- `NOT_FOUND`, for one VLAN. -/
def notFound (vlan : VlanId) (line : Str) : Bool :=
  strip line == "VLAN id ".ascii ++ (vlan.text ++ " not found in current VLAN database".ascii)

/-- `HEADER`. -/
def isHeader (line : Str) : Bool :=
  words line == ["VLAN", "Name", "Status", "Ports"].map String.ascii

/-- `RULE`: four dashes, then a word that starts with one. -/
def isRule (line : Str) : Bool :=
  match words line with
  | first :: second :: _ => first == "----".ascii && second.head? == some '-'
  | _ => false

/-- `ROW`. -/
def rowOf (line : Str) : Option VlanRow :=
  match words line with
  | id :: name :: status :: _ =>
    match id with
    | [] => none
    | first :: rest =>
      if '1' ≤ first && first ≤ '9' && rest.all Char.isDigit && rest.length ≤ 3 then
        some ⟨id, name, status, strip line⟩
      else none
  | _ => none

/-- The rows under the header: the ones that follow each other, with blank
lines and rules passed over before the first. -/
def rowsFrom (rows : List VlanRow) : List Str → List VlanRow
  | [] => rows
  | line :: rest =>
    if strip line = [] ∨ isRule line = true then
      if rows = [] then rowsFrom rows rest else rows
    else
      match rowOf line with
      | none => rows
      | some row => rowsFrom (rows ++ [row]) rest

def linesAfter (test : Str → Bool) (lines : List Str) : Option (List Str) :=
  match lines.dropWhile (fun line => !test line) with
  | [] => none
  | _ :: rest => some rest

def parse (vlan : VlanId) (text : Str) : VlanRead :=
  let lines := splitNewlines text
  match lines.find? (notFound vlan) with
  | some line => .absent (strip line)
  | none =>
    match linesAfter isHeader lines with
    | none =>
      match lines.find? (fun line => strip line != []) with
      | some shown => .unreadable (.noTable (strip shown))
      | none => .unreadable .noAnswer
    | some rest =>
      match rowsFrom [] rest with
      | [row] =>
        if row.id = vlan.text then .present row.name row.status row.row
        else .unreadable (.otherRows [row.id])
      | rows => .unreadable (.otherRows (rows.map VlanRow.id))

variable [Unicode]

/-- `_vlan_judged`: the VLAN whose read judges a line of a program. -/
def vlanJudged (leaf : Leaf) : Option VlanId :=
  match leaf.chain with
  | [] => vlanOf (strip leaf.line)
  | [header] =>
    match words (strip leaf.line) with
    | [lead, _] => if lead = "name".ascii then vlanOf (strip header) else none
    | _ => none
  | _ => none

/-- What a line asks of its VLAN's name: the second word of a `name` line. -/
def wantedName (leaf : Leaf) : Str :=
  if leaf.chain = [] then [] else ((words (strip leaf.line))[1]?).getD []

/-- Does a VLAN's read show what a line asks of it? -/
def VlanRead.shows (read : VlanRead) (leaf : Leaf) : Bool :=
  match read with
  | .present name _ _ => wantedName leaf == [] || name == wantedName leaf
  | .absent _ => false
  | .unreadable _ => true

omit [Unicode] in
@[simp] theorem vlanId_text (vlan : VlanId) : vlanId vlan.text = some vlan := by
  simp [vlanId, vlan.isId]

omit [Unicode] in
theorem vlanJudged_of_no {leaf : Leaf} (negated : (words (strip leaf.line)).head? = some "no".ascii) :
    vlanJudged leaf = none := by
  have other : ∀ second, words (strip leaf.line) ≠ ["vlan".ascii, second] ∧
      words (strip leaf.line) ≠ ["name".ascii, second] := by
    intro second
    constructor
    · intro same
      rw [same, List.head?_cons] at negated
      exact absurd negated (by decide)
    · intro same
      rw [same, List.head?_cons] at negated
      exact absurd negated (by decide)
  cases chain : leaf.chain with
  | nil =>
    simp only [vlanJudged, chain, vlanOf, words_strip]
    split
    · rename_i lead id same
      split_ifs with isVlan
      · exact absurd (by rw [words_strip, same, isVlan]) (other id).1
      · rfl
    · rfl
  | cons header below =>
    cases below with
    | cons second rest => simp only [vlanJudged, chain]
    | nil =>
      simp only [vlanJudged, chain]
      split
      · rename_i lead second same
        split_ifs with isName
        · exact absurd (by rw [same, isName]) (other second).2
        · rfl
      · rfl

end Nmas.Nsot.ReadBack
