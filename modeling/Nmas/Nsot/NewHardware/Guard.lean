import Nmas.Nsot.Roundtrip
import Nmas.Text.Lines

/-!
Contract: the last look at a device before a program is sent to it, and the new
interfaces it lets pass.

Owns: `interface_defaults` over the measurement it ships with, and
`deploy._canonical`, `_top_level_blocks`, `_new_hardware` and
`device_against_capture`; and a configuration with some of its top-level blocks
left out.

A reason is given by the comparison its words name.
-/

namespace Nmas.Nsot.NewHardware

open Nmas.Text
open Nmas.Nsot.IfNames Nmas.Nsot.Normalize Nmas.Nsot.Roundtrip

/-- `by_dialect` of `interface_defaults.json`: per dialect and interface type, the
lines of the block. -/
def byDialect : List (Str × List (Str × List Str)) :=
  [("cisco_iosxe".ascii,
    [("GigabitEthernet".ascii,
      [" no ip address", " shutdown", " negotiation auto", " no mop enabled",
        " no mop sysid"].map String.ascii)])]

section Defaults

variable [Unicode]

def interfaceType (interface : Str) : Str :=
  let text := strip interface
  if text.head?.any Char.isAlpha && (text.dropWhile isNameChar).head?.any isDecimal then
    text.takeWhile isNameChar
  else []

def defaultBlock (dialect interface : Str) : List Str :=
  ((Outline.lookup (strip dialect) byDialect).bind
    (Outline.lookup (interfaceType interface))).getD []

def unconfiguredInterfaceDefault (dialect interface : Str) (lines : List Str) : Bool :=
  defaultBlock dialect interface != [] && lines.map rstrip == defaultBlock dialect interface

def canonical (line : Str) : Str := strip (collapseFrom false (canonicaliseLine (strip line)))

end Defaults

/-- A line of a block, as it is printed. -/
def isChild (raw : Str) : Bool := startsIndented (rstrip raw)

section Guard

variable [Unicode]

/-- The line opens a top-level block of a header that `wanted` tells. -/
def opensBlock (wanted : Str → Bool) (raw : Str) : Bool :=
  rstrip raw != [] && !isChild raw && wanted (canonical (rstrip raw))

/-- `_top_level_blocks` of a text's lines: behind each line that opens one, the
indented lines up to the next that is blank or not indented. -/
def blocksOf (header : Str) : List Str → List (List Str)
  | [] => []
  | raw :: rest =>
    if opensBlock (· == header) raw then
      (rest.takeWhile isChild).map rstrip :: blocksOf header rest
    else blocksOf header rest

def topLevelBlocks (text header : Str) : List (List Str) := blocksOf header (splitlines text)

/-- `entry.split(" :: ", 1)[0]`. -/
def sectionOf : Str → Str
  | ' ' :: ':' :: ':' :: ' ' :: _ => []
  | c :: rest => c :: sectionOf rest
  | [] => []

def interfaceLead : Str := "interface ".ascii

/-- `header.removeprefix("interface ").strip()`. -/
def interfaceOf (header : Str) : Str := strip ((afterPrefix interfaceLead header).getD header)

structure Accepted where
  interface : Str
  lines : List Str
deriving DecidableEq

def configured (program : List Str) : List Str :=
  (program.filter (fun command => strip command != [])).map canonical

/-- One section of `_new_hardware`. -/
def acceptSection (capture running : Str) (program : List Str) (dialect header : Str) :
    Option Accepted :=
  if !interfaceLead.isPrefixOf header then none
  else if topLevelBlocks capture header != [] then none
  else
    match topLevelBlocks running header with
    | [block] =>
      if !unconfiguredInterfaceDefault dialect (interfaceOf header) block then none
      else if !(configured program).contains header then none
      else some ⟨interfaceOf header, header :: block⟩
    | _ => none

/-- `list(dict.fromkeys(texts))`. -/
def fromKeys (texts : List Str) : List Str :=
  texts.foldl (fun seen text => if text ∈ seen then seen else seen ++ [text]) []

def newHardware (capture running : Str) (comparison : Equivalence) (program : List Str)
    (dialect : Str) : Option (List Accepted) :=
  if comparison.onlyLeft ≠ [] ∨ comparison.onlyRight = [] then none
  else (fromKeys (comparison.onlyRight.map sectionOf)).mapM
    (acceptSection capture running program dialect)

/-- What `device_against_capture` answers. -/
structure Verdict where
  reason : Option Equivalence
  newHardware : List Accepted
deriving DecidableEq

def deviceAgainstCapture (capture running : Str) (program : List Str) (dialect : Str) : Verdict :=
  let result := storedIsDevice capture running
  if result.equal then ⟨none, []⟩
  else
    match newHardware capture running result program dialect with
    | some (accepted :: others) => ⟨none, accepted :: others⟩
    | _ => ⟨some result, []⟩

def leaveOut (wanted : Str → Bool) : Bool → List Str → List Str
  | _, [] => []
  | inside, raw :: rest =>
    if isChild raw then
      if inside then leaveOut wanted true rest else raw :: leaveOut wanted false rest
    else if opensBlock wanted raw then leaveOut wanted true rest
    else raw :: leaveOut wanted false rest

/-- A text without the top-level blocks of some headers. -/
def withoutBlocks (wanted : Str → Bool) (text : Str) : Str :=
  joinLines (leaveOut wanted false (splitlines text))

end Guard

end Nmas.Nsot.NewHardware
