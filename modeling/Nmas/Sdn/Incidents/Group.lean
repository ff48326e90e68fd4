import Nmas.Log.Buckets
import Nmas.Text.Addresses
import Nmas.Text.Str

/-!
Owns: how one pass's detections become incidents (`incidents.group`): keyed by rule and
source, then each source-less detection of a link port joined to the one incident whose
source's host its flows carry.
-/

namespace Nmas.Sdn.Incidents

open Nmas.Text Nmas.Log

variable [Readers]

/-- A source MAC address a port's flows carry, with the addresses the topology lists for its
host. -/
structure LinkSource where
  mac : Str
  addresses : List Str
deriving DecidableEq

/-- What the grouping reads of a detection; no source and no state are the empty text. -/
structure Detection where
  key : Str
  rule : Str
  source : Str
  sourceState : Str
  linkSources : List LinkSource
  port : Str
  words : Str
deriving DecidableEq

structure Window where
  seconds : Int
  setting : Str
  words : Str
deriving DecidableEq

structure Incident where
  key : Str
  rule : Str
  source : Str
  window : Window
  members : List Detection
deriving DecidableEq

def groupedRules : List (Str × Str) :=
  [("scan".ascii, "sdn_scan_window_seconds".ascii),
    ("flood".ascii, "sdn_flood_window_seconds".ascii),
    ("high_rate".ascii, "sdn_flood_window_seconds".ascii)]

def isGrouped (rule : Str) : Bool := groupedRules.any (fun entry => entry.1 = rule)

def windowOf (rule : Str) : Option Str :=
  if rule = "high_rate".ascii then some "flood".ascii else none

def single : Str := "detection".ascii

/-- The key is of a detection grouped by nothing but itself. -/
def isSingle (key : Str) : Bool := (single ++ ['|']).isPrefixOf key

/-! ### Sources -/

def isHex (c : Char) : Bool := ('0' ≤ c && c ≤ '9') || ('A' ≤ c && c ≤ 'F') || ('a' ≤ c && c ≤ 'f')

/-- The pairs of a text of `more + 1` pairs of hexadecimal digits, `:` or `-` between them. -/
def hexPairs : Nat → Str → Option (List Str)
  | 0, [high, low] => if isHex high && isHex low then some [[high, low]] else none
  | more + 1, high :: low :: mark :: rest =>
    if isHex high && isHex low && (mark == ':' || mark == '-') then
      (hexPairs more rest).map ([high, low] :: ·)
    else none
  | _, _ => none

def canonSource (value : Str) : Str :=
  let text := strip value
  if text = [] then []
  else
    match Readers.ipAddress text with
    | some address => Readers.compressed address
    | none =>
      match hexPairs 5 text with
      | some pairs => [':'].intercalate (pairs.map (fun pair => pair.map Char.toLower))
      | none => []

/-! ### Keys -/

def numeral : Int → Str
  | .ofNat n => Nat.toDigits 10 n
  | .negSucc n => '-' :: Nat.toDigits 10 (n + 1)

def window (rule : Str) (values : Str → Int) : Window :=
  match groupedRules.find? (fun entry => entry.1 = rule) with
  | none => ⟨0, [], "not grouped: each unauthorised flow is one flow on one switch".ascii⟩
  | some (_, setting) =>
    let whose :=
      match windowOf rule with
      | some of_ => "the ".ascii ++ of_ ++ " rule's window, which it joins within".ascii
      | none => "the ".ascii ++ rule ++ " rule's own window".ascii
    ⟨values setting, setting, "within ".ascii ++ numeral (values setting) ++ " s, ".ascii ++
      whose ++ " (".ascii ++ setting ++ ")".ascii⟩

/-- `f"{rule}|{source}"`. -/
def ruleKey (rule source : Str) : Str := rule ++ '|' :: source

def groupKey (d : Detection) : Str :=
  if isGrouped d.rule && decide (canonSource d.source ≠ []) then
    ruleKey d.rule (canonSource d.source)
  else ruleKey single d.key

def linkKeys (d : Detection) : List Str :=
  if !isGrouped d.rule || decide (canonSource d.source ≠ []) ||
      decide (d.sourceState ≠ "link".ascii) then []
  else
    (d.linkSources.flatMap (fun s => s.mac :: s.addresses)).filterMap (fun x =>
      if canonSource x = [] then none else some (ruleKey d.rule (canonSource x)))

/-- `key.partition("|")[2]`. -/
def sourceOf (key : Str) : Str := (key.dropWhile (· ≠ '|')).drop 1

def viaLink (d : Detection) (key : Str) : Detection :=
  let source := sourceOf key
  let mine := ((d.linkSources.find? (fun s => decide
    (source ∈ (s.mac :: s.addresses).map canonSource))).map LinkSource.mac).getD source
  let others := (d.linkSources.map LinkSource.mac).filter (fun mac => mac ≠ mine)
  { d with
    words := d.words ++ "; port ".ascii ++ d.port ++
      " is an inter-switch link, and its flows carry ".ascii ++ mine ++ ", ".ascii ++ source ++
      "'s host".ascii ++
      (if others = [] then []
      else " (and ".ascii ++ [',', ' '].intercalate others ++
        ", with no incident of this rule)".ascii) ++
      ": the same attack, seen on its way".ascii }

def linkIncident (d : Detection) (candidates : List Incident) : Option Incident :=
  match candidates.filter (fun inc => decide (inc.key ∈ linkKeys d)) with
  | [inc] => some inc
  | _ => none

/-! ### Grouping -/

def addMember (inc : Incident) (d : Detection) : Incident :=
  if inc.members.all (fun m => m.key ≠ d.key) then { inc with members := inc.members ++ [d] }
  else inc

def opened (values : Str → Int) (d : Detection) : Incident :=
  addMember ⟨groupKey d, d.rule,
    if isSingle (groupKey d) then [] else canonSource d.source, window d.rule values, []⟩ d

/-- `out` after the first loop. -/
def buckets (values : Str → Int) (detections : List Detection) : List Incident :=
  detections.foldl (gather Incident.key groupKey (opened values) addMember) []

/-- One turn of the second loop: a single that names one of `grouped` joins it. A single has
one member (`single_members`). -/
def join (grouped out : List Incident) (inc : Incident) : List Incident :=
  if isSingle inc.key then
    match inc.members with
    | [d] =>
      match linkIncident d grouped with
      | some joins =>
        (amend Incident.key joins.key (fun other =>
          { other with members := other.members ++ [viaLink d joins.key] }) out).filter
            (fun other => other.key ≠ inc.key)
      | none => out
    | _ => out
  else out

def group (detections : List Detection) (values : Str → Int) : List Incident :=
  let out := buckets values detections
  let grouped := out.filter (fun inc => !isSingle inc.key)
  out.foldl (join grouped) out

end Nmas.Sdn.Incidents
