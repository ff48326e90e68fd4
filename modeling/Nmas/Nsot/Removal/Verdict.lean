import Nmas.Nsot.Removal.Candidates
import Nmas.Nsot.Removal.ManagementRoutes
import Nmas.Text.Regex

/-!
Contract: whether one unit may be removed, and why not.

Owns: `SHAPES`, `shape_for`, `_unmeasured`, `UNREMOVABLE`, `MANAGEMENT_GLOBAL`,
`DEFINES`, `_references`, `_management_interfaces` and `_refusal` of
`nsot/removal.py`, with the words of every refusal.

Does not own: the file of measurements, which is given as it was read.
-/

namespace Nmas.Nsot.Removal

open Nmas.Text
open Nmas.Text.Regex
open Nmas.Nsot.IfNames

def decimalText (number : Nat) : Str := Nat.toDigits 10 number

/-- `": ".join` and the like. -/
def joined (separator : Str) (parts : List Str) : Str := separator.intercalate parts

/-! ### Shapes -/

/-- Where a shape's lines sit. -/
inductive Context where
  | global
  | interface_
  | ipAccessList
  | routerBgp
  | routerOspf
  | ipv6RouterOspf
  | routerRip
deriving DecidableEq

def Context.lead : Context → Option Str
  | global => none
  | interface_ => some "interface ".ascii
  | ipAccessList => some "ip access-list ".ascii
  | routerBgp => some "router bgp ".ascii
  | routerOspf => some "router ospf ".ascii
  | ipv6RouterOspf => some "ipv6 router ospf ".ascii
  | routerRip => some "router rip".ascii

def inContext (context : Context) (chain : List Str) : Bool :=
  match context.lead, chain with
  | none, chain => chain = []
  | some lead, [header] => lead.isPrefixOf header
  | some _, _ => false

structure Shape where
  key : Str
  context : Context
  kind : UnitKind
  pattern : Regex
  header : Option Regex
  negation : Option Str

section Patterns

variable [Unicode]

def Shape.plain (key : String) (context : Context) (kind : UnitKind) (pattern : List Regex) :
    Shape :=
  ⟨key.ascii, context, kind, .all (start :: pattern ++ [stop]), none, none⟩

def said (text : String) : Regex := lit text.ascii

/-- `( .+)?`. -/
def anyRest : Regex := maybe (.all [said " ", plus dot])

def shapes : List Shape :=
  [ .plain "interface.load-interval" .interface_ .leaf [said "load-interval ", plus digit],
    .plain "interface.description" .interface_ .leaf [said "description ", plus dot],
    .plain "global.snmp-server-community" .global .leaf
      [said "snmp-server community ", plus visible, maybe (.all [said " view ", plus visible]),
        said " ", anyOf ["RO", "RW"], maybe (.all [said " ", plus visible])],
    .plain "global.logging-host" .global .leaf [said "logging host ", plus visible, anyRest],
    .plain "global.ntp-server" .global .leaf [said "ntp server ", plus visible, anyRest],
    .plain "global.snmp-server-host" .global .leaf
      [said "snmp-server host ", plus visible, anyRest],
    .plain "global.cdp-run" .global .leaf [said "cdp run"],
    .plain "global.event-manager-applet" .global .stanza
      [said "event manager applet ", plus visible, anyRest],
    .plain "global.ip-prefix-list-entry" .global .leaf
      [said "ip prefix-list ", plus visible, said " seq ", plus digit, said " ",
        anyOf ["permit", "deny"], said " ", plus dot],
    .plain "global.route-map-sequence" .global .stanza
      [said "route-map ", plus visible, said " ", anyOf ["permit", "deny"], said " ", plus digit],
    .plain "global.numbered-acl-entry" .global .leaf
      [said "access-list ", plus digit, said " ", plus dot],
    { Shape.plain "numbered-acl.list-entry" .ipAccessList .leaf
        [maybe (.all [plus digit, said " "]), anyOf ["permit", "deny", "remark"], said " ",
          plus dot] with
      header := some (.all [start, said "ip access-list ", anyOf ["standard", "extended"],
        said " ", plus digit, stop]) },
    { Shape.plain "named-acl.entry" .ipAccessList .leaf
        [maybe (.all [plus digit, said " "]), anyOf ["permit", "deny", "remark"], said " ",
          plus dot] with
      header := some (.all [start, said "ip", maybe (said "v6"), said " access-list ",
        maybe (.all [anyOf ["standard", "extended"], said " "]),
        notAhead (.all [plus digit, stop]), plus visible, stop]) },
    .plain "bgp.neighbor-remote-as" .routerBgp .leaf
      [said "neighbor ", plus visible, said " remote-as ", plus digit],
    .plain "global.ip-sla-operation" .global .stanza [said "ip sla ", plus digit],
    { Shape.plain "ospf.max-metric" .routerOspf .leaf [said "max-metric router-lsa", anyRest] with
      negation := some "max-metric router-lsa".ascii },
    .plain "ospfv3.max-metric" .ipv6RouterOspf .leaf [said "max-metric router-lsa", anyRest],
    .plain "rip.offset-list" .routerRip .leaf
      [said "offset-list ", plus visible, said " ", anyOf ["in", "out"], said " ", plus digit,
        maybe (.all [said " ", plus visible])],
    .plain "interface.ospf-cost" .interface_ .leaf [said "ip ospf cost ", plus digit],
    .plain "interface.ospf-authentication" .interface_ .leaf
      [said "ip ospf authentication", maybe (anyOf [" message-digest", " null"])],
    .plain "interface.ospf-message-digest-key" .interface_ .leaf
      [said "ip ospf message-digest-key ", plus digit, said " md5",
        maybe (.all [said " ", digit]), said " ", plus visible],
    .plain "ospf.network" .routerOspf .leaf
      [said "network ", plus visible, said " ", plus visible, said " area ", plus visible],
    .plain "interface.ipv6-ospf-cost" .interface_ .leaf [said "ipv6 ospf cost ", plus digit],
    .plain "interface.ipv6-rip-default-originate" .interface_ .leaf
      [said "ipv6 rip ", plus visible, said " default-information ",
        anyOf ["originate", "only"], maybe (.all [said " metric ", plus digit])],
    .plain "interface.shutdown" .interface_ .leaf [said "shutdown"],
    .plain "interface.hold-queue" .interface_ .leaf
      [said "hold-queue ", plus digit, said " ", anyOf ["in", "out"]],
    .plain "global.ip-route" .global .leaf [said "ip route ", plus dot],
    .plain "global.ipv6-route" .global .leaf [said "ipv6 route ", plus dot] ]

def shapeFor (chain : List Str) (line : Str) (kind : UnitKind) : Option Shape :=
  shapes.find? (fun shape =>
    shape.kind = kind && inContext shape.context chain && shape.pattern.found (strip line) &&
      shape.header.all (fun header => chain.head?.any header.found))

end Patterns

/-! ### Measurements -/

/-- What the probe found of a shape on a platform. -/
structure MeasuredRow where
  result : Str
  device : Str
  at_ : Str
  detail : Str
deriving DecidableEq

/-- Why a run could not measure a shape; a reason is not empty. -/
structure NotMeasured where
  device : Str
  at_ : Str
  reason : Str
deriving DecidableEq

/-- `measured()`: the rows by platform and shape. An absent file has none. -/
inductive Measured where
  | unreadable (error : Str)
  | rows (byDialect : List ((Str × Str) × MeasuredRow))
      (unmeasured : List ((Str × Str) × NotMeasured))
deriving DecidableEq

def resultWords (result : Str) : Str :=
  (([("exact", "removes exactly that line"),
    ("broader", "removes MORE than that line"),
    ("different", "changes other configuration"),
    ("incomplete", "does not remove the line"),
    ("overrides_default", "leaves the device OFF its default: `no` turns the feature off " ++
      "instead of restoring the default, and leaves a `no` line"),
    ("refused", "is rejected by the device"),
    ("unsupported", "is not a command this platform takes: it rejected the line itself, so " ++
      "there is nothing to remove"),
    ("failed", "could not be measured")].map (fun (entry : String × String) =>
      (entry.1.ascii, entry.2.ascii))).lookup result).getD result

section Verdict

variable [Unicode]

/-- `_unmeasured`: why a unit may not be removed on a platform yet. -/
def unmeasured (measured : Measured) (dialect : Str) (chain : List Str) (line : Str)
    (kind : UnitKind) : Option Str :=
  match shapeFor chain line kind with
  | none => some ("no measured shape covers this line: what `no` does to it on the platform " ++
      "is not known, so nothing is sent. A shape is added to removal.SHAPES and " ++
      "measured with scripts/nmas-removal-probe first").ascii
  | some shape =>
    if dialect = [] then
      some "the device's platform is not known, and removal is measured per platform".ascii
    else
      match measured with
      | .unreadable error =>
        some ("the removal measurements could not be read (".ascii ++ error ++ [')'])
      | .rows byDialect unmeasured =>
        match byDialect.lookup (dialect, shape.key) with
        | none =>
          some ("`".ascii ++ shape.key ++ "` has not been measured on ".ascii ++ dialect ++
            ((unmeasured.lookup (dialect, shape.key)).elim [] (fun why =>
              " (".ascii ++ why.device ++ ", ".ascii ++ why.at_ ++ ": ".ascii ++
                why.reason ++ [')'])) ++
            ": run scripts/nmas-removal-probe --shape ".ascii ++ shape.key ++
            " on a ".ascii ++ dialect ++ " device".ascii)
        | some row =>
          if row.result = "exact".ascii then none
          else some ("measured on ".ascii ++ dialect ++ " (".ascii ++ row.device ++
            ", ".ascii ++ row.at_ ++ "): `no <line>` ".ascii ++ resultWords row.result ++
            (if row.detail = [] then [] else ": ".ascii ++ row.detail))

/-! ### Refusals -/

def unremovable : List (Regex × Str) :=
  [ (.all [start, said "hostname", edge],
      "the hostname cannot be removed, only changed in intent".ascii),
    (.all [start, said "version", edge], "the image version is not configuration".ascii),
    (.all [start, said "boot-", anyOf ["start", "end"], said "-marker", edge],
      "a boot marker is not configuration".ascii),
    (.all [start, said "line", space],
      "a line stanza cannot be removed; change its settings instead".ascii),
    (.all [start, said "end", stop], "`end` is not configuration".ascii),
    (.all [start, said "banner", space],
      "a banner spans lines the line model cannot represent".ascii),
    (.all [start, said "crypto pki", edge],
      ("a trustpoint or certificate body spans lines, and is " ++ "the device's own").ascii),
    (.all [start, said "logging buffered", edge],
      ("measured on cisco_ios (s4, 2026-09-29): `no logging buffered <n>` turns buffered " ++
        "logging OFF and leaves `no logging buffered` behind, a state neither the device had " ++
        "nor intent names. Its absence means the platform default, and restoring a default is " ++
        "`default <command>`, which is not built").ascii) ]

def managementGlobal : List (Regex × Str) :=
  [ (.all [start, said "ip ssh", edge], "SSH is how the tool reaches the device".ascii),
    (.all [start, said "aaa", edge], "AAA decides whether the tool can log in".ascii),
    (.all [start, said "crypto key", edge], "the RSA key is what SSH runs on".ascii),
    (.all [start, said "ip domain", one (fun c => c = ' ' || c = '-'), said "name", edge],
      "the RSA key depends on the domain name".ascii),
    (.all [start, said "ip default-gateway", edge],
      "the default gateway may be the path to the manager".ascii) ]

def account : Regex :=
  .all [start, either (.all [said "username", space])
    (.all [said "enable ", anyOf ["secret", "password"], edge])]

def numberedAcl : Regex := .all [start, said "access-list", plus space, plus digit, space]

def defines : List Regex :=
  [ .all [start, said "ip", maybe (said "v6"), said " access-list ",
      maybe (.all [anyOf ["standard", "extended"], plus space]), named (plus visible)],
    .all [start, said "ip", maybe (said "v6"), said " prefix-list ", named (plus visible), space],
    .all [start, said "route-map ", named (plus visible)],
    .all [start, said "vrf definition ", named (plus visible)],
    .all [start, said "ip vrf ", named (plus visible)],
    .all [start, said "class-map ", maybe (.all [said "match-", plus visible, plus space]),
      named (plus visible)],
    .all [start, said "policy-map ", named (plus visible)],
    .all [start, said "key chain ", named (plus visible)],
    .all [start, said "object-group ", plus visible, said " ", named (plus visible)] ]

/-- `_defined_name`: the empty text where nothing is defined. -/
def definedName (text : Str) : Str :=
  (defines.findSome? (fun pattern => pattern.groupName text)).getD []

/-- A unit as it is selected: a line and the headers above it. -/
structure Selected where
  chain : List Str
  line : Str
deriving DecidableEq

namespace Selected

def path (unit : Selected) : List Str := unit.chain ++ [unit.line]

end Selected

/-- `_references`: the other lines that name an object. -/
def references (name : Str) (unit : Selected) (running : List (Str × List Str)) : List Str :=
  let isNamePart := fun c => isWord c || c = '-'
  let word := Regex.all [notBehind isNamePart, lit name, notAhead (one isNamePart)]
  (running.filter (fun entry =>
      !unit.path.isPrefixOf (Outline.path entry) &&
        !(definedName (strip entry.1) = name ∧ entry.2 = []) && word.found entry.1)).map
    (fun entry => joined " > ".ascii (entry.2 ++ [strip entry.1]))

omit [Unicode] in
def managementInterfaces (running : List (Str × List Str)) (mgmtIp : Str) : List Str :=
  running.filterMap (fun entry =>
    match entry.2, words entry.1 with
    | [header], first :: second :: third :: _ =>
      if "interface ".ascii.isPrefixOf header ∧ first = "ip".ascii ∧ second = "address".ascii ∧
          (third = "dhcp".ascii ∨ mgmtIp ≠ [] ∧ third = mgmtIp) then
        some header
      else none
    | _, _ => none)

def globalRefusal (managementRoutes : List (Str × Str)) (text : Str) : Option Str :=
  let managementPath := fun why => "the management path: ".ascii ++ why
  (if (staticRoute text).isSome then (managementRoutes.lookup text).map managementPath else none)
    |>.or ((unremovable.find? (·.1.found text)).map Prod.snd)
    |>.or (if "interface ".ascii.isPrefixOf text && isPhysical text then
        some ("a physical interface cannot be removed; `default interface` resets " ++
          "one, and that is not built").ascii
      else none)
    |>.or (if account.found text then
        some ("an account is removed by retiring or rotating, never as residue: " ++
          "removing the tool's own account locks it out").ascii
      else none)
    |>.or (if numberedAcl.found text then
        some ("IOS deletes the WHOLE numbered access-list for `no access-list <n> " ++
          "...`, not this entry (measured on cisco_ios, s4, 2026-09-29: removing " ++
          "`access-list 97 permit 192.0.2.1` also removed `access-list 97 permit " ++
          "192.0.2.2`)").ascii
      else none)
    |>.or ((managementGlobal.find? (·.1.found text)).map (fun entry => managementPath entry.2))

def usedRefusal (unit : Selected) (running : List (Str × List Str)) : Option Str :=
  let name := if unit.chain = [] then definedName (strip unit.line) else []
  if name = [] then none
  else
    let uses := references name unit running
    if uses = [] then none
    else some (name ++ " is still used by: ".ascii ++ joined "; ".ascii (uses.take 3) ++
      (if 3 < uses.length then
        " (and ".ascii ++ decimalText (uses.length - 3) ++ " more)".ascii
      else []) ++ ". Remove or change those first".ascii)

def refusal (unit : Selected) (running : List (Str × List Str)) (mgmtIfaces : List Str)
    (mgmtRoutes : List (Str × Str)) : Option Str :=
  let text := strip unit.line
  let top := unit.chain.headD text
  (if unit.chain = [] then globalRefusal mgmtRoutes text else none)
    |>.or (if top ∈ mgmtIfaces ∨ text ∈ mgmtIfaces then
        some ("the management path: ".ascii ++ (if unit.chain = [] then text else top) ++
          (" is the interface the tool " ++
            "reaches this device on, and a rollback would travel over it").ascii)
      else none)
    |>.or (if "line vty".ascii.isPrefixOf top then
        some "the management path: the vty lines are how the tool logs in".ascii
      else none)
    |>.or (usedRefusal unit running)

end Verdict

end Nmas.Nsot.Removal
