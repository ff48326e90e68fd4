import Nmas.Text.Str

/-!
Owns: `nsot/platform_defaults.py`, the lines a device holds without printing
them. `hidden` is the one table every comparison of intent against a printed
configuration asks.
-/

namespace Nmas.Nsot.PlatformDefaults

open Nmas.Text

/-- A row of `HIDDEN`: a line matching `pattern`, under a top-level section
matching `section_`, with `depth` parents when a depth is given. -/
structure Rule where
  section_ : Str → Bool
  pattern : Str → Bool
  depth : Option Nat
  reason : String

variable [Unicode]

/-- `HIDDEN`. -/
def hiddenRules : List Rule :=
  [{ section_ := fun top =>
        (afterPrefix "ip sla ".ascii top).any (fun rest => rest != [] && rest.all isDecimal)
     pattern := fun text => text == "frequency 60".ascii
     depth := none
     reason := "an IP SLA operation's frequency at its default (60 s) is not printed (measured " ++
        "on vIOS, s2, C713; IOS-XE's documented default, its print owed a measurement)" },
    { section_ := fun top =>
        (afterPrefix "interface ".ascii top).any (fun rest => rest.head?.any (fun c => !isSpace c))
      pattern := fun text => text == "no shutdown".ascii
      depth := some 1
      reason := "an interface that is up prints no `no shutdown` line, only a shut one prints " ++
        "`shutdown` (measured on IOS-XE 17.06 after a deploy that sent it, C1401; every up " ++
        "interface in the fleet's IOS and IOS-XE captures prints neither)" }]

/-- `hidden`: why a line under its parents is a default the device does not
print, if it is one. -/
def hidden (chain : List Str) (line : Str) : Option String :=
  match chain with
  | [] => none
  | top :: _ =>
    (hiddenRules.find? (fun rule =>
      rule.depth.all (fun depth => chain.length == depth) && rule.section_ (strip top) &&
        rule.pattern (strip line))).map Rule.reason

/-- The lines `strip` keeps, behind the lines that are open, the innermost first. -/
def stripFrom (open_ : List (Nat × Str)) : List Str → List Str
  | [] => []
  | raw :: rest =>
    if strip raw = [] then raw :: stripFrom open_ rest
    else
      let depth := (raw.takeWhile (· = ' ')).length
      let above := open_.dropWhile (fun line => line.1 ≥ depth)
      let kept := stripFrom ((depth, strip raw) :: above) rest
      if (hidden (above.map Prod.snd).reverse raw).isNone then raw :: kept else kept

/-- `strip`: a configuration without the lines `hidden` names. -/
def stripHidden (text : Str) : Str :=
  ['\n'].intercalate (stripFrom [] (splitlines text)) ++
    if text.getLast? = some '\n' then ['\n'] else []

end Nmas.Nsot.PlatformDefaults
