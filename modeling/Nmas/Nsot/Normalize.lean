import Nmas.Nsot.IfNames

/-!
Owns: `nsot/normalize.py`, the line filters. Two of its jobs are used here:
`stripForDiff` with `stripSelfSignedCerts` before two complete configurations
are compared, and `stripForRoundtrip` before a configuration is read as
sections. `findNonPrintable` is the sendability scan.

The block filters read line by line with a small state. The regular expressions
they consult are matched by hand, each under the source's name.
-/

namespace Nmas.Nsot.Normalize

open Nmas.Text List

/-! ### Prefix tables -/

def nmasHeaderPrefixes : List Str :=
  ["! Golden config", "! Saved:", "! Source:", "! Pre-change"].map String.ascii

def iosEphemeralPrefixes : List Str :=
  ["! Last configuration", "! NVRAM config", "! No configuration", "Building configuration",
    "Current configuration", "ntp clock-period", "upgrade fpd", "version "].map String.ascii

def diffPrefixes : List Str :=
  iosEphemeralPrefixes ++ ["! Golden config", "! Saved:", "! Source:"].map String.ascii

def pipelineDiffPrefixes : List Str := diffPrefixes ++ ["! Pre-change".ascii]

def repoPrefixes : List Str :=
  ["! Last configuration", "! NVRAM config", "! No configuration", "Building configuration",
    "Current configuration", "ntp clock-period"].map String.ascii ++ nmasHeaderPrefixes

def unrenderableBlockPrefixes : List Str :=
  ["crypto pki certificate chain", "license udi"].map String.ascii

def unrenderableLinePrefixes : List Str :=
  nmasHeaderPrefixes ++
    ["Building configuration", "Current configuration", "boot-start-marker", "boot-end-marker",
      "! Call-home is enabled", "! Image:", "! Chassis type:", "! Processor ID:", "! CPU:",
      "! Memory:", "! NAME:", "! PID:", "! VTP:", "! Cisco IOS", "! Last configuration change",
      "version "].map String.ascii

def bannerOpeners : List Str :=
  ["banner motd", "banner login", "banner exec", "banner incoming"].map String.ascii

/-! ### Prefix filters -/

/-- `_matches`: a prefix only matches an unindented line, since
`NESTED_OK_PREFIXES` is empty. -/
def isVolatile (stripped line : Str) (prefixes : List Str) : Bool :=
  startsWithAny prefixes stripped && !(line.head? == some ' ' || line.head? == some '\t')

/-- `_strip`. -/
def stripLines (prefixes : List Str) (dropBlank dropBang : Bool) (text : Str) : List Str :=
  (splitlines text).filter (fun line =>
    !(dropBlank && strip line == []) && !(dropBang && strip line == ['!']) &&
      !isVolatile (strip line) line prefixes)

def stripForDiff (text : Str) (includePreChange : Bool) (dropBang : Bool) : List Str :=
  stripLines (if includePreChange then pipelineDiffPrefixes else diffPrefixes) true dropBang text

/-- `strip_provenance_comments` of a list of lines. -/
def stripProvenanceComments (lines : List Str) : List Str :=
  lines.filter (fun line => !(line.head? == some '!' && strip line.tail != []))

def stripForRepo (text : Str) : List Str := stripLines repoPrefixes false false text

/-! ### Blocks the device generates for itself -/

variable [Unicode]

/-- `_SELF_SIGNED` on a stripped line: the device's own trustpoint. -/
def isSelfSigned (stripped : Str) : Bool :=
  ["crypto pki trustpoint TP-self-signed-", "crypto pki certificate chain TP-self-signed-"].any
    (fun lead => (afterPrefix lead.ascii stripped).any (fun rest =>
      (rest.takeWhile isDecimal != []) && (rest.dropWhile isDecimal).all isSpace))

def opensDeviceOwned (stripped line : Str) : Bool :=
  !startsIndented line && (startsWithAny unrenderableBlockPrefixes stripped || isSelfSigned stripped)

/-- `strip_self_signed_certs`, inside a skipped stanza or not. -/
def stripSelfSignedFrom : Bool → List Str → List Str
  | _, [] => []
  | skipping, line :: rest =>
    if isSelfSigned (strip line) && !startsIndented line then stripSelfSignedFrom true rest
    else if skipping && (startsIndented line || strip line == []) then
      stripSelfSignedFrom true rest
    else line :: stripSelfSignedFrom false rest

/-- `strip_self_signed_certs` of a list of lines. -/
def stripSelfSignedCerts (lines : List Str) : List Str := stripSelfSignedFrom false lines

/-- `_AUTOINSTALL_SERIAL_CLIENT_ID`: the client-id an indented line sets. -/
def clientId (line : Str) : Option Str :=
  if startsIndented line then
    (afterPrefix "ip dhcp client client-id ascii ".ascii (lstrip line)).bind (fun rest =>
      let value := rest.takeWhile (fun c => !isSpace c)
      if value != [] && (rest.dropWhile (fun c => !isSpace c)).all isSpace then some value else none)
  else none

/-- `[0-9a-f]`. -/
def isHex (c : Char) : Bool := c.isDigit || ('a' ≤ c && c ≤ 'f')

/-- `[0-9a-f]{4}` followed by `separator`. -/
def afterHexGroup (separator : Char) (text : Str) : Option Str :=
  if (text.take 4).length == 4 && (text.take 4).all isHex && (text.drop 4).head? == some separator
  then some (text.drop 5) else none

/-- `_AUTOINSTALL_CLIENT_ID` on a client-id: the interface its MAC form names. -/
def macFormInterface (id : Str) : Option Str :=
  (((afterPrefix "cisco-".ascii id).bind (afterHexGroup '.')).bind (afterHexGroup '.')).bind
    (fun rest => (afterHexGroup '-' rest).bind (fun name => if name == [] then none else some name))

def autoinstallClientId (line interface serial : Str) : Bool :=
  (clientId line).any (fun id =>
    interface != [] &&
      ((macFormInterface id).any (fun name => name == IfNames.abbreviate interface) ||
        (serial != [] && id == serial)))

/-- `_LICENCE_SERIAL` on one line. -/
def licenceSerial (line : Str) : Option Str :=
  (afterPrefix "license udi pid ".ascii line).bind (fun rest =>
    if rest.takeWhile (fun c => !isSpace c) == [] then none
    else (afterPrefix " sn ".ascii (rest.dropWhile (fun c => !isSpace c))).bind (fun tail =>
      let serial := tail.takeWhile (fun c => !isSpace c)
      if serial != [] && (tail.dropWhile (fun c => !isSpace c)).all isSpace then some serial
      else none))

def deviceSerial (text : Str) : Str := ((splitNewlines text).findSome? licenceSerial).getD []

def bgpOwn (line section_ : Str) : Bool :=
  "router bgp ".ascii.isPrefixOf section_ && rstrip line == " bgp log-neighbor-changes".ascii

/-! ### Reading for sections -/

/-- How often `^C` occurs. -/
def caretCs : Str → Nat
  | '^' :: 'C' :: rest => caretCs rest + 1
  | _ :: rest => caretCs rest
  | [] => 0

/-- The state of the section filter between two lines. -/
structure StripState where
  inBlock : Bool := false
  inBanner : Bool := false
  interface : Str := []
  section_ : Str := []

/-- The section and interface an unindented line opens. -/
def StripState.enter (state : StripState) (stripped : Str) : StripState :=
  { state with
    section_ := stripped
    interface := (afterPrefix "interface ".ascii stripped).getD [] }

/-- One line of `strip_for_roundtrip`: the next state, and the line if it stays. -/
def roundtripStep (serial : Str) (state : StripState) (line : Str) : StripState × Option Str :=
  let stripped := strip line
  if state.inBanner then
    ({ state with inBanner := !(caretCs line != 0 || stripped == ['!']) }, none)
  else if startsWithAny bannerOpeners stripped then
    ({ state with inBanner := caretCs line < 2 }, none)
  else if state.inBlock && (line.head? == some ' ' || line.head? == some '\t' ||
      stripped == "quit".ascii) then
    (state, none)
  else if opensDeviceOwned stripped line then
    ({ state with inBlock := true }, none)
  else
    let state := { state with inBlock := false }
    if !startsIndented line then
      (state.enter stripped,
        if isVolatile stripped line unrenderableLinePrefixes then none else some line)
    else if autoinstallClientId line state.interface serial || bgpOwn line state.section_ then
      (state, none)
    else
      (state, if isVolatile stripped line unrenderableLinePrefixes then none else some line)

/-- `strip_for_roundtrip` from a given state. -/
def stripForRoundtripFrom (serial : Str) (state : StripState) : List Str → List Str
  | [] => []
  | line :: rest =>
    (roundtripStep serial state line).2.toList ++
      stripForRoundtripFrom serial (roundtripStep serial state line).1 rest

/-- `strip_for_roundtrip`: the lines a template can render. -/
def stripForRoundtrip (text : Str) : List Str :=
  stripForRoundtripFrom (deviceSerial text) {} (splitlines text)

/-! ### Sendability -/

omit [Unicode] in
/-- `PRINTABLE_MIN <= ord(char) <= PRINTABLE_MAX`. -/
def isPrintable (c : Char) : Bool := 0x20 ≤ c.toNat && c.toNat ≤ 0x7e

/-- `find_non_printable`: column, character and code point of each character
outside printable ASCII. -/
def findNonPrintable (text : Str) : List (Nat × Char × Nat) :=
  (text.zipIdx.filter (fun entry => !isPrintable entry.1)).map
    (fun entry => (entry.2 + 1, entry.1, entry.1.toNat))

/-! ### Filters only drop lines -/

theorem roundtripStep_keeps {serial : Str} {state : StripState} {line kept : Str}
    (stays : (roundtripStep serial state line).2 = some kept) : kept = line := by
  unfold roundtripStep at stays
  simp only at stays
  split_ifs at stays <;> simp_all

theorem stripForRoundtripFrom_sublist (serial : Str) (state : StripState) (lines : List Str) :
    (stripForRoundtripFrom serial state lines).Sublist lines := by
  induction lines generalizing state with
  | nil => exact .slnil
  | cons line rest ih =>
    rw [stripForRoundtripFrom]
    cases stays : (roundtripStep serial state line).2 with
    | none => exact (ih _).cons line
    | some kept =>
      rw [roundtripStep_keeps stays]
      exact (ih _).cons_cons line

theorem stripForRoundtrip_sublist (text : Str) :
    (stripForRoundtrip text).Sublist (splitlines text) :=
  stripForRoundtripFrom_sublist _ _ _

theorem noBreak_of_mem_stripForRoundtrip {text line : Str} (member : line ∈ stripForRoundtrip text) :
    '\n' ∉ line :=
  noBreak_of_mem_splitlines ((stripForRoundtrip_sublist text).subset member)

omit [Unicode] in
theorem findNonPrintable_eq_nil_iff {text : Str} :
    findNonPrintable text = [] ↔ ∀ c ∈ text, isPrintable c := by
  unfold findNonPrintable
  rw [map_eq_nil_iff, filter_eq_nil_iff]
  constructor
  · intro none_ c inside
    obtain ⟨index, found⟩ := mem_iff_getElem?.mp inside
    simpa using none_ (c, index) (mem_zipIdx_iff_getElem?.mpr found)
  · intro printable entry member
    simp [printable entry.1 (mem_iff_getElem?.mpr ⟨_, mem_zipIdx_iff_getElem?.mp member⟩)]

end Nmas.Nsot.Normalize
