import Nmas.Nsot.Rollback.LineRanges

/-!
Owns: the lines of a program `verify_scope.read_back` does not look for as they
were sent. `accountForm` and `accountHeld` read an account or enable line, whose
secret a device stores in another form, and `family` names the management
family of a section, of which the read-back passes over the banners.
-/

namespace Nmas.Nsot.ReadBack

open Nmas.Text

/-! ### Management families -/

/-- `MANAGEMENT`: what a family is, and how its top-level line starts. -/
def management : List (Str × List Str) :=
  [("terminal lines".ascii, ["line vty ", "line con ", "line aux "].map String.ascii),
    ("logging".ascii, ["logging ", "no logging "].map String.ascii),
    ("SNMP".ascii, ["snmp-server ", "no snmp-server "].map String.ascii),
    ("NTP".ascii, ["ntp ", "no ntp "].map String.ascii),
    ("banners".ascii, ["banner ", "no banner "].map String.ascii),
    ("users".ascii, ["username ", "no username "].map String.ascii),
    ("management sources".ascii,
      ["ip tftp source-interface ", "no ip tftp source-interface ", "ip ssh source-interface ",
        "no ip ssh source-interface "].map String.ascii)]

/-- `family`; the empty text for none. -/
def family (section_ : Str) : Str :=
  ((management.find? (fun row => startsWithAny row.2 section_)).map Prod.fst).getD []

/-! ### Accounts -/

inductive SecretKind
  | secret
  | password
deriving DecidableEq

/-- `account_form` with the type of `_ACCOUNT`; no name is the enable secret. -/
structure AccountForm where
  name : Option Str
  privilege : Option Str
  kind : SecretKind
  type : Option Str
deriving DecidableEq

def secretKind (word : Str) : Option SecretKind :=
  if word = "secret".ascii then some .secret
  else if word = "password".ascii then some .password
  else none

section Forms

variable [Unicode]

/-- `_ACCOUNT` from the kind on: an optional type, and a value. -/
def credential (name privilege : Option Str) : List Str → Option AccountForm
  | kind :: type :: _ :: _ =>
    (secretKind kind).map fun kind =>
      ⟨name, privilege, kind, if type.all isDecimal then some type else none⟩
  | [kind, _] => (secretKind kind).map fun kind => ⟨name, privilege, kind, none⟩
  | _ => none

/-- `_ACCOUNT`'s options: the first privilege among them, and the words after. -/
def accountOptions (privilege : Option Str) : List Str → Option Str × List Str
  | option :: value :: rest =>
    if option = "privilege".ascii ∧ value.all isDecimal = true then
      accountOptions (privilege <|> some value) rest
    else if option = "algorithm-type".ascii then accountOptions privilege rest
    else (privilege, option :: value :: rest)
  | rest => (privilege, rest)

def accountForm (line : Str) : Option AccountForm :=
  match words line with
  | lead :: rest =>
    if lead = "enable".ascii then credential none none rest
    else if lead = "username".ascii then
      match rest with
      | name :: more =>
        let options := accountOptions none more
        credential (some name) options.1 options.2
      | [] => none
    else none
  | [] => none

/-- `_STORED`: the forms a device stores a kind in. -/
def storedTypes : SecretKind → List Str
  | .secret => ["5", "8", "9"].map String.ascii
  | .password => ["0", "7"].map String.ascii

def AccountForm.storedType (form : AccountForm) : Option Str :=
  form.type <|> (match form.kind with
    | .password => some "0".ascii
    | .secret => none)

/-- Is a printed account one the device makes of the account sent? -/
def AccountForm.stores (printed wanted : AccountForm) : Bool :=
  (wanted.privilege.isNone || printed.privilege == wanted.privilege) &&
    (printed.kind == wanted.kind &&
      printed.storedType.any (fun type => (storedTypes wanted.kind).contains type))

/-- Why an account line does not read back. -/
inductive AccountMiss
  /-- "… is there with privilege …, not …" -/
  | privilege (printed wanted : Option Str)
  /-- "… is there with … type …, not a … the device makes" -/
  | form (printed : SecretKind) (type : Option Str) (wanted : SecretKind)
  /-- "the device prints no …" -/
  | none
deriving DecidableEq

def printedAccount (name : Option Str) (running : Str) : Option AccountForm :=
  (splitlines running).findSome? (fun printed =>
    (accountForm printed).filter (fun got => got.name == name))

/-- `account_held` of an account sent; `none` is the empty text. -/
def accountHeld (wanted : AccountForm) (running : Str) : Option AccountMiss :=
  match printedAccount wanted.name running with
  | some got =>
    if wanted.privilege.isSome ∧ got.privilege ≠ wanted.privilege then
      some (.privilege got.privilege wanted.privilege)
    else if got.kind ≠ wanted.kind ∨
        got.storedType.any (fun type => (storedTypes wanted.kind).contains type) = false then
      some (.form got.kind got.storedType wanted.kind)
    else none
  | none => some .none

theorem accountHeld_eq_none_iff {wanted : AccountForm} {running : Str} :
    accountHeld wanted running = none ↔
      ∃ got, printedAccount wanted.name running = some got ∧ got.stores wanted := by
  unfold accountHeld AccountForm.stores
  cases printedAccount wanted.name running with
  | none => simp
  | some got =>
    simp only [Option.some.injEq, exists_eq_left']
    cases wanted.privilege with
    | none =>
      simp only [Option.isSome_none, Bool.false_eq_true, false_and, if_false, Option.isNone_none,
        Bool.true_or, Bool.true_and]
      split_ifs with unstored
      · rcases unstored with otherKind | otherType
        · simp [otherKind]
        · simp only [otherType, Bool.and_false, Bool.false_eq_true]
      · push Not at unstored
        simpa using unstored
    | some level =>
      simp only [Option.isSome_some, true_and, Option.isNone_some, Bool.false_or]
      split_ifs with differs unstored
      · simp [differs]
      · rcases unstored with otherKind | otherType
        · simp [otherKind]
        · simp only [otherType, Bool.and_false, Bool.false_eq_true]
      · push Not at differs unstored
        simpa [differs] using unstored

end Forms

end Nmas.Nsot.ReadBack
