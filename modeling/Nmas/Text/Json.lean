import Nmas.Text.Str

/-!
Contract: what a quoted string and a pattern of literals say, and the texts
`json.dumps` writes.

Owns: the reading of a double-quoted string by Go's rules, and of an RE2
pattern that is an alternation of literals; for each, the escape of one
character that reads back to it; the texts `json.dumps` writes for a string and
for a document of strings and numbers, in ASCII, its keys in the order given;
and the text a JSON string spells.

Does not own: the other patterns of RE2, and escapes of a byte beyond ASCII.
-/

namespace Nmas.Text

def hexValue (c : Char) : Option Nat :=
  if '0' ≤ c ∧ c ≤ '9' then some (c.toNat - 48)
  else if 'a' ≤ c ∧ c ≤ 'f' then some (c.toNat - 87)
  else if 'A' ≤ c ∧ c ≤ 'F' then some (c.toNat - 55)
  else none

/-- `%02x` of a byte. -/
def hexByte (byte : Nat) : Str := [Nat.digitChar (byte / 16), Nat.digitChar (byte % 16)]

def asciiOf (high low : Char) : Option Char := do
  let code := 16 * (← hexValue high) + (← hexValue low)
  if code < 128 then some (Char.ofNat code) else none

def isControl (c : Char) : Bool := c.toNat < 0x20 || c.toNat = 0x7f

namespace Go

def escapes : List (Char × Char) :=
  [('\\', '\\'), ('"', '"'), ('a', Char.ofNat 7), ('b', Char.ofNat 8), ('f', Char.ofNat 12),
    ('n', '\n'), ('r', '\r'), ('t', '\t'), ('v', Char.ofNat 11)]

def escaped (letter : Char) : Option Char :=
  (escapes.find? (fun pair => pair.1 = letter)).map Prod.snd

def unquote : Str → Option Str
  | [] => some []
  | c :: rest =>
    if c = '"' ∨ c = '\n' then none
    else if c = '\\' then
      match rest with
      | [] => none
      | letter :: more =>
        if letter = 'x' then
          match more with
          | high :: low :: last => (asciiOf high low).bind fun d => (unquote last).map (d :: ·)
          | _ => none
        else (escaped letter).bind fun d => (unquote more).map (d :: ·)
    else (unquote rest).map (c :: ·)

end Go

namespace Re2

def isPunctuation (c : Char) : Bool := 0x20 < c.toNat && c.toNat < 0x7f && !c.isAlphanum

def isMeta (c : Char) : Bool := "\\.+*?()|[]{}^$".ascii.contains c

/-- A character more in front of the first literal. -/
def before (c : Char) : List Str → List Str
  | [] => []
  | first :: rest => (c :: first) :: rest

def literals : Str → Option (List Str)
  | [] => some [[]]
  | c :: rest =>
    if c = '|' then (literals rest).map ([] :: ·)
    else if c = '\\' then
      match rest with
      | [] => none
      | d :: more =>
        if d = 'x' then
          match more with
          | opening :: high :: low :: closing :: last =>
            if opening = '{' ∧ closing = '}' then
              (asciiOf high low).bind fun e => (literals last).map (before e)
            else none
          | _ => none
        else if isPunctuation d then (literals more).map (before d)
        else none
    else if isMeta c then none
    else (literals rest).map (before c)

def Accepts (pattern text : Str) : Prop := ∃ texts, literals pattern = some texts ∧ text ∈ texts

end Re2

/-! ### One character -/

theorem toNat_of_isControl {c : Char} (control : isControl c) : c.toNat < 128 := by
  unfold isControl at control
  simp only [Bool.or_eq_true, decide_eq_true_eq] at control
  omega

theorem asciiOf_hexByte : ∀ byte < 128,
    asciiOf (Nat.digitChar (byte / 16)) (Nat.digitChar (byte % 16)) = some (Char.ofNat byte) := by
  decide

theorem asciiOf_control {c : Char} (control : isControl c) :
    asciiOf (Nat.digitChar (c.toNat / 16)) (Nat.digitChar (c.toNat % 16)) = some c := by
  rw [asciiOf_hexByte c.toNat (toNat_of_isControl control), Char.ofNat_toNat]

namespace Go

variable {rest : Str} {c : Char}

theorem unquote_control (control : isControl c) :
    unquote ('\\' :: 'x' :: hexByte c.toNat ++ rest) = (unquote rest).map (c :: ·) := by
  show (asciiOf (Nat.digitChar (c.toNat / 16)) (Nat.digitChar (c.toNat % 16))).bind _ = _
  rw [asciiOf_control control]
  rfl

theorem unquote_escaped {letter : Char} (notHex : letter ≠ 'x') (isEscaped : escaped letter = some c) :
    unquote ('\\' :: letter :: rest) = (unquote rest).map (c :: ·) := by
  rw [unquote.eq_def]
  simp only [if_false, or_self, if_true, if_neg notHex, isEscaped, Option.bind_some,
    show ('\\' : Char) ≠ '"' by decide, show ('\\' : Char) ≠ '\n' by decide]

theorem unquote_plain (notSlash : c ≠ '\\') (notQuote : c ≠ '"') (notLine : c ≠ '\n') :
    unquote (c :: rest) = (unquote rest).map (c :: ·) := by
  rw [unquote.eq_def]
  simp only [if_neg (not_or.mpr ⟨notQuote, notLine⟩), if_neg notSlash]

end Go

namespace Re2

variable {rest : Str} {c : Char}

theorem literals_control (control : isControl c) :
    literals ('\\' :: 'x' :: '{' :: hexByte c.toNat ++ '}' :: rest) =
      (literals rest).map (before c) := by
  show (asciiOf (Nat.digitChar (c.toNat / 16)) (Nat.digitChar (c.toNat % 16))).bind _ = _
  rw [asciiOf_control control]
  rfl

theorem literals_escaped (punctuation : isPunctuation c) :
    literals ('\\' :: c :: rest) = (literals rest).map (before c) := by
  have notHex : c ≠ 'x' := by
    rintro rfl
    cases punctuation
  rw [literals.eq_def]
  simp only [if_true, if_false, if_neg notHex, if_pos punctuation,
    show ('\\' : Char) ≠ '|' by decide]

theorem literals_plain (notMeta : isMeta c = false) :
    literals (c :: rest) = (literals rest).map (before c) := by
  have notSlash : c ≠ '\\' := by
    rintro rfl
    cases notMeta
  have notBar : c ≠ '|' := by
    rintro rfl
    cases notMeta
  rw [literals.eq_def]
  simp only [if_neg notBar, if_neg notSlash, notMeta, if_neg Bool.false_ne_true]

theorem literals_bar : literals ('|' :: rest) = (literals rest).map ([] :: ·) := by
  rw [literals.eq_def]
  simp only [if_true]

theorem isPunctuation_of_isMeta (isMeta : isMeta c) : isPunctuation c := by
  have all : ∀ c ∈ "\\.+*?()|[]{}^$".ascii, isPunctuation c := by decide
  exact all c (by simpa [Re2.isMeta] using isMeta)

end Re2

end Nmas.Text

namespace Nmas.Text

def hexUnit (unit : Nat) : Str :=
  let digits := Nat.toDigits 16 unit
  List.replicate (4 - digits.length) '0' ++ digits

/-- A character as `json.dumps` writes it in a string. -/
def jsonChar (c : Char) : Str :=
  if c = '"' then ['\\', '"']
  else if c = '\\' then ['\\', '\\']
  else if c = '\n' then ['\\', 'n']
  else if c = '\r' then ['\\', 'r']
  else if c = '\t' then ['\\', 't']
  else if c.toNat = 8 then ['\\', 'b']
  else if c.toNat = 12 then ['\\', 'f']
  else if 32 ≤ c.toNat ∧ c.toNat ≤ 126 then [c]
  else if c.toNat < 0x10000 then ['\\', 'u'] ++ hexUnit c.toNat
  else
    let code := c.toNat - 0x10000
    ['\\', 'u'] ++ hexUnit (0xd800 + code / 0x400) ++ ['\\', 'u'] ++ hexUnit (0xdc00 + code % 0x400)

def jsonString (text : Str) : Str := ['"'] ++ text.flatMap jsonChar ++ ['"']

def jsonObject (members : List (Str × Str)) : Str :=
  ['{'] ++ [',', ' '].intercalate
    (members.map (fun member => jsonString member.1 ++ [':', ' '] ++ member.2)) ++ ['}']

/-- The letters that follow a backslash in JSON, `u` apart. -/
def jsonEscapes : List (Char × Char) :=
  [('"', '"'), ('\\', '\\'), ('/', '/'), ('b', Char.ofNat 8), ('f', Char.ofNat 12), ('n', '\n'),
    ('r', '\r'), ('t', '\t')]

def jsonEscaped (letter : Char) : Option Char :=
  (jsonEscapes.find? (fun pair => pair.1 = letter)).map Prod.snd

def jsonUnit (digits : List Char) : Option Nat := do
  let values ← digits.mapM hexValue
  return values.foldl (fun unit value => 16 * unit + value) 0

/-- The text that stands between a JSON string's quotes, read; none where an
escape is not one, and for a surrogate alone. -/
def jsonText : Str → Option Str
  | [] => some []
  | c :: rest =>
    if c = '"' then none
    else if c = '\\' then
      match rest with
      | 'u' :: a :: b :: c :: d :: more => do
        let unit ← jsonUnit [a, b, c, d]
        if unit < 0xd800 ∨ 0xdfff < unit then (jsonText more).map (Char.ofNat unit :: ·)
        else
          match more with
          | '\\' :: 'u' :: e :: f :: g :: h :: last => do
            let low ← jsonUnit [e, f, g, h]
            if unit < 0xdc00 ∧ 0xdc00 ≤ low ∧ low ≤ 0xdfff then
              let code := 0x10000 + (unit - 0xd800) * 0x400 + (low - 0xdc00)
              (jsonText last).map (Char.ofNat code :: ·)
            else none
          | _ => none
      | letter :: more => do
        let d ← jsonEscaped letter
        (jsonText more).map (d :: ·)
      | [] => none
    else (jsonText rest).map (c :: ·)

end Nmas.Text
