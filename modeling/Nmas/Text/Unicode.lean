import Mathlib.Data.List.Basic

/-!
Owns: the character classes behind the interpreter's `str` methods and `re`
escapes. A Python `str` is its list of code points.

White space and line boundaries are fixed sets and are spelled out here. The
letters and digits beyond ASCII come from the Unicode database the interpreter
ships, which changes between releases, so they are a parameter: `Unicode`
carries the two tables and the facts that every release agrees on.
-/

/-- The characters of an ASCII literal. They are read off its bytes, which
evaluates far faster than `String.toList` decodes it. -/
def String.ascii (literal : String) : List Char :=
  literal.toByteArray.data.toList.map (fun byte => Char.ofNat byte.toNat)

namespace Nmas.Text

/-- A Python `str`: its code points in order. -/
abbrev Str := List Char

instance lawfulText : LawfulBEq Str := inferInstance

instance lawfulChain : LawfulBEq (List Str) := inferInstance

-- Ahead of the search over every character that the finiteness of `Char` offers.
instance (priority := 2000) decidableForallMem (p : Char → Prop) [DecidablePred p] (text : Str) :
    Decidable (∀ c ∈ text, p c) :=
  List.decidableBAll p text

/-- `str.isspace` of one character, and `\s`. -/
def isSpace (c : Char) : Bool :=
  (0x09 ≤ c.toNat && c.toNat ≤ 0x0d) || (0x1c ≤ c.toNat && c.toNat ≤ 0x20) ||
    (0x2000 ≤ c.toNat && c.toNat ≤ 0x200a) ||
    [0x85, 0xa0, 0x1680, 0x2028, 0x2029, 0x202f, 0x205f, 0x3000].contains c.toNat

/-- The boundaries `str.splitlines` cuts at. -/
def isLineBreak (c : Char) : Bool :=
  [0x0a, 0x0b, 0x0c, 0x0d, 0x1c, 0x1d, 0x1e, 0x85, 0x2028, 0x2029].contains c.toNat

/-- The tables of the interpreter's Unicode database that `\w` and `\d` read. -/
class Unicode where
  /-- `str.isalnum` of one character. -/
  isAlnum : Char → Bool
  /-- The value of a decimal digit, as `\d` accepts and `int()` reads it. -/
  decimal : Char → Option Nat
  isAlnum_ascii : ∀ c, c.toNat < 128 → isAlnum c = c.isAlphanum
  decimal_ascii : ∀ c, c.toNat < 128 → decimal c = if c.isDigit then some (c.toNat - 48) else none
  decimal_not_space : ∀ c, (decimal c).isSome → isSpace c = false

/-- `\d`. -/
def isDecimal [Unicode] (c : Char) : Bool := (Unicode.decimal c).isSome

/-- `\w`. -/
def isWord [Unicode] (c : Char) : Bool := Unicode.isAlnum c || c == '_'

/-- `\b` before `rest`, at a place whose previous character is a word character. -/
def wordEnds [Unicode] : Str → Bool
  | [] => true
  | c :: _ => !isWord c

theorem isDecimal_ascii [Unicode] (c : Char) (ascii : c.toNat < 128) : isDecimal c = c.isDigit := by
  unfold isDecimal
  rw [Unicode.decimal_ascii c ascii]
  split <;> simp_all

theorem isSpace_of_isDecimal [Unicode] {c : Char} (digit : isDecimal c) : isSpace c = false :=
  Unicode.decimal_not_space c digit

theorem isDecimal_of_isSpace [Unicode] {c : Char} (space : isSpace c) : isDecimal c = false := by
  by_contra digit
  have notSpace := isSpace_of_isDecimal (by simpa using digit)
  rw [space] at notSpace
  exact Bool.noConfusion notSpace

/-- The database restricted to Basic Latin: exact on every ASCII text. -/
@[reducible] def basicLatin : Unicode where
  isAlnum c := c.toNat < 128 && c.isAlphanum
  decimal c := if c.isDigit then some (c.toNat - 48) else none
  isAlnum_ascii := by
    intro c ascii
    simp [ascii]
  decimal_ascii := by
    intro c _
    rfl
  decimal_not_space := by
    intro c digit
    by_cases isDigit : c.isDigit = true
    · simp only [Char.isDigit, Bool.and_eq_true, decide_eq_true_eq, ge_iff_le,
        UInt32.le_iff_toNat_le] at isDigit
      change 48 ≤ c.toNat ∧ c.toNat ≤ 57 at isDigit
      simp only [isSpace, Bool.or_eq_false_iff, Bool.and_eq_false_iff, decide_eq_false_iff_not,
        List.contains_eq_mem, List.mem_cons, List.not_mem_nil, or_false]
      refine ⟨⟨⟨?_, ?_⟩, ?_⟩, ?_⟩ <;> omega
    · simp [isDigit] at digit

end Nmas.Text
