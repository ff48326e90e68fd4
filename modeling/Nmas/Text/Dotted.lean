import Mathlib.Tactic.IntervalCases
import Nmas.Text.Addresses

/-!
Contract: an address's text reads back to the address.

Owns: digits in a base, dotted quads and groups of digits, each read as what it
was written from; and readers that read every address they write.
-/

namespace Nmas.Text

open List

/-! ### Digits -/

theorem digitOf_digitChar : ∀ base ≤ 16, ∀ digit < base, digitOf base digit.digitChar = some digit := by
  decide +kernel

theorem foldlM_digits {base value : Nat} (isBase : 1 < base) (isHex : base ≤ 16) :
    (Nat.toDigits base value).foldlM (fun value c => (digitOf base c).map (value * base + ·)) 0 =
      some value := by
  induction value using Nat.strong_induction_on with
  | _ value ih =>
    rw [Nat.toDigits_eq_if isBase]
    split
    · rename_i isDigit
      simp [digitOf_digitChar base isHex value isDigit]
    · rename_i notDigit
      have isLess : value / base < value := Nat.div_lt_self (by omega) isBase
      have isRest : value % base < base := Nat.mod_lt _ (by omega)
      rw [foldlM_append, ih _ isLess]
      simp [digitOf_digitChar base isHex _ isRest, Nat.div_add_mod']

theorem number_toDigits {base value : Nat} (isBase : 1 < base) (isHex : base ≤ 16) :
    number base (Nat.toDigits base value) = some value := by
  unfold number
  rw [if_neg Nat.toDigits_ne_nil, foldlM_digits isBase isHex]

theorem mem_toDigits {base value : Nat} (isBase : 1 < base) {c : Char}
    (isIn : c ∈ Nat.toDigits base value) : ∃ digit < base, c = digit.digitChar := by
  induction value using Nat.strong_induction_on with
  | _ value ih =>
    rw [Nat.toDigits_eq_if isBase] at isIn
    split at isIn
    · rename_i isDigit
      exact ⟨value, isDigit, mem_singleton.mp isIn⟩
    · rename_i notDigit
      rcases mem_append.mp isIn with isIn | isIn
      · exact ih _ (Nat.div_lt_self (by omega) isBase) isIn
      · exact ⟨value % base, Nat.mod_lt _ (by omega), mem_singleton.mp isIn⟩

theorem digitChar_plain : ∀ digit < 16, isSpace digit.digitChar = false ∧
    digit.digitChar ≠ '-' ∧ digit.digitChar ≠ '–' ∧ digit.digitChar ≠ '/' ∧
    digit.digitChar ≠ '.' ∧ digit.digitChar ≠ ':' := by
  decide +kernel

/-! ### Parts -/

section Parts

variable {separator : Char} {part rest : Str}

theorem splitAt_cons {c : Char} {parts : List Str} (notHere : c ≠ separator)
    (isRest : splitAt separator rest = part :: parts) :
    splitAt separator (c :: rest) = (c :: part) :: parts := by
  unfold splitAt at isRest ⊢
  rw [foldr_cons, if_neg notHere, isRest]

theorem splitAt_plain (plain : separator ∉ part) : splitAt separator part = [part] := by
  induction part with
  | nil => rfl
  | cons c later ih =>
    have notHere : c ≠ separator := fun same => plain (same ▸ (.head _))
    exact splitAt_cons notHere (ih fun isIn => plain (.tail _ isIn))

theorem splitAt_append (plain : separator ∉ part) :
    splitAt separator (part ++ separator :: rest) = part :: splitAt separator rest := by
  induction part with
  | nil => simp [splitAt]
  | cons c later ih =>
    have notHere : c ≠ separator := fun same => plain (same ▸ (.head _))
    exact splitAt_cons notHere (ih fun isIn => plain (.tail _ isIn))

theorem splitAt_intercalate {parts : List Str} (plain : ∀ part ∈ parts, separator ∉ part)
    (some_ : parts ≠ []) : splitAt separator ([separator].intercalate parts) = parts := by
  induction parts with
  | nil => exact absurd rfl some_
  | cons part later ih =>
    obtain ⟨isPlain, laterPlain⟩ := forall_mem_cons.mp plain
    cases later with
    | nil => simpa using splitAt_plain isPlain
    | cons next rest =>
      have shape : [separator].intercalate (part :: next :: rest) =
          part ++ separator :: [separator].intercalate (next :: rest) := by
        simp [List.intercalate, List.intersperse]
      rw [shape, splitAt_append isPlain, ih laterPlain (cons_ne_nil _ _)]

theorem mem_intercalate {parts : List Str} {c : Char} (isIn : c ∈ [separator].intercalate parts) :
    c = separator ∨ ∃ part ∈ parts, c ∈ part := by
  induction parts with
  | nil => simp [List.intercalate] at isIn
  | cons part later ih =>
    cases later with
    | nil => exact .inr ⟨part, mem_cons_self, by simpa [List.intercalate] using isIn⟩
    | cons next rest =>
      have shape : [separator].intercalate (part :: next :: rest) =
          part ++ separator :: [separator].intercalate (next :: rest) := by
        simp [List.intercalate, List.intersperse]
      rw [shape] at isIn
      rcases mem_append.mp isIn with isIn | isIn
      · exact .inr ⟨part, .head _, isIn⟩
      · rcases mem_cons.mp isIn with isSeparator | isIn
        · exact .inl isSeparator
        · rcases ih isIn with isSeparator | ⟨other, isOther, isIn⟩
          · exact .inl isSeparator
          · exact .inr ⟨other, .tail _ isOther, isIn⟩

end Parts

/-! ### Addresses -/

/-- An IPv6 address in its eight groups, none left out. -/
def showGroups (address : Address) : Str :=
  [':'].intercalate ([112, 96, 80, 64, 48, 32, 16, 0].map (fun shift =>
    Nat.toDigits 16 (address.number >>> shift % 65536)))

/-- The readers of the plain texts, which write an address so that they read it. -/
@[reducible] def groupReaders : Readers where
  int := colonReaders.int
  ipAddress := colonReaders.ipAddress
  ipNetwork := colonReaders.ipNetwork
  compressed address := if address.isV6 then showGroups address else showQuad address
  compressedNetwork network :=
    (if network.networkAddress.isV6 then showGroups network.networkAddress
      else showQuad network.networkAddress) ++ '/' :: Nat.toDigits 10 network.prefixlen

variable {address : Address}

theorem digits_plain {base value : Nat} (isBase : 1 < base) (isHex : base ≤ 16) {c : Char}
    (isIn : c ∈ Nat.toDigits base value) :
    isSpace c = false ∧ c ≠ '-' ∧ c ≠ '–' ∧ c ≠ '/' ∧ c ≠ '.' ∧ c ≠ ':' := by
  obtain ⟨digit, isDigit, rfl⟩ := mem_toDigits isBase isIn
  exact digitChar_plain digit (by omega)

theorem dottedQuad_showQuad (isV4 : address.isV6 = false) :
    dottedQuad (showQuad address) = some address := by
  have plain : ∀ part ∈ [24, 16, 8, 0].map (fun shift =>
      Nat.toDigits 10 (address.number >>> shift % 256)), '.' ∉ part := by
    refine forall_mem_map.mpr fun shift _ isIn => ?_
    exact (digits_plain (by omega) (by omega) isIn).2.2.2.2.1 rfl
  obtain ⟨isV6, value, fits⟩ := address
  cases isV4
  have bound : value < 2 ^ 32 := fits
  unfold dottedQuad showQuad
  rw [splitAt_intercalate plain (by simp)]
  have isNumber (value : Nat) : number 10 (Nat.toDigits 10 value) = some value :=
    number_toDigits (by omega) (by omega)
  simp only [map_cons, map_nil, isNumber]
  rw [dif_pos (by omega)]
  simp only [Nat.shiftRight_eq_div_pow, Option.some.injEq, Address.mk.injEq, true_and]
  omega

theorem dottedQuad_plain {text : Str} (plain : '.' ∉ text) : dottedQuad text = none := by
  unfold dottedQuad
  rw [splitAt_plain plain, map_singleton]
  cases number 10 text with
  | none | some value => rfl

theorem hextet_toDigits {value : Nat} (isGroup : value < 65536) :
    hextet (Nat.toDigits 16 value) = some value := by
  have isShort : (Nat.toDigits 16 value).length ≤ 4 :=
    (Nat.length_toDigits_le_iff (by omega) (by omega)).mpr (by omega)
  unfold hextet
  rw [if_pos isShort, number_toDigits (by omega) (by omega)]

theorem shiftRight_group (value : Nat) {upper shift : Nat} (isUpper : upper = shift + 16) :
    value >>> upper * 65536 + value >>> shift % 65536 = value >>> shift := by
  rw [isUpper, Nat.shiftRight_add, Nat.shiftRight_eq_div_pow (value >>> shift) 16]
  exact Nat.div_add_mod' (value >>> shift) 65536

theorem colonHex_of_splitAt {text : Str} {groups : List Str} {values : List Nat}
    (isSplit : splitAt ':' text = groups) (isFull : [] ∉ groups)
    (isRead : groups.mapM hextet = some values) (areEight : values.length = 8)
    (fits : values.foldl (fun value group => value * 65536 + group) 0 < 2 ^ 128) :
    colonHex text = some ⟨true, _, fits⟩ := by
  have noSkip : ((groups.drop 1).dropLast).idxOf? [] = none := by
    rw [List.idxOf?_eq_none_iff]
    exact fun isIn => isFull (mem_of_mem_drop (dropLast_subset _ isIn))
  have areRead : (groups.mapM hextet).filter (fun all => all.length = 8) = some values := by
    rw [isRead, Option.filter_some, if_pos (decide_eq_true areEight)]
  unfold colonHex
  simp only [isSplit, noSkip, areRead, Option.bind_some]
  exact dif_pos fits

theorem mapM_hextet (value : Nat) (shifts : List Nat) :
    (shifts.map (fun shift => Nat.toDigits 16 (value >>> shift % 65536))).mapM hextet =
      some (shifts.map (fun shift => value >>> shift % 65536)) := by
  induction shifts with
  | nil => rfl
  | cons shift shifts ih =>
    rw [map_cons, mapM_cons, hextet_toDigits (Nat.mod_lt _ (by omega)), ih]
    rfl

theorem foldl_group (value : Nat) {upper shift : Nat} (isUpper : upper = shift + 16)
    (shifts : List Nat) :
    ((shift :: shifts).map (fun shift => value >>> shift % 65536)).foldl
        (fun value group => value * 65536 + group) (value >>> upper) =
      (shifts.map (fun shift => value >>> shift % 65536)).foldl
        (fun value group => value * 65536 + group) (value >>> shift) := by
  rw [map_cons, foldl_cons, shiftRight_group value isUpper]

theorem foldl_groups {value : Nat} (bound : value < 2 ^ 128) :
    ([112, 96, 80, 64, 48, 32, 16, 0].map (fun shift => value >>> shift % 65536)).foldl
      (fun value group => value * 65536 + group) 0 = value := by
  have leading : value >>> 112 % 65536 = value >>> 112 := by
    refine Nat.mod_eq_of_lt ?_
    rw [Nat.shiftRight_eq_div_pow, Nat.div_lt_iff_lt_mul (by decide)]
    exact bound
  rw [map_cons, foldl_cons, zero_mul, zero_add, leading,
    foldl_group value (rfl : 112 = 96 + 16), foldl_group value (rfl : 96 = 80 + 16),
    foldl_group value (rfl : 80 = 64 + 16), foldl_group value (rfl : 64 = 48 + 16),
    foldl_group value (rfl : 48 = 32 + 16), foldl_group value (rfl : 32 = 16 + 16),
    foldl_group value (rfl : 16 = 0 + 16), map_nil, foldl_nil, Nat.shiftRight_zero]

theorem colonHex_showGroups (isV6 : address.isV6) :
    colonHex (showGroups address) = some address := by
  obtain ⟨isV6, value, fits⟩ := address
  cases isV6
  have bound : value < 2 ^ 128 := fits
  have plain : ∀ part ∈ [112, 96, 80, 64, 48, 32, 16, 0].map (fun shift =>
      Nat.toDigits 16 (value >>> shift % 65536)), ':' ∉ part := by
    refine forall_mem_map.mpr fun shift _ isIn => ?_
    exact (digits_plain (by omega) (by omega) isIn).2.2.2.2.2 rfl
  have isFull : [] ∉ [112, 96, 80, 64, 48, 32, 16, 0].map (fun shift =>
      Nat.toDigits 16 (value >>> shift % 65536)) := by
    intro isIn
    obtain ⟨shift, -, isEmpty⟩ := mem_map.mp isIn
    exact Nat.toDigits_ne_nil isEmpty
  have isRead := colonHex_of_splitAt (splitAt_intercalate plain (by simp)) isFull
    (mapM_hextet value _) (length_map _) ((foldl_groups bound).symm ▸ bound)
  simp only [foldl_groups bound] at isRead
  exact isRead

theorem groupReaders_reads (address : Address) :
    groupReaders.ipAddress (groupReaders.compressed address) = some address := by
  show (dottedQuad (if address.isV6 then showGroups address else showQuad address)).orElse
    (fun _ => colonHex (if address.isV6 then showGroups address else showQuad address)) = some address
  cases isV6 : address.isV6 with
  | false =>
    simp only [Bool.false_eq_true, if_false, dottedQuad_showQuad isV6, Option.orElse_some]
  | true =>
    have noDot : '.' ∉ showGroups address := by
      intro isIn
      rcases mem_intercalate isIn with isColon | ⟨part, isPart, isIn⟩
      · cases isColon
      · obtain ⟨shift, -, rfl⟩ := mem_map.mp isPart
        exact (digits_plain (by omega) (by omega) isIn).2.2.2.2.1 rfl
    simp only [if_true, dottedQuad_plain noDot, colonHex_showGroups isV6, Option.orElse_none]

theorem groupReaders_plain (address : Address) : ∀ c ∈ groupReaders.compressed address,
    isSpace c = false ∧ c ≠ '-' ∧ c ≠ '–' ∧ c ≠ '/' := by
  have separated (base : Nat) (isBase : 1 < base) (isHex : base ≤ 16) (modulus : Nat)
      (shifts : List Nat) (separator : Char)
      (isPlain : isSpace separator = false ∧ separator ≠ '-' ∧ separator ≠ '–' ∧ separator ≠ '/') :
      ∀ c ∈ [separator].intercalate (shifts.map (fun shift =>
        Nat.toDigits base (address.number >>> shift % modulus))),
          isSpace c = false ∧ c ≠ '-' ∧ c ≠ '–' ∧ c ≠ '/' := by
    intro c isIn
    rcases mem_intercalate isIn with rfl | ⟨part, isPart, isIn⟩
    · exact isPlain
    · obtain ⟨shift, -, rfl⟩ := mem_map.mp isPart
      have digits := digits_plain isBase isHex isIn
      exact ⟨digits.1, digits.2.1, digits.2.2.1, digits.2.2.2.1⟩
  show ∀ c ∈ (if address.isV6 then showGroups address else showQuad address), _
  split
  · exact separated 16 (by omega) (by omega) _ _ ':' (by decide)
  · exact separated 10 (by omega) (by omega) _ _ '.' (by decide)

theorem groupReaders_visible (address : Address) : groupReaders.compressed address ≠ [] := by
  intro isEmpty
  have isNone : groupReaders.ipAddress [] = none := by decide
  have isSome := groupReaders_reads address
  rw [isEmpty, isNone] at isSome
  cases isSome

end Nmas.Text
