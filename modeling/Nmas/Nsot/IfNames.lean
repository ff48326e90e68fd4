import Nmas.Text.Str

/-!
Owns: `nsot/ifnames.py`, canonical interface names. `canonicaliseLine` expands
every interface reference of a config line; free-form arguments and literal
tails are left alone.

The regular expressions are matched by hand. A reference is a whole token:
`_LINE_RE` requires the line's start, white space or a comma before it, and the
end, white space, a comma or `-` after it. No abbreviation holds a digit, so
the name is the token up to its first digit and the alternation's order never
decides.
-/

namespace Nmas.Nsot.IfNames

open Nmas.Text List

/-- `INTERFACE_PREFIXES`: each canonical prefix with its accepted abbreviations. -/
def interfacePrefixes : List (Str × List Str) :=
  [("TenGigabitEthernet", ["TenGigabitEthernet", "TenGigE", "TenGig", "Te"]),
    ("FortyGigabitEthernet", ["FortyGigabitEthernet", "FortyGigE", "Fo"]),
    ("HundredGigE", ["HundredGigE", "Hu"]),
    ("TwentyFiveGigE", ["TwentyFiveGigE", "Twe"]),
    ("GigabitEthernet", ["GigabitEthernet", "GigEthernet", "GigE", "Gi"]),
    ("FastEthernet", ["FastEthernet", "Fa"]),
    ("Ethernet", ["Ethernet", "Eth", "Et"]),
    ("Port-channel", ["Port-channel", "Po"]),
    ("Loopback", ["Loopback", "Lo"]),
    ("Tunnel", ["Tunnel", "Tu"]),
    ("Vlan", ["Vlan", "Vl"]),
    ("Serial", ["Serial", "Se"]),
    ("BDI", ["BDI"]),
    ("Multilink", ["Multilink", "Mu"]),
    ("VirtualPortGroup", ["VirtualPortGroup", "Vi"])].map
      (fun row => (row.1.ascii, row.2.map String.ascii))

/-- `_LOOKUP`: each abbreviation with its canonical prefix. The source sorts it
by length; the abbreviations are distinct in lower case, so the order decides
nothing. -/
def lookup : List (Str × Str) :=
  interfacePrefixes.flatMap (fun row => row.2.map (fun short => (short, row.1)))

/-- `str.lower()` of an ASCII word. -/
def lower (word : Str) : Str := word.map Char.toLower

def targetOf (word : Str) : Option Str :=
  (lookup.find? (fun entry => lower word == lower entry.1)).map Prod.snd

variable [Unicode]

/-- `[\d/.:]`. -/
def isNumberChar (c : Char) : Bool := isDecimal c || c == '/' || c == '.' || c == ':'

/-- `[A-Za-z\-]`. -/
def isNameChar (c : Char) : Bool := c.isAlpha || c == '-'

/-- `_SPLIT_RE`: the word and the numbers of an interface name. -/
def splitName (raw : Str) : Option (Str × Str) :=
  let word := raw.takeWhile isNameChar
  let numbers := lstrip (raw.dropWhile isNameChar)
  if raw.head?.any Char.isAlpha && numbers.all isNumberChar then some (word, numbers) else none

/-- `canonical`: expand an interface name to its long form. -/
def canonical (name : Str) : Str :=
  match splitName (strip name) with
  | some (word, numbers) =>
    match targetOf word with
    | some target => target ++ numbers
    | none => strip name
  | none => strip name

/-- `_SHORT_FORM`: the shortest display abbreviation of a canonical prefix. -/
def shortForm (target : Str) : Str :=
  ((interfacePrefixes.find? (fun row => row.1 == target)).bind (fun row => row.2.getLast?)).getD []

/-- `abbreviate`: shorten an interface name for display. -/
def abbreviate (name : Str) : Str :=
  match splitName (strip name) with
  | some (word, numbers) =>
    match targetOf word with
    | some target => shortForm target ++ numbers
    | none => strip name
  | none => strip name

/-! ### One token -/

def isSeparator (c : Char) : Bool := isSpace c || c == ','

/-- `_LINE_RE` on one token: the token of a reference with its name expanded,
any other token as it is. -/
def canonicalToken (token : Str) : Str :=
  let name := token.takeWhile (fun c => !isDecimal c)
  let numbers := (token.dropWhile (fun c => !isDecimal c)).takeWhile isNumberChar
  let beyond := (token.dropWhile (fun c => !isDecimal c)).dropWhile isNumberChar
  if lookup.any (fun entry => entry.1 == name) && numbers != [] &&
      (beyond == [] || beyond.head? == some '-')
  then canonical (name ++ numbers) ++ beyond
  else token

/-- `_LITERAL_TAIL_RE`'s words. -/
def literalWords : List Str :=
  ["ascii", "secret", "password", "key-string", "community"].map String.ascii

/-- `\b(?:ascii|…)` at the end of a token: after the start of the token or a
character that is not a word character. -/
def endsLiteral (token : Str) : Bool :=
  literalWords.any (fun word =>
    word.isSuffixOf token && wordEnds ((token.take (token.length - word.length)).getLast?.toList))

/-- The line with its references expanded, up to and including the first
literal keyword and the white space after it; the rest verbatim. The current
token is collected in reverse. -/
def expandFrom (token : Str) : Str → Str
  | [] => canonicalToken token.reverse
  | c :: rest =>
    if isSeparator c then
      canonicalToken token.reverse ++
        c :: (if isSpace c && endsLiteral token.reverse then rest else expandFrom [] rest)
    else expandFrom (c :: token) rest

/-! ### Free-form lines -/

def freeFormCommands : List Str := ["description", "banner", "remark", "name"].map String.ascii

/-- The text after `(?:no\s+)?`. -/
def afterNo (body : Str) : Str :=
  if "no".ascii.isPrefixOf body && (body.drop 2).head?.any isSpace then lstrip (body.drop 2)
  else body

/-- `_FREE_FORM_RE`'s second group: the argument of a free-form command. -/
def freeFormArgument (line : Str) : Option Str :=
  (freeFormCommands.find? (fun word =>
    word.isPrefixOf (afterNo (lstrip line)) &&
      wordEnds ((afterNo (lstrip line)).drop word.length))).map
    (fun word => (afterNo (lstrip line)).drop word.length)

/-- `$` also matches before one trailing newline, which `.` does not. -/
def withoutNewline (text : Str) : Str := if text.getLast? = some '\n' then text.dropLast else text

/-- Does `_FREE_FORM_RE` match the line? -/
def isFreeForm (line : Str) : Bool :=
  (freeFormArgument line).any (fun argument => !(withoutNewline argument).contains '\n')

/-- `canonicalise_line`: expand every interface reference in a config line. -/
def canonicaliseLine (line : Str) : Str :=
  if isFreeForm line then withoutNewline line else expandFrom [] line

/-! ### The table -/

/-- What the development needs of the table: abbreviations are runs of letters
and dashes, expand to their own row's prefix, and every canonical prefix is an
abbreviation of itself. -/
private def LookupSound (entry : Str × Str) : Prop :=
  entry.1 ≠ [] ∧ entry.1.head?.any Char.isAlpha ∧ (∀ c ∈ entry.1, isNameChar c = true) ∧
    targetOf entry.1 = some entry.2 ∧ (entry.2, entry.2) ∈ lookup

omit [Unicode] in
private theorem lookup_sound : ∀ entry ∈ lookup, LookupSound entry := by
  unfold LookupSound
  decide

omit [Unicode] in
private theorem isNameChar_ascii {c : Char} (nameChar : isNameChar c) :
    c.toNat < 128 ∧ c.isDigit = false ∧ isSpace c = false ∧ c ≠ ',' ∧ c ≠ '/' ∧ c ≠ '.' ∧
      c ≠ ':' := by
  unfold isNameChar at nameChar
  rcases Bool.or_eq_true _ _ |>.mp nameChar with letter | dash
  · change (decide (c.val ≥ 65 ∧ c.val ≤ 90) || (decide (c.val ≥ 97) && decide (c.val ≤ 122))) = true
      at letter
    simp only [Bool.or_eq_true, Bool.and_eq_true, decide_eq_true_eq, ge_iff_le,
      UInt32.le_iff_toNat_le] at letter
    change (65 ≤ c.toNat ∧ c.toNat ≤ 90) ∨ (97 ≤ c.toNat ∧ c.toNat ≤ 122) at letter
    refine ⟨by omega, ?_, ?_, ?_, ?_, ?_, ?_⟩
    · simp only [Char.isDigit, Bool.and_eq_false_iff, decide_eq_false_iff_not, ge_iff_le,
        UInt32.le_iff_toNat_le]
      change ¬ 48 ≤ c.toNat ∨ ¬ c.toNat ≤ 57
      omega
    · simp only [isSpace, Bool.or_eq_false_iff, Bool.and_eq_false_iff, decide_eq_false_iff_not,
        contains_eq_mem, mem_cons, not_mem_nil, or_false]
      refine ⟨⟨⟨?_, ?_⟩, ?_⟩, ?_⟩ <;> omega
    all_goals rintro rfl; simp at letter
  · rw [beq_iff_eq] at dash
    subst dash
    decide

private theorem isDecimal_of_isNameChar {c : Char} (nameChar : isNameChar c) :
    isDecimal c = false := by
  have ascii := isNameChar_ascii nameChar
  rw [isDecimal_ascii c ascii.1]
  exact ascii.2.1

private theorem isNumberChar_of_isNameChar {c : Char} (nameChar : isNameChar c) :
    isNumberChar c = false := by
  have ascii := isNameChar_ascii nameChar
  simp [isNumberChar, isDecimal_of_isNameChar nameChar, ascii.2.2.2.2]

private theorem isNameChar_of_isNumberChar {c : Char} (numberChar : isNumberChar c) :
    isNameChar c = false := by
  rw [Bool.eq_false_iff]
  intro nameChar
  exact absurd numberChar (by rw [isNumberChar_of_isNameChar nameChar]; decide)

private theorem isSpace_of_isNumberChar {c : Char} (numberChar : isNumberChar c) :
    isSpace c = false := by
  simp only [isNumberChar, Bool.or_eq_true, beq_iff_eq] at numberChar
  rcases numberChar with ((digit | rfl) | rfl) | rfl
  · exact isSpace_of_isDecimal digit
  all_goals decide

private theorem canonical_of_lookup {entry : Str × Str} (member : entry ∈ lookup) {numbers : Str}
    (allNumbers : ∀ c ∈ numbers, isNumberChar c) :
    canonical (entry.1 ++ numbers) = entry.2 ++ numbers := by
  obtain ⟨nonempty, startsAlpha, nameChars, expands, _⟩ := lookup_sound entry member
  have noSpace : ∀ c ∈ entry.1 ++ numbers, isSpace c = false := by
    intro c inside
    rcases mem_append.mp inside with inName | inNumbers
    · exact (isNameChar_ascii (nameChars c inName)).2.2.1
    · exact isSpace_of_isNumberChar (allNumbers c inNumbers)
  have stripped : strip (entry.1 ++ numbers) = entry.1 ++ numbers := strip_of_no_space noSpace
  have numbersStop : numbers.takeWhile isNameChar = [] ∧ numbers.dropWhile isNameChar = numbers := by
    cases numbers with
    | nil => simp
    | cons c rest =>
      have stop : isNameChar c = false := by
        by_contra nameChar
        have := isNumberChar_of_isNameChar (by simpa using nameChar)
        simp [allNumbers c (by simp)] at this
      simp [stop]
  have wordPart : (entry.1 ++ numbers).takeWhile isNameChar = entry.1 := by
    rw [takeWhile_append_of_pos nameChars, numbersStop.1, append_nil]
  have numberPart : (entry.1 ++ numbers).dropWhile isNameChar = numbers := by
    rw [dropWhile_append_of_pos nameChars, numbersStop.2]
  have unspaced : lstrip numbers = numbers :=
    lstrip_of_no_space (fun c inside => noSpace c (mem_append_right _ inside))
  have startsAlpha' : (entry.1 ++ numbers).head?.any Char.isAlpha := by
    obtain ⟨first, rest, split⟩ := exists_cons_of_ne_nil nonempty
    rw [split] at startsAlpha ⊢
    simpa using startsAlpha
  have split : splitName (entry.1 ++ numbers) = some (entry.1, numbers) := by
    unfold splitName
    rw [wordPart, numberPart, unspaced, startsAlpha', if_pos]
    simpa using allNumbers
  unfold canonical
  rw [stripped, split]
  simp only [expands]

/-! ### What expansion does to a token -/

/-- A token is either left alone, or it is an abbreviation with numbers and
perhaps a range behind them, and only the abbreviation is replaced. -/
private inductive TokenCase (token : Str) : Prop where
  | same (unchanged : canonicalToken token = token)
  | expanded (entry : Str × Str) (numbers beyond : Str) (member : entry ∈ lookup)
      (nonempty : numbers ≠ []) (allNumbers : ∀ c ∈ numbers, isNumberChar c = true)
      (startsDigit : numbers.head?.any isDecimal = true)
      (range : beyond = [] ∨ beyond.head? = some '-')
      (source : token = entry.1 ++ (numbers ++ beyond))
      (result : canonicalToken token = entry.2 ++ (numbers ++ beyond))

private theorem tokenCase (token : Str) : TokenCase token := by
  set name := token.takeWhile (fun c => !isDecimal c) with nameDef
  set tail := token.dropWhile (fun c => !isDecimal c) with tailDef
  have source : token = name ++ tail := takeWhile_append_dropWhile.symm
  have tailSplit : tail = tail.takeWhile isNumberChar ++ tail.dropWhile isNumberChar :=
    takeWhile_append_dropWhile.symm
  have unfolded : canonicalToken token =
      if lookup.any (fun entry => entry.1 == name) && tail.takeWhile isNumberChar != [] &&
          (tail.dropWhile isNumberChar == [] || (tail.dropWhile isNumberChar).head? == some '-')
      then canonical (name ++ tail.takeWhile isNumberChar) ++ tail.dropWhile isNumberChar
      else token := rfl
  split_ifs at unfolded with reference
  · simp only [Bool.and_eq_true, any_eq_true, beq_iff_eq, bne_iff_ne, ne_eq,
      Bool.or_eq_true] at reference
    obtain ⟨⟨⟨entry, member, named⟩, nonempty⟩, range⟩ := reference
    have allNumbers : ∀ c ∈ tail.takeWhile isNumberChar, isNumberChar c :=
      fun c inside => mem_takeWhile_imp inside
    have startsDigit : (tail.takeWhile isNumberChar).head?.any isDecimal := by
      cases tailCase : tail with
      | nil => simp [tailCase] at nonempty
      | cons c rest =>
        have digit : isDecimal c := by
          have := List.head?_dropWhile_not (fun c => !isDecimal c) token
          rw [← tailDef, tailCase] at this
          simpa using this
        simp [isNumberChar, digit]
    refine .expanded entry _ _ member nonempty allNumbers startsDigit range ?_ ?_
    · rw [named, ← tailSplit, ← source]
    · rw [unfolded, ← named, canonical_of_lookup member allNumbers, append_assoc]
  · exact .same unfolded

theorem canonicalToken_idem (token : Str) :
    canonicalToken (canonicalToken token) = canonicalToken token := by
  cases tokenCase token with
  | same unchanged => rw [unchanged, unchanged]
  | expanded entry numbers beyond member nonempty allNumbers startsDigit range source result =>
    obtain ⟨_, _, _, _, ownRow⟩ := lookup_sound entry member
    obtain ⟨_, _, nameChars, _, _⟩ := lookup_sound _ ownRow
    obtain ⟨first, rest, numbersSplit⟩ := exists_cons_of_ne_nil nonempty
    have firstDigit : isDecimal first := by simpa [numbersSplit] using startsDigit
    have nameStops : ∀ c ∈ entry.2, (!isDecimal c) := fun c inside => by
      simp [isDecimal_of_isNameChar (nameChars c inside)]
    have namePart : (entry.2 ++ (numbers ++ beyond)).takeWhile (fun c => !isDecimal c) =
        entry.2 := by
      rw [takeWhile_append_of_pos nameStops]
      simp [numbersSplit, firstDigit]
    have tailPart : (entry.2 ++ (numbers ++ beyond)).dropWhile (fun c => !isDecimal c) =
        numbers ++ beyond := by
      rw [dropWhile_append_of_pos nameStops]
      simp [numbersSplit, firstDigit]
    have beyondStops : beyond.takeWhile isNumberChar = [] ∧
        beyond.dropWhile isNumberChar = beyond := by
      rcases range with rfl | dash
      · simp
      · cases beyond with
        | nil => simp
        | cons c rest =>
          obtain rfl : c = '-' := by simpa using dash
          have notNumber : isNumberChar '-' = false := isNumberChar_of_isNameChar (by decide)
          simp [notNumber]
    have numbersPart : (numbers ++ beyond).takeWhile isNumberChar = numbers := by
      rw [takeWhile_append_of_pos allNumbers, beyondStops.1, append_nil]
    have beyondPart : (numbers ++ beyond).dropWhile isNumberChar = beyond := by
      rw [dropWhile_append_of_pos allNumbers, beyondStops.2]
    rw [result]
    unfold canonicalToken
    simp only [namePart, tailPart, numbersPart, beyondPart]
    rw [canonical_of_lookup ownRow allNumbers, append_assoc, ite_self]

omit [Unicode] in
private theorem isSeparator_of_isNameChar {c : Char} (nameChar : isNameChar c) :
    isSeparator c = false := by
  have ascii := isNameChar_ascii nameChar
  simp [isSeparator, ascii.2.2.1, ascii.2.2.2.1]

private theorem canonicalToken_unseparated {token : Str}
    (unseparated : ∀ c ∈ token, isSeparator c = false) :
    ∀ c ∈ canonicalToken token, isSeparator c = false := by
  cases tokenCase token with
  | same unchanged => rwa [unchanged]
  | expanded entry numbers beyond member _ _ _ _ source result =>
    obtain ⟨_, _, _, _, ownRow⟩ := lookup_sound entry member
    obtain ⟨_, _, nameChars, _, _⟩ := lookup_sound _ ownRow
    rw [result]
    intro c inside
    rcases mem_append.mp inside with inName | inTail
    · exact isSeparator_of_isNameChar (nameChars c inName)
    · exact unseparated c (by rw [source]; exact mem_append_right _ inTail)

private theorem canonicalToken_getLast? (token : Str) :
    (canonicalToken token).getLast? = token.getLast? := by
  cases tokenCase token with
  | same unchanged => rw [unchanged]
  | expanded entry numbers beyond _ nonempty _ _ _ source result =>
    have tailNonempty : numbers ++ beyond ≠ [] := by simp [nonempty]
    rw [result, source, List.getLast?_append_of_ne_nil _ tailNonempty,
      List.getLast?_append_of_ne_nil _ tailNonempty]

private theorem canonicalToken_of_no_decimal {token : Str}
    (noDecimal : ∀ c ∈ canonicalToken token, isDecimal c = false) :
    canonicalToken token = token := by
  cases tokenCase token with
  | same unchanged => exact unchanged
  | expanded entry numbers beyond _ nonempty _ startsDigit _ _ result =>
    obtain ⟨first, rest, rfl⟩ := exists_cons_of_ne_nil nonempty
    have digit : isDecimal first := by simpa using startsDigit
    rw [noDecimal first (by rw [result]; simp)] at digit
    cases digit

omit [Unicode] in
private theorem literalWords_plain :
    ∀ word ∈ literalWords, word ≠ [] ∧ ∀ c ∈ word, isNameChar c := by
  decide

private theorem endsLiteral_append {front front' tail : Str} {c : Char}
    (last : front.getLast? = some c) (last' : front'.getLast? = some c)
    (notName : isNameChar c = false) :
    endsLiteral (front ++ tail) = endsLiteral (front' ++ tail) := by
  have inTail : ∀ word ∈ literalWords, ∀ before : Str, before.getLast? = some c →
      (word <:+ before ++ tail ↔ word <:+ tail) := by
    intro word member before isLast
    refine ⟨fun isSuffix => ?_, fun isSuffix => isSuffix.trans (suffix_append _ _)⟩
    rcases suffix_or_suffix_of_suffix isSuffix (suffix_append before tail) with
      short | ⟨extra, long⟩
    · exact short
    · have extraSuffix : extra <:+ before := by
        obtain ⟨lead, whole⟩ := isSuffix
        rw [← long, ← append_assoc] at whole
        exact ⟨lead, append_cancel_right whole⟩
      by_cases empty : extra = []
      · have same : tail = word := by rw [← long, empty, nil_append]
        exact same ▸ suffix_refl _
      · have inside : c ∈ word := by
          obtain ⟨lead, rfl⟩ := extraSuffix
          rw [List.getLast?_append_of_ne_nil _ empty] at isLast
          rw [← long]
          exact mem_append_left _ (mem_of_getLast? isLast)
        exact absurd ((literalWords_plain word member).2 c inside) (by rw [notName]; decide)
  have boundary : ∀ before : Str, ∀ width : Nat, before.getLast? = some c → width ≤ tail.length →
      ((before ++ tail).take ((before ++ tail).length - width)).getLast? =
        some ((tail.take (tail.length - width)).getLast?.getD c) := by
    intro before width isLast fits
    have cut : (before ++ tail).length - width = before.length + (tail.length - width) := by
      simp only [length_append]
      omega
    rw [cut, take_length_add_append, List.getLast?_append, isLast]
    cases (tail.take (tail.length - width)).getLast? <;> rfl
  unfold endsLiteral
  rw [Bool.eq_iff_iff, any_eq_true, any_eq_true]
  refine exists_congr fun word => and_congr_right fun member => ?_
  simp only [Bool.and_eq_true, isSuffixOf_iff_suffix]
  rw [inTail word member front last, inTail word member front' last']
  refine and_congr_right fun isSuffix => ?_
  rw [boundary front word.length last isSuffix.length_le,
    boundary front' word.length last' isSuffix.length_le]

private theorem endsLiteral_canonicalToken (token : Str) :
    endsLiteral (canonicalToken token) = endsLiteral token := by
  cases tokenCase token with
  | same unchanged => rw [unchanged]
  | expanded entry numbers beyond _ nonempty allNumbers _ _ source result =>
    obtain ⟨c, isLast⟩ := List.getLast?_isSome.mpr nonempty |> Option.isSome_iff_exists.mp
    rw [result, source, ← append_assoc, ← append_assoc]
    exact endsLiteral_append (c := c)
      (by rw [List.getLast?_append_of_ne_nil _ nonempty, isLast])
      (by rw [List.getLast?_append_of_ne_nil _ nonempty, isLast])
      (isNameChar_of_isNumberChar (allNumbers c (mem_of_getLast? isLast)))

/-! ### What expansion does to a line -/

private theorem canonicalToken_nil : canonicalToken [] = [] := rfl

private theorem expandFrom_token (token word : Str)
    (unseparated : ∀ c ∈ word, isSeparator c = false) :
    expandFrom token word = canonicalToken (token.reverse ++ word) := by
  induction word generalizing token with
  | nil => simp [expandFrom]
  | cons c rest ih =>
    rw [expandFrom, unseparated c (by simp), if_neg (by simp),
      ih (c :: token) (fun d inside => unseparated d (by simp [inside]))]
    simp

private theorem expandFrom_separator (token word rest : Str) {c : Char}
    (separator : isSeparator c) (unseparated : ∀ d ∈ word, isSeparator d = false) :
    expandFrom token (word ++ c :: rest) =
      canonicalToken (token.reverse ++ word) ++
        c :: (if isSpace c && endsLiteral (token.reverse ++ word) then rest
          else expandFrom [] rest) := by
  induction word generalizing token with
  | nil => simp [expandFrom, separator]
  | cons d word ih =>
    rw [cons_append, expandFrom, unseparated d (by simp), if_neg (by simp),
      ih (d :: token) (fun e inside => unseparated e (by simp [inside]))]
    simp

private theorem expandFrom_idem (token rest : Str)
    (unseparated : ∀ c ∈ token, isSeparator c = false) :
    expandFrom [] (expandFrom token rest) = expandFrom token rest := by
  induction rest generalizing token with
  | nil =>
    have clean : ∀ c ∈ canonicalToken token.reverse, isSeparator c = false :=
      canonicalToken_unseparated (by simpa using unseparated)
    rw [expandFrom, expandFrom_token [] _ clean]
    simpa using canonicalToken_idem token.reverse
  | cons c rest ih =>
    rw [expandFrom]
    by_cases separator : isSeparator c = true
    · have clean : ∀ c ∈ canonicalToken token.reverse, isSeparator c = false :=
        canonicalToken_unseparated (by simpa using unseparated)
      rw [if_pos separator, expandFrom_separator [] _ _ separator clean]
      simp only [reverse_nil, nil_append, canonicalToken_idem, endsLiteral_canonicalToken]
      by_cases literal : (isSpace c && endsLiteral token.reverse) = true
      · rw [if_pos literal, if_pos literal]
      · rw [if_neg literal, if_neg literal, ih [] (by simp)]
    · rw [if_neg separator]
      refine ih (c :: token) ?_
      intro d inside
      rcases mem_cons.mp inside with rfl | before
      · simpa using separator
      · exact unseparated d before

private theorem expandFrom_getLast? (token rest : Str) :
    (expandFrom token rest).getLast? = (token.reverse ++ rest).getLast? := by
  induction rest generalizing token with
  | nil => simp [expandFrom, canonicalToken_getLast?]
  | cons c rest ih =>
    rw [expandFrom]
    by_cases separator : isSeparator c = true
    · rw [if_pos separator, List.getLast?_append_of_ne_nil _ (by simp),
        List.getLast?_append_of_ne_nil _ (by simp), List.getLast?_cons, List.getLast?_cons]
      by_cases literal : (isSpace c && endsLiteral token.reverse) = true
      · rw [if_pos literal]
      · rw [if_neg literal, ih []]
        simp
    · rw [if_neg separator, ih (c :: token)]
      simp

private theorem expandFrom_of_no_decimal (token rest : Str)
    (noDecimal : ∀ c ∈ expandFrom token rest, isDecimal c = false) :
    expandFrom token rest = token.reverse ++ rest := by
  induction rest generalizing token with
  | nil =>
    rw [expandFrom] at noDecimal ⊢
    simpa using canonicalToken_of_no_decimal noDecimal
  | cons c rest ih =>
    rw [expandFrom] at noDecimal ⊢
    by_cases separator : isSeparator c = true
    · rw [if_pos separator] at noDecimal ⊢
      have front : canonicalToken token.reverse = token.reverse := canonicalToken_of_no_decimal
        (fun d inside => noDecimal d (mem_append_left _ inside))
      rw [front]
      by_cases literal : (isSpace c && endsLiteral token.reverse) = true
      · rw [if_pos literal]
      · rw [if_neg literal] at noDecimal ⊢
        have back := ih [] (fun d inside => noDecimal d (mem_append_right _ (.tail _ inside)))
        rw [back]
        simp
    · rw [if_neg separator] at noDecimal ⊢
      rw [ih (c :: token) noDecimal]
      simp

private theorem expandFrom_indent (indent body : Str) (allSpace : ∀ c ∈ indent, isSpace c) :
    expandFrom [] (indent ++ body) = indent ++ expandFrom [] body := by
  induction indent with
  | nil => rfl
  | cons c indent ih =>
    have space := allSpace c (by simp)
    have plain : endsLiteral [] = false := rfl
    rw [cons_append, expandFrom, isSeparator, space, Bool.true_or, if_pos rfl,
      reverse_nil, canonicalToken_nil, plain, Bool.and_false, if_neg (by simp),
      ih (fun d inside => allSpace d (by simp [inside]))]
    rfl

private theorem expandFrom_head (body : Str) (visible : body.head?.any isSpace = false) :
    (expandFrom [] body).head?.any isSpace = false := by
  set word := body.takeWhile (fun c => !isSeparator c) with wordDef
  have unseparated : ∀ c ∈ word, isSeparator c = false := by
    intro c inside
    simpa using mem_takeWhile_imp inside
  have clean := canonicalToken_unseparated unseparated
  have split : body = word ++ body.dropWhile (fun c => !isSeparator c) :=
    takeWhile_append_dropWhile.symm
  have visibleToken : (canonicalToken word).head?.any isSpace = false := by
    cases tokenEq : canonicalToken word with
    | nil => rfl
    | cons c rest =>
      have := clean c (by simp [tokenEq])
      simp only [isSeparator, Bool.or_eq_false_iff] at this
      simpa using this.1
  cases restCase : body.dropWhile (fun c => !isSeparator c) with
  | nil =>
    rw [restCase, append_nil] at split
    rw [split, expandFrom_token [] word unseparated]
    simpa using visibleToken
  | cons c rest =>
    have separator : isSeparator c := by
      have := List.head?_dropWhile_not (fun c => !isSeparator c) body
      rw [restCase] at this
      simpa using this
    rw [restCase] at split
    rw [split, expandFrom_separator [] word rest separator unseparated]
    simp only [reverse_nil, nil_append]
    cases tokenEq : canonicalToken word with
    | cons d more => rw [tokenEq] at visibleToken; simpa using visibleToken
    | nil =>
      have empty : word = [] := by
        have last := canonicalToken_getLast? word
        rw [tokenEq] at last
        exact List.getLast?_eq_none_iff.mp last.symm
      rw [empty] at split
      rw [split] at visible
      simpa using visible

omit [Unicode] in
private theorem lookup_upper : ∀ entry ∈ lookup, entry.2.head?.any Char.isUpper := by decide +kernel

private theorem canonicalToken_head {token : Str} {c : Char}
    (isHead : (canonicalToken token).head? = some c) (notUpper : c.isUpper = false) :
    token.head? = some c := by
  cases tokenCase token with
  | same unchanged => rwa [unchanged] at isHead
  | expanded entry numbers beyond member _ _ _ _ source result =>
    have isUpper := lookup_upper entry member
    rw [result] at isHead
    cases isTarget : entry.2 with
    | nil => simp [isTarget] at isUpper
    | cons d rest =>
      simp only [isTarget, cons_append, List.head?_cons, Option.some.injEq] at isHead
      simp [isTarget, isHead, notUpper] at isUpper

private theorem expandFrom_head_eq {body : Str} {c : Char}
    (isHead : (expandFrom [] body).head? = some c) (notUpper : c.isUpper = false) :
    body.head? = some c := by
  set word := body.takeWhile (fun c => !isSeparator c) with wordDef
  have unseparated : ∀ c ∈ word, isSeparator c = false := by
    intro c inside
    simpa using mem_takeWhile_imp inside
  have split : body = word ++ body.dropWhile (fun c => !isSeparator c) :=
    takeWhile_append_dropWhile.symm
  cases restCase : body.dropWhile (fun c => !isSeparator c) with
  | nil =>
    rw [restCase, append_nil] at split
    rw [split, expandFrom_token [] word unseparated] at isHead
    rw [split]
    exact canonicalToken_head isHead notUpper
  | cons d rest =>
    have separator : isSeparator d := by
      have := List.head?_dropWhile_not (fun c => !isSeparator c) body
      rw [restCase] at this
      simpa using this
    rw [restCase] at split
    rw [split, expandFrom_separator [] word rest separator unseparated] at isHead
    rw [split]
    simp only [reverse_nil, nil_append] at isHead
    cases tokenEq : canonicalToken word with
    | nil =>
      have empty : word = [] := by
        have last := canonicalToken_getLast? word
        rw [tokenEq] at last
        exact List.getLast?_eq_none_iff.mp last.symm
      rw [tokenEq] at isHead
      rw [empty]
      exact isHead
    | cons e more =>
      rw [tokenEq] at isHead
      have isToken : (canonicalToken word).head? = some c := by rw [tokenEq]; exact isHead
      rw [List.head?_append, canonicalToken_head isToken notUpper]
      rfl

private theorem mem_canonicalToken {token : Str} {c : Char} (inside : c ∈ canonicalToken token) :
    c ∈ token ∨ isNameChar c := by
  cases tokenCase token with
  | same unchanged => exact .inl (unchanged ▸ inside)
  | expanded entry numbers beyond member _ _ _ _ source result =>
    obtain ⟨_, _, _, _, ownRow⟩ := lookup_sound entry member
    obtain ⟨_, _, nameChars, _, _⟩ := lookup_sound _ ownRow
    rw [result] at inside
    rcases mem_append.mp inside with inName | inTail
    · exact .inr (nameChars c inName)
    · exact .inl (source ▸ mem_append_right _ inTail)

private theorem mem_expandFrom {token rest : Str} {c : Char} (inside : c ∈ expandFrom token rest) :
    c ∈ token ∨ c ∈ rest ∨ isNameChar c := by
  induction rest generalizing token with
  | nil =>
    rw [expandFrom] at inside
    rcases mem_canonicalToken inside with old | new
    · exact .inl (mem_reverse.mp old)
    · exact .inr (.inr new)
  | cons d rest ih =>
    rw [expandFrom] at inside
    by_cases separator : isSeparator d = true
    · rw [if_pos separator, mem_append, mem_cons] at inside
      rcases inside with inToken | rfl | inRest
      · rcases mem_canonicalToken inToken with old | new
        · exact .inl (mem_reverse.mp old)
        · exact .inr (.inr new)
      · simp
      · split_ifs at inRest
        · exact .inr (.inl (.tail _ inRest))
        · rcases ih inRest with impossible | old | new
          · cases impossible
          · exact .inr (.inl (.tail _ old))
          · exact .inr (.inr new)
    · rw [if_neg separator] at inside
      rcases ih inside with old | old | new
      · rcases mem_cons.mp old with rfl | older
        · simp
        · exact .inl older
      · exact .inr (.inl (.tail _ old))
      · exact .inr (.inr new)

/-! ### What canonical spelling keeps -/

section Line

variable {line : Str}

theorem canonicaliseLine_of_last (noNewline : line.getLast? ≠ some '\n') :
    canonicaliseLine line = if isFreeForm line then line else expandFrom [] line := by
  rw [canonicaliseLine, withoutNewline, if_neg noNewline]

theorem canonicaliseLine_of_noBreak (noBreak : '\n' ∉ line) :
    canonicaliseLine line = if isFreeForm line then line else expandFrom [] line :=
  canonicaliseLine_of_last fun isLast => noBreak (mem_of_getLast? isLast)

theorem canonicaliseLine_head (noBreak : '\n' ∉ line) {c : Char}
    (isHead : (canonicaliseLine line).head? = some c) (notUpper : c.isUpper = false) :
    line.head? = some c := by
  rw [canonicaliseLine_of_noBreak noBreak] at isHead
  by_cases freeForm : isFreeForm line
  · rwa [if_pos freeForm] at isHead
  · rw [if_neg freeForm] at isHead
    exact expandFrom_head_eq isHead notUpper

theorem mem_canonicaliseLine (noBreak : '\n' ∉ line) {c : Char}
    (inside : c ∈ canonicaliseLine line) : c ∈ line ∨ isNameChar c := by
  rw [canonicaliseLine_of_noBreak noBreak] at inside
  split_ifs at inside
  · exact .inl inside
  · simpa using mem_expandFrom inside

theorem noBreak_canonicaliseLine (noBreak : '\n' ∉ line) : '\n' ∉ canonicaliseLine line := by
  intro inside
  rcases mem_canonicaliseLine noBreak inside with old | new
  · exact noBreak old
  · exact absurd new (by decide)

/-- **Canonical spelling is a normal form** for a line without a line break. -/
theorem canonicaliseLine_idem (noBreak : '\n' ∉ line) :
    canonicaliseLine (canonicaliseLine line) = canonicaliseLine line := by
  rw [canonicaliseLine_of_noBreak noBreak]
  by_cases freeForm : isFreeForm line = true
  · rw [if_pos freeForm, canonicaliseLine_of_noBreak noBreak, if_pos freeForm]
  · rw [if_neg freeForm, canonicaliseLine]
    by_cases expandedFree : isFreeForm (expandFrom [] line) = true
    · rw [if_pos expandedFree, withoutNewline, if_neg]
      rw [expandFrom_getLast?]
      intro isLast
      exact noBreak (by simpa using mem_of_getLast? isLast)
    · rw [if_neg expandedFree, expandFrom_idem [] line (by simp)]

theorem canonicaliseLine_getLast? (noNewline : line.getLast? ≠ some '\n') :
    (canonicaliseLine line).getLast? = line.getLast? := by
  rw [canonicaliseLine_of_last noNewline]
  split
  · rfl
  · simpa using expandFrom_getLast? [] line

theorem rstrip_canonicaliseLine (noBreak : '\n' ∉ line) (stripped : rstrip line = line) :
    rstrip (canonicaliseLine line) = canonicaliseLine line := by
  rw [rstrip_eq_self_iff] at stripped ⊢
  rwa [canonicaliseLine_getLast? fun isLast => noBreak (mem_of_getLast? isLast)]

theorem takeWhile_canonicaliseLine (noBreak : '\n' ∉ line) :
    (canonicaliseLine line).takeWhile isSpace = line.takeWhile isSpace := by
  rw [canonicaliseLine_of_noBreak noBreak]
  split
  · rfl
  · have allSpace : ∀ c ∈ line.takeWhile isSpace, isSpace c :=
      fun c inside => mem_takeWhile_imp inside
    have visible : (lstrip line).head?.any isSpace = false := by
      cases bodyCase : lstrip line with
      | nil => rfl
      | cons c rest =>
        have := List.head?_dropWhile_not isSpace line
        rw [show line.dropWhile isSpace = c :: rest from bodyCase] at this
        simpa using this
    have expandedVisible := expandFrom_head (lstrip line) visible
    conv_lhs => rw [← takeWhile_append_lstrip line, expandFrom_indent _ _ allSpace]
    rw [takeWhile_append_of_pos allSpace]
    cases expandedCase : expandFrom [] (lstrip line) with
    | nil => simp
    | cons c rest =>
      rw [expandedCase] at expandedVisible
      simp only [List.head?_cons, Option.any_some] at expandedVisible
      simp [expandedVisible]

theorem indentOf_canonicaliseLine (noBreak : '\n' ∉ line) :
    indentOf (canonicaliseLine line) = indentOf line := by
  rw [indentOf_eq_takeWhile, indentOf_eq_takeWhile, takeWhile_canonicaliseLine noBreak]

theorem canonicaliseLine_of_no_decimal (noBreak : '\n' ∉ line)
    (noDecimal : ∀ c ∈ canonicaliseLine line, isDecimal c = false) :
    canonicaliseLine line = line := by
  rw [canonicaliseLine_of_noBreak noBreak] at noDecimal ⊢
  split_ifs at noDecimal ⊢ with freeForm
  · rfl
  · simpa using expandFrom_of_no_decimal [] line noDecimal

theorem canonicaliseLine_indent {indent body : Str} (blank : ∀ c ∈ indent, isSpace c)
    (noBreak : '\n' ∉ indent ++ body) :
    canonicaliseLine (indent ++ body) = indent ++ canonicaliseLine body := by
  have bodyNoBreak : '\n' ∉ body := fun inside => noBreak (mem_append_right _ inside)
  have sameBody : lstrip (indent ++ body) = lstrip body := by
    unfold lstrip
    rw [dropWhile_append_of_pos blank]
  have sameForm : isFreeForm (indent ++ body) = isFreeForm body := by
    simp only [isFreeForm, freeFormArgument, sameBody]
  rw [canonicaliseLine_of_noBreak noBreak, canonicaliseLine_of_noBreak bodyNoBreak, sameForm]
  split_ifs
  · rfl
  · exact expandFrom_indent indent body blank

theorem canonicaliseLine_lstrip (noBreak : '\n' ∉ line) (canonical : canonicaliseLine line = line) :
    canonicaliseLine (lstrip line) = lstrip line := by
  have blank : ∀ c ∈ line.takeWhile isSpace, isSpace c :=
    fun c inside => mem_takeWhile_imp inside
  have parts : canonicaliseLine (line.takeWhile isSpace ++ lstrip line) =
      line.takeWhile isSpace ++ canonicaliseLine (lstrip line) :=
    canonicaliseLine_indent blank (by rwa [takeWhile_append_lstrip])
  rw [takeWhile_append_lstrip, canonical] at parts
  conv_lhs at parts => rw [← takeWhile_append_lstrip line]
  exact (append_cancel_left parts).symm

end Line

/-! ### Behind a `no` -/

section No

variable {body : Str}

omit [Unicode] in
theorem afterNo_of_words (notNo : (words body).head? ≠ some "no".ascii) : afterNo body = body := by
  unfold afterNo
  rw [if_neg]
  rintro isNo
  simp only [Bool.and_eq_true] at isNo
  obtain ⟨leads, spaced⟩ := isNo
  obtain ⟨rest, rfl⟩ := isPrefixOf_iff_prefix.mp leads
  have dropped : ("no".ascii ++ rest).drop 2 = rest := rfl
  rw [dropped] at spaced
  cases rest with
  | nil => cases spaced
  | cons c rest =>
    refine notNo ?_
    rw [words_cons (by decide) (by decide) (by simpa using spaced)]
    rfl

omit [Unicode] in
private theorem afterNo_no (body : Str) : afterNo ("no ".ascii ++ body) = lstrip body := by
  have split : "no ".ascii ++ body = 'n' :: 'o' :: ' ' :: body := rfl
  have unspaced : lstrip (' ' :: body) = lstrip body := by
    have blank : isSpace ' ' := by decide
    rw [lstrip, dropWhile_cons, if_pos blank]
    rfl
  have leads : "no".ascii.isPrefixOf ('n' :: 'o' :: ' ' :: body) := by
    rw [List.isPrefixOf_iff_prefix]
    exact ⟨' ' :: body, rfl⟩
  have spaced : (('n' :: 'o' :: ' ' :: body).drop 2).head?.any isSpace := by
    change isSpace ' ' = true
    decide
  rw [split, afterNo, leads, spaced, Bool.and_self, if_pos rfl]
  exact unspaced

private theorem freeForm_of_no (changed : afterNo body ≠ body) :
    freeFormCommands.find? (fun word =>
      word.isPrefixOf body && wordEnds (body.drop word.length)) = none := by
  have leads : "no".ascii.isPrefixOf body := by
    by_contra notNo
    exact changed (by simp [afterNo, notNo])
  obtain ⟨rest, rfl⟩ := isPrefixOf_iff_prefix.mp leads
  have other : ∀ word ∈ freeFormCommands, word.isPrefixOf ("no".ascii ++ rest) = false := by
    have starts : ∀ word ∈ freeFormCommands, word.take 2 ≠ "no".ascii ∧ 2 ≤ word.length := by decide
    intro word member
    by_contra isPrefix
    rw [Bool.not_eq_false, isPrefixOf_iff_prefix] at isPrefix
    obtain ⟨differs, long⟩ := starts word member
    refine differs ?_
    obtain ⟨more, split⟩ := isPrefix
    have front : ("no".ascii ++ rest).take 2 = "no".ascii := rfl
    rw [← front, ← split, take_append_of_le_length long]
  rw [List.find?_eq_none]
  intro word member
  simp [other word member]

private theorem expandFrom_no (body : Str) :
    expandFrom [] ("no ".ascii ++ body) = "no ".ascii ++ expandFrom [] body := by
  have noDecimal : ∀ c ∈ "no".ascii, isDecimal c = false := by
    have plain : ∀ c ∈ "no".ascii, c.toNat < 128 ∧ c.isDigit = false := by decide
    intro c inside
    rw [isDecimal_ascii c (plain c inside).1, (plain c inside).2]
  have noNumbers : "no".ascii.dropWhile (fun c => !isDecimal c) = [] := by
    rw [dropWhile_eq_nil_iff]
    intro c inside
    simp [noDecimal c inside]
  have noReference : canonicalToken "no".ascii = "no".ascii := by
    simp [canonicalToken, noNumbers]
  have notLiteral : endsLiteral "no".ascii = false := by
    have noSuffix : ∀ word ∈ literalWords, word.isSuffixOf "no".ascii = false := by decide
    rw [endsLiteral, any_eq_false]
    intro word member
    simp [noSuffix word member]
  have step : expandFrom [] ("no".ascii ++ ' ' :: body) =
      canonicalToken ([].reverse ++ "no".ascii) ++
        ' ' :: (if isSpace ' ' && endsLiteral ([].reverse ++ "no".ascii) then body
          else expandFrom [] body) :=
    expandFrom_separator [] "no".ascii body (by decide) (by decide)
  rw [reverse_nil, nil_append, noReference, notLiteral, Bool.and_false,
    if_neg (by simp)] at step
  exact step

theorem canonicaliseLine_starts_no (body : Str) :
    ∃ rest, canonicaliseLine ("no ".ascii ++ body) = "no ".ascii ++ rest := by
  unfold canonicaliseLine
  split_ifs
  · unfold withoutNewline
    split_ifs with newline
    · refine ⟨body.dropLast, dropLast_append_of_ne_nil ?_⟩
      rintro rfl
      exact absurd newline (by decide)
    · exact ⟨body, rfl⟩
  · exact ⟨expandFrom [] body, expandFrom_no body⟩

/-- **A `no` in front changes nothing about the rest**, unless the rest is the
`no` form of a free-form command. -/
theorem canonicaliseLine_negated (noBreak : '\n' ∉ body)
    (once : afterNo (lstrip body) = lstrip body ∨ isFreeForm body = false) :
    canonicaliseLine ("no ".ascii ++ body) = "no ".ascii ++ canonicaliseLine body := by
  have argument : freeFormArgument ("no ".ascii ++ body) =
      (freeFormCommands.find? (fun word =>
        word.isPrefixOf (lstrip body) && wordEnds ((lstrip body).drop word.length))).map
          (fun word => (lstrip body).drop word.length) := by
    have same : lstrip ("no ".ascii ++ body) = "no ".ascii ++ body := by
      change lstrip ('n' :: 'o' :: ' ' :: body) = _
      have stop : isSpace 'n' = false := by decide
      simp [lstrip, stop]
      rfl
    simp only [freeFormArgument, same, afterNo_no]
  have sameForm : isFreeForm ("no ".ascii ++ body) = isFreeForm body := by
    by_cases unchanged : afterNo (lstrip body) = lstrip body
    · have own : freeFormArgument body = freeFormArgument ("no ".ascii ++ body) := by
        rw [argument]
        simp only [freeFormArgument, unchanged]
      rw [isFreeForm, isFreeForm, own]
    · rw [once.resolve_left unchanged, isFreeForm, argument, freeForm_of_no unchanged]
      rfl
  have wholeNoBreak : '\n' ∉ "no ".ascii ++ body := by
    rw [mem_append]
    exact fun inside => inside.elim (by decide) noBreak
  rw [canonicaliseLine_of_noBreak wholeNoBreak, canonicaliseLine_of_noBreak noBreak, sameForm]
  split_ifs
  · rfl
  · exact expandFrom_no body

theorem canonicaliseLine_no (visible : body.head?.any isSpace = false) (noBreak : '\n' ∉ body)
    (once : afterNo body = body ∨ isFreeForm body = false) :
    canonicaliseLine ("no ".ascii ++ body) = "no ".ascii ++ canonicaliseLine body := by
  have unindented : lstrip body = body := by
    cases body with
    | nil => rfl
    | cons c rest =>
      have stop : isSpace c = false := by simpa using visible
      simp [lstrip, stop]
  exact canonicaliseLine_negated noBreak (unindented.symm ▸ once)

end No

/-! ### A normal form -/

section NormalForm

variable {token front tail : Str}

private theorem endsLiteral_of_separator {c : Char} (separator : isSeparator c)
    (ends : endsLiteral (front ++ c :: tail)) : endsLiteral tail := by
  have notName : isNameChar c = false := by
    rw [Bool.eq_false_iff]
    intro nameChar
    exact absurd separator (by rw [isSeparator_of_isNameChar nameChar]; decide)
  have same : endsLiteral (front ++ c :: tail) = endsLiteral ([c] ++ tail) := by
    rw [append_cons]
    exact endsLiteral_append List.getLast?_concat rfl notName
  rw [same] at ends
  unfold endsLiteral at ends ⊢
  rw [any_eq_true] at ends ⊢
  obtain ⟨word, member, isEnd⟩ := ends
  refine ⟨word, member, ?_⟩
  simp only [Bool.and_eq_true, isSuffixOf_iff_suffix] at isEnd ⊢
  obtain ⟨isSuffix, boundary⟩ := isEnd
  have within : word <:+ tail := by
    rcases suffix_cons_iff.mp isSuffix with isWhole | within
    · have inside : c ∈ word := by
        rw [isWhole]
        exact .head _
      exact absurd ((literalWords_plain word member).2 c inside) (by rw [notName]; decide)
    · exact within
  refine ⟨within, ?_⟩
  have cut : ([c] ++ tail).length - word.length = tail.length - word.length + 1 := by
    have fits := within.length_le
    simp only [length_append, length_singleton]
    omega
  rw [cut, singleton_append, take_succ_cons, List.getLast?_cons] at boundary
  cases isLast : (tail.take (tail.length - word.length)).getLast? with
  | none => rfl
  | some last =>
    rw [isLast] at boundary
    exact boundary

private theorem expandFrom_literal {c : Char} (space : isSpace c)
    (ends : endsLiteral (token.reverse ++ front)) :
    ∃ expanded, expandFrom token (front ++ c :: tail) = expanded ++ tail := by
  induction front generalizing token with
  | nil =>
    rw [append_nil] at ends
    refine ⟨canonicalToken token.reverse ++ [c], ?_⟩
    rw [nil_append, expandFrom, isSeparator, space, Bool.true_or, if_pos rfl, ends,
      Bool.and_self, if_pos rfl, append_assoc, singleton_append]
  | cons d front ih =>
    rw [cons_append, expandFrom]
    by_cases separator : isSeparator d = true
    · rw [if_pos separator]
      by_cases literal : (isSpace d && endsLiteral token.reverse) = true
      · rw [if_pos literal]
        exact ⟨canonicalToken token.reverse ++ d :: (front ++ [c]), by simp⟩
      · rw [if_neg literal]
        obtain ⟨expanded, isRest⟩ := @ih [] (endsLiteral_of_separator separator ends)
        exact ⟨canonicalToken token.reverse ++ d :: expanded, by rw [isRest]; simp⟩
    · rw [if_neg separator]
      refine ih ?_
      rwa [reverse_cons, append_assoc, singleton_append]

variable {line : Str}

/-- **Canonical spelling is a normal form.** It is idempotent and keeps the
indentation, a free-form command's line and what stands behind a literal
keyword, and it commutes with negation. A line holds no line break. -/
theorem canonicaliseLine_normal (noBreak : '\n' ∉ line) :
    canonicaliseLine (canonicaliseLine line) = canonicaliseLine line ∧
    (canonicaliseLine line).takeWhile isSpace = line.takeWhile isSpace ∧
    ((freeFormArgument line).isSome = true → canonicaliseLine line = line) ∧
    (∀ front c tail, line = front ++ c :: tail → isSpace c = true → endsLiteral front = true →
      ∃ expanded, canonicaliseLine line = expanded ++ tail) ∧
    ∀ indent, (∀ c ∈ indent, isSpace c = true ∧ c ≠ '\n') →
      (words line).head? ≠ some "no".ascii →
      canonicaliseLine (indent ++ "no ".ascii ++ line) =
        indent ++ "no ".ascii ++ canonicaliseLine line := by
  refine ⟨canonicaliseLine_idem noBreak, takeWhile_canonicaliseLine noBreak, fun isFree => ?_,
    fun front c tail isLine space ends => ?_, fun indent blank notNo => ?_⟩
  · obtain ⟨argument, isArgument⟩ := Option.isSome_iff_exists.mp isFree
    have within : argument <:+ line := by
      obtain ⟨word, -, rfl⟩ := Option.map_eq_some_iff.mp isArgument
      have isBody : lstrip line <:+ line := List.dropWhile_suffix isSpace
      have behindNo : afterNo (lstrip line) <:+ lstrip line := by
        unfold afterNo
        split
        · exact (List.dropWhile_suffix isSpace).trans (List.drop_suffix 2 _)
        · exact List.suffix_refl _
      exact (List.drop_suffix _ _).trans (behindNo.trans isBody)
    have unbroken : '\n' ∉ withoutNewline argument := by
      unfold withoutNewline
      split
      · exact fun inside => noBreak (within.mem ((List.dropLast_sublist _).subset inside))
      · exact fun inside => noBreak (within.mem inside)
    rw [canonicaliseLine_of_noBreak noBreak, if_pos]
    rw [isFreeForm, isArgument, Option.any_some, Bool.not_eq_true', List.contains_eq_mem,
      decide_eq_false unbroken]
  · rw [canonicaliseLine_of_noBreak noBreak]
    split
    · exact ⟨front ++ [c], by rw [isLine, List.append_assoc, List.singleton_append]⟩
    · rw [isLine]
      exact expandFrom_literal space ends
  · have unbroken : '\n' ∉ indent ++ ("no ".ascii ++ line) := by
      simp only [List.mem_append, not_or]
      exact ⟨fun inside => (blank _ inside).2 rfl, by decide, noBreak⟩
    have once : afterNo (lstrip line) = lstrip line := by
      refine afterNo_of_words ?_
      have same : words (line.takeWhile isSpace ++ lstrip line) = words (lstrip line) :=
        words_indent fun c inside => List.mem_takeWhile_imp inside
      rwa [← same, takeWhile_append_lstrip]
    rw [List.append_assoc, canonicaliseLine_indent (fun c inside => (blank c inside).1) unbroken,
      canonicaliseLine_negated noBreak (Or.inl once), List.append_assoc]

omit [Unicode] in
theorem canonicaliseLine_normal_clientId :
    letI : Unicode := basicLatin
    canonicaliseLine " no ip dhcp client client-id ascii Gi2 Gi0/1".ascii =
      " no ".ascii ++ canonicaliseLine "ip dhcp client client-id ascii Gi2 Gi0/1".ascii := by
  let _ : Unicode := basicLatin
  exact (canonicaliseLine_normal (by decide)).2.2.2.2 " ".ascii (by decide) (by decide +kernel)

end NormalForm

end Nmas.Nsot.IfNames
