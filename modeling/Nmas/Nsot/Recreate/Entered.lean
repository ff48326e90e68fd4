import Nmas.Nsot.IfNames
import Nmas.Nsot.Recreate.Excluded

/-!
Contract: what every entry of `operations` is, and stays in canonical spelling.

A number is digits; a body line starts with a space and says something; a schedule
line names its own entry; each number has one entry. Canonical spelling expands a
name followed by digits, so it keeps the words before a number and the number.
-/

namespace Nmas.Nsot.Recreate

open Nmas.Text Nmas.Log List

section Entered

variable [Unicode] {ops : Operations} {scan : Scan} {number raw line : Str} {config : Str}
  {entry : Str × Operation} {change : Operation → Operation}

structure IsKept (line : Str) : Prop where
  unbroken : ∀ c ∈ line, isLineBreak c = false
  trimmed : rstrip line = line

structure Entered (entry : Str × Operation) : Prop where
  notEmpty : entry.1 ≠ []
  digits : ∀ c ∈ entry.1, isDecimal c = true
  body : ∀ line ∈ entry.2.body, IsKept line ∧ isInner line = true ∧ Says line
  schedule : ∀ line ∈ entry.2.schedule, IsKept line ∧ scheduled line = some entry.1

theorem digits_of_header (isHeader : header line = some number) :
    number ≠ [] ∧ (∀ c ∈ number, isDecimal c) ∧ line = "ip sla ".ascii ++ number := by
  unfold header at isHeader
  obtain ⟨rest, follows, isNumber⟩ := Option.bind_eq_some_iff.mp isHeader
  split at isNumber
  · rename_i digits
    cases isNumber
    refine ⟨digits.1, all_eq_true.mp digits.2, ?_⟩
    exact (eq_of_afterPrefix follows).symm
  · cases isNumber

theorem digits_of_scheduled (isScheduled : scheduled line = some number) :
    number ≠ [] ∧ (∀ c ∈ number, isDecimal c) ∧
      ∃ rest, line = "ip sla schedule ".ascii ++ (number ++ rest) ∧ wordEnds rest ∧
        rest.head?.any isDecimal = false := by
  unfold scheduled at isScheduled
  obtain ⟨rest, follows, isNumber⟩ := Option.bind_eq_some_iff.mp isScheduled
  split at isNumber
  · rename_i found
    cases isNumber
    refine ⟨found.1, fun c inside => mem_takeWhile_imp inside, rest.dropWhile isDecimal, ?_,
      found.2, ?_⟩
    · rw [takeWhile_append_dropWhile]
      exact (eq_of_afterPrefix follows).symm
    · have first := List.head?_dropWhile_not isDecimal rest
      cases isRest : rest.dropWhile isDecimal with
      | nil => rfl
      | cons c more =>
        rw [isRest] at first
        simpa using first
  · cases isNumber

theorem header_headerLine (notEmpty : number ≠ []) (digits : ∀ c ∈ number, isDecimal c) :
    header ("ip sla ".ascii ++ number) = some number := by
  have follows : afterPrefix "ip sla ".ascii ("ip sla ".ascii ++ number) = some number := rfl
  rw [header, follows, Option.bind_some, if_pos ⟨notEmpty, all_eq_true.mpr digits⟩]

theorem scheduled_of_digits {rest : Str} (notEmpty : number ≠ [])
    (digits : ∀ c ∈ number, isDecimal c) (ends : wordEnds rest)
    (further : rest.head?.any isDecimal = false) :
    scheduled ("ip sla schedule ".ascii ++ (number ++ rest)) = some number := by
  have follows : afterPrefix "ip sla schedule ".ascii ("ip sla schedule ".ascii ++
      (number ++ rest)) = some (number ++ rest) := rfl
  have stops : rest.takeWhile isDecimal = [] ∧ rest.dropWhile isDecimal = rest := by
    cases rest with
    | nil => exact ⟨rfl, rfl⟩
    | cons c more =>
      have notDecimal : isDecimal c = false := by simpa using further
      simp [notDecimal]
  rw [scheduled, follows, Option.bind_some, takeWhile_append_of_pos digits,
    dropWhile_append_of_pos digits, stops.1, stops.2, append_nil,
    if_pos ⟨notEmpty, ends⟩]

/-! ### Entries of a scan -/

omit [Unicode] in
theorem mem_setDefault (member : entry ∈ ops.setDefault number) :
    entry ∈ ops ∨ entry = (number, ⟨[], []⟩) := by
  unfold Operations.setDefault at member
  split at member
  · exact .inl member
  · rcases mem_append.mp member with old | new
    · exact .inl old
    · exact .inr (mem_singleton.mp new)

omit [Unicode] in
theorem mem_change (member : entry ∈ ops.change number change) :
    entry ∈ ops ∨ ∃ operation, (number, operation) ∈ ops ∧ entry = (number, change operation) := by
  obtain ⟨old, isOld, isEntry⟩ := mem_map.mp member
  split at isEntry
  · rename_i isNumber
    obtain ⟨first, operation⟩ := old
    cases isNumber
    exact .inr ⟨operation, isOld, isEntry.symm⟩
  · exact .inl (isEntry ▸ isOld)

omit [Unicode] in
theorem distinct_setDefault (distinct : (ops.map Prod.fst).Nodup) :
    ((ops.setDefault number).map Prod.fst).Nodup := by
  unfold Operations.setDefault
  split
  · exact distinct
  · rename_i new
    have notFound : number ∉ ops.map Prod.fst := by
      intro member
      obtain ⟨entry, isEntry, isNumber⟩ := mem_map.mp member
      apply new
      unfold Operations.get
      rw [Option.isSome_map, List.find?_isSome]
      exact ⟨entry, isEntry, decide_eq_true isNumber⟩
    rw [map_append, map_singleton]
    exact nodup_append.mpr ⟨distinct, nodup_singleton _, by
      intro other isOther last isLast same
      rw [mem_singleton.mp isLast] at same
      dsimp only at same
      rw [same] at isOther
      exact notFound isOther⟩

omit [Unicode] in
theorem distinct_change (distinct : (ops.map Prod.fst).Nodup) :
    ((ops.change number change).map Prod.fst).Nodup := by
  unfold Operations.change
  have keeps : ∀ entry : Str × Operation, entry.1 = number → (entry.1, change entry.2).1 = number :=
    fun _ isNumber => isNumber
  rw [map_key_amend keeps]
  exact distinct

omit [Unicode] in
theorem get_eq_some_iff {operation : Operation} (distinct : (ops.map Prod.fst).Nodup) :
    ops.get number = some operation ↔ (number, operation) ∈ ops := by
  unfold Operations.get
  constructor
  · intro isFound
    obtain ⟨entry, found, isOperation⟩ := Option.map_eq_some_iff.mp isFound
    have isEntry := (@find_eq_some_iff _ _ _ Prod.fst _ _ _ distinct).mp found
    rw [← isOperation, ← isEntry.2]
    exact isEntry.1
  · intro member
    rw [(@find_eq_some_iff _ _ _ Prod.fst _ _ _ distinct).mpr ⟨member, rfl⟩]
    rfl

/-- Every entry read so far is one of an operation, and each number has one. -/
def Scan.Sound (scan : Scan) : Prop :=
  (∀ entry ∈ scan.ops, Entered entry) ∧ (scan.ops.map Prod.fst).Nodup

omit [Unicode] in
theorem isKept_rstrip (unbroken : ∀ c ∈ raw, isLineBreak c = false) : IsKept (rstrip raw) where
  unbroken := fun c inside => unbroken c (rstrip_subset inside)
  trimmed := rstrip_rstrip

theorem Scan.Sound.setDefault (sound : ∀ entry ∈ ops, Entered entry) (notEmpty : number ≠ [])
    (digits : ∀ c ∈ number, isDecimal c) :
    ∀ entry ∈ ops.setDefault number, Entered entry := by
  intro entry member
  rcases mem_setDefault member with old | isNew
  · exact sound entry old
  · rw [isNew]
    exact ⟨notEmpty, digits, nofun, nofun⟩

theorem header_of_kind (isKind : kindOf raw = .header number) :
    header (rstrip raw) = some number := by
  unfold kindOf at isKind
  split at isKind
  · split at isKind <;> cases isKind
  · split at isKind
    · split at isKind <;> cases isKind
    · split at isKind
      · rename_i isHeader
        cases isKind
        exact isHeader
      · split at isKind <;> cases isKind

theorem scheduled_of_kind (isKind : kindOf raw = .schedule number) :
    scheduled (rstrip raw) = some number := by
  unfold kindOf at isKind
  split at isKind
  · split at isKind <;> cases isKind
  · split at isKind
    · split at isKind <;> cases isKind
    · split at isKind
      · cases isKind
      · split at isKind
        · rename_i isScheduled
          cases isKind
          exact isScheduled
        · cases isKind

theorem isInner_of_kind (isKind : kindOf raw = .inner) : isInner raw := by
  unfold kindOf at isKind
  split at isKind
  · split at isKind <;> cases isKind
  · split at isKind
    · assumption
    · split at isKind
      · cases isKind
      · split at isKind <;> cases isKind

theorem Scan.Sound.readLine (sound : scan.Sound) (unbroken : ∀ c ∈ raw, isLineBreak c = false) :
    (readLine scan raw).Sound := by
  rw [readLine_eq]
  cases isKind : kindOf raw with
  | blank | gap | separator | other => exact sound
  | header number =>
    obtain ⟨notEmpty, digits, -⟩ := digits_of_header (header_of_kind isKind)
    exact ⟨Scan.Sound.setDefault sound.1 notEmpty digits, distinct_setDefault sound.2⟩
  | schedule number =>
    have isScheduled := scheduled_of_kind isKind
    obtain ⟨notEmpty, digits, -⟩ := digits_of_scheduled isScheduled
    unfold Scan.Sound
    dsimp only
    refine ⟨?_, distinct_change (distinct_setDefault sound.2)⟩
    intro entry member
    rcases mem_change member with old | ⟨operation, isOld, isEntry⟩
    · exact Scan.Sound.setDefault sound.1 notEmpty digits entry old
    · have entered := Scan.Sound.setDefault sound.1 notEmpty digits _ isOld
      rw [isEntry]
      refine ⟨notEmpty, digits, entered.body, ?_⟩
      intro line isLine
      rcases mem_append.mp isLine with before | isRaw
      · exact entered.schedule line before
      · rw [mem_singleton.mp isRaw]
        exact ⟨isKept_rstrip unbroken, isScheduled⟩
  | inner =>
    dsimp only
    split
    · rename_i number isCurrent
      unfold Scan.Sound
      dsimp only
      refine ⟨?_, distinct_change sound.2⟩
      intro entry member
      rcases mem_change member with old | ⟨operation, isOld, isEntry⟩
      · exact sound.1 entry old
      · have entered := sound.1 _ isOld
        have telling := says_of_inner isKind
        rw [isEntry]
        refine ⟨entered.notEmpty, entered.digits, ?_, entered.schedule⟩
        intro line isLine
        rcases mem_append.mp isLine with before | isRaw
        · exact entered.body line before
        · rw [mem_singleton.mp isRaw]
          refine ⟨isKept_rstrip unbroken, ?_, ?_⟩
          · rw [isInner_rstrip telling.1]
            exact isInner_of_kind isKind
          · unfold Says at telling ⊢
            rwa [strip_rstrip]
    · exact sound

/-- **Every entry of `operations`** is one operation's, and each number has one. -/
theorem operations_sound (config : Str) :
    (∀ entry ∈ operations config, Entered entry) ∧ ((operations config).map Prod.fst).Nodup := by
  have further : ∀ (lines : List Str) (scan : Scan), scan.Sound →
      (∀ line ∈ lines, ∀ c ∈ line, isLineBreak c = false) → (lines.foldl readLine scan).Sound := by
    intro lines
    induction lines with
    | nil => exact fun _ sound _ => sound
    | cons raw lines ih =>
      intro scan sound unbroken
      exact ih _ (sound.readLine (unbroken raw (.head _)))
        (fun line member => unbroken line (.tail _ member))
  refine further (splitlines config) ⟨[], none⟩ ⟨?_, nodup_nil⟩ ?_
  · intro entry member
    cases member
  · exact fun line member => lineBreak_of_mem_splitlines member

/-! ### Canonical spelling -/

open Nmas.Nsot.IfNames

theorem expandFrom_word (word rest : Str) {collected : Str}
    (unseparated : ∀ c ∈ word, isSeparator c = false) :
    expandFrom collected (word ++ rest) = expandFrom (word.reverse ++ collected) rest := by
  induction word generalizing collected with
  | nil => rfl
  | cons c word ih =>
    rw [cons_append, expandFrom, unseparated c mem_cons_self, if_neg (by decide),
      ih (fun d inside => unseparated d (.tail _ inside)),
      reverse_cons, append_assoc]
    rfl

theorem canonicalToken_of_word {word : Str} (noDigits : ∀ c ∈ word, isDecimal c = false) :
    canonicalToken word = word := by
  have noNumbers : word.dropWhile (fun c => !isDecimal c) = [] := by
    rw [dropWhile_eq_nil_iff]
    intro c inside
    simp [noDigits c inside]
  unfold canonicalToken
  simp [noNumbers]

theorem canonicalToken_of_digit {word : Str} (first : word.head?.any isDecimal) :
    canonicalToken word = word := by
  have noName : word.takeWhile (fun c => !isDecimal c) = [] := by
    cases word with
    | nil => rfl
    | cons c rest =>
      have isDigit : isDecimal c := by simpa using first
      simp [isDigit]
  have notListed : lookup.any (fun entry => entry.1 == []) = false := by decide +kernel
  unfold canonicalToken
  simp only [noName, notListed, Bool.false_and, Bool.false_eq_true, if_false]

theorem expandFrom_plain (word rest : Str) (unseparated : ∀ c ∈ word, isSeparator c = false)
    (noDigits : ∀ c ∈ word, isDecimal c = false) (notLiteral : endsLiteral word = false) :
    expandFrom [] (word ++ ' ' :: rest) = word ++ ' ' :: expandFrom [] rest := by
  rw [expandFrom_word word _ unseparated, append_nil, expandFrom, if_pos (by decide),
    reverse_reverse, canonicalToken_of_word noDigits, notLiteral, Bool.and_false,
    if_neg (by decide)]

theorem expandFrom_digit {collected : Str} (text : Str)
    (first : collected.reverse.head?.any isDecimal) :
    ∃ rest, expandFrom collected text = collected.reverse ++ rest ∧ rest.head? = text.head? := by
  induction text generalizing collected with
  | nil => exact ⟨[], by rw [expandFrom, canonicalToken_of_digit first, append_nil], rfl⟩
  | cons c text ih =>
    rw [expandFrom]
    by_cases separates : isSeparator c = true
    · rw [if_pos separates, canonicalToken_of_digit first]
      exact ⟨_, rfl, rfl⟩
    · rw [if_neg separates]
      have later : (c :: collected).reverse.head?.any isDecimal := by
        rw [reverse_cons]
        cases isReverse : collected.reverse with
        | nil =>
          rw [isReverse] at first
          cases first
        | cons d rest =>
          rw [isReverse] at first
          exact first
      obtain ⟨rest, isRest, -⟩ := ih later
      refine ⟨c :: rest, ?_, rfl⟩
      rw [isRest, reverse_cons, append_assoc]
      rfl

theorem isSeparator_of_isDecimal {c : Char} (digit : isDecimal c) : isSeparator c = false := by
  have notComma : c ≠ ',' := by
    rintro rfl
    rw [isDecimal_ascii ',' (by decide)] at digit
    cases digit
  unfold isSeparator
  simp [isSpace_of_isDecimal digit, notComma]

theorem expandFrom_number (text : Str) (notEmpty : number ≠ [])
    (digits : ∀ c ∈ number, isDecimal c) :
    ∃ rest, expandFrom [] (number ++ text) = number ++ rest ∧ rest.head? = text.head? := by
  have first : (number.reverse ++ []).reverse.head?.any isDecimal := by
    rw [append_nil, reverse_reverse]
    cases number with
    | nil => exact absurd rfl notEmpty
    | cons c rest => exact digits c (.head _)
  obtain ⟨rest, isRest, head⟩ := expandFrom_digit text first
  refine ⟨rest, ?_, head⟩
  rw [expandFrom_word number text (fun c inside => isSeparator_of_isDecimal (digits c inside)),
    isRest, append_nil, reverse_reverse]

theorem noDecimal_ascii {word : Str} (plain : ∀ c ∈ word, c.toNat < 128 ∧ c.isDigit = false) :
    ∀ c ∈ word, isDecimal c = false := by
  intro c inside
  rw [isDecimal_ascii c (plain c inside).1]
  exact (plain c inside).2

theorem endsLiteral_plain {word : Str} (plain : literalWords.any (fun literal =>
    literal.isSuffixOf word) = false) : endsLiteral word = false := by
  unfold endsLiteral
  rw [any_eq_false] at plain ⊢
  intro literal member
  simp [plain literal member]

theorem expandFrom_ipSla (rest : Str) :
    expandFrom [] ("ip sla ".ascii ++ rest) = "ip sla ".ascii ++ expandFrom [] rest := by
  have first := expandFrom_plain "ip".ascii ("sla ".ascii ++ rest) (by decide)
    (noDecimal_ascii (by decide)) (endsLiteral_plain (by decide))
  have second := expandFrom_plain "sla".ascii rest (by decide)
    (noDecimal_ascii (by decide)) (endsLiteral_plain (by decide))
  have split : "ip sla ".ascii ++ rest = "ip".ascii ++ ' ' :: ("sla ".ascii ++ rest) := rfl
  have splitSla : "sla ".ascii ++ rest = "sla".ascii ++ ' ' :: rest := rfl
  rw [split, first, splitSla, second]
  rfl

theorem canonicaliseLine_ipSla {rest : Str} (unbroken : ∀ c ∈ rest, isLineBreak c = false) :
    canonicaliseLine ("ip sla ".ascii ++ rest) = "ip sla ".ascii ++ expandFrom [] rest := by
  have noBreak : '\n' ∉ "ip sla ".ascii ++ rest := by
    intro inside
    rcases mem_append.mp inside with lead | inRest
    · exact absurd lead (by decide)
    · exact absurd (unbroken _ inRest) (by decide)
  have notFree : isFreeForm ("ip sla ".ascii ++ rest) = false := rfl
  rw [canonicaliseLine_of_noBreak noBreak, notFree, if_neg (by decide), expandFrom_ipSla]

omit [Unicode] in
theorem isSpace_of_isLineBreak {c : Char} (isBreak : isLineBreak c) : isSpace c := by
  have isCode : c.toNat ∈ [0x0a, 0x0b, 0x0c, 0x0d, 0x1c, 0x1d, 0x1e, 0x85, 0x2028, 0x2029] := by
    simpa [isLineBreak] using isBreak
  have each : ∀ code ∈ [0x0a, 0x0b, 0x0c, 0x0d, 0x1c, 0x1d, 0x1e, 0x85, 0x2028, 0x2029],
      ((0x09 ≤ code && code ≤ 0x0d) || (0x1c ≤ code && code ≤ 0x20) ||
        (0x2000 ≤ code && code ≤ 0x200a) ||
          [0x85, 0xa0, 0x1680, 0x2028, 0x2029, 0x202f, 0x205f, 0x3000].contains code) = true := by
    decide
  exact each c.toNat isCode

theorem canonicaliseLine_header (notEmpty : number ≠ []) (digits : ∀ c ∈ number, isDecimal c) :
    canonicaliseLine ("ip sla ".ascii ++ number) = "ip sla ".ascii ++ number := by
  have unbroken : ∀ c ∈ number, isLineBreak c = false := by
    intro c inside
    by_contra isBreak
    have isBlank := isSpace_of_isLineBreak (by simpa using isBreak)
    rw [isSpace_of_isDecimal (digits c inside)] at isBlank
    cases isBlank
  obtain ⟨rest, isRest, head⟩ := expandFrom_number [] notEmpty digits
  rw [append_nil] at isRest
  rw [canonicaliseLine_ipSla unbroken, isRest, List.head?_eq_none_iff.mp head, append_nil]

theorem scheduled_canonicaliseLine (kept : IsKept line) (isScheduled : scheduled line = some number) :
    scheduled (canonicaliseLine line) = some number := by
  obtain ⟨notEmpty, digits, rest, isLine, ends, further⟩ := digits_of_scheduled isScheduled
  have split : "ip sla schedule ".ascii ++ (number ++ rest) =
      "ip sla ".ascii ++ ("schedule".ascii ++ ' ' :: (number ++ rest)) := rfl
  have unbroken : ∀ c ∈ "schedule".ascii ++ ' ' :: (number ++ rest), isLineBreak c = false := by
    intro c inside
    refine kept.unbroken c ?_
    rw [isLine, split]
    exact mem_append_right _ inside
  obtain ⟨spelled, isSpelled, head⟩ := expandFrom_number rest notEmpty digits
  have word := expandFrom_plain "schedule".ascii (number ++ rest) (by decide)
    (noDecimal_ascii (by decide)) (endsLiteral_plain (by decide))
  have isCanonical : canonicaliseLine line = "ip sla schedule ".ascii ++ (number ++ spelled) := by
    rw [isLine, split, canonicaliseLine_ipSla unbroken, word, isSpelled]
    rfl
  rw [isCanonical]
  refine scheduled_of_digits notEmpty digits ?_ (head ▸ further)
  cases rest with
  | nil =>
    rw [List.head?_eq_none_iff.mp head]
    rfl
  | cons c more =>
    obtain ⟨tail, isTail⟩ := List.head?_eq_some_iff.mp head
    rw [isTail]
    exact ends

end Entered

end Nmas.Nsot.Recreate
