import Mathlib.Data.List.DropRight
import Nmas.Text.Unicode

/-!
Owns: the `str` methods the configuration modules call (`strip`, `split`,
`splitlines`, `join`) on code-point lists, with the facts about them that the
section model uses: what stripping keeps, what indentation measures, and how a
text falls into words.
-/

namespace Nmas.Text

open List

def lstrip (text : Str) : Str := text.dropWhile isSpace

def rstrip (text : Str) : Str := text.rdropWhile isSpace

def strip (text : Str) : Str := rstrip (lstrip text)

/-- `len(line) - len(line.lstrip())`. -/
def indentOf (line : Str) : Nat := line.length - (lstrip line).length

/-- `' ' * width`. -/
def spaces (width : Nat) : Str := List.replicate width ' '

/-- `line[:1].isspace()`. -/
def startsIndented (line : Str) : Bool := line.head?.any isSpace

/-- What follows `lead` in a text that starts with it. -/
def afterPrefix (lead text : Str) : Option Str :=
  if lead.isPrefixOf text then some (text.drop lead.length) else none

/-- `text.startswith(tuple)`. -/
def startsWithAny (leads : List Str) (text : Str) : Bool := leads.any (fun lead => lead.isPrefixOf text)

private def flush (word : Str) : List Str := if word = [] then [] else [word.reverse]

/-- `split()` with the current word collected in reverse. -/
def wordsFrom (word : Str) : Str → List Str
  | [] => flush word
  | c :: rest => if isSpace c then flush word ++ wordsFrom [] rest else wordsFrom (c :: word) rest

/-- `str.split()`: the maximal runs without white space. -/
def words (text : Str) : List Str := wordsFrom [] text

def joinWords (parts : List Str) : Str := [' '].intercalate parts

/-- `splitlines()` with the current line collected in reverse. -/
def splitlinesFrom (line : Str) : Str → List Str
  | [] => flush line
  | '\r' :: '\n' :: rest => line.reverse :: splitlinesFrom [] rest
  | c :: rest =>
    if isLineBreak c then line.reverse :: splitlinesFrom [] rest
    else splitlinesFrom (c :: line) rest

def splitlines (text : Str) : List Str := splitlinesFrom [] text

/-- `text.split("\n")`. -/
def splitNewlines (text : Str) : List Str :=
  text.foldr (fun c lines =>
    if c = '\n' then [] :: lines
    else match lines with
      | [] => [[c]]
      | line :: rest => (c :: line) :: rest) [[]]

/-! ### Lines -/

private theorem splitlinesFrom_noBreak (line text : Str)
    (clean : ∀ c ∈ line, isLineBreak c = false) :
    ∀ found ∈ splitlinesFrom line text, ∀ c ∈ found, isLineBreak c = false := by
  have cleanReverse : ∀ collected : Str, (∀ c ∈ collected, isLineBreak c = false) →
      ∀ c ∈ collected.reverse, isLineBreak c = false :=
    fun collected cleanHere c inside => cleanHere c (mem_reverse.mp inside)
  fun_induction splitlinesFrom line text with
  | case1 line =>
    unfold flush
    split_ifs
    · simp
    · simpa using clean
  | case2 line rest ih =>
    intro found member
    rcases mem_cons.mp member with rfl | later
    · exact cleanReverse line clean
    · exact ih (by simp) found later
  | case3 line c rest _ isBreak ih =>
    intro found member
    rcases mem_cons.mp member with rfl | later
    · exact cleanReverse line clean
    · exact ih (by simp) found later
  | case4 line c rest _ notBreak ih =>
    refine ih ?_
    intro d inside
    rcases mem_cons.mp inside with rfl | before
    · simpa using notBreak
    · exact clean d before

theorem lineBreak_of_mem_splitlines {text line : Str} (member : line ∈ splitlines text) :
    ∀ c ∈ line, isLineBreak c = false :=
  splitlinesFrom_noBreak [] text (by simp) line member

theorem noBreak_of_mem_splitlines {text line : Str} (member : line ∈ splitlines text) :
    '\n' ∉ line := by
  intro inside
  exact absurd (lineBreak_of_mem_splitlines member '\n' inside) (by decide)

theorem splitlinesFrom_nil (line : Str) :
    splitlinesFrom line [] = if line = [] then [] else [line.reverse] := rfl

/-! ### Stripping -/

section Strip

variable {text : Str}

@[simp] theorem rstrip_rstrip : rstrip (rstrip text) = rstrip text :=
  rdropWhile_idempotent isSpace text

@[simp] theorem lstrip_lstrip : lstrip (lstrip text) = lstrip text :=
  dropWhile_idempotent isSpace text

theorem rstrip_eq_self_iff :
    rstrip text = text ↔ ∀ c, text.getLast? = some c → isSpace c = false := by
  unfold rstrip
  rw [rdropWhile_eq_self_iff]
  constructor
  · intro last c isLast
    obtain ⟨nonempty, rfl⟩ := mem_getLast?_eq_getLast isLast
    simpa using last nonempty
  · intro last nonempty
    simpa using last _ (List.getLast?_eq_getLast_of_ne_nil nonempty)

theorem strip_eq_nil_iff : strip text = [] ↔ ∀ c ∈ text, isSpace c := by
  unfold strip rstrip lstrip
  rw [rdropWhile_eq_nil_iff]
  constructor
  · intro blank c member
    rw [← takeWhile_append_dropWhile (p := isSpace) (l := text)] at member
    rcases mem_append.mp member with kept | dropped
    · exact mem_takeWhile_imp kept
    · exact blank c dropped
  · intro blank c member
    exact blank c (dropWhile_suffix isSpace |>.mem member)

theorem lstrip_of_no_space (noSpace : ∀ c ∈ text, isSpace c = false) : lstrip text = text := by
  unfold lstrip
  rw [dropWhile_eq_self_iff]
  intro nonempty
  simp [noSpace _ (getElem_mem nonempty)]

theorem strip_of_no_space (noSpace : ∀ c ∈ text, isSpace c = false) : strip text = text := by
  unfold strip
  rw [lstrip_of_no_space noSpace, rstrip_eq_self_iff]
  intro c isLast
  exact noSpace c (mem_of_getLast? isLast)

theorem mem_strip_or_space {c : Char} (inside : c ∈ text) : c ∈ strip text ∨ isSpace c := by
  by_cases space : isSpace c = true
  · exact .inr space
  · refine .inl ?_
    have inLstrip : c ∈ lstrip text := by
      rw [← takeWhile_append_dropWhile (p := isSpace) (l := text), mem_append] at inside
      exact inside.resolve_left (fun early => space (mem_takeWhile_imp early))
    unfold strip rstrip
    rw [List.rdropWhile, mem_reverse]
    rw [← mem_reverse, ← takeWhile_append_dropWhile (p := isSpace)
      (l := (lstrip text).reverse), mem_append] at inLstrip
    exact inLstrip.resolve_left (fun late => space (mem_takeWhile_imp late))

@[simp] theorem strip_lstrip : strip (lstrip text) = strip text := by
  simp [strip]

theorem rstrip_subset : rstrip text ⊆ text := (List.rdropWhile_prefix isSpace text).subset

private theorem lstrip_concat_space {c : Char} (space : isSpace c) :
    rstrip (lstrip (text ++ [c])) = rstrip (lstrip text) := by
  unfold lstrip rstrip
  by_cases blank : ∀ d ∈ text, isSpace d = true
  · rw [dropWhile_append_of_pos blank]
    have nothing : text.dropWhile isSpace = [] := dropWhile_eq_nil_iff.mpr blank
    simp [nothing, space]
  · have kept : (text ++ [c]).dropWhile isSpace = text.dropWhile isSpace ++ [c] := by
      rw [dropWhile_append]
      split_ifs with isEmpty
      · exact absurd (dropWhile_eq_nil_iff.mp (isEmpty_iff.mp isEmpty)) blank
      · rfl
    rw [kept, rdropWhile_concat_pos _ _ _ space]

@[simp] theorem strip_rstrip : strip (rstrip text) = strip text := by
  unfold strip
  induction text using List.reverseRecOn with
  | nil => rfl
  | append_singleton front c ih =>
    by_cases space : isSpace c = true
    · have dropped : rstrip (front ++ [c]) = rstrip front := rdropWhile_concat_pos _ _ _ space
      rw [dropped, ih, lstrip_concat_space space]
    · have kept : rstrip (front ++ [c]) = front ++ [c] := rdropWhile_concat_neg _ _ _ space
      rw [kept]

theorem strip_of_trimmed (trimmed : rstrip text = text) : strip text = lstrip text := by
  unfold strip
  rw [rstrip_eq_self_iff] at trimmed ⊢
  intro c isLast
  have isSuffix : lstrip text <:+ text := dropWhile_suffix _
  obtain ⟨front, split⟩ := isSuffix
  refine trimmed c ?_
  rw [← split, List.getLast?_append, isLast]
  rfl

@[simp] theorem strip_strip : strip (strip text) = strip text := by
  calc strip (rstrip (lstrip text)) = strip (lstrip text) := strip_rstrip
    _ = strip text := strip_lstrip

end Strip

/-! ### Indentation -/

theorem indentOf_eq_takeWhile (line : Str) : indentOf line = (line.takeWhile isSpace).length := by
  unfold indentOf lstrip
  have total := congrArg List.length (takeWhile_append_dropWhile (p := isSpace) (l := line))
  rw [length_append] at total
  omega

theorem takeWhile_append_lstrip (line : Str) : line.takeWhile isSpace ++ lstrip line = line :=
  takeWhile_append_dropWhile

/-! ### Words -/

section Words

variable {indent word text : Str}

theorem words_indent (blank : ∀ c ∈ indent, isSpace c) : words (indent ++ text) = words text := by
  induction indent with
  | nil => rfl
  | cons c rest ih =>
    have space := blank c (.head _)
    rw [cons_append, words, wordsFrom, if_pos space]
    exact ih fun d inside => blank d (.tail _ inside)

private theorem wordsFrom_append (collected : Str) (noSpace : ∀ c ∈ word, isSpace c = false) :
    wordsFrom collected (word ++ text) = wordsFrom (word.reverse ++ collected) text := by
  induction word generalizing collected with
  | nil => rfl
  | cons c rest ih =>
    have visible := noSpace c (.head _)
    rw [cons_append, wordsFrom, visible, if_neg (by simp),
      ih _ fun d inside => noSpace d (.tail _ inside)]
    simp

theorem words_append_space {front : Str} {c : Char} (space : isSpace c) :
    words (front ++ c :: text) = words front ++ words text := by
  have split : ∀ collected : Str,
      wordsFrom collected (front ++ c :: text) = wordsFrom collected front ++ words text := by
    induction front with
    | nil =>
      intro collected
      simp only [nil_append, wordsFrom, space, if_true, words]
    | cons d rest ih =>
      intro collected
      simp only [cons_append, wordsFrom]
      split_ifs
      · rw [ih, append_assoc]
      · exact ih _
  exact split []

theorem words_cons {c : Char} (nonempty : word ≠ []) (noSpace : ∀ c ∈ word, isSpace c = false)
    (space : isSpace c) : words (word ++ c :: text) = word :: words text := by
  rw [words, wordsFrom_append [] noSpace, wordsFrom, if_pos space, append_nil, flush,
    if_neg (by simpa using nonempty), reverse_reverse]
  rfl

private theorem wordsFrom_trailing (collected : Str) {blank : Str}
    (spaces : ∀ c ∈ blank, isSpace c) :
    wordsFrom collected (text ++ blank) = wordsFrom collected text := by
  induction text generalizing collected with
  | nil =>
    cases blank with
    | nil => rfl
    | cons c rest =>
      have nothing : wordsFrom [] rest = [] := by
        have inRest : words (rest ++ []) = words [] := words_indent fun d inside =>
          spaces d (.tail _ inside)
        rw [append_nil] at inRest
        exact inRest
      simp [wordsFrom, spaces c mem_cons_self, nothing]
  | cons c rest ih =>
    rw [cons_append, wordsFrom, wordsFrom]
    split_ifs
    · rw [ih]
    · exact ih _

@[simp] theorem words_strip : words (strip text) = words text := by
  have right : words (rstrip (lstrip text)) = words (lstrip text) := by
    have whole : rstrip (lstrip text) ++ (lstrip text).rtakeWhile isSpace = lstrip text :=
      rdropWhile_append_rtakeWhile
    conv_rhs => rw [← whole]
    exact (wordsFrom_trailing [] fun c inside => mem_rtakeWhile_imp inside).symm
  have left : words (lstrip text) = words text := by
    conv_rhs => rw [← takeWhile_append_lstrip text]
    exact (words_indent fun c inside => mem_takeWhile_imp inside).symm
  rw [strip, right, left]

private theorem mem_wordsFrom {collected found : Str} (clean : ∀ c ∈ collected, isSpace c = false)
    (member : found ∈ wordsFrom collected text) :
    found ≠ [] ∧ ∀ c ∈ found, isSpace c = false := by
  have ofFlush : ∀ {collected : Str}, (∀ c ∈ collected, isSpace c = false) →
      found ∈ flush collected → found ≠ [] ∧ ∀ c ∈ found, isSpace c = false := by
    intro collected clean inFlush
    unfold flush at inFlush
    split_ifs at inFlush with empty
    · cases inFlush
    · obtain rfl := mem_singleton.mp inFlush
      exact ⟨by simpa using empty, fun c inside => clean c (mem_reverse.mp inside)⟩
  induction text generalizing collected with
  | nil => exact ofFlush clean member
  | cons c rest ih =>
    rw [wordsFrom] at member
    split_ifs at member with space
    · rcases mem_append.mp member with here | later
      · exact ofFlush clean here
      · exact ih (by simp) later
    · refine ih ?_ member
      intro d inside
      rcases mem_cons.mp inside with rfl | before
      · simpa using space
      · exact clean d before

theorem mem_words (member : word ∈ words text) : word ≠ [] ∧ ∀ c ∈ word, isSpace c = false :=
  mem_wordsFrom (by simp) member

private theorem wordsFrom_eq_nil {collected : Str} (noWords : wordsFrom collected text = []) :
    collected = [] ∧ ∀ c ∈ text, isSpace c := by
  have unflushed : ∀ {collected : Str}, flush collected = [] → collected = [] := by
    intro collected nothing
    by_contra something
    rw [flush, if_neg something] at nothing
    cases nothing
  induction text generalizing collected with
  | nil => exact ⟨unflushed noWords, by simp⟩
  | cons c rest ih =>
    rw [wordsFrom] at noWords
    split_ifs at noWords with space
    · obtain ⟨front, back⟩ := append_eq_nil_iff.mp noWords
      refine ⟨unflushed front, fun d inside => ?_⟩
      rcases mem_cons.mp inside with rfl | later
      · exact space
      · exact (ih back).2 d later
    · exact absurd (ih noWords).1 (by simp)

theorem words_eq_nil_iff : words text = [] ↔ ∀ c ∈ text, isSpace c := by
  constructor
  · intro noWords
    exact (wordsFrom_eq_nil noWords).2
  · intro blank
    have nothing : words (text ++ []) = words [] := words_indent blank
    rwa [append_nil] at nothing

theorem joinWords_cons_cons (first second : Str) (rest : List Str) :
    joinWords (first :: second :: rest) = first ++ ' ' :: joinWords (second :: rest) := by
  simp [joinWords, List.intercalate]

@[simp] theorem joinWords_singleton (word : Str) : joinWords [word] = word := by
  simp [joinWords, List.intercalate]

theorem words_joinWords {parts : List Str}
    (areWords : ∀ part ∈ parts, part ≠ [] ∧ ∀ c ∈ part, isSpace c = false) :
    words (joinWords parts) = parts := by
  induction parts with
  | nil => rfl
  | cons first rest ih =>
    obtain ⟨nonempty, noSpace⟩ := areWords first (.head _)
    have later := ih fun part inside =>
      areWords part (.tail _ inside)
    cases rest with
    | nil =>
      have whole := @wordsFrom_append _ [] [] noSpace
      rw [append_nil, append_nil, wordsFrom, flush,
        if_neg (by simpa using nonempty), reverse_reverse] at whole
      rw [joinWords_singleton]
      exact whole
    | cons second rest =>
      rw [joinWords_cons_cons, words_cons nonempty noSpace (by decide), later]

@[simp] theorem words_joinWords_words (text : Str) : words (joinWords (words text)) = words text :=
  words_joinWords fun _ inside => mem_words inside

theorem joinWords_append {front back : List Str} (nonempty : front ≠ []) :
    joinWords (front ++ back) = joinWords front ∨
      joinWords front ++ [' '] <+: joinWords (front ++ back) := by
  induction front with
  | nil => exact absurd rfl nonempty
  | cons first rest ih =>
    cases rest with
    | nil =>
      cases back with
      | nil => exact .inl rfl
      | cons second more =>
        refine .inr ⟨joinWords (second :: more), ?_⟩
        rw [singleton_append, joinWords_cons_cons, joinWords_singleton]
        simp
    | cons second more =>
      rw [cons_append, cons_append, joinWords_cons_cons, joinWords_cons_cons]
      rcases ih (by simp) with same | ⟨tail, split⟩
      · exact .inl (by rw [← cons_append, same])
      · refine .inr ⟨tail, ?_⟩
        rw [← cons_append, ← split]
        simp

end Words

/-! ### A text behind another one -/

section Append

variable {front text : Str}

theorem rstrip_append (nonempty : text ≠ []) (trimmed : rstrip text = text) :
    rstrip (front ++ text) = front ++ text := by
  rw [rstrip_eq_self_iff] at trimmed ⊢
  intro c isLast
  rw [List.getLast?_append_of_ne_nil _ nonempty] at isLast
  exact trimmed c isLast

theorem strip_joinWords {parts : List Str}
    (areWords : ∀ part ∈ parts, part ≠ [] ∧ ∀ c ∈ part, isSpace c = false) :
    strip (joinWords parts) = joinWords parts := by
  have left : lstrip (joinWords parts) = joinWords parts := by
    cases parts with
    | nil => rfl
    | cons first rest =>
      obtain ⟨nonempty, noSpace⟩ := areWords first (.head _)
      obtain ⟨c, more, rfl⟩ := exists_cons_of_ne_nil nonempty
      have visible := noSpace c (.head _)
      cases rest with
      | nil => simp [joinWords, List.intercalate, lstrip, visible]
      | cons second rest => simp [joinWords_cons_cons, lstrip, visible]
  have right : rstrip (joinWords parts) = joinWords parts := by
    clear left
    induction parts with
    | nil => rfl
    | cons first rest ih =>
      obtain ⟨nonempty, noSpace⟩ := areWords first (.head _)
      cases rest with
      | nil =>
        have single : joinWords [first] = first := by simp [joinWords, List.intercalate]
        rw [single, rstrip_eq_self_iff]
        exact fun c isLast => noSpace c (mem_of_getLast? isLast)
      | cons second rest =>
        have later := ih fun part inside =>
          areWords part (.tail _ inside)
        obtain ⟨isWord, _⟩ := areWords second (by simp)
        have something : joinWords (second :: rest) ≠ [] := by
          cases rest with
          | nil => simpa [joinWords, List.intercalate] using isWord
          | cons third rest => simp [joinWords_cons_cons]
        have split : joinWords (first :: second :: rest) =
            (first ++ [' ']) ++ joinWords (second :: rest) := by simp [joinWords_cons_cons]
        rw [split]
        exact rstrip_append something later
  rw [strip, left, right]

theorem strip_indent (blank : ∀ c ∈ front, isSpace c) : strip (front ++ text) = strip text := by
  rw [strip, strip, lstrip, dropWhile_append_of_pos blank]
  rfl

theorem indentOf_append (blank : ∀ c ∈ front, isSpace c)
    (visible : text.head?.any isSpace = false) : indentOf (front ++ text) = front.length := by
  rw [indentOf_eq_takeWhile, takeWhile_append_of_pos blank]
  cases text with
  | nil => simp
  | cons c rest =>
    have stop : isSpace c = false := by simpa using visible
    simp [stop]

theorem isSpace_of_mem_spaces {width : Nat} {c : Char} (inside : c ∈ spaces width) : isSpace c := by
  rw [eq_of_mem_replicate inside]
  decide

theorem strip_head (text : Str) : (strip text).head?.any isSpace = false := by
  have left : strip (strip text) = strip text := strip_strip
  have isTrimmed : rstrip (strip text) = strip text := rstrip_rstrip
  rw [strip_of_trimmed isTrimmed] at left
  cases split : strip text with
  | nil => rfl
  | cons c rest =>
    rw [split, lstrip, dropWhile_eq_self_iff] at left
    have visible := left (by simp)
    rw [getElem_cons_zero] at visible
    simpa using visible

end Append

theorem nodup_eraseDups {α : Type} [BEq α] [LawfulBEq α] (items : List α) :
    items.eraseDups.Nodup := by
  match items with
  | [] => exact nodup_nil
  | item :: rest =>
    rw [eraseDups_cons, nodup_cons]
    constructor
    · simp [mem_eraseDups]
    · exact nodup_eraseDups _
termination_by items.length
decreasing_by exact Nat.lt_succ_of_le (length_filter_le _ _)

end Nmas.Text
