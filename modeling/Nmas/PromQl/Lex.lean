import Nmas.Text.Json

/-!
Contract: the tokens of a PromQL text.

Owns: the lexer, one character at a time, and how the tokens of a text are put
together from those of its parts: a part that ends between two tokens, or in a
word or a number the next character ends.

Does not own: numbers with an exponent or in another base, durations of several
units, the other operators, comments, and strings in other quotes.
-/

namespace Nmas.PromQl

open Nmas.Text List

inductive Sign where
  | equal | equalEqual | notEqual | regex | notRegex | less | lessEqual | greater | greaterEqual
deriving DecidableEq

def Sign.text : Sign → Str
  | .equal => ['=']
  | .equalEqual => ['=', '=']
  | .notEqual => ['!', '=']
  | .regex => ['=', '~']
  | .notRegex => ['!', '~']
  | .less => ['<']
  | .lessEqual => ['<', '=']
  | .greater => ['>']
  | .greaterEqual => ['>', '=']

inductive Token where
  | word (text : Str)
  | number (text : Str)
  | duration (text : Str)
  | quoted (value : Str)
  | sign (sign : Sign)
  | star
  | minus
  | comma
  | openParen
  | closeParen
  | openBrace
  | closeBrace
  | openBracket
  | closeBracket
deriving DecidableEq

def isDigit (c : Char) : Bool := '0' ≤ c && c ≤ '9'

def isWordStart (c : Char) : Bool :=
  ('a' ≤ c && c ≤ 'z') || ('A' ≤ c && c ≤ 'Z') || c = '_' || c = ':'

def isWordChar (c : Char) : Bool := isWordStart c || isDigit c

/-- A letter or an underscore, or a colon; then digits too. -/
def isName (text : Str) : Bool :=
  match text with
  | [] => false
  | first :: rest => isWordStart first && rest.all isWordChar

def isBlank (c : Char) : Bool := c = ' ' || c = '\t' || c = '\n' || c = '\r'

def isNumber (text : Str) : Bool :=
  let whole := text.takeWhile isDigit
  match text.dropWhile isDigit with
  | [] => !whole.isEmpty
  | '.' :: fraction => !whole.isEmpty && !fraction.isEmpty && fraction.all isDigit
  | _ => false

def isDuration (text : Str) : Bool :=
  !(text.takeWhile isDigit).isEmpty &&
    (["ms", "s", "m", "h", "d", "w", "y"].map String.ascii).contains (text.dropWhile isDigit)

def numeral (run : Str) : Option Token :=
  if isNumber run then some (.number run)
  else if isDuration run then some (.duration run)
  else none

def marks : List (Char × Token) :=
  [('*', .star), ('-', .minus), (',', .comma), ('(', .openParen), (')', .closeParen),
    ('{', .openBrace), ('}', .closeBrace), ('[', .openBracket), (']', .closeBracket)]

def punctuation (c : Char) : Option Token := (marks.find? (fun mark => mark.1 = c)).map Prod.snd

def double (first second : Char) : Option Sign :=
  if second = '=' then
    if first = '=' then some .equalEqual
    else if first = '!' then some .notEqual
    else if first = '<' then some .lessEqual
    else if first = '>' then some .greaterEqual
    else none
  else if second = '~' then
    if first = '=' then some .regex
    else if first = '!' then some .notRegex
    else none
  else none

def single (c : Char) : Option Sign :=
  if c = '=' then some .equal
  else if c = '<' then some .less
  else if c = '>' then some .greater
  else none

inductive Pending where
  | between
  | word (read : Str)
  | digits (read : Str)
  | sign (first : Char)
  | quoted (read : Str)
  | escaped (read : Str)
deriving DecidableEq

def Pending.close : Pending → Option (List Token)
  | .between => some []
  | .word read => some [.word read]
  | .digits read => (numeral read).map (fun token => [token])
  | .sign first => (single first).map (fun sign => [.sign sign])
  | .quoted _ => none
  | .escaped _ => none

def start (c : Char) : Option (List Token × Pending) :=
  if isBlank c then some ([], .between)
  else if isWordStart c then some ([], .word [c])
  else if isDigit c then some ([], .digits [c])
  else if c = '"' then some ([], .quoted [])
  else if ['=', '!', '<', '>'].contains c then some ([], .sign c)
  else (punctuation c).map (fun token => ([token], .between))

def ends (pending : Pending) (c : Char) : Option (List Token × Pending) := do
  let closed ← pending.close
  let (read, next) ← start c
  some (closed ++ read, next)

def feed : Pending → Char → Option (List Token × Pending)
  | .between, c => start c
  | .word read, c => if isWordChar c then some ([], .word (read ++ [c])) else ends (.word read) c
  | .digits read, c =>
    if isWordChar c || c = '.' then some ([], .digits (read ++ [c])) else ends (.digits read) c
  | .sign first, c =>
    match double first c with
    | some sign => some ([.sign sign], .between)
    | none => ends (.sign first) c
  | .quoted read, c =>
    if c = '"' then (Go.unquote read).map (fun value => ([.quoted value], .between))
    else if c = '\\' then some ([], .escaped read)
    else if c = '\n' then none
    else some ([], .quoted (read ++ [c]))
  | .escaped read, c => if c = '\n' then none else some ([], .quoted (read ++ ['\\', c]))

def feeds (pending : Pending) : Str → Option (List Token × Pending)
  | [] => some ([], pending)
  | c :: rest => do
    let (read, next) ← feed pending c
    let (more, last) ← feeds next rest
    some (read ++ more, last)

def lex (text : Str) : Option (List Token) := do
  let (read, last) ← feeds .between text
  let closed ← last.close
  some (read ++ closed)

/-! ### Texts put together -/

variable {front back text : Str} {first middle last : Pending} {read more tokens : List Token}
  {c : Char} {token : Token}

theorem feeds_append (isFront : feeds first front = some (read, middle))
    (isBack : feeds middle back = some (more, last)) :
    feeds first (front ++ back) = some (read ++ more, last) := by
  induction front generalizing first read with
  | nil =>
    cases isFront
    exact isBack
  | cons c rest ih =>
    obtain ⟨⟨one, next⟩, isOne, isRest⟩ := Option.bind_eq_some_iff.mp isFront
    obtain ⟨⟨others, final⟩, areOthers, same⟩ := Option.bind_eq_some_iff.mp isRest
    cases same
    rw [cons_append, feeds, isOne]
    show (feeds next (rest ++ back)).bind _ = _
    rw [ih areOthers]
    exact congrArg (fun tokens => some (tokens, last)) (append_assoc one others more).symm

theorem feeds_single : feeds first [c] = feed first c := by
  unfold feeds feeds
  rcases feed first c with - | ⟨read, next⟩
  · rfl
  · exact congrArg (fun tokens => some (tokens, next)) (append_nil read)

/-- A text whose tokens are these, the last one ended by what follows. -/
def Reads (text : Str) (tokens : List Token) : Prop :=
  ∃ read last closed, feeds .between text = some (read, last) ∧ last.close = some closed ∧
    tokens = read ++ closed

theorem reads_iff : Reads text tokens ↔ lex text = some tokens := by
  unfold Reads lex
  constructor
  · rintro ⟨read, last, closed, isRead, isClosed, rfl⟩
    rw [isRead]
    show last.close.bind _ = _
    rw [isClosed]
    rfl
  · intro isLexed
    obtain ⟨⟨read, last⟩, isRead, isRest⟩ := Option.bind_eq_some_iff.mp isLexed
    obtain ⟨closed, isClosed, same⟩ := Option.bind_eq_some_iff.mp isRest
    exact ⟨read, last, closed, isRead, isClosed, (Option.some.inj same).symm⟩

def Whole (text : Str) (tokens : List Token) : Prop := feeds .between text = some (tokens, .between)

instance : Decidable (Whole text tokens) :=
  inferInstanceAs (Decidable (feeds .between text = some (tokens, .between)))

theorem Whole.reads (whole : Whole text tokens) : Reads text tokens :=
  ⟨tokens, .between, [], whole, rfl, (append_nil tokens).symm⟩

theorem Whole.append (isFront : Whole front read) (isBack : Whole back more) :
    Whole (front ++ back) (read ++ more) :=
  feeds_append isFront isBack

theorem Whole.reads_append (isFront : Whole front read) (isBack : Reads back more) :
    Reads (front ++ back) (read ++ more) := by
  obtain ⟨others, last, closed, isRead, isClosed, rfl⟩ := isBack
  exact ⟨read ++ others, last, closed, feeds_append isFront isRead, isClosed,
    (append_assoc read others closed).symm⟩

/-- A character that is a token of its own, and ends a word or a number. -/
structure Ends (c : Char) : Prop where
  notWord : isWordChar c = false
  notPoint : c ≠ '.'
  notSign : ∀ first, double first c = none

theorem feed_ends (ends' : Ends c) {closed : List Token} (isClosed : first.close = some closed) :
    feed first c = ends first c := by
  cases first with
  | between =>
    show start c = ends .between c
    unfold ends
    rcases start c with - | ⟨read, next⟩
    · rfl
    · rfl
  | word read =>
    rw [feed, ends'.notWord]
    rfl
  | digits read =>
    rw [feed, ends'.notWord, decide_eq_false ends'.notPoint]
    rfl
  | sign first =>
    rw [feed, ends'.notSign first]
  | quoted read | escaped read => cases isClosed

theorem Reads.append_cons (isFront : Reads front read) (ends' : Ends c)
    (isBack : feeds .between (c :: back) = some (more, last)) :
    feeds .between (front ++ c :: back) = some (read ++ more, last) := by
  obtain ⟨others, pending, closed, isRead, isClosed, rfl⟩ := isFront
  obtain ⟨⟨one, next⟩, isOne, isRest⟩ := Option.bind_eq_some_iff.mp isBack
  obtain ⟨⟨rest, final⟩, areRest, same⟩ := Option.bind_eq_some_iff.mp isRest
  cases same
  have isStart : start c = some (one, next) := isOne
  have isFed : feed pending c = some (closed ++ one, next) := by
    rw [feed_ends ends' isClosed]
    unfold ends
    rw [isClosed, isStart]
    rfl
  have isCons : feeds pending (c :: back) = some ((closed ++ one) ++ rest, last) := by
    rw [feeds, isFed]
    show (feeds next back).bind _ = _
    rw [areRest]
    rfl
  have whole := feeds_append isRead isCons
  rw [whole]
  simp only [append_assoc]

theorem Reads.append_whole (isFront : Reads front read) (ends' : Ends c)
    (isBack : Whole (c :: back) more) : Whole (front ++ c :: back) (read ++ more) :=
  isFront.append_cons ends' isBack

theorem Reads.append_reads (isFront : Reads front read) (ends' : Ends c)
    (isBack : Reads (c :: back) more) : Reads (front ++ c :: back) (read ++ more) := by
  obtain ⟨others, last, closed, isRead, isClosed, rfl⟩ := isBack
  exact ⟨read ++ others, last, closed, isFront.append_cons ends' isRead, isClosed,
    (append_assoc read others closed).symm⟩

/-! ### The tokens of a word, a number and a string -/

theorem ends_mem : ∀ c ∈ [' ', '(', ')', '{', '}', '[', ']', ','], Ends c := by
  intro c member
  have apart : ∀ c ∈ [' ', '(', ')', '{', '}', '[', ']', ','],
      isWordChar c = false ∧ c ≠ '.' ∧ c ≠ '=' ∧ c ≠ '~' := by decide
  obtain ⟨notWord, notPoint, notEqual, notTilde⟩ := apart c member
  refine ⟨notWord, notPoint, ?_⟩
  intro first
  rw [double, if_neg notEqual, if_neg notTilde]

theorem feeds_word {text more : Str} (areWord : ∀ c ∈ more, isWordChar c) :
    feeds (.word text) more = some ([], .word (text ++ more)) := by
  induction more generalizing text with
  | nil => rw [feeds, append_nil]
  | cons c rest ih =>
    rw [feeds, feed, areWord c mem_cons_self, if_pos rfl]
    show (feeds (.word (text ++ [c])) rest).bind _ = _
    rw [ih (fun d member => areWord d (.tail _ member)), append_assoc]
    rfl

theorem feeds_name (isText : isName text) : feeds .between text = some ([], .word text) := by
  cases text with
  | nil => cases isText
  | cons first rest =>
    obtain ⟨isFirst, areRest⟩ := Bool.and_eq_true_iff.mp isText
    have notBlank : isBlank first = false := by
      have apart : ∀ c, isWordStart c → isBlank c = false := by
        intro c isStart
        unfold isBlank
        simp only [Bool.or_eq_false_iff, decide_eq_false_iff_not]
        refine ⟨⟨⟨?_, ?_⟩, ?_⟩, ?_⟩
        all_goals
          rintro rfl
          revert isStart
          decide
      exact apart first isFirst
    rw [feeds]
    show (start first).bind _ = _
    rw [start, notBlank, isFirst]
    show (feeds (.word [first]) rest).bind _ = _
    rw [feeds_word (all_eq_true.mp areRest)]
    rfl

theorem reads_word (isText : isName text) : Reads text [.word text] :=
  ⟨[], .word text, [.word text], feeds_name isText, rfl, rfl⟩

theorem feeds_digits {text more : Str} (areDigits : ∀ c ∈ more, isDigit c ∨ c = '.') :
    feeds (.digits text) more = some ([], .digits (text ++ more)) := by
  induction more generalizing text with
  | nil => rw [feeds, append_nil]
  | cons c rest ih =>
    have continues : (isWordChar c || decide (c = '.')) = true := by
      rcases areDigits c (.head _) with isDigit | isPoint
      · simp [isWordChar, isDigit]
      · simp [isPoint]
    rw [feeds, feed, continues, if_pos rfl]
    show (feeds (.digits (text ++ [c])) rest).bind _ = _
    rw [ih (fun d member => areDigits d (.tail _ member)), append_assoc]
    rfl

theorem digits_of_isNumber (isText : isNumber text) :
    ∃ first rest, text = first :: rest ∧ isDigit first ∧ ∀ c ∈ rest, isDigit c ∨ c = '.' := by
  have parts := takeWhile_append_dropWhile (p := isDigit) (l := text)
  have all : ∀ c ∈ text, isDigit c ∨ c = '.' := by
    intro c member
    rw [← parts, mem_append] at member
    rcases member with isWhole | isRest
    · exact .inl (mem_takeWhile_imp isWhole)
    · unfold isNumber at isText
      simp only [] at isText
      split at isText
      · rename_i isEmpty
        rw [isEmpty] at isRest
        cases isRest
      · rename_i fraction isFraction
        rw [isFraction] at isRest
        simp only [Bool.and_eq_true] at isText
        rcases mem_cons.mp isRest with isPoint | isDigit
        · exact .inr isPoint
        · exact .inl (all_eq_true.mp isText.2 c isDigit)
      · cases isText
  have whole : text.takeWhile isDigit ≠ [] := by
    intro isEmpty
    unfold isNumber at isText
    rw [isEmpty] at isText
    simp only [isEmpty_nil, Bool.not_true, Bool.false_and] at isText
    split at isText
    all_goals cases isText
  cases text with
  | nil => exact absurd rfl whole
  | cons first rest =>
    refine ⟨first, rest, rfl, ?_, fun c member => all c (.tail _ member)⟩
    by_contra notDigit
    exact whole (takeWhile_cons_of_neg notDigit)

theorem start_digit (isFirst : isDigit c) : start c = some ([], .digits [c]) := by
  have notBlank : isBlank c = false := by
    unfold isBlank
    simp only [Bool.or_eq_false_iff, decide_eq_false_iff_not]
    refine ⟨⟨⟨?_, ?_⟩, ?_⟩, ?_⟩
    all_goals
      rintro rfl
      revert isFirst
      decide
  have notWord : isWordStart c = false := by
    by_contra isStart
    rw [Bool.not_eq_false] at isStart
    simp only [isWordStart, isDigit, Bool.or_eq_true, Bool.and_eq_true, decide_eq_true_eq,
      Char.le_def, UInt32.le_iff_toNat_le] at isStart isFirst
    have low : 48 ≤ c.val.toNat := isFirst.1
    have high : c.val.toNat ≤ 57 := isFirst.2
    rcases isStart with ((lower | upper) | isLine) | isColon
    · have : 97 ≤ c.val.toNat := lower.1
      omega
    · have : 65 ≤ c.val.toNat := upper.1
      omega
    · rw [isLine] at high
      revert high
      decide
    · rw [isColon] at high
      revert high
      decide
  rw [start, notBlank, notWord, isFirst]
  rfl

theorem reads_number (isText : isNumber text) : Reads text [.number text] := by
  obtain ⟨first, rest, rfl, isFirst, areRest⟩ := digits_of_isNumber isText
  refine ⟨[], .digits (first :: rest), [.number (first :: rest)], ?_, ?_, rfl⟩
  · rw [feeds]
    show (start first).bind _ = _
    rw [start_digit isFirst]
    show (feeds (.digits [first]) rest).bind _ = _
    rw [feeds_digits areRest]
    rfl
  · show (numeral (first :: rest)).map _ = _
    rw [numeral, isText]
    rfl

theorem feeds_quoted {text more : Str} (plain : ∀ c ∈ more, c ≠ '"' ∧ c ≠ '\\' ∧ c ≠ '\n') :
    feeds (.quoted text) more = some ([], .quoted (text ++ more)) := by
  induction more generalizing text with
  | nil => rw [feeds, append_nil]
  | cons c rest ih =>
    obtain ⟨notQuote, notSlash, notLine⟩ := plain c (.head _)
    rw [feeds, feed, if_neg notQuote, if_neg notSlash, if_neg notLine]
    show (feeds (.quoted (text ++ [c])) rest).bind _ = _
    rw [ih (fun d member => plain d (.tail _ member)), append_assoc]
    rfl

theorem feeds_escaped {text : Str} (notLine : c ≠ '\n') :
    feeds (.quoted text) ['\\', c] = some ([], .quoted (text ++ ['\\', c])) := by
  show (feeds (.escaped text) [c]).bind _ = _
  rw [feeds_single, feed, if_neg notLine]
  rfl

theorem feeds_matchSign {sign : Sign}
    (isMatch : sign ∈ [Sign.equal, .notEqual, .regex, .notRegex]) :
    feeds (.word text) (sign.text ++ ['"']) = some ([.word text, .sign sign], .quoted []) := by
  simp only [mem_cons, not_mem_nil, or_false] at isMatch
  rcases isMatch with rfl | rfl | rfl | rfl
  all_goals rfl

theorem whole_matcher {label body value : Str} {sign : Sign} (isLabel : isName label)
    (isMatch : sign ∈ [Sign.equal, .notEqual, .regex, .notRegex])
    (isBody : feeds (.quoted []) body = some ([], .quoted body))
    (isValue : Go.unquote body = some value) :
    Whole (label ++ (sign.text ++ '"' :: (body ++ ['"'])))
      [.word label, .sign sign, .quoted value] := by
  have isClosed : feeds (.quoted body) ['"'] = some ([.quoted value], .between) := by
    rw [feeds_single, feed, if_pos rfl, isValue]
    rfl
  have isOpen : feeds .between (label ++ (sign.text ++ ['"'])) =
      some ([.word label, .sign sign], .quoted []) :=
    feeds_append (feeds_name isLabel) (feeds_matchSign isMatch)
  have isString := feeds_append isOpen (feeds_append isBody isClosed)
  rw [append_assoc, append_assoc] at isString
  exact isString

end Nmas.PromQl
