import Mathlib.Data.List.Infix
import Mathlib.Tactic.Common
import Nmas.Dhcp.SubnetTexts
import Nmas.Outline.Brackets
import Nmas.Text.Json

/-!
Contract: Kea's configuration text as a list of lexemes.

Owns:
- the lexemes of JSON with comments and directives, the text they render to, and
  which of them are written well (`Written`);
- what `_skip`, `_keys` and `_array_end` do on a rendered text (`skip_render`,
  `keys_render`, `arrayEnd_render`).

Does not own: what `move_plan` does with them.
-/

namespace Nmas.Dhcp.SubnetTexts

open Nmas.Text Nmas.Brackets List

/-- A lexeme: a character of the grammar, a quoted string by what stands between
its quotes, a comment to the end of its line or of the text, a `/*` comment, a
directive. -/
inductive Lexeme where
  | mark (c : Char)
  | text (body : Str)
  | line (lead body : Str)
  | lastLine (lead body : Str)
  | block (body : Str)
  | directive (body : Str)
deriving DecidableEq

namespace Lexeme

def render : Lexeme → Str
  | mark c => [c]
  | text body => quoted body
  | line lead body => lead ++ body ++ ['\n']
  | lastLine lead body => lead ++ body
  | block body => openMark ++ body ++ closeMark
  | directive body => askMark ++ body ++ askedMark

def isClosed : Str → Bool
  | [] => true
  | c :: rest =>
    if c = '\\' then
      match rest with
      | [] => false
      | _ :: more => isClosed more
    else c ≠ '"' && isClosed rest

def Valid (rest : List Lexeme) : Lexeme → Prop
  | mark c => c ≠ '"' ∧ c ≠ '#' ∧ c ≠ '/' ∧ c ≠ '<'
  | text body => isClosed body
  | line lead body => (lead = lineMark ∨ lead = ['#']) ∧ '\n' ∉ body
  | lastLine lead body => ((lead = lineMark ∨ lead = ['#']) ∧ '\n' ∉ body) ∧ rest = []
  | block body => ¬ closeMark <:+: body
  | directive body => ¬ askedMark <:+: body

instance (rest : List Lexeme) (lexeme : Lexeme) : Decidable (lexeme.Valid rest) := by
  cases lexeme <;> (unfold Valid; infer_instance)

/-- How far `_skip` goes over a lexeme. -/
def far : Lexeme → Nat
  | mark _ => 0
  | lexeme => lexeme.render.length

def isSilent : Lexeme → Bool
  | mark c => isBlank c
  | line _ _ => true
  | lastLine _ _ => true
  | block _ => true
  | text _ => false
  | directive _ => false

def closes : Lexeme → Option Lexeme
  | mark c => if c = '[' then some (mark ']') else if c = '{' then some (mark '}') else none
  | _ => none

def isClose : Lexeme → Bool
  | mark c => c = ']' || c = '}'
  | _ => false

theorem apart : Brackets.Apart closes isClose where
  opening := by
    intro token closing isClosed
    cases token with
    | mark c =>
      simp only [closes] at isClosed
      split_ifs at isClosed with isArray isObject
      · subst isArray
        rfl
      · subst isObject
        rfl
    | _ => cases isClosed
  closing := by
    intro token closing isClosed
    cases token with
    | mark c =>
      simp only [closes] at isClosed
      split_ifs at isClosed
      all_goals
        cases isClosed
        exact ⟨rfl, rfl⟩
    | _ => cases isClosed

end Lexeme

/-- Every lexeme is written well where it stands. -/
def Written : List Lexeme → Prop
  | [] => True
  | lexeme :: rest => lexeme.Valid rest ∧ Written rest

instance : (lexemes : List Lexeme) → Decidable (Written lexemes)
  | [] => isTrue trivial
  | lexeme :: rest =>
    let _ := instDecidableWritten rest
    inferInstanceAs (Decidable (lexeme.Valid rest ∧ Written rest))

def render (lexemes : List Lexeme) : Str := lexemes.flatMap Lexeme.render

@[simp]
theorem render_nil : render [] = [] := rfl

@[simp]
theorem render_cons (lexeme : Lexeme) (rest : List Lexeme) :
    render (lexeme :: rest) = lexeme.render ++ render rest := flatMap_cons

@[simp]
theorem render_append (one other : List Lexeme) :
    render (one ++ other) = render one ++ render other := flatMap_append

@[simp]
theorem render_marks (text : Str) : render (text.map Lexeme.mark) = text := by
  induction text with
  | nil => rfl
  | cons c rest ih =>
    rw [map_cons, render_cons, ih]
    rfl

/-- Kea's configuration text: lexemes written well, the brackets among them
nested. -/
structure KeaText where
  lexemes : List Lexeme
  written : Written lexemes
  nested : Nested Lexeme.closes Lexeme.isClose lexemes

def KeaText.text (config : KeaText) : Str := render config.lexemes

theorem Written.right {before rest : List Lexeme} (written : Written (before ++ rest)) :
    Written rest := by
  induction before with
  | nil => exact written
  | cons lexeme before ih => exact ih written.2

/-! ## What `_skip` goes over -/

theorem closing_quote (rest : Str) : closing ('"' :: rest) = some 1 := by
  unfold closing
  rfl

theorem closing_escape (c : Char) (rest : Str) :
    closing ('\\' :: c :: rest) = (closing rest).map (· + 2) := by
  rw [closing, if_pos rfl]

theorem closing_plain {c : Char} (rest : Str) (notEscape : c ≠ '\\') (notQuote : c ≠ '"') :
    closing (c :: rest) = (closing rest).map (· + 1) := by
  conv_lhs => unfold closing
  rw [if_neg notEscape, if_neg notQuote]

theorem closing_body {body : Str} (rest : Str) (isClosed : Lexeme.isClosed body) :
    closing (body ++ '"' :: rest) = some (body.length + 1) := by
  induction body using Lexeme.isClosed.induct with
  | case1 => exact closing_quote rest
  | case2 => simp [Lexeme.isClosed] at isClosed
  | case3 c more ih =>
    simp only [Lexeme.isClosed, ↓reduceIte] at isClosed
    rw [cons_append, cons_append, closing_escape, ih isClosed]
    rfl
  | case4 c others plain ih =>
    unfold Lexeme.isClosed at isClosed
    rw [if_neg plain, Bool.and_eq_true, decide_eq_true_eq] at isClosed
    rw [cons_append, closing_plain _ plain isClosed.1, ih isClosed.2]
    rfl

theorem find_pair {first second : Char} (differ : first ≠ second) {body : Str} (rest : Str)
    (absent : ¬ [first, second] <:+: body) :
    find [first, second] (body ++ [first, second] ++ rest) = some body.length := by
  induction body with
  | nil => simp [find]
  | cons c others ih =>
    have later : ¬ [first, second] <:+: others := by
      intro isInfix
      exact absent (isInfix.trans (suffix_cons c others).isInfix)
    have notHere :
        [first, second].isPrefixOf (c :: (others ++ [first, second] ++ rest)) = false := by
      rw [Bool.eq_false_iff, ne_eq, isPrefixOf_iff_prefix]
      intro isPrefix
      rw [cons_prefix_cons] at isPrefix
      obtain ⟨rfl, isNext⟩ := isPrefix
      cases others with
      | nil =>
        simp only [nil_append, cons_append, cons_prefix_cons] at isNext
        exact differ isNext.1.symm
      | cons d others =>
        simp only [cons_append, cons_prefix_cons, nil_prefix, and_true] at isNext
        subst isNext
        exact absent ⟨[], others, rfl⟩
    rw [cons_append, cons_append, find, notHere, if_neg Bool.false_ne_true, ih later]
    rfl

theorem find_newline {body : Str} (rest : Str) (absent : '\n' ∉ body) :
    find ['\n'] (body ++ '\n' :: rest) = some body.length := by
  induction body with
  | nil => simp [find]
  | cons c others ih =>
    rw [mem_cons, not_or] at absent
    simp [find, absent.1, ih absent.2]

theorem find_newline_none {body : Str} (absent : '\n' ∉ body) : find ['\n'] body = none := by
  induction body with
  | nil => simp [find]
  | cons c others ih =>
    rw [mem_cons, not_or] at absent
    simp [find, absent.1, ih absent.2]

theorem skip_line {lead : Str} (isLead : lead = lineMark ∨ lead = ['#']) (rest : Str) :
    skip (lead ++ rest) = match find ['\n'] (lead ++ rest) with
      | some far => .ok (far + 1)
      | none => .ok (lead ++ rest).length := by
  rcases isLead with rfl | rfl <;> rfl

theorem skip_render {lexeme : Lexeme} {rest : List Lexeme} (valid : lexeme.Valid rest) :
    skip (lexeme.render ++ render rest) = .ok lexeme.far := by
  cases lexeme with
  | mark c =>
    obtain ⟨notQuote, notHash, notSlash, notLess⟩ := valid
    simp [skip, Lexeme.render, Lexeme.far, notQuote, notHash, lineMark, openMark, askMark,
      Ne.symm notSlash, Ne.symm notLess]
  | text body =>
    have closed : closing (body ++ '"' :: render rest) = some (body.length + 1) :=
      closing_body (render rest) valid
    simp [skip, Lexeme.render, Lexeme.far, quoted, closed]
  | line lead body =>
    have notLead : '\n' ∉ lead ++ body := by
      rcases valid.1 with rfl | rfl
      · simpa [lineMark] using valid.2
      · simpa using valid.2
    have ends := find_newline (render rest) notLead
    simp only [append_assoc] at ends
    simp [Lexeme.render, Lexeme.far, skip_line valid.1, ends]
    omega
  | lastLine lead body =>
    obtain ⟨⟨isLead, notBody⟩, rfl⟩ := valid
    have notLead : '\n' ∉ lead ++ body := by
      rcases isLead with rfl | rfl
      · simpa [lineMark] using notBody
      · simpa using notBody
    have ends := find_newline_none notLead
    simp [Lexeme.render, Lexeme.far, skip_line isLead, ends]
  | block body =>
    have ends : find closeMark (body ++ closeMark ++ render rest) = some body.length :=
      find_pair (by decide) (render rest) valid
    simp only [append_assoc] at ends
    simp [skip, Lexeme.render, Lexeme.far, openMark, lineMark, ends]
    simp [closeMark]
  | directive body =>
    have ends : find askedMark (body ++ askedMark ++ render rest) = some body.length :=
      find_pair (by decide) (render rest) valid
    simp only [append_assoc] at ends
    simp [skip, Lexeme.render, Lexeme.far, openMark, lineMark, askMark, ends]
    simp [askedMark]

/-! ## What `_keys` finds -/

theorem Lexeme.render_ne_nil {lexeme : Lexeme} {rest : List Lexeme} (valid : lexeme.Valid rest) :
    lexeme.render ≠ [] := by
  cases lexeme with
  | line lead body => simp [Lexeme.render]
  | lastLine lead body => rcases valid.1.1 with rfl | rfl <;> simp [Lexeme.render, lineMark]
  | _ => simp [Lexeme.render, quoted, openMark, askMark]

theorem Lexeme.far_sub_one (lexeme : Lexeme) : lexeme.far - 1 = lexeme.render.length - 1 := by
  cases lexeme <;> rfl

theorem Lexeme.eq_text {lexeme : Lexeme} {rest : List Lexeme} {body : Str}
    (valid : lexeme.Valid rest) (isRender : lexeme.render = quoted body) :
    lexeme = .text body := by
  cases lexeme with
  | mark c => simp [Lexeme.render, quoted] at isRender
  | text other =>
    have isBody : other = body := by simpa [Lexeme.render, quoted] using isRender
    rw [isBody]
  | line lead other =>
    rcases valid.1 with rfl | rfl <;> simp [Lexeme.render, quoted, lineMark] at isRender
  | lastLine lead other =>
    rcases valid.1.1 with rfl | rfl <;> simp [Lexeme.render, quoted, lineMark] at isRender
  | block other => simp [Lexeme.render, quoted, openMark] at isRender
  | directive other => simp [Lexeme.render, quoted, askMark] at isRender

def hitHere (key : Str) (place : Nat) (lexeme : Lexeme) (rest : List Lexeme) : List (Nat × Nat) :=
  if lexeme = .text key then
    match colonAt (render rest) with
    | some more => [(place, place + lexeme.render.length + more)]
    | none => []
  else []

def hits (key : Str) : Nat → List Lexeme → List (Nat × Nat)
  | _, [] => []
  | place, lexeme :: rest =>
    hitHere key place lexeme rest ++ hits key (place + lexeme.render.length) rest

theorem keyHere_render {lexeme : Lexeme} {rest : List Lexeme} (key : Str) (place : Nat)
    (valid : lexeme.Valid rest) :
    keyHere key place lexeme.far (lexeme.render ++ render rest) =
      hitHere key place lexeme rest := by
  unfold keyHere hitHere
  by_cases isKey : lexeme = .text key
  · subst isKey
    have isPrefix : (quoted key).isPrefixOf (quoted key ++ render rest) := by
      rw [List.isPrefixOf_iff_prefix]
      exact prefix_append _ _
    have isFar : (Lexeme.text key).far = (quoted key).length := rfl
    rw [if_pos ⟨isPrefix, isFar⟩, if_pos rfl, isFar]
    cases isColon : colonAt (render rest) with
    | none | some more => simp [Lexeme.render, isColon]
  · rw [if_neg isKey, if_neg]
    intro ⟨isPrefix, isFar⟩
    apply isKey
    apply Lexeme.eq_text valid
    rw [List.isPrefixOf_iff_prefix] at isPrefix
    have isLength : lexeme.render.length = (quoted key).length := by
      cases lexeme with
      | mark c => simp [Lexeme.far, quoted] at isFar
      | _ => exact isFar
    exact (prefix_of_prefix_length_le isPrefix (prefix_append _ _)
      isLength.ge).eq_of_length isLength.symm |>.symm

theorem keysFrom_pass (key : Str) (place : Nat) (passed rest : Str) :
    keysFrom key passed.length place (passed ++ rest) =
      keysFrom key 0 (place + passed.length) rest := by
  induction passed generalizing place with
  | nil => rfl
  | cons c passed ih =>
    rw [length_cons, cons_append, keysFrom, ih, Nat.add_assoc place 1, Nat.add_comm 1]

theorem keysFrom_render (key : Str) {lexemes : List Lexeme} (written : Written lexemes)
    (place : Nat) : keysFrom key 0 place (render lexemes) = .ok (hits key place lexemes) := by
  induction lexemes generalizing place with
  | nil => rfl
  | cons lexeme rest ih =>
    obtain ⟨c, others, isRender⟩ := exists_cons_of_ne_nil (Lexeme.render_ne_nil written.1)
    have skipped := skip_render written.1
    have here := keyHere_render key place written.1
    have passing : lexeme.far - 1 = others.length := by
      rw [lexeme.far_sub_one, isRender, length_cons, Nat.add_sub_cancel]
    have later := ih written.2 (place + lexeme.render.length)
    rw [isRender, length_cons, ← Nat.add_assoc, Nat.add_right_comm] at later
    rw [isRender, cons_append] at skipped here
    rw [render_cons, isRender, cons_append, keysFrom, skipped]
    simp only [bind, Except.bind, passing, keysFrom_pass, later, here]
    rw [hits, isRender, length_cons, ← Nat.add_assoc, Nat.add_right_comm]
    rfl

theorem keys_render (key : Str) {lexemes : List Lexeme} (written : Written lexemes) :
    keys (render lexemes) key = .ok (hits key 0 lexemes) := keysFrom_render key written 0

/-! ## Where `_array_end` stops -/

theorem arrayEndFrom_pass (depth : Int) (place : Nat) (passed rest : Str) :
    arrayEndFrom passed.length depth place (passed ++ rest) =
      arrayEndFrom 0 depth (place + passed.length) rest := by
  induction passed generalizing place with
  | nil => rfl
  | cons c passed ih =>
    rw [length_cons, cons_append, arrayEndFrom, ih, Nat.add_assoc place 1, Nat.add_comm 1]

theorem arrayEndFrom_passes {lexeme : Lexeme} {rest : List Lexeme} (valid : lexeme.Valid rest)
    (notMark : ∀ c, lexeme ≠ .mark c) (depth : Int) (place : Nat) :
    arrayEndFrom 0 depth place (lexeme.render ++ render rest) =
      arrayEndFrom 0 depth (place + lexeme.render.length) (render rest) := by
  obtain ⟨c, others, isRender⟩ := exists_cons_of_ne_nil (Lexeme.render_ne_nil valid)
  have skipped := skip_render valid
  have isFar : lexeme.far = others.length + 1 := by
    cases lexeme with
    | mark c => exact absurd rfl (notMark c)
    | _ => exact (congrArg List.length isRender).trans (length_cons ..)
  rw [isRender, cons_append, isFar] at skipped
  rw [isRender, cons_append, arrayEndFrom, skipped]
  simp only [bind, Except.bind, Nat.add_sub_cancel, arrayEndFrom_pass]
  rw [if_pos (by simp), length_cons, ← Nat.add_assoc, Nat.add_right_comm]

theorem arrayEndFrom_mark {c : Char} {rest : List Lexeme} (valid : (Lexeme.mark c).Valid rest)
    (depth : Int) (place : Nat) :
    arrayEndFrom 0 depth place (c :: render rest) =
      if c = '[' ∨ c = '{' then arrayEndFrom 0 (depth + 1) (place + 1) (render rest)
      else if c = ']' ∨ c = '}' then
        if depth - 1 = 0 then .ok place else arrayEndFrom 0 (depth - 1) (place + 1) (render rest)
      else arrayEndFrom 0 depth (place + 1) (render rest) := by
  have skipped : skip (c :: render rest) = .ok 0 := skip_render valid
  rw [arrayEndFrom, skipped]
  rfl

theorem Lexeme.closes_eq {opening last : Lexeme} (isPair : opening.closes = some last) :
    (opening = .mark '[' ∧ last = .mark ']') ∨ (opening = .mark '{' ∧ last = .mark '}') := by
  cases opening with
  | mark c =>
    simp only [Lexeme.closes] at isPair
    split_ifs at isPair with isArray isObject
    · cases isPair
      exact .inl ⟨congrArg _ isArray, rfl⟩
    · cases isPair
      exact .inr ⟨congrArg _ isObject, rfl⟩
  | _ => cases isPair

theorem arrayEndFrom_open {opening last : Lexeme} {rest : List Lexeme}
    (isPair : opening.closes = some last) (valid : opening.Valid rest) (depth : Int) (place : Nat) :
    arrayEndFrom 0 depth place (render (opening :: rest)) =
      arrayEndFrom 0 (depth + 1) (place + 1) (render rest) := by
  rcases Lexeme.closes_eq isPair with ⟨rfl, -⟩ | ⟨rfl, -⟩
  · exact (arrayEndFrom_mark valid depth place).trans (if_pos (by decide))
  · exact (arrayEndFrom_mark valid depth place).trans (if_pos (by decide))

theorem arrayEndFrom_close {opening last : Lexeme} {rest : List Lexeme}
    (isPair : opening.closes = some last) (valid : last.Valid rest) (depth : Int) (place : Nat) :
    arrayEndFrom 0 depth place (render (last :: rest)) =
      if depth - 1 = 0 then .ok place
      else arrayEndFrom 0 (depth - 1) (place + 1) (render rest) := by
  rcases Lexeme.closes_eq isPair with ⟨-, rfl⟩ | ⟨-, rfl⟩
  · exact (arrayEndFrom_mark valid depth place).trans
      ((if_neg (by decide)).trans (if_pos (by decide)))
  · exact (arrayEndFrom_mark valid depth place).trans
      ((if_neg (by decide)).trans (if_pos (by decide)))

theorem Lexeme.render_length_of_pair {opening last : Lexeme} (isPair : opening.closes = some last) :
    opening.render.length = 1 ∧ last.render.length = 1 := by
  rcases closes_eq isPair with ⟨rfl, rfl⟩ | ⟨rfl, rfl⟩ <;> exact ⟨rfl, rfl⟩

theorem arrayEndFrom_nested {inner rest : List Lexeme}
    (nested : Nested Lexeme.closes Lexeme.isClose inner) (written : Written (inner ++ rest))
    {depth : Int} (isDeep : 0 < depth) (place : Nat) :
    arrayEndFrom 0 depth place (render (inner ++ rest)) =
      arrayEndFrom 0 depth (place + (render inner).length) (render rest) := by
  induction nested generalizing depth place rest with
  | nil => rfl
  | plain token others opensNone closesNone _ ih =>
    have next := ih written.2 isDeep (place + token.render.length)
    rw [cons_append, render_cons, render_cons, length_append, ← Nat.add_assoc, ← next]
    cases token with
    | mark c =>
      have notOpen : ¬ (c = '[' ∨ c = '{') := by
        intro isOpen
        rcases isOpen with rfl | rfl <;> cases opensNone
      have notClose : ¬ (c = ']' ∨ c = '}') := by simpa [Lexeme.isClose] using closesNone
      exact (arrayEndFrom_mark written.1 depth place).trans
        ((if_neg notOpen).trans (if_neg notClose))
    | _ => exact arrayEndFrom_passes written.1 (fun c => by simp) depth place
  | group opening last within others isPair closed _ innerHypothesis restHypothesis =>
    have oneEach := Lexeme.render_length_of_pair isPair
    rw [cons_append, append_assoc] at written ⊢
    have isDeeper : 0 < depth + 1 := by omega
    have inside := innerHypothesis written.2 isDeeper (place + 1)
    have fromClose : Written (last :: (others ++ rest)) := written.2.right
    have behind := restHypothesis fromClose.2 isDeep (place + 1 + (render within).length + 1)
    calc arrayEndFrom 0 depth place (render (opening :: (within ++ (last :: others ++ rest))))
        = arrayEndFrom 0 (depth + 1) (place + 1) (render (within ++ (last :: others ++ rest))) :=
          arrayEndFrom_open isPair written.1 depth place
      _ = arrayEndFrom 0 (depth + 1) (place + 1 + (render within).length)
            (render (last :: (others ++ rest))) := inside
      _ = arrayEndFrom 0 depth (place + 1 + (render within).length + 1)
            (render (others ++ rest)) := by
          rw [arrayEndFrom_close isPair fromClose.1, Int.add_sub_cancel,
            if_neg (Int.ne_of_gt isDeep)]
      _ = _ := by
          rw [behind]
          congr 1
          simp only [render_cons, render_append, length_append, oneEach.1, oneEach.2]
          omega

theorem arrayEnd_render {before inner after : List Lexeme}
    (written : Written (before ++ .mark '[' :: (inner ++ .mark ']' :: after)))
    (nested : Nested Lexeme.closes Lexeme.isClose inner) :
    arrayEnd (render (before ++ .mark '[' :: (inner ++ .mark ']' :: after)))
        (render before).length =
      .ok ((render before).length + 1 + (render inner).length) := by
  have isPair : Lexeme.closes (.mark '[') = some (.mark ']') := rfl
  have fromOpen := written.right
  rw [arrayEnd, render_append, drop_left, arrayEndFrom_open isPair fromOpen.1,
    arrayEndFrom_nested nested fromOpen.2 (by decide),
    arrayEndFrom_close isPair fromOpen.2.right.1]
  rfl

end Nmas.Dhcp.SubnetTexts
