import Nmas.Dhcp.Lexemes

/-!
Contract: what the move of the subnets moves, and that it is done afterwards.

Owns:
- the keys of a configuration as JSON reads them, and the array one of them has
  (`IsKey`, `ArrayAt`);
- `move_exact`: what a move answers is the array of the only key of its name if
  and only if each key of that name is written plainly, and the configuration it
  leaves is then done.

Does not own: the comparison of Kea's resolved configuration before and after.
-/

namespace Nmas.Dhcp.SubnetTexts

open Nmas.Text Nmas.Brackets List

/-! ## Blanks in front of a mark -/

theorem mark_of_head {lexemes : List Lexeme} (written : Written lexemes) {c : Char}
    (isHead : (render lexemes).head? = some c) (plain : c ≠ '"' ∧ c ≠ '#' ∧ c ≠ '/' ∧ c ≠ '<') :
    ∃ rest, lexemes = .mark c :: rest := by
  cases lexemes with
  | nil => cases isHead
  | cons lexeme rest =>
    obtain ⟨notQuote, notHash, notSlash, notLess⟩ := plain
    rw [render_cons] at isHead
    cases lexeme with
    | mark d =>
      cases isHead
      exact ⟨rest, rfl⟩
    | text body =>
      cases isHead
      exact absurd rfl notQuote
    | line lead body =>
      rcases written.1.1 with rfl | rfl
      · cases isHead
        exact absurd rfl notSlash
      · cases isHead
        exact absurd rfl notHash
    | lastLine lead body =>
      rcases written.1.1.1 with rfl | rfl
      · cases isHead
        exact absurd rfl notSlash
      · cases isHead
        exact absurd rfl notHash
    | block body =>
      cases isHead
      exact absurd rfl notSlash
    | directive body =>
      cases isHead
      exact absurd rfl notLess

theorem plain_of_isBlank {c : Char} (blank : isBlank c) :
    c ≠ '"' ∧ c ≠ '#' ∧ c ≠ '/' ∧ c ≠ '<' := by
  simp only [isBlank, Bool.or_eq_true, decide_eq_true_eq] at blank
  rcases blank with ((rfl | rfl) | rfl) | rfl <;> decide

theorem blanks_split {lexemes : List Lexeme} (written : Written lexemes) :
    ∃ space rest, lexemes = space.map .mark ++ rest ∧ space.all isBlank ∧
      (render lexemes).takeWhile isBlank = space ∧
      ∀ c ∈ (render rest).head?, isBlank c = false := by
  induction lexemes with
  | nil => exact ⟨[], [], rfl, rfl, rfl, by simp⟩
  | cons lexeme others ih =>
    by_cases starts : ∃ c ∈ (render (lexeme :: others)).head?, isBlank c
    · obtain ⟨c, isHead, blank⟩ := starts
      obtain ⟨rest, isMark⟩ := mark_of_head written isHead (plain_of_isBlank blank)
      obtain ⟨rfl, rfl⟩ := List.cons.inj isMark
      obtain ⟨space, rest, rfl, blanks, isSpace, ends⟩ := ih written.2
      refine ⟨c :: space, rest, rfl, by simp [blank, blanks], ?_, ends⟩
      rw [render_cons]
      exact (takeWhile_cons_of_pos blank).trans (congrArg _ isSpace)
    · refine ⟨[], lexeme :: others, rfl, rfl, ?_, by simpa using starts⟩
      cases isText : render (lexeme :: others) with
      | nil => rfl
      | cons c rest =>
        rw [takeWhile_cons_of_neg]
        intro blank
        exact starts ⟨c, by rw [isText]; rfl, blank⟩

theorem colonAt_blanks {space : Str} (blanks : space.all isBlank) (rest : Str) :
    colonAt (space ++ rest) = (colonAt rest).map (· + space.length) := by
  induction space with
  | nil => simp
  | cons c space ih =>
    rw [all_cons, Bool.and_eq_true] at blanks
    rw [cons_append, colonAt, if_pos blanks.1, ih blanks.2, Option.map_map, length_cons]
    congr 1

theorem colonAt_gap {gap : Str} (blanks : gap.all isBlank) (rest : Str) :
    colonAt (gap ++ ':' :: rest) = some (gap.length + 1) := by
  rw [colonAt_blanks blanks]
  simp [colonAt, isBlank, Nat.add_comm]

theorem gap_of_colonAt {lexemes : List Lexeme} (written : Written lexemes) {more : Nat}
    (isColon : colonAt (render lexemes) = some more) :
    ∃ (gap : Str) (rest : List Lexeme), lexemes = gap.map .mark ++ .mark ':' :: rest ∧
      gap.all isBlank ∧ more = gap.length + 1 := by
  obtain ⟨space, rest, rfl, blanks, -, ends⟩ := blanks_split written
  rw [render_append, render_marks, colonAt_blanks blanks, Option.map_eq_some_iff] at isColon
  obtain ⟨far, isFar, rfl⟩ := isColon
  cases isText : render rest with
  | nil =>
    rw [isText] at isFar
    cases isFar
  | cons c others =>
    rw [isText] at isFar ends
    have notBlank := ends c rfl
    rw [colonAt, if_neg (by simp [notBlank])] at isFar
    split_ifs at isFar with isHead
    cases isFar
    subst isHead
    obtain ⟨rest, rfl⟩ := mark_of_head written.right (c := ':') (by rw [isText]; rfl) (by decide)
    exact ⟨space, rest, rfl, blanks, Nat.add_comm ..⟩

theorem colonAt_cut {c : Char} (notBlank : isBlank c = false) (before after : Str) :
    colonAt (before ++ c :: after) = colonAt (before ++ [c]) := by
  induction before with
  | nil => simp [colonAt, notBlank]
  | cons d before ih =>
    rw [cons_append, cons_append, colonAt, colonAt, ih]

/-! ## The keys found -/

def IsPlainKey (lexemes : List Lexeme) (key : Str) (before : List Lexeme) (gap : Str)
    (rest : List Lexeme) : Prop :=
  lexemes = before ++ .text key :: (gap.map .mark ++ .mark ':' :: rest) ∧ gap.all isBlank

def plainHit (key : Str) (place : Nat) (before : List Lexeme) (gap : Str) : Nat × Nat :=
  (place + (render before).length,
    place + (render before).length + (quoted key).length + (gap.length + 1))

theorem isPlainKey_of_mem {key : Str} {place : Nat} {lexemes : List Lexeme}
    (written : Written lexemes) {hit : Nat × Nat} (found : hit ∈ hits key place lexemes) :
    ∃ before gap rest, IsPlainKey lexemes key before gap rest ∧
      hit = plainHit key place before gap := by
  induction lexemes generalizing place with
  | nil => cases found
  | cons lexeme others ih =>
    rw [hits, mem_append] at found
    rcases found with here | later
    · unfold hitHere at here
      by_cases isKey : lexeme = .text key
      · subst isKey
        rw [if_pos rfl] at here
        cases isColon : colonAt (render others) with
        | none => simp [isColon] at here
        | some more =>
          obtain ⟨gap, rest, rfl, blanks, rfl⟩ := gap_of_colonAt written.2 isColon
          simp only [isColon, mem_singleton] at here
          exact ⟨[], gap, rest, ⟨rfl, blanks⟩, here⟩
      · rw [if_neg isKey] at here
        cases here
    · obtain ⟨before, gap, rest, ⟨rfl, blanks⟩, rfl⟩ := ih written.2 later
      refine ⟨lexeme :: before, gap, rest, ⟨rfl, blanks⟩, ?_⟩
      simp only [plainHit, render_cons, length_append, Nat.add_assoc]

theorem mem_hits_of_isPlainKey {key : Str} {lexemes before rest : List Lexeme} {gap : Str}
    (isKey : IsPlainKey lexemes key before gap rest) (place : Nat) :
    plainHit key place before gap ∈ hits key place lexemes := by
  obtain ⟨rfl, blanks⟩ := isKey
  induction before generalizing place with
  | nil =>
    have isColon : colonAt (render (gap.map .mark ++ .mark ':' :: rest)) =
        some (gap.length + 1) := by
      rw [render_append, render_marks]
      exact colonAt_gap blanks _
    rw [nil_append, hits, hitHere, if_pos rfl, isColon]
    exact mem_append_left _ (mem_singleton.mpr rfl)
  | cons lexeme before ih =>
    rw [cons_append, hits, mem_append]
    right
    have later := ih (place + lexeme.render.length)
    simp only [plainHit, render_cons, length_append, Nat.add_assoc] at later ⊢
    exact later

theorem hits_cut (key : Str) {c : Char} (notBlank : isBlank c = false)
    (before after : List Lexeme) (place : Nat) :
    hits key place (before ++ .mark c :: after) =
      hits key place (before ++ [.mark c]) ++
        hits key (place + (render (before ++ [.mark c])).length) after := by
  induction before generalizing place with
  | nil => simp [hits, hitHere, Lexeme.render]
  | cons lexeme before ih =>
    have cut : colonAt (render (before ++ .mark c :: after)) =
        colonAt (render (before ++ [.mark c])) := by
      rw [render_append, render_append]
      exact colonAt_cut notBlank _ _
    have same : hitHere key place lexeme (before ++ .mark c :: after) =
        hitHere key place lexeme (before ++ [.mark c]) := by
      rw [hitHere, hitHere, cut]
    rw [cons_append, cons_append, hits, hits, ih, same, render_cons,
      length_append, Nat.add_assoc, append_assoc]

theorem hits_eq_nil {key : Str} {place : Nat} {lexemes : List Lexeme}
    (none : hits key place lexemes = []) (other : Nat) : hits key other lexemes = [] := by
  induction lexemes generalizing place other with
  | nil => rfl
  | cons lexeme rest ih =>
    rw [hits, append_eq_nil_iff] at none
    rw [hits, ih none.2, append_nil]
    have here := none.1
    unfold hitHere at here ⊢
    by_cases isKey : lexeme = .text key
    · rw [if_pos isKey] at here ⊢
      cases isColon : colonAt (render rest) with
      | none => rfl
      | some more =>
        simp only [isColon] at here
        cases here
    · rw [if_neg isKey]

theorem hits_marks (key : Str) (space : Str) (rest : List Lexeme) (place : Nat) :
    hits key place (space.map .mark ++ rest) = hits key (place + space.length) rest := by
  induction space generalizing place with
  | nil => rfl
  | cons c space ih =>
    have notHere : hitHere key place (.mark c) (space.map .mark ++ rest) = [] := if_neg (by simp)
    rw [map_cons, cons_append, hits, notHere, nil_append, ih,
      length_cons, Nat.add_assoc, Nat.add_comm space.length]
    rfl

/-! ## What `move_plan` answers -/

def sharedNetworks : Str := "shared-networks".ascii

structure Cut where
  before : List Lexeme
  gap : Str
  space : Str
  inner : List Lexeme
  after : List Lexeme

namespace Cut

def front (cut : Cut) (key : Str) : List Lexeme :=
  cut.before ++ .text key :: (cut.gap.map .mark ++ .mark ':' :: cut.space.map .mark)

def array (cut : Cut) : List Lexeme := .mark '[' :: (cut.inner ++ [.mark ']'])

/-- The configuration with a lexeme in place of the array. -/
def replaced (cut : Cut) (key : Str) (lexeme : Lexeme) : List Lexeme :=
  cut.front key ++ lexeme :: cut.after

end Cut

/-- The key and its array in a configuration, each found where `move_plan` takes
it to be. -/
structure IsCut (config : KeaText) (key : Str) (cut : Cut) : Prop where
  isText : config.lexemes = cut.front key ++ (cut.array ++ cut.after)
  gapBlank : cut.gap.all isBlank
  spaceBlank : cut.space.all isBlank
  nested : Nested Lexeme.closes Lexeme.isClose cut.inner
  onlyHit : hits key 0 config.lexemes = [plainHit key 0 cut.before cut.gap]
  notShared : hits sharedNetworks 0 config.lexemes = []

def Cut.plan (cut : Cut) (key path : Str) : MovePlan where
  state := .move
  refused := none
  subnetsText := render cut.array ++ ['\n']
  candidate := render (cut.front key) ++ includeOf path ++ render cut.after
  file := path

theorem plainHit_front (key : Str) (cut : Cut) :
    (plainHit key 0 cut.before cut.gap).2 + cut.space.length = (render (cut.front key)).length := by
  simp only [plainHit, Cut.front, render_append, render_cons, render_marks, length_append,
    Lexeme.render, length_cons, length_nil]
  omega

theorem drop_front (key : Str) (cut : Cut) (rest : Str) :
    (render (cut.front key) ++ rest).drop (plainHit key 0 cut.before cut.gap).2 =
      cut.space ++ rest := by
  have isFront : render (cut.front key) =
      (render cut.before ++ quoted key ++ cut.gap ++ [':']) ++ cut.space := by
    simp [Cut.front, Lexeme.render]
  have isPlace : (plainHit key 0 cut.before cut.gap).2 =
      (render cut.before ++ quoted key ++ cut.gap ++ [':']).length := by
    simp [plainHit]
    omega
  rw [isFront, isPlace, append_assoc _ cut.space rest, drop_left]

theorem pastBlanks_front {key : Str} {cut : Cut} (blanks : cut.space.all isBlank) {rest : Str}
    (ends : ∀ c ∈ rest.head?, isBlank c = false) :
    pastBlanks (render (cut.front key) ++ rest) (plainHit key 0 cut.before cut.gap).2 =
      (render (cut.front key)).length := by
  have isSpace : (cut.space ++ rest).takeWhile isBlank = cut.space := by
    rw [takeWhile_append_of_pos (all_eq_true.mp blanks)]
    cases rest with
    | nil => simp
    | cons c rest =>
      rw [takeWhile_cons_of_neg (by simp [ends c rfl]), append_nil]
  rw [pastBlanks, drop_front, isSpace, plainHit_front]

theorem movedFrom_done {key : Str} {cut : Cut} {main : Str} {family : Family} {out : MovePlan}
    {rest : Str} (blanks : cut.space.all isBlank) :
    movedFrom (render (cut.front key) ++ (includeOf out.file ++ rest)) main family out
        (plainHit key 0 cut.before cut.gap).2 =
      .ok { out with state := .done } := by
  have starts : ∀ c ∈ (includeOf out.file ++ rest).head?, isBlank c = false := by
    intro c isHead
    cases isHead
    rfl
  unfold movedFrom
  rw [pastBlanks_front blanks starts]
  apply if_pos
  rw [drop_left, isPrefixOf_iff_prefix]
  exact prefix_append _ _

theorem movedFrom_move {config : KeaText} {key : Str} {cut : Cut} (isCut : IsCut config key cut)
    {main : Str} {family : Family} {path : Str} :
    movedFrom config.text main family ⟨.refused, none, [], config.text, path⟩
        (plainHit key 0 cut.before cut.gap).2 =
      .ok (cut.plan key path) := by
  have isText : config.text = render (cut.front key) ++ (render cut.array ++ render cut.after) := by
    rw [KeaText.text, isCut.isText, render_append, render_append]
  have isArray : render cut.array ++ render cut.after =
      '[' :: (render cut.inner ++ ']' :: render cut.after) := by
    simp [Cut.array, Lexeme.render]
  have isLast : arrayEnd config.text (render (cut.front key)).length =
      .ok ((render (cut.front key)).length + 1 + (render cut.inner).length) := by
    have isLexemes : config.lexemes =
        cut.front key ++ .mark '[' :: (cut.inner ++ .mark ']' :: cut.after) := by
      simp [isCut.isText, Cut.array]
    have written := config.written
    rw [isLexemes] at written
    rw [KeaText.text, isLexemes]
    exact arrayEnd_render written isCut.nested
  have isPlace : pastBlanks config.text (plainHit key 0 cut.before cut.gap).2 =
      (render (cut.front key)).length := by
    rw [isText]
    apply pastBlanks_front isCut.spaceBlank
    rw [isArray]
    intro c isHead
    cases isHead
    rfl
  have starts : config.text.drop (render (cut.front key)).length =
      '[' :: (render cut.inner ++ ']' :: render cut.after) := by
    rw [isText, drop_left, isArray]
  have notIncluded : (includeOf path).isPrefixOf
      ('[' :: (render cut.inner ++ ']' :: render cut.after)) = false := rfl
  have isLength : (render cut.array).length = 1 + (render cut.inner).length + 1 := by
    simp [Cut.array, Lexeme.render]
    omega
  have isTaken : ('[' :: (render cut.inner ++ ']' :: render cut.after)).take
      ((render (cut.front key)).length + 1 + (render cut.inner).length + 1 -
        (render (cut.front key)).length) = render cut.array := by
    rw [← isArray]
    apply take_left'
    omega
  have isLeft : config.text.take (render (cut.front key)).length = render (cut.front key) := by
    rw [isText, take_left]
  have isRight : config.text.drop ((render (cut.front key)).length + 1 +
      (render cut.inner).length + 1) = render cut.after := by
    rw [isText, ← append_assoc]
    apply drop_left'
    rw [length_append]
    omega
  unfold movedFrom
  simp only [isPlace, starts, notIncluded, isLast, isTaken, isLeft, isRight, bind, Except.bind]
  rfl

theorem movedFrom_starts {mainText main : Str} {family : Family} {out plan : MovePlan} {after : Nat}
    (isOut : out.state = .refused) (answers : movedFrom mainText main family out after = .ok plan)
    (isMove : plan.state = .move) :
    (mainText.drop (pastBlanks mainText after)).head? = some '[' := by
  unfold movedFrom at answers
  by_cases included : (includeOf out.file).isPrefixOf
      (mainText.drop (pastBlanks mainText after)) = true
  · simp only [included, ↓reduceIte] at answers
    cases answers
    cases isMove
  · by_cases isArray : (mainText.drop (pastBlanks mainText after)).head? = some '['
    · exact isArray
    · simp only [included, isArray, ↓reduceIte] at answers
      cases answers
      rw [isOut] at isMove
      cases isMove

section Planned

variable {lexemes : List Lexeme} {main : Str} {family : Family} {out : MovePlan}

theorem planned_shared (written : Written lexemes) (shared : hits sharedNetworks 0 lexemes ≠ []) :
    planned (render lexemes) main family out =
      .ok { out with refused := some (.sharedNetworks main) } := by
  have isShared := keys_render sharedNetworks written
  rw [sharedNetworks] at isShared shared
  simp only [planned, isShared, bind, Except.bind]
  exact if_pos shared

theorem planned_one (written : Written lexemes) (notShared : hits sharedNetworks 0 lexemes = [])
    {hit : Nat × Nat} (isHit : hits family.key 0 lexemes = [hit]) :
    planned (render lexemes) main family out =
      movedFrom (render lexemes) main family out hit.2 := by
  have isShared := keys_render sharedNetworks written
  have isKey := keys_render family.key written
  rw [notShared, sharedNetworks] at isShared
  rw [isHit] at isKey
  simp only [planned, isShared, isKey, bind, Except.bind]
  exact if_neg (by simp)

theorem planned_other (written : Written lexemes) (notShared : hits sharedNetworks 0 lexemes = [])
    (notOne : ∀ hit, hits family.key 0 lexemes ≠ [hit]) :
    planned (render lexemes) main family out =
      .ok { out with
        refused := some (.found family.key (hits family.key 0 lexemes).length main) } := by
  have isShared := keys_render sharedNetworks written
  have isKey := keys_render family.key written
  rw [notShared, sharedNetworks] at isShared
  simp only [planned, isShared, isKey, bind, Except.bind]
  rw [if_neg (by simp)]
  cases isHits : hits family.key 0 lexemes with
  | nil => rfl
  | cons hit others =>
    cases others with
    | nil => exact absurd isHits (notOne hit)
    | cons other others => rfl

end Planned

theorem planned_of_state {mainText main : Str} {family : Family}
    (answers : (movePlan mainText main family).state ≠ .refused) :
    planned mainText main family (outOf mainText main family) =
      .ok (movePlan mainText main family) := by
  unfold movePlan at answers ⊢
  cases isPlanned : planned mainText main family (outOf mainText main family) with
  | ok plan => rfl
  | error why =>
    rw [isPlanned] at answers
    exact absurd rfl answers

theorem exists_cut {config : KeaText} {main : Str} {family : Family}
    (answers : (movePlan config.text main family).state = .move) :
    ∃ cut, IsCut config family.key cut ∧
      movePlan config.text main family = cut.plan family.key (subnetsFile main family) := by
  have isPlanned := planned_of_state (by rw [answers]; decide)
  have written := config.written
  by_cases shared : hits sharedNetworks 0 config.lexemes = []
  · by_cases isOne : ∃ hit, hits family.key 0 config.lexemes = [hit]
    · obtain ⟨hit, isHit⟩ := isOne
      have found : hit ∈ hits family.key 0 config.lexemes := by
        rw [isHit]
        exact mem_singleton.mpr rfl
      obtain ⟨before, gap, rest, ⟨isText, gapBlank⟩, rfl⟩ := isPlainKey_of_mem written found
      have isMoved := (planned_one written shared isHit).symm.trans isPlanned
      rw [isText] at written
      obtain ⟨space, others, rfl, spaceBlank, -, ends⟩ := blanks_split written.right.2.right.2
      have isFront : config.lexemes =
          (Cut.mk before gap space [] []).front family.key ++ others := by
        simp [isText, Cut.front]
      have starts := movedFrom_starts rfl isMoved answers
      rw [← KeaText.text, KeaText.text, isFront, render_append] at starts
      rw [@pastBlanks_front family.key (Cut.mk before gap space [] []) spaceBlank _ ends,
        drop_left] at starts
      have fromOthers : Written others := written.right.2.right.2.right
      obtain ⟨behind, rfl⟩ := mark_of_head fromOthers starts (by decide)
      have isPair : Lexeme.closes (.mark '[') = some (.mark ']') := rfl
      obtain ⟨inner, after, rfl, nested⟩ :=
        Nested.exists_closing Lexeme.apart config.nested isPair isFront
      have isCut : IsCut config family.key ⟨before, gap, space, inner, after⟩ :=
        { isText := by simp [isText, Cut.front, Cut.array]
          gapBlank := gapBlank
          spaceBlank := spaceBlank
          nested := nested
          onlyHit := isHit
          notShared := shared }
      have moved := @movedFrom_move _ _ _ isCut main family (subnetsFile main family)
      exact ⟨_, isCut, Except.ok.inj (isMoved.symm.trans moved)⟩
    · have notOne : ∀ hit, hits family.key 0 config.lexemes ≠ [hit] := fun hit isHit =>
        isOne ⟨hit, isHit⟩
      have refused := (planned_other written shared notOne).symm.trans isPlanned
      rw [← Except.ok.inj refused] at answers
      cases answers
  · have refused := (planned_shared written shared).symm.trans isPlanned
    rw [← Except.ok.inj refused] at answers
    cases answers

/-! ## The configuration a move leaves -/

def includeLexeme (path : Str) : Lexeme := .directive ("include \"".ascii ++ path ++ ['"'])

theorem render_includeLexeme (path : Str) : (includeLexeme path).render = includeOf path := by
  have isLead : "<?include \"".ascii = askMark ++ "include \"".ascii := by decide
  have isEnd : "\"?>".ascii = '"' :: askedMark := by decide
  rw [includeLexeme, Lexeme.render, includeOf, isLead, isEnd]
  simp

theorem valid_includeLexeme {path : Str} (free : ¬ askedMark <:+: path) (rest : List Lexeme) :
    (includeLexeme path).Valid rest := by
  intro isInfix
  apply free
  have inPath : askedMark <:+: path ++ ['"'] := by
    have isLead : "include \"".ascii = ['i', 'n', 'c', 'l', 'u', 'd', 'e', ' ', '"'] := by decide
    rw [isLead] at isInfix
    simpa [askedMark, infix_cons_iff] using isInfix
  rcases infix_concat_iff.mp inPath with isEnd | isInside
  · obtain ⟨start, isPath⟩ := isEnd
    have isLast := congrArg List.getLast? isPath
    simp [askedMark] at isLast
  · exact isInside

theorem Cut.candidate_eq (cut : Cut) (key path : Str) :
    (cut.plan key path).candidate = render (cut.replaced key (includeLexeme path)) := by
  simp [Cut.plan, Cut.replaced, render_includeLexeme]

theorem Written.replaced {before inside after : List Lexeme} {lexeme : Lexeme}
    (written : Written (before ++ (inside ++ after))) (notNil : inside ≠ [])
    (valid : lexeme.Valid after) : Written (before ++ lexeme :: after) := by
  induction before with
  | nil => exact ⟨valid, @Written.right inside after written⟩
  | cons first before ih =>
    refine ⟨?_, ih written.2⟩
    have isValid : first.Valid (before ++ (inside ++ after)) := written.1
    cases first with
    | lastLine lead body => simp [Lexeme.Valid, notNil] at isValid
    | _ => exact isValid

def Cut.lead (cut : Cut) (key : Str) : List Lexeme :=
  cut.before ++ .text key :: (cut.gap.map .mark ++ [.mark ':'])

theorem hits_front (name key : Str) (cut : Cut) (rest : List Lexeme) :
    hits name 0 (cut.front key ++ rest) =
      hits name 0 (cut.lead key) ++ hits name (render (cut.front key)).length rest := by
  have isText : cut.front key ++ rest =
      (cut.before ++ .text key :: cut.gap.map .mark) ++
        .mark ':' :: (cut.space.map .mark ++ rest) := by
    simp [Cut.front]
  have isLead : cut.lead key = (cut.before ++ .text key :: cut.gap.map .mark) ++ [.mark ':'] := by
    simp [Cut.lead]
  have isPlace : (render (cut.lead key)).length + cut.space.length =
      (render (cut.front key)).length := by
    simp [Cut.lead, Cut.front]
    omega
  rw [isText, hits_cut name (by decide), hits_marks, ← isLead, Nat.zero_add, isPlace]

theorem hits_array (name : Str) (cut : Cut) (after : List Lexeme) (place : Nat) :
    hits name place (cut.array ++ after) =
      hits name place cut.array ++ hits name (place + (render cut.array).length) after := by
  have isText : cut.array ++ after = (.mark '[' :: cut.inner) ++ .mark ']' :: after := by
    simp [Cut.array]
  rw [isText, hits_cut name (by decide)]
  rfl

theorem hits_replaced {config : KeaText} {key : Str} {cut : Cut} (isCut : IsCut config key cut)
    {name path : Str} (noneBehind : hits name 0 config.lexemes = hits name 0 (cut.lead key)) :
    hits name 0 (cut.replaced key (includeLexeme path)) = hits name 0 (cut.lead key) := by
  rw [isCut.isText, hits_front, hits_array] at noneBehind
  have nothing := append_right_eq_self.mp noneBehind
  have behind := hits_eq_nil (append_eq_nil_iff.mp nothing).2
  have notHere (place : Nat) : hitHere name place (includeLexeme path) cut.after = [] :=
    if_neg (by simp [includeLexeme])
  rw [Cut.replaced, hits_front, hits, notHere, behind, append_nil, append_nil]

theorem replaced_done {config : KeaText} {main : Str} {family : Family} {cut : Cut}
    (isCut : IsCut config family.key cut) (free : ¬ askedMark <:+: subnetsFile main family) :
    (movePlan (cut.plan family.key (subnetsFile main family)).candidate main family).state =
      .done := by
  rw [Cut.candidate_eq]
  have isLead : hits family.key 0 (cut.lead family.key) =
      [plainHit family.key 0 cut.before cut.gap] := by
    have whole := isCut.onlyHit
    rw [isCut.isText, hits_front] at whole
    have isKey : IsPlainKey (cut.lead family.key) family.key cut.before cut.gap [] :=
      ⟨rfl, isCut.gapBlank⟩
    have found := mem_hits_of_isPlainKey isKey 0
    cases isHits : hits family.key 0 (cut.lead family.key) with
    | nil =>
      rw [isHits] at found
      cases found
    | cons hit others =>
      rw [isHits, cons_append, List.cons.injEq, append_eq_nil_iff] at whole
      rw [whole.1, whole.2.1]
  have noShared : hits sharedNetworks 0 (cut.lead family.key) = [] := by
    have whole := isCut.notShared
    rw [isCut.isText, hits_front] at whole
    exact (append_eq_nil_iff.mp whole).1
  have isHit := @hits_replaced _ _ _ isCut _ (subnetsFile main family)
    (isCut.onlyHit.trans isLead.symm)
  have notShared := @hits_replaced _ _ _ isCut _ (subnetsFile main family)
    (isCut.notShared.trans noShared.symm)
  rw [isLead] at isHit
  rw [noShared] at notShared
  have written : Written (cut.replaced family.key (includeLexeme (subnetsFile main family))) := by
    have isWritten := config.written
    rw [isCut.isText] at isWritten
    exact isWritten.replaced (by simp [Cut.array]) (valid_includeLexeme free _)
  have isText : render (cut.replaced family.key (includeLexeme (subnetsFile main family))) =
      render (cut.front family.key) ++
        (includeOf (subnetsFile main family) ++ render cut.after) := by
    simp [Cut.replaced, render_includeLexeme]
  have isPlanned := @planned_one _ main _ (outOf (render (cut.replaced family.key
    (includeLexeme (subnetsFile main family)))) main family) written notShared _ isHit
  rw [isText] at isPlanned
  have isDone := isPlanned.trans (movedFrom_done isCut.spaceBlank)
  rw [isText, movePlan, isDone]

/-! ## The key that is moved -/

/-- A key as JSON reads it: a string that spells the name, with nothing said in
front of its colon. -/
structure IsKey (lexemes : List Lexeme) (name : Str) (before : List Lexeme) (body : Str)
    (gap rest : List Lexeme) : Prop where
  isText : lexemes = before ++ .text body :: (gap ++ .mark ':' :: rest)
  spells : jsonText body = some name
  silent : gap.all Lexeme.isSilent

/-- The texts of a move are a configuration's: the subnets those of the array the
only key of a name has, and the candidate the configuration with an include in
its place. -/
def MovesOnly (config : KeaText) (name path subnetsText candidate : Str) : Prop :=
  ∃ (before : List Lexeme) (body : Str) (gap space inner after : List Lexeme),
    IsKey config.lexemes name before body gap
      (space ++ .mark '[' :: (inner ++ .mark ']' :: after)) ∧
    space.all Lexeme.isSilent ∧ Nested Lexeme.closes Lexeme.isClose inner ∧
    subnetsText = render (.mark '[' :: (inner ++ [.mark ']'])) ++ ['\n'] ∧
    candidate = render (before ++ .text body :: (gap ++ .mark ':' :: space)) ++ includeOf path ++
      render after ∧
    ∀ (other : List Lexeme) (otherBody : Str) (otherGap rest : List Lexeme),
      IsKey config.lexemes name other otherBody otherGap rest → other = before

def Lexeme.isBlankMark : Lexeme → Bool
  | .mark c => isBlank c
  | _ => false

/-- Every key of a name is written as it is, with blanks alone in front of its
colon. -/
def WrittenPlainly (lexemes : List Lexeme) (name : Str) : Prop :=
  ∀ (before : List Lexeme) (body : Str) (gap rest : List Lexeme),
    IsKey lexemes name before body gap rest → body = name ∧ gap.all Lexeme.isBlankMark

theorem jsonText_key (family : Family) : jsonText family.key = some family.key := by
  cases family <;> decide

theorem silent_marks {space : Str} (blanks : space.all isBlank) :
    (space.map Lexeme.mark).all Lexeme.isSilent := by
  rw [all_map]
  exact blanks

theorem exists_marks {gap : List Lexeme} (blanks : gap.all Lexeme.isBlankMark) :
    ∃ text : Str, gap = text.map .mark ∧ text.all isBlank := by
  induction gap with
  | nil => exact ⟨[], rfl, rfl⟩
  | cons lexeme gap ih =>
    rw [all_cons, Bool.and_eq_true] at blanks
    obtain ⟨text, rfl, textBlank⟩ := ih blanks.2
    cases lexeme with
    | mark c =>
      refine ⟨c :: text, rfl, ?_⟩
      rw [all_cons, Bool.and_eq_true]
      exact ⟨blanks.1, textBlank⟩
    | _ => cases blanks.1

theorem before_eq {one other rest others : List Lexeme} (written : Written (one ++ rest))
    (isText : one ++ rest = other ++ others)
    (isLength : (render one).length = (render other).length) : one = other := by
  induction one generalizing other with
  | nil =>
    cases other with
    | nil => rfl
    | cons lexeme other =>
      rw [nil_append] at isText written
      rw [isText] at written
      have notNil := length_pos_of_ne_nil (Lexeme.render_ne_nil written.1)
      rw [render_cons, length_append, render_nil, length_nil] at isLength
      omega
  | cons lexeme one ih =>
    cases other with
    | nil =>
      have notNil := length_pos_of_ne_nil (Lexeme.render_ne_nil written.1)
      rw [render_cons, length_append, render_nil, length_nil] at isLength
      omega
    | cons first other =>
      rw [cons_append, cons_append, List.cons.injEq] at isText
      obtain ⟨rfl, isRest⟩ := isText
      rw [render_cons, render_cons, length_append, length_append,
        Nat.add_left_cancel_iff] at isLength
      rw [ih written.2 isRest isLength]

theorem gap_eq {gap other rest others : List Lexeme} (silent : gap.all Lexeme.isSilent)
    (otherSilent : other.all Lexeme.isSilent)
    (isText : gap ++ .mark ':' :: rest = other ++ .mark ':' :: others) : gap = other := by
  have notSilent : ¬ Lexeme.isSilent (.mark ':') := by decide
  have first := congrArg (List.takeWhile Lexeme.isSilent) isText
  rw [takeWhile_append_of_pos (all_eq_true.mp silent),
    takeWhile_append_of_pos (all_eq_true.mp otherSilent),
    takeWhile_cons_of_neg notSilent, takeWhile_cons_of_neg notSilent, append_nil,
    append_nil] at first
  exact first

theorem blankMarks {space : Str} (blanks : space.all isBlank) :
    (space.map Lexeme.mark).all Lexeme.isBlankMark := by
  rw [all_map]
  exact blanks

theorem only_of_plainly {config : KeaText} {key : Str} {cut : Cut} (isCut : IsCut config key cut)
    (plainly : WrittenPlainly config.lexemes key) {other : List Lexeme} {body : Str}
    {gap rest : List Lexeme} (isKey : IsKey config.lexemes key other body gap rest) :
    other = cut.before := by
  obtain ⟨rfl, blanks⟩ := plainly _ _ _ _ isKey
  obtain ⟨text, rfl, textBlank⟩ := exists_marks blanks
  have found := mem_hits_of_isPlainKey ⟨isKey.isText, textBlank⟩ 0
  rw [isCut.onlyHit, mem_singleton] at found
  have isLength : (render other).length = (render cut.before).length := by
    have isPlace := congrArg Prod.fst found
    simpa [plainHit] using isPlace
  have isText : config.lexemes = cut.before ++ .text body :: (cut.gap.map .mark ++ .mark ':' ::
      (cut.space.map .mark ++ (cut.array ++ cut.after))) := by
    simp [isCut.isText, Cut.front]
  have written := config.written
  rw [isKey.isText] at written
  exact before_eq written (isKey.isText.symm.trans isText) isLength

/-- The move takes the array of the only key of its name exactly when each key of
that name is written plainly; and then, where the file's path does not end the
directive, the configuration it leaves is done. -/
theorem move_exact (config : KeaText) (main : Str) (family : Family)
    (answers : (movePlan config.text main family).state = .move) :
    (MovesOnly config family.key (subnetsFile main family)
        (movePlan config.text main family).subnetsText
        (movePlan config.text main family).candidate ∧
      (movePlan (movePlan config.text main family).candidate main family).state = .done →
        WrittenPlainly config.lexemes family.key) ∧
    (WrittenPlainly config.lexemes family.key → ¬ askedMark <:+: subnetsFile main family →
      MovesOnly config family.key (subnetsFile main family)
        (movePlan config.text main family).subnetsText
        (movePlan config.text main family).candidate ∧
      (movePlan (movePlan config.text main family).candidate main family).state = .done) := by
  obtain ⟨cut, isCut, isPlan⟩ := exists_cut answers
  rw [isPlan]
  have isText : config.lexemes = cut.before ++ .text family.key :: (cut.gap.map .mark ++
      .mark ':' :: (cut.space.map .mark ++
        .mark '[' :: (cut.inner ++ .mark ']' :: cut.after))) := by
    simp [isCut.isText, Cut.front, Cut.array]
  have isKey : IsKey config.lexemes family.key cut.before family.key (cut.gap.map .mark) _ :=
    { isText := isText
      spells := jsonText_key family
      silent := silent_marks isCut.gapBlank }
  constructor
  · intro ⟨moves, _⟩ before body gap rest other
    obtain ⟨taken, takenBody, takenGap, space, inner, after, _, _, _, _, _, only⟩ := moves
    have sameBefore : before = cut.before := (only _ _ _ _ other).trans (only _ _ _ _ isKey).symm
    subst sameBefore
    have same := other.isText.symm.trans isText
    rw [List.append_cancel_left_eq, List.cons.injEq, Lexeme.text.injEq] at same
    refine ⟨same.1, ?_⟩
    rw [gap_eq other.silent (silent_marks isCut.gapBlank) same.2]
    exact blankMarks isCut.gapBlank
  · intro plainly free
    refine ⟨⟨cut.before, family.key, cut.gap.map .mark, cut.space.map .mark, cut.inner, cut.after,
      isKey, silent_marks isCut.spaceBlank, isCut.nested, rfl, ?_, ?_⟩, replaced_done isCut free⟩
    · rfl
    · intro other body gap rest isOther
      exact only_of_plainly isCut plainly isOther

def oneKey : KeaText where
  lexemes := [.mark '{', .text "subnet4".ascii, .mark ':', .mark '[', .mark ']', .mark '}']
  written := by decide
  nested := nested_of_closesAll (by decide)

def mainPath : Str := "/etc/kea/kea-dhcp4.conf".ascii

theorem oneKey_plainly : WrittenPlainly oneKey.lexemes Family.ipv4.key := by
  intro before body gap rest isKey
  obtain ⟨isText, spells, silent⟩ := isKey
  simp only [oneKey, cons_eq_append_iff, List.cons.injEq, reduceCtorEq, false_and, and_false,
    exists_false, nil_eq_append_iff, or_false, false_or] at isText
  obtain ⟨_, _, _, isBody, isGap⟩ := isText
  rw [@gap_eq _ [] _ _ silent rfl isGap]
  exact ⟨Lexeme.text.inj isBody, rfl⟩

theorem move_exact_oneKey :
    (movePlan oneKey.text mainPath .ipv4).state = .move ∧
      MovesOnly oneKey Family.ipv4.key (subnetsFile mainPath .ipv4)
        (movePlan oneKey.text mainPath .ipv4).subnetsText
        (movePlan oneKey.text mainPath .ipv4).candidate := by
  have answers : (movePlan oneKey.text mainPath .ipv4).state = .move := by decide
  have free : ¬ askedMark <:+: subnetsFile mainPath .ipv4 := by decide
  exact ⟨answers, ((move_exact oneKey mainPath .ipv4 answers).2 oneKey_plainly free).1⟩

/-- `{"subnet4"/* lab */:[{}],"user-context":{"subnet4":[]}}` -/
def commented : KeaText where
  lexemes :=
    [.mark '{', .text "subnet4".ascii, .block " lab ".ascii, .mark ':', .mark '[', .mark '{',
      .mark '}', .mark ']', .mark ',', .text "user-context".ascii, .mark ':', .mark '{',
      .text "subnet4".ascii, .mark ':', .mark '[', .mark ']', .mark '}', .mark '}']
  written := by decide
  nested := nested_of_closesAll (by decide)

/-- A comment in front of a colon hides the key, and the other key of its name is
the one that is moved. -/
theorem commented_key_not_counted :
    ¬ ∀ (config : KeaText) (main : Str) (family : Family),
      (movePlan config.text main family).state = .move →
        MovesOnly config family.key (subnetsFile main family)
            (movePlan config.text main family).subnetsText
            (movePlan config.text main family).candidate ∧
          (movePlan (movePlan config.text main family).candidate main family).state = .done := by
  intro moves
  have answers : (movePlan commented.text mainPath .ipv4).state = .move := by decide
  obtain ⟨before, _, _, _, _, _, _, _, _, _, _, only⟩ := (moves commented mainPath .ipv4 answers).1
  have first : IsKey commented.lexemes Family.ipv4.key (commented.lexemes.take 1)
      "subnet4".ascii [.block " lab ".ascii] (commented.lexemes.drop 4) :=
    { isText := by decide, spells := by decide +kernel, silent := by decide }
  have second : IsKey commented.lexemes Family.ipv4.key (commented.lexemes.take 12)
      "subnet4".ascii [] (commented.lexemes.drop 14) :=
    { isText := by decide, spells := by decide, silent := by decide +kernel }
  have same := (only _ _ _ _ first).trans (only _ _ _ _ second).symm
  exact absurd (congrArg List.length same) (by decide)

end Nmas.Dhcp.SubnetTexts
