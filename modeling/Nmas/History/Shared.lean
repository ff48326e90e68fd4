import Nmas.History.Says

/-!
Contract: a question's address asks the question again.

Owns: the whole question of `ask`, the address `qs` writes it in, and exactly
which values that address gives back.

Does not own: what `ask` says of a value it does not take, and the list and the
changes `qs` takes.
-/

namespace Nmas.History

open Nmas.Text Nmas.PromQl List

/-! ### The question -/

/-- A question with the range, the filter in the editor and the search. -/
@[ext] structure Question extends Spec where
  mq : Str
  range : Str
  within : Str
  from_ : Str
  to_ : Str
  fe : Str
  fl : Str
  fo : Str
  fv : Str
  fadd : Str
  ask : Str
  hl : Str

/-- A filter written in the editor is added. -/
abbrev Values.Adds (values : Values) : Prop :=
  values.one "fadd".ascii ≠ [] ∧ values.one "fl".ascii ≠ []

def Values.addition (values : Values) : Str :=
  filterToken (values.one "fl".ascii)
    (if values.one "fo".ascii = [] then ['='] else values.one "fo".ascii) (values.one "fv".ascii)

def Values.range (values : Values) : Str := (values.get "range".ascii).elim "24h".ascii strip

abbrev IsRange (text : Str) : Prop := text ∈ "custom".ascii :: ranges.map Prod.fst

abbrev isOp [Unicode] (token : Str) : Bool := (parseOp token).isSome

/-- The question of `ask`. -/
def question [Unicode] (values : Values) : Question :=
  -- Adding the filter empties the editor.
  let edited (text : Str) : Str := if values.Adds then [] else text
  { History.ask values with
    mq := (values.one "mq".ascii).take 80
    range := if IsRange values.range then values.range else "24h".ascii
    within := values.one "within".ascii
    from_ := values.one "from".ascii
    to_ := values.one "to".ascii
    fe := edited (values.one "fe".ascii)
    fl := edited (if toEnd isLabel (values.one "fl".ascii) then values.one "fl".ascii else [])
    fo := edited (if (filterSign (values.one "fo".ascii)).isSome then values.one "fo".ascii else [])
    fv := edited ((values.one "fv".ascii).take 200)
    fadd := []
    ask := values.one "ask".ascii
    hl := values.one "hl".ascii }

/-! ### The address -/

/-- What is written of one value: nothing where it is its default. -/
def written (default value : Str) : List Str := if value = [] ∨ value = default then [] else [value]

/-- The keys of `DEFAULTS`, each with what is written of it. -/
def Question.entries (question : Question) : List (Str × List Str) :=
  [("m".ascii, written [] question.m), ("mq".ascii, written [] question.mq),
    ("dev".ascii, question.dev), ("role".ascii, written [] question.role),
    ("if".ascii, question.ifs), ("f".ascii, question.f), ("op".ascii, question.op),
    ("top".ascii, written [] question.top), ("range".ascii, written "24h".ascii question.range),
    ("within".ascii, written [] question.within), ("from".ascii, written [] question.from_),
    ("to".ascii, written [] question.to_), ("fe".ascii, written [] question.fe),
    ("fl".ascii, written [] question.fl), ("fo".ascii, written [] question.fo),
    ("fv".ascii, written [] question.fv), ("fadd".ascii, written [] question.fadd),
    ("ask".ascii, written [] question.ask), ("hl".ascii, written [] question.hl)]

/-- The pairs of the address. -/
def qs (question : Question) : List (Str × Str) :=
  question.entries.flatMap (fun entry => entry.2.map (fun value => (entry.1, value)))

/-- The values that are given back: no cut ends in white space, a filter added that is kept
has a value and is not there already, and no operation is selected twice. -/
structure Returns [Unicode] (values : Values) : Prop where
  search : rstrip ((values.one "mq".ascii).take 80) = (values.one "mq".ascii).take 80
  edited : ¬ values.Adds →
    rstrip ((values.one "fv".ascii).take 200) = (values.one "fv".ascii).take 200
  added : values.Adds → keepsFilter values.addition = true →
    ((values.many "f".ascii).filter keepsFilter).length < 8 →
    values.one "fv".ascii ≠ [] ∧ values.addition ∉ values.many "f".ascii
  selected : values.one "ok1".ascii ≠ [] → ((opsFromForm values values.range).filter isOp).Nodup

/-! ### An address read -/

variable {shown : Question} {key text : Str} {held whole : List Str}

theorem keys_distinct : (shown.entries.map Prod.fst).Nodup := by
  simp only [Question.entries, map_cons, map_nil]
  decide

theorem getlist_qs : (address (qs shown)).getlist key =
    (shown.entries.filter (fun entry => entry.1 = key)).flatMap Prod.snd := by
  unfold qs
  induction shown.entries with
  | nil => rfl
  | cons entry rest ih =>
    rw [flatMap_cons, filter_cons]
    simp only [address, filter_append, map_append, filter_map, Function.comp_def] at ih ⊢
    rw [ih]
    by_cases isKey : entry.1 = key
    · simp [isKey, Function.comp_def]
    · simp [isKey]

theorem getlist_entry {i : Nat} (isEntry : shown.entries[i]? = some (key, held)) :
    (address (qs shown)).getlist key = held := by
  have distinct := @keys_distinct shown
  have member := mem_of_getElem? isEntry
  rw [getlist_qs]
  clear isEntry
  generalize shown.entries = entries at distinct member ⊢
  induction entries with
  | nil => cases member
  | cons entry rest ih =>
    obtain ⟨isNew, distinct⟩ := nodup_cons.mp distinct
    rcases mem_cons.mp member with rfl | isLater
    · have others : rest.filter (fun entry => entry.1 = key) = [] :=
        filter_eq_nil_iff.mpr fun other isOther isKey =>
          isNew (mem_map.mpr ⟨other, isOther, of_decide_eq_true isKey⟩)
      simp [others]
    · have notKey : entry.1 ≠ key := fun isKey =>
        isNew (mem_map.mpr ⟨_, isLater, isKey.symm⟩)
      simpa [notKey] using ih distinct isLater

theorem get_qs : (address (qs shown)).get key = ((address (qs shown)).getlist key).head? := by
  simp [address, List.head?_filter]

def readMany (raw : List Str) : List Str :=
  ((raw.map strip).filter (fun value => value ≠ [])).eraseDups

theorem many_qs {i : Nat} (isEntry : shown.entries[i]? = some (key, held)) :
    (address (qs shown)).many key = readMany held :=
  congrArg readMany (getlist_entry isEntry)

theorem one_qs {i : Nat} (isEntry : shown.entries[i]? = some (key, written [] text)) :
    (address (qs shown)).one key = strip text := by
  unfold Values.one
  rw [get_qs, getlist_entry isEntry, written]
  by_cases isNil : text = []
  · rw [isNil]
    rfl
  · simp [isNil]

theorem range_qs (isSet : shown.range ≠ []) : (address (qs shown)).range = strip shown.range := by
  unfold Values.range
  rw [get_qs, getlist_entry (i := 8) rfl, written]
  by_cases isDefault : shown.range = "24h".ascii
  · rw [isDefault]
    rfl
  · simp [isSet, isDefault]

/-! ### Lists read again -/

theorem mem_readMany (isRead : text ∈ readMany held) : text ≠ [] ∧ strip text = text := by
  obtain ⟨isText, notNil⟩ := mem_filter.mp (mem_eraseDups.mp isRead)
  obtain ⟨raw, -, rfl⟩ := mem_map.mp isText
  exact ⟨by simpa using notNil, strip_strip⟩

theorem eraseDups_of_nodup (once : held.Nodup) : held.eraseDups = held := by
  induction held with
  | nil => rfl
  | cons first rest ih =>
    obtain ⟨isNew, once⟩ := nodup_cons.mp once
    rw [eraseDups_cons, filter_eq_self.mpr, ih once]
    intro one isOne
    simpa using fun isFirst : one = first => isNew (isFirst ▸ isOne)

theorem readMany_eq (areStripped : ∀ one ∈ held, one ≠ [] ∧ strip one = one)
    (once : held.Nodup) : readMany held = held := by
  have same : held.map strip = held :=
    (map_congr_left fun one isOne => (areStripped one isOne).2).trans (map_id _)
  unfold readMany
  rw [same, filter_eq_self.mpr fun one isOne => by simpa using (areStripped one isOne).1]
  exact eraseDups_of_nodup once

theorem part_readMany {taken : Str → Bool} {few : Nat}
    (isSame : ((readMany held).filter taken).take few = held) : held.Sublist (readMany held) := by
  conv_lhs => rw [← isSame]
  exact (take_sublist _ _).trans filter_sublist

theorem many_tidy (part : held.Sublist (readMany whole)) :
    (∀ one ∈ held, rstrip one = one) ∧ held.Nodup := by
  refine ⟨fun one isOne => ?_, (nodup_eraseDups _).sublist part⟩
  rw [← (mem_readMany (part.subset isOne)).2]
  exact rstrip_rstrip

/-- What is taken of a list is taken again where it is stripped and distinct. -/
theorem readMany_again {taken : Str → Bool} {few : Nat}
    (areTaken : ∀ one ∈ held, taken one = true ∧ one ≠ [] ∧ lstrip one = one)
    (areFew : held.length ≤ few) : ((readMany held).filter taken).take few = held ↔
      (∀ one ∈ held, rstrip one = one) ∧ held.Nodup := by
  refine ⟨fun isSame => many_tidy (part_readMany isSame), fun ⟨areTrimmed, once⟩ => ?_⟩
  rw [readMany_eq (fun one isOne => ⟨(areTaken one isOne).2.1, ?_⟩) once,
    filter_eq_self.mpr fun one isOne => (areTaken one isOne).1]
  · exact take_of_length_le areFew
  · exact (strip_of_trimmed (areTrimmed one isOne)).trans (areTaken one isOne).2.2

theorem lstrip_eq (isVisible : text.head?.any isSpace = false) : lstrip text = text := by
  cases text with
  | nil => rfl
  | cons first rest => exact dropWhile_cons_of_neg (by simpa using isVisible)

theorem cut_again (few : Nat) : (strip ((strip text).take (few + 1))).take (few + 1) =
    (strip text).take (few + 1) ↔
      rstrip ((strip text).take (few + 1)) = (strip text).take (few + 1) := by
  have front : lstrip ((strip text).take (few + 1)) = (strip text).take (few + 1) := by
    apply lstrip_eq
    rw [List.head?_take, if_neg few.succ_ne_zero]
    exact strip_head text
  have isShort : (rstrip ((strip text).take (few + 1))).length ≤ few + 1 :=
    ((List.rdropWhile_prefix _ _).length_le).trans (length_take_le _ _)
  rw [strip, front, take_of_length_le isShort]

theorem kept_again {p : Str → Prop} [DecidablePred p] :
    (if p (strip (if p (strip text) then strip text else [])) then
      strip (if p (strip text) then strip text else []) else []) =
      if p (strip text) then strip text else [] := by
  by_cases holds : p (strip text)
  · rw [if_pos holds, strip_strip, if_pos holds]
  · rw [if_neg holds]
    exact ite_self []

theorem kept_edited {p : Str → Prop} [DecidablePred p] {a : Prop} [Decidable a] :
    (if p (strip (if a then [] else if p (strip text) then strip text else [])) then
      strip (if a then [] else if p (strip text) then strip text else []) else []) =
      if a then [] else if p (strip text) then strip text else [] := by
  by_cases holds : a
  · simp only [if_pos holds]
    exact ite_self []
  · simp only [if_neg holds]
    exact kept_again

variable [Unicode] {values : Values}

omit [Unicode] in
theorem many_again (key : Str) (taken : Str → Bool) :
    readMany ((values.many key).filter taken) = (values.many key).filter taken := by
  apply readMany_eq
  · exact fun one isOne => mem_readMany (mem_of_mem_filter isOne)
  · exact (nodup_eraseDups _).filter _

/-- What the address of a question holds. -/
structure Shows (shown : Question) (back : Values) : Prop where
  adds : ¬ back.Adds
  one : ∀ (i : Nat) {key text}, shown.entries[i]? = some (key, written [] text) →
    back.one key = strip text
  many : ∀ (i : Nat) {key held}, shown.entries[i]? = some (key, held) →
    back.many key = readMany held
  filters : back.filters = readMany shown.f
  ops : back.ops = readMany shown.op
  range : back.range = shown.range
  isRange : IsRange shown.range

theorem shows_qs (values : Values) : Shows (question values) (address (qs (question values))) := by
  have noAdd : (address (qs (question values))).one "fadd".ascii = strip [] := one_qs (i := 16) rfl
  have notAdds : ¬ (address (qs (question values))).Adds := fun adds => adds.1 noAdd
  have noSelect : (address (qs (question values))).one "ok1".ascii = [] := by
    unfold Values.one
    rw [get_qs, getlist_qs]
    rfl
  have isRange : IsRange (question values).range := by
    show IsRange (if IsRange values.range then values.range else "24h".ascii)
    split
    · assumption
    · decide
  have areRead : ∀ range ∈ "custom".ascii :: ranges.map Prod.fst,
      range ≠ [] ∧ strip range = range := by
    decide
  obtain ⟨isSet, isRead⟩ := areRead _ isRange
  exact ⟨notAdds, fun i _ _ => one_qs, fun i _ _ => many_qs,
    (if_neg notAdds).trans (many_qs (i := 5) rfl),
    (if_neg (not_not_intro noSelect)).trans (many_qs (i := 6) rfl),
    (range_qs isSet).trans isRead, isRange⟩

variable {back : Values}

/-- Everything but two cuts and two lists is given back. -/
theorem Shows.asks_iff (holds : Shows (question values) back) : question back = question values ↔
    (strip (question values).mq).take 80 = (question values).mq ∧
    ((readMany (question values).f).filter keepsFilter).take 8 = (question values).f ∧
    ((readMany (question values).op).filter isOp).take 6 = (question values).op ∧
    (strip (question values).fv).take 200 = (question values).fv := by
  have edited (text : Str) : (if back.Adds then [] else text) = text := if_neg holds.adds
  have mq : (question back).mq = (strip (question values).mq).take 80 :=
    congrArg (List.take 80) (holds.one 1 rfl)
  have f : (question back).f = ((readMany (question values).f).filter keepsFilter).take 8 :=
    congrArg (fun held => (held.filter keepsFilter).take 8) holds.filters
  have op : (question back).op = ((readMany (question values).op).filter isOp).take 6 :=
    congrArg (fun held => (held.filter isOp).take 6) holds.ops
  have fv : (question back).fv = (strip (question values).fv).take 200 :=
    (edited _).trans (congrArg (List.take 200) (holds.one 15 rfl))
  constructor
  · intro same
    rw [← mq, ← f, ← op, ← fv, same]
    exact ⟨rfl, rfl, rfl, rfl⟩
  · rintro ⟨sameMq, sameF, sameOp, sameFv⟩
    have m : (question back).m = (question values).m := by
      show (if toEnd isName (back.one "m".ascii) then back.one "m".ascii else []) = _
      rw [holds.one 0 rfl]
      exact kept_again (p := fun text => toEnd isName text)
    have role : (question back).role = (question values).role := by
      show (if (back.one "role".ascii).length ≤ 128 then back.one "role".ascii else []) = _
      rw [holds.one 3 rfl]
      exact kept_again (p := fun text => text.length ≤ 128)
    have top : (question back).top = (question values).top := by
      show (if back.one "top".ascii ∈ tops then back.one "top".ascii else []) = _
      rw [holds.one 7 rfl]
      exact kept_again (p := fun text => text ∈ tops)
    have many (i : Nat) {key : Str} (isEntry : (question values).entries[i]? =
        some (key, (values.many key).filter (fun value => value.length ≤ 128))) :
        (back.many key).filter (fun value => value.length ≤ 128) =
          (values.many key).filter (fun value => value.length ≤ 128) := by
      rw [holds.many i isEntry, many_again, filter_filter]
      simp
    have range : (question back).range = (question values).range := by
      show (if IsRange back.range then back.range else _) = _
      rw [holds.range, if_pos holds.isRange]
    have fe : (question back).fe = (question values).fe := by
      refine (edited _).trans ((holds.one 12 rfl).trans ?_)
      show strip (if values.Adds then [] else strip _) = if values.Adds then [] else strip _
      split
      · rfl
      · exact strip_strip
    have fl : (question back).fl = (question values).fl := by
      refine (edited _).trans ?_
      rw [holds.one 13 rfl]
      exact kept_edited (p := fun text => toEnd isLabel text)
    have fo : (question back).fo = (question values).fo := by
      refine (edited _).trans ?_
      rw [holds.one 14 rfl]
      exact kept_edited (p := fun text => (filterSign text).isSome)
    have same (i : Nat) {key : Str}
        (isEntry : (question values).entries[i]? = some (key, written [] (values.one key))) :
        back.one key = values.one key := (holds.one i isEntry).trans strip_strip
    exact Question.ext m (many 2 rfl) role (many 4 rfl) (f.trans sameF) (op.trans sameOp) top
      (mq.trans sameMq) range (same 9 rfl) (same 10 rfl) (same 11 rfl) fe fl fo (fv.trans sameFv)
      rfl (same 17 rfl) (same 18 rfl)

/-! ### When the lists are given back -/

omit [Unicode] in
theorem visible_front {p : Char → Bool} (isVisible : (text.takeWhile p).head?.any isSpace = false)
    (isSome : text.takeWhile p ≠ []) : text ≠ [] ∧ lstrip text = text := by
  cases text with
  | nil => exact absurd rfl isSome
  | cons first rest =>
    refine ⟨cons_ne_nil _ _, lstrip_eq ?_⟩
    by_cases isIn : p first
    · rwa [takeWhile_cons_of_pos isIn] at isVisible
    · rw [takeWhile_cons_of_neg isIn] at isSome
      exact absurd rfl isSome

theorem visible_op (isToken : isOp text = true) : text ≠ [] ∧ lstrip text = text := by
  obtain ⟨op, isSome⟩ := Option.isSome_iff_exists.mp isToken
  obtain ⟨kind, isKind, -⟩ := Option.bind_eq_some_iff.mp isSome
  have areVisible : ∀ kind ∈ Kind.all, kind.name.head?.any isSpace = false ∧ kind.name ≠ [] := by
    decide
  have isName : kind.name = text.takeWhile (fun c => c ≠ ':') := by
    simpa using List.find?_some isKind
  obtain ⟨isVisible, notNil⟩ := areVisible kind (Kind.mem_all kind)
  rw [isName] at isVisible notNil
  exact visible_front isVisible notNil

omit [Unicode] in
theorem visible_name (isText : isName text = true) :
    text.head?.any isSpace = false ∧ text ≠ [] := by
  cases text with
  | nil => cases isText
  | cons first rest =>
    refine ⟨?_, cons_ne_nil _ _⟩
    have isStart := (Bool.and_eq_true_iff.mp isText).1
    cases isBlank : isSpace first with
    | false => simpa using isBlank
    | true =>
      simp [isWordStart, isSpace, Char.le_def, UInt32.le_iff_toNat_le, ← Char.toNat_inj] at isStart isBlank
      omega

omit [Unicode] in
theorem visible_filter (keeps : keepsFilter text = true) : text ≠ [] ∧ lstrip text = text := by
  unfold keepsFilter at keeps
  split at keeps
  · cases keeps
  · rename_i filter isFilter
    obtain ⟨sign, -, isRest⟩ := Option.bind_eq_some_iff.mp isFilter
    simp only [] at isRest
    split at isRest
    · rename_i isThere
      obtain ⟨isVisible, isSome⟩ := visible_name (Bool.and_eq_true_iff.mp isThere.1).1
      exact visible_front isVisible isSome
    · cases isRest

theorem op_again : ((readMany (question values).op).filter isOp).take 6 = (question values).op ↔
    (values.one "ok1".ascii ≠ [] → ((opsFromForm values values.range).filter isOp).Nodup) := by
  have areOps : ∀ one ∈ (question values).op, one ∈ values.ops ∧ isOp one = true :=
    fun one isOne => mem_filter.mp (mem_of_mem_take isOne)
  rw [readMany_again (fun one isOne => ⟨(areOps one isOne).2, visible_op (areOps one isOne).2⟩)
    (length_take_le _ _),
    and_iff_right fun one isOne => trimmed_ops values one (areOps one isOne).1]
  show ((values.ops.filter isOp).take 6).Nodup ↔ _
  by_cases selects : values.one "ok1".ascii ≠ []
  · have few : ((opsFromForm values values.range).filter isOp).length ≤ 6 := by
      refine (length_filter_le _ _).trans ?_
      rw [opsFromForm, length_map]
      exact (List.takeWhile_prefix _).length_le
    rw [show values.ops = opsFromForm values values.range from if_pos selects,
      take_of_length_le few, imp_iff_right selects]
  · rw [show values.ops = values.many "op".ascii from if_neg selects]
    exact iff_of_true (many_tidy ((take_sublist _ _).trans filter_sublist)).2
      fun isSome => absurd isSome selects

omit [Unicode] in
theorem addition_trimmed : rstrip values.addition = values.addition ↔
    values.one "fv".ascii ≠ [] := by
  unfold Values.addition filterToken
  constructor
  · intro isTrimmed isNil
    rw [isNil] at isTrimmed
    have isLast := rstrip_eq_self_iff.mp isTrimmed ' '
      (List.getLast?_eq_some_iff.mpr ⟨_, (append_assoc _ (' ' :: _) _).symm⟩)
    revert isLast
    decide
  · intro isSome
    have isValue := @rstrip_append (values.one "fl".ascii ++ ' ' ::
      ((if values.one "fo".ascii = [] then ['='] else values.one "fo".ascii) ++ [' '])) _ isSome
      rstrip_rstrip
    simpa using isValue

theorem f_again : ((readMany (question values).f).filter keepsFilter).take 8 = (question values).f ↔
    (values.Adds → keepsFilter values.addition = true →
      ((values.many "f".ascii).filter keepsFilter).length < 8 →
      values.one "fv".ascii ≠ [] ∧ values.addition ∉ values.many "f".ascii) := by
  have areFilters : ∀ one ∈ (question values).f, keepsFilter one = true :=
    fun one isOne => (mem_filter.mp (mem_of_mem_take isOne)).2
  rw [readMany_again (fun one isOne => ⟨areFilters one isOne, visible_filter (areFilters one isOne)⟩)
    (length_take_le _ _)]
  have tidy := @many_tidy (((values.many "f".ascii).filter keepsFilter).take 8) (values.getlist "f".ascii)
    ((take_sublist _ _).trans filter_sublist)
  show (∀ one ∈ (values.filters.filter keepsFilter).take 8, rstrip one = one) ∧
    ((values.filters.filter keepsFilter).take 8).Nodup ↔ _
  by_cases adds : values.Adds
  · rw [show values.filters = values.many "f".ascii ++ [values.addition] from if_pos adds,
      filter_append, imp_iff_right adds]
    by_cases keeps : keepsFilter values.addition = true
    · rw [filter_cons_of_pos keeps, filter_nil, imp_iff_right keeps]
      by_cases few : ((values.many "f".ascii).filter keepsFilter).length < 8
      · rw [take_of_length_le (length_append.trans_le few), imp_iff_right few]
        rw [take_of_length_le few.le] at tidy
        rw [forall_mem_append, forall_mem_singleton, addition_trimmed,
          and_iff_right tidy.1, (perm_append_singleton _ _).nodup_iff, nodup_cons,
          and_iff_left tidy.2,
          mem_filter, and_iff_left keeps]
      · rw [take_append_of_le_length (Nat.not_lt.mp few)]
        exact iff_of_true tidy fun isFew => absurd isFew few
    · rw [filter_cons_of_neg keeps, filter_nil, append_nil]
      exact iff_of_true tidy fun isKept => absurd isKept keeps
  · rw [show values.filters = values.many "f".ascii from if_neg adds]
    exact iff_of_true tidy fun isAdd => absurd isAdd adds

/-- **The address asks the question again exactly where** the values return. -/
theorem address_asks_again_iff (values : Values) :
    question (address (qs (question values))) = question values ↔ Returns values := by
  have mq := @cut_again ((values.get "mq".ascii).getD []) 79
  have fv := @cut_again ((values.get "fv".ascii).getD []) 199
  have draft : (strip (question values).fv).take 200 = (question values).fv ↔
      (¬ values.Adds →
        rstrip ((values.one "fv".ascii).take 200) = (values.one "fv".ascii).take 200) := by
    show (strip (if values.Adds then [] else _)).take 200 = (if values.Adds then [] else _) ↔ _
    split
    · rename_i adds
      exact iff_of_true rfl fun notAdds => absurd adds notAdds
    · rename_i notAdds
      exact fv.trans (imp_iff_right notAdds).symm
  rw [(shows_qs values).asks_iff, f_again, op_again, draft]
  constructor
  · rintro ⟨isMq, isF, isOp, isFv⟩
    exact ⟨mq.mp isMq, isFv, isF, isOp⟩
  · intro returns
    exact ⟨mq.mpr returns.search, returns.added, returns.selected, returns.edited⟩

end Nmas.History
