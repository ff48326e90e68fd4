import Mathlib.Data.List.Infix
import Nmas.Nsot.Normalize

/-!
Contract: what `strip_for_roundtrip` takes out of a configuration, and what of it is named.

Owns: `excluded_unrenderable` and the banners of `_comment_lines`, of `nsot/normalize.py`, and
when every line taken out is one of theirs and no line of a banner stays (`hides_exact`).

A banner is read in two ways. `_comment_lines` reads on to the delimiter its first line
declares; the two filters to a line with `^C` or a bare `!`, whatever the first line declares.
-/

namespace Nmas.Nsot.Normalize

open Nmas.Text List

/-! ### Banners by the delimiter they declare -/

/-- `line.split(None, 2)[2]`, empty where there are fewer words. -/
def afterTwoWords (line : Str) : Str :=
  lstrip ((lstrip ((lstrip line).dropWhile (!isSpace ·))).dropWhile (!isSpace ·))

def delimiterOf (line : Str) : Str :=
  if (afterTwoWords line).head? = some '^' then (afterTwoWords line).take 2
  else (afterTwoWords line).take 1

/-- The delimiter `_comment_lines` reads on to after a line, none outside a banner. -/
def delimiterAfter (open_ : Option Str) (line : Str) : Option Str :=
  match open_ with
  | some delim => if delim <:+: line then none else some delim
  | none =>
    if startsWithAny bannerOpeners line then
      if delimiterOf line ≠ [] ∧
          ¬ delimiterOf line <:+: (afterTwoWords line).drop (delimiterOf line).length then
        some (delimiterOf line)
      else none
    else none

def delimiterBefore (before : List Str) : Option Str := before.foldl delimiterAfter none

/-- The line is one of a banner, from its first to the one its delimiter closes. -/
def InBanner (before : List Str) (line : Str) : Prop :=
  (delimiterBefore before).isSome ∨
    (startsWithAny bannerOpeners line = true ∧ delimiterOf line ≠ [])

/-- The line is between a banner's first and the one its delimiter closes. -/
def WithinBanner (before : List Str) (line : Str) : Prop :=
  ∃ delim, delimiterBefore before = some delim ∧ ¬ delim <:+: line

/-! ### Banners as the filters read them -/

/-- Whether a banner goes on after a line, to a `^C` or a bare `!`. -/
def caretAfter (inside : Bool) (line : Str) : Bool :=
  if inside then !(caretCs line != 0 || strip line == ['!'])
  else startsWithAny bannerOpeners (strip line) && decide (caretCs line < 2)

def InCaret (before : List Str) : Prop := before.foldl caretAfter false = true

variable [Unicode]

/-- A child of a device-owned block, or the `quit` of a certificate. -/
def isChild (line : Str) : Bool :=
  line.head? == some ' ' || line.head? == some '\t' || strip line == "quit".ascii

/-- One line of `excluded_unrenderable`: the next state, and the name it finds. -/
def excludedStep (serial : Str) (state : StripState) (line : Str) : StripState × Option Str :=
  let stripped := strip line
  if state.inBanner then
    ({ state with inBanner := !(caretCs line != 0 || stripped == ['!']) }, none)
  else if startsWithAny bannerOpeners stripped then
    ({ state with inBanner := caretCs line < 2 }, some stripped)
  else if state.inBlock && (line.head? == some ' ' || line.head? == some '\t' ||
      stripped == "quit".ascii) then
    (state, none)
  else if opensDeviceOwned stripped line then
    ({ state with inBlock := true }, some stripped)
  else
    let state := { state with inBlock := false }
    if !startsIndented line then (state.enter stripped, none)
    else if autoinstallClientId line state.interface serial then
      (state, some ("interface ".ascii ++ state.interface ++ ": ".ascii ++ stripped))
    else if bgpOwn line state.section_ then
      (state, some (state.section_ ++ ": ".ascii ++ stripped))
    else (state, none)

/-- The names `excluded_unrenderable` finds from a given state. -/
def excludedFrom (serial : Str) (state : StripState) : List Str → List Str
  | [] => []
  | line :: rest =>
    (excludedStep serial state line).2.toList ++
      excludedFrom serial (excludedStep serial state line).1 rest

def excludedUnrenderable (text : Str) : List Str :=
  excludedFrom (deviceSerial text) {} (splitlines text)

/-! ### Each line in its place -/

def stateBefore (serial : Str) (before : List Str) : StripState :=
  before.foldl (fun state line => (roundtripStep serial state line).1) {}

def excludedBefore (serial : Str) (before : List Str) : StripState :=
  before.foldl (fun state line => (excludedStep serial state line).1) {}

/-- `strip_for_roundtrip` takes the line out. -/
def Drops (text : Str) (before : List Str) (line : Str) : Prop :=
  (roundtripStep (deviceSerial text) (stateBefore (deviceSerial text) before) line).2 = none

/-- A top-level line starting with one of `UNRENDERABLE_LINE_PREFIXES`. -/
def Unrenderable (line : Str) : Prop := isVolatile (strip line) line unrenderableLinePrefixes = true

/-- `excluded_unrenderable` names the line. -/
def Named (text : Str) (before : List Str) (line : Str) : Prop :=
  (excludedStep (deviceSerial text) (excludedBefore (deviceSerial text) before) line).2.isSome

/-- A child or the `quit` of a block `excluded_unrenderable` names. -/
def OwnedChild (text : Str) (before : List Str) (line : Str) : Prop :=
  (excludedBefore (deviceSerial text) before).inBanner = false ∧
    (excludedBefore (deviceSerial text) before).inBlock = true ∧ isChild line = true

/-- What is taken out is named, and a banner's lines are. -/
structure Hides (text : Str) : Prop where
  named : ∀ before line after, splitlines text = before ++ line :: after →
    Drops text before line →
      Unrenderable line ∨ Named text before line ∨ OwnedChild text before line ∨
        InBanner before line
  hidden : ∀ before line after, splitlines text = before ++ line :: after →
    WithinBanner before line → Drops text before line

/-- The lines the two readings of a banner do not both have are taken out for themselves. -/
structure ReadAlike (text : Str) : Prop where
  inside : ∀ before line after, splitlines text = before ++ line :: after → InCaret before →
    Unrenderable line ∨ InBanner before line
  outside : ∀ before line after, splitlines text = before ++ line :: after →
    WithinBanner before line → ¬ InCaret before →
      Unrenderable line ∨ Named text before line ∨ OwnedChild text before line

variable {text serial line : Str} {state : StripState} {before after : List Str}

/-! ### The filters are what they do line by line -/

theorem stripForRoundtripFrom_append (before rest : List Str) (state : StripState) :
    stripForRoundtripFrom serial state (before ++ rest) =
      stripForRoundtripFrom serial state before ++ stripForRoundtripFrom serial
        (before.foldl (fun state line => (roundtripStep serial state line).1) state) rest := by
  induction before generalizing state with
  | nil => rfl
  | cons line later ih =>
    rw [cons_append, stripForRoundtripFrom, ih, stripForRoundtripFrom,
      append_assoc, foldl_cons]

/-! ### The two filters together -/

theorem excludedStep_fst : (excludedStep serial state line).1 =
    (roundtripStep serial state line).1 := by
  unfold excludedStep roundtripStep
  dsimp only
  split
  · rfl
  · split
    · rfl
    · split
      · rfl
      · split
        · rfl
        · split
          · rfl
          · by_cases isClient : autoinstallClientId line state.interface serial = true
            · simp [isClient]
            · by_cases isBgp : bgpOwn line state.section_ = true
              · simp [isClient, isBgp]
              · simp [isClient, isBgp]

theorem excludedBefore_eq : excludedBefore serial before = stateBefore serial before := by
  unfold excludedBefore stateBefore
  congr 1
  funext state line
  exact excludedStep_fst

theorem roundtripStep_inBanner :
    (roundtripStep serial state line).1.inBanner = caretAfter state.inBanner line := by
  unfold roundtripStep caretAfter
  dsimp only
  split
  · rfl
  · rename_i outside
    split
    · rename_i opens
      rw [opens]
      rfl
    · rename_i notOpens
      rw [Bool.not_eq_true _ |>.mp notOpens, Bool.false_and]
      have outside := Bool.not_eq_true _ |>.mp outside
      split
      · exact outside
      · split
        · exact outside
        · split
          · exact outside
          · split <;> exact outside

theorem stateBefore_inBanner : (stateBefore serial before).inBanner ↔ InCaret before := by
  unfold stateBefore InCaret
  have every (state : StripState) :
      (before.foldl (fun state line => (roundtripStep serial state line).1) state).inBanner =
        before.foldl caretAfter state.inBanner := by
    induction before generalizing state with
    | nil => rfl
    | cons line rest ih =>
      rw [foldl_cons, ih, roundtripStep_inBanner, foldl_cons]
  rw [every]

theorem drops_iff : Drops text before line ↔
    InCaret before ∨ Unrenderable line ∨ Named text before line ∨ OwnedChild text before line := by
  have inCaret : (stateBefore (deviceSerial text) before).inBanner ↔ InCaret before :=
    stateBefore_inBanner
  unfold Drops Named OwnedChild Unrenderable
  rw [excludedBefore_eq, ← inCaret]
  generalize stateBefore (deviceSerial text) before = state
  unfold roundtripStep excludedStep isChild
  dsimp only
  generalize (line.head? == some ' ' || line.head? == some '\t' ||
    strip line == "quit".ascii) = child
  cases state.inBanner with
  | true => simp
  | false =>
    by_cases opens : startsWithAny bannerOpeners (strip line) = true
    · simp [opens]
    · by_cases isBody : (state.inBlock && child) = true
      · rw [if_neg Bool.false_ne_true, if_neg opens, if_pos isBody, if_neg Bool.false_ne_true,
          if_neg opens, if_pos isBody]
        exact iff_of_true rfl (.inr (.inr (.inr ⟨rfl, Bool.and_eq_true_iff.mp isBody⟩)))
      · have notBody : ¬ (state.inBlock ∧ child) := fun both =>
          isBody (Bool.and_eq_true_iff.mpr both)
        rw [if_neg Bool.false_ne_true, if_neg opens, if_neg isBody, if_neg Bool.false_ne_true,
          if_neg opens, if_neg isBody]
        by_cases owned : opensDeviceOwned (strip line) line = true
        · simp [owned]
        · rw [if_neg owned, if_neg owned]
          by_cases isTop : (!startsIndented line) = true
          · rw [if_pos isTop, if_pos isTop]
            simp [notBody]
          · rw [if_neg isTop, if_neg isTop]
            by_cases isClient : autoinstallClientId line state.interface (deviceSerial text) = true
            · simp [isClient]
            · by_cases isBgp : bgpOwn line state.section_ = true
              · simp [isClient, isBgp]
              · simp [isClient, isBgp, notBody]

theorem not_named_of_inCaret (inCaret : InCaret before) :
    ¬ Named text before line ∧ ¬ OwnedChild text before line := by
  have isInside : (stateBefore (deviceSerial text) before).inBanner :=
    stateBefore_inBanner.mpr inCaret
  unfold Named OwnedChild
  rw [excludedBefore_eq]
  constructor
  · unfold excludedStep
    rw [if_pos isInside]
    exact Bool.false_ne_true
  · intro owned
    rw [isInside] at owned
    cases owned.1

/-- **What `strip_for_roundtrip` takes out is named, and a banner's lines are taken out, exactly
where the lines that one reading of the banners has and the other has not are taken out for
themselves.** -/
theorem hides_exact (text : Str) : Hides text ↔ ReadAlike text := by
  constructor
  · intro hides
    constructor
    · intro before line after isSplit inCaret
      obtain ⟨notNamed, notChild⟩ := not_named_of_inCaret inCaret
      rcases hides.named before line after isSplit (drops_iff.mpr (Or.inl inCaret)) with
        isUnrenderable | named | isChild | inBanner
      · exact Or.inl isUnrenderable
      · exact absurd named notNamed
      · exact absurd isChild notChild
      · exact Or.inr inBanner
    · intro before line after isSplit within notCaret
      exact (drops_iff.mp (hides.hidden before line after isSplit within)).resolve_left notCaret
  · intro alike
    constructor
    · intro before line after isSplit drops
      rcases drops_iff.mp drops with inCaret | isUnrenderable | named | isChild
      · rcases alike.inside before line after isSplit inCaret with isUnrenderable | inBanner
        · exact Or.inl isUnrenderable
        · exact Or.inr (Or.inr (Or.inr inBanner))
      · exact Or.inl isUnrenderable
      · exact Or.inr (Or.inl named)
      · exact Or.inr (Or.inr (Or.inl isChild))
    · intro before line after isSplit within
      by_cases inCaret : InCaret before
      · exact drops_iff.mpr (Or.inl inCaret)
      · exact drops_iff.mpr (Or.inr (alike.outside before line after isSplit within inCaret))

omit [Unicode] in
/-- A banner on one line of its own, delimited otherwise than by `^C`, hides what follows. -/
theorem hostname_taken_out :
    letI : Unicode := basicLatin
    ¬ Hides "banner motd #Keep out#\nhostname r1\n!\n".ascii := by
  let _ : Unicode := basicLatin
  intro hides
  have isSplit : splitlines "banner motd #Keep out#\nhostname r1\n!\n".ascii =
      ["banner motd #Keep out#".ascii] ++ "hostname r1".ascii :: ["!".ascii] := by
    decide +kernel
  have drops : Drops "banner motd #Keep out#\nhostname r1\n!\n".ascii
      ["banner motd #Keep out#".ascii] "hostname r1".ascii := by
    unfold Drops
    decide +kernel
  rcases hides.named _ _ _ isSplit drops with isUnrenderable | named | isChild | inBanner
  · unfold Unrenderable at isUnrenderable
    revert isUnrenderable
    decide +kernel
  · unfold Named at named
    revert named
    decide +kernel
  · unfold OwnedChild at isChild
    revert isChild
    decide +kernel
  · unfold InBanner at inBanner
    revert inBanner
    decide +kernel

end Nmas.Nsot.Normalize
