import Nmas.Sdn.FlowIntent.Matches

/-!
Contract: the match algebra against the sets of packets matches take.

A packet is a value for every field. A match takes the packets with its values
and with the prerequisites it leaves out. `_match_meet` and `_match_covers` are
intersection and inclusion of these sets, and exactly where is owned here.
-/

namespace Nmas.Sdn.FlowIntent

open Nmas.Text Nmas.Bits List
open Function

/-! ### What a match takes -/

abbrev Values := Field → Reading

/-- A field's value takes a reading; under an all-zero mask it takes any. -/
def FieldBits.Holds : FieldBits → Reading → Prop
  | .masked bits, .number number => bits.Agrees number
  | .masked bits, .asWritten _ => bits.mask = 0
  | .raw value, .asWritten written => value = written
  | .raw _, .number _ => False

def ReadMatch.Holds (read : ReadMatch) (packet : Values) : Prop :=
  ∀ entry ∈ read, entry.2.Holds (packet entry.1)

def leftOut (match_ : Match) : List (Field × Int) :=
  ((match_.map Prod.fst).flatMap prerequisites).filter (fun need => need.1 ∉ match_.map Prod.fst)

def Match.Holds [Unicode] [Readers] (match_ : Match) (packet : Values) : Prop :=
  (∀ entry ∈ match_, ∃ held, bits entry.1 entry.2 = .ok held ∧ held.Holds (packet entry.1)) ∧
    ∀ need ∈ leftOut match_, (FieldBits.masked (.whole need.2)).Holds (packet need.1)

/-- No two of a match's fields presuppose different values of a field it leaves out. -/
def Match.Consistent (match_ : Match) : Prop :=
  ∀ one ∈ leftOut match_, ∀ other ∈ leftOut match_, one.1 = other.1 → one.2 = other.2

/-- Two values of a field that `_meet` finds nothing in common of. -/
def Disagree : FieldBits → FieldBits → Prop
  | .masked one, .masked other => ∃ bit, one.mask.testBit bit = true ∧
      other.mask.testBit bit = true ∧ one.value.testBit bit ≠ other.value.testBit bit
  | .raw one, .raw other => one ≠ other
  | _, _ => True

/-- Two values of one kind, neither with a bit that only the other's mask asks for. -/
def Tidy : FieldBits → FieldBits → Prop
  | .masked one, .masked other => Masked.Tidy one other
  | .raw _, .raw _ => True
  | _, _ => False

/-! ### One field -/

section Field

variable {one other both : FieldBits}

theorem exists_holds (held : FieldBits) : ∃ reading, held.Holds reading := by
  cases held with
  | masked bits => exact ⟨.number bits.value, bits.agrees_value⟩
  | raw value => exact ⟨.asWritten value, rfl⟩

theorem holds_all_iff {held : FieldBits} :
    (∀ reading, held.Holds reading) ↔ ∃ bits, held = .masked bits ∧ bits.mask = 0 := by
  constructor
  · intro every
    cases held with
    | masked bits => exact ⟨bits, rfl, every (.asWritten (.bool true))⟩
    | raw value => exact absurd (every (.number 0)) not_false
  · rintro ⟨bits, rfl, isZero⟩ reading
    cases reading with
    | number number => exact Masked.agrees_of_zero isZero number
    | asWritten written => exact isZero

theorem meet_eq_none_iff : meet one other = none ↔ Disagree one other := by
  cases one with
  | masked oneBits =>
    cases other with
    | masked otherBits =>
      show (Masked.meet oneBits otherBits).map FieldBits.masked = none ↔ _
      rw [Option.map_eq_none_iff]
      exact Masked.meet_eq_none_iff
    | raw otherValue =>
      show (if FieldBits.masked oneBits = .raw otherValue then some (FieldBits.masked oneBits)
        else none) = none ↔ True
      simp
  | raw oneValue =>
    cases other with
    | masked otherBits =>
      show (if FieldBits.raw oneValue = .masked otherBits then some (FieldBits.raw oneValue)
        else none) = none ↔ True
      simp
    | raw otherValue =>
      show (if FieldBits.raw oneValue = .raw otherValue then some (FieldBits.raw oneValue)
        else none) = none ↔ oneValue ≠ otherValue
      simp

theorem exists_both (agree : ¬ Disagree one other) :
    ∃ reading, one.Holds reading ∧ other.Holds reading := by
  cases one with
  | masked oneBits =>
    cases other with
    | masked otherBits =>
      have same : ∀ bit, oneBits.mask.testBit bit → otherBits.mask.testBit bit →
          oneBits.value.testBit bit = otherBits.value.testBit bit := by
        intro bit inOne inOther
        by_contra differ
        exact agree ⟨bit, inOne, inOther, differ⟩
      obtain ⟨number, underOne, underOther⟩ := Masked.exists_agrees same
      exact ⟨.number number, underOne, underOther⟩
    | raw otherValue => exact absurd trivial agree
  | raw oneValue =>
    cases other with
    | masked otherBits => exact absurd trivial agree
    | raw otherValue =>
      have same : oneValue = otherValue := not_not.mp agree
      exact ⟨.asWritten oneValue, rfl, same.symm⟩

theorem agree_of_tidy (tidy : Tidy one other) {reading : Reading} (takesOne : one.Holds reading)
    (takesOther : other.Holds reading) : ¬ Disagree one other := by
  cases one with
  | masked oneBits =>
    cases other with
    | raw otherValue => exact absurd tidy not_false
    | masked otherBits =>
      rintro ⟨bit, inOne, inOther, differ⟩
      cases reading with
      | number number => exact differ ((takesOne bit inOne).symm.trans (takesOther bit inOther))
      | asWritten written =>
        have isZero : oneBits.mask = 0 := takesOne
        rw [eq_zero_iff.mp isZero bit] at inOne
        cases inOne
  | raw oneValue =>
    cases other with
    | masked otherBits => exact absurd tidy not_false
    | raw otherValue =>
      cases reading with
      | number number => exact absurd takesOne not_false
      | asWritten written =>
        have isOne : oneValue = written := takesOne
        have isOther : otherValue = written := takesOther
        exact fun differ => differ (isOne.trans isOther.symm)

theorem meet_holds_iff (isMeet : meet one other = some both) :
    (∀ reading, both.Holds reading ↔ one.Holds reading ∧ other.Holds reading) ↔ Tidy one other := by
  have agree : ¬ Disagree one other := by
    rw [← meet_eq_none_iff, isMeet]
    exact Option.some_ne_none both
  cases one with
  | raw oneValue =>
    cases other with
    | masked otherBits => exact absurd trivial agree
    | raw otherValue =>
      have same : oneValue = otherValue := not_not.mp agree
      have isMeet : (if FieldBits.raw oneValue = .raw otherValue then
        some (FieldBits.raw oneValue) else none) = some both := isMeet
      rw [if_pos (by rw [same])] at isMeet
      cases isMeet
      refine iff_of_true ?_ trivial
      intro reading
      rw [same, and_self]
  | masked oneBits =>
    cases other with
    | raw otherValue => exact absurd trivial agree
    | masked otherBits =>
      have isMap : (Masked.meet oneBits otherBits).map FieldBits.masked = some both := isMeet
      obtain ⟨bothBits, isBits, rfl⟩ := Option.map_eq_some_iff.mp isMap
      show _ ↔ Masked.Tidy oneBits otherBits
      rw [← Masked.meet_agrees_iff isBits]
      -- A masked value is of numbers, but for an all-zero mask.
      have isZero : bothBits.mask = 0 ↔ oneBits.mask = 0 ∧ otherBits.mask = 0 := by
        have isMask : bothBits.mask = Int.lor oneBits.mask otherBits.mask := by
          unfold Masked.meet at isBits
          split at isBits
          · cases isBits
            rfl
          · cases isBits
        rw [isMask, eq_zero_iff, eq_zero_iff, eq_zero_iff, ← forall_and]
        apply forall_congr'
        intro bit
        rw [Int.testBit_lor, Bool.or_eq_false_iff]
      constructor
      · intro exactly number
        exact exactly (.number number)
      · intro exactly reading
        cases reading with
        | number number => exact exactly number
        | asWritten written => exact isZero

/-- One value covers another exactly where it takes all the other does, an all-zero mask against what
is not read as bits apart. -/
theorem covers_iff_holds :
    covers one other ↔ (∀ reading, other.Holds reading → one.Holds reading) ∧
      ∀ bits, one = .masked bits → bits.mask = 0 → ∃ otherBits, other = .masked otherBits := by
  cases one with
  | masked oneBits =>
    cases other with
    | masked otherBits =>
      have isCovers : covers (.masked oneBits) (.masked otherBits) =
        Masked.covers oneBits otherBits := rfl
      rw [isCovers, Masked.covers_iff_agrees]
      constructor
      · intro every
        refine ⟨?_, fun _ _ _ => ⟨otherBits, rfl⟩⟩
        intro reading takes
        cases reading with
        | number number => exact every number takes
        | asWritten written =>
          -- Nothing is under a mask that every number is under.
          have isZero : otherBits.mask = 0 := takes
          have none_ := Masked.covers_iff_agrees.mpr every
          unfold Masked.covers at none_
          rw [Bool.and_eq_true, decide_eq_true_eq, land_lnot_eq_zero] at none_
          show oneBits.mask = 0
          rw [eq_zero_iff]
          intro bit
          cases inOne : oneBits.mask.testBit bit with
          | false => rfl
          | true =>
            have inOther := none_.1 bit inOne
            rw [eq_zero_iff.mp isZero bit] at inOther
            cases inOther
      · rintro ⟨every, -⟩ number takes
        exact every (.number number) takes
    | raw otherValue =>
      have isCovers : covers (.masked oneBits) (.raw otherValue) = false := by
        show decide (FieldBits.masked oneBits = .raw otherValue) = false
        simp
      rw [isCovers]
      simp only [Bool.false_eq_true, false_iff, not_and]
      intro every named
      obtain ⟨otherBits, isOther⟩ := named oneBits rfl (every (.asWritten otherValue) rfl)
      cases isOther
  | raw oneValue =>
    cases other with
    | masked otherBits =>
      have isCovers : covers (.raw oneValue) (.masked otherBits) = false := by
        show decide (FieldBits.raw oneValue = .masked otherBits) = false
        simp
      rw [isCovers]
      simp only [Bool.false_eq_true, false_iff, not_and]
      intro every
      exact absurd (every (.number otherBits.value) otherBits.agrees_value) not_false
    | raw otherValue =>
      have isCovers : covers (.raw oneValue) (.raw otherValue) =
        decide (FieldBits.raw oneValue = .raw otherValue) := rfl
      rw [isCovers, decide_eq_true_eq]
      constructor
      · intro same
        rw [same]
        exact ⟨fun _ takes => takes, nofun⟩
      · rintro ⟨every, -⟩
        have same : oneValue = otherValue := every (.asWritten otherValue) rfl
        rw [same]

end Field

/-! ### Matches read -/

section Matches

variable {one other both : ReadMatch} {packet : Values} {field : Field}

theorem holds_iff_lookup (distinct : (one.map Prod.fst).Nodup) :
    one.Holds packet ↔ ∀ field held, one.lookup field = some held → held.Holds (packet field) := by
  constructor
  · intro takes field held isHeld
    exact takes (field, held) ((Log.lookup_eq_some_iff distinct).mp isHeld)
  · intro takes entry member
    exact takes entry.1 entry.2 ((Log.lookup_eq_some_iff distinct).mpr member)

theorem meetField_eq_none_iff {entry : Field × FieldBits} :
    meetField one entry = none ↔ ∃ held, one.lookup entry.1 = some held ∧
      Disagree held entry.2 := by
  unfold meetField
  cases isHeld : one.lookup entry.1 with
  | none => simp
  | some held =>
    show (meet held entry.2).map _ = none ↔ _
    rw [Option.map_eq_none_iff, meet_eq_none_iff]
    simp

theorem meetField_lookup {entry : Field × FieldBits} (isMeet : meetField one entry = some both) :
    both.lookup field =
      if field = entry.1 then
        (match one.lookup field with
          | none => some entry.2
          | some held => meet held entry.2)
      else one.lookup field := by
  obtain ⟨key, new⟩ := entry
  unfold meetField at isMeet
  cases isHeld : one.lookup key with
  | none =>
    rw [isHeld] at isMeet
    cases isMeet
    rw [lookup_append]
    by_cases same : field = key
    · rw [same, isHeld]
      simp
    · rw [if_neg same, Log.lookup_cons_if, if_neg same]
      simp
  | some held =>
    rw [isHeld] at isMeet
    obtain ⟨met, isMet, rfl⟩ := Option.map_eq_some_iff.mp isMeet
    rw [Log.lookup_put]
    by_cases same : field = key
    · rw [if_pos same, if_pos same, same, isHeld]
      exact isMet.symm
    · rw [if_neg same, if_neg same]

theorem meetField_distinct {entry : Field × FieldBits} (distinct : (one.map Prod.fst).Nodup)
    (isMeet : meetField one entry = some both) : (both.map Prod.fst).Nodup := by
  unfold meetField at isMeet
  cases isHeld : one.lookup entry.1 with
  | none =>
    rw [isHeld] at isMeet
    cases isMeet
    rw [map_append, nodup_append]
    refine ⟨distinct, nodup_cons.mpr ⟨not_mem_nil, nodup_nil⟩, ?_⟩
    intro key old new isNew same
    have isKey : new = entry.1 := mem_singleton.mp isNew
    exact Log.lookup_eq_none_iff.mp isHeld (by rw [← isKey, ← same]; exact old)
  | some held =>
    rw [isHeld] at isMeet
    obtain ⟨met, _, rfl⟩ := Option.map_eq_some_iff.mp isMeet
    exact Log.put_distinct distinct

def joined : Option FieldBits → Option FieldBits → Option FieldBits
  | some one, some other => meet one other
  | some one, none => some one
  | none, found => found

theorem matchMeet_lookup (distinct : (other.map Prod.fst).Nodup)
    (isMeet : matchMeet one other = some both) :
    both.lookup field = joined (one.lookup field) (other.lookup field) := by
  unfold matchMeet at isMeet
  induction other generalizing one with
  | nil =>
    cases isMeet
    cases both.lookup field <;> rfl
  | cons entry rest ih =>
    obtain ⟨key, new⟩ := entry
    rw [map_cons, nodup_cons] at distinct
    rw [foldlM_cons] at isMeet
    cases isStep : meetField one (key, new) with
    | none =>
      rw [isStep] at isMeet
      cases isMeet
    | some step =>
      rw [isStep] at isMeet
      rw [ih distinct.2 isMeet, meetField_lookup isStep, Log.lookup_cons_if]
      by_cases same : field = key
      · have absent : rest.lookup field = none := by
          rw [Log.lookup_eq_none_iff, same]
          exact distinct.1
        rw [if_pos same, if_pos same, absent]
        cases one.lookup field with
        | none => rfl
        | some held =>
          show joined (meet held new) none = meet held new
          cases meet held new <;> rfl
      · rw [if_neg same, if_neg same]

theorem matchMeet_distinct (distinct : (one.map Prod.fst).Nodup)
    (isMeet : matchMeet one other = some both) : (both.map Prod.fst).Nodup := by
  unfold matchMeet at isMeet
  induction other generalizing one with
  | nil =>
    cases isMeet
    exact distinct
  | cons entry rest ih =>
    rw [foldlM_cons] at isMeet
    cases isStep : meetField one entry with
    | none =>
      rw [isStep] at isMeet
      cases isMeet
    | some step =>
      rw [isStep] at isMeet
      exact ih (meetField_distinct distinct isStep) isMeet

theorem matchMeet_eq_none_iff (distinct : (other.map Prod.fst).Nodup) :
    matchMeet one other = none ↔ ∃ field held new, one.lookup field = some held ∧
      other.lookup field = some new ∧ Disagree held new := by
  unfold matchMeet
  induction other generalizing one with
  | nil => simp
  | cons entry rest ih =>
    obtain ⟨key, new⟩ := entry
    rw [map_cons, nodup_cons] at distinct
    have absent : rest.lookup key = none := Log.lookup_eq_none_iff.mpr distinct.1
    rw [foldlM_cons]
    cases isStep : meetField one (key, new) with
    | none =>
      obtain ⟨held, isHeld, disagree⟩ := meetField_eq_none_iff.mp isStep
      refine iff_of_true rfl ⟨key, held, new, isHeld, ?_, disagree⟩
      rw [Log.lookup_cons_if, if_pos rfl]
    | some step =>
      have agrees : ∀ held, one.lookup key = some held → ¬ Disagree held new := by
        intro held isHeld disagree
        rw [meetField_eq_none_iff.mpr ⟨held, isHeld, disagree⟩] at isStep
        cases isStep
      show rest.foldlM meetField step = none ↔ _
      rw [ih distinct.2]
      apply exists_congr
      intro field
      rw [meetField_lookup isStep, Log.lookup_cons_if]
      by_cases same : field = key
      · rw [if_pos same, if_pos same, same, absent]
        constructor
        · rintro ⟨held, found, -, none_, -⟩
          cases none_
        · rintro ⟨held, found, isHeld, isNew, disagree⟩
          cases isNew
          exact absurd disagree (agrees held isHeld)
      · rw [if_neg same, if_neg same]

theorem matchCovers_iff (distinct : (one.map Prod.fst).Nodup) :
    matchCovers one other ↔ ∀ field held, one.lookup field = some held →
      ∃ found, other.lookup field = some found ∧ covers held found := by
  unfold matchCovers
  rw [all_eq_true]
  have ofEntry : ∀ entry : Field × FieldBits, (other.lookup entry.1).any (covers entry.2) ↔
      ∃ found, other.lookup entry.1 = some found ∧ covers entry.2 found = true := by
    intro entry
    rw [Option.any_eq_true]
  constructor
  · intro every field held isHeld
    exact (ofEntry (field, held)).mp
      (every (field, held) ((Log.lookup_eq_some_iff distinct).mp isHeld))
  · intro every entry member
    exact (ofEntry entry).mpr (every entry.1 entry.2 ((Log.lookup_eq_some_iff distinct).mpr member))

theorem exists_packet (ofField : ∀ field, ∃ reading,
      (∀ held, one.lookup field = some held → held.Holds reading) ∧
        ∀ found, other.lookup field = some found → found.Holds reading)
    (distinctOne : (one.map Prod.fst).Nodup) (distinctOther : (other.map Prod.fst).Nodup) :
    ∃ packet : Values, one.Holds packet ∧ other.Holds packet := by
  choose packet takes using ofField
  refine ⟨packet, (holds_iff_lookup distinctOne).mpr ?_, (holds_iff_lookup distinctOther).mpr ?_⟩
  · intro field held isHeld
    exact (takes field).1 held isHeld
  · intro field found isFound
    exact (takes field).2 found isFound

theorem exists_shared (distinctOne : (one.map Prod.fst).Nodup)
    (distinctOther : (other.map Prod.fst).Nodup)
    (agree : ∀ field held found, one.lookup field = some held → other.lookup field = some found →
      ¬ Disagree held found) :
    ∃ packet : Values, one.Holds packet ∧ other.Holds packet := by
  apply exists_packet _ distinctOne distinctOther
  intro field
  cases isHeld : one.lookup field with
  | none =>
    cases isFound : other.lookup field with
    | none => exact ⟨.number 0, nofun, nofun⟩
    | some found =>
      obtain ⟨reading, takes⟩ := exists_holds found
      refine ⟨reading, nofun, ?_⟩
      rintro same ⟨⟩
      exact takes
  | some held =>
    cases isFound : other.lookup field with
    | none =>
      obtain ⟨reading, takes⟩ := exists_holds held
      refine ⟨reading, ?_, nofun⟩
      rintro same ⟨⟩
      exact takes
    | some found =>
      obtain ⟨reading, takesOne, takesOther⟩ := exists_both (agree field held found isHeld isFound)
      refine ⟨reading, ?_, ?_⟩
      · rintro same ⟨⟩
        exact takesOne
      · rintro same ⟨⟩
        exact takesOther

theorem exists_taken (distinct : (one.map Prod.fst).Nodup) : ∃ packet : Values, one.Holds packet := by
  have distinctNone : (([] : ReadMatch).map Prod.fst).Nodup := nodup_nil
  obtain ⟨packet, takes, -⟩ := exists_shared distinct distinctNone (fun _ _ _ _ => nofun)
  exact ⟨packet, takes⟩

theorem included_iff (distinctOne : (one.map Prod.fst).Nodup)
    (distinctOther : (other.map Prod.fst).Nodup) :
    (∀ packet : Values, other.Holds packet → one.Holds packet) ↔
      ∀ field held, one.lookup field = some held → ∀ reading,
        (∀ found, other.lookup field = some found → found.Holds reading) → held.Holds reading := by
  constructor
  · intro every field held isHeld reading ofOther
    obtain ⟨packet, takes⟩ := exists_taken distinctOther
    -- Any packet of the other with this reading put in its place.
    have takesOther : other.Holds (update packet field reading) := by
      rw [holds_iff_lookup distinctOther] at takes ⊢
      intro name found isFound
      by_cases same : name = field
      · subst same
        rw [update_self]
        exact ofOther found isFound
      · rw [update_of_ne same]
        exact takes name found isFound
    have takesOne := (holds_iff_lookup distinctOne).mp (every _ takesOther) field held isHeld
    rw [update_self] at takesOne
    exact takesOne
  · intro every packet takes
    rw [holds_iff_lookup distinctOne]
    intro field held isHeld
    apply every field held isHeld
    exact fun found isFound => (holds_iff_lookup distinctOther).mp takes field found isFound

/-- The one's all-zero masks are of fields the other reads as bits. -/
def NamesOpen (one other : ReadMatch) : Prop :=
  ∀ field bits, one.lookup field = some (.masked bits) → bits.mask = 0 →
    ∃ otherBits, other.lookup field = some (.masked otherBits)

theorem matchCovers_iff_included (distinctOne : (one.map Prod.fst).Nodup)
    (distinctOther : (other.map Prod.fst).Nodup) :
    matchCovers one other ↔
      (∀ packet : Values, other.Holds packet → one.Holds packet) ∧ NamesOpen one other := by
  rw [matchCovers_iff distinctOne, included_iff distinctOne distinctOther]
  constructor
  · intro covered
    refine ⟨?_, ?_⟩
    · intro field held isHeld reading ofOther
      obtain ⟨found, isFound, isCovered⟩ := covered field held isHeld
      exact (covers_iff_holds.mp isCovered).1 reading (ofOther found isFound)
    · intro field bits isHeld isZero
      obtain ⟨found, isFound, isCovered⟩ := covered field _ isHeld
      obtain ⟨otherBits, rfl⟩ := (covers_iff_holds.mp isCovered).2 bits rfl isZero
      exact ⟨otherBits, isFound⟩
  · rintro ⟨every, names⟩ field held isHeld
    cases isFound : other.lookup field with
    | none =>
      have all : ∀ reading, held.Holds reading := by
        intro reading
        apply every field held isHeld
        rw [isFound]
        exact nofun
      obtain ⟨bits, rfl, isZero⟩ := holds_all_iff.mp all
      obtain ⟨otherBits, isOther⟩ := names field bits isHeld isZero
      rw [isFound] at isOther
      cases isOther
    | some found =>
      refine ⟨found, rfl, covers_iff_holds.mpr ⟨?_, ?_⟩⟩
      · intro reading takes
        apply every field held isHeld
        intro other isOther
        rw [isFound] at isOther
        cases isOther
        exact takes
      · rintro bits rfl isZero
        obtain ⟨otherBits, isOther⟩ := names field bits isHeld isZero
        exact ⟨otherBits, Option.some.inj (isFound.symm.trans isOther)⟩

theorem matchMeet_holds_iff (distinctOne : (one.map Prod.fst).Nodup)
    (distinctOther : (other.map Prod.fst).Nodup) (isMeet : matchMeet one other = some both) :
    (∀ packet : Values, both.Holds packet ↔ one.Holds packet ∧ other.Holds packet) ↔
      ∀ field held found, one.lookup field = some held → other.lookup field = some found →
        Tidy held found := by
  have distinctBoth := matchMeet_distinct distinctOne isMeet
  have agree : ∀ field held found, one.lookup field = some held →
      other.lookup field = some found → ∃ met, meet held found = some met := by
    intro field held found isHeld isFound
    rw [← Option.isSome_iff_exists, Option.isSome_iff_ne_none, ne_eq, meet_eq_none_iff]
    intro disagree
    rw [(matchMeet_eq_none_iff distinctOther).mpr ⟨field, held, found, isHeld, isFound, disagree⟩]
      at isMeet
    cases isMeet
  have ofField : ∀ field, both.lookup field = joined (one.lookup field) (other.lookup field) :=
    fun field => matchMeet_lookup distinctOther isMeet
  constructor
  · intro exactly field held found isHeld isFound
    obtain ⟨met, isMet⟩ := agree field held found isHeld isFound
    have isBoth : both.lookup field = some met := by
      rw [ofField, isHeld, isFound]
      exact isMet
    rw [← meet_holds_iff isMet]
    intro reading
    obtain ⟨packet, takesOne, takesOther⟩ := exists_shared distinctOne distinctOther (by
      intro name own others isOwn isOther disagree
      obtain ⟨both', isBoth'⟩ := agree name own others isOwn isOther
      rw [meet_eq_none_iff.mpr disagree] at isBoth'
      cases isBoth')
    have takesBoth := (exactly packet).mpr ⟨takesOne, takesOther⟩
    have changed := exactly (update packet field reading)
    -- The three hold of the packet in every other field.
    have ofChange : ∀ {read : ReadMatch} {value : FieldBits}, (read.map Prod.fst).Nodup →
        read.lookup field = some value → read.Holds packet →
          (read.Holds (update packet field reading) ↔ value.Holds reading) := by
      intro read value distinct isValue takes
      rw [holds_iff_lookup distinct] at takes ⊢
      constructor
      · intro every
        have here := every field value isValue
        rw [update_self] at here
        exact here
      · intro here name other isOther
        by_cases same : name = field
        · subst same
          rw [update_self]
          cases isValue.symm.trans isOther
          exact here
        · rw [update_of_ne same]
          exact takes name other isOther
    rw [ofChange distinctBoth isBoth takesBoth, ofChange distinctOne isHeld takesOne,
      ofChange distinctOther isFound takesOther] at changed
    exact changed
  · intro tidy packet
    rw [holds_iff_lookup distinctBoth, holds_iff_lookup distinctOne,
      holds_iff_lookup distinctOther, ← forall_and]
    apply forall_congr'
    intro field
    rw [ofField]
    cases isHeld : one.lookup field with
    | none =>
      cases isFound : other.lookup field with
      | none | some found => simp [joined]
    | some held =>
      cases isFound : other.lookup field with
      | none => simp [joined]
      | some found =>
        obtain ⟨met, isMet⟩ := agree field held found isHeld isFound
        have exactly := (meet_holds_iff isMet).mpr (tidy field held found isHeld isFound)
          (packet field)
        simp [joined, isMet, exactly]

end Matches

/-! ### A match read -/

section Reading

variable {packet : Values}

theorem prerequisites_fit {field : Field} {need : Field × Int} (member : need ∈ prerequisites field) :
    ∃ number : Nat, need.2 = number ∧ number < 2 ^ fieldWidth := by
  have inTable : need.2 ∈ ([0x0800, 0x0806, 0x86DD, 6, 17, 132, 1, 58] : List Nat).map Int.ofNat := by
    revert member
    unfold prerequisites
    split <;> simp only [mem_cons, not_mem_nil, or_false, false_implies] <;>
      (rintro (rfl | rfl) <;> decide)
  obtain ⟨number, isNumber, same⟩ := mem_map.mp inTable
  refine ⟨number, same.symm, ?_⟩
  have bounded : ∀ number ∈ ([0x0800, 0x0806, 0x86DD, 6, 17, 132, 1, 58] : List Nat),
      number < 2 ^ fieldWidth := by decide
  exact bounded number isNumber

theorem mem_leftOut {match_ : Match} {need : Field × Int} :
    need ∈ leftOut match_ ↔ (∃ entry ∈ match_, need ∈ prerequisites entry.1) ∧
      need.1 ∉ match_.map Prod.fst := by
  unfold leftOut
  rw [mem_filter, mem_flatMap, decide_eq_true_eq]
  simp only [mem_map]
  constructor
  · rintro ⟨⟨field, ⟨entry, member, rfl⟩, isNeeded⟩, isLeft⟩
    exact ⟨⟨entry, member, isNeeded⟩, isLeft⟩
  · rintro ⟨⟨entry, member, isNeeded⟩, isLeft⟩
    exact ⟨⟨entry.1, ⟨entry, member, rfl⟩, isNeeded⟩, isLeft⟩

theorem setDefault_distinct {read : ReadMatch} {field : Field} {value : Int}
    (distinct : (read.map Prod.fst).Nodup) : ((setDefault read field value).map Prod.fst).Nodup := by
  unfold setDefault
  split
  · exact distinct
  · rename_i absent
    rw [map_append, nodup_append]
    refine ⟨distinct, nodup_cons.mpr ⟨not_mem_nil, nodup_nil⟩, ?_⟩
    intro key old other isNew same
    obtain ⟨entry, member, isKey⟩ := mem_map.mp old
    apply absent
    rw [any_eq_true]
    exact ⟨entry, member, decide_eq_true (isKey.trans (same.trans (mem_singleton.mp isNew)))⟩

theorem foldl_setDefault_distinct (needs : List (Field × Int)) {read : ReadMatch}
    (distinct : (read.map Prod.fst).Nodup) :
    ((needs.foldl (fun read need => setDefault read need.1 need.2) read).map Prod.fst).Nodup := by
  induction needs generalizing read with
  | nil => exact distinct
  | cons need rest ih => exact ih (setDefault_distinct distinct)

theorem foldl_withPrerequisites_eq (names : List Field) (read : ReadMatch) :
    names.foldl withPrerequisites read =
      (names.flatMap prerequisites).foldl (fun read need => setDefault read need.1 need.2) read := by
  rw [foldl_flatMap]
  rfl

theorem foldl_setDefault_holds (keys : List Field) (needs : List (Field × Int)) {read : ReadMatch}
    (kept : keys ⊆ read.map Prod.fst)
    (set : ∀ need ∈ needs, need.1 ∉ keys → need.1 ∈ read.map Prod.fst →
      (need.1, .masked (.whole need.2)) ∈ read)
    (agree : ∀ one ∈ needs, ∀ other ∈ needs, one.1 ∉ keys → one.1 = other.1 → one.2 = other.2) :
    (needs.foldl (fun read need => setDefault read need.1 need.2) read).Holds packet ↔
      read.Holds packet ∧ ∀ need ∈ needs, need.1 ∉ keys →
        (FieldBits.masked (.whole need.2)).Holds (packet need.1) := by
  induction needs generalizing read with
  | nil => simp
  | cons need rest ih =>
    have agreeRest := fun one isOne other isOther =>
      agree one (.tail _ isOne) other (.tail _ isOther)
    rw [foldl_cons, forall_mem_cons]
    by_cases held : need.1 ∈ read.map Prod.fst
    · have isSet : setDefault read need.1 need.2 = read := by
        obtain ⟨entry, member, isKey⟩ := mem_map.mp held
        exact if_pos (any_eq_true.mpr ⟨entry, member, decide_eq_true isKey⟩)
      rw [isSet, ih kept (fun other member => set other (.tail _ member)) agreeRest]
      constructor
      · rintro ⟨takes, others⟩
        refine ⟨takes, ?_, others⟩
        intro isLeft
        exact takes _ (set need (.head _) isLeft held)
      · rintro ⟨takes, -, others⟩
        exact ⟨takes, others⟩
    · have isLeft : need.1 ∉ keys := fun inKeys => held (kept inKeys)
      have isSet : setDefault read need.1 need.2 = read ++ [(need.1, .masked (.whole need.2))] := by
        refine if_neg ?_
        intro isHeld
        obtain ⟨entry, member, isKey⟩ := any_eq_true.mp isHeld
        exact held (mem_map.mpr ⟨entry, member, of_decide_eq_true isKey⟩)
      have stillKept : keys ⊆ (read ++ [(need.1, FieldBits.masked (.whole need.2))]).map Prod.fst := by
        intro key inKeys
        rw [map_append]
        exact mem_append_left _ (kept inKeys)
      have stillSet : ∀ other ∈ rest, other.1 ∉ keys →
          other.1 ∈ (read ++ [(need.1, FieldBits.masked (.whole need.2))]).map Prod.fst →
          (other.1, .masked (.whole other.2)) ∈
            read ++ [(need.1, FieldBits.masked (.whole need.2))] := by
        intro other member otherLeft isHeld
        rw [map_append, mem_append] at isHeld
        rcases isHeld with old | new
        · exact mem_append_left _ (set other (.tail _ member) otherLeft old)
        · have same : other.1 = need.1 := mem_singleton.mp new
          have sameValue := agree need (.head _) other (.tail _ member) isLeft same.symm
          rw [same, ← sameValue]
          exact mem_append_right _ (.head _)
      rw [isSet, ih stillKept stillSet agreeRest]
      have ofAppend : ReadMatch.Holds (read ++ [(need.1, .masked (.whole need.2))]) packet ↔
          read.Holds packet ∧ (FieldBits.masked (.whole need.2)).Holds (packet need.1) := by
        unfold ReadMatch.Holds
        rw [forall_mem_append, forall_mem_singleton]
      rw [ofAppend]
      constructor
      · rintro ⟨⟨takes, here⟩, others⟩
        exact ⟨takes, fun _ => here, others⟩
      · rintro ⟨takes, here, others⟩
        exact ⟨⟨takes, here isLeft⟩, others⟩

variable [Unicode] [Readers] {match_ : Match} {read : ReadMatch}

theorem mapM_bits_holds (packet : Values) {own : ReadMatch}
    (isRead : match_.mapM (fun entry => (bits entry.1 entry.2).map (entry.1, ·)) = .ok own) :
    own.map Prod.fst = match_.map Prod.fst ∧
      (own.Holds packet ↔ ∀ entry ∈ match_, ∃ held, bits entry.1 entry.2 = .ok held ∧
        held.Holds (packet entry.1)) := by
  obtain ⟨sameKeys, forward, backward⟩ := mem_mapM_bits isRead
  refine ⟨sameKeys, fun takes entry member => ?_, fun takes own member => ?_⟩
  · obtain ⟨held, isBits, isIn⟩ := forward entry member
    exact ⟨held, isBits, takes _ isIn⟩
  · obtain ⟨entry, isEntry, sameField, isBits⟩ := backward own member
    obtain ⟨held, isHeld, takesHeld⟩ := takes entry isEntry
    cases isBits.symm.trans isHeld
    rwa [sameField] at takesHeld

theorem fields_eq (isRead : fields match_ = .ok read) :
    ∃ own : ReadMatch, match_.mapM (fun entry => (bits entry.1 entry.2).map (entry.1, ·)) = .ok own ∧
      read = ((match_.map Prod.fst).flatMap prerequisites).foldl
        (fun read need => setDefault read need.1 need.2) own := by
  unfold fields at isRead
  cases direct : match_.mapM (fun entry => (bits entry.1 entry.2).map (entry.1, ·)) with
  | error why =>
    rw [direct] at isRead
    cases isRead
  | ok own =>
    rw [direct] at isRead
    cases isRead
    refine ⟨own, rfl, ?_⟩
    rw [foldl_withPrerequisites_eq, (mapM_bits_holds (fun _ => .number 0) direct).1]

theorem fields_distinct (distinct : (match_.map Prod.fst).Nodup) (isRead : fields match_ = .ok read) :
    (read.map Prod.fst).Nodup := by
  obtain ⟨own, direct, rfl⟩ := fields_eq isRead
  apply foldl_setDefault_distinct
  rw [(mapM_bits_holds (fun _ => .number 0) direct).1]
  exact distinct

/-- **A match read takes the packets the match does**, where its fields presuppose no two values of
one they leave out. -/
theorem fields_holds (consistent : Match.Consistent match_) (isRead : fields match_ = .ok read) :
    read.Holds packet ↔ Match.Holds match_ packet := by
  obtain ⟨own, direct, rfl⟩ := fields_eq isRead
  obtain ⟨sameKeys, sameTakes⟩ := mapM_bits_holds packet direct
  have isNeed : ∀ need, need ∈ leftOut match_ ↔
      need ∈ (match_.map Prod.fst).flatMap prerequisites ∧ need.1 ∉ match_.map Prod.fst := by
    intro need
    unfold leftOut
    rw [mem_filter, decide_eq_true_eq]
  rw [foldl_setDefault_holds (match_.map Prod.fst)]
  · unfold Match.Holds
    rw [sameTakes]
    apply and_congr_right
    intro _
    constructor
    · intro every need member
      exact every need ((isNeed need).mp member).1 ((isNeed need).mp member).2
    · intro every need member isLeft
      exact every need ((isNeed need).mpr ⟨member, isLeft⟩)
  · rw [sameKeys]
    exact .refl _
  · intro need _ isLeft isHeld
    rw [sameKeys] at isHeld
    exact absurd isHeld isLeft
  · intro one isOne other isOther isLeft same
    exact consistent one ((isNeed one).mpr ⟨isOne, isLeft⟩) other
      ((isNeed other).mpr ⟨isOther, same ▸ isLeft⟩) same

theorem no_packet (inconsistent : ¬ Match.Consistent match_) : ¬ Match.Holds match_ packet := by
  intro takes
  apply inconsistent
  intro one isOne other isOther same
  obtain ⟨⟨entry, _, oneNeeded⟩, -⟩ := mem_leftOut.mp isOne
  obtain ⟨⟨entry', _, otherNeeded⟩, -⟩ := mem_leftOut.mp isOther
  obtain ⟨number, isNumber, fits⟩ := prerequisites_fit oneNeeded
  obtain ⟨number', isNumber', fits'⟩ := prerequisites_fit otherNeeded
  have takesOne := takes.2 one isOne
  have takesOther := takes.2 other isOther
  rw [← same] at takesOther
  rw [isNumber] at takesOne
  rw [isNumber'] at takesOther
  rw [isNumber, isNumber']
  cases isReading : packet one.1 with
  | number reading =>
    rw [isReading] at takesOne takesOther
    rw [Masked.eq_of_agrees_whole fits fits' takesOne takesOther]
  | asWritten written =>
    rw [isReading] at takesOne
    have isZero : ((2 ^ fieldWidth - 1 : Nat) : Int) = 0 := takesOne
    exact absurd isZero (by decide)

end Reading

/-! ### The algebra -/

section Algebra

variable [Unicode] [Readers] {a b : Match} {one other : ReadMatch}

/-- `_match_meet` and `_match_covers` of two matches read are the intersection and the inclusion of
what the matches take. -/
structure IsExact (a b : Match) (one other : ReadMatch) : Prop where
  none_iff : matchMeet one other = none ↔ ∀ packet, ¬ (Match.Holds a packet ∧ Match.Holds b packet)
  meet : ∀ both, matchMeet one other = some both → ∀ packet,
    ReadMatch.Holds both packet ↔ Match.Holds a packet ∧ Match.Holds b packet
  covers : matchCovers one other = true ↔ ∀ packet, Match.Holds b packet → Match.Holds a packet

/-- The matches leave no field out with two values, or the first disagrees with the second in any
case; where they share a packet, what both name is tidy; and where the first takes all the second
does, its all-zero masks are of fields the second names too. -/
structure IsReadExactly (a b : Match) (one other : ReadMatch) : Prop where
  consistent : Match.Consistent b
  consistentOr : Match.Consistent a ∨ ∃ field held found, one.lookup field = some held ∧
    other.lookup field = some found ∧ Disagree held found
  tidy : (∃ packet, Match.Holds a packet ∧ Match.Holds b packet) →
    ∀ field held found, one.lookup field = some held → other.lookup field = some found →
      Tidy held found
  names : (∀ packet, Match.Holds b packet → Match.Holds a packet) → NamesOpen one other

omit [Unicode] [Readers] in
theorem meets_of_covers (distinctOne : (one.map Prod.fst).Nodup)
    (distinctOther : (other.map Prod.fst).Nodup) (covered : matchCovers one other) :
    matchMeet one other ≠ none := by
  rw [ne_eq, matchMeet_eq_none_iff distinctOther]
  rintro ⟨field, held, found, isHeld, isFound, disagree⟩
  obtain ⟨found', isFound', isCovered⟩ := (matchCovers_iff distinctOne).mp covered field held isHeld
  cases isFound.symm.trans isFound'
  cases held with
  | masked bits =>
    cases found with
    | masked foundBits =>
      obtain ⟨bit, inOne, inOther, differ⟩ := disagree
      have every := (covers_iff_holds.mp isCovered).1
      exact differ (every (.number foundBits.value) foundBits.agrees_value bit inOne).symm
    | raw value =>
      have same := of_decide_eq_true
        (show decide (FieldBits.masked bits = .raw value) = true from isCovered)
      cases same
  | raw own =>
    have same := of_decide_eq_true (show decide (FieldBits.raw own = found) = true from isCovered)
    rw [← same] at disagree
    exact disagree rfl

/-- **The match algebra is exact exactly where** no match leaves a field out with two values, what
both name is tidy where they share a packet, and an all-zero mask is of a field the other names. -/
theorem isExact_iff (onceA : (a.map Prod.fst).Nodup) (onceB : (b.map Prod.fst).Nodup)
    (isA : fields a = .ok one) (isB : fields b = .ok other) :
    IsExact a b one other ↔ IsReadExactly a b one other := by
  have distinctOne := fields_distinct onceA isA
  have distinctOther := fields_distinct onceB isB
  have noneOf : matchMeet one other = none ↔ ∃ field held new, one.lookup field = some held ∧
      other.lookup field = some new ∧ Disagree held new := matchMeet_eq_none_iff distinctOther
  by_cases consistentB : Match.Consistent b
  · have ofB : ∀ packet, ReadMatch.Holds other packet ↔ Match.Holds b packet :=
      fun packet => fields_holds consistentB isB
    by_cases consistentA : Match.Consistent a
    · have ofA : ∀ packet, ReadMatch.Holds one packet ↔ Match.Holds a packet :=
        fun packet => fields_holds consistentA isA
      have coversOf := matchCovers_iff_included distinctOne distinctOther
      constructor
      · intro exact_
        refine ⟨consistentB, Or.inl consistentA, ?_, ?_⟩
        · rintro ⟨packet, takes⟩
          cases isMeet : matchMeet one other with
          | none => exact absurd takes (exact_.none_iff.mp isMeet packet)
          | some both =>
            rw [← matchMeet_holds_iff distinctOne distinctOther isMeet]
            intro packet
            rw [exact_.meet both isMeet packet, ofA, ofB]
        · intro every
          exact (coversOf.mp (exact_.covers.mpr every)).2
      · intro when_
        refine ⟨?_, ?_, ?_⟩
        · constructor
          · rintro isNone packet ⟨takesA, takesB⟩
            obtain ⟨field, held, found, isHeld, isFound, disagree⟩ := noneOf.mp isNone
            have tidy := when_.tidy ⟨packet, takesA, takesB⟩ field held found isHeld isFound
            have takesOne := (holds_iff_lookup distinctOne).mp ((ofA packet).mpr takesA)
            have takesOther := (holds_iff_lookup distinctOther).mp ((ofB packet).mpr takesB)
            exact agree_of_tidy tidy (takesOne field held isHeld) (takesOther field found isFound)
              disagree
          · intro nowhere
            by_contra isSome
            obtain ⟨packet, takesOne, takesOther⟩ := exists_shared distinctOne distinctOther
              (fun field held found isHeld isFound disagree =>
                isSome (noneOf.mpr ⟨field, held, found, isHeld, isFound, disagree⟩))
            exact nowhere packet ⟨(ofA packet).mp takesOne, (ofB packet).mp takesOther⟩
        · intro both isMeet packet
          obtain ⟨shared, takesOne, takesOther⟩ := exists_shared distinctOne distinctOther
            (fun field held found isHeld isFound disagree => by
              rw [noneOf.mpr ⟨field, held, found, isHeld, isFound, disagree⟩] at isMeet
              cases isMeet)
          have tidy := when_.tidy ⟨shared, (ofA shared).mp takesOne, (ofB shared).mp takesOther⟩
          rw [(matchMeet_holds_iff distinctOne distinctOther isMeet).mpr tidy packet, ofA, ofB]
        · rw [coversOf]
          have included : (∀ packet, ReadMatch.Holds other packet → ReadMatch.Holds one packet) ↔
              ∀ packet, Match.Holds b packet → Match.Holds a packet := by
            apply forall_congr'
            intro packet
            rw [ofA, ofB]
          rw [included]
          exact and_iff_left_of_imp when_.names
    · have noneA : ∀ packet, ¬ Match.Holds a packet := fun packet => no_packet consistentA
      obtain ⟨taken, takesOther⟩ := exists_taken distinctOther
      have takesB := (ofB taken).mp takesOther
      constructor
      · intro exact_
        have isNone := exact_.none_iff.mpr fun packet takes => noneA packet takes.1
        refine ⟨consistentB, Or.inr (noneOf.mp isNone), ?_, ?_⟩
        · rintro ⟨packet, takes, -⟩
          exact absurd takes (noneA packet)
        · intro every
          exact absurd (every taken takesB) (noneA taken)
      · intro when_
        have isNone : matchMeet one other = none :=
          noneOf.mpr (when_.consistentOr.resolve_left consistentA)
        refine ⟨?_, ?_, ?_⟩
        · exact iff_of_true isNone fun packet takes => noneA packet takes.1
        · intro both isMeet
          rw [isNone] at isMeet
          cases isMeet
        · apply iff_of_false
          · intro covered
            exact meets_of_covers distinctOne distinctOther covered isNone
          · intro every
            exact noneA taken (every taken takesB)
  · -- What takes no packet is covered, and what is covered has a meet.
    have noneB : ∀ packet, ¬ Match.Holds b packet := fun packet => no_packet consistentB
    apply iff_of_false
    · intro exact_
      have isNone := exact_.none_iff.mpr fun packet takes => noneB packet takes.2
      have covered := exact_.covers.mpr fun packet takes => absurd takes (noneB packet)
      exact meets_of_covers distinctOne distinctOther covered isNone
    · intro when_
      exact consistentB when_.consistent

end Algebra

/-- An address masked by no bit takes every IPv4 packet, and is not found to. -/
theorem zeroMask_notCovers :
    letI := basicLatin
    letI := plainReaders
    ∃ one other, fields [(.ipv4Src, .text "0.0.0.0/0".ascii)] = .ok one ∧
      fields [(.ethType, .int 0x0800)] = .ok other ∧ matchCovers one other = false ∧
      (∀ packet, Match.Holds [(.ethType, .int 0x0800)] packet →
        Match.Holds [(.ipv4Src, .text "0.0.0.0/0".ascii)] packet) ∧
      ¬ IsExact [(.ipv4Src, .text "0.0.0.0/0".ascii)] [(.ethType, .int 0x0800)] one other := by
  let _ := basicLatin
  let _ := plainReaders
  have isOne : @fields basicLatin plainReaders [(.ipv4Src, .text "0.0.0.0/0".ascii)] =
      .ok [(.ipv4Src, .masked ⟨0, 0, by decide⟩), (.ethType, .masked (.whole 0x0800))] := by
    decide
  have isOther : @fields basicLatin plainReaders [(.ethType, .int 0x0800)] =
      .ok [(.ethType, .masked (.whole 0x0800))] := by
    decide
  have notCovered : matchCovers
      [(.ipv4Src, .masked ⟨0, 0, by decide⟩), (.ethType, .masked (.whole 0x0800))]
      [(.ethType, .masked (.whole 0x0800))] = false := by
    decide
  have included : ∀ packet, Match.Holds [(.ethType, .int 0x0800)] packet →
      Match.Holds [(.ipv4Src, .text "0.0.0.0/0".ascii)] packet := by
    intro packet takes
    rw [← fields_holds (by unfold Match.Consistent; decide) isOther] at takes
    rw [← fields_holds (by unfold Match.Consistent; decide) isOne]
    unfold ReadMatch.Holds at takes ⊢
    rw [List.forall_mem_cons]
    refine ⟨?_, takes⟩
    exact holds_all_iff.mpr ⟨_, rfl, rfl⟩ _
  refine ⟨_, _, isOne, isOther, notCovered, included, ?_⟩
  intro exact_
  rw [exact_.covers.mpr included] at notCovered
  cases notCovered

/-- Two ports: no packet has both. -/
theorem inPort_exact :
    letI := basicLatin
    letI := plainReaders
    IsExact [(.inPort, .int 1)] [(.inPort, .int 2)] [(.inPort, .masked (.whole 1))]
        [(.inPort, .masked (.whole 2))] ↔
      IsReadExactly [(.inPort, .int 1)] [(.inPort, .int 2)] [(.inPort, .masked (.whole 1))]
        [(.inPort, .masked (.whole 2))] := by
  let _ := basicLatin
  let _ := plainReaders
  exact isExact_iff (by decide) (by decide) (by decide) (by decide)

end Nmas.Sdn.FlowIntent
