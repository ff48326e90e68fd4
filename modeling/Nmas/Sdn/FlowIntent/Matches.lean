import Nmas.Bits.Masked
import Nmas.Log.Keyed
import Nmas.Sdn.FlowIntent.Classify

/-!
Contract: which packets a match takes, and how two matches overlap.

Owns: `sdn/flow_intent.py`, a match read as bits with its prerequisites
implied, its meet with another and whether it covers one.

A packet has the fields its protocols have. What a controller wrote that is not
read as bits is a packet's only as it is written.
-/

namespace Nmas.Sdn.FlowIntent

open Nmas.Text Nmas.Bits List

/-- The bits of the widest OpenFlow field (`_ALL_BITS`). -/
abbrev fieldWidth : Nat := 128

inductive FieldBits where
  | masked (bits : Masked fieldWidth)
  | raw (value : Value)
deriving DecidableEq

inductive CannotTell where
  | notMatched (field : Field) (value : Value)
  | notBits (field : Field) (value : Value)
  | maskUnread (field : Field) (value : Value)
deriving DecidableEq

def prerequisites : Field → List (Field × Int)
  | .ipv4Src | .ipv4Dst => [(.ethType, 0x0800)]
  | .arpOp | .arpSpa | .arpTpa | .arpSha | .arpTha => [(.ethType, 0x0806)]
  | .ipv6Src | .ipv6Dst | .ipv6Flabel | .ipv6Exthdr | .ipv6NdTarget | .ipv6NdSll | .ipv6NdTll =>
    [(.ethType, 0x86DD)]
  | .tcpSrc | .tcpDst => [(.ipProto, 6)]
  | .udpSrc | .udpDst => [(.ipProto, 17)]
  | .sctpSrc | .sctpDst => [(.ipProto, 132)]
  | .icmpv4Type | .icmpv4Code => [(.ipProto, 1), (.ethType, 0x0800)]
  | .icmpv6Type | .icmpv6Code => [(.ipProto, 58), (.ethType, 0x86DD)]
  | _ => []

/-- A match as `{field: (value, mask)}`. -/
abbrev ReadMatch := List (Field × FieldBits)

section Reading

variable [Unicode] [Readers]

/-- `_int`. -/
def readInt (text : Str) : Option Int :=
  (Readers.int 0 (strip text)).or (Readers.int 10 (strip text))

/-- `.replace(":", "")`. -/
def withoutColons (text : Str) : Str := text.filter (· ≠ ':')

/-- A value of a field that is read as bits, none where the source raises
`ValueError`. -/
def readBits (field : Field) (value : Value) : Option (Masked fieldWidth) :=
  match fieldKind field with
  | .address => (Readers.ipNetwork (canonicalAddress value.str)).map (fun network =>
    { value := network.networkAddress.number
      mask := network.netmask
      within := by
        intro bit _ isSet
        have isSet : Nat.testBit network.networkAddress.number bit := isSet
        rw [← network.isLowest, Nat.testBit_and, Bool.and_eq_true] at isSet
        exact isSet.2 })
  | .mac =>
    match splitMask (lowered (strip value.str)) with
    | (written, none) => (Readers.int 16 (withoutColons written)).map
        (.under (2 ^ 48 - 1 : Nat))
    | (written, some mask) => do
      let bits ← Readers.int 16 (withoutColons mask)
      (Readers.int 16 (withoutColons written)).map (.under bits)
  | .int =>
    match value with
    | .int number => some (.whole number)
    | _ =>
      match splitMask value.str with
      | (written, none) => (readInt written).map (.under (2 ^ fieldWidth - 1 : Nat))
      | (written, some mask) => do
        let bits ← readInt mask
        (readInt written).map (.under bits)
  | .asWritten => none

def bits (field : Field) (value : Value) : Except CannotTell FieldBits :=
  match value with
  | .bool _ => .error (.notMatched field value)
  | _ =>
    match readBits field value with
    | some masked => .ok (.masked masked)
    | none =>
      if fieldKind field ≠ .asWritten ∧ '/' ∈ value.str then .error (.notBits field value)
      else
        match value with
        | .text written =>
          if '/' ∈ written then .error (.maskUnread field value) else .ok (.raw value)
        | _ => .ok (.raw value)

def setDefault (read : ReadMatch) (field : Field) (value : Int) : ReadMatch :=
  if read.any (·.1 = field) then read else read ++ [(field, .masked (.whole value))]

/-- A field's prerequisites, where the match leaves them out. -/
def withPrerequisites (read : ReadMatch) (field : Field) : ReadMatch :=
  (prerequisites field).foldl (fun read need => setDefault read need.1 need.2) read

def fields (match_ : Match) : Except CannotTell ReadMatch := do
  let read ← match_.mapM (fun entry => (bits entry.1 entry.2).map (entry.1, ·))
  return (read.map Prod.fst).foldl withPrerequisites read

end Reading

def meet : FieldBits → FieldBits → Option FieldBits
  | .masked one, .masked other => (Masked.meet one other).map .masked
  | one, other => if one = other then some one else none

def covers : FieldBits → FieldBits → Bool
  | .masked one, .masked other => Masked.covers one other
  | one, other => one = other

def meetField (read : ReadMatch) (entry : Field × FieldBits) : Option ReadMatch :=
  match read.lookup entry.1 with
  | some held => (meet held entry.2).map (fun both => Log.put Prod.fst (entry.1, both) read)
  | none => some (read ++ [entry])

def matchMeet (one other : ReadMatch) : Option ReadMatch := other.foldlM meetField one

def matchCovers (one other : ReadMatch) : Bool :=
  one.all (fun entry => (other.lookup entry.1).any (covers entry.2))

/-! ### Packets -/

/-- What a packet has in a field. -/
inductive Reading where
  | number (number : Int)
  | asWritten (value : Value)
deriving DecidableEq

/-- A packet: what it has in each field, with what its fields presuppose. -/
structure Packet where
  read : Field → Option Reading
  presupposed : ∀ field, (read field).isSome → ∀ need ∈ prerequisites field,
    read need.1 = some (.number need.2)

/-- A field's value takes what the packet has there. -/
def FieldBits.Takes : FieldBits → Reading → Prop
  | .masked bits, .number number => bits.Takes number
  | .raw value, .asWritten written => value = written
  | _, _ => False

def TakesField (packet : Packet) (entry : Field × FieldBits) : Prop :=
  ∃ reading, packet.read entry.1 = some reading ∧ entry.2.Takes reading

/-- A read match takes the packet: it has every field of it, under its mask. -/
def ReadMatch.Takes (read : ReadMatch) (packet : Packet) : Prop :=
  ∀ entry ∈ read, TakesField packet entry

def Match.Takes [Unicode] [Readers] (match_ : Match) (packet : Packet) : Prop :=
  ∀ entry ∈ match_, ∃ held, bits entry.1 entry.2 = .ok held ∧ TakesField packet (entry.1, held)

variable {packet : Packet}

/-! ### One field -/

theorem meet_takes {one other : FieldBits} {reading : Reading} (takesOne : one.Takes reading)
    (takesOther : other.Takes reading) :
    ∃ both, meet one other = some both ∧ both.Takes reading := by
  cases one with
  | masked oneBits =>
    cases reading with
    | asWritten value => exact absurd takesOne not_false
    | number number =>
      cases other with
      | raw value => exact absurd takesOther not_false
      | masked otherBits =>
        obtain ⟨both, isMeet, takes⟩ := Masked.meet_takes takesOne takesOther
        refine ⟨.masked both, ?_, takes⟩
        show (Masked.meet oneBits otherBits).map FieldBits.masked = _
        rw [isMeet]
        rfl
  | raw oneValue =>
    cases reading with
    | number number => exact absurd takesOne not_false
    | asWritten written =>
      cases other with
      | masked otherBits => exact absurd takesOther not_false
      | raw otherValue =>
        have isOne : oneValue = written := takesOne
        have isOther : otherValue = written := takesOther
        refine ⟨.raw oneValue, ?_, takesOne⟩
        show (if FieldBits.raw oneValue = .raw otherValue then _ else none) = _
        rw [isOne, isOther, if_pos rfl]

theorem takes_of_covers {one other : FieldBits} {reading : Reading}
    (isCovered : covers one other) (takesOther : other.Takes reading) :
    one.Takes reading := by
  have same : one = other → one.Takes reading := by
    intro same
    rw [same]
    exact takesOther
  cases one with
  | raw oneValue => exact same (of_decide_eq_true isCovered)
  | masked oneBits =>
    cases other with
    | raw otherValue => exact same (of_decide_eq_true isCovered)
    | masked otherBits =>
      cases reading with
      | asWritten value => exact absurd takesOther not_false
      | number number => exact Masked.takes_of_covers isCovered takesOther

/-! ### Matches -/

theorem mem_of_lookup {read : ReadMatch} {field : Field} {held : FieldBits}
    (isHeld : read.lookup field = some held) : (field, held) ∈ read := by
  obtain ⟨before, after, isSplit, _⟩ := lookup_eq_some_iff.mp isHeld
  rw [isSplit]
  exact mem_append_right _ (.head _)

theorem meetField_takes {read : ReadMatch} {entry : Field × FieldBits}
    (takes : read.Takes packet) (takesEntry : TakesField packet entry) :
    ∃ both, meetField read entry = some both ∧ ReadMatch.Takes both packet := by
  unfold meetField
  cases isHeld : read.lookup entry.1 with
  | none =>
    refine ⟨_, rfl, ?_⟩
    intro other member
    rcases mem_append.mp member with old | new
    · exact takes other old
    · rw [mem_singleton.mp new]
      exact takesEntry
  | some held =>
    obtain ⟨reading, isRead, takesHeld⟩ := takes _ (mem_of_lookup isHeld)
    obtain ⟨reading', isRead', takesNew⟩ := takesEntry
    have same : reading' = reading := Option.some.inj (isRead'.symm.trans isRead)
    rw [same] at takesNew
    obtain ⟨both, isMeet, takesBoth⟩ := meet_takes takesHeld takesNew
    refine ⟨Log.put Prod.fst (entry.1, both) read, ?_, ?_⟩
    · show (meet held entry.2).map _ = _
      rw [isMeet]
      rfl
    · intro other member
      rcases Log.mem_put member with old | new
      · exact takes other old
      · rw [new]
        exact ⟨reading, isRead, takesBoth⟩

theorem matchMeet_takes {one other : ReadMatch} (takesOne : one.Takes packet)
    (takesOther : other.Takes packet) :
    ∃ both, matchMeet one other = some both ∧ ReadMatch.Takes both packet := by
  unfold matchMeet
  induction other generalizing one with
  | nil => exact ⟨one, rfl, takesOne⟩
  | cons entry rest ih =>
    obtain ⟨step, isStep, takesStep⟩ := meetField_takes takesOne (takesOther entry (.head _))
    rw [foldlM_cons, isStep]
    exact ih takesStep (fun other member =>
      takesOther other (.tail _ member))

theorem takes_of_matchCovers {one other : ReadMatch} (isCovered : matchCovers one other)
    (takesOther : other.Takes packet) : one.Takes packet := by
  intro entry member
  have isHeld := all_eq_true.mp isCovered entry member
  cases search : other.lookup entry.1 with
  | none =>
    rw [search] at isHeld
    cases isHeld
  | some held =>
    rw [search] at isHeld
    obtain ⟨reading, isRead, takesHeld⟩ := takesOther _ (mem_of_lookup search)
    exact ⟨reading, isRead, takes_of_covers isHeld takesHeld⟩

/-! ### A match read -/

section Reading

variable [Unicode] [Readers]

theorem mem_mapM_bits {match_ : Match} {read : ReadMatch}
    (isRead : match_.mapM (fun entry => (bits entry.1 entry.2).map (entry.1, ·)) = .ok read) :
    read.map Prod.fst = match_.map Prod.fst ∧
      (∀ entry ∈ match_, ∃ held, bits entry.1 entry.2 = .ok held ∧ (entry.1, held) ∈ read) ∧
      ∀ own ∈ read, ∃ entry ∈ match_, entry.1 = own.1 ∧ bits entry.1 entry.2 = .ok own.2 := by
  induction match_ generalizing read with
  | nil =>
    cases isRead
    simp
  | cons entry rest ih =>
    rw [mapM_cons] at isRead
    cases isBits : bits entry.1 entry.2 with
    | error why =>
      rw [isBits] at isRead
      cases isRead
    | ok held =>
      rw [isBits] at isRead
      cases isRest : rest.mapM (fun entry => (bits entry.1 entry.2).map (entry.1, ·)) with
      | error why =>
        rw [isRest] at isRead
        cases isRead
      | ok restRead =>
        rw [isRest] at isRead
        cases isRead
        obtain ⟨sameKeys, forward, backward⟩ := ih isRest
        refine ⟨congrArg (entry.1 :: ·) sameKeys, fun other member => ?_, fun own member => ?_⟩
        · rcases mem_cons.mp member with isFirst | isLater
          · rw [isFirst]
            exact ⟨held, isBits, .head _⟩
          · obtain ⟨its, isIts, inRead⟩ := forward other isLater
            exact ⟨its, isIts, .tail _ inRead⟩
        · rcases mem_cons.mp member with isFirst | isLater
          · rw [isFirst]
            exact ⟨entry, .head _, rfl, isBits⟩
          · obtain ⟨other, inRest, same⟩ := backward own isLater
            exact ⟨other, .tail _ inRest, same⟩

theorem mapM_bits {match_ : Match} {read : ReadMatch}
    (isRead : match_.mapM (fun entry => (bits entry.1 entry.2).map (entry.1, ·)) = .ok read) :
    Match.Takes match_ packet ↔ read.Takes packet := by
  obtain ⟨-, forward, backward⟩ := mem_mapM_bits isRead
  constructor
  · intro takes own member
    obtain ⟨entry, isEntry, sameField, isBits⟩ := backward own member
    obtain ⟨held, isHeld, takesHeld⟩ := takes entry isEntry
    cases isBits.symm.trans isHeld
    rwa [sameField] at takesHeld
  · intro takes entry member
    obtain ⟨held, isBits, isIn⟩ := forward entry member
    exact ⟨held, isBits, takes _ isIn⟩

omit [Unicode] [Readers] in
theorem setDefault_takes {read : ReadMatch} {need : Field × Int}
    (isNeeded : packet.read need.1 = some (.number need.2)) :
    (setDefault read need.1 need.2).Takes packet ↔ read.Takes packet := by
  unfold setDefault
  split
  · rfl
  · constructor
    · intro takes entry member
      exact takes entry (mem_append_left _ member)
    · intro takes entry member
      rcases mem_append.mp member with old | new
      · exact takes entry old
      · rw [mem_singleton.mp new]
        exact ⟨_, isNeeded, Masked.whole_takes need.2⟩

omit [Unicode] [Readers] in
theorem foldl_setDefault_takes {read : ReadMatch} (needs : List (Field × Int))
    (areNeeded : ∀ need ∈ needs, packet.read need.1 = some (.number need.2)) :
    (needs.foldl (fun read need => setDefault read need.1 need.2) read).Takes packet ↔
      read.Takes packet := by
  induction needs generalizing read with
  | nil => rfl
  | cons need rest ih =>
    rw [foldl_cons, ih (fun other member =>
      areNeeded other (.tail _ member))]
    exact setDefault_takes (areNeeded need (.head _))

omit [Unicode] [Readers] in
theorem foldl_withPrerequisites_takes {read : ReadMatch} (names : List Field)
    (present : ∀ field ∈ names, (packet.read field).isSome) :
    (names.foldl withPrerequisites read).Takes packet ↔ read.Takes packet := by
  induction names generalizing read with
  | nil => rfl
  | cons field rest ih =>
    rw [foldl_cons, ih (fun other member =>
      present other (.tail _ member))]
    exact foldl_setDefault_takes _ (packet.presupposed field (present field (.head _)))

omit [Unicode] [Readers] in
theorem mem_withPrerequisites {read : ReadMatch} {entry : Field × FieldBits}
    (names : List Field) (member : entry ∈ read) :
    entry ∈ names.foldl withPrerequisites read := by
  have keeps : ∀ (needs : List (Field × Int)) (read : ReadMatch), entry ∈ read →
      entry ∈ needs.foldl (fun read need => setDefault read need.1 need.2) read := by
    intro needs
    induction needs with
    | nil => exact fun _ member => member
    | cons need rest ih =>
      intro read member
      apply ih
      show entry ∈ setDefault read need.1 need.2
      unfold setDefault
      split
      · exact member
      · exact mem_append_left _ member
  induction names generalizing read with
  | nil => exact member
  | cons field rest ih =>
    exact ih (keeps _ read member)

/-- **A match read takes the packets the match does.** -/
theorem fields_takes {match_ : Match} {read : ReadMatch} (isRead : fields match_ = .ok read) :
    read.Takes packet ↔ Match.Takes match_ packet := by
  unfold fields at isRead
  cases direct : match_.mapM (fun entry => (bits entry.1 entry.2).map (entry.1, ·)) with
  | error why =>
    rw [direct] at isRead
    cases isRead
  | ok own =>
    rw [direct] at isRead
    cases isRead
    rw [mapM_bits direct]
    constructor
    · intro takes entry member
      exact takes entry (mem_withPrerequisites _ member)
    · intro takes
      apply (foldl_withPrerequisites_takes _ _).mpr takes
      intro field isField
      obtain ⟨entry, member, isName⟩ := mem_map.mp isField
      obtain ⟨reading, isReading, _⟩ := takes entry member
      rw [← isName, isReading]
      rfl

end Reading

end Nmas.Sdn.FlowIntent
