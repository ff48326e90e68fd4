import Nmas.Sdn.FlowIntent.Effect

/-!
Contract: what the answers on an unauthorised flow say of its packets.

Owns: which flow would take a packet if the flow were not there, that this one
is compared with it, and what `forwards` and `lifts` then say.
-/

namespace Nmas.Sdn.FlowIntent

open Nmas.Text List

section Packets

variable [Unicode] [Readers]

/-- The rows are told apart by what the answer names them. -/
def ToldApart (table : List OwnedFlow) : Prop :=
  ∀ one ∈ table, ∀ other ∈ table, one.ref = other.ref → one = other

structure Matching (table : List OwnedFlow) (flow : OwnedFlow) (packet : Packet)
    (row : OwnedFlow) : Prop where
  member : row ∈ table
  sameTable : row.tableId = flow.tableId
  differs : row ≠ flow
  takes : Match.Takes row.match_ packet

/-- The flow takes the packet: it matches, and no row of a higher priority does. -/
structure Takes (table : List OwnedFlow) (flow : OwnedFlow) (packet : Packet) : Prop where
  takes : Match.Takes flow.match_ packet
  first : ∀ row, Matching table flow packet row → row.priority ≤ flow.priority

/-- A row below the flow, the highest of the others that match the packet. -/
structure TakesNext (table : List OwnedFlow) (flow : OwnedFlow) (packet : Packet)
    (row : OwnedFlow) : Prop where
  matching : Matching table flow packet row
  below : row.priority < flow.priority
  highest : ∀ other, Matching table flow packet other → other.priority ≤ row.priority

/-! ### The rows read -/

omit [Unicode] [Readers] in
theorem mapM_ok {α β ε : Type} {f : α → Except ε β} {items : List α}
    (areOk : ∀ item ∈ items, ∃ result, f item = .ok result) :
    ∃ results, items.mapM f = .ok results := by
  induction items with
  | nil => exact ⟨[], rfl⟩
  | cons item rest ih =>
    obtain ⟨result, isItem⟩ := areOk item (.head _)
    obtain ⟨results, isRest⟩ := ih (fun other member =>
      areOk other (.tail _ member))
    refine ⟨result :: results, ?_⟩
    rw [mapM_cons, isItem, isRest]
    rfl

omit [Unicode] [Readers] in
theorem mem_of_mapM {α β ε : Type} {f : α → Except ε β} {items : List α} {results : List β}
    (isRead : items.mapM f = .ok results) :
    (∀ item ∈ items, ∃ result ∈ results, f item = .ok result) ∧
      ∀ result ∈ results, ∃ item ∈ items, f item = .ok result := by
  induction items generalizing results with
  | nil =>
    rw [mapM_nil] at isRead
    cases isRead
    exact ⟨nofun, nofun⟩
  | cons item rest ih =>
    rw [mapM_cons] at isRead
    cases isItem : f item with
    | error why =>
      rw [isItem] at isRead
      cases isRead
    | ok result =>
      rw [isItem] at isRead
      cases isRest : rest.mapM f with
      | error why =>
        rw [isRest] at isRead
        cases isRead
      | ok restResults =>
        rw [isRest] at isRead
        cases isRead
        obtain ⟨forward, backward⟩ := ih isRest
        constructor
        · intro other member
          rcases mem_cons.mp member with same | inRest
          · rw [same]
            exact ⟨result, .head _, isItem⟩
          · obtain ⟨found, foundMember, isFound⟩ := forward other inRest
            exact ⟨found, .tail _ foundMember, isFound⟩
        · intro found member
          rcases mem_cons.mp member with same | inRest
          · rw [same]
            exact ⟨item, .head _, isItem⟩
          · obtain ⟨other, otherMember, isFound⟩ := backward found inRest
            exact ⟨other, .tail _ otherMember, isFound⟩

variable {table : List OwnedFlow} {flow : OwnedFlow} {packet : Packet} {row : OwnedFlow}
  {others : List Row} {mine : ReadMatch} {displacedFlows : List Piece}
  {bindings : List (Str × Str)}

theorem readRow_ok {read : Row}
    (isRead : (match fields row.match_ with
      | .ok read => Except.ok (row, read)
      | .error _ => .error row) = .ok read) :
    read.1 = row ∧ fields row.match_ = .ok read.2 := by
  split at isRead
  · rename_i found isFields
    cases isRead
    exact ⟨rfl, isFields⟩
  · cases isRead

theorem mem_readOthers (isRead : readOthers flow table = .ok others) (member : row ∈ table)
    (differs : row.ref ≠ flow.ref) (sameTable : row.tableId = flow.tableId) :
    ∃ read, (row, read) ∈ others ∧ fields row.match_ = .ok read := by
  have kept : row ∈ table.filter (fun row =>
      row.ref ≠ flow.ref && row.tableId = flow.tableId) := by
    apply mem_filter.mpr
    rw [Bool.and_eq_true, decide_eq_true_eq, decide_eq_true_eq]
    exact ⟨member, differs, sameTable⟩
  obtain ⟨read, inOthers, isRow⟩ := (mem_of_mapM isRead).1 row kept
  obtain ⟨same, isFields⟩ := readRow_ok isRow
  refine ⟨read.2, ?_, isFields⟩
  rw [← same]
  exact inOthers

theorem of_mem_readOthers (isRead : readOthers flow table = .ok others) {read : Row}
    (member : read ∈ others) :
    read.1 ∈ table ∧ read.1.ref ≠ flow.ref ∧ read.1.tableId = flow.tableId ∧
      fields read.1.match_ = .ok read.2 := by
  obtain ⟨row, kept, isRow⟩ := (mem_of_mapM isRead).2 read member
  obtain ⟨same, isFields⟩ := readRow_ok isRow
  obtain ⟨inTable, both⟩ := mem_filter.mp kept
  rw [Bool.and_eq_true, decide_eq_true_eq, decide_eq_true_eq] at both
  rw [same]
  exact ⟨inTable, both.1, both.2, isFields⟩

theorem matching_of_read (isRead : readOthers flow table = .ok others) {read : Row}
    (member : read ∈ others) (takes : read.2.Takes packet) :
    Matching table flow packet read.1 := by
  obtain ⟨inTable, differs, sameTable, isFields⟩ := of_mem_readOthers isRead member
  refine ⟨inTable, sameTable, ?_, (fields_takes isFields).mp takes⟩
  intro same
  rw [same] at differs
  exact differs rfl

/-- Every value of the match can be read. -/
def Readable (match_ : Match) : Prop := ∀ entry ∈ match_, ∃ held, bits entry.1 entry.2 = .ok held

theorem fields_ok {match_ : Match} (readable : Readable match_) :
    ∃ read, fields match_ = .ok read := by
  have areOk : ∀ entry ∈ match_, ∃ held, (bits entry.1 entry.2).map (entry.1, ·) = .ok held := by
    intro entry member
    obtain ⟨held, isBits⟩ := readable entry member
    rw [isBits]
    exact ⟨_, rfl⟩
  obtain ⟨own, isRead⟩ := mapM_ok areOk
  unfold fields
  rw [isRead]
  exact ⟨_, rfl⟩

variable (flow) in
theorem readOthers_ok (readable : ∀ row ∈ table, Readable row.match_) :
    ∃ others, readOthers flow table = .ok others := by
  apply mapM_ok
  intro row member
  obtain ⟨read, isFields⟩ := fields_ok (readable row (mem_filter.mp member).1)
  rw [isFields]
  exact ⟨_, rfl⟩

/-! ### The flow compared -/

omit [Unicode] [Readers] in
theorem mem_byPriority {read : Row} : read ∈ byPriority others ↔ read ∈ others :=
  mem_insertionSort _

theorem not_coveredAbove {priority : Nat} {match_ : ReadMatch}
    (isRead : readOthers flow table = .ok others) (takes : match_.Takes packet)
    (none_ : ∀ row, Matching table flow packet row → row.priority ≤ priority) :
    coveredAbove (byPriority others) priority match_ = none := by
  apply List.find?_eq_none.mpr
  intro read member both
  rw [Bool.and_eq_true, decide_eq_true_eq] at both
  have matching := matching_of_read isRead (mem_byPriority.mp member)
    (takes_of_matchCovers both.2 takes)
  have bound := none_ read.1 matching
  omega

/-- **The row that would take a packet is compared with.** -/
theorem mem_parts (apart : ToldApart table) (member : flow ∈ table)
    (isRead : readOthers flow table = .ok others) (takes : mine.Takes packet)
    (next : TakesNext table flow packet row) : row ∈ parts flow mine (byPriority others) := by
  have differs : row.ref ≠ flow.ref := by
    intro same
    exact next.matching.differs (apart row next.matching.member flow member same)
  obtain ⟨read, inOthers, isFields⟩ :=
    mem_readOthers isRead next.matching.member differs next.matching.sameTable
  have takesRow := (fields_takes isFields).mpr next.matching.takes
  obtain ⟨both, isMeet, takesBoth⟩ := matchMeet_takes takes takesRow
  apply mem_map.mpr
  refine ⟨(row, read), mem_filter.mpr ⟨mem_byPriority.mpr inOthers, ?_⟩, rfl⟩
  show (decide (row.priority < flow.priority) && (matchMeet mine read).any _) = true
  rw [isMeet, decide_eq_true next.below, Bool.true_and]
  show (coveredAbove (byPriority others) row.priority both).isNone = true
  rw [not_coveredAbove isRead takesBoth next.highest]
  rfl

theorem effectAmong_compares (isRead : readOthers flow table = .ok others)
    (takes : mine.Takes packet) (flowTakes : Takes table flow packet)
    (stays : (doesOf flow.actions).onward = []) :
    effectAmong flow displacedFlows mine (byPriority others) =
      compare flow (doesOf flow.actions) displacedFlows (besides flow mine (byPriority others))
        (parts flow mine (byPriority others)) := by
  unfold effectAmong
  rw [not_coveredAbove isRead takes flowTakes.first]
  dsimp only
  rw [if_neg (not_not.mpr stays)]

/-! ### Forwards -/

theorem compare_forwards {does : Does} {beside taken : List OwnedFlow}
    (forwards : (compare flow does displacedFlows beside taken).cls = .forwards)
    (member : row ∈ taken) (isDecided : tells row = .decided) :
    (doesOf row.actions).out = does.out ∧ (doesOf row.actions).rewrites = does.rewrites := by
  have decided : row ∈ taken.filter (tells · = .decided) :=
    mem_filter.mpr ⟨member, decide_eq_true isDecided⟩
  unfold compare at forwards
  dsimp only at forwards
  iterate 4
    split at forwards
    · cases forwards
  rename_i noDiverted
  split at forwards
  · cases forwards
  rename_i noRewritten
  split at forwards
  · cases forwards
  split at forwards
  · cases forwards
  rename_i noKept
  have noDiverted := not_not.mp noDiverted
  have noRewritten := not_not.mp noRewritten
  have noKept := not_not.mp noKept
  rw [noKept] at noDiverted
  constructor
  · by_contra elsewhere
    have inElsewhere : row ∈ (taken.filter (tells · = .decided)).filter (fun row =>
        (doesOf row.actions).out ≠ does.out) :=
      mem_filter.mpr ⟨decided, decide_eq_true elsewhere⟩
    have inDiverted := filter_eq_nil_iff.mp noDiverted row inElsewhere
    exact inDiverted (decide_eq_true not_mem_nil)
  · by_contra changed
    exact filter_eq_nil_iff.mp noRewritten row decided (decide_eq_true changed)

/-- **Forwards as the controller would**: the flow that would take any packet
this one takes, where the table tells what it does, sends the packet out of the
same ports with the same changes. -/
theorem forwards_sound (apart : ToldApart table) (member : flow ∈ table)
    (forwards : (effect flow table displacedFlows []).cls = .forwards)
    (takes : Takes table flow packet) (next : TakesNext table flow packet row)
    (told : row.owner = .mercury ∨
      row.owner = .controllerOwn ∧ (doesOf row.actions).onward = [] ∧
        (doesOf row.actions).out ≠ {Does.controllerPort}) :
    (doesOf row.actions).out = (doesOf flow.actions).out ∧
      (doesOf row.actions).rewrites = (doesOf flow.actions).rewrites := by
  have isDecided : tells row = .decided := by
    unfold tells
    rcases told with isMercury | ⟨isOwn, stays, notController⟩
    · rw [isMercury]
    · rw [isOwn]
      dsimp only
      rw [if_neg (not_not.mpr stays), if_neg notController]
  unfold effect at forwards
  dsimp only at forwards
  split at forwards
  · cases forwards
  rename_i mine isMine
  split at forwards
  · cases forwards
  rename_i others isRead
  have takesMine : mine.Takes packet := (fields_takes isMine).mpr takes.takes
  have isPart := mem_parts apart member isRead takesMine next
  unfold effectAmong at forwards
  rw [not_coveredAbove isRead takesMine takes.first] at forwards
  dsimp only at forwards
  split at forwards
  · cases forwards
  · exact compare_forwards forwards isPart isDecided

/-! ### Lifts -/

theorem compare_lifts {does : Does} {beside taken : List OwnedFlow} (member : row ∈ taken)
    (isMercury : row.owner = .mercury) (notKept : keeps does row.piece = false) :
    (compare flow does displacedFlows beside taken).cls = .lifts := by
  have inLifted : row.piece ∈ (displacedFlows ++
      (taken.filter (·.owner = .mercury)).map OwnedFlow.piece).filter
        (fun piece => !keeps does piece) := by
    apply mem_filter.mpr
    constructor
    · apply mem_append_right
      exact mem_map_of_mem (mem_filter.mpr ⟨member, decide_eq_true isMercury⟩)
    · rw [notKept]
      rfl
  unfold compare
  dsimp only
  rw [if_pos (ne_nil_of_mem inLifted)]
  rfl

def Undone (does mercury : Does) : Prop :=
  (mercury.out = ∅ ∧ mercury.onward = [] ∧ does.out ≠ ∅) ∨
    ∃ meter ∈ mercury.meters, meter ∉ does.meters

theorem not_keeps {does : Does} {piece : Piece} (undone : Undone does (doesOf piece.actions)) :
    keeps does piece = false := by
  unfold keeps
  dsimp only
  rcases undone with ⟨noOut, stays, outputs⟩ | ⟨meter, isMercurys, notMine⟩
  · rw [decide_eq_true noOut, decide_eq_true stays, decide_eq_true outputs]
    rfl
  · have isGone : meter ∈ (doesOf piece.actions).meters \ does.meters :=
      Finset.mem_sdiff.mpr ⟨isMercurys, notMine⟩
    rw [decide_eq_false (Finset.ne_empty_of_mem isGone), Bool.and_false]

theorem boundMatch_takes (takes : Match.Takes flow.match_ packet)
    (carries : ∀ mac ∈ boundDestination flow.match_ bindings,
      Match.Takes [(.ethDst, .text mac)] packet) :
    Match.Takes (boundMatch flow.match_ bindings) packet := by
  unfold boundMatch
  cases isBound : boundDestination flow.match_ bindings with
  | none => exact takes
  | some mac =>
    intro entry member
    rcases Log.mem_put member with old | new
    · exact takes entry old
    · rw [new]
      exact carries mac isBound _ (.head _)

/-- Every lifted mitigation is reported: a packet the flow takes, and an
installed Mercury flow would take without it, whose drop or meter it undoes. -/
def LiftsReported (flow : OwnedFlow) (table : List OwnedFlow) (displacedFlows : List Piece)
    (bindings : List (Str × Str)) (packet : Packet) : Prop :=
  ∀ row, Takes table flow packet → TakesNext table flow packet row → row.owner = .mercury →
    Undone (doesOf flow.actions) (doesOf row.actions) →
      (effect flow table displacedFlows bindings).cls = .lifts

/-- **No lifted mitigation goes unreported**, on any packet that carries the MAC
its destination is bound to. -/
theorem lifts_reported (apart : ToldApart table) (member : flow ∈ table)
    (readable : ∀ row ∈ table, Readable row.match_)
    (stays : (doesOf flow.actions).onward = [])
    (carries : ∀ mac ∈ boundDestination flow.match_ bindings,
      Match.Takes [(.ethDst, .text mac)] packet) :
    LiftsReported flow table displacedFlows bindings packet := by
  intro row takes next isMercury undone
  have takesBound := boundMatch_takes takes.takes carries
  have boundReadable : Readable (boundMatch flow.match_ bindings) :=
    fun entry inMatch => (takesBound entry inMatch).imp (fun _ both => both.1)
  obtain ⟨mine, isMine⟩ := fields_ok boundReadable
  obtain ⟨others, isRead⟩ := readOthers_ok flow readable
  have takesMine : mine.Takes packet := (fields_takes isMine).mpr takesBound
  unfold effect
  rw [isMine, isRead]
  dsimp only
  rw [effectAmong_compares isRead takesMine takes stays]
  exact compare_lifts (mem_parts apart member isRead takesMine next) isMercury
    (not_keeps undone)

end Packets

/-! ### One host -/

namespace OneHost

def row (id : Str) (priority : Nat) (match_ : Match) (actions : List Action) (owner : Owner) :
    OwnedFlow :=
  ⟨⟨⟨1, 0, priority, 7, match_, actions, 0, 0, none, none, none⟩, id⟩, owner⟩

def hostMac : Str := "00:00:00:00:00:02".ascii

def otherMac : Str := "00:00:00:00:00:03".ascii

def bindings : List (Str × Str) := [("10.0.0.2".ascii, hostMac)]

/-- What goes to the host leaves by port 2. -/
def unauthorised : OwnedFlow :=
  row "a".ascii 100 [(.ipv4Dst, .text "10.0.0.2".ascii)] [.apply (.output (.int 2))] .unauthorised

def delivered : OwnedFlow :=
  row "b".ascii 10 [(.ethDst, .text hostMac)] [.apply (.output (.int 2))] .controllerOwn

def dropped (mac : Str) : OwnedFlow := row "c".ascii 50 [(.ethDst, .text mac)] [] .mercury

def packet (mac : Int) : Packet where
  read := fun field =>
    match field with
    | .ethDst => some (.number mac)
    | .ethType => some (.number 0x0800)
    | .ipv4Dst => some (.number 0x0a000002)
    | _ => none
  presupposed := by
    intro field present need member
    cases field with
    | ethDst | ethType => cases member
    | ipv4Dst => rw [List.mem_singleton.mp member]
    | _ => cases present

theorem takes_address (mac : Int) :
    letI := basicLatin
    letI := plainReaders
    Match.Takes [(.ipv4Dst, .text "10.0.0.2".ascii)] (packet mac) := by
  intro entry member
  rw [mem_singleton.mp member]
  exact ⟨.masked ⟨0x0a000002, (2 ^ 32 - 1 : Nat), by decide⟩, by decide,
    .number 0x0a000002, rfl, Bits.Masked.takes_value rfl (by decide)⟩

theorem takes_mac (mac : Str) (number : Nat)
    (isRead : @bits basicLatin plainReaders .ethDst (.text mac) =
      .ok (.masked (.under (2 ^ 48 - 1 : Nat) number)))
    (fits : Int.land number (2 ^ 48 - 1 : Nat) = number) :
    letI := basicLatin
    letI := plainReaders
    Match.Takes [(.ethDst, .text mac)] (packet number) := by
  intro entry member
  rw [mem_singleton.mp member]
  refine ⟨_, isRead, .number number, rfl, ?_⟩
  have takes : (Bits.Masked.under (2 ^ 48 - 1 : Nat) number : Bits.Masked fieldWidth).Takes
      (Int.land number (2 ^ 48 - 1 : Nat)) :=
    Bits.Masked.takes_value rfl (show 2 ^ 48 - 1 < 2 ^ fieldWidth by decide)
  rw [fits] at takes
  exact takes

end OneHost

open OneHost in
/-- The flow sends a packet to the host where the controller would. -/
theorem delivered_as_controller :
    letI := basicLatin
    letI := plainReaders
    (doesOf delivered.actions).out = (doesOf unauthorised.actions).out ∧
      (doesOf delivered.actions).rewrites = (doesOf unauthorised.actions).rewrites := by
  letI := basicLatin
  letI := plainReaders
  have takesMac := takes_mac hostMac 2 (by decide +kernel) (by decide)
  refine @forwards_sound basicLatin plainReaders [unauthorised, delivered] unauthorised
    (packet 2) delivered [] ?_ (by decide) (by decide +kernel) ?_ ?_ ?_
  · unfold ToldApart
    decide
  · exact ⟨takes_address 2, by
      intro other matching
      have bounded : ∀ row ∈ [unauthorised, delivered], row.priority ≤ 100 := by decide
      exact bounded other matching.member⟩
  · refine ⟨⟨by decide, rfl, by decide, takesMac⟩, by decide, ?_⟩
    intro other matching
    have bounded : ∀ row ∈ [unauthorised, delivered], row ≠ unauthorised →
        row.priority ≤ 10 := by decide
    exact bounded other matching.member matching.differs
  · decide

namespace OneHost

theorem takes_drop (mac : Str) (number : Int)
    (takesMac :
      letI := basicLatin
      letI := plainReaders
      Match.Takes [(.ethDst, .text mac)] (packet number)) :
    letI := basicLatin
    letI := plainReaders
    Takes [unauthorised, dropped mac] unauthorised (packet number) ∧
      TakesNext [unauthorised, dropped mac] unauthorised (packet number) (dropped mac) := by
  letI := basicLatin
  letI := plainReaders
  have differs : dropped mac ≠ unauthorised := by
    intro same
    exact absurd (congrArg OwnedFlow.owner same) (show Owner.mercury ≠ .unauthorised by decide)
  have isOther : ∀ other, other ∈ [unauthorised, dropped mac] → other ≠ unauthorised →
      other = dropped mac := by
    intro other member notFlow
    rcases mem_cons.mp member with same | isDrop
    · exact absurd same notFlow
    · exact mem_singleton.mp isDrop
  refine ⟨⟨takes_address number, ?_⟩, ⟨⟨.tail _ (.head _), rfl,
    differs, takesMac⟩, by show 50 < 100; omega, ?_⟩⟩
  · intro other matching
    rw [isOther other matching.member matching.differs]
    show 50 ≤ 100
    omega
  · intro other matching
    rw [isOther other matching.member matching.differs]

theorem readable (mac : Str) (number : Int)
    (takesMac :
      letI := basicLatin
      letI := plainReaders
      Match.Takes [(.ethDst, .text mac)] (packet number)) :
    letI := basicLatin
    letI := plainReaders
    ∀ row ∈ [unauthorised, dropped mac], Readable row.match_ := by
  letI := basicLatin
  letI := plainReaders
  intro row member entry inMatch
  rcases mem_cons.mp member with isFlow | isDrop
  · rw [isFlow] at inMatch
    exact (takes_address number entry inMatch).imp (fun _ both => both.1)
  · rw [mem_singleton.mp isDrop] at inMatch
    exact (takesMac entry inMatch).imp (fun _ both => both.1)

end OneHost

open OneHost in
/-- A drop of the host's packets is undone, and reported. -/
theorem lifted_drop_reported :
    letI := basicLatin
    letI := plainReaders
    LiftsReported unauthorised [unauthorised, dropped hostMac] [] bindings (packet 2) := by
  letI := basicLatin
  letI := plainReaders
  have takesMac := takes_mac hostMac 2 (by decide) (by decide)
  refine @lifts_reported basicLatin plainReaders [unauthorised, dropped hostMac] unauthorised
    (packet 2) [] bindings ?_ (by decide) (readable hostMac 2 takesMac) (by decide) ?_
  · unfold ToldApart
    decide
  · intro mac isBound
    have isHost : boundDestination unauthorised.match_ bindings = some hostMac := by
      decide
    rw [isHost] at isBound
    cases isBound
    exact takesMac

open OneHost in
/-- A packet to the host's address with another MAC is taken from a drop, which
the answer, bound to the host's MAC, does not look at. -/
theorem lifted_drop_of_other_mac :
    letI := basicLatin
    letI := plainReaders
    ToldApart [unauthorised, dropped otherMac] ∧
      (∀ row ∈ [unauthorised, dropped otherMac], Readable row.match_) ∧
      (doesOf unauthorised.actions).onward = [] ∧
      ¬ LiftsReported unauthorised [unauthorised, dropped otherMac] [] bindings (packet 3) := by
  letI := basicLatin
  letI := plainReaders
  have takesMac := takes_mac otherMac 3 (by decide) (by decide)
  refine ⟨by unfold ToldApart; decide, readable otherMac 3 takesMac,
    by decide, ?_⟩
  intro reported
  obtain ⟨takes, next⟩ := takes_drop otherMac 3 takesMac
  have lifts := reported (dropped otherMac) takes next rfl
    (Or.inl ⟨by decide, by decide, by decide⟩)
  have isUnknown : (effect unauthorised [unauthorised, dropped otherMac] [] bindings).cls =
      .unknown := by decide +kernel
  rw [isUnknown] at lifts
  cases lifts

end Nmas.Sdn.FlowIntent
