import Mathlib.Data.Finmap
import Mathlib.Data.List.Sort
import Nmas.Sdn.FlowIntent.Exact

/-!
Contract: the flow of a table that takes a traced packet.

Owns: `judge` and `select` of `sdn/trace.py`, and that what `select` answers is what
OpenFlow's matching says of every real packet the traced one can be (`select_sound`).

A traced packet gives some fields their values. A real packet has these and may have any
other field. A flow's match presupposes the protocols of the fields it names.
-/

namespace Nmas.Sdn.Trace

open Nmas.Text Nmas.Bits Nmas.Sdn.FlowIntent List

/-- The exact values of the fields a flow may match. -/
abbrev Pkt := Finmap (fun _ : Field => Value)

/-- `OFPVID_PRESENT`. -/
def vidPresent : Int := 0x1000

/-- `OFPVID_NONE`. -/
def vidNone : Value := .int 0

inductive Why where
  | matchUnread (why : CannotTell)
  | packetUnread
  | notModelled (field : Field)
deriving DecidableEq

inductive Verdict where
  | yes
  | no
  | cannot (why : Why)
deriving DecidableEq

/-- A number written for a VLAN is a tagged id. -/
def tagged (match_ : Match) : Match :=
  match_.map (fun entry =>
    match entry with
    | (.vlanVid, .int vid) => (.vlanVid, .int (Int.lor vid vidPresent))
    | _ => entry)

section Judge

variable [Unicode] [Readers]

def theirs (packet : Pkt) (field : Field) : Option FieldBits :=
  (packet.lookup field).bind (fun value => (bits field value).toOption)

/-- `judge`'s loop over the match's fields, with the first the packet lacks. -/
def judgeFields (packet : Pkt) : Option Field → ReadMatch → Verdict
  | none, [] => .yes
  | some lacking, [] => .cannot (.notModelled lacking)
  | lacking, (field, mine) :: rest =>
    match theirs packet field with
    | some held => if covers mine held then judgeFields packet lacking rest else .no
    | none =>
      if field = .vlanPcp ∧ packet.lookup .vlanVid = some vidNone then .no
      else judgeFields packet (lacking.or (some field)) rest

def judge (match_ : Match) (packet : Pkt) : Verdict :=
  match fields (tagged match_) with
  | .error why => .cannot (.matchUnread why)
  | .ok mine =>
    if ∀ field ∈ packet.keys, (theirs packet field).isSome then judgeFields packet none mine
    else .cannot .packetUnread

inductive Doubt where
  | mayTake (flow : Flow) (why : Why)
  | differ (flows : List Flow)
deriving DecidableEq

inductive Selected where
  | takes (flow : Flow)
  | miss
  | cannot (doubt : Doubt)
deriving DecidableEq

/-- What the flows of one priority say, none where none takes the packet. -/
def selectAt (packet : Pkt) (rows : List Flow) (priority : Nat) : Option Selected :=
  let here := rows.filter (fun f => f.priority = priority)
  match here.findSome? (fun f =>
      match judge f.match_ packet with
      | .cannot why => some (Doubt.mayTake f why)
      | _ => none) with
  | some doubt => some (.cannot doubt)
  | none =>
    match here.filter (fun f => judge f.match_ packet = .yes) with
    | [] => none
    | f :: rest =>
      if rest.all (fun other => other.actions = f.actions) then some (.takes f)
      else some (.cannot (.differ (f :: rest)))

def select (flows : List Flow) (table : Int) (packet : Pkt) : Selected :=
  let rows := flows.filter (fun f => (f.tableId : Int) = table)
  (((rows.map Flow.priority).dedup.insertionSort (fun one other => other ≤ one)).findSome?
    (selectAt packet rows)).getD .miss

/-! ### What a match takes -/

/-- Every bit the match's mask names is one the packet has, and has the same value. -/
def Agrees : FieldBits → FieldBits → Prop
  | .masked mine, .masked has => ∀ bit, mine.mask.testBit bit = true →
      has.mask.testBit bit = true ∧ mine.value.testBit bit = has.value.testBit bit
  | mine, has => mine = has

omit [Unicode] [Readers] in
theorem covers_iff {mine has : FieldBits} : covers mine has ↔ Agrees mine has := by
  cases mine with
  | raw value => cases has <;> simp [covers, Agrees]
  | masked bits =>
    cases has with
    | raw other => simp [covers, Agrees]
    | masked other =>
      unfold covers Masked.covers Agrees
      rw [Bool.and_eq_true, decide_eq_true_eq, decide_eq_true_eq, land_lnot_eq_zero,
        land_xor_eq_zero]
      constructor
      · rintro ⟨within, same⟩ bit isSet
        exact ⟨within bit isSet, same bit isSet⟩
      · intro agrees
        exact ⟨fun bit isSet => (agrees bit isSet).1, fun bit isSet => (agrees bit isSet).2⟩

/-- A real packet the traced one can be: what it has in each field. -/
structure Completes (packet : Pkt) (real : Field → Option FieldBits) : Prop where
  own : ∀ field value held, packet.lookup field = some value → bits field value = .ok held →
    real field = some held
  /-- An untagged packet has no VLAN priority. -/
  untagged : packet.lookup .vlanVid = some vidNone → packet.lookup .vlanPcp = none →
    real .vlanPcp = none

/-- A real packet has what the match asks for in one field. -/
def Has (real : Field → Option FieldBits) (own : Field × FieldBits) : Prop :=
  ∃ has, real own.1 = some has ∧ Agrees own.2 has

/-- Some real packet the traced one can be is taken: a value that is not read as bits may be
matched either way. -/
def MayTake (packet : Pkt) (match_ : Match) : Prop :=
  ∃ real, Completes packet real ∧
    (∀ entry ∈ tagged match_, ∀ mine, bits entry.1 entry.2 = .ok mine → Has real (entry.1, mine)) ∧
    ∀ need ∈ leftOut (tagged match_), Has real (need.1, .masked (.whole need.2))

/-- Every real packet the traced one can be has what the match names. -/
def Takes (packet : Pkt) (match_ : Match) : Prop :=
  ∀ real, Completes packet real → ∀ entry ∈ tagged match_, ∃ mine,
    bits entry.1 entry.2 = .ok mine ∧ Has real (entry.1, mine)

variable {packet : Pkt} {match_ : Match} {mine : ReadMatch} {lacking : Option Field}

/-! ### The loop over a match's fields -/

def Rejects (packet : Pkt) (entry : Field × FieldBits) : Prop :=
  (∃ has, theirs packet entry.1 = some has ∧ ¬ Agrees entry.2 has) ∨
    (theirs packet entry.1 = none ∧ entry.1 = .vlanPcp ∧ packet.lookup .vlanVid = some vidNone)

theorem judgeFields_no (isNo : judgeFields packet lacking mine = .no) :
    ∃ entry ∈ mine, Rejects packet entry := by
  induction mine generalizing lacking with
  | nil => cases lacking <;> cases isNo
  | cons entry rest ih =>
    obtain ⟨field, own⟩ := entry
    have later : (∃ entry ∈ rest, Rejects packet entry) →
        ∃ entry ∈ (field, own) :: rest, Rejects packet entry := by
      rintro ⟨entry, member, rejects⟩
      exact ⟨entry, .tail _ member, rejects⟩
    rw [judgeFields] at isNo
    cases isTheirs : theirs packet field with
    | some has =>
      rw [isTheirs] at isNo
      dsimp only at isNo
      by_cases isCovered : covers own has = true
      · rw [if_pos isCovered] at isNo
        exact later (ih isNo)
      · exact ⟨(field, own), .head _,
          .inl ⟨has, isTheirs, fun agrees => isCovered (covers_iff.mpr agrees)⟩⟩
    | none =>
      rw [isTheirs] at isNo
      dsimp only at isNo
      by_cases isUntagged : field = .vlanPcp ∧ packet.lookup .vlanVid = some vidNone
      · exact ⟨(field, own), .head _, .inr ⟨isTheirs, isUntagged⟩⟩
      · rw [if_neg isUntagged] at isNo
        exact later (ih isNo)

theorem judgeFields_yes (isYes : judgeFields packet lacking mine = .yes) :
    lacking = none ∧ ∀ entry ∈ mine, ∃ has, theirs packet entry.1 = some has ∧
      Agrees entry.2 has := by
  induction mine generalizing lacking with
  | nil =>
    cases lacking with
    | some field => cases isYes
    | none => exact ⟨rfl, nofun⟩
  | cons entry rest ih =>
    obtain ⟨field, own⟩ := entry
    rw [judgeFields] at isYes
    cases isTheirs : theirs packet field with
    | some has =>
      rw [isTheirs] at isYes
      dsimp only at isYes
      by_cases isCovered : covers own has = true
      · rw [if_pos isCovered] at isYes
        obtain ⟨isNone, others⟩ := ih isYes
        refine ⟨isNone, fun other member => ?_⟩
        rcases mem_cons.mp member with isFirst | isLater
        · rw [isFirst]
          exact ⟨has, isTheirs, covers_iff.mp isCovered⟩
        · exact others other isLater
      · rw [if_neg isCovered] at isYes
        cases isYes
    | none =>
      rw [isTheirs] at isYes
      dsimp only at isYes
      split at isYes
      · cases isYes
      · obtain ⟨isNone, -⟩ := ih isYes
        cases lacking <;> cases isNone

/-! ### A match read -/

omit [Unicode] [Readers] in
theorem mem_setDefault {read : ReadMatch} {own : Field × FieldBits} (needs : List (Field × Int))
    (member : own ∈ needs.foldl (fun read need => setDefault read need.1 need.2) read) :
    own ∈ read ∨ own.1 ∉ read.map Prod.fst ∧
      ∃ need ∈ needs, own = (need.1, .masked (.whole need.2)) := by
  induction needs generalizing read with
  | nil => exact .inl member
  | cons need rest ih =>
    by_cases isIn : need.1 ∈ read.map Prod.fst
    · have isSame : setDefault read need.1 need.2 = read := by
        obtain ⟨entry, inRead, isKey⟩ := mem_map.mp isIn
        exact if_pos (any_eq_true.mpr ⟨entry, inRead, decide_eq_true isKey⟩)
      rw [foldl_cons, isSame] at member
      rcases ih member with old | ⟨isOut, other, isNeed, isOwn⟩
      · exact .inl old
      · exact .inr ⟨isOut, other, .tail _ isNeed, isOwn⟩
    · have isSet : setDefault read need.1 need.2 = read ++ [(need.1, .masked (.whole need.2))] := by
        refine if_neg (fun isAny => isIn ?_)
        obtain ⟨entry, inRead, isKey⟩ := any_eq_true.mp isAny
        exact mem_map.mpr ⟨entry, inRead, of_decide_eq_true isKey⟩
      rw [foldl_cons, isSet] at member
      rcases ih member with before | ⟨isOut, other, isNeed, isOwn⟩
      · rcases mem_append.mp before with old | new
        · exact .inl old
        · have isOwn := mem_singleton.mp new
          rw [isOwn]
          exact .inr ⟨isIn, need, .head _, rfl⟩
      · rw [map_append, mem_append] at isOut
        exact .inr ⟨fun isOld => isOut (.inl isOld), other, mem_cons_of_mem _ isNeed, isOwn⟩

theorem mem_fields (isRead : fields match_ = .ok mine) :
    (∀ entry ∈ match_, ∃ held, bits entry.1 entry.2 = .ok held ∧ (entry.1, held) ∈ mine) ∧
      ∀ own ∈ mine, (∃ entry ∈ match_, entry.1 = own.1 ∧ bits entry.1 entry.2 = .ok own.2) ∨
        ∃ need ∈ leftOut match_, own = (need.1, .masked (.whole need.2)) := by
  obtain ⟨read, direct, rfl⟩ := fields_eq isRead
  obtain ⟨-, forward, backward⟩ := mem_mapM_bits direct
  constructor
  · intro entry member
    obtain ⟨held, isHeld, inRead⟩ := forward entry member
    refine ⟨held, isHeld, ?_⟩
    rw [← foldl_withPrerequisites_eq]
    exact mem_withPrerequisites _ inRead
  · intro own member
    rcases mem_setDefault _ member with inRead | ⟨isOut, need, isNeed, isOwn⟩
    · exact .inl (backward own inRead)
    · refine .inr ⟨need, mem_filter.mpr ⟨isNeed, decide_eq_true ?_⟩, isOwn⟩
      intro isIn
      apply isOut
      obtain ⟨entry, isEntry, isName⟩ := mem_map.mp isIn
      obtain ⟨held, -, inRead⟩ := forward entry isEntry
      rw [isOwn, ← isName]
      exact mem_map_of_mem inRead

/-! ### One flow -/

theorem own_of_theirs {real : Field → Option FieldBits} (completes : Completes packet real)
    {field : Field} {has : FieldBits} (isTheirs : theirs packet field = some has) :
    real field = some has := by
  obtain ⟨value, isValue, isBits⟩ := Option.bind_eq_some_iff.mp isTheirs
  refine completes.own field value has isValue ?_
  cases isRead : bits field value with
  | error why =>
    rw [isRead] at isBits
    cases isBits
  | ok held =>
    rw [isRead] at isBits
    rw [Option.some.inj isBits]

theorem Rejects.not_has {real : Field → Option FieldBits} (completes : Completes packet real)
    (areRead : ∀ field ∈ packet.keys, (theirs packet field).isSome) {own : Field × FieldBits}
    (rejects : Rejects packet own) : ¬ Has real own := by
  rintro ⟨has, isReal, agree⟩
  rcases rejects with ⟨held, isTheirs, disagree⟩ | ⟨isNone, isPcp, isUntagged⟩
  · rw [own_of_theirs completes isTheirs] at isReal
    rw [Option.some.inj isReal] at disagree
    exact disagree agree
  · have isAbsent : packet.lookup .vlanPcp = none := by
      rw [Finmap.lookup_eq_none]
      intro isKey
      have isRead := areRead .vlanPcp (Finmap.mem_keys.mpr isKey)
      rw [← isPcp, isNone] at isRead
      cases isRead
    rw [isPcp, completes.untagged isUntagged isAbsent] at isReal
    cases isReal

theorem judge_no (isNo : judge match_ packet = .no) : ¬ MayTake packet match_ := by
  rintro ⟨real, completes, agrees, implied⟩
  unfold judge at isNo
  cases isRead : fields (tagged match_) with
  | error why =>
    rw [isRead] at isNo
    cases isNo
  | ok mine =>
    rw [isRead] at isNo
    dsimp only at isNo
    split at isNo
    · rename_i areRead
      obtain ⟨own, isOwn, rejects⟩ := judgeFields_no isNo
      apply Rejects.not_has completes areRead rejects
      rcases (mem_fields isRead).2 own isOwn with ⟨entry, member, same, isBits⟩ | isImplied
      · have has := agrees entry member own.2 isBits
        rw [same] at has
        exact has
      · obtain ⟨need, isNeed, isOwn⟩ := isImplied
        rw [isOwn]
        exact implied need isNeed
    · cases isNo

theorem judge_yes (isYes : judge match_ packet = .yes) : Takes packet match_ := by
  intro real completes entry member
  unfold judge at isYes
  cases isRead : fields (tagged match_) with
  | error why =>
    rw [isRead] at isYes
    cases isYes
  | ok mine =>
    rw [isRead] at isYes
    dsimp only at isYes
    split at isYes
    · obtain ⟨held, isHeld, isMine⟩ := (mem_fields isRead).1 entry member
      obtain ⟨has, isTheirs, agree⟩ := (judgeFields_yes isYes).2 _ isMine
      exact ⟨held, isHeld, has, own_of_theirs completes isTheirs, agree⟩
    · cases isYes

/-! ### One table -/

variable {flows rows : List Flow} {table : Int} {f : Flow} {priority : Nat}

theorem selectAt_none (isNone : selectAt packet rows priority = none) :
    ∀ g ∈ rows, g.priority = priority → ¬ MayTake packet g.match_ := by
  intro g member isPriority
  have isHere : g ∈ rows.filter (fun f => f.priority = priority) :=
    mem_filter.mpr ⟨member, decide_eq_true isPriority⟩
  unfold selectAt at isNone
  dsimp only at isNone
  split at isNone
  · cases isNone
  · rename_i noDoubt
    split at isNone
    · rename_i noYes
      refine judge_no ?_
      cases verdict : judge g.match_ packet with
      | no => rfl
      | yes =>
        have isYes : g ∈ (rows.filter (fun f => f.priority = priority)).filter
            (fun f => judge f.match_ packet = .yes) :=
          mem_filter.mpr ⟨isHere, decide_eq_true verdict⟩
        rw [noYes] at isYes
        cases isYes
      | cannot why =>
        have none := List.findSome?_eq_none_iff.mp noDoubt g isHere
        rw [verdict] at none
        cases none
    · split at isNone <;> cases isNone

theorem selectAt_takes (isTaken : selectAt packet rows priority = some (.takes f)) :
    f ∈ rows ∧ f.priority = priority ∧ Takes packet f.match_ ∧
      ∀ g ∈ rows, g.priority = priority → MayTake packet g.match_ → g.actions = f.actions := by
  unfold selectAt at isTaken
  dsimp only at isTaken
  split at isTaken
  · cases isTaken
  · rename_i noDoubt
    split at isTaken
    · cases isTaken
    · rename_i first rest isYes
      split at isTaken
      · rename_i sameActions
        have isFirst : first = f := Selected.takes.inj (Option.some.inj isTaken)
        subst isFirst
        have member : first ∈ (rows.filter (fun f => f.priority = priority)).filter
            (fun f => judge f.match_ packet = .yes) := by
          rw [isYes]
          exact .head _
        obtain ⟨isHere, verdict⟩ := mem_filter.mp member
        obtain ⟨inRows, isPriority⟩ := mem_filter.mp isHere
        refine ⟨inRows, of_decide_eq_true isPriority, judge_yes (of_decide_eq_true verdict), ?_⟩
        intro g inRows isPriority may
        have isHere : g ∈ rows.filter (fun f => f.priority = priority) :=
          mem_filter.mpr ⟨inRows, decide_eq_true isPriority⟩
        cases verdict : judge g.match_ packet with
        | no => exact absurd may (judge_no verdict)
        | cannot why =>
          have none := List.findSome?_eq_none_iff.mp noDoubt g isHere
          rw [verdict] at none
          cases none
        | yes =>
          have member : g ∈ first :: rest := by
            rw [← isYes]
            exact mem_filter.mpr ⟨isHere, decide_eq_true verdict⟩
          rcases mem_cons.mp member with isFirst | isLater
          · rw [isFirst]
          · exact of_decide_eq_true (all_eq_true.mp sameActions g isLater)
      · cases isTaken

/-- **What `select` answers is what OpenFlow's matching says.** A flow it names takes the
packet, and every flow of the table that may take it is of a lower priority, or of the same and
does the same; where it names none and has no doubt, no flow of the table may take it. -/
theorem select_sound :
    (∀ f, select flows table packet = .takes f →
      f ∈ flows ∧ (f.tableId : Int) = table ∧ Takes packet f.match_ ∧
        ∀ g ∈ flows, (g.tableId : Int) = table → MayTake packet g.match_ →
          g.priority ≤ f.priority ∧ (g.priority = f.priority → g.actions = f.actions)) ∧
    (select flows table packet = .miss →
      ∀ g ∈ flows, (g.tableId : Int) = table → ¬ MayTake packet g.match_) := by
  have listed (g : Flow) (member : g ∈ flows) (isTable : (g.tableId : Int) = table) :
      g ∈ flows.filter (fun f => (f.tableId : Int) = table) ∧
        g.priority ∈ ((flows.filter (fun f => (f.tableId : Int) = table)).map
          Flow.priority).dedup.insertionSort (fun one other => other ≤ one) := by
    have inRows : g ∈ flows.filter (fun f => (f.tableId : Int) = table) :=
      List.mem_filter.mpr ⟨member, decide_eq_true isTable⟩
    refine ⟨inRows, (List.perm_insertionSort _ _).mem_iff.mpr (List.mem_dedup.mpr ?_)⟩
    exact List.mem_map_of_mem inRows
  constructor
  · intro f isTaken
    unfold select at isTaken
    dsimp only at isTaken
    cases isFound : (((flows.filter (fun f => (f.tableId : Int) = table)).map
        Flow.priority).dedup.insertionSort (fun one other => other ≤ one)).findSome?
          (selectAt packet (flows.filter (fun f => (f.tableId : Int) = table))) with
    | none =>
      rw [isFound] at isTaken
      cases isTaken
    | some selected =>
      rw [isFound, Option.getD_some] at isTaken
      rw [isTaken] at isFound
      obtain ⟨before, priority, after, isSplit, isHere, isNone⟩ :=
        List.findSome?_eq_some_iff.mp isFound
      obtain ⟨inRows, isPriority, takes, alike⟩ := selectAt_takes isHere
      obtain ⟨isFlow, isTable⟩ := List.mem_filter.mp inRows
      refine ⟨isFlow, of_decide_eq_true isTable, takes, ?_⟩
      intro g member isTable may
      obtain ⟨inRows, inPriorities⟩ := listed g member isTable
      constructor
      · rw [isPriority]
        rw [isSplit] at inPriorities
        rcases List.mem_append.mp inPriorities with isBefore | isAfter
        · exact absurd may (selectAt_none (isNone _ isBefore) g inRows rfl)
        · rcases List.mem_cons.mp isAfter with isSame | isLater
          · exact le_of_eq isSame
          · have sorted := List.pairwise_insertionSort (fun one other => other ≤ one)
              ((flows.filter (fun f => (f.tableId : Int) = table)).map Flow.priority).dedup
            rw [isSplit] at sorted
            exact (List.pairwise_cons.mp (List.pairwise_append.mp sorted).2.1).1 _ isLater
      · intro isSame
        exact alike g inRows (isSame.trans isPriority) may
  · intro isMiss g member isTable may
    obtain ⟨inRows, inPriorities⟩ := listed g member isTable
    unfold select at isMiss
    dsimp only at isMiss
    cases isFound : (((flows.filter (fun f => (f.tableId : Int) = table)).map
        Flow.priority).dedup.insertionSort (fun one other => other ≤ one)).findSome?
          (selectAt packet (flows.filter (fun f => (f.tableId : Int) = table))) with
    | none =>
      have isNone := List.findSome?_eq_none_iff.mp isFound _ inPriorities
      exact selectAt_none isNone g inRows rfl may
    | some selected =>
      rw [isFound, Option.getD_some] at isMiss
      rw [isMiss] at isFound
      obtain ⟨before, priority, after, -, isHere, -⟩ := List.findSome?_eq_some_iff.mp isFound
      unfold selectAt at isHere
      dsimp only at isHere
      split at isHere
      · cases isHere
      · split at isHere
        · cases isHere
        · split at isHere <;> cases isHere

end Judge

end Nmas.Sdn.Trace
