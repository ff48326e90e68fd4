import Nmas.PathTrace.Trace

/-!
Contract: the branches of a trace are the ways the answers give.

Owns:
- the ways from the source under any answers, and why each of them ends;
- what becomes of a branch at its device's answer;
- what a turn of the loop keeps, and that a trace has each way once.
-/

namespace Nmas.PathTrace

open Nmas.Text List

variable {given : Given} {answer : Str → Cef} {hops walk front : List Hop} {hop last : Hop}
  {device owner : Str} {cef : Cef} {way : Active} {end_ : End_} {branch : Branch} {seen : List Str}

/-! ### The ways the answers give -/

/-- The device of a hop holds the destination: it says so, or its intent does. -/
def Given.Holds (given : Given) (hop : Hop) : Prop :=
  hop.answer.state = .receive ∨ (given.destOwner ≠ [] ∧ given.destOwner = hop.device)

structure Hop.Takes (given : Given) (hop : Hop) (owner : Str) : Prop where
  passes : ¬ given.Holds hop
  isNext : hop.answer.state = .next
  among : ∃ next ∈ hop.answer.hops, given.ownerOf next.address = owner ∧
    hop.leaves = some ⟨owner, next.address, next.iface⟩

structure Hop.GoesOn (given : Given) (seen : List Str) (hop : Hop) (owner : Str) : Prop where
  takes : hop.Takes given owner
  isHeld : owner ≠ []
  notThere : owner ≠ given.destOwner
  isNew : owner ∉ seen
  isManaged : given.managed owner = true

/-- The ways from the source, each hop as its device answers, and the device
each comes to. -/
inductive Reaches (given : Given) (answer : Str → Cef) : List Hop → Str → Prop where
  | source : Reaches given answer [] given.source
  | onward (hops : List Hop) (hop : Hop) (owner : Str) (way : Reaches given answer hops hop.device)
      (isAnswer : hop.answer = answer hop.device)
      (goesOn : hop.GoesOn given ((hops ++ [hop]).map (·.device)) owner) :
      Reaches given answer (hops ++ [hop]) owner

/-- Why a way ends at a hop: what its device answers, or where its next hop is. -/
inductive Hop.Ends (given : Given) (seen : List Str) (hop : Hop) : End_ → Prop where
  | unread (isUnread : hop.answer.state = .unread) (stays : hop.leaves = none) :
      Hop.Ends given seen hop .unread
  | unknown (passes : ¬ given.Holds hop) (isUnknown : hop.answer.state = .unknown)
      (stays : hop.leaves = none) : Hop.Ends given seen hop .unread
  | holds (isRead : hop.answer.state ≠ .unread) (holds : given.Holds hop)
      (stays : hop.leaves = none) : Hop.Ends given seen hop .delivered
  | attached (passes : ¬ given.Holds hop) (isAttached : hop.answer.state = .attached)
      (onto : hop.leaves = some ⟨given.destOwner, given.dest, hop.answer.iface⟩) :
      Hop.Ends given seen hop .delivered
  | dropped (passes : ¬ given.Holds hop)
      (isDropped : hop.answer.state = .noRoute ∨ hop.answer.state = .drop)
      (stays : hop.leaves = none) : Hop.Ends given seen hop .dropped
  | nobody (takes : hop.Takes given []) : Hop.Ends given seen hop .edge
  | arrives (takes : hop.Takes given given.destOwner) (isHeld : given.destOwner ≠ []) :
      Hop.Ends given seen hop .delivered
  | loop (owner : Str) (takes : hop.Takes given owner) (isHeld : owner ≠ [])
      (notThere : owner ≠ given.destOwner) (isSeen : owner ∈ seen) : Hop.Ends given seen hop .loop
  | outside (owner : Str) (takes : hop.Takes given owner) (isHeld : owner ≠ [])
      (notThere : owner ≠ given.destOwner) (isNew : owner ∉ seen)
      (notManaged : given.managed owner = false) : Hop.Ends given seen hop .edge

def Maximal (given : Given) (answer : Str → Cef) (walk : List Hop) (end_ : End_) : Prop :=
  ∃ front last, walk = front ++ [last] ∧ Reaches given answer front last.device ∧
    last.answer = answer last.device ∧ last.Ends given (walk.map (·.device)) end_

theorem Hop.GoesOn.not_ends (goesOn : hop.GoesOn given seen owner) :
    ¬ hop.Ends given seen end_ := by
  have isNext := goesOn.takes.isNext
  obtain ⟨next, isNextHop, isOwner, leaves⟩ := goesOn.takes.among
  have same : ∀ {other : Str}, hop.Takes given other → other = owner := by
    intro other takes
    obtain ⟨further, _, _, alsoLeaves⟩ := takes.among
    rw [leaves, Option.some_inj, Leaves.mk.injEq] at alsoLeaves
    exact alsoLeaves.1.symm
  intro ends
  cases ends with
  | unread isUnread _ =>
    rw [isNext] at isUnread
    cases isUnread
  | unknown _ isUnknown _ =>
    rw [isNext] at isUnknown
    cases isUnknown
  | holds _ holds _ => exact goesOn.takes.passes holds
  | attached _ isAttached _ =>
    rw [isNext] at isAttached
    cases isAttached
  | dropped _ isDropped _ =>
    rw [isNext] at isDropped
    rcases isDropped with isDropped | isDropped <;> cases isDropped
  | nobody takes => exact goesOn.isHeld (same takes).symm
  | arrives takes _ => exact goesOn.notThere (same takes).symm
  | loop other takes _ _ isSeen =>
    rw [same takes] at isSeen
    exact goesOn.isNew isSeen
  | outside other takes _ _ _ notManaged =>
    rw [same takes, goesOn.isManaged] at notManaged
    cases notManaged

theorem Reaches.nodup (reaches : Reaches given answer hops device) :
    (hops.map (·.device) ++ [device]).Nodup := by
  induction reaches with
  | source => exact nodup_singleton _
  | onward hops hop owner way isAnswer goesOn ih =>
    rw [map_append, map_singleton]
    refine nodup_append.mpr ⟨ih, nodup_singleton _, ?_⟩
    intro one isOne other isOther same
    rw [mem_singleton.mp isOther] at same
    apply goesOn.isNew
    rw [map_append, map_singleton, ← same]
    exact isOne

theorem Reaches.unique {other : Str} (reaches : Reaches given answer hops device)
    (also : Reaches given answer hops other) : device = other := by
  cases reaches with
  | source =>
    generalize isEmpty : ([] : List Hop) = hops at also
    cases also with
    | source => rfl
    | onward hops hop owner way isAnswer goesOn => simp at isEmpty
  | onward hops hop owner way isAnswer goesOn =>
    generalize isWhole : hops ++ [hop] = whole at also
    cases also with
    | source => simp at isWhole
    | onward others last other alsoWay alsoAnswer alsoOn =>
      obtain ⟨-, rfl⟩ := append_inj' isWhole rfl |>.imp id singleton_inj.mp
      obtain ⟨one, _, _, leaves⟩ := goesOn.takes.among
      obtain ⟨another, _, _, alsoLeaves⟩ := alsoOn.takes.among
      rw [leaves, Option.some_inj, Leaves.mk.injEq] at alsoLeaves
      exact alsoLeaves.1

theorem Reaches.of_prefix (reaches : Reaches given answer hops device) (part : front <+: hops) :
    ∃ device, Reaches given answer front device := by
  induction reaches with
  | source =>
    rw [prefix_nil.mp part]
    exact ⟨_, .source⟩
  | onward hops hop owner way isAnswer goesOn ih =>
    rcases prefix_concat_iff.mp part with isWhole | isPart
    · rw [isWhole]
      exact ⟨owner, .onward hops hop owner way isAnswer goesOn⟩
    · exact ih isPart

theorem Maximal.behind (maximal : Maximal given answer walk end_)
    (reaches : Reaches given answer hops device) (part : hops <+: walk) :
    ∃ hop, hop.device = device ∧ hop.answer = answer device ∧ hops ++ [hop] <+: walk ∧
      ((hops ++ [hop] = walk ∧ hop.Ends given ((hops ++ [hop]).map (·.device)) end_) ∨
        ∃ owner, hop.GoesOn given ((hops ++ [hop]).map (·.device)) owner) := by
  obtain ⟨front, last, rfl, way, isAnswer, ends⟩ := maximal
  rcases prefix_concat_iff.mp part with isWhole | isPart
  · exfalso
    subst isWhole
    generalize isThere : front ++ [last] = whole at reaches
    cases reaches with
    | source => simp at isThere
    | onward hops hop owner alsoWay alsoAnswer goesOn =>
      obtain ⟨rfl, rfl⟩ := append_inj' isThere rfl |>.imp id singleton_inj.mp
      exact goesOn.not_ends ends
  · by_cases isAll : hops = front
    · subst isAll
      have isDevice := way.unique reaches
      subst isDevice
      exact ⟨last, rfl, isAnswer, prefix_rfl, .inl ⟨rfl, ends⟩⟩
    · obtain ⟨rest, isFront⟩ := isPart
      cases rest with
      | nil => exact absurd (by rw [← isFront, append_nil]) isAll
      | cons hop rest =>
        have upTo : hops ++ [hop] <+: front := ⟨rest, by rw [← isFront, append_assoc]; rfl⟩
        obtain ⟨owner, further⟩ := way.of_prefix upTo
        generalize isThere : hops ++ [hop] = whole at further
        cases further with
        | source => simp at isThere
        | onward others other owner alsoWay alsoAnswer goesOn =>
          obtain ⟨rfl, rfl⟩ := append_inj' isThere rfl |>.imp id singleton_inj.mp
          have isDevice := alsoWay.unique reaches
          subst isDevice
          exact ⟨hop, rfl, alsoAnswer, upTo.trans (prefix_append _ _), .inr ⟨owner, goesOn⟩⟩

/-! ### What becomes of a branch -/

def hopsOf : Branch ⊕ Active → List Hop
  | .inl branch => branch.hops
  | .inr way => way.hops

def Branch.covers (walk : List Hop) (end_ : End_) (branch : Branch) : Bool :=
  if branch.end_ = .bounded then branch.hops <+: walk else branch = ⟨walk, end_⟩

/-- What becomes of a branch may still become the way. -/
def covers (walk : List Hop) (end_ : End_) : Branch ⊕ Active → Bool
  | .inl branch => branch.covers walk end_
  | .inr way => way.hops <+: walk

def BecomesOf (given : Given) (way : Active) (hop : Hop) : Branch ⊕ Active → Prop
  | .inl branch => branch.hops = way.hops ++ [hop] ∧
      (hop.Ends given way.seen branch.end_ ∨
        branch.end_ = .bounded ∧ maxHops ≤ branch.hops.length ∧
          ∃ owner, hop.GoesOn given way.seen owner)
  | .inr next => next.hops = way.hops ++ [hop] ∧ next.hops.length < maxHops ∧
      hop.GoesOn given way.seen next.at_ ∧ next.seen = way.seen ++ [next.at_]

def Active.hopTo (given : Given) (cef : Cef) (way : Active) (next : NextHop) : Hop :=
  ⟨way.at_, cef, some ⟨given.ownerOf next.address, next.address, next.iface⟩⟩

theorem hopsOf_toward (next : NextHop) :
    hopsOf (way.toward given cef next) = way.hops ++ [way.hopTo given cef next] := by
  unfold Active.toward
  dsimp only
  repeat' split
  all_goals rfl

theorem toward_becomes {next : NextHop} (passes : ¬ given.Holds (way.hopTo given cef next))
    (isNext : cef.state = .next) (isHop : next ∈ cef.hops) :
    BecomesOf given way (way.hopTo given cef next) (way.toward given cef next) := by
  have takes : (way.hopTo given cef next).Takes given (given.ownerOf next.address) :=
    ⟨passes, isNext, next, isHop, rfl, rfl⟩
  unfold Active.toward
  dsimp only
  split
  · rename_i isNobody
    rw [isNobody] at takes
    exact ⟨by rw [Active.hopTo, isNobody], .inl (.nobody takes)⟩
  · rename_i isHeld
    split
    · rename_i isThere
      rw [isThere] at takes isHeld
      exact ⟨by rw [Active.hopTo, isThere], .inl (.arrives takes isHeld)⟩
    · rename_i notThere
      split
      · exact ⟨rfl, .inl (.loop _ takes isHeld notThere ‹_›)⟩
      · rename_i isNew
        split
        · rename_i notManaged
          exact ⟨rfl, .inl (.outside _ takes isHeld notThere isNew (by simpa using notManaged))⟩
        · rename_i isManaged
          have goesOn : (way.hopTo given cef next).GoesOn given way.seen
              (given.ownerOf next.address) :=
            ⟨takes, isHeld, notThere, isNew, by simpa using isManaged⟩
          split
          · exact ⟨rfl, .inr ⟨rfl, ‹_›, _, goesOn⟩⟩
          · exact ⟨rfl, Nat.lt_of_not_le ‹_›, goesOn, rfl⟩

theorem goes_becomes {after : Branch ⊕ Active} (isAfter : after ∈ way.goes given cef) :
    ∃ hop, hop.device = way.at_ ∧ hop.answer = cef ∧ BecomesOf given way hop after := by
  unfold Active.goes at isAfter
  dsimp only at isAfter
  split at isAfter
  · rename_i isUnread
    rw [mem_singleton.mp isAfter]
    exact ⟨⟨way.at_, cef, none⟩, rfl, rfl, rfl, .inl (.unread isUnread rfl)⟩
  · rename_i isRead
    split at isAfter
    · rename_i holds
      rw [mem_singleton.mp isAfter]
      exact ⟨⟨way.at_, cef, none⟩, rfl, rfl, rfl, .inl (.holds isRead holds rfl)⟩
    · rename_i passes
      have passesAt (leaves : Option Leaves) : ¬ given.Holds ⟨way.at_, cef, leaves⟩ := passes
      split at isAfter
      · rename_i isAttached
        rw [mem_singleton.mp isAfter]
        exact ⟨⟨way.at_, cef, _⟩, rfl, rfl, rfl, .inl (.attached (passesAt _) isAttached rfl)⟩
      · rename_i isNoRoute
        rw [mem_singleton.mp isAfter]
        exact ⟨⟨way.at_, cef, none⟩, rfl, rfl, rfl,
          .inl (.dropped (passesAt _) (.inl isNoRoute) rfl)⟩
      · rename_i isDrop
        rw [mem_singleton.mp isAfter]
        exact ⟨⟨way.at_, cef, none⟩, rfl, rfl, rfl, .inl (.dropped (passesAt _) (.inr isDrop) rfl)⟩
      · rename_i isNext
        obtain ⟨next, isHop, rfl⟩ := mem_map.mp isAfter
        exact ⟨way.hopTo given cef next, rfl, rfl, toward_becomes (passesAt _) isNext isHop⟩
      · rename_i notAttached notNoRoute notDrop notNext
        rw [mem_singleton.mp isAfter]
        have isUnknown : cef.state = .unknown := by
          cases isState : cef.state with
          | unknown => rfl
          | unread => exact absurd isState isRead
          | receive => exact absurd (.inl isState) passes
          | attached => exact absurd isState notAttached
          | noRoute => exact absurd isState notNoRoute
          | drop => exact absurd isState notDrop
          | next => exact absurd isState notNext
        exact ⟨⟨way.at_, cef, none⟩, rfl, rfl, rfl, .inl (.unknown (passesAt _) isUnknown rfl)⟩

/-- Answers whose next hops differ, and are there where the answer is to go on. -/
structure Cef.Plain (cef : Cef) : Prop where
  nodup : cef.hops.Nodup
  some_ : cef.state = .next → cef.hops ≠ []

theorem hopTo_inj {one other : NextHop}
    (same : way.hopTo given cef one = way.hopTo given cef other) : one = other := by
  obtain ⟨address, iface⟩ := one
  obtain ⟨otherAddress, otherIface⟩ := other
  simp only [Active.hopTo, Hop.mk.injEq, Option.some_inj, Leaves.mk.injEq, true_and] at same
  rw [same.2.1, same.2.2]

theorem nodup_goes (plain : cef.Plain) : ((way.goes given cef).map hopsOf).Nodup := by
  unfold Active.goes
  dsimp only
  split
  · exact nodup_singleton _
  · split
    · exact nodup_singleton _
    · split
      · exact nodup_singleton _
      · exact nodup_singleton _
      · exact nodup_singleton _
      · rw [map_map]
        refine plain.nodup.map ?_
        intro one other same
        simp only [Function.comp_apply, hopsOf_toward, append_cancel_left_eq,
          List.cons.injEq, and_true] at same
        exact hopTo_inj same
      · exact nodup_singleton _

theorem goes_ne_nil (plain : cef.Plain) : way.goes given cef ≠ [] := by
  unfold Active.goes
  dsimp only
  split
  · exact cons_ne_nil _ _
  · split
    · exact cons_ne_nil _ _
    · split
      · exact cons_ne_nil _ _
      · exact cons_ne_nil _ _
      · exact cons_ne_nil _ _
      · rename_i isNext
        simpa using plain.some_ isNext
      · exact cons_ne_nil _ _

theorem Hop.Ends.not_bounded (ends : hop.Ends given seen end_) : end_ ≠ .bounded := by
  cases ends <;> exact nofun

theorem toward_mem (isDevice : hop.device = way.at_) (takes : hop.Takes given owner) :
    ∃ next ∈ hop.answer.hops, way.toward given hop.answer next ∈ way.goes given hop.answer ∧
      given.ownerOf next.address = owner ∧
      way.hops ++ [hop] = way.hops ++ [way.hopTo given hop.answer next] := by
  obtain ⟨next, isHop, isOwner, leaves⟩ := takes.among
  refine ⟨next, isHop, ?_, isOwner, ?_⟩
  · have passes : ¬ (hop.answer.state = .receive ∨
        (given.destOwner ≠ [] ∧ given.destOwner = way.at_)) := by
      rw [← isDevice]
      exact takes.passes
    have isRead : hop.answer.state ≠ .unread := by
      rw [takes.isNext]
      exact nofun
    unfold Active.goes
    dsimp only
    rw [if_neg isRead, if_neg passes, takes.isNext]
    exact mem_map_of_mem isHop
  · obtain ⟨device, cef, leaves_⟩ := hop
    dsimp only at leaves isDevice
    rw [Active.hopTo, isOwner, leaves, isDevice]

theorem Hop.Ends.mem_goes (ends : hop.Ends given way.seen end_) (isDevice : hop.device = way.at_) :
    .inl ⟨way.hops ++ [hop], end_⟩ ∈ way.goes given hop.answer := by
  have stands {leaves : Option Leaves} (isLeaves : hop.leaves = leaves) :
      hop = ⟨way.at_, hop.answer, leaves⟩ := by
    rw [← isDevice, ← isLeaves]
  have passesHere (passes : ¬ given.Holds hop) : ¬ (hop.answer.state = .receive ∨
      (given.destOwner ≠ [] ∧ given.destOwner = way.at_)) := by
    rw [← isDevice]
    exact passes
  cases ends with
  | unread isUnread stays =>
    unfold Active.goes
    dsimp only
    rw [if_pos isUnread, ← stands stays]
    exact .head _
  | unknown passes isUnknown stays =>
    unfold Active.goes
    dsimp only
    rw [if_neg (by rw [isUnknown]; exact nofun),
      if_neg (passesHere passes), isUnknown, ← stands stays]
    exact .head _
  | holds isRead holds stays =>
    unfold Active.goes
    dsimp only
    rw [if_neg isRead, if_pos (by rw [← isDevice]; exact holds), ← stands stays]
    exact .head _
  | attached passes isAttached onto =>
    unfold Active.goes
    dsimp only
    rw [if_neg (by rw [isAttached]; exact nofun),
      if_neg (passesHere passes), isAttached, ← stands onto]
    exact .head _
  | dropped passes isDropped stays =>
    unfold Active.goes
    dsimp only
    rcases isDropped with isDropped | isDropped
    · rw [if_neg (by rw [isDropped]; exact nofun),
        if_neg (passesHere passes), isDropped, ← stands stays]
      exact .head _
    · rw [if_neg (by rw [isDropped]; exact nofun),
        if_neg (passesHere passes), isDropped, ← stands stays]
      exact .head _
  | nobody takes =>
    obtain ⟨next, isHop, isMem, isOwner, isHere⟩ := toward_mem isDevice takes
    simpa [Active.toward, isOwner, isHere, Active.hopTo] using isMem
  | arrives takes isHeld =>
    obtain ⟨next, isHop, isMem, isOwner, isHere⟩ := toward_mem isDevice takes
    simpa [Active.toward, isOwner, isHere, Active.hopTo, isHeld] using isMem
  | loop owner takes isHeld notThere isSeen =>
    obtain ⟨next, isHop, isMem, isOwner, isHere⟩ := toward_mem isDevice takes
    simpa [Active.toward, isOwner, isHere, Active.hopTo, isHeld, notThere, isSeen] using isMem
  | outside owner takes isHeld notThere isNew notManaged =>
    obtain ⟨next, isHop, isMem, isOwner, isHere⟩ := toward_mem isDevice takes
    simpa [Active.toward, isOwner, isHere, Active.hopTo, isHeld, notThere, isNew, notManaged]
      using isMem

theorem Hop.GoesOn.mem_goes (goesOn : hop.GoesOn given way.seen owner)
    (isDevice : hop.device = way.at_) :
    .inl ⟨way.hops ++ [hop], .bounded⟩ ∈ way.goes given hop.answer ∨
      .inr ⟨way.hops ++ [hop], owner, way.seen ++ [owner]⟩ ∈ way.goes given hop.answer := by
  obtain ⟨next, isHop, isMem, isOwner, isHere⟩ := toward_mem isDevice goesOn.takes
  by_cases isLong : maxHops ≤ (way.hops ++ [hop]).length
  · left
    rw [isHere, Active.hopTo, isOwner] at isLong ⊢
    simpa only [Active.toward, isOwner, if_neg goesOn.isHeld,
      if_neg goesOn.notThere, if_neg goesOn.isNew, goesOn.isManaged, Bool.not_true,
      Bool.false_eq_true, if_false, if_pos isLong] using isMem
  · right
    rw [isHere, Active.hopTo, isOwner] at isLong ⊢
    simpa only [Active.toward, isOwner, if_neg goesOn.isHeld,
      if_neg goesOn.notThere, if_neg goesOn.isNew, goesOn.isManaged, Bool.not_true,
      Bool.false_eq_true, if_false, if_neg isLong] using isMem

theorem isPrefix_of_covers {one : Branch ⊕ Active} (isCovered : covers walk end_ one) :
    hopsOf one <+: walk := by
  cases one with
  | inl branch =>
    simp only [covers, Branch.covers] at isCovered
    by_cases isCut : branch.end_ = .bounded
    · rw [if_pos isCut] at isCovered
      exact of_decide_eq_true isCovered
    · rw [if_neg isCut] at isCovered
      have isWhole : branch = ⟨walk, end_⟩ := of_decide_eq_true isCovered
      rw [isWhole]
      exact prefix_rfl
  | inr way => exact of_decide_eq_true isCovered

theorem countP_eq_one {α β : Type} {all : List α} {key : α → β} {test : α → Bool} {one : α}
    (nodup : (all.map key).Nodup) (isOne : one ∈ all) (passes : test one)
    (only : ∀ other ∈ all, test other → key other = key one) : all.countP test = 1 := by
  induction all with
  | nil => cases isOne
  | cons first rest ih =>
    obtain ⟨notFirst, others⟩ := nodup_cons.mp nodup
    rcases mem_cons.mp isOne with rfl | isLater
    · rw [countP_cons_of_pos passes, countP_eq_zero.mpr]
      intro other isOther alsoPasses
      apply notFirst
      rw [← only other (.tail _ isOther) alsoPasses]
      exact mem_map_of_mem isOther
    · have notPasses : ¬ test first := by
        intro alsoPasses
        apply notFirst
        rw [only first mem_cons_self alsoPasses]
        exact mem_map_of_mem isLater
      rw [countP_cons_of_neg notPasses]
      exact ih others isLater (fun other isOther => only other (.tail _ isOther))

/-- A branch that is a way from the source under some answers. -/
structure Active.Stands (given : Given) (answer : Str → Cef) (way : Active) : Prop where
  reaches : Reaches given answer way.hops way.at_
  seen : way.seen = way.hops.map (·.device) ++ [way.at_]

theorem countP_goes (stands : way.Stands given answer) (plain : (answer way.at_).Plain)
    (maximal : Maximal given answer walk end_) :
    (way.goes given (answer way.at_)).countP (covers walk end_) =
      if way.hops <+: walk then 1 else 0 := by
  have grows {after : Branch ⊕ Active} (isAfter : after ∈ way.goes given (answer way.at_)) :
      ∃ hop, hopsOf after = way.hops ++ [hop] := by
    obtain ⟨hop, -, -, becomes⟩ := goes_becomes isAfter
    cases after with
    | inl branch | inr next => exact ⟨hop, becomes.1⟩
  split
  · rename_i isPart
    obtain ⟨hop, isDevice, isAnswer, upTo, goes⟩ := maximal.behind stands.reaches isPart
    have isSeen : (way.hops ++ [hop]).map (·.device) = way.seen := by
      rw [stands.seen, map_append, map_singleton, isDevice]
    rw [isSeen] at goes
    have only : ∀ other ∈ way.goes given (answer way.at_), covers walk end_ other →
        hopsOf other = way.hops ++ [hop] := by
      intro other isOther isCovered
      obtain ⟨last, isLast⟩ := grows isOther
      have isPart := isPrefix_of_covers isCovered
      refine (prefix_of_prefix_length_le isPart upTo ?_).eq_of_length ?_
      · simp [isLast]
      · simp [isLast]
    rw [← isAnswer] at only plain ⊢
    rcases goes with ⟨isWhole, ends⟩ | ⟨owner, goesOn⟩
    · refine countP_eq_one (nodup_goes plain) (ends.mem_goes isDevice) ?_ only
      show Branch.covers walk end_ ⟨_, end_⟩ = true
      rw [Branch.covers, if_neg ends.not_bounded, isWhole]
      exact decide_eq_true rfl
    · rcases goesOn.mem_goes isDevice with isCut | isFollowed
      · refine countP_eq_one (nodup_goes plain) isCut ?_ only
        exact decide_eq_true upTo
      · refine countP_eq_one (nodup_goes plain) isFollowed ?_ only
        exact decide_eq_true upTo
  · rename_i notPart
    rw [countP_eq_zero]
    intro other isOther isCovered
    obtain ⟨last, isLast⟩ := grows isOther
    have upTo := isPrefix_of_covers isCovered
    rw [isLast] at upTo
    exact notPart ((prefix_append _ _).trans upTo)

end Nmas.PathTrace
