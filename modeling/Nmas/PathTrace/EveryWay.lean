import Mathlib.Data.List.Dedup
import Nmas.PathTrace.Ways

/-!
Contract: a trace has every way packets go, once, and no other.

Owns:
- what a turn of the loop asks, and what it makes of the branches;
- what holds at every turn, and that the loop ends;
- the trace against the maximal ways under every answers like those it got.
-/

namespace Nmas.PathTrace

open Nmas.Text List

section Parsed

variable [Readers] {cef : Cef} {line text device : Str}

/-- An answer being read: its next hops differ, and it is not yet to go on. -/
def Cef.Reading (cef : Cef) : Prop := cef.hops.Nodup ∧ cef.state ≠ .next

theorem Cef.Reading.readLine (reading : cef.Reading) : (cef.readLine line).Reading := by
  obtain ⟨nodup, notNext⟩ := reading
  have still (state : CefState) (iface : Str) (isOther : state ≠ .next) :
      Cef.Reading ⟨state, cef.hops, iface⟩ := ⟨nodup, isOther⟩
  unfold Cef.readLine
  dsimp only
  split
  · split
    · exact ⟨nodup, notNext⟩
    · split
      · exact ⟨nodup, notNext⟩
      · rename_i isNew
        refine ⟨nodup_append.mpr ⟨nodup, nodup_singleton _, ?_⟩, notNext⟩
        intro one isOne other isOther same
        rw [mem_singleton.mp isOther] at same
        rw [same] at isOne
        exact isNew isOne
  · split
    · exact still _ _ nofun
    · split
      · exact still _ _ nofun
      · split
        · exact still _ _ nofun
        · split
          · exact still _ _ nofun
          · exact ⟨nodup, notNext⟩

theorem Cef.Reading.foldl (lines : List Str) (reading : cef.Reading) :
    (lines.foldl Cef.readLine cef).Reading := by
  induction lines generalizing cef with
  | nil => exact reading
  | cons line lines ih => exact ih reading.readLine

theorem plain_parseCef : (parseCef text).Plain := by
  have nothing : Cef.Plain ⟨.unknown, [], []⟩ := ⟨nodup_nil, nofun⟩
  unfold parseCef
  split
  · exact nothing
  · split
    · exact nothing
    · rename_i rest _ _
      have reading : Cef.Reading ((rest.map rstrip).foldl Cef.readLine ⟨.unknown, [], []⟩) :=
        Cef.Reading.foldl _ ⟨nodup_nil, nofun⟩
      dsimp only
      split
      · rename_i isNext
        exact ⟨reading.1, fun _ => isNext.1⟩
      · exact ⟨reading.1, fun isNext => absurd isNext reading.2⟩

theorem plain_answerOf (got : Str → Option Str) : (answerOf got device).Plain := by
  unfold answerOf
  split
  · exact plain_parseCef
  · exact ⟨nodup_nil, nofun⟩

end Parsed

variable {given : Given} {answer : Str → Cef} {walk : List Hop} {end_ : End_} {device : Str}
  {level : Level} {branches turns : Nat}

/-! ### The branches of a turn -/

/-- A branch is a maximal way, ended as it ends, or a way cut at a bound. -/
structure Branch.Follows (given : Given) (answer : Str → Cef) (branches : Nat) (branch : Branch) :
    Prop where
  ends : branch.end_ ≠ .bounded → Maximal given answer branch.hops branch.end_
  cut : branch.end_ = .bounded → (∃ owner, Reaches given answer branch.hops owner) ∧
    (maxHops ≤ branch.hops.length ∨ maxBranches < branches)

theorem Branch.Follows.mono {more : Nat} {branch : Branch}
    (follows : branch.Follows given answer branches) (isMore : branches ≤ more) :
    branch.Follows given answer more where
  ends := follows.ends
  cut isCut := ⟨(follows.cut isCut).1, (follows.cut isCut).2.imp id (·.trans_le isMore)⟩

/-- What the branches of a level are, under some answers. -/
structure Level.Exact (given : Given) (answer : Str → Cef) (level : Level) : Prop where
  stands : ∀ way ∈ level.active, way.Stands given answer
  ended : ∀ branch ∈ level.done,
    branch.Follows given answer (level.done.length + level.active.length)
  each : ∀ walk end_, Maximal given answer walk end_ →
    level.done.countP (·.covers walk end_) + level.active.countP (·.hops <+: walk) = 1

theorem countP_sides (all : List (Branch ⊕ Active)) :
    all.countP (covers walk end_) = (all.filterMap Sum.getLeft?).countP (·.covers walk end_) +
      (all.filterMap Sum.getRight?).countP (·.hops <+: walk) := by
  induction all with
  | nil => rfl
  | cons one rest ih =>
    cases one with
    | inl branch =>
      simp only [countP_cons, ih, filterMap_cons, Sum.getLeft?, Sum.getRight?, covers]
      exact Nat.add_right_comm _ _ _
    | inr way =>
      simp only [countP_cons, ih, filterMap_cons, Sum.getLeft?, Sum.getRight?, covers]
      exact Nat.add_assoc _ _ _

theorem length_sides (all : List (Branch ⊕ Active)) :
    all.length = (all.filterMap Sum.getLeft?).length + (all.filterMap Sum.getRight?).length := by
  induction all with
  | nil => rfl
  | cons one rest ih =>
    cases one with
    | inl branch | inr way =>
      simp only [length_cons, ih, filterMap_cons, Sum.getLeft?, Sum.getRight?]
      omega

/-- The branches of a level have answers, as the ways take them. -/
structure Level.Answered (answer : Str → Cef) (level : Level) : Prop where
  given : ∀ way ∈ level.active, level.answers way.at_ = some (answer way.at_)
  plain : ∀ way ∈ level.active, (answer way.at_).Plain

theorem mem_goes_iff (answered : level.Answered answer) {after : Branch ⊕ Active} :
    after ∈ level.goes given ↔ ∃ way ∈ level.active, after ∈ way.goes given (answer way.at_) := by
  unfold Level.goes
  rw [mem_flatMap]
  constructor
  · rintro ⟨way, isActive, isAfter⟩
    rw [answered.given way isActive] at isAfter
    exact ⟨way, isActive, isAfter⟩
  · rintro ⟨way, isActive, isAfter⟩
    refine ⟨way, isActive, ?_⟩
    rw [answered.given way isActive]
    exact isAfter

theorem countP_goes_level (exact_ : level.Exact given answer) (answered : level.Answered answer)
    (maximal : Maximal given answer walk end_) :
    (level.goes given).countP (covers walk end_) = level.active.countP (·.hops <+: walk) := by
  obtain ⟨stands, -, -⟩ := exact_
  obtain ⟨isGiven, plain⟩ := answered
  unfold Level.goes
  generalize level.active = active at stands isGiven plain
  induction active with
  | nil => rfl
  | cons way rest ih =>
    have here := countP_goes (stands way (.head _)) (plain way (.head _)) maximal
    rw [flatMap_cons, countP_append, isGiven way mem_cons_self, Option.getD_some,
      here, ih
        (fun other isOther => stands other (.tail _ isOther))
        (fun other isOther => isGiven other (.tail _ isOther))
        (fun other isOther => plain other (.tail _ isOther)),
      countP_cons, Nat.add_comm]
    simp only [decide_eq_true_eq]

theorem length_active_le (answered : level.Answered answer) :
    level.active.length ≤ (level.goes given).length := by
  obtain ⟨isGiven, plain⟩ := answered
  unfold Level.goes
  generalize level.active = active at isGiven plain
  induction active with
  | nil => exact Nat.zero_le _
  | cons way rest ih =>
    have some_ : 0 < (way.goes given (answer way.at_)).length :=
      length_pos_of_ne_nil (goes_ne_nil (plain way (.head _)))
    have others := ih
      (fun other isOther => isGiven other (.tail _ isOther))
      (fun other isOther => plain other (.tail _ isOther))
    rw [flatMap_cons, length_append, length_cons,
      isGiven way (.head _), Option.getD_some]
    omega

theorem Active.Stands.next {way next : Active} (stands : way.Stands given answer)
    (isNext : .inr next ∈ way.goes given (answer way.at_)) : next.Stands given answer := by
  obtain ⟨hop, isDevice, isAnswer, isHops, -, goesOn, isSeen⟩ := goes_becomes isNext
  have seen : way.seen = (way.hops ++ [hop]).map (·.device) := by
    rw [stands.seen, map_append, map_singleton, isDevice]
  constructor
  · rw [isHops]
    rw [seen] at goesOn
    exact .onward way.hops hop next.at_ (by rw [isDevice]; exact stands.reaches)
      (by rw [isAnswer, isDevice]) goesOn
  · rw [isSeen, isHops, seen]

theorem Active.Stands.ends {way : Active} {branch : Branch} (stands : way.Stands given answer)
    (isEnd : .inl branch ∈ way.goes given (answer way.at_)) :
    branch.Follows given answer branches := by
  obtain ⟨hop, isDevice, isAnswer, isHops, becomes⟩ := goes_becomes isEnd
  have seen : way.seen = branch.hops.map (·.device) := by
    rw [stands.seen, isHops, map_append, map_singleton, isDevice]
  have reaches : Reaches given answer way.hops hop.device := by
    rw [isDevice]
    exact stands.reaches
  have isOwn : hop.answer = answer hop.device := by rw [isAnswer, isDevice]
  rw [seen] at becomes
  rcases becomes with ends | ⟨isCut, isLong, owner, goesOn⟩
  · exact ⟨fun _ => ⟨way.hops, hop, isHops, reaches, isOwn, ends⟩,
      fun isCut => absurd isCut ends.not_bounded⟩
  · refine ⟨fun notCut => absurd isCut notCut, fun _ => ⟨⟨owner, ?_⟩, .inl isLong⟩⟩
    rw [isHops] at goesOn ⊢
    exact .onward way.hops hop owner reaches isOwn goesOn

theorem mem_left_iff {all : List (Branch ⊕ Active)} {branch : Branch} :
    branch ∈ all.filterMap Sum.getLeft? ↔ .inl branch ∈ all := by
  simp [mem_filterMap, Sum.getLeft?_eq_some_iff]

theorem mem_right_iff {all : List (Branch ⊕ Active)} {way : Active} :
    way ∈ all.filterMap Sum.getRight? ↔ .inr way ∈ all := by
  simp [mem_filterMap, Sum.getRight?_eq_some_iff]

theorem length_follow :
    (level.follow given).done.length + (level.follow given).active.length =
      level.done.length + (level.goes given).length := by
  rw [length_sides (level.goes given)]
  simp only [Level.follow, length_append, length_map, length_take, length_drop]
  omega

/-- **A turn keeps each way in one branch.** -/
theorem Level.Exact.follow (exact_ : level.Exact given answer) (answered : level.Answered answer) :
    (level.follow given).Exact given answer := by
  have isMore : level.active.length ≤ (level.goes given).length := length_active_le answered
  have followed : ∀ way ∈ (level.goes given).filterMap Sum.getRight?, way.Stands given answer := by
    intro way isNext
    obtain ⟨before, isActive, isGoes⟩ := (mem_goes_iff answered).mp (mem_right_iff.mp isNext)
    exact (exact_.stands before isActive).next isGoes
  constructor
  · exact fun way isActive => followed way (mem_of_mem_take isActive)
  · intro branch isDone
    rw [length_follow]
    rcases mem_append.mp isDone with isDone | isCut
    · rcases mem_append.mp isDone with before | isEnd
      · exact (exact_.ended branch before).mono (by omega)
      · obtain ⟨way, isActive, isGoes⟩ := (mem_goes_iff answered).mp (mem_left_iff.mp isEnd)
        exact (exact_.stands way isActive).ends isGoes
    · obtain ⟨way, isWay, rfl⟩ := mem_map.mp isCut
      refine ⟨fun notCut => absurd rfl notCut, fun _ => ⟨⟨way.at_, ?_⟩, .inr ?_⟩⟩
      · exact (followed way (mem_of_mem_drop isWay)).reaches
      · have isRoom := length_pos_of_mem isWay
        rw [length_sides (level.goes given)]
        rw [length_drop, length_append] at isRoom
        omega
  · intro walk end_ maximal
    have before := exact_.each walk end_ maximal
    rw [← countP_goes_level exact_ answered maximal, countP_sides] at before
    have cut (ways : List Active) :
        (ways.map (fun way => (⟨way.hops, .bounded⟩ : Branch))).countP (·.covers walk end_) =
          ways.countP (·.hops <+: walk) := by
      rw [countP_map]
      rfl
    have parts := take_append_drop
      (maxBranches - (level.done ++ (level.goes given).filterMap Sum.getLeft?).length)
      ((level.goes given).filterMap Sum.getRight?)
    have sum := congrArg (List.countP (fun way => decide (way.hops <+: walk))) parts
    rw [countP_append] at sum
    simp only [Level.follow, countP_append, cut]
    omega

/-! ### What the loop asks -/

theorem mem_need : device ∈ level.need ↔
    (∃ way ∈ level.active, way.at_ = device) ∧ level.answers device = none := by
  unfold Level.need
  rw [mem_insertionSort, mem_dedup, mem_filter, mem_map,
    Option.isNone_iff_eq_none]

theorem nodup_need : level.need.Nodup :=
  (perm_insertionSort _ _).nodup_iff.mpr (nodup_dedup _)

variable [Readers] {read : Read} {order : List (List Str)} {need : List Str}

/-- Answers that are those a trace was given. -/
def Agrees (answer : Str → Cef) (read : Read) (order : List (List Str)) : Prop :=
  ∀ call need, order[call]? = some need →
    ∀ device ∈ need, answer device = answerOf (read call need) device

theorem agrees_append : Agrees answer read (order ++ [need]) ↔
    Agrees answer read order ∧
      ∀ device ∈ need, answer device = answerOf (read order.length need) device := by
  constructor
  · intro agrees
    constructor
    · intro call before isCall
      exact agrees call before (by
        rw [List.getElem?_append_left (List.getElem?_eq_some_iff.mp isCall).1]
        exact isCall)
    · exact agrees order.length need List.getElem?_concat_length
  · rintro ⟨before, last⟩ call need' isCall
    rcases Nat.lt_trichotomy call order.length with isBefore | rfl | isBeyond
    · rw [List.getElem?_append_left isBefore] at isCall
      exact before call need' isCall
    · rw [List.getElem?_concat_length, Option.some_inj] at isCall
      rw [← isCall]
      exact last
    · rw [List.getElem?_eq_none (by rw [length_append]; exact isBeyond)] at isCall
      cases isCall

/-- What holds of the loop after so many turns. -/
structure Level.Sound (given : Given) (read : Read) (turns : Nat) (level : Level) : Prop where
  asked : ∀ device, (level.answers device).isSome ↔ device ∈ level.order.flatten
  once : level.order.flatten.Nodup
  heard : ∀ answer, Agrees answer read level.order ↔
    ∀ device cef, level.answers device = some cef → answer device = cef
  plain : ∀ device cef, level.answers device = some cef → cef.Plain
  depth : ∀ way ∈ level.active, way.hops.length = turns ∧ turns < maxHops
  exact_ : ∀ answer, Agrees answer read level.order → level.Exact given answer

theorem Level.Sound.ask (sound : level.Sound given read turns) :
    (level.ask read).Sound given read turns ∧
      ∀ way ∈ (level.ask read).active, ((level.ask read).answers way.at_).isSome := by
  have unasked : ∀ way ∈ level.active, way.at_ ∉ level.need → (level.answers way.at_).isSome := by
    intro way isActive notNeeded
    by_contra notAsked
    exact notNeeded (mem_need.mpr ⟨⟨way, isActive, rfl⟩, by simpa using notAsked⟩)
  unfold Level.ask
  split
  · rename_i isEmpty
    refine ⟨sound, fun way isActive => unasked way isActive ?_⟩
    rw [isEmpty]
    exact not_mem_nil
  · have agrees (answer : Str → Cef) := @agrees_append answer _ read level.order level.need
    refine ⟨⟨?_, ?_, ?_, ?_, sound.depth, ?_⟩, ?_⟩
    · intro device
      dsimp only
      rw [flatten_append, mem_append, ← sound.asked, flatten_singleton]
      split
      · rename_i isNeeded
        exact iff_of_true rfl (.inr isNeeded)
      · rename_i notNeeded
        exact ⟨.inl, fun either => either.resolve_right notNeeded⟩
    · dsimp only
      rw [flatten_append, flatten_singleton]
      refine nodup_append.mpr ⟨sound.once, nodup_need, ?_⟩
      intro one isAsked other isNeeded same
      have notAsked := (mem_need.mp isNeeded).2
      rw [← same] at notAsked
      have isSome := (sound.asked one).mpr isAsked
      rw [notAsked] at isSome
      cases isSome
    · intro answer
      rw [agrees, sound.heard]
      constructor
      · rintro ⟨before, now⟩ device cef isAnswer
        dsimp only at isAnswer
        split at isAnswer
        · rename_i isNeeded
          rw [now device isNeeded]
          exact Option.some.inj isAnswer
        · exact before device cef isAnswer
      · intro heard
        constructor
        · intro device cef isAnswer
          have notNeeded : device ∉ level.need := by
            intro isNeeded
            rw [(mem_need.mp isNeeded).2] at isAnswer
            cases isAnswer
          exact heard device cef ((if_neg notNeeded).trans isAnswer)
        · intro device isNeeded
          exact heard device _ (if_pos isNeeded)
    · intro device cef isAnswer
      dsimp only at isAnswer
      split at isAnswer
      · rw [← Option.some.inj isAnswer]
        exact plain_answerOf _
      · exact sound.plain device cef isAnswer
    · intro answer agreed
      obtain ⟨stands, ended, each⟩ := sound.exact_ answer ((agrees answer).mp agreed).1
      exact ⟨stands, ended, each⟩
    · intro way isActive
      dsimp only
      split
      · rfl
      · exact unasked way isActive ‹_›

theorem Level.Sound.answered {answer : Str → Cef} (sound : level.Sound given read turns)
    (isAsked : ∀ way ∈ level.active, (level.answers way.at_).isSome)
    (agrees : Agrees answer read level.order) : level.Answered answer := by
  have isGiven : ∀ way ∈ level.active, level.answers way.at_ = some (answer way.at_) := by
    intro way isActive
    obtain ⟨cef, isCef⟩ := Option.isSome_iff_exists.mp (isAsked way isActive)
    rw [(sound.heard answer).mp agrees way.at_ cef isCef, isCef]
  exact ⟨isGiven, fun way isActive => sound.plain _ _ (isGiven way isActive)⟩

def Level.known (level : Level) (device : Str) : Cef :=
  (level.answers device).getD ⟨.unread, [], []⟩

theorem Level.Sound.known (sound : level.Sound given read turns) :
    Agrees level.known read level.order := by
  rw [sound.heard]
  intro device cef isAnswer
  rw [Level.known, isAnswer, Option.getD_some]

/-- **A turn of the loop.** -/
theorem Level.Sound.turn (sound : level.Sound given read turns) :
    (level.turn given read).Sound given read (turns + 1) := by
  obtain ⟨asked, isAsked⟩ := sound.ask
  refine ⟨asked.asked, asked.once, asked.heard, asked.plain, ?_, ?_⟩
  · intro next isActive
    obtain ⟨way, isWay, isNext⟩ := (mem_goes_iff (asked.answered isAsked asked.known)).mp
      (mem_right_iff.mp (mem_of_mem_take isActive))
    obtain ⟨hop, -, -, isHops, isShort, -⟩ := goes_becomes isNext
    have isLength := congrArg List.length isHops
    rw [length_append, (asked.depth way isWay).1, length_singleton] at isLength
    exact ⟨isLength, isLength ▸ isShort⟩
  · intro answer agrees
    exact (asked.exact_ answer agrees).follow (asked.answered isAsked agrees)

theorem sound_begins : (begins given).Sound given read 0 where
  asked device := by simp [begins]
  once := nodup_nil
  heard answer := by simp [begins, Agrees]
  plain device cef isAnswer := by cases isAnswer
  depth way isActive := by
    rw [mem_singleton.mp isActive]
    exact ⟨rfl, by decide⟩
  exact_ answer _ := by
    refine ⟨?_, ?_, ?_⟩
    · intro way isActive
      rw [mem_singleton.mp isActive]
      exact ⟨.source, rfl⟩
    · intro branch isDone
      cases isDone
    · intro walk end_ _
      rfl

theorem untilDone_ends {left : Nat} (sound : level.Sound given read turns)
    (isLeft : maxHops ≤ turns + left) :
    ∃ last ended, level.untilDone given read left = some last ∧ last.active = [] ∧
      last.Sound given read ended := by
  induction left generalizing level turns with
  | zero =>
    have isDone : level.active = [] := by
      refine eq_nil_iff_forall_not_mem.mpr (fun way isActive => ?_)
      have depth := (sound.depth way isActive).2
      omega
    exact ⟨level, turns, by rw [Level.untilDone, if_pos isDone], isDone, sound⟩
  | succ left ih =>
    rw [Level.untilDone]
    split
    · exact ⟨level, turns, rfl, ‹_›, sound⟩
    · exact ih sound.turn (by omega)

/-- A trace ends, having asked each device at most once. Under any answers that
are those it got, each of its branches is a maximal way, ended as it ends, or a
way cut at one of the two bounds; and each maximal way is one branch, or goes on
from one cut. -/
theorem trace_exact (given : Given) (read : Read) :
    ∃ traced, trace given read = some traced ∧ traced.readOrder.flatten.Nodup ∧
      (∃ answer, Agrees answer read traced.readOrder) ∧
      ∀ answer, Agrees answer read traced.readOrder →
        (∀ branch ∈ traced.branches, (branch.hops.map (·.device)).Nodup ∧
          branch.Follows given answer traced.branches.length) ∧
        ∀ walk end_, Maximal given answer walk end_ →
          traced.branches.countP (·.covers walk end_) = 1 := by
  obtain ⟨level, turns, isLast, isDone, sound⟩ := untilDone_ends sound_begins
    (Nat.le_add_left maxHops 0)
  have sorted :=
    List.perm_insertionSort (fun one other => Branch.before one other = true) level.done
  refine ⟨_, by rw [trace, isLast]; rfl, sound.once, ⟨_, sound.known⟩, fun answer agrees => ?_⟩
  obtain ⟨-, ended, each⟩ := sound.exact_ answer agrees
  rw [isDone, List.length_nil, Nat.add_zero] at ended
  rw [isDone] at each
  constructor
  · intro branch isBranch
    have follows := ended branch (sorted.mem_iff.mp isBranch)
    rw [sorted.length_eq]
    refine ⟨?_, follows⟩
    by_cases isCut : branch.end_ = .bounded
    · obtain ⟨⟨owner, reaches⟩, -⟩ := follows.cut isCut
      exact (List.nodup_append.mp reaches.nodup).1
    · obtain ⟨front, last, isWhole, reaches, -, -⟩ := follows.ends isCut
      rw [isWhole, List.map_append]
      exact reaches.nodup
  · intro walk end_ maximal
    rw [sorted.countP_eq]
    simpa using each walk end_ maximal

end Nmas.PathTrace
