import Mathlib.Data.Set.Finite.Basic
import Mathlib.Data.List.Nodup
import Mathlib.Data.List.Infix
import Nmas.Fixpoint.Worklist

/-!
Contract: a walk along every edge that goes on from a node once.

Owns: the loop over a queue of ways, each ended where its node was come to before by any of
them; that it ends where finitely many nodes are led to; that it goes on from every node there
is a way to (`walked_of_follows`), and when each way it ends has passed its own last node
(`ownRevisits_iff`).
-/

namespace Nmas.Fixpoint.Revisits

open List

variable {Node Label : Type}

/-- A node come to, and the way there: the nodes left, each with the edge it was left by. -/
structure Way (Node Label : Type) where
  trail : List (Node × Label)
  node : Node
deriving DecidableEq

/-- The nodes gone on from, the ways to look at, and those looked at, each with whether its
node had been gone on from. -/
structure Walk (Node Label : Type) where
  seen : List Node
  queue : List (Way Node Label)
  done : List (Way Node Label × Bool)

def Walk.start (node : Node) : Walk Node Label := ⟨[], [⟨[], node⟩], []⟩

def Way.onward (next : Node → List (Label × Node)) (way : Way Node Label) : List (Way Node Label) :=
  (next way.node).map (fun edge => ⟨way.trail ++ [(way.node, edge.1)], edge.2⟩)

section Walk

variable [DecidableEq Node]

def turn (next : Node → List (Label × Node)) : Walk Node Label → Walk Node Label
  | ⟨seen, [], done⟩ => ⟨seen, [], done⟩
  | ⟨seen, way :: rest, done⟩ =>
    if way.node ∈ seen then ⟨seen, rest, done ++ [(way, true)]⟩
    else ⟨way.node :: seen, rest ++ way.onward next, done ++ [(way, false)]⟩

theorem turn_again {next : Node → List (Label × Node)} {seen : List Node} {way : Way Node Label}
    (isSeen : way.node ∈ seen) (rest : List (Way Node Label))
    (done : List (Way Node Label × Bool)) :
    turn next ⟨seen, way :: rest, done⟩ = ⟨seen, rest, done ++ [(way, true)]⟩ := if_pos isSeen

theorem turn_onward {next : Node → List (Label × Node)} {seen : List Node} {way : Way Node Label}
    (unseen : way.node ∉ seen) (rest : List (Way Node Label))
    (done : List (Way Node Label × Bool)) :
    turn next ⟨seen, way :: rest, done⟩ =
      ⟨way.node :: seen, rest ++ way.onward next, done ++ [(way, false)]⟩ := if_neg unseen

def walkFrom (next : Node → List (Label × Node)) : (room : Nat) → Walk Node Label → Walk Node Label
  | 0, walk => walk
  | room + 1, walk => walkFrom next room (turn next walk)

end Walk

def Walk.ways (walk : Walk Node Label) : List (Way Node Label) :=
  walk.done.map Prod.fst ++ walk.queue

/-- The edges lead from the start along the trail. -/
inductive Follows (next : Node → List (Label × Node)) (start : Node) : Way Node Label → Prop
  | here : Follows next start ⟨[], start⟩
  | step {way : Way Node Label} {edge : Label × Node} (before : Follows next start way)
      (isEdge : edge ∈ next way.node) :
      Follows next start ⟨way.trail ++ [(way.node, edge.1)], edge.2⟩

def Way.passed (way : Way Node Label) : List Node := way.trail.map Prod.fst

def Way.Simple (way : Way Node Label) : Prop := way.passed.Nodup ∧ way.node ∉ way.passed

/-- Each node is come to by one way at most that comes to no node twice. -/
def NoTwoWays (next : Node → List (Label × Node)) (start : Node) : Prop :=
  ∀ one other : Way Node Label, Follows next start one → Follows next start other →
    one.node = other.node → one.Simple → other.Simple → one = other

def Walk.OwnRevisits (walk : Walk Node Label) : Prop :=
  ∀ way, (way, true) ∈ walk.done → way.node ∈ way.passed

structure Walked (next : Node → List (Label × Node)) (start : Node) (walk : Walk Node Label) :
    Prop where
  follows : ∀ way ∈ walk.ways, Follows next start way
  start_mem : ⟨[], start⟩ ∈ walk.ways
  passed : ∀ way ∈ walk.ways, way.passed.Nodup ∧ ∀ node ∈ way.passed, node ∈ walk.seen
  simple : ∀ way, (way, false) ∈ walk.done → way.Simple
  seen : ∀ node, node ∈ walk.seen ↔ ∃ way, (way, false) ∈ walk.done ∧ way.node = node
  once : ∀ one other, (one, false) ∈ walk.done → (other, false) ∈ walk.done →
    one.node = other.node → one = other
  again : ∀ way, (way, true) ∈ walk.done → way.node ∈ walk.seen
  onward : ∀ way, (way, false) ∈ walk.done → ∀ after ∈ way.onward next, after ∈ walk.ways

variable {next : Node → List (Label × Node)} {start : Node} {walk : Walk Node Label} {room : Nat}

theorem mem_onward {way after : Way Node Label} :
    after ∈ way.onward next ↔ ∃ edge ∈ next way.node,
      after = ⟨way.trail ++ [(way.node, edge.1)], edge.2⟩ := by
  unfold Way.onward
  rw [mem_map]
  constructor
  · rintro ⟨edge, isEdge, isAfter⟩
    exact ⟨edge, isEdge, isAfter.symm⟩
  · rintro ⟨edge, isEdge, isAfter⟩
    exact ⟨edge, isEdge, isAfter.symm⟩

theorem passed_onward {way after : Way Node Label} (isOnward : after ∈ way.onward next) :
    after.passed = way.passed ++ [way.node] := by
  obtain ⟨edge, -, rfl⟩ := mem_onward.mp isOnward
  unfold Way.passed
  rw [map_append]
  rfl

theorem walked_start : Walked next start (Walk.start start) where
  follows := by
    intro way member
    rw [mem_singleton.mp member]
    exact .here
  start_mem := mem_singleton.mpr rfl
  passed := by
    intro way member
    rw [mem_singleton.mp member]
    exact ⟨nodup_nil, nofun⟩
  simple := nofun
  seen := by
    intro node
    constructor
    · intro isSeen
      cases isSeen
    · rintro ⟨way, isDone, -⟩
      cases isDone
  once := fun one other isDone => absurd isDone not_mem_nil
  again := nofun
  onward := nofun

section Turn

variable {seen : List Node} {way : Way Node Label} {rest : List (Way Node Label)}
  {done : List (Way Node Label × Bool)}

theorem ways_again :
    (Walk.mk seen rest (done ++ [(way, true)])).ways = (Walk.mk seen (way :: rest) done).ways := by
  unfold Walk.ways
  rw [map_append, append_assoc]
  rfl

theorem mem_ways_onward {other : Way Node Label} :
    other ∈ (Walk.mk (way.node :: seen) (rest ++ way.onward next) (done ++ [(way, false)])).ways ↔
      other ∈ (Walk.mk seen (way :: rest) done).ways ∨ other ∈ way.onward next := by
  unfold Walk.ways
  rw [map_append]
  simp only [mem_append, mem_cons, map_cons, map_nil, not_mem_nil,
    or_false]
  tauto

theorem mem_done {flag other : Bool} {before : Way Node Label} :
    (before, flag) ∈ done ++ [(way, other)] ↔
      (before, flag) ∈ done ∨ before = way ∧ flag = other := by
  rw [mem_append, mem_singleton, Prod.mk.injEq]

theorem Walked.again_turn (walked : Walked next start ⟨seen, way :: rest, done⟩)
    (isSeen : way.node ∈ seen) : Walked next start ⟨seen, rest, done ++ [(way, true)]⟩ where
  follows := by
    rw [ways_again]
    exact walked.follows
  start_mem := by
    rw [ways_again]
    exact walked.start_mem
  passed := by
    rw [ways_again]
    exact walked.passed
  simple := by
    intro before isDone
    rcases mem_done.mp isDone with isOld | ⟨-, isFalse⟩
    · exact walked.simple before isOld
    · cases isFalse
  seen := by
    intro node
    rw [walked.seen node]
    constructor
    · rintro ⟨before, isDone, isNode⟩
      exact ⟨before, mem_append_left _ isDone, isNode⟩
    · rintro ⟨before, isDone, isNode⟩
      rcases mem_done.mp isDone with isOld | ⟨-, isFalse⟩
      · exact ⟨before, isOld, isNode⟩
      · cases isFalse
  once := by
    intro one other isOne isOther
    rcases mem_done.mp isOne with oldOne | ⟨-, isFalse⟩
    · rcases mem_done.mp isOther with oldOther | ⟨-, isFalse⟩
      · exact walked.once one other oldOne oldOther
      · cases isFalse
    · cases isFalse
  again := by
    intro before isDone
    rcases mem_done.mp isDone with isOld | ⟨isWay, -⟩
    · exact walked.again before isOld
    · rw [isWay]
      exact isSeen
  onward := by
    intro before isDone
    rw [ways_again]
    rcases mem_done.mp isDone with isOld | ⟨-, isFalse⟩
    · exact walked.onward before isOld
    · cases isFalse

theorem Walked.onward_turn (walked : Walked next start ⟨seen, way :: rest, done⟩)
    (unseen : way.node ∉ seen) :
    Walked next start ⟨way.node :: seen, rest ++ way.onward next, done ++ [(way, false)]⟩ := by
  have isWay : way ∈ (Walk.mk seen (way :: rest) done).ways := mem_append_right _ (.head _)
  have notPassed : way.node ∉ way.passed := fun isPassed =>
    unseen ((walked.passed way isWay).2 _ isPassed)
  refine ⟨?_, ?_, ?_, ?_, ?_, ?_, ?_, ?_⟩
  · intro other member
    rcases mem_ways_onward.mp member with isOld | isOnward
    · exact walked.follows other isOld
    · obtain ⟨edge, isEdge, rfl⟩ := mem_onward.mp isOnward
      exact .step (walked.follows way isWay) isEdge
  · exact mem_ways_onward.mpr (.inl walked.start_mem)
  · intro other member
    rcases mem_ways_onward.mp member with isOld | isOnward
    · obtain ⟨distinct, areSeen⟩ := walked.passed other isOld
      exact ⟨distinct, fun node isPassed => .tail _ (areSeen node isPassed)⟩
    · obtain ⟨distinct, areSeen⟩ := walked.passed way isWay
      rw [passed_onward isOnward]
      constructor
      · exact nodup_append.mpr ⟨distinct, nodup_singleton _, fun node isPassed other
          isNode same => notPassed (mem_singleton.mp isNode ▸ same ▸ isPassed)⟩
      · intro node isPassed
        rcases mem_append.mp isPassed with isOld | isNew
        · exact .tail _ (areSeen node isOld)
        · rw [mem_singleton.mp isNew]
          exact .head _
  · intro before isDone
    rcases mem_done.mp isDone with isOld | ⟨isThis, -⟩
    · exact walked.simple before isOld
    · rw [isThis]
      exact ⟨(walked.passed way isWay).1, notPassed⟩
  · intro node
    rw [mem_cons, walked.seen node]
    constructor
    · rintro (isNode | ⟨before, isDone, isNode⟩)
      · exact ⟨way, mem_append_right _ (mem_singleton.mpr rfl), isNode.symm⟩
      · exact ⟨before, mem_append_left _ isDone, isNode⟩
    · rintro ⟨before, isDone, isNode⟩
      rcases mem_done.mp isDone with isOld | ⟨isThis, -⟩
      · exact .inr ⟨before, isOld, isNode⟩
      · rw [isThis] at isNode
        exact .inl isNode.symm
  · intro one other isOne isOther same
    rcases mem_done.mp isOne with oldOne | ⟨isThis, -⟩
    · rcases mem_done.mp isOther with oldOther | ⟨isThis, -⟩
      · exact walked.once one other oldOne oldOther same
      · rw [isThis] at same
        exact absurd ((walked.seen _).mpr ⟨one, oldOne, same⟩) unseen
    · rcases mem_done.mp isOther with oldOther | ⟨alsoThis, -⟩
      · rw [isThis] at same
        exact absurd ((walked.seen _).mpr ⟨other, oldOther, same.symm⟩) unseen
      · rw [isThis, alsoThis]
  · intro before isDone
    rcases mem_done.mp isDone with isOld | ⟨-, isTrue⟩
    · exact .tail _ (walked.again before isOld)
    · cases isTrue
  · intro before isDone after isOnward
    rcases mem_done.mp isDone with isOld | ⟨isThis, -⟩
    · exact mem_ways_onward.mpr (.inl (walked.onward before isOld after isOnward))
    · rw [isThis] at isOnward
      exact mem_ways_onward.mpr (.inr isOnward)

theorem nodup_onward_turn (distinct : (Walk.mk seen (way :: rest) done).ways.Nodup)
    (walked : Walked next start ⟨seen, way :: rest, done⟩) (unseen : way.node ∉ seen)
    (edges : (next way.node).Nodup) :
    (Walk.mk (way.node :: seen) (rest ++ way.onward next) (done ++ [(way, false)])).ways.Nodup := by
  have isSplit : (Walk.mk (way.node :: seen) (rest ++ way.onward next)
      (done ++ [(way, false)])).ways =
        (Walk.mk seen (way :: rest) done).ways ++ way.onward next := by
    unfold Walk.ways
    simp
  rw [isSplit, nodup_append]
  refine ⟨distinct, ?_, ?_⟩
  · refine List.Nodup.map ?_ edges
    intro one other same
    have trails := congrArg Way.trail same
    have labels := append_cancel_left trails
    exact Prod.ext (congrArg Prod.snd (head_eq_of_cons_eq labels)) (congrArg Way.node same)
  · rintro old isOld new isOnward rfl
    have isPassed : way.node ∈ old.passed := by
      rw [passed_onward isOnward]
      exact mem_append_right _ (mem_singleton.mpr rfl)
    exact unseen ((walked.passed old isOld).2 _ isPassed)

end Turn

section Run

variable [DecidableEq Node]

theorem walked_turn (walked : Walked next start walk) : Walked next start (turn next walk) := by
  obtain ⟨seen, queue, done⟩ := walk
  cases queue with
  | nil => exact walked
  | cons way rest =>
    by_cases isSeen : way.node ∈ seen
    · rw [turn_again isSeen]
      exact walked.again_turn isSeen
    · rw [turn_onward isSeen]
      exact walked.onward_turn isSeen

theorem walked_walkFrom (walked : Walked next start walk) (room : Nat) :
    Walked next start (walkFrom next room walk) := by
  induction room generalizing walk with
  | zero => exact walked
  | succ room ih => exact ih (walked_turn walked)

theorem nodup_walkFrom (edges : ∀ node, (next node).Nodup) (walked : Walked next start walk)
    (distinct : walk.ways.Nodup) (room : Nat) : (walkFrom next room walk).ways.Nodup := by
  induction room generalizing walk with
  | zero => exact distinct
  | succ room ih =>
    apply ih (walked_turn walked)
    obtain ⟨seen, queue, done⟩ := walk
    cases queue with
    | nil => exact distinct
    | cons way rest =>
      by_cases isSeen : way.node ∈ seen
      · rw [turn_again isSeen, ways_again]
        exact distinct
      · rw [turn_onward isSeen]
        exact nodup_onward_turn distinct walked isSeen (edges way.node)

/-! ### The end -/

theorem walkFrom_ends {within : Set Node} (finite : within.Finite) (isIn : start ∈ within)
    (closed : ∀ node ∈ within, ∀ edge ∈ next node, edge.2 ∈ within) :
    ∃ room, (walkFrom next room (Walk.start start)).queue = [] := by
  let targets : Node → List Node := fun node => (next node).map Prod.snd
  let items := finite.toFinset.toList
  have mem_items (node : Node) : node ∈ items ↔ node ∈ within := by
    rw [Finset.mem_toList, Set.Finite.mem_toFinset]
  -- each turn takes one from the queue and what the unseen nodes lead to
  have shrinks : ∀ (bound : Nat) (walk : Walk Node Label),
      (∀ way ∈ walk.queue, way.node ∈ within) →
      walk.queue.length + Worklist.ahead targets items walk.seen ≤ bound →
      ∃ room, (walkFrom next room walk).queue = [] := by
    intro bound
    induction bound with
    | zero =>
      intro walk _ isBounded
      have isEmpty : walk.queue.length = 0 := by omega
      exact ⟨0, eq_nil_of_length_eq_zero isEmpty⟩
    | succ bound ih =>
      rintro ⟨seen, queue, done⟩ areIn isBounded
      cases queue with
      | nil => exact ⟨0, rfl⟩
      | cons way rest =>
        have wayIn := areIn way (.head _)
        have restIn : ∀ other ∈ rest, other.node ∈ within :=
          fun other member => areIn other (.tail _ member)
        have smaller : ∃ room, (walkFrom next room
            (turn next ⟨seen, way :: rest, done⟩)).queue = [] := by
          by_cases isSeen : way.node ∈ seen
          · rw [turn_again isSeen]
            apply ih _ restIn
            simp only [length_cons] at isBounded
            dsimp only
            omega
          · rw [turn_onward isSeen]
            apply ih
            · intro other member
              rcases mem_append.mp member with isRest | isOnward
              · exact restIn other isRest
              · obtain ⟨edge, isEdge, rfl⟩ := mem_onward.mp isOnward
                exact closed way.node wayIn edge isEdge
            · have fewer : Worklist.ahead targets items (way.node :: seen) +
                  (targets way.node).length = Worklist.ahead targets items seen :=
                Worklist.ahead_cons finite.toFinset.nodup_toList isSeen ((mem_items _).mpr wayIn)
              have isLength : (way.onward next).length = (targets way.node).length := by
                unfold Way.onward
                rw [length_map, length_map]
              simp only [length_cons, length_append] at isBounded ⊢
              omega
        obtain ⟨room, isEnded⟩ := smaller
        exact ⟨room + 1, isEnded⟩
  exact shrinks _ _ (fun way member => by rw [mem_singleton.mp member]; exact isIn) le_rfl

end Run

section Ended

variable (ended : walk.queue = [])
include ended

theorem mem_done_of_mem_ways {way : Way Node Label} (member : way ∈ walk.ways) :
    ∃ flag, (way, flag) ∈ walk.done := by
  unfold Walk.ways at member
  rw [ended, append_nil] at member
  obtain ⟨⟨other, flag⟩, isDone, rfl⟩ := mem_map.mp member
  exact ⟨flag, isDone⟩

theorem seen_of_mem_ways (walked : Walked next start walk) {way : Way Node Label}
    (member : way ∈ walk.ways) : way.node ∈ walk.seen := by
  obtain ⟨flag, isDone⟩ := mem_done_of_mem_ways ended member
  cases flag with
  | true => exact walked.again way isDone
  | false => exact (walked.seen _).mpr ⟨way, isDone, rfl⟩

/-- **A walk that has ended went on from every node there is a way to.** -/
theorem walked_of_follows (walked : Walked next start walk) {way : Way Node Label}
    (follows : Follows next start way) : ∃ first, (first, false) ∈ walk.done ∧
      first.node = way.node := by
  apply (walked.seen _).mp
  induction follows with
  | here => exact seen_of_mem_ways ended walked walked.start_mem
  | @step way edge before isEdge ih =>
    obtain ⟨first, isDone, isNode⟩ := (walked.seen _).mp ih
    have isOnward : ⟨first.trail ++ [(first.node, edge.1)], edge.2⟩ ∈ first.onward next := by
      rw [← isNode] at isEdge
      exact mem_onward.mpr ⟨edge, isEdge, rfl⟩
    have isSeen := seen_of_mem_ways ended walked (walked.onward first isDone _ isOnward)
    exact isSeen

theorem went_on_of_simple (walked : Walked next start walk) (own : walk.OwnRevisits)
    {way : Way Node Label} (follows : Follows next start way) (simple : way.Simple) :
    (way, false) ∈ walk.done := by
  induction follows with
  | here =>
    obtain ⟨flag, isDone⟩ := mem_done_of_mem_ways ended walked.start_mem
    cases flag with
    | true => exact absurd (own _ isDone) simple.2
    | false => exact isDone
  | @step way edge before isEdge ih =>
    have isPassed : (Way.mk (way.trail ++ [(way.node, edge.1)]) edge.2).passed =
        way.passed ++ [way.node] := by
      unfold Way.passed
      rw [map_append]
      rfl
    have distinct := simple.1
    rw [isPassed, nodup_append] at distinct
    obtain ⟨distinctBefore, -, isOther⟩ := distinct
    have simpleBefore : way.Simple := ⟨distinctBefore, fun isIn =>
      isOther _ isIn _ (mem_singleton.mpr rfl) rfl⟩
    have isOnward := mem_onward.mpr ⟨edge, isEdge, rfl⟩
    obtain ⟨flag, isDone⟩ := mem_done_of_mem_ways ended
      (walked.onward way (ih simpleBefore) _ isOnward)
    cases flag with
    | true => exact absurd (own _ isDone) simple.2
    | false => exact isDone

/-- **The ways a walk ends have each passed their last node themselves exactly where no node is
come to by two ways that come to no node twice.** -/
theorem ownRevisits_iff (walked : Walked next start walk) (distinct : walk.ways.Nodup) :
    walk.OwnRevisits ↔ NoTwoWays next start := by
  constructor
  · intro own one other followsOne followsOther same simpleOne simpleOther
    exact walked.once one other (went_on_of_simple ended walked own followsOne simpleOne)
      (went_on_of_simple ended walked own followsOther simpleOther) same
  · intro noTwoWays way isEnded
    by_contra notPassed
    have isWay : way ∈ walk.ways := mem_append_left _ (mem_map_of_mem isEnded)
    obtain ⟨first, isDone, isNode⟩ := (walked.seen _).mp (walked.again way isEnded)
    have isFirst : first ∈ walk.ways := mem_append_left _ (mem_map_of_mem isDone)
    have same := noTwoWays way first (walked.follows way isWay) (walked.follows first isFirst)
      isNode.symm ⟨(walked.passed way isWay).1, notPassed⟩ (walked.simple first isDone)
    -- one way would have been looked at twice
    rw [same] at isEnded
    unfold Walk.ways at distinct
    have once := (nodup_append.mp distinct).1
    have together := inj_on_of_nodup_map once isEnded isDone rfl
    cases together

end Ended

end Nmas.Fixpoint.Revisits
