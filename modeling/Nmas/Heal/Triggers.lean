import Mathlib.Data.List.Sort
import Mathlib.Logic.Function.Basic
import Nmas.Heal.Incidents
import Nmas.Log.Watermark
import Nmas.Text.Regex

/-!
Contract: what the log readers hand to the heal's incidents.

Owns: `from_logs_tail` and `from_adjacency_log` of `heal/triggers.py`, their cursors
and `_deliver`; and which lines and drops are sighted exactly once.

Does not own: whose a change is, which device a neighbour is and what explains a
drop, which are facts here; the counts and words of a step; and a reader's
duplicate router-ids, which have a mark of their own.
-/

namespace Nmas.Heal.Triggers

open Nmas.Text List
open Nmas.Log

/-- A line of the `logs-tail` reader. -/
structure Line where
  ts : Clock
  device : Str
  mnemonic : Str
  text : Str
deriving DecidableEq

/-- An adjacency of the `adjacency-log` reader. -/
structure Adjacency where
  list : Str
  device : Str
  protocol : Str
  neighbor : Str
deriving DecidableEq

structure Drop where
  epoch : Clock
  reason : Str
deriving DecidableEq

inductive Cause where
  | line (line : Line)
  | drop (adjacency : Adjacency) (drop : Drop)
deriving DecidableEq

def Cause.time : Cause → Clock
  | .line logged => logged.ts
  | .drop _ logged => logged.epoch

/-- What a store holds when its reader stored. -/
inductive Value where
  | logs (lines : List Line)
  | adjacencies (adjacencies : List (Adjacency × List Drop))

def Value.causes : Value → List Cause
  | .logs lines => lines.map .line
  | .adjacencies rows => rows.flatMap (fun entry => entry.2.map (.drop entry.1))

/-- A trigger handed to `incidents.sight`: the store it was seen in, the network and
device to check, and what for. -/
structure Sighting where
  source : Str
  network : Str
  device : Str
  cause : Cause
deriving DecidableEq

/-- What the steps ask of the rest of Mercury, as it is. -/
structure Facts where
  networksOf : Str → List Str
  /-- `_store_networks`: none where it cannot be told. -/
  serves : Str → Option (List Str)
  /-- `attribute` answers Mercury. -/
  mercurys : Str → Line → Bool
  /-- The device a neighbour is in a network, or the empty text. -/
  peer : Str → Str → Str
  explained : Adjacency → Drop → Bool

structure Answers where
  /-- The inventories can be read. -/
  inventory : Bool
  /-- Whether a network's mode is on, none where it cannot be read. -/
  mode : Str → Option Bool
  /-- The planned restarts can be read. -/
  planned : Bool
  /-- `sight` records the trigger. -/
  sights : Sighting → Bool

/-- Every read of the step answers. -/
structure Answers.NoFailure (answers : Answers) : Prop where
  inventory : answers.inventory = true
  mode : ∀ network, answers.mode network ≠ none
  planned : answers.planned = true
  sights : ∀ sighting, answers.sights sighting = true

def Answers.healing (answers : Answers) (network : Str) : Bool := (answers.mode network).getD false

/-- `_deliver`: the triggers that `sight` recorded. -/
def deliver (answers : Answers) (out : List Sighting) : List Sighting := out.filter answers.sights

section Steps

variable [Unicode]

def configLog : Regex :=
  .all [.lit "%".ascii, .anyOf ["SYS", "DMI"], .lit "-".ascii, .digit, .lit "-CONFIG_".ascii,
    .anyOf ["I", "P"], .edge]

def Line.isChange (line : Line) : Bool := configLog.found (line.mnemonic ++ ": ".ascii ++ line.text)

variable (facts : Facts) (answers : Answers) (source : Str)

omit [Unicode] in
def oneNetwork (device : Str) : Option Str :=
  match (facts.networksOf device).filter (fun network => (facts.serves source).all (network ∈ ·)) with
  | [network] => some network
  | _ => none

def lineDue (line : Line) : List Sighting :=
  if line.isChange then
    match oneNetwork facts source line.device with
    | none => []
    | some network =>
      if facts.mercurys network line then []
      else [⟨source, network, line.device, .line line⟩]
  else []

omit [Unicode] in
/-- The triggers of a drop, on both ends, where the drop is to have them. -/
def dropDue (adjacency : Adjacency) (drop : Drop) : List Sighting :=
  if facts.explained adjacency drop then []
  else
    let peer := facts.peer adjacency.list adjacency.neighbor
    ⟨source, adjacency.list, adjacency.device, .drop adjacency drop⟩ ::
      (if peer ≠ [] ∧ peer ≠ adjacency.device then
        [⟨source, adjacency.list, peer, .drop adjacency drop⟩]
      else [])

def due : Cause → List Sighting
  | .line line => lineDue facts source line
  | .drop adjacency drop => dropDue facts source adjacency drop

/-- `from_logs_tail`: the cursor after it, and what it sighted. The first line that is a
change reads the inventories. -/
def fromLogsTail (mark : Option Clock) (lines : List Line) : Option Clock × List Sighting :=
  let new := Watermark.fresh Line.ts mark (lines.insertionSort (fun one other => one.ts ≤ other.ts))
  let moved := Watermark.advance Line.ts mark lines
  if new.any Line.isChange && !answers.inventory then (moved, [])
  else (moved, deliver answers (new.flatMap (fun line =>
    (lineDue facts source line).filter (fun sighting => answers.healing sighting.network))))

omit [Unicode] in
/-- `from_adjacency_log`, its drops. The planned restarts are read before the first one. -/
def fromAdjacencyLog (mark : Option Clock) (adjacencies : List (Adjacency × List Drop)) :
    Option Clock × List Sighting :=
  let drops := adjacencies.flatMap (fun entry => entry.2.map (entry.1, ·))
  let time := fun (entry : Adjacency × Drop) => entry.2.epoch
  let new := Watermark.fresh time mark drops
  let moved := Watermark.advance time mark drops
  if new ≠ [] ∧ answers.planned = false then (moved, [])
  else (moved, deliver answers ((new.insertionSort (fun one other => time one ≤ time other)).flatMap
    (fun entry => (dropDue facts source entry.1 entry.2).filter
      (fun sighting => answers.healing sighting.network))))

end Steps

/-! ### Runs -/

/-- A reader stored, and its step ran. -/
structure Event where
  source : Str
  value : Value
  answers : Answers

section Runs

variable [Unicode] (facts : Facts)

def stepOf (mark : Option Clock) (event : Event) : Option Clock × List Sighting :=
  match event.value with
  | .logs lines => fromLogsTail facts event.answers event.source mark lines
  | .adjacencies adjacencies =>
    fromAdjacencyLog facts event.answers event.source mark adjacencies

/-- The cursor of each store, and all that was sighted. -/
def run (state : (Str → Option Clock) × List Sighting) :
    List Event → (Str → Option Clock) × List Sighting
  | [] => state
  | event :: rest =>
    let stepped := stepOf facts (state.1 event.source) event
    run (Function.update state.1 event.source stepped.1, state.2 ++ stepped.2) rest

def sighted (events : List Event) : List Sighting := (run facts (fun _ => none, []) events).2

/-- What a step reads before it hands on a line or a drop can be read. -/
def Answers.reads (answers : Answers) : Cause → Bool
  | .line _ => answers.inventory
  | .drop _ _ => answers.planned

/-- A step that takes a trigger: its reads for that answer, healing is on, and `sight`
records it. -/
def Event.Takes (event : Event) (sighting : Sighting) : Prop :=
  event.answers.reads sighting.cause = true ∧
    event.answers.mode sighting.network = some true ∧ event.answers.sights sighting = true

/-- Healing is not off in any step. -/
def HealingOn (events : List Event) (network : Str) : Prop :=
  ∀ event ∈ events, event.answers.mode network ≠ some false

/-- Some step that meets no failure holds the line or drop. -/
def HeldWithoutFailure (events : List Event) (source : Str) (cause : Cause) : Prop :=
  ∃ event ∈ events, event.source = source ∧ cause ∈ event.value.causes ∧ event.answers.NoFailure

/-- Every trigger a line or drop is to have is sighted exactly once. -/
def SightedOnce (events : List Event) : Prop :=
  ∀ source cause, ∀ sighting ∈ due facts source cause, HealingOn events sighting.network →
    HeldWithoutFailure events source cause → (sighted facts events).count sighting = 1

/-- The first step that holds the line or drop takes the trigger: its value holds it once,
and all that the store held before is older. -/
def TakenFirst (events : List Event) (source : Str) (sighting : Sighting) : Prop :=
  ∃ before event after, events = before ++ event :: after ∧ event.source = source ∧
    event.value.causes.count sighting.cause = 1 ∧
    (∀ earlier ∈ before, earlier.source = source →
      ∀ other ∈ earlier.value.causes, other.time < sighting.cause.time) ∧
    event.Takes sighting

end Runs

/-! ### A store's steps are readings -/

section Readings

variable [Unicode] {facts : Facts} {mark : Option Clock} {event : Event} {source : Str}
  {cause : Cause} {sighting : Sighting} {events : List Event}

theorem of_mem_due (member : sighting ∈ due facts source cause) :
    sighting.source = source ∧ sighting.cause = cause := by
  cases cause with
  | line logged =>
    change sighting ∈ lineDue facts source logged at member
    unfold lineDue at member
    split_ifs at member
    · split at member
      · cases member
      · split_ifs at member
        · cases member
        · obtain rfl := mem_singleton.mp member
          exact ⟨rfl, rfl⟩
    · cases member
  | drop adjacency logged =>
    change sighting ∈ dropDue facts source adjacency logged at member
    unfold dropDue at member
    dsimp only at member
    split_ifs at member with explained hasPeer
    · cases member
    · rcases mem_cons.mp member with rfl | isPeer
      · exact ⟨rfl, rfl⟩
      · obtain rfl := mem_singleton.mp isPeer
        exact ⟨rfl, rfl⟩
    · obtain rfl := mem_singleton.mp member
      exact ⟨rfl, rfl⟩

theorem due_nodup (facts : Facts) (source : Str) (cause : Cause) :
    (due facts source cause).Nodup := by
  cases cause with
  | line logged =>
    show (lineDue facts source logged).Nodup
    unfold lineDue
    split_ifs
    · split
      · exact nodup_nil
      · split_ifs
        · exact nodup_nil
        · exact nodup_singleton _
    · exact nodup_nil
  | drop adjacency logged =>
    show (dropDue facts source adjacency logged).Nodup
    unfold dropDue
    dsimp only
    split_ifs with explained hasPeer
    · exact nodup_nil
    · refine nodup_cons.mpr ⟨fun isPeer => hasPeer.2 ?_, nodup_singleton _⟩
      exact (congrArg Sighting.device (mem_singleton.mp isPeer)).symm
    · exact nodup_singleton _

def hand (facts : Facts) (event : Event) (cause : Cause) : List Sighting :=
  if event.answers.reads cause then
    deliver event.answers ((due facts event.source cause).filter
      (fun sighting => event.answers.healing sighting.network))
  else []

def reading (facts : Facts) (event : Event) : Watermark.Reading Cause Sighting :=
  ⟨event.value.causes, hand facts event⟩

theorem stepOf_reading (facts : Facts) (mark : Option Clock) (event : Event) :
    (stepOf facts mark event).1 = Watermark.advance Cause.time mark event.value.causes ∧
      (stepOf facts mark event).2.Perm
        ((Watermark.fresh Cause.time mark event.value.causes).flatMap (hand facts event)) := by
  obtain ⟨source, value, answers⟩ := event
  cases value with
  | logs lines =>
    have sameFresh : (Watermark.fresh Cause.time mark (lines.map .line)) =
        (Watermark.fresh Line.ts mark lines).map .line := Watermark.fresh_map _ _
    have sorted : (Watermark.fresh Line.ts mark
        (lines.insertionSort (fun one other => one.ts ≤ other.ts))).Perm
          (Watermark.fresh Line.ts mark lines) :=
      (perm_insertionSort _ lines).filter _
    simp only [stepOf, fromLogsTail, Value.causes, sameFresh, Watermark.advance_map]
    rw [flatMap_map]
    split_ifs with unread
    · refine ⟨rfl, List.Perm.of_eq (flatMap_eq_nil_iff.mpr fun line _ => ?_).symm⟩
      have noInventory : answers.inventory = false := by simpa using (Bool.and_eq_true_iff.mp unread).2
      simp [hand, Answers.reads, noInventory]
    · refine ⟨rfl, ?_⟩
      unfold deliver
      rw [filter_flatMap]
      refine (sorted.flatMap_right _).trans (List.Perm.of_eq (flatMap_congr fun line member => ?_))
      unfold hand Answers.reads
      dsimp only
      split_ifs with readable
      · rfl
      · -- Nothing read the inventories: the line is no change.
        have noChange : line.isChange = false := by
          by_contra isChange
          refine unread (Bool.and_eq_true_iff.mpr ⟨any_eq_true.mpr ⟨line, ?_, ?_⟩, ?_⟩)
          · exact sorted.mem_iff.mpr member
          · simpa using isChange
          · simpa using readable
        simp [lineDue, noChange]
  | adjacencies rows =>
    have causes : rows.flatMap (fun entry => entry.2.map (Cause.drop entry.1)) =
        (rows.flatMap (fun entry => entry.2.map (entry.1, ·))).map
          (fun entry => Cause.drop entry.1 entry.2) := by
      rw [map_flatMap]
      simp only [map_map, Function.comp_def]
    simp only [stepOf, fromAdjacencyLog, Value.causes, causes, Watermark.fresh_map,
      Watermark.advance_map]
    generalize rows.flatMap (fun entry => entry.2.map (entry.1, ·)) = drops
    rw [flatMap_map]
    split_ifs with unread
    · refine ⟨rfl, List.Perm.of_eq (flatMap_eq_nil_iff.mpr fun entry _ => ?_).symm⟩
      simp [hand, Answers.reads, unread.2]
    · refine ⟨rfl, ?_⟩
      unfold deliver
      rw [filter_flatMap]
      refine ((perm_insertionSort _ _).flatMap_right _).trans
        (List.Perm.of_eq (flatMap_congr fun entry member => ?_))
      have readable : answers.planned := by
        by_contra unreadable
        exact unread ⟨ne_nil_of_mem member, by simpa using unreadable⟩
      simp [hand, Answers.reads, readable, due, deliver]

def readingsOf (facts : Facts) (source : Str) (events : List Event) :
    List (Watermark.Reading Cause Sighting) :=
  (events.filter (fun event => event.source = source)).map (reading facts)

theorem of_hand (facts : Facts) (event : Event) (cause : Cause)
    (member : sighting ∈ hand facts event cause) : sighting ∈ due facts event.source cause := by
  unfold hand at member
  split_ifs at member
  · exact mem_of_mem_filter (mem_of_mem_filter member)
  · cases member

theorem source_of_mem_stepOf (member : sighting ∈ (stepOf facts mark event).2) :
    sighting.source = event.source := by
  obtain ⟨cause, -, inHand⟩ := mem_flatMap.mp ((stepOf_reading facts mark event).2.mem_iff.mp member)
  exact (of_mem_due (of_hand facts event cause inHand)).1

/-- **A store's own account.** What a run sights for a store is what the store's readings
hand on. -/
theorem count_run (state : (Str → Option Clock) × List Sighting) (sighting : Sighting) :
    (run facts state events).2.count sighting = state.2.count sighting +
      (Watermark.handed Cause.time (state.1 sighting.source)
        (readingsOf facts sighting.source events)).count sighting := by
  induction events generalizing state with
  | nil => simp [run, readingsOf, Watermark.handed]
  | cons event rest ih =>
    obtain ⟨moved, sights⟩ := stepOf_reading facts (state.1 event.source) event
    rw [run, ih]
    dsimp only
    rw [count_append, Nat.add_assoc]
    congr 1
    unfold readingsOf
    by_cases isSource : event.source = sighting.source
    · rw [isSource] at moved sights
      rw [filter_cons_of_pos (by simpa using isSource), map_cons, Watermark.handed,
        count_append, isSource, Function.update_self, moved, sights.count_eq]
      rfl
    · have notSighted : (stepOf facts (state.1 event.source) event).2.count sighting = 0 :=
        count_eq_zero.mpr fun member => isSource (source_of_mem_stepOf member).symm
      rw [filter_cons_of_neg (by simpa using isSource), notSighted, Nat.zero_add,
        Function.update_of_ne (Ne.symm isSource)]

theorem count_sighted (sighting : Sighting) :
    (sighted facts events).count sighting =
      (Watermark.handed Cause.time none (readingsOf facts sighting.source events)).count
        sighting := by
  unfold sighted
  rw [count_run]
  exact Nat.zero_add _

omit [Unicode] in
theorem healing_iff {answers : Answers} {network : Str} :
    answers.healing network ↔ answers.mode network = some true := by
  unfold Answers.healing
  cases answers.mode network <;> simp

theorem hand_nodup (facts : Facts) (event : Event) (cause : Cause) :
    (hand facts event cause).Nodup := by
  unfold hand deliver
  split_ifs
  · exact ((due_nodup facts event.source cause).filter _).filter _
  · exact nodup_nil

theorem mem_hand_iff (isDue : sighting ∈ due facts event.source sighting.cause) :
    sighting ∈ hand facts event sighting.cause ↔ event.Takes sighting := by
  unfold hand Event.Takes deliver
  split_ifs with isRead
  · simp only [mem_filter, isDue, healing_iff, true_and, isRead]
  · simp [isRead]

theorem count_hand_eq_one_iff (isDue : sighting ∈ due facts event.source sighting.cause) :
    (hand facts event sighting.cause).count sighting = 1 ↔ event.Takes sighting := by
  rw [← mem_hand_iff isDue]
  constructor
  · intro once
    exact count_pos_iff.mp (once ▸ Nat.one_pos)
  · exact count_eq_one_of_mem (hand_nodup facts event sighting.cause)

theorem of_readingsOf (facts : Facts) (source : Str) (events : List Event) (sighting : Sighting) :
    Watermark.Of (readingsOf facts source events) sighting.cause sighting := by
  intro one member cause inHand
  obtain ⟨event, -, rfl⟩ := mem_map.mp member
  exact (of_mem_due (of_hand facts event cause inHand)).2.symm

theorem count_sighted_of_first {before after : List Event} {event : Event}
    (isSource : event.source = sighting.source) (holds : sighting.cause ∈ event.value.causes)
    (isFirst : ∀ earlier ∈ before, earlier.source = sighting.source →
      sighting.cause ∉ earlier.value.causes) :
    (sighted facts (before ++ event :: after)).count sighting =
      if Watermark.After Cause.time (readingsOf facts sighting.source before) sighting.cause then
        event.value.causes.count sighting.cause * (hand facts event sighting.cause).count sighting
      else 0 := by
  have isSplit : readingsOf facts sighting.source (before ++ event :: after) =
      readingsOf facts sighting.source before ++
        reading facts event :: readingsOf facts sighting.source after := by
    unfold readingsOf
    rw [filter_append, filter_cons_of_pos (by simpa using isSource), map_append,
      map_cons]
  have isOf := of_readingsOf facts sighting.source (before ++ event :: after) sighting
  rw [isSplit] at isOf
  rw [count_sighted, isSplit, Watermark.count_handed isOf ?_ holds]
  · simp [Watermark.newer, reading]
  · intro earlier member
    obtain ⟨old, isOld, rfl⟩ := mem_map.mp member
    obtain ⟨inBefore, sameSource⟩ := mem_filter.mp isOld
    exact isFirst old inBefore (of_decide_eq_true sameSource)

theorem after_readingsOf {before : List Event} {source : Str} :
    Watermark.After Cause.time (readingsOf facts source before) cause ↔
      ∀ earlier ∈ before, earlier.source = source →
        ∀ other ∈ earlier.value.causes, other.time < cause.time := by
  unfold Watermark.After readingsOf
  simp only [forall_mem_map, mem_filter, decide_eq_true_eq, and_imp]
  rfl

/-- **One trigger** is sighted exactly once exactly when the first step that holds its
line or drop takes it. -/
theorem sighted_once_iff (isDue : sighting ∈ due facts source cause) :
    (sighted facts events).count sighting = 1 ↔ TakenFirst events source sighting := by
  obtain ⟨rfl, rfl⟩ := of_mem_due isDue
  constructor
  · intro once
    have someHolds : ∃ event ∈ events, (event.source = sighting.source ∧
        sighting.cause ∈ event.value.causes : Bool) = true := by
      by_contra noneHolds
      have absent : ∀ one ∈ readingsOf facts sighting.source events,
          sighting.cause ∉ one.items := by
        intro one member holds
        obtain ⟨event, isEvent, rfl⟩ := mem_map.mp member
        obtain ⟨inEvents, isSource⟩ := mem_filter.mp isEvent
        exact noneHolds ⟨event, inEvents, decide_eq_true ⟨of_decide_eq_true isSource, holds⟩⟩
      rw [count_sighted, Watermark.count_handed_absent
        (of_readingsOf facts sighting.source events sighting) absent] at once
      cases once
    obtain ⟨event, found⟩ := Option.isSome_iff_exists.mp (List.find?_isSome.mpr someHolds)
    obtain ⟨isHolder, before, after, rfl, noneBefore⟩ := List.find?_eq_some_iff_append.mp found
    obtain ⟨isSource, holds⟩ := of_decide_eq_true isHolder
    rw [count_sighted_of_first isSource holds (fun earlier member sameSource inEarlier => by
      have notHolder := noneBefore earlier member
      simp [sameSource, inEarlier] at notHolder)] at once
    split_ifs at once with isAfter
    have single := Nat.eq_one_of_mul_eq_one_right once
    have isHand := Nat.eq_one_of_mul_eq_one_left once
    exact ⟨before, event, after, rfl, isSource, single, after_readingsOf.mp isAfter,
      (count_hand_eq_one_iff (isSource ▸ isDue)).mp isHand⟩
  · rintro ⟨before, event, after, rfl, isSource, single, isAfter, takes⟩
    have holds : sighting.cause ∈ event.value.causes := count_pos_iff.mp (single ▸ Nat.one_pos)
    rw [count_sighted_of_first isSource holds (fun earlier member sameSource inEarlier =>
      lt_irrefl _ (isAfter earlier member sameSource _ inEarlier)),
      if_pos (after_readingsOf.mpr isAfter), single,
      (count_hand_eq_one_iff (isSource ▸ isDue)).mpr takes]

end Readings

/-- **No trigger is lost or repeated** exactly in the runs in which, for every trigger a
line or drop is to have, the first step that holds it takes it: its value holds it once, all
its store held before is older, and the step's reads for it answer. -/
theorem triggers_sighted_iff [Unicode] (facts : Facts) (events : List Event) :
    SightedOnce facts events ↔
      ∀ source cause, ∀ sighting ∈ due facts source cause, HealingOn events sighting.network →
        HeldWithoutFailure events source cause → TakenFirst events source sighting := by
  unfold SightedOnce
  refine forall₂_congr fun source cause => forall₂_congr fun sighting isDue => ?_
  rw [sighted_once_iff isDue]

/-- A network's one device, whose changes nobody made through Mercury. -/
def labFacts : Facts where
  networksOf _ := ["lab".ascii]
  serves _ := none
  mercurys _ _ := false
  peer _ _ := []
  explained _ _ := false

def changed : Line :=
  ⟨1700000000, "r1".ascii, "%SYS-5-CONFIG_I".ascii, "Configured from console by admin".ascii⟩

/-- The store holds the line in two steps; the inventories cannot be read in the first. -/
def unreadOnce : List Event :=
  [⟨"logs-tail".ascii, .logs [changed], ⟨false, fun _ => some true, true, fun _ => true⟩⟩,
    ⟨"logs-tail".ascii, .logs [changed], ⟨true, fun _ => some true, true, fun _ => true⟩⟩]

/-- The cursor moved before the inventories were read, and the line is never sighted. -/
theorem unread_inventory_loses_change :
    letI : Unicode := basicLatin
    (sighted labFacts unreadOnce).count
        ⟨"logs-tail".ascii, "lab".ascii, "r1".ascii, .line changed⟩ = 0 ∧
      ¬ SightedOnce labFacts unreadOnce := by
  have never : letI : Unicode := basicLatin
      (sighted labFacts unreadOnce).count
        ⟨"logs-tail".ascii, "lab".ascii, "r1".ascii, .line changed⟩ = 0 := by decide +kernel
  refine ⟨never, fun once => ?_⟩
  have isDue : letI : Unicode := basicLatin
      (⟨"logs-tail".ascii, "lab".ascii, "r1".ascii, .line changed⟩ : Sighting) ∈
        due labFacts "logs-tail".ascii (.line changed) := by decide +kernel
  have isOn : HealingOn unreadOnce "lab".ascii := by
    intro event member
    unfold unreadOnce at member
    rcases List.mem_cons.mp member with rfl | later
    · nofun
    · cases List.mem_singleton.mp later
      nofun
  have isHeld : HeldWithoutFailure unreadOnce "logs-tail".ascii (.line changed) :=
    ⟨_, .tail _ (List.mem_singleton_self _), rfl, List.mem_singleton_self _,
      rfl, fun _ => nofun, rfl, fun _ => rfl⟩
  have one := once _ _ _ isDue isOn isHeld
  rw [never] at one
  cases one

end Nmas.Heal.Triggers
