import Mathlib.Algebra.Order.BigOperators.Group.List
import Mathlib.Algebra.Order.Field.Basic
import Mathlib.Algebra.Order.Field.Rat
import Mathlib.Tactic.Linarith
import Mathlib.Tactic.Ring
import Nmas.Heal.Grace
import Nmas.Log.Keyed
import Nmas.Log.Machine

/-!
Contract: the reservations AI calls hold against the caps, and a store of them
that stops being readable.

Owns:
- `ai/reservations.py`: the store as read by `_read`, `_live`, the late rows, and
  `reserve`, `settle` and `hold_unrecorded`, each one step under the store's lock;
- the runs of calls of the store, with the file damaged between any two;
- exactly when what a damaged file held is never read as nothing while it counts;
- the calls under one cap, which spend no more than it.

Does not own: a reserve's judge, but for a cap's, and whether the record of calls
takes a row; both are what the step is given. A cost is an exact rational of dollars; a
time written as text is its whole seconds.
-/

namespace Nmas.Ai

open Nmas.Text
open Nmas.Heal (Clock)

/-- What `late_row` keeps that is counted. -/
structure LateRow where
  id : Str
  feature : Str
  at_ : Option ℤ
  costUsd : ℚ
deriving DecidableEq

structure Reservation where
  id : Str
  usd : ℚ
  feature : Str
  network : Str
  background : Bool
  day : Str
  at_ : ℤ
  expiresAt : Clock
  unrecorded : Bool
  rows : List LateRow
deriving DecidableEq

abbrev Held := List Reservation

/-- What the store's file holds. A file that cannot be read held these when it
last could. -/
inductive Content where
  | absent
  | readable (held : Held)
  | unreadable (lost : Held) (from_ : Clock)

/-- The file and its last write, where that can be asked. -/
structure File where
  content : Content
  mtime : Option Clock

namespace Reservations

/-- The seconds since the last write, as `_read` takes them. -/
def File.age (file : File) (now : Clock) : Clock :=
  match file.mtime with
  | some mtime => now - mtime
  | none => 0

/-- `_read`; nothing where it raises `Unreadable`. -/
def read (file : File) (now ttl : Clock) : Option Held :=
  match file.content with
  | .absent => some []
  | .readable held => some held
  | .unreadable _ _ => if File.age file now > ttl then some [] else none

/-- A reservation `_live` keeps. -/
def Reservation.isLive (now : Clock) (reservation : Reservation) : Bool :=
  reservation.unrecorded || now < reservation.expiresAt

def live (held : Held) (now : Clock) : Held := held.filter (Reservation.isLive now)

def total (rows : List LateRow) : ℚ := (rows.map LateRow.costUsd).sum

/-- `_record_late`, with what the record answers of each row. -/
def recordLate (takes : LateRow → Bool) (reservation : Reservation) : Option Reservation :=
  match reservation.rows.filter (fun row => !takes row) with
  | [] => none
  | left =>
    if left.length = reservation.rows.length then some reservation
    else some { reservation with rows := left, usd := total left }

/-- The loop of `reserve` over the unrecorded ones. -/
def recordLates (takes : LateRow → Bool) (held : Held) : Held :=
  held.filterMap (fun reservation =>
    if reservation.unrecorded then recordLate takes reservation else some reservation)

/-- `in_flight`: all of it, or a background feature's on a network. -/
def inFlight (held : Held) (scope : Option (Str × Str)) : ℚ :=
  ((held.filter (fun reservation => scope.all (fun pair =>
    reservation.background && reservation.feature = pair.1 && reservation.network = pair.2))).map
      Reservation.usd).sum

/-- What `reserve` is asked for a call. -/
structure Ask where
  id : Str
  usd : ℚ
  feature : Str
  network : Str
  background : Bool
  day : Str

/-- The reservation `reserve` writes. -/
def Ask.reservation (ask : Ask) (now ttl : Clock) : Reservation where
  id := ask.id
  usd := ask.usd
  feature := ask.feature
  network := ask.network
  background := ask.background
  day := ask.day
  at_ := now.floor
  expiresAt := now + ttl
  unrecorded := false
  rows := []

inductive Op where
  | reserve (ask : Ask) (judge : Held → Bool) (takes : LateRow → Bool)
  | settle (id : Str)
  | holdUnrecorded (id : Str) (rows : List LateRow)

/-- One call of the store: its time, the lifetime the caller names, and whether
and when the store could be written. -/
structure Call where
  op : Op
  now : Clock
  ttl : Clock
  writes : Bool
  wroteAt : Option Clock

inductive Answer where
  | done
  /-- `judge` refused. -/
  | refused
  | unreadable
  | unwritable
deriving DecidableEq

/-- `reserve` on what it read: its answer and what it writes. -/
def reserve (held : Held) (ask : Ask) (judge : Held → Bool) (takes : LateRow → Bool)
    (now ttl : Clock) : Answer × Option Held :=
  let kept := recordLates takes (live held now)
  if judge kept then
    (.done, some (Log.put Reservation.id (ask.reservation now ttl) kept))
  else (.refused, if kept = held then none else some kept)

/-- `settle` on what it read. -/
def settle (held : Held) (id : Str) : Answer × Option Held :=
  (.done, if held.any (fun reservation => reservation.id = id) then
    some (held.filter (fun reservation => reservation.id ≠ id)) else none)

/-- `hold_unrecorded` on what it read. -/
def holdUnrecorded (held : Held) (id : Str) (rows : List LateRow) (now ttl : Clock) :
    Answer × Option Held :=
  let base := held.find? (fun reservation => reservation.id = id)
  let at_ := (base.map Reservation.at_).getD now.floor
  let kept := rows.map (fun row => { row with at_ := some (row.at_.getD at_) })
  let reservation : Reservation :=
    match base with
    | some base => { base with usd := total kept, unrecorded := true, rows := kept }
    | none =>
      let feature := (kept.head?.map LateRow.feature).getD []
      ⟨id, total kept, feature, [], false, [], at_, now + ttl, true, kept⟩
  (.done, some (Log.put Reservation.id reservation held))

def Op.run (op : Op) (held : Held) (now ttl : Clock) : Answer × Option Held :=
  match op with
  | .reserve ask judge takes => Reservations.reserve held ask judge takes now ttl
  | .settle id => Reservations.settle held id
  | .holdUnrecorded id rows => Reservations.holdUnrecorded held id rows now ttl

def call (file : File) (made : Call) : Answer × File :=
  match read file made.now made.ttl with
  | none => (.unreadable, file)
  | some held =>
    match made.op.run held made.now made.ttl with
    | (answer, none) => (answer, file)
    | (answer, some next) =>
      if made.writes then (answer, ⟨.readable next, made.wroteAt⟩) else (.unwritable, file)

end Reservations

end Nmas.Ai

namespace Nmas.Ai.Reservations

open Nmas.Text
open Nmas.Heal (Clock)

inductive Event where
  | calls (made : Call)
  /-- From this time on the file cannot be read; its last write is as given. -/
  | damaged (from_ : Clock) (mtime : Option Clock)

def start : File := ⟨.absent, none⟩

def damage (content : Content) (from_ : Clock) : Content :=
  match content with
  | .absent => .unreadable [] from_
  | .readable held => .unreadable held from_
  | .unreadable lost before => .unreadable lost before

def step (file : File) : Event → File
  | .calls made => (call file made).2
  | .damaged from_ mtime => ⟨damage file.content from_, mtime⟩

/-- Nothing of it still counts at this time. -/
def AllEnded (held : Held) (now : Clock) : Prop :=
  ∀ reservation ∈ held, reservation.unrecorded = false ∧ reservation.expiresAt ≤ now

/-- Every later call that names this lifetime refuses the damaged store, unless
nothing of what it held counts by then. -/
def RefusedWhileCounting (file : File) (lost : Held) (from_ ttl : Clock) : Prop :=
  ∀ made : Call, made.ttl = ttl → from_ ≤ made.now →
    (call file made).1 = .unreadable ∨ AllEnded lost made.now

/-- Nothing of it outlives the file's last write by more than this lifetime. -/
def Outlived (file : File) (lost : Held) (from_ ttl : Clock) : Prop :=
  match file.mtime with
  | some mtime => AllEnded lost (max from_ (mtime + ttl))
  | none => 0 ≤ ttl ∨ AllEnded lost from_

variable {file : File} {lost : Held} {from_ ttl now : Clock} {made : Call}

theorem AllEnded.later {later : Clock} (ended : AllEnded lost now) (isLater : now ≤ later) :
    AllEnded lost later :=
  fun reservation member => ⟨(ended reservation member).1, (ended reservation member).2.trans isLater⟩

theorem call_unreadable (isLost : file.content = .unreadable lost from_) :
    (call file made).1 = .unreadable ↔ File.age file made.now ≤ made.ttl := by
  unfold call read
  rw [isLost]
  dsimp only
  by_cases old : File.age file made.now > made.ttl
  · rw [if_pos old]
    refine ⟨fun refused => ?_, fun young => absurd young (not_le.mpr old)⟩
    exfalso
    cases made with
    | mk op now ttl writes wroteAt =>
      cases op with
      | reserve ask judge takes =>
        simp only [Op.run, reserve] at refused
        split at refused <;> grind
      | settle id =>
        simp only [Op.run, settle] at refused
        grind
      | holdUnrecorded id rows =>
        simp only [Op.run, holdUnrecorded] at refused
        grind
  · rw [if_neg old]
    exact ⟨fun _ => not_lt.mp old, fun _ => rfl⟩

theorem refusedWhileCounting_iff (isLost : file.content = .unreadable lost from_) :
    RefusedWhileCounting file lost from_ ttl ↔
      ∀ now, from_ ≤ now → File.age file now ≤ ttl ∨ AllEnded lost now := by
  constructor
  · intro refused now later
    have settled := refused ⟨.settle [], now, ttl, true, none⟩ rfl later
    rwa [call_unreadable isLost] at settled
  · rintro young made rfl later
    rw [call_unreadable isLost]
    exact young made.now later

theorem allEnded_of_after {bound : Clock} (after : ∀ now, bound < now → AllEnded lost now) :
    AllEnded lost bound := by
  intro reservation member
  have next := after (bound + 1) (lt_add_one bound) reservation member
  refine ⟨next.1, le_of_forall_gt_imp_ge_of_dense fun now isLater => ?_⟩
  exact (after now isLater reservation member).2

/-- **A damaged store is refused while it counts exactly when nothing it held
outlives its last write by the lifetime the call names.** -/
theorem refused_iff_outlived (isLost : file.content = .unreadable lost from_) :
    RefusedWhileCounting file lost from_ ttl ↔ Outlived file lost from_ ttl := by
  rw [refusedWhileCounting_iff isLost]
  unfold Outlived File.age
  cases isMtime : file.mtime with
  | some mtime =>
    dsimp only
    constructor
    · intro young
      apply allEnded_of_after
      intro now isLater
      obtain ⟨afterDamage, old⟩ := max_lt_iff.mp isLater
      rcases young now afterDamage.le with within | ended
      · exact absurd (sub_le_iff_le_add'.mp within) (not_le.mpr old)
      · exact ended
    · intro ended now afterDamage
      by_cases within : now - mtime ≤ ttl
      · exact .inl within
      · right
        apply ended.later
        apply max_le afterDamage
        exact (lt_sub_iff_add_lt'.mp (not_le.mp within)).le
  | none =>
    dsimp only
    constructor
    · intro young
      rcases young from_ le_rfl with isTtl | ended
      · exact .inl isTtl
      · exact .inr ended
    · intro either now afterDamage
      exact either.imp_right (fun ended => ended.later afterDamage)

/-- After any run of calls and damage, the store left unreadable is refused by
every later call of a lifetime, while anything it held counts, exactly when
nothing it held outlives its last write by that lifetime. -/
theorem unreadable_refused_iff {events : List Event}
    (isLost : (Log.Machine.run step start events).content = .unreadable lost from_) :
    RefusedWhileCounting (Log.Machine.run step start events) lost from_ ttl ↔
      Outlived (Log.Machine.run step start events) lost from_ ttl :=
  refused_iff_outlived isLost

/-! ### A batch's reservation, and a call after it -/

/-- `gateway.reservation_ttl_s()`. -/
def callTtl : Clock := 2.5 * 235

/-- `gateway.BATCH_RESERVATION_TTL_S`. -/
def batchTtl : Clock := 24 * 3600 + 3600

def batch : Ask := ⟨"ai-batch-1".ascii, 5, "batch".ascii, [], false, "2026-11-05".ascii⟩

/-- A batch reserved, and the file damaged a minute later. -/
def batchDamaged : List Event :=
  [.calls ⟨.reserve batch (fun _ => true) (fun _ => true), 0, batchTtl, true, some 0⟩,
    .damaged 60 (some 0)]

def press : Call :=
  ⟨.reserve ⟨"ai-2".ascii, 1, "explain".ascii, [], false, "2026-11-05".ascii⟩
    (fun _ => true) (fun _ => true), 600, callTtl, true, some 600⟩

instance (held : Held) (now : Clock) : Decidable (AllEnded held now) :=
  inferInstanceAs (Decidable (∀ reservation ∈ held, _))

/-- A later batch waits for the one held. -/
theorem batch_refused : RefusedWhileCounting (Log.Machine.run step start batchDamaged)
    [batch.reservation 0 batchTtl] 60 batchTtl :=
  (unreadable_refused_iff rfl).mpr
    (show AllEnded [batch.reservation 0 batchTtl] (max 60 (0 + batchTtl)) by decide +kernel)

/-- A press does not: it reads the store as empty while the batch counts. -/
theorem batch_read_as_nothing :
    ¬ ∀ events lost from_ ttl,
      (Log.Machine.run step start events).content = .unreadable lost from_ →
        RefusedWhileCounting (Log.Machine.run step start events) lost from_ ttl := by
  intro refused
  have pressed := refused batchDamaged [batch.reservation 0 batchTtl] 60 callTtl rfl press rfl
    (by decide +kernel)
  rcases pressed with isRefused | ended
  · exact absurd isRefused (by decide +kernel)
  · exact absurd ended (by decide +kernel)

/-! ### A cap -/

section Caps

open Function
open Nmas.Log.Machine (run Along)

/-- A cap on what a period's rows cost, of all calls or of a background feature's on a
network. -/
structure Cap where
  scope : Option (Str × Str)
  counts : LateRow → Bool
  usd : ℚ

def Cap.covers (cap : Cap) (one : Reservation) : Bool :=
  cap.scope.all (fun pair => one.background && one.feature = pair.1 && one.network = pair.2)

/-- What `_capped_send` and `ask_batch` judge a call by. -/
def Cap.judge (cap : Cap) (spent : ℚ) (asked : Reservation) (held : Held) : Bool :=
  !cap.covers asked || spent + inFlight held cap.scope + asked.usd ≤ cap.usd

/-- What the cap counts of a reservation's late rows once the record takes them. -/
def Cap.late (cap : Cap) (takes : LateRow → Bool) (one : Reservation) : ℚ :=
  if cap.covers one && one.unrecorded then
    total (one.rows.filter (fun row => takes row && cap.counts row)) else 0

/-- The store, what the record has of each open reservation's calls, and the period's spend. -/
structure Books where
  held : Held
  billed : Str → ℚ
  spent : ℚ

inductive Entry where
  /-- `allows` is what else the judge asks. -/
  | reserves (ask : Ask) (allows : Held → Bool) (takes : LateRow → Bool) (now ttl : Clock)
  | settles (id : Str)
  | holds (id : Str) (rows : List LateRow) (now ttl : Clock)
  /-- The record takes the row of a call of this reservation. -/
  | records (id : Str) (cost : ℚ) (counts : Bool)

/-- An entry in the books, of a store that is read and written. -/
def enter (cap : Cap) (books : Books) : Entry → Books
  | .reserves ask allows takes now ttl =>
    let spent := books.spent + ((live books.held now).map (cap.late takes)).sum
    let judge := fun held => cap.judge spent (ask.reservation now ttl) held && allows held
    ⟨(reserve books.held ask judge takes now ttl).2.getD books.held, update books.billed ask.id 0,
      spent⟩
  | .settles id => { books with held := (settle books.held id).2.getD books.held }
  | .holds id rows now ttl =>
    ⟨(holdUnrecorded books.held id rows now ttl).2.getD books.held, update books.billed id 0,
      books.spent⟩
  | .records id cost counts =>
    ⟨books.held, update books.billed id (books.billed id + cost),
      books.spent + if counts then cost else 0⟩

/-- **The condition.** A call has its own id, its row comes while it is reserved, and the row,
taken or refused, costs no more than what is left of the reservation. -/
def Allowed (cap : Cap) (books : Books) : Entry → Prop
  | .reserves ask _ _ _ _ => 0 ≤ ask.usd ∧ ∀ one ∈ books.held, one.id ≠ ask.id
  | .settles _ => True
  | .holds id rows _ _ => (∀ row ∈ rows, 0 ≤ row.costUsd) ∧
      ∃ one ∈ books.held, one.id = id ∧ total rows ≤ one.usd - books.billed id
  | .records id cost counts => 0 ≤ cost ∧ ∃ one ∈ books.held, one.id = id ∧
      one.unrecorded = false ∧ cost ≤ one.usd - books.billed id ∧
      (counts = true → cap.covers one = true)

/-- What is reserved for calls without a row. -/
def Cap.left (cap : Cap) (billed : Str → ℚ) (one : Reservation) : ℚ :=
  if cap.covers one then one.usd - billed one.id else 0

def Cap.reserved (cap : Cap) (billed : Str → ℚ) (held : Held) : ℚ :=
  (held.map (cap.left billed)).sum

/-- It holds what the record has of its calls, and what its late rows cost. -/
structure Covered (billed : Str → ℚ) (one : Reservation) : Prop where
  least : 0 ≤ billed one.id
  most : billed one.id ≤ one.usd
  late : one.unrecorded = true → billed one.id = 0 ∧ one.usd = total one.rows ∧
    ∀ row ∈ one.rows, 0 ≤ row.costUsd

structure Fits (cap : Cap) (books : Books) : Prop where
  distinct : (books.held.map Reservation.id).Nodup
  covered : ∀ one ∈ books.held, Covered books.billed one
  spend : books.spent + cap.reserved books.billed books.held ≤ cap.usd

variable {cap : Cap} {books : Books} {held few : Held} {billed : Str → ℚ} {spent : ℚ}
  {takes : LateRow → Bool} {one : Reservation} {rows : List LateRow} {id : Str}

theorem total_nonneg (costs : ∀ row ∈ rows, 0 ≤ row.costUsd) : 0 ≤ total rows := by
  refine List.sum_nonneg fun cost isCost => ?_
  obtain ⟨row, isRow, rfl⟩ := List.mem_map.mp isCost
  exact costs row isRow

theorem total_split (taken : LateRow → Bool) (rows : List LateRow) :
    total (rows.filter taken) + total (rows.filter (fun row => !taken row)) = total rows := by
  unfold total
  induction rows with
  | nil => simp
  | cons row rest ih =>
    rw [List.map_cons, List.sum_cons, ← ih]
    cases isTaken : taken row with
    | true => simp [isTaken, add_assoc]
    | false => simp [isTaken, add_left_comm]

theorem Covered.left_nonneg (own : Covered billed one) : 0 ≤ cap.left billed one := by
  unfold Cap.left
  split
  · exact sub_nonneg.mpr own.most
  · exact le_rfl

theorem reserved_sublist (part : few.Sublist held) (covered : ∀ one ∈ held, Covered billed one) :
    cap.reserved billed few ≤ cap.reserved billed held := by
  refine (part.map _).sum_le_sum fun usd isUsd => ?_
  obtain ⟨one, isOne, rfl⟩ := List.mem_map.mp isUsd
  exact (covered one isOne).left_nonneg

theorem reserved_le (covered : ∀ one ∈ held, Covered billed one) :
    cap.reserved billed held ≤ inFlight held cap.scope := by
  show (held.map (cap.left billed)).sum ≤ ((held.filter cap.covers).map Reservation.usd).sum
  induction held with
  | nil => exact le_rfl
  | cons one rest ih =>
    have later := ih fun other isOther => covered other (.tail _ isOther)
    have least := (covered one (.head _)).least
    rw [List.map_cons, List.sum_cons, List.filter_cons, Cap.left]
    split
    · rw [List.map_cons, List.sum_cons]
      linarith
    · rwa [zero_add]

/-! ### The late rows -/

/-- The reservation `_record_late` leaves, with the rows refused. -/
theorem recordLate_eq (usd : one.usd = total one.rows) :
    recordLate takes one =
      let refused := one.rows.filter (fun row => !takes row)
      if refused = [] then none else some { one with rows := refused, usd := total refused } := by
  unfold recordLate
  dsimp only
  split
  · rename_i isNone
    rw [if_pos isNone]
  · rename_i isSome
    rw [if_neg isSome]
    split
    · rename_i same
      rw [List.filter_eq_self.mpr (List.length_filter_eq_length_iff.mp same), ← usd]
    · rfl

/-- The reservation a reserve reads, once the record was asked to take its late rows. -/
def readLate (takes : LateRow → Bool) (one : Reservation) : Option Reservation :=
  if one.unrecorded then recordLate takes one else some one

theorem readLate_covered (own : Covered billed one) :
    cap.late takes one + (readLate takes one).elim 0 (cap.left billed) ≤ cap.left billed one ∧
      ∀ left ∈ readLate takes one, left.id = one.id ∧ Covered billed left := by
  unfold readLate Cap.late
  by_cases isLate : one.unrecorded
  · obtain ⟨noBill, usd, costs⟩ := own.late isLate
    rw [if_pos isLate, isLate, Bool.and_true]
    constructor
    · have isLeft : (recordLate takes one).elim 0 (cap.left billed) =
          if cap.covers one then total (one.rows.filter (fun row => !takes row)) else 0 := by
        rw [recordLate_eq usd]
        by_cases isNone : one.rows.filter (fun row => !takes row) = []
        · simp [isNone, total]
        · rw [if_neg isNone]
          show (if cap.covers one then _ - billed one.id else 0) = _
          rw [noBill, sub_zero]
      have parts := total_split takes one.rows
      have counted := total_split cap.counts (one.rows.filter takes)
      have others : 0 ≤ total ((one.rows.filter takes).filter (fun row => !cap.counts row)) :=
        total_nonneg fun row isRow =>
          costs row (List.mem_filter.mp (List.mem_filter.mp isRow).1).1
      simp only [List.filter_filter, Bool.and_comm] at counted others
      rw [isLeft, Cap.left, noBill, usd]
      split
      · linarith
      · rw [add_zero]
    · have refused : ∀ row ∈ one.rows.filter (fun row => !takes row), 0 ≤ row.costUsd :=
        fun row isRow => costs row (List.mem_filter.mp isRow).1
      intro left isLeft
      rw [recordLate_eq usd] at isLeft
      dsimp only at isLeft
      split at isLeft
      · cases isLeft
      · cases isLeft
        exact ⟨rfl, own.least, noBill.trans_le (total_nonneg refused),
          fun _ => ⟨noBill, rfl, refused⟩⟩
  · simp [isLate, own]

theorem recordLates_cons : recordLates takes (one :: held) =
    (readLate takes one).toList ++ recordLates takes held := by
  show (one :: held).filterMap (readLate takes) = _ ++ held.filterMap (readLate takes)
  rw [List.filterMap_cons]
  cases readLate takes one <;> rfl

/-- **The late rows.** What the record takes of them is no longer reserved. -/
theorem recordLates_covered (covered : ∀ one ∈ held, Covered billed one) :
    ((recordLates takes held).map Reservation.id).Sublist (held.map Reservation.id) ∧
      (∀ one ∈ recordLates takes held, Covered billed one) ∧
      (held.map (cap.late takes)).sum + cap.reserved billed (recordLates takes held) ≤
        cap.reserved billed held := by
  induction held with
  | nil => simp [recordLates, Cap.reserved]
  | cons one rest ih =>
    obtain ⟨ids, kept, later⟩ := ih fun other isOther => covered other (.tail _ isOther)
    obtain ⟨less, own⟩ := @readLate_covered cap _ takes _ (covered one (.head _))
    unfold Cap.reserved at later ⊢
    rw [recordLates_cons]
    simp only [List.map_cons, List.sum_cons]
    cases isLeft : readLate takes one with
    | none =>
      refine ⟨ids.cons _, kept, ?_⟩
      simp only [isLeft, Option.toList_none, Option.elim_none, List.nil_append] at less ⊢
      linarith
    | some left =>
      obtain ⟨sameId, isCovered⟩ := own left isLeft
      refine ⟨by simpa [sameId] using ids, List.forall_mem_cons.mpr ⟨isCovered, kept⟩, ?_⟩
      simp only [isLeft, Option.toList_some, Option.elim_some, List.singleton_append, List.map_cons,
        List.sum_cons] at less ⊢
      linarith

/-! ### An entry -/

theorem left_other {usd : ℚ} (isOther : one.id ≠ id) :
    cap.left (update billed id usd) one = cap.left billed one := by
  rw [Cap.left, update_of_ne isOther, Cap.left]

theorem left_absent {usd : ℚ} (absent : ∀ one ∈ held, one.id ≠ id) :
    held.map (cap.left (update billed id usd)) = held.map (cap.left billed) :=
  List.map_congr_left fun one isOne => left_other (absent one isOne)

theorem Covered.moved {usd : ℚ} (own : Covered billed one) (isOther : one.id ≠ id) :
    Covered (update billed id usd) one := by
  have same : update billed id usd one.id = billed one.id := update_of_ne isOther _ _
  exact ⟨same ▸ own.least, same ▸ own.most, same ▸ own.late⟩

/-- **One reservation changed.** -/
theorem reserved_amend {usd : ℚ} {change : Reservation → Reservation}
    (distinct : (held.map Reservation.id).Nodup) (isOne : one ∈ held) :
    cap.reserved (update billed one.id usd) (Log.amend Reservation.id one.id change held) =
      cap.reserved billed held - cap.left billed one +
        cap.left (update billed one.id usd) (change one) := by
  unfold Cap.reserved Log.amend
  induction held with
  | nil => cases isOne
  | cons first rest ih =>
    obtain ⟨isNew, distinct⟩ := List.nodup_cons.mp distinct
    simp only [List.map_cons, List.sum_cons]
    rcases List.mem_cons.mp isOne with rfl | isLater
    · have absent (other : Reservation) (isOther : other ∈ rest) : other.id ≠ one.id := fun same =>
        isNew (List.mem_map.mpr ⟨other, isOther, same⟩)
      rw [if_pos rfl, List.map_congr_left fun other isOther => if_neg (absent other isOther),
        List.map_id', left_absent absent]
      ring
    · have notFirst : first.id ≠ one.id := fun same =>
        isNew (List.mem_map.mpr ⟨one, isLater, same.symm⟩)
      rw [if_neg notFirst, left_other notFirst, ih distinct isLater]
      ring

/-- A reservation changed, with what its spend and what is left of it come to. -/
theorem Fits.changes {usd after : ℚ} {change : Reservation → Reservation}
    (fits : Fits cap ⟨held, billed, spent⟩) (isOne : one ∈ held)
    (sameId : ∀ other, other.id = one.id → (change other).id = one.id)
    (own : Covered (update billed one.id usd) (change one))
    (room : after + cap.left (update billed one.id usd) (change one) ≤
      spent + cap.left billed one) :
    Fits cap ⟨Log.amend Reservation.id one.id change held, update billed one.id usd, after⟩ := by
  have amended := @reserved_amend cap held billed one usd change fits.distinct isOne
  refine ⟨?_, fun left isLeft => ?_, ?_⟩
  · rw [Log.map_key_amend sameId]
    exact fits.distinct
  · obtain ⟨was, isWas, rfl⟩ := List.mem_map.mp isLeft
    split
    · rename_i same
      rwa [List.inj_on_of_nodup_map fits.distinct isWas isOne same]
    · rename_i isOther
      exact (fits.covered was isWas).moved isOther
  · have within := fits.spend
    dsimp only at within ⊢
    linarith

theorem Fits.others (fits : Fits cap ⟨held, billed, spent⟩) (isNew : ∀ one ∈ held, one.id ≠ id) :
    Fits cap ⟨held, update billed id 0, spent⟩ :=
  ⟨fits.distinct, fun one isOne => (fits.covered one isOne).moved (isNew one isOne),
    (congrArg (spent + ·.sum) (left_absent isNew)).trans_le fits.spend⟩

/-- **A call reserved.** The judge leaves room for it. -/
theorem Fits.asks (fits : Fits cap ⟨held, billed, spent⟩) (isNew : ∀ other ∈ held, other.id ≠ one.id)
    (least : 0 ≤ one.usd) (notLate : one.unrecorded = false)
    (judged : cap.judge spent one held = true) :
    Fits cap ⟨held ++ [one], update billed one.id 0, spent⟩ := by
  have rest := fits.others isNew
  have noBill : update billed one.id 0 one.id = 0 := update_self ..
  refine ⟨?_, fun other isOther => ?_, ?_⟩
  · rw [List.map_append]
    refine List.Nodup.append fits.distinct (List.nodup_singleton _) ?_
    simpa [List.disjoint_singleton] using isNew
  · rcases List.mem_append.mp isOther with isHeld | isLast
    · exact rest.covered other isHeld
    · obtain rfl := List.mem_singleton.mp isLast
      refine ⟨noBill.ge, noBill.trans_le least, fun isLate => ?_⟩
      cases notLate.symm.trans isLate
  · have within := rest.spend
    have flying := @reserved_le cap _ _ rest.covered
    unfold Cap.reserved at within flying ⊢
    unfold Cap.judge at judged
    simp only [List.map_append, List.sum_append, List.map_singleton, List.sum_singleton, Cap.left,
      noBill] at within flying ⊢
    cases isCovered : cap.covers one with
    | true =>
      have room : spent + inFlight held cap.scope + one.usd ≤ cap.usd := by
        simpa [isCovered] using judged
      simp only [if_true]
      linarith
    | false => simpa using within

theorem reserve_next {ask : Ask} {judge : Held → Bool} {now ttl : Clock}
    (isNew : ∀ one ∈ recordLates takes (live held now), one.id ≠ ask.id) :
    (reserve held ask judge takes now ttl).2.getD held =
      recordLates takes (live held now) ++
        if judge (recordLates takes (live held now)) then [ask.reservation now ttl] else [] := by
  unfold reserve
  dsimp only
  split
  · exact Log.put_of_new isNew
  · rw [List.append_nil]
    split
    · rename_i same
      exact same.symm
    · rfl

theorem holdUnrecorded_next {now ttl : Clock} (distinct : (held.map Reservation.id).Nodup)
    (isOne : one ∈ held) : ∃ late : Reservation, late.id = one.id ∧ late.usd = total late.rows ∧
      cap.covers late = cap.covers one ∧
      late.rows.map LateRow.costUsd = rows.map LateRow.costUsd ∧
      (holdUnrecorded held one.id rows now ttl).2.getD held =
        Log.amend Reservation.id one.id (fun _ => late) held := by
  have isFound := (Log.find_eq_some_iff distinct).mpr ⟨isOne, rfl⟩
  let kept := rows.map (fun row => { row with at_ := some (row.at_.getD one.at_) })
  refine ⟨{ one with usd := total kept, unrecorded := true, rows := kept }, rfl, rfl, rfl,
    by simp [kept, Function.comp_def], ?_⟩
  unfold holdUnrecorded
  rw [isFound]
  exact if_pos (List.any_eq_true.mpr ⟨one, isOne, decide_eq_true rfl⟩)

theorem enter_fits (cap : Cap) (books : Books) (entry : Entry) (fits : Fits cap books)
    (isAllowed : Allowed cap books entry) : Fits cap (enter cap books entry) := by
  have covered := fits.covered
  cases entry with
  | reserves ask allows takes now ttl =>
    obtain ⟨least, isNew⟩ := isAllowed
    obtain ⟨ids, kept, left⟩ := @recordLates_covered cap _ _ takes fun one isOne =>
      covered one (List.mem_filter.mp isOne).1
    have ids := ids.trans ((List.filter_sublist (p := Reservation.isLive now)).map _)
    have isNew : ∀ one ∈ recordLates takes (live books.held now), one.id ≠ ask.id := by
      intro one isOne same
      obtain ⟨other, isOther, sameId⟩ := List.mem_map.mp (ids.subset (List.mem_map_of_mem isOne))
      exact isNew other isOther (sameId.trans same)
    have fits : Fits cap ⟨recordLates takes (live books.held now), books.billed,
        books.spent + ((live books.held now).map (cap.late takes)).sum⟩ := by
      refine ⟨ids.nodup fits.distinct, kept, ?_⟩
      have less := left.trans (reserved_sublist List.filter_sublist covered)
      rw [add_assoc]
      exact (add_le_add_right less _).trans fits.spend
    unfold enter
    dsimp only
    rw [reserve_next isNew]
    split
    · rename_i judged
      exact fits.asks isNew least rfl (Bool.and_eq_true_iff.mp judged).1
    · rw [List.append_nil]
      exact fits.others isNew
  | settles id =>
    have part : (enter cap books (.settles id)).held.Sublist books.held := by
      unfold enter settle
      dsimp only
      split
      · exact List.filter_sublist
      · exact .refl _
    refine ⟨(part.map _).nodup fits.distinct, fun one isOne => covered one (part.subset isOne), ?_⟩
    exact (add_le_add_right (reserved_sublist part covered) _).trans fits.spend
  | holds id rows now ttl =>
    obtain ⟨costs, base, isBase, rfl, fewer⟩ := isAllowed
    obtain ⟨late, sameId, usd, sameScope, sameCosts, isNext⟩ :=
      @holdUnrecorded_next cap _ _ rows now ttl fits.distinct isBase
    have noBill : update books.billed base.id 0 late.id = 0 := by rw [sameId, update_self]
    have lateCosts : ∀ row ∈ late.rows, 0 ≤ row.costUsd := by
      intro row isRow
      obtain ⟨other, isOther, same⟩ := List.mem_map.mp (sameCosts ▸ List.mem_map_of_mem isRow)
      exact (costs other isOther).trans_eq same
    unfold enter
    dsimp only
    rw [isNext]
    refine fits.changes isBase (fun _ _ => sameId) ⟨noBill.ge,
      noBill.trans_le (usd ▸ total_nonneg lateCosts), fun _ => ⟨noBill, usd, lateCosts⟩⟩ ?_
    have sameUsd : late.usd = total rows := usd.trans (congrArg List.sum sameCosts)
    rw [Cap.left, Cap.left, sameScope, noBill, sameUsd, sub_zero]
    split
    · exact add_le_add_right fewer _
    · exact le_rfl
  | records id cost counts =>
    obtain ⟨least, base, isBase, rfl, notLate, fewer, inScope⟩ := isAllowed
    have same : update books.billed base.id (books.billed base.id + cost) base.id =
      books.billed base.id + cost := update_self ..
    have own : Covered (update books.billed base.id (books.billed base.id + cost)) base := by
      refine ⟨(add_nonneg (covered base isBase).least least).trans_eq same.symm,
        same.trans_le (by linarith), fun isLate => ?_⟩
      cases notLate.symm.trans isLate
    have next := @Fits.changes cap _ _ _ _ _ (books.spent + if counts then cost else 0)
      (fun one => one) fits isBase (fun _ isId => isId) own
    rw [Log.amend_self] at next
    refine next ?_
    rw [Cap.left, Cap.left, same]
    cases counts with
    | true =>
      rw [if_pos rfl, if_pos (inScope rfl), if_pos (inScope rfl)]
      linarith
    | false =>
      rw [if_neg Bool.false_ne_true]
      split
      · linarith
      · linarith

/-- **The cap holds.** In whatever order calls reserve, get a row or none, expire and are
settled, the spend and what is reserved for calls without a row stay within it. -/
theorem spend_within_cap {entries : List Entry} (fits : Fits cap books)
    (along : Along (enter cap) (Allowed cap) books entries) :
    let after := run (enter cap) books entries
    after.spent + cap.reserved after.billed after.held ≤ cap.usd ∧ after.spent ≤ cap.usd := by
  have after := along.keeps (enter_fits cap) fits
  refine ⟨after.spend, (le_add_of_nonneg_right (List.sum_nonneg fun usd isUsd => ?_)).trans
    after.spend⟩
  obtain ⟨one, isOne, rfl⟩ := List.mem_map.mp isUsd
  exact (after.covered one isOne).left_nonneg

instance decidableAllowed (cap : Cap) (books : Books) : ∀ entry, Decidable (Allowed cap books entry)
  | .reserves _ _ _ _ _ | .holds _ _ _ _ | .records _ _ _ => inferInstanceAs (Decidable (_ ∧ _))
  | .settles _ => isTrue trivial

/-- Of a batch, the record takes one row and refuses another. -/
def twoCalls : List Entry :=
  [.reserves batch (fun _ => true) (fun _ => true) 0 batchTtl, .records batch.id 2 true,
    .holds batch.id [⟨"ai-3".ascii, "batch".ascii, none, 3⟩] 60 batchTtl]

theorem twoCalls_within :
    let cap : Cap := ⟨none, fun _ => true, 6⟩
    let after := run (enter cap) ⟨[], fun _ => 0, 0⟩ twoCalls
    after.spent + cap.reserved after.billed after.held ≤ 6 ∧ after.spent ≤ 6 :=
  spend_within_cap ⟨List.nodup_nil, nofun, by decide +kernel⟩ (by decide +kernel)

end Caps

end Nmas.Ai.Reservations
