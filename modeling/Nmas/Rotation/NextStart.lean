import Nmas.Rotation.Run

/-!
Contract: the first moment the timer may start a policy's run.

Owns: `next_start` of `nsot/scheduled_rotation.py`, and when it answers the least moment its
policy's window admits and no no-change window covers.

The search hops to the next hour outside the preferred window, and to a covering window's end
inside it. A hop from whole seconds passes no such moment; each hop passes an hour or the end of
a window, so a day holds no more than 24 and one for each window.
-/

namespace Nmas.Rotation

/-! ### The search -/

/-- Python's `int`, toward zero. -/
def int_ (now : Clock) : ℤ := if 0 ≤ now then ⌊now⌋ else ⌈now⌉

/-- A window whose ends are `HH:MM`. -/
def NoChange.WellFormed (window : NoChange) : Prop := window.start < 1440 ∧ window.end_ < 1440

/-- `(_minute(w["end"]) - minute) % 1440 or 1440`. -/
def NoChange.ahead (window : NoChange) (now : Clock) : ℤ :=
  let left := ((window.end_ : ℤ) - minuteOf now) % 1440
  if left = 0 then 1440 else left

def nextHour (now : Clock) : Clock := ((int_ now / 3600 + 1) * 3600 : ℤ)

def NoChange.over (window : NoChange) (now : Clock) : Clock :=
  (int_ now / 60 * 60 + window.ahead now * 60 : ℤ)

/-- `next_start`'s loop. -/
def nextStartFrom (policy : Policy) (windows : List NoChange) : ℕ → Clock → Option Clock
  | 0, _ => none
  | steps + 1, now =>
    if !inWindow policy now then nextStartFrom policy windows steps (nextHour now)
    else match holding windows now with
      | some window => nextStartFrom policy windows steps (window.over now)
      | none => some now

def nextStart (policy : Policy) (now : Clock) (windows : List NoChange) : Option Clock :=
  nextStartFrom policy windows 96 now

/-! ### What it is to find -/

section Search

variable (policy : Policy) (windows : List NoChange)

/-- A run may start: the policy's window admits the moment and no window covers it. -/
def Allowed (now : Clock) : Prop :=
  inWindow policy now = true ∧ ∀ window ∈ windows, window.covers now = false

/-- An answer is the first allowed moment, none where there is no such moment. -/
def First (now : Clock) : Option Clock → Prop
  | some found => now ≤ found ∧ Allowed policy windows found ∧
      ∀ other, now ≤ other → Allowed policy windows other → found ≤ other
  | none => ∀ other, now ≤ other → ¬ Allowed policy windows other

def hop (now : Clock) : Clock :=
  if !inWindow policy now then nextHour now
  else match holding windows now with
    | some window => window.over now
    | none => now

end Search

variable {policy : Policy} {windows : List NoChange} {now other : Clock}

theorem allowed_iff :
    Allowed policy windows now ↔ inWindow policy now ∧ holding windows now = none := by
  unfold Allowed holding
  rw [List.find?_eq_none]
  simp only [Bool.not_eq_true]

theorem hop_of_allowed (allowed : Allowed policy windows now) : hop policy windows now = now := by
  obtain ⟨isIn, isFree⟩ := allowed_iff.mp allowed
  rw [hop, isIn, isFree]
  rfl

theorem hop_cases (notAllowed : ¬ Allowed policy windows now) :
    inWindow policy now = false ∧ hop policy windows now = nextHour now ∨
      ∃ window ∈ windows, window.covers now ∧ hop policy windows now = window.over now := by
  unfold hop
  cases isIn : inWindow policy now with
  | false => exact .inl ⟨rfl, rfl⟩
  | true =>
    cases isHeld : holding windows now with
    | none => exact absurd (allowed_iff.mpr ⟨isIn, isHeld⟩) notAllowed
    | some window =>
      refine .inr ⟨window, List.mem_of_find?_eq_some isHeld, ?_, rfl⟩
      unfold holding at isHeld
      have covers := List.find?_some isHeld
      exact covers

theorem nextStartFrom_some {steps : ℕ} {found : Clock}
    (isFound : nextStartFrom policy windows steps now = some found) :
    ∃ hops < steps, (hop policy windows)^[hops] now = found ∧ Allowed policy windows found := by
  induction steps generalizing now with
  | zero => cases isFound
  | succ steps ih =>
    have onward {next : Clock} (isHop : hop policy windows now = next)
        (isNext : nextStartFrom policy windows steps next = some found) :
        ∃ hops < steps + 1, (hop policy windows)^[hops] now = found ∧
          Allowed policy windows found := by
      obtain ⟨hops, isFew, isAt, allowed⟩ := ih isNext
      exact ⟨hops + 1, Nat.succ_lt_succ isFew,
        by rw [Function.iterate_succ_apply, isHop, isAt], allowed⟩
    rw [nextStartFrom] at isFound
    cases isIn : inWindow policy now with
    | false =>
      rw [isIn] at isFound
      exact onward (by rw [hop, isIn]; rfl) isFound
    | true =>
      rw [isIn] at isFound
      cases isHeld : holding windows now with
      | some window =>
        rw [isHeld] at isFound
        exact onward (by rw [hop, isIn, isHeld]; rfl) isFound
      | none =>
        rw [isHeld] at isFound
        obtain rfl : now = found := Option.some_inj.mp isFound
        exact ⟨0, Nat.succ_pos _, rfl, allowed_iff.mpr ⟨isIn, isHeld⟩⟩

theorem nextStartFrom_isSome {steps hops : ℕ} (isFew : hops < steps)
    (allowed : Allowed policy windows ((hop policy windows)^[hops] now)) :
    ∃ found, nextStartFrom policy windows steps now = some found := by
  induction steps generalizing now hops with
  | zero => exact absurd isFew (Nat.not_lt_zero _)
  | succ steps ih =>
    rw [nextStartFrom]
    by_cases isHere : Allowed policy windows now
    · obtain ⟨isIn, isFree⟩ := allowed_iff.mp isHere
      exact ⟨now, by rw [isIn, isFree]; rfl⟩
    · cases hops with
      | zero => exact absurd allowed isHere
      | succ hops =>
        rw [Function.iterate_succ_apply] at allowed
        obtain ⟨found, isFound⟩ := ih (Nat.lt_of_succ_lt_succ isFew) allowed
        refine ⟨found, ?_⟩
        rw [← isFound]
        unfold hop
        cases isIn : inWindow policy now with
        | false => rfl
        | true =>
          cases isHeld : holding windows now with
          | some window => rfl
          | none => exact absurd (allowed_iff.mpr ⟨isIn, isHeld⟩) isHere

/-! ### Where a hop lands -/

theorem minuteOf_eq : (minuteOf now : ℤ) = ⌊now⌋ / 60 % 1440 := by
  have isFloor : minuteOf now = (⌊now⌋ % 86400 / 60).toNat := rfl
  omega

theorem inWindow_congr (same : hourOf other = hourOf now) :
    inWindow policy other = inWindow policy now := by
  unfold inWindow
  rw [same]

theorem covers_iff {window : NoChange} : window.covers now ↔
    (window.start : ℤ) ≤ ⌊now⌋ / 60 % 1440 ∧ ⌊now⌋ / 60 % 1440 < window.end_ ∨
      window.end_ < window.start ∧
        ((window.start : ℤ) ≤ ⌊now⌋ / 60 % 1440 ∨ ⌊now⌋ / 60 % 1440 < window.end_) := by
  have isMinute := @minuteOf_eq now
  unfold NoChange.covers
  split
  · rw [Bool.and_eq_true, decide_eq_true_eq, decide_eq_true_eq]
    omega
  · split
    · rw [Bool.or_eq_true, decide_eq_true_eq, decide_eq_true_eq]
      omega
    · simp only [Bool.false_eq_true, false_iff]
      omega

theorem ahead_eq {window : NoChange} (isWell : window.WellFormed) :
    window.ahead now = 1 + (window.end_ - ⌊now⌋ / 60 - 1) % 1440 := by
  have isMinute := @minuteOf_eq now
  obtain ⟨-, endsEarly⟩ := isWell
  have isAhead : window.ahead now =
      if ((window.end_ : ℤ) - minuteOf now) % 1440 = 0 then 1440
      else ((window.end_ : ℤ) - minuteOf now) % 1440 := rfl
  rw [isAhead, isMinute]
  split
  · omega
  · omega

theorem floor_le_int : ⌊now⌋ ≤ int_ now := by
  unfold int_
  split
  · exact le_rfl
  · exact Int.floor_le_ceil now

theorem int_of_nonneg (isPositive : 0 ≤ now) : int_ now = ⌊now⌋ := if_pos isPositive

theorem int_whole (second : ℤ) : int_ (second : Clock) = ⌊(second : Clock)⌋ := by
  unfold int_
  split
  · rfl
  · rw [Int.ceil_intCast, Int.floor_intCast]

section WellFormed

variable (wellFormed : ∀ window ∈ windows, window.WellFormed)
include wellFormed

theorem hop_onward (notAllowed : ¬ Allowed policy windows now) :
    ∃ second : ℤ, hop policy windows now = second ∧ ⌊now⌋ < second := by
  have isFloor := @floor_le_int now
  rcases hop_cases notAllowed with ⟨-, isHop⟩ | ⟨window, isWindow, -, isHop⟩
  · exact ⟨_, isHop, by omega⟩
  · have isAhead := @ahead_eq now window (wellFormed window isWindow)
    exact ⟨_, isHop, by omega⟩

theorem le_hop : now ≤ hop policy windows now := by
  by_cases allowed : Allowed policy windows now
  · rw [hop_of_allowed allowed]
  · obtain ⟨second, isHop, isLater⟩ := hop_onward wellFormed allowed
    rw [isHop]
    exact (Int.floor_lt.mp isLater).le

theorem hop_passes_none (isWhole : int_ now = ⌊now⌋) (isLater : now ≤ other)
    (isBefore : other < hop policy windows now) : ¬ Allowed policy windows other := by
  have after : ⌊now⌋ ≤ ⌊other⌋ := Int.floor_mono isLater
  intro allowed
  by_cases isHere : Allowed policy windows now
  · rw [hop_of_allowed isHere] at isBefore
    exact absurd isBefore (not_lt.mpr isLater)
  · rcases hop_cases isHere with ⟨isOut, isHop⟩ | ⟨window, isWindow, covers, isHop⟩
    · rw [isHop, nextHour, ← Int.floor_lt, isWhole] at isBefore
      have same : hourOf other = hourOf now := by
        have isMinute := @minuteOf_eq now
        have isOther := @minuteOf_eq other
        unfold hourOf
        omega
      rw [← inWindow_congr same, allowed.1] at isOut
      cases isOut
    · rw [isHop, NoChange.over, ← Int.floor_lt, isWhole] at isBefore
      have isAhead := @ahead_eq now window (wellFormed window isWindow)
      obtain ⟨startsEarly, endsEarly⟩ := wellFormed window isWindow
      have stillCovers : window.covers other := by
        rw [covers_iff] at covers ⊢
        omega
      rw [allowed.2 window isWindow] at stillCovers
      cases stillCovers

theorem hops_le (isWhole : int_ now = ⌊now⌋) (isLater : now ≤ other)
    (allowed : Allowed policy windows other) (hops : ℕ) :
    (hop policy windows)^[hops] now ≤ other := by
  induction hops generalizing now with
  | zero => exact isLater
  | succ hops ih =>
    rw [Function.iterate_succ_apply]
    by_cases isHere : Allowed policy windows now
    · rw [hop_of_allowed isHere]
      exact ih isWhole isLater
    · obtain ⟨second, isHop, -⟩ := hop_onward wellFormed isHere
      have isNext : hop policy windows now ≤ other :=
        not_lt.mp fun isBefore => hop_passes_none wellFormed isWhole isLater isBefore allowed
      exact ih (by rw [isHop]; exact int_whole second) isNext

theorem le_hops (hops : ℕ) : now ≤ (hop policy windows)^[hops] now := by
  induction hops generalizing now with
  | zero => exact le_rfl
  | succ hops ih =>
    rw [Function.iterate_succ_apply]
    exact (le_hop wellFormed).trans ih

/-! ### How many hops a day holds -/

def NoChange.endsBy (window : NoChange) (minute last : ℤ) : Bool :=
  minute + 1 + (window.end_ - minute - 1) % 1440 ≤ last

omit wellFormed in
private theorem endsBy_mono {window : NoChange} {minute later last : ℤ} (isLater : minute ≤ later)
    (ends : window.endsBy later last) : window.endsBy minute last := by
  unfold NoChange.endsBy at ends ⊢
  rw [decide_eq_true_eq] at ends ⊢
  omega

omit wellFormed in
private theorem countP_lt {α : Type} {items : List α} (fewer more : α → Bool) {one : α}
    (inside : one ∈ items) (isMore : more one) (isFewer : fewer one = false)
    (each : ∀ item ∈ items, fewer item → more item) :
    items.countP fewer < items.countP more := by
  obtain ⟨front, back, rfl⟩ := List.append_of_mem inside
  have atFront : front.countP fewer ≤ front.countP more :=
    List.countP_mono_left fun item isItem => each item (List.mem_append_left _ isItem)
  have atBack : back.countP fewer ≤ back.countP more :=
    List.countP_mono_left fun item isItem =>
      each item (List.mem_append_right _ (.tail _ isItem))
  rw [List.countP_append, List.countP_append, List.countP_cons_of_neg (by simp [isFewer]),
    List.countP_cons_of_pos isMore]
  omega

def left (windows : List NoChange) (now last : Clock) : ℕ :=
  (⌊last⌋ / 3600 - ⌊now⌋ / 3600).toNat +
    windows.countP fun window => window.endsBy (⌊now⌋ / 60) (⌊last⌋ / 60)

theorem left_hop (isWhole : int_ now = ⌊now⌋) (notAllowed : ¬ Allowed policy windows now)
    (isNext : hop policy windows now ≤ other) (isNear : other < now + 86400) :
    left windows (hop policy windows now) other < left windows now other := by
  obtain ⟨second, isHop, isLater⟩ := hop_onward wellFormed notAllowed
  have within : second ≤ ⌊other⌋ := Int.le_floor.mpr (isHop ▸ isNext)
  have near : ⌊other⌋ ≤ ⌊now⌋ + 86400 := by
    have isFloor := Int.floor_mono isNear.le
    rwa [Int.floor_add_ofNat] at isFloor
  have fewerHours : (⌊other⌋ / 3600 - second / 3600).toNat ≤
      (⌊other⌋ / 3600 - ⌊now⌋ / 3600).toNat := by omega
  have noMore : ∀ window ∈ windows, window.endsBy (second / 60) (⌊other⌋ / 60) →
      window.endsBy (⌊now⌋ / 60) (⌊other⌋ / 60) = true :=
    fun window _ => endsBy_mono (by omega)
  have fewerWindows : windows.countP (fun window => window.endsBy (second / 60) (⌊other⌋ / 60)) ≤
      windows.countP (fun window => window.endsBy (⌊now⌋ / 60) (⌊other⌋ / 60)) :=
    List.countP_mono_left noMore
  rw [left, left, isHop, Int.floor_intCast]
  rcases hop_cases notAllowed with ⟨-, isHour⟩ | ⟨window, isWindow, -, isOver⟩
  · have isSecond : second = (int_ now / 3600 + 1) * 3600 := by
      rw [nextHour, isHop] at isHour
      exact_mod_cast isHour
    omega
  · have isSecond : second = int_ now / 60 * 60 + window.ahead now * 60 := by
      rw [NoChange.over, isHop] at isOver
      exact_mod_cast isOver
    have isAhead := @ahead_eq now window (wellFormed window isWindow)
    have passed := countP_lt (fun window => window.endsBy (second / 60) (⌊other⌋ / 60))
      (fun window => window.endsBy (⌊now⌋ / 60) (⌊other⌋ / 60)) isWindow
      (by unfold NoChange.endsBy; rw [decide_eq_true_eq]; omega)
      (by unfold NoChange.endsBy; rw [decide_eq_false_iff_not]; omega) noMore
    omega

theorem allowed_within (isWhole : int_ now = ⌊now⌋) (isLater : now ≤ other)
    (isNear : other < now + 86400) (allowed : Allowed policy windows other) :
    ∃ hops ≤ left windows now other, Allowed policy windows ((hop policy windows)^[hops] now) := by
  induction measure : left windows now other using Nat.strong_induction_on generalizing now with
  | _ room ih =>
    by_cases isHere : Allowed policy windows now
    · exact ⟨0, Nat.zero_le _, isHere⟩
    · have isNext : hop policy windows now ≤ other :=
        not_lt.mp fun isBefore => hop_passes_none wellFormed isWhole isLater isBefore allowed
      have fewer := left_hop wellFormed isWhole isHere isNext isNear
      obtain ⟨second, isHop, -⟩ := hop_onward wellFormed isHere
      have isOn : now ≤ hop policy windows now := le_hop wellFormed
      have stillNear : other < hop policy windows now + 86400 := by linarith
      obtain ⟨hops, isFew, isThere⟩ := ih _ (measure ▸ fewer)
        (by rw [isHop]; exact int_whole second) isNext stillNear rfl
      exact ⟨hops + 1, by omega, by rwa [Function.iterate_succ_apply]⟩

omit wellFormed in
theorem allowed_day (allowed : Allowed policy windows other) (days : ℤ) :
    Allowed policy windows (other - days * 86400) := by
  have isFloor : ⌊other - days * 86400⌋ = ⌊other⌋ - days * 86400 := by
    have isWhole : (days * 86400 : Clock) = ((days * 86400 : ℤ) : Clock) := by push_cast; rfl
    rw [isWhole, Int.floor_sub_intCast]
  have same : minuteOf (other - days * 86400) = minuteOf other := by
    have isMinute := @minuteOf_eq (other - days * 86400)
    have isOther := @minuteOf_eq other
    rw [isFloor] at isMinute
    omega
  refine ⟨?_, fun window isWindow => ?_⟩
  · rw [inWindow_congr (show hourOf _ = hourOf other by rw [hourOf, same, hourOf])]
    exact allowed.1
  · rw [← allowed.2 window isWindow]
    unfold NoChange.covers
    rw [same]

end WellFormed

/-! ### When the answer is the first allowed moment -/

/-- **`next_start` answers the first allowed moment when the search is long enough**: when there
is none, or fewer than 96 hops come to one and the first hop passes none. That holds from the
epoch on with up to 71 windows, whatever they are. -/
theorem nextStart_first_iff (policy : Policy) (now : Clock) (windows : List NoChange)
    (wellFormed : ∀ window ∈ windows, window.WellFormed) :
    (First policy windows now (nextStart policy now windows) ↔
      (∀ other, now ≤ other → ¬ Allowed policy windows other) ∨
        (∃ hops < 96, Allowed policy windows ((hop policy windows)^[hops] now)) ∧
          ∀ other, now ≤ other → other < hop policy windows now →
            ¬ Allowed policy windows other) ∧
    (0 ≤ now → windows.length ≤ 71 → First policy windows now (nextStart policy now windows)) := by
  have exact_ : First policy windows now (nextStart policy now windows) ↔
      (∀ other, now ≤ other → ¬ Allowed policy windows other) ∨
        (∃ hops < 96, Allowed policy windows ((hop policy windows)^[hops] now)) ∧
          ∀ other, now ≤ other → other < hop policy windows now →
            ¬ Allowed policy windows other := by
    cases isFound : nextStart policy now windows with
    | none =>
      refine ⟨Or.inl, fun either => either.resolve_right ?_⟩
      rintro ⟨⟨hops, isFew, allowed⟩, -⟩
      obtain ⟨found, isSome⟩ := nextStartFrom_isSome isFew allowed
      cases isFound.symm.trans isSome
    | some found =>
      obtain ⟨hops, isFew, isAt, allowed⟩ := nextStartFrom_some isFound
      have isLater : now ≤ found := isAt ▸ le_hops wellFormed hops
      constructor
      · rintro ⟨-, -, least⟩
        refine Or.inr ⟨⟨hops, isFew, isAt ▸ allowed⟩, fun other isAfter isBefore isAllowed => ?_⟩
        cases hops with
        | zero =>
          obtain rfl : now = found := isAt
          rw [hop_of_allowed allowed] at isBefore
          exact absurd isBefore (not_lt.mpr isAfter)
        | succ hops =>
          rw [Function.iterate_succ_apply] at isAt
          have isNext : hop policy windows now ≤ found := isAt ▸ le_hops wellFormed hops
          exact absurd (isBefore.trans_le isNext) (not_lt.mpr (least other isAfter isAllowed))
      · rintro (none_ | ⟨-, passesNone⟩)
        · exact absurd allowed (none_ found isLater)
        · refine ⟨isLater, allowed, fun other isAfter isAllowed => ?_⟩
          cases hops with
          | zero => exact isAt ▸ isAfter
          | succ hops =>
            rw [Function.iterate_succ_apply] at isAt
            have isNext : hop policy windows now ≤ other :=
              not_lt.mp fun isBefore => passesNone other isAfter isBefore isAllowed
            by_cases isHere : Allowed policy windows now
            · rw [hop_of_allowed isHere, Function.iterate_fixed (hop_of_allowed isHere)] at isAt
              exact isAt ▸ isAfter
            · obtain ⟨second, isHop, -⟩ := hop_onward wellFormed isHere
              rw [← isAt]
              exact hops_le wellFormed (by rw [isHop]; exact int_whole second) isNext
                isAllowed hops
  refine ⟨exact_, fun isPositive isFew => exact_.mpr ?_⟩
  by_cases isSome : ∃ other, now ≤ other ∧ Allowed policy windows other
  swap
  · exact Or.inl fun other isLater allowed => isSome ⟨other, isLater, allowed⟩
  obtain ⟨other, isLater, allowed⟩ := isSome
  have isWhole := int_of_nonneg isPositive
  refine Or.inr ⟨?_, fun one isAfter isBefore =>
    hop_passes_none wellFormed isWhole isAfter isBefore⟩
  have today := allowed_day allowed ⌊(other - now) / 86400⌋
  have isFloor := Int.floor_le ((other - now) / 86400)
  have isNext := Int.lt_floor_add_one ((other - now) / 86400)
  have near : other - ⌊(other - now) / 86400⌋ * 86400 < now + 86400 := by linarith
  obtain ⟨hops, isBound, isThere⟩ :=
    allowed_within wellFormed isWhole (by linarith) near today
  refine ⟨hops, lt_of_le_of_lt isBound ?_, isThere⟩
  have near' := Int.floor_mono near.le
  rw [Int.floor_add_ofNat] at near'
  have few : windows.countP (fun window => window.endsBy (⌊now⌋ / 60)
      (⌊other - ⌊(other - now) / 86400⌋ * 86400⌋ / 60)) ≤ windows.length := List.countP_le_length
  unfold left
  omega

def anyHour : Policy := ⟨0, 24, none, none⟩

/-- A run asked for within 22:00 to 23:00 starts at 23:00. -/
theorem nextStart_first_hour :
    First anyHour [⟨1320, 1380⟩] 79800 (nextStart anyHour 79800 [⟨1320, 1380⟩]) :=
  (nextStart_first_iff anyHour 79800 [⟨1320, 1380⟩]
    (by simp [NoChange.WellFormed])).2 (by norm_num) (by decide)

def minutes : List NoChange := (List.range 96).map fun minute => ⟨minute, minute + 1⟩

/-- The search stops at the last of the windows, though any moment behind it is allowed. -/
theorem minutes_leave_none : ¬ First anyHour minutes 0 (nextStart anyHour 0 minutes) := by
  have isNone : nextStart anyHour 0 minutes = none := by decide +kernel
  rw [isNone]
  intro none_
  exact none_ 5760 (by norm_num) ⟨by decide +kernel, by decide +kernel⟩

end Nmas.Rotation
