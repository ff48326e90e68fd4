import Nmas.Text.Str

/-!
Contract: waiting for a check to converge after a deploy.

Owns: `nsot/convergence.py`: the settle windows of `DEFAULT_WINDOWS`,
`window_for`, and `wait_for`; what a wait answers, and when it ends.

Does not own: the seconds the callbacks themselves take. A setting is an integer
where it is one (a truth value is 0 or 1) and nothing otherwise; what a callback
raises is its text.
-/

namespace Nmas.Nsot.Convergence

open Nmas.Text

/-! ### The window -/

/-- A check's timing, in seconds. -/
structure Window where
  initialWait : ℕ
  timeout : ℕ
  interval : ℕ
deriving DecidableEq

def defaultWindows : List (Str × Window) :=
  [("ospf".ascii, ⟨5, 45, 5⟩), ("rip".ascii, ⟨15, 90, 15⟩), ("bgp".ascii, ⟨10, 60, 10⟩),
    ("eigrp".ascii, ⟨5, 45, 5⟩), ("isis".ascii, ⟨5, 45, 5⟩), ("interfaces".ascii, ⟨2, 20, 4⟩),
    ("unexpected".ascii, ⟨2, 10, 2⟩), ("routes".ascii, ⟨5, 90, 15⟩)]

/-- `DEFAULT_WINDOWS["default"]`. -/
def defaultWindow : Window := ⟨5, 45, 5⟩

/-- A check's entry of `verify_settle_windows`. -/
structure Configured where
  initialWait : Option ℤ
  timeout : Option ℤ
  interval : Option ℤ

def accepted (value : Option ℤ) (base : ℕ) : ℕ :=
  match value with
  | some value => if value ≥ 0 then value.toNat else base
  | none => base

/-- `window_for`; nothing is configured where the setting cannot be read. -/
def windowFor (check : Str) (configured : Option Configured) : Window :=
  let base := ((defaultWindows.find? (fun entry => entry.1 = check)).map Prod.snd).getD
    defaultWindow
  match configured with
  | some configured =>
    { initialWait := accepted configured.initialWait base.initialWait
      timeout := accepted configured.timeout base.timeout
      interval := accepted configured.interval base.interval }
  | none => base

/-! ### The wait -/

inductive State where
  | converged
  | notYetConverged
  | failed
deriving DecidableEq

/-- What `wait_for` returns. -/
structure Answer (Observation : Type) where
  state : State
  attempts : ℕ
  elapsed : ℕ
  observation : Option Observation
  window : Window
  error : Str
deriving DecidableEq

/-- What the callbacks do at each poll. -/
structure Callbacks (Observation : Type) where
  probe : ℕ → Except Str Observation
  isConverged : ℕ → Observation → Except Str Bool

/-- What is kept between two polls. -/
structure Progress (Observation : Type) where
  attempts : ℕ
  started : ℕ
  observation : Option Observation
  lastError : Str
  consecutiveErrors : ℕ

section

variable {Observation : Type}

/-- A poll: whether the observation it makes is settled, and the progress after
it. `consecutive_errors` starts anew once `probe` has answered. -/
def poll (callbacks : Callbacks Observation) (progress : Progress Observation) :
    Bool × Progress Observation :=
  let next := { progress with attempts := progress.attempts + 1 }
  match callbacks.probe progress.attempts with
  | .error error =>
    (false, { next with lastError := error
                        consecutiveErrors := progress.consecutiveErrors + 1 })
  | .ok observation =>
    let seen := { next with observation := some observation, consecutiveErrors := 0 }
    match callbacks.isConverged progress.attempts observation with
    | .error error => (false, { seen with lastError := error, consecutiveErrors := 1 })
    | .ok settled => (settled, seen)

def raised (callbacks : Callbacks Observation) (attempts : ℕ) : Bool :=
  match callbacks.probe attempts with
  | .error _ => true
  | .ok observation =>
    match callbacks.isConverged attempts observation with
    | .error _ => true
    | .ok _ => false

/-- The answer `wait_for` gives of its progress. -/
def answer (window : Window) (state : State) (error : Str) (progress : Progress Observation) :
    Answer Observation :=
  ⟨state, progress.attempts, progress.started, progress.observation, window, error⟩

/-- The loop of `wait_for`, at most so many times; nothing where it goes on. -/
def waitFrom (window : Window) (maxConsecutiveErrors : ℤ) (callbacks : Callbacks Observation) :
    ℕ → Progress Observation → Option (Answer Observation)
  | 0, _ => none
  | fuel + 1, progress =>
    let polled := poll callbacks progress
    if polled.1 then some (answer window .converged [] polled.2)
    else if raised callbacks progress.attempts ∧
        polled.2.consecutiveErrors ≥ maxConsecutiveErrors then
      some (answer window .failed polled.2.lastError polled.2)
    else if polled.2.started ≥ window.timeout then
      some (answer window .notYetConverged polled.2.lastError polled.2)
    else
      waitFrom window maxConsecutiveErrors callbacks fuel
        { polled.2 with started := polled.2.started + window.interval }

/-- `wait_for`, at most so many polls. -/
def waitFor (window : Window) (maxConsecutiveErrors : ℤ) (callbacks : Callbacks Observation)
    (fuel : ℕ) : Option (Answer Observation) :=
  waitFrom window maxConsecutiveErrors callbacks fuel ⟨0, window.initialWait, none, [], 0⟩

/-! ### One poll after another -/

/-- The progress before a poll that nothing has ended. -/
def progressAt (window : Window) (callbacks : Callbacks Observation) : ℕ → Progress Observation
  | 0 => ⟨0, window.initialWait, none, [], 0⟩
  | polls + 1 =>
    let polled := (poll callbacks (progressAt window callbacks polls)).2
    { polled with started := polled.started + window.interval }

def Settled (callbacks : Callbacks Observation) (attempts : ℕ) : Prop :=
  ∃ observation, callbacks.probe attempts = .ok observation ∧
    callbacks.isConverged attempts observation = .ok true

/-- A poll ends the wait before its window does: its observation is settled, or it
raises and the errors in a row are as many as are taken. -/
def Stops (window : Window) (maxConsecutiveErrors : ℤ) (callbacks : Callbacks Observation)
    (attempts : ℕ) : Prop :=
  Settled callbacks attempts ∨ raised callbacks attempts ∧
    (poll callbacks (progressAt window callbacks attempts)).2.consecutiveErrors ≥
      maxConsecutiveErrors

theorem poll_progress (callbacks : Callbacks Observation) (progress : Progress Observation) :
    (poll callbacks progress).2.attempts = progress.attempts + 1 ∧
      (poll callbacks progress).2.started = progress.started := by
  unfold poll
  split
  · exact ⟨rfl, rfl⟩
  · split
    · exact ⟨rfl, rfl⟩
    · exact ⟨rfl, rfl⟩

theorem progressAt_spent (window : Window) (callbacks : Callbacks Observation) (polls : ℕ) :
    (progressAt window callbacks polls).attempts = polls ∧
      (progressAt window callbacks polls).started =
        window.initialWait + polls * window.interval := by
  induction polls with
  | zero => simp [progressAt]
  | succ polls ih =>
    obtain ⟨attempts, started⟩ := poll_progress callbacks (progressAt window callbacks polls)
    simp only [progressAt, attempts, started, ih, true_and, Nat.succ_mul]
    omega

theorem poll_settled (callbacks : Callbacks Observation) (progress : Progress Observation) :
    (poll callbacks progress).1 ↔ ∃ observation,
      (poll callbacks progress).2.observation = some observation ∧
        callbacks.probe progress.attempts = .ok observation ∧
          callbacks.isConverged progress.attempts observation = .ok true := by
  unfold poll
  split
  · rename_i error isError
    simp [isError]
  · rename_i observation isOk
    split
    · rename_i error isError
      simp [isOk, isError]
    · rename_i settled isSettled
      simp [isOk, isSettled]

theorem poll_errors (callbacks : Callbacks Observation) (progress : Progress Observation) :
    raised callbacks progress.attempts ∧
        ((poll callbacks progress).2.consecutiveErrors = progress.consecutiveErrors + 1 ∨
          (poll callbacks progress).2.consecutiveErrors = 1) ∨
      (poll callbacks progress).2.consecutiveErrors = 0 := by
  unfold poll raised
  split
  · exact .inl ⟨rfl, .inl rfl⟩
  · split
    · exact .inl ⟨rfl, .inr rfl⟩
    · exact .inr rfl

theorem raised_of_errors (window : Window) (callbacks : Callbacks Observation) (polls : ℕ) :
    (progressAt window callbacks polls).consecutiveErrors ≤ polls ∧
      ∀ back < (progressAt window callbacks polls).consecutiveErrors,
        raised callbacks (polls - 1 - back) := by
  induction polls with
  | zero => simp [progressAt]
  | succ polls ih =>
    obtain ⟨atMost, before⟩ := ih
    have attempts := (progressAt_spent window callbacks polls).1
    have counted := poll_errors callbacks (progressAt window callbacks polls)
    rw [attempts] at counted
    simp only [progressAt, Nat.add_sub_cancel]
    rcases counted with ⟨isRaised, oneMore | first⟩ | none_
    · rw [oneMore]
      refine ⟨Nat.succ_le_succ atMost, ?_⟩
      intro back isBack
      cases back with
      | zero => exact isRaised
      | succ back =>
        have earlier := before back (Nat.lt_of_succ_lt_succ isBack)
        rwa [Nat.sub_sub, Nat.add_comm 1 back] at earlier
    · rw [first]
      refine ⟨Nat.succ_le_succ (Nat.zero_le _), ?_⟩
      intro back isBack
      rw [Nat.lt_one_iff.mp isBack]
      exact isRaised
    · rw [none_]
      exact ⟨Nat.zero_le _, fun back isBack => absurd isBack (Nat.not_lt_zero back)⟩

/-! ### What a wait answers -/

/-- The answer tells the truth: of the last observation where it says converged, of
the polls that raised where it says failed, and of the time that has passed where it
says neither. -/
structure Truthful (window : Window) (maxConsecutiveErrors : ℤ)
    (callbacks : Callbacks Observation) (given : Answer Observation) : Prop where
  polled : 0 < given.attempts
  converged : given.state = .converged → ∃ observation, given.observation = some observation ∧
    callbacks.probe (given.attempts - 1) = .ok observation ∧
      callbacks.isConverged (given.attempts - 1) observation = .ok true
  failed : given.state = .failed → maxConsecutiveErrors ≤ given.attempts ∧
    ∀ back < maxConsecutiveErrors.toNat, raised callbacks (given.attempts - 1 - back) = true
  notYetConverged : given.state = .notYetConverged → window.timeout ≤ given.elapsed ∧
    given.elapsed = window.initialWait + (given.attempts - 1) * window.interval ∧
      ∀ attempt < given.attempts, ¬ Settled callbacks attempt

theorem waitFrom_succ (window : Window) (maxConsecutiveErrors : ℤ)
    (callbacks : Callbacks Observation) (fuel polls : ℕ)
    (unsettled : ∀ attempt < polls, ¬ Settled callbacks attempt) :
    (∃ given, Truthful window maxConsecutiveErrors callbacks given ∧
        (Stops window maxConsecutiveErrors callbacks polls ∨
          window.timeout ≤ window.initialWait + polls * window.interval) ∧
        waitFrom window maxConsecutiveErrors callbacks (fuel + 1)
          (progressAt window callbacks polls) = some given) ∨
      (¬ Stops window maxConsecutiveErrors callbacks polls ∧ ¬ Settled callbacks polls ∧
        ¬ window.timeout ≤ window.initialWait + polls * window.interval ∧
        waitFrom window maxConsecutiveErrors callbacks (fuel + 1)
            (progressAt window callbacks polls) =
          waitFrom window maxConsecutiveErrors callbacks fuel
            (progressAt window callbacks (polls + 1))) := by
  obtain ⟨attempts, started⟩ := progressAt_spent window callbacks polls
  obtain ⟨nextAttempts, nextStarted⟩ := poll_progress callbacks (progressAt window callbacks polls)
  rw [attempts] at nextAttempts
  rw [started] at nextStarted
  have settles := poll_settled callbacks (progressAt window callbacks polls)
  rw [attempts] at settles
  have isSettled : Settled callbacks polls →
      (poll callbacks (progressAt window callbacks polls)).1 = true := by
    intro ⟨observation, isOk, holds⟩
    simp [poll, attempts, isOk, holds]
  rw [waitFrom, attempts]
  simp only
  split
  · rename_i isPolled
    obtain ⟨observation, isKept, isOk, holds⟩ := settles.mp isPolled
    refine .inl ⟨_, ?_, .inl (.inl ⟨observation, isOk, holds⟩), rfl⟩
    exact
      { polled := by simp [answer, nextAttempts]
        converged := fun _ => ⟨observation, isKept, by simpa [answer, nextAttempts] using isOk,
          by simpa [answer, nextAttempts] using holds⟩
        failed := nofun
        notYetConverged := fun isState => by cases isState }
  · rename_i notPolled
    have notSettled : ¬ Settled callbacks polls := fun settled => notPolled (isSettled settled)
    split
    · rename_i stops
      refine .inl ⟨_, ?_, .inl (.inr ⟨stops.1, stops.2⟩), rfl⟩
      have counted := raised_of_errors window callbacks (polls + 1)
      simp only [progressAt, Nat.add_sub_cancel] at counted
      exact
        { polled := by simp [answer, nextAttempts]
          converged := nofun
          failed := fun _ => by
            simp only [answer, nextAttempts, Nat.add_sub_cancel]
            refine ⟨by omega, fun back isBack => counted.2 back (by omega)⟩
          notYetConverged := fun isState => by cases isState }
    · rename_i goesOn
      split
      · rename_i isPast
        rw [nextStarted] at isPast
        refine .inl ⟨_, ?_, .inr isPast, rfl⟩
        exact
          { polled := by simp [answer, nextAttempts]
            converged := nofun
            failed := nofun
            notYetConverged := fun _ => by
              simp only [answer, nextAttempts, nextStarted, Nat.add_sub_cancel, true_and]
              refine ⟨isPast, fun attempt isEarlier => ?_⟩
              rcases Nat.lt_succ_iff_lt_or_eq.mp isEarlier with earlier | rfl
              · exact unsettled attempt earlier
              · exact notSettled }
      · rename_i notPast
        rw [nextStarted] at notPast
        refine .inr ⟨?_, notSettled, notPast, rfl⟩
        rintro (settled | stops)
        · exact notSettled settled
        · exact goesOn stops

variable {window : Window} {maxConsecutiveErrors : ℤ} {callbacks : Callbacks Observation}

theorem truthful_of_waitFrom {fuel polls : ℕ} {given : Answer Observation}
    (isGiven : waitFrom window maxConsecutiveErrors callbacks fuel
      (progressAt window callbacks polls) = some given)
    (unsettled : ∀ attempt < polls, ¬ Settled callbacks attempt) :
    Truthful window maxConsecutiveErrors callbacks given ∧
      ∃ last, Stops window maxConsecutiveErrors callbacks last ∨
        window.timeout ≤ window.initialWait + last * window.interval := by
  induction fuel generalizing polls with
  | zero => cases isGiven
  | succ fuel ih =>
    rcases waitFrom_succ window maxConsecutiveErrors callbacks fuel polls unsettled with
      ⟨other, truthful, ends, isOther⟩ | ⟨_, notSettled, _, goesOn⟩
    · obtain rfl := Option.some.inj (isOther.symm.trans isGiven)
      exact ⟨truthful, polls, ends⟩
    · apply ih (goesOn.symm.trans isGiven)
      intro attempt isEarlier
      rcases Nat.lt_succ_iff_lt_or_eq.mp isEarlier with earlier | rfl
      · exact unsettled attempt earlier
      · exact notSettled

theorem waitFrom_ends {last : ℕ}
    (ends : Stops window maxConsecutiveErrors callbacks last ∨
      window.timeout ≤ window.initialWait + last * window.interval) (left : ℕ) {polls : ℕ}
    (isLeft : polls + left = last) (unsettled : ∀ attempt < polls, ¬ Settled callbacks attempt) :
    ∃ given, waitFrom window maxConsecutiveErrors callbacks (left + 1)
      (progressAt window callbacks polls) = some given := by
  induction left generalizing polls with
  | zero =>
    rcases waitFrom_succ window maxConsecutiveErrors callbacks 0 polls unsettled with
      ⟨given, _, _, isGiven⟩ | ⟨notStops, _, notPast, _⟩
    · exact ⟨given, isGiven⟩
    · rw [← isLeft, Nat.add_zero] at ends
      rcases ends with stops | isPast
      · exact absurd stops notStops
      · exact absurd isPast notPast
  | succ left ih =>
    rcases waitFrom_succ window maxConsecutiveErrors callbacks (left + 1) polls unsettled with
      ⟨given, _, _, isGiven⟩ | ⟨_, notSettled, _, goesOn⟩
    · exact ⟨given, isGiven⟩
    · rw [goesOn]
      apply ih (by omega)
      intro attempt isEarlier
      rcases Nat.lt_succ_iff_lt_or_eq.mp isEarlier with earlier | rfl
      · exact unsettled attempt earlier
      · exact notSettled

/-- A wait ends, and tells the truth, exactly when its interval is no zero, its first
wait is as long as its window, or some poll stops it. -/
theorem waitFor_ends_iff (window : Window) (maxConsecutiveErrors : ℤ)
    (callbacks : Callbacks Observation) :
    (∃ fuel given, waitFor window maxConsecutiveErrors callbacks fuel = some given ∧
        Truthful window maxConsecutiveErrors callbacks given) ↔
      0 < window.interval ∨ window.timeout ≤ window.initialWait ∨
        ∃ attempt, Stops window maxConsecutiveErrors callbacks attempt := by
  have noEarlier : ∀ attempt < 0, ¬ Settled callbacks attempt := fun attempt isEarlier =>
    absurd isEarlier (Nat.not_lt_zero attempt)
  constructor
  · intro ⟨fuel, given, isGiven, _⟩
    obtain ⟨-, last, stops | isPast⟩ := truthful_of_waitFrom
      (show waitFrom window maxConsecutiveErrors callbacks fuel
        (progressAt window callbacks 0) = some given from isGiven) noEarlier
    · exact .inr (.inr ⟨last, stops⟩)
    · rcases Nat.eq_zero_or_pos window.interval with isZero | isPos
      · rw [isZero, Nat.mul_zero, Nat.add_zero] at isPast
        exact .inr (.inl isPast)
      · exact .inl isPos
  · intro ends
    have endsAt : ∃ last, Stops window maxConsecutiveErrors callbacks last ∨
        window.timeout ≤ window.initialWait + last * window.interval := by
      rcases ends with isPos | isShort | ⟨last, stops⟩
      · refine ⟨window.timeout, .inr ?_⟩
        have atLeast := Nat.le_mul_of_pos_right window.timeout isPos
        omega
      · exact ⟨0, .inr (by omega)⟩
      · exact ⟨last, .inl stops⟩
    obtain ⟨last, isLast⟩ := endsAt
    obtain ⟨given, isGiven⟩ := waitFrom_ends isLast last (Nat.zero_add last) noEarlier
    exact ⟨last + 1, given, isGiven, (truthful_of_waitFrom isGiven noEarlier).1⟩

def neverSettled : Callbacks Unit where
  probe _ := .ok ()
  isConverged _ _ := .ok false

/-- `{"interval": 0}`, which a network's setting may hold. -/
theorem waitFor_noInterval : ¬ ∃ fuel given,
    waitFor (windowFor "ospf".ascii (some ⟨none, none, some 0⟩)) 3 neverSettled fuel = some given ∧
      Truthful (windowFor "ospf".ascii (some ⟨none, none, some 0⟩)) 3 neverSettled given := by
  have isWindow : windowFor "ospf".ascii (some ⟨none, none, some 0⟩) = ⟨5, 45, 0⟩ := by
    decide +kernel
  rw [isWindow]
  intro ⟨fuel, given, isGiven, _⟩
  obtain ⟨-, last, (⟨_, _, isConverged⟩ | ⟨isRaised, _⟩) | isPast⟩ := truthful_of_waitFrom
    (show waitFrom ⟨5, 45, 0⟩ 3 neverSettled fuel (progressAt ⟨5, 45, 0⟩ neverSettled 0) =
      some given from isGiven) (fun attempt isEarlier => absurd isEarlier (Nat.not_lt_zero attempt))
  · cases isConverged
  · cases isRaised
  · simp at isPast

end

end Nmas.Nsot.Convergence
