import Nmas.Log.Machine
import Nmas.Rotation.Accounted

/-!
Contract: how often, and when, the rotation timer changes passwords.

Owns:
- what `select` takes of a policy, and the rotations a run of them asks for;
- when a stop releases the timer;
- the timer's rate over every history of ticks, requested runs and rotation
  commits, and the histories in which it is kept.
-/

namespace Nmas.Rotation

open Nmas.Text List
open Nmas.Log.Machine (Along run_keeps)

variable {states : List DeviceState} {state : DeviceState} {asked : Asked} {record result : Record}
  {calls : List Call} {position : Nat} {now : Clock} {scheduled_ : Bool} {ranToday_ : List Str}
  {selection : Selection} {due : List DeviceState} {policies : Str → Policy} {rows : List Record}

/-! ### What a run takes -/

/-- What `select` has taken so far: due devices, in their window and not run
today where the timer asks, and each policy's as many as it counts. -/
structure Selection.Keeps (policies : Str → Policy) (due : List DeviceState) (now : Clock)
    (scheduled_ : Bool) (ranToday_ : List Str) (selection : Selection) : Prop where
  among : ∀ state ∈ selection.chosen, state ∈ due
  timed : scheduled_ = true → ∀ state ∈ selection.chosen,
    inWindow (policies state.profile) now = true ∧ state.profile ∉ ranToday_
  counted : ∀ profile,
    selection.taken profile = selection.chosen.countP (fun state => state.profile = profile)
  most : ∀ profile limit, (policies profile).maxPerRun = some limit → limit ≠ 0 →
    selection.taken profile ≤ limit

theorem Selection.Keeps.take (keeps : selection.Keeps policies due now scheduled_ ranToday_)
    (isDue : state ∈ due) (isPolicy : state.policy = policies state.profile) :
    (selection.take now scheduled_ ranToday_ state).Keeps policies due now scheduled_ ranToday_ := by
  unfold Selection.take
  split
  · exact ⟨keeps.among, keeps.timed, keeps.counted, keeps.most⟩
  · rename_i inTime
    split
    · exact ⟨keeps.among, keeps.timed, keeps.counted, keeps.most⟩
    · rename_i notToday
      split
      · exact ⟨keeps.among, keeps.timed, keeps.counted, keeps.most⟩
      · rename_i underLimit
        refine ⟨?_, ?_, ?_, ?_⟩
        · intro other isChosen
          rcases mem_append.mp isChosen with before | isLast
          · exact keeps.among other before
          · rw [mem_singleton.mp isLast]
            exact isDue
        · intro isScheduled other isChosen
          rcases mem_append.mp isChosen with before | isLast
          · exact keeps.timed isScheduled other before
          · rw [mem_singleton.mp isLast]
            rw [isScheduled] at inTime notToday
            rw [isPolicy] at inTime
            exact ⟨by simpa using inTime, by simpa using notToday⟩
        · intro profile
          rw [countP_append, ← keeps.counted]
          by_cases same : state.profile = profile
          · subst same
            simp
          · simp [same, Ne.symm same]
        · intro profile limit isLimit notZero
          by_cases same : state.profile = profile
          · subst same
            rw [isPolicy, isLimit] at underLimit
            have fewer : selection.taken state.profile < limit := by
              simpa [notZero] using underLimit
            exact (Function.update_self ..).le.trans fewer
          · simpa [Ne.symm same] using keeps.most profile limit isLimit notZero

theorem foldl_take_keeps (keeps : selection.Keeps policies due now scheduled_ ranToday_)
    (isDue : ∀ state ∈ states, state ∈ due)
    (isPolicy : ∀ state ∈ due, state.policy = policies state.profile) :
    (states.foldl (Selection.take now scheduled_ ranToday_) selection).Keeps policies due now
      scheduled_ ranToday_ := by
  induction states generalizing selection with
  | nil => exact keeps
  | cons state rest ih =>
    have here := isDue state (.head _)
    refine ih (keeps.take here (isPolicy state here)) ?_
    exact fun other isOther => isDue other (.tail _ isOther)

theorem select_keeps (isPolicy : ∀ state ∈ states, state.policy = policies state.profile) :
    (select states now scheduled_ ranToday_).Keeps policies (states.filter (·.due)) now scheduled_
      ranToday_ := by
  refine foldl_take_keeps ⟨?_, ?_, fun _ => rfl, ?_⟩ ?_ ?_
  · intro _ isNone
    cases isNone
  · intro _ _ isNone
    cases isNone
  · intro _ limit _ _
    exact Nat.zero_le limit
  · intro state isState
    exact (perm_insertionSort _ _).mem_iff.mp isState
  · intro state isDue
    exact isPolicy state (mem_filter.mp isDue).1

/-! ### What a run asks for, and records -/

theorem takeTurns_calls :
    ∃ made : List Call, (takeTurns asked position states record calls).calls = calls ++ made ∧
      (made.map (·.state)).Sublist states ∧
        ∀ call ∈ made, holding asked.windows call.at_ = none := by
  induction states generalizing position record calls with
  | nil => exact ⟨[], (append_nil _).symm, .refl _, nofun⟩
  | cons state rest ih =>
    unfold takeTurns
    simp only
    have none_ (outcome : Outcome) (same : outcome.calls = calls) :
        ∃ made : List Call, outcome.calls = calls ++ made ∧
          (made.map (·.state)).Sublist (state :: rest) ∧
            ∀ call ∈ made, holding asked.windows call.at_ = none :=
      ⟨[], by rw [same, append_nil], nil_sublist _, nofun⟩
    split
    · exact none_ _ rfl
    · rename_i noWindow
      have isOpen : holding asked.windows (asked.turns position).at_ = none := by
        simpa using noWindow
      split
      · exact none_ _ rfl
      · obtain ⟨made, isMade, among, outside⟩ := @ih
          { record with skipped := record.skipped ++ [⟨state.device, _⟩] } calls (position + 1)
        exact ⟨made, isMade, among.cons _, outside⟩
      · rename_i plan isPlan
        have one (outcome : Outcome)
            (same : outcome.calls = calls ++ [⟨state, (asked.turns position).at_, asked.who state,
              plan.fingerprint⟩]) :
            ∃ made : List Call, outcome.calls = calls ++ made ∧
              (made.map (·.state)).Sublist (state :: rest) ∧
                ∀ call ∈ made, holding asked.windows call.at_ = none := by
          refine ⟨_, same, List.Sublist.cons_cons _ (nil_sublist _), fun call isCall => ?_⟩
          rw [mem_singleton.mp isCall]
          exact isOpen
        split
        · exact one _ rfl
        · obtain ⟨made, isMade, among, outside⟩ := @ih
            { record with rotated := record.rotated ++ [⟨state.device, asked.who state⟩] }
            (calls ++ [⟨state, (asked.turns position).at_, asked.who state, plan.fingerprint⟩])
            (position + 1)
          refine ⟨⟨state, (asked.turns position).at_, asked.who state, plan.fingerprint⟩ :: made,
            ?_, List.Sublist.cons_cons _ among, ?_⟩
          · rw [isMade, append_assoc]
            rfl
          · intro call isCall
            rcases mem_cons.mp isCall with isFirst | isLater
            · rw [isFirst]
              exact isOpen
            · exact outside call isLater
        · exact one _ rfl

/-- What a run's record keeps of what it began with, and says of its end. -/
structure Ends (record result : Record) : Prop where
  trigger : result.trigger = record.trigger
  started : result.started = record.started
  policies : result.policies = record.policies
  stopped : result.state = .stopped → result.failed.isSome = true

theorem takeTurns_ends
    (isResult : result ∈ (takeTurns asked position states record calls).appended) :
    Ends record result := by
  induction states generalizing position record calls with
  | nil =>
    cases mem_singleton.mp isResult
    exact ⟨rfl, rfl, rfl, by simp⟩
  | cons state rest ih =>
    unfold takeTurns at isResult
    simp only at isResult
    split at isResult
    · cases mem_singleton.mp isResult
      exact ⟨rfl, rfl, rfl, by simp⟩
    · split at isResult
      · cases isResult
      · have ends := ih isResult
        exact ⟨ends.trigger, ends.started, ends.policies, ends.stopped⟩
      · split at isResult
        · cases isResult
        · have ends := ih isResult
          exact ⟨ends.trigger, ends.started, ends.policies, ends.stopped⟩
        · cases mem_singleton.mp isResult
          exact ⟨rfl, rfl, rfl, fun _ => rfl⟩

theorem refused_state (isRefused : asked.refused = .ok (some record)) :
    record = asked.begins ∨ record = asked.selected := by
  unfold Asked.refused at isRefused
  split at isRefused
  · cases isRefused
    exact .inl rfl
  · split at isRefused
    · cases isRefused
      exact .inl rfl
    · split at isRefused
      · cases isRefused
        exact .inl rfl
      · split at isRefused
        · cases isRefused
          exact .inl rfl
        · split at isRefused
          · cases isBusy : asked.firstHeld asked.chosen with
            | error error =>
              rw [isBusy] at isRefused
              cases isRefused
            | ok busy =>
              rw [isBusy] at isRefused
              cases busy with
              | true =>
                cases isRefused
                exact .inr rfl
              | false => cases isRefused
          · cases isRefused

theorem passed_open (passed : asked.refused = .ok none) :
    holding asked.windows asked.started = none ∧
      (asked.trigger = .scheduled → halted asked.prior asked.commits = none) := by
  unfold Asked.refused at passed
  split at passed
  · cases passed
  · rename_i noWindow
    split at passed
    · cases passed
    · split at passed
      · cases passed
      · rename_i notHalted
        refine ⟨by simpa using noWindow, fun isScheduled => ?_⟩
        simpa [isScheduled] using notHalted

theorem calls_passed (isAsked : (run asked).calls ≠ []) :
    asked.refused = .ok none ∧ run asked = takeTurns asked 0 asked.chosen asked.selected [] := by
  unfold run at isAsked ⊢
  split at isAsked
  · exact absurd rfl isAsked
  · exact absurd rfl isAsked
  · rename_i passed
    split at isAsked
    · exact absurd rfl isAsked
    · rename_i someDue
      exact ⟨passed, if_neg someDue⟩

theorem run_calls :
    ((run asked).calls.map (·.state)).Sublist asked.chosen ∧
      ∀ call ∈ (run asked).calls, holding asked.windows call.at_ = none := by
  by_cases isNone : (run asked).calls = []
  · rw [isNone]
    exact ⟨nil_sublist _, nofun⟩
  · obtain ⟨made, isMade, among, outside⟩ := @takeTurns_calls asked.chosen asked asked.selected [] 0
    rw [(calls_passed isNone).2, isMade]
    exact ⟨among, outside⟩

theorem run_ends (isAsked : (run asked).calls ≠ []) (isResult : result ∈ (run asked).appended) :
    Ends asked.selected result := by
  rw [(calls_passed isAsked).2] at isResult
  exact takeTurns_ends isResult

theorem run_quiet (isQuiet : (run asked).calls = []) (isResult : result ∈ (run asked).appended) :
    result.state ≠ .stopped ∧ result.clears = false := by
  have idle (notStopped : result.state ≠ .stopped) (notDone : result.state ≠ .done) :
      result.state ≠ .stopped ∧ result.clears = false :=
    ⟨notStopped, decide_eq_false fun isClear => notDone isClear.1⟩
  unfold run at isQuiet isResult
  split at isResult
  · cases isResult
  · rename_i refused isRefused
    cases mem_singleton.mp isResult
    rcases refused_state isRefused with isBegun | isSelected
    · subst isBegun
      exact idle nofun nofun
    · subst isSelected
      exact idle nofun nofun
  · rename_i passed
    rw [passed] at isQuiet
    simp only at isQuiet
    split at isResult
    · cases mem_singleton.mp isResult
      exact idle nofun nofun
    · rename_i someDue
      rw [if_neg someDue] at isQuiet
      rcases @takeTurns_accounts asked asked.chosen asked.selected [] 0 rfl rfl rfl with
        ⟨-, one, isOne, -, isTried⟩ | ⟨-, isNone⟩
      · rw [isOne] at isResult
        have same : result = one := mem_singleton.mp isResult
        have noneTried : result.tried = [] := by
          rw [same, ← isTried, isQuiet]
          rfl
        obtain ⟨noneRotated, noneFailed⟩ := append_eq_nil_iff.mp noneTried
        have ends : Ends asked.selected result :=
          @takeTurns_ends asked.chosen _ _ _ [] 0 (by
            rw [isOne]
            exact isResult)
        refine ⟨fun isStopped => ?_, decide_eq_false fun isClear => ?_⟩
        · have isFailed := ends.stopped isStopped
          cases isFailure : result.failed with
          | none =>
            rw [isFailure] at isFailed
            cases isFailed
          | some failed =>
            rw [isFailure] at noneFailed
            cases noneFailed
        · exact isClear.2 (map_eq_nil_iff.mp noneRotated)
      · rw [isNone] at isResult
        cases isResult

/-! ### The halt -/

def Strikes (before : List Record) (stop : Record) : Prop :=
  stop.trigger = .scheduled ∧ ∃ earlier first later, before = earlier ++ first :: later ∧
    first.state = .stopped ∧ ∀ record ∈ later, record.clears = false

/-- **What releases the timer.** The last stop was followed by a clean run, or is
no second strike and was followed by the rotation commit of the device it failed
on (0 where the device has none). -/
def Released (ended : List Record) (commits : Device → Option Stamp) : Prop :=
  ∀ before stop after, ended = before ++ stop :: after → stop.state = .stopped →
    (∀ record ∈ after, record.state ≠ .stopped) →
      (∃ record ∈ after, record.clears = true) ∨
        (¬ Strikes before stop ∧
          ∃ failed, stop.failed = some failed ∧ stop.finished < (commits failed.device).getD 0)

theorem haltRuns_append (one other : List Record) :
    haltRuns (one ++ other) = haltRuns one ++ haltRuns other := filter_append ..

theorem mem_haltRuns : record ∈ haltRuns rows ↔
    record ∈ rows ∧ (record.state = .stopped ∨ record.clears) := by
  simp [haltRuns]

theorem strikes_second {before : List Record} {stop : Record}
    (judged : haltRuns rows = haltRuns before ++ [stop]) (isStop : stop.state = .stopped)
    (strikes : Strikes before stop) : secondStrike rows := by
  obtain ⟨isTimer, earlier, first, later, isSplit, isFirst, noClean⟩ := strikes
  have isJudged : first ∈ haltRuns before := by
    rw [mem_haltRuns, isSplit]
    exact ⟨mem_append_right _ (.head _), .inl isFirst⟩
  obtain ⟨init, last, isLast⟩ := eq_nil_or_concat (haltRuns before) |>.resolve_left
    (ne_nil_of_mem isJudged)
  have lastStopped : last.state = .stopped := by
    have isHere : last ∈ haltRuns (first :: later) := by
      have split : haltRuns before = haltRuns earlier ++ haltRuns (first :: later) := by
        rw [isSplit, haltRuns_append]
      have notNil : haltRuns (first :: later) ≠ [] := by
        refine ne_nil_of_mem (a := first) ?_
        exact mem_haltRuns.mpr ⟨.head _, .inl isFirst⟩
      have same : (haltRuns before).getLast? = (haltRuns (first :: later)).getLast? := by
        rw [split, List.getLast?_append_of_ne_nil _ notNil]
      rw [isLast, concat_eq_append, List.getLast?_concat] at same
      exact mem_of_getLast? same.symm
    obtain ⟨isHere, stopped | clears⟩ := mem_haltRuns.mp isHere
    · exact stopped
    · rcases mem_cons.mp isHere with isSame | isLater
      · rw [isSame]
        exact isFirst
      · cases (noClean last isLater).symm.trans clears
  unfold secondStrike
  rw [judged, isLast, concat_eq_append]
  simp [isStop, isTimer, lastStopped]

theorem halted_released {commits : Device → Option Stamp}
    (notHalted : halted rows commits = none) : Released rows commits := by
  intro before stop after isSplit isStop noStop
  by_cases isClean : ∃ record ∈ after, record.clears = true
  · exact .inl isClean
  · refine .inr ?_
    have noneAfter : haltRuns after = [] := by
      rw [haltRuns, filter_eq_nil_iff]
      intro record isAfter isJudged
      rcases of_decide_eq_true isJudged with stopped | clears
      · exact noStop record isAfter stopped
      · exact isClean ⟨record, isAfter, clears⟩
    have judged : haltRuns rows = haltRuns before ++ [stop] := by
      have here : haltRuns (stop :: after) = stop :: haltRuns after :=
        filter_cons_of_pos (decide_eq_true (.inl isStop))
      rw [isSplit, haltRuns_append, here, noneAfter]
    unfold halted at notHalted
    rw [judged, List.getLast?_concat] at notHalted
    simp only [isStop, ne_eq, not_true_eq_false, if_false] at notHalted
    split at notHalted
    · cases notHalted
    · rename_i notSecond
      refine ⟨fun strikes => notSecond (strikes_second judged isStop strikes), ?_⟩
      split at notHalted
      · cases notHalted
      · rename_i failed isFailed
        split at notHalted
        · rename_i isCommitted
          exact ⟨failed, isFailed, isCommitted⟩
        · cases notHalted

/-! ### Histories -/

/-- The record of runs, each device's newest rotation commit, and the runs
themselves, oldest first, each as it found these. -/
structure History where
  rows : List Record
  commits : Device → Option Stamp
  ran : List Asked

inductive Event where
  /-- A tick, with what it reads, and the run it starts. -/
  | ticks (now : Clock) (on : List Policy) (states : List DeviceState) (asked : Asked) (landed : Bool)
  | requests (asked : Asked) (landed : Bool)
  | commits (device : Device) (at_ : Stamp)

def History.finds (history : History) (trigger : Trigger) (asked : Asked) : Asked :=
  { asked with trigger := trigger, prior := history.rows, commits := history.commits }

def History.runs (history : History) (asked : Asked) (landed : Bool) : History :=
  { history with
    rows := history.rows ++ if landed then (run asked).appended else []
    ran := history.ran ++ [asked] }

/-- The run an event starts, if it starts one, and whether its record lands. -/
def History.starts (history : History) : Event → Option (Asked × Bool)
  | .ticks now on states asked landed =>
    if tickStarts asked.windows on states history.rows now then
      some (history.finds .scheduled asked, landed)
    else none
  | .requests asked landed => some (history.finds .request asked, landed)
  | .commits _ _ => none

def step (history : History) (event : Event) : History :=
  match event with
  | .commits device at_ =>
    { history with commits := Function.update history.commits device (some at_) }
  | event =>
    match history.starts event with
    | some (asked, landed) => history.runs asked landed
    | none => history

def begin_ (commits : Device → Option Stamp) : History := ⟨[], commits, []⟩

/-- The policies stand: every run reads each device under its profile's. -/
def Unchanged (policies : Str → Policy) (history : History) (event : Event) : Prop :=
  ∀ start ∈ history.starts event, ∀ state ∈ start.1.states, state.policy = policies state.profile

/-- An earlier run of the timer counts against a later start: it ended `done`, and
the second it is recorded under is in the 24 hours before. -/
def Counts (earlier : Asked) (start : Clock) : Prop :=
  (∃ record ∈ (run earlier).appended, record.state = .done) ∧ start - 86400 < iso earlier.started

/-- The earlier runs of the timer that rotate devices of a policy this run has due
in its window, less than 24 hours apart, count. -/
def EarlierCount (ran : List Asked) (asked : Asked) : Prop :=
  ∀ earlier ∈ ran, earlier.trigger = .scheduled →
    ∀ call ∈ (run earlier).calls, ∀ state ∈ asked.states,
      state.due = true → inWindow state.policy asked.started = true →
        state.profile = call.state.profile → |asked.started - earlier.started| < 86400 →
          Counts earlier asked.started

/-- **The condition.** Every run that asks for a rotation is recorded; and the
timer starts no run with a device due, in its policy's window, within 24 hours of
an earlier run of that policy that does not count. -/
def Counted (history : History) (event : Event) : Prop :=
  ∀ start ∈ history.starts event,
    ((run start.1).calls = [] ∨ (start.2 = true ∧ (run start.1).raised = false)) ∧
      (start.1.trigger = .scheduled → EarlierCount history.ran start.1)

instance (policies : Str → Policy) (history : History) (event : Event) :
    Decidable (Unchanged policies history event) := by
  unfold Unchanged
  infer_instance

instance (earlier : Asked) (start : Clock) : Decidable (Counts earlier start) := by
  unfold Counts
  infer_instance

instance (ran : List Asked) (asked : Asked) : Decidable (EarlierCount ran asked) := by
  unfold EarlierCount
  infer_instance

instance (history : History) (event : Event) : Decidable (Counted history event) := by
  unfold Counted
  infer_instance

def ended (ran : List Asked) : List Record := ran.flatMap (fun asked => (run asked).appended)

/-- A run of the timer keeps its policies: each one's limit, its preferred window
at the run's start, no no-change window, and no rotation before the last stop
releases it. -/
structure Rated (policies : Str → Policy) (before : List Asked) (asked : Asked) : Prop where
  most : ∀ profile limit, (policies profile).maxPerRun = some limit → limit ≠ 0 →
    (run asked).calls.countP (fun call => call.state.profile = profile) ≤ limit
  preferred : ∀ call ∈ (run asked).calls,
    inWindow (policies call.state.profile) asked.started = true
  noChange : ∀ call ∈ (run asked).calls, holding asked.windows asked.started = none ∧
    holding asked.windows call.at_ = none
  released : (run asked).calls ≠ [] → Released (ended before) asked.commits

/-- Two runs of the timer that rotate devices of one policy are 24 hours apart. -/
def DayApart (one other : Asked) : Prop :=
  one.trigger = .scheduled → other.trigger = .scheduled →
    ∀ call ∈ (run one).calls, ∀ again ∈ (run other).calls,
      call.state.profile = again.state.profile → 86400 ≤ |other.started - one.started|

instance (one other : Asked) : Decidable (DayApart one other) := by
  unfold DayApart
  infer_instance

structure Kept (policies : Str → Policy) (history : History) : Prop where
  judged : haltRuns history.rows = haltRuns (ended history.ran)
  landed : ∀ earlier ∈ history.ran, (run earlier).calls ≠ [] →
    ∀ record ∈ (run earlier).appended, record ∈ history.rows
  rated : ∀ before asked after, history.ran = before ++ asked :: after →
    asked.trigger = .scheduled → Rated policies before asked
  apart : history.ran.Pairwise DayApart

variable {history : History} {event : Event} {landed : Bool}

theorem halted_congr {other : List Record} {commits : Device → Option Stamp}
    (same : haltRuns rows = haltRuns other) : halted rows commits = halted other commits := by
  unfold halted secondStrike
  rw [same]

theorem call_chosen {call : Call} (isPolicy : ∀ state ∈ asked.states,
    state.policy = policies state.profile) (isScheduled : asked.trigger = .scheduled)
    (isCall : call ∈ (run asked).calls) :
    call.state ∈ asked.states ∧ call.state.due ∧
      inWindow (policies call.state.profile) asked.started ∧
        call.state.profile ∉ ranToday asked.prior asked.started := by
  have keeps := @select_keeps _ asked.started (asked.trigger = .scheduled) (ranToday asked.prior asked.started) _ isPolicy
  have isChosen : call.state ∈ asked.chosen := run_calls.1.subset (mem_map_of_mem isCall)
  obtain ⟨isState, isDue⟩ := mem_filter.mp (keeps.among _ isChosen)
  exact ⟨isState, isDue, keeps.timed (decide_eq_true isScheduled) _ isChosen⟩

theorem mem_policies {call : Call} (isCall : call ∈ (run asked).calls) :
    call.state.profile ∈ asked.selected.policies := by
  have isChosen : call.state ∈ asked.chosen := run_calls.1.subset (mem_map_of_mem isCall)
  refine (perm_insertionSort _ _).mem_iff.mpr (mem_dedup.mpr ?_)
  exact mem_map_of_mem isChosen

theorem Kept.rates (kept : Kept policies history) (isPrior : asked.prior = history.rows)
    (isScheduled : asked.trigger = .scheduled)
    (isPolicy : ∀ state ∈ asked.states, state.policy = policies state.profile) :
    Rated policies history.ran asked where
  most profile limit isLimit notZero := by
    have keeps := @select_keeps _ asked.started (asked.trigger = .scheduled) (ranToday asked.prior asked.started) _ isPolicy
    have most := keeps.most profile limit isLimit notZero
    rw [keeps.counted] at most
    have fewer : ((run asked).calls.map (·.state)).countP (fun state => state.profile = profile) ≤
        asked.chosen.countP (fun state => state.profile = profile) := run_calls.1.countP_le
    rw [countP_map] at fewer
    exact fewer.trans most
  preferred call isCall := (call_chosen isPolicy isScheduled isCall).2.2.1
  noChange call isCall :=
    ⟨(passed_open (calls_passed (ne_nil_of_mem isCall)).1).1, run_calls.2 call isCall⟩
  released isAsked := by
    have notHalted := (passed_open (calls_passed isAsked).1).2 isScheduled
    rw [isPrior, halted_congr kept.judged] at notHalted
    exact halted_released notHalted

theorem Kept.dayApart (kept : Kept policies history) (isPrior : asked.prior = history.rows)
    (isPolicy : ∀ state ∈ asked.states, state.policy = policies state.profile)
    (counted : asked.trigger = .scheduled → EarlierCount history.ran asked) :
    ∀ earlier ∈ history.ran, DayApart earlier asked := by
  intro earlier isEarlier isTimer isScheduled call isCall again isAgain same
  by_contra isNear
  obtain ⟨isState, isDue, isTimed, notToday⟩ := call_chosen isPolicy isScheduled isAgain
  rw [← isPolicy _ isState] at isTimed
  obtain ⟨⟨record, isRecord, isDone⟩, inside⟩ := counted isScheduled earlier isEarlier isTimer
    call isCall again.state isState isDue isTimed same.symm (not_le.mp isNear)
  have ends := run_ends (ne_nil_of_mem isCall) isRecord
  have isRow := kept.landed earlier isEarlier (ne_nil_of_mem isCall) record isRecord
  refine notToday (mem_flatMap.mpr ⟨record, mem_filter.mpr ⟨?_, ?_⟩, ?_⟩)
  · rw [isPrior]
    exact isRow
  · refine decide_eq_true ⟨ends.trigger.trans isTimer, ?_, isDone⟩
    rw [ends.started]
    exact inside
  · rw [ends.policies, ← same]
    exact mem_policies isCall

theorem Kept.runs (kept : Kept policies history) (isPrior : asked.prior = history.rows)
    (isPolicy : ∀ state ∈ asked.states, state.policy = policies state.profile)
    (recorded : (run asked).calls = [] ∨ (landed ∧ (run asked).raised = false))
    (apart : ∀ earlier ∈ history.ran, DayApart earlier asked) :
    Kept policies (history.runs asked landed) where
  judged := by
    show haltRuns (_ ++ _) = haltRuns (ended (_ ++ _))
    have together : ended (history.ran ++ [asked]) = ended history.ran ++ (run asked).appended := by
      simp [ended]
    rw [together, haltRuns_append, haltRuns_append, kept.judged]
    refine congrArg _ ?_
    cases landed with
    | true => rfl
    | false =>
      have isQuiet := recorded.resolve_right fun isLanded => by cases isLanded.1
      have noneJudged : haltRuns (run asked).appended = [] := by
        rw [haltRuns, filter_eq_nil_iff]
        intro record isRecord isJudged
        obtain ⟨notStopped, notClear⟩ := run_quiet isQuiet isRecord
        rcases of_decide_eq_true isJudged with stopped | clears
        · exact notStopped stopped
        · cases notClear.symm.trans clears
      rw [noneJudged]
      rfl
  landed earlier isEarlier isAsked record isRecord := by
    rcases mem_append.mp isEarlier with before | isLast
    · exact mem_append_left _ (kept.landed earlier before isAsked record isRecord)
    · rw [mem_singleton.mp isLast] at isAsked isRecord
      rw [(recorded.resolve_left isAsked).1]
      exact mem_append_right _ isRecord
  rated before one after isSplit isScheduled := by
    rcases eq_nil_or_concat after with rfl | ⟨init, last, rfl⟩
    · have same : history.ran ++ [asked] = before ++ [one] := isSplit
      obtain ⟨isBefore, isOne⟩ := append_inj' same rfl
      cases isOne
      rw [← isBefore]
      exact kept.rates isPrior isScheduled isPolicy
    · have same : history.ran ++ [asked] = (before ++ one :: init) ++ [last] := by
        rw [append_assoc, cons_append]
        rw [concat_eq_append] at isSplit
        exact isSplit
      exact kept.rated before one init (append_inj' same rfl).1 isScheduled
  apart := by
    refine pairwise_append.mpr ⟨kept.apart, pairwise_singleton _ _, ?_⟩
    intro earlier isEarlier one isOne
    rw [mem_singleton.mp isOne]
    exact apart earlier isEarlier

theorem step_kept (policies : Str → Policy) (history : History) (event : Event)
    (kept : Kept policies history)
    (allowed : Unchanged policies history event ∧ Counted history event) :
    Kept policies (step history event) := by
  obtain ⟨unchanged, counted⟩ := allowed
  have starts {asked : Asked} {landed : Bool} (isStart : history.starts event = some (asked, landed))
      (isPrior : asked.prior = history.rows) : Kept policies (history.runs asked landed) := by
    have isPolicy := unchanged (asked, landed) isStart
    obtain ⟨recorded, earlier⟩ := counted (asked, landed) isStart
    exact kept.runs isPrior isPolicy recorded (kept.dayApart isPrior isPolicy earlier)
  cases event with
  | commits device at_ => exact ⟨kept.judged, kept.landed, kept.rated, kept.apart⟩
  | requests asked landed => exact starts rfl rfl
  | ticks now on states asked landed =>
    unfold step
    by_cases isTick : tickStarts asked.windows on states history.rows now = true
    · have isStart : history.starts (.ticks now on states asked landed) =
          some (history.finds .scheduled asked, landed) := if_pos isTick
      simp only [isStart]
      exact starts isStart rfl
    · have noStart : history.starts (.ticks now on states asked landed) = none := if_neg isTick
      simp only [noStart]
      exact kept

theorem begin_kept (policies : Str → Policy) (commits : Device → Option Stamp) :
    Kept policies (begin_ commits) where
  judged := rfl
  landed _ isNone := by cases isNone
  rated before asked after isSplit := by
    cases before <;> cases isSplit
  apart := List.Pairwise.nil

/-- The timer keeps its rate in the runs of a history. -/
structure KeepsRate (policies : Str → Policy) (ran : List Asked) : Prop where
  rated : ∀ before asked after, ran = before ++ asked :: after → asked.trigger = .scheduled →
    Rated policies before asked
  apart : ran.Pairwise DayApart

/-- The timer's run over these devices, each turn answered alike, at its second. -/
def timed (second : Nat) (states : List DeviceState) (rotate : RotateOut) : Event :=
  .ticks second [⟨0, 24, none, none⟩] states
    { routers (fun _ => smooth (.ok rotate)) with
      started := second, finished := second + 60, states := states } true

end Nmas.Rotation
