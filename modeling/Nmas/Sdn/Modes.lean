import Mathlib.Data.Rat.Floor
import Nmas.Log.ReadThenAppend
import Nmas.Text.Unicode

/-!
Contract: who may answer a detection unattended, and for how long.

Owns: `sdn/modes.py`, the mode's record. `current` reads the mode off the last
row, `turnOn`, `turnOff` and `recordExpiry` decide what to append, `decide`
says whether one response runs unattended.

The record is append-only and its lock covers the append alone, so any number
of processes decide on rows they read earlier: `Log.run decides` is the record
under all of them. A time is kept as the clock's seconds where a row holds its
text, and a refusal or an answer's words as the comparison made and its
operands.
-/

namespace Nmas.Sdn.Modes

open Nmas.Text List

/-- Seconds since the epoch. -/
abbrev Clock := ℚ

/-- A row that turned AUTO on. -/
structure On where
  setBy : Str
  actorVerified : Str
  reason : Str
  allowedRisk : Str
  at_ : Clock
  untilEpoch : Clock
deriving DecidableEq

/-- A line of `sdn_mode.jsonl`. -/
inductive Row where
  | on (setting : On)
  | off (setBy actorVerified : Str) (at_ : Clock) (why : Str)
  /-- `why` names who set the AUTO that lapsed, its reason and its expiry. -/
  | expired (at_ : Clock) (lapsedBy lapsedReason : Str) (lapsedUntil : Clock)
deriving DecidableEq

/-- What `_rows` answers. -/
inductive Rows where
  | absent
  | ok (rows : List Row)
  | unreadable (error : Str)

def Rows.rows : Rows → List Row
  | .ok rows => rows
  | _ => []

/-- The record as `_rows` reads it while it holds `log`. -/
def rowsOf (log : List Row) : Rows := if log = [] then .absent else .ok log

@[simp] theorem rows_rowsOf (log : List Row) : (rowsOf log).rows = log := by
  unfold rowsOf
  split
  · rename_i empty
    rw [empty]
    rfl
  · rfl

/-- What `current` answers: HITL, with the AUTO that lapsed if one did, or AUTO
by the row that set it. -/
inductive Mode where
  | hitl (rows : Rows) (expired : Option On)
  | auto (setting : On)

def current (rows : Rows) (now : Clock) : Mode :=
  match rows with
  | .unreadable _ => .hitl rows none
  | _ =>
    match rows.rows.getLast? with
    | some (.on last) => if now ≥ last.untilEpoch then .hitl rows (some last) else .auto last
    | _ => .hitl rows none

inductive Stage where
  | noNetwork
  | marked (stage : Str)
  | notMarked
  | unreadable (error : Str)
deriving DecidableEq

def stages : List Str := ["lab".ascii, "pilot".ascii, "production".ascii]

def autoStage : Str := "lab".ascii

/-- `stage`, from what the settings resolve the key to. -/
def stage (network : Str) (resolved : Except Str (Option Str)) : Stage :=
  if network = [] then .noNetwork
  else
    match resolved with
    | .error error => .unreadable error
    | .ok none => .notMarked
    | .ok (some got) =>
      if got = [] then .notMarked
      else if got ∈ stages then .marked got
      else .unreadable got

/-- `_stage_refusal`: the stage that is not the one AUTO runs on. -/
def stageRefusal (got : Stage) : Option Stage := if got = .marked autoStage then none else some got

def risks : List Str := ["low".ascii, "medium".ascii]

def maxAutoSeconds : Clock := 24 * 3600

inductive ModeRefused where
  | noNetwork
  | unverified
  | noReason
  | unknownRisk (risk : Str)
  | notInFuture (until_ : Clock)
  | tooLong (until_ : Clock)
  | stage (got : Stage)
  | noActor
  | notOn

def verified (actor actorVerified : Str) : Bool :=
  !actor.isEmpty && actorVerified ≠ [] && actorVerified ≠ "none".ascii

def turnOn (network : Str) (got : Stage) (actor actorVerified reason : Str) (until_ : Clock)
    (allowedRisk : Str) (now : Clock) : Except ModeRefused Row :=
  if network = [] then .error .noNetwork
  else if !verified actor actorVerified then .error .unverified
  else if reason.all isSpace then .error .noReason
  else if allowedRisk ∉ risks then .error (.unknownRisk allowedRisk)
  else if until_ ≤ now then .error (.notInFuture until_)
  else if until_ - now > maxAutoSeconds then .error (.tooLong until_)
  else
    match stageRefusal got with
    | some refused => .error (.stage refused)
    | none => .ok (.on ⟨actor, actorVerified, reason, allowedRisk, now, until_⟩)

def turnOff (rows : Rows) (actor actorVerified why : Str) (now : Clock) : Except ModeRefused Row :=
  if actor = [] then .error .noActor
  else
    match current rows now with
    | .auto _ => .ok (.off actor actorVerified now why)
    | .hitl .. => .error .notOn

/-- `record_expiry`: the row to append, or nothing to record. -/
def recordExpiry (rows : Rows) (now : Clock) : Option Row :=
  match current rows now with
  | .hitl _ (some last) => some (.expired now last.setBy last.reason last.untilEpoch)
  | _ => none

/-! ### Whether a response runs unattended -/

/-- What `source_refusal` reads of a detection. -/
structure Sourced where
  source : Option Str
  /-- How the topology named the source, where the flows name none. -/
  sourceFrom : Option Str
  sources : List Str

inductive SourceRefusal where
  | inferred (source how : Str)
  | notNamed (sources : List Str) (how : Option Str)

def sourceActions : List Str := ["drop_source".ascii, "rate_limit_source".ascii]

def sourceRefusal (detection : Sourced) (action : Str) : Option SourceRefusal :=
  if action ∉ sourceActions then none
  else
    match detection.source, detection.sourceFrom with
    | some _, none => none
    | some source, some how => some (.inferred source how)
    | none, how => some (.notNamed (detection.sources.filter (· ≠ [])) how)

/-- What `decide` answers. -/
inductive Decision where
  | auto (setting : On)
  | mode (mode : Mode)
  | suspended (stage : Stage)
  | inferred (refused : SourceRefusal)
  | risk (risk allowed : Str)

def decide (rows : Rows) (got : Stage) (risk : Str) (now : Clock) (detection : Sourced)
    (action : Str) : Decision :=
  match current rows now with
  | .hitl rows expired => .mode (.hitl rows expired)
  | .auto setting =>
    match stageRefusal got with
    | some refused => .suspended refused
    | none =>
      match sourceRefusal detection action with
      | some refused => .inferred refused
      | none =>
        let allowed :=
          if setting.allowedRisk ∈ risks then
            risks.take (risks.idxOf setting.allowedRisk + 1)
          else []
        if risk ∈ allowed then .auto setting else .risk risk setting.allowedRisk

/-! ### The record under any number of processes -/

/-- A call, with what it reads apart from the record. -/
inductive Op where
  | turnOn (network : Str) (got : Stage) (actor actorVerified reason : Str) (until_ : Clock)
      (allowedRisk : Str) (now : Clock)
  | turnOff (actor actorVerified why : Str) (now : Clock)
  | recordExpiry (now : Clock)

/-- The row a call appends, decided on the record it reads. A call that cannot
read the record appends nothing, and is a call that never started. -/
def decides : Op → List Row → Option Row
  | .turnOn network got actor actorVerified reason until_ allowedRisk now, _ =>
    (turnOn network got actor actorVerified reason until_ allowedRisk now).toOption
  | .turnOff actor actorVerified why now, log =>
    (turnOff (rowsOf log) actor actorVerified why now).toOption
  | .recordExpiry now, log => recordExpiry (rowsOf log) now

/-- Every expiry recorded stands right behind an AUTO past its own expiry. -/
def ExpiresOwn (log : List Row) : Prop :=
  ∀ before at_ lapsedBy lapsedReason lapsedUntil,
    before ++ [.expired at_ lapsedBy lapsedReason lapsedUntil] <+: log →
      ∃ setting, before.getLast? = some (.on setting) ∧ setting.untilEpoch ≤ at_

def isOn : Row → Bool
  | .on _ => true
  | _ => false

def isExpired : Row → Bool
  | .expired .. => true
  | _ => false

/-- Up to the next AUTO, an AUTO has at most one expiry recorded. -/
def ExpiresOnce (log : List Row) : Prop :=
  ∀ before setting after, log = before ++ .on setting :: after →
    (after.takeWhile (fun row => !isOn row)).countP isExpired ≤ 1

/-- Whatever is asked, AUTO is answered only while the newest row is an AUTO
not yet past its expiry. -/
def DecidesUnexpired (log : List Row) : Prop :=
  ∀ got risk now detection action setting,
    decide (rowsOf log) got risk now detection action = .auto setting →
      log.getLast? = some (.on setting) ∧ now < setting.untilEpoch

/-- AUTO ends by its own expiry, once, and never outlives it. -/
structure EndsByItself (log : List Row) : Prop where
  own : ExpiresOwn log
  once : ExpiresOnce log
  unexpired : DecidesUnexpired log

/-- An expiry lands on a record whose newest row it would still be recorded
for. -/
def ExpiryStillDue (pending : Log.InFlight Op Row) (log : List Row) : Prop :=
  match pending.op with
  | .recordExpiry _ => Log.Rechecked decides pending log
  | _ => True

instance (pending : Log.InFlight Op Row) (log : List Row) :
    Decidable (ExpiryStillDue pending log) := by
  unfold ExpiryStillDue
  split <;> infer_instance

/-! ### What a read of the record decides -/

theorem current_rowsOf (log : List Row) (now : Clock) :
    current (rowsOf log) now =
      match log.getLast? with
      | some (.on last) =>
        if now ≥ last.untilEpoch then .hitl (rowsOf log) (some last) else .auto last
      | _ => .hitl (rowsOf log) none := by
  have read := rows_rowsOf log
  unfold current
  split
  · rename_i error unread
    unfold rowsOf at unread
    split at unread <;> cases unread
  · rw [read]

theorem recordExpiry_rowsOf {log : List Row} {now : Clock} {row : Row}
    (recorded : recordExpiry (rowsOf log) now = some row) :
    ∃ setting, log.getLast? = some (.on setting) ∧ setting.untilEpoch ≤ now ∧
      row = .expired now setting.setBy setting.reason setting.untilEpoch := by
  unfold recordExpiry at recorded
  rw [current_rowsOf] at recorded
  cases newest : log.getLast? with
  | none => simp [newest] at recorded
  | some last =>
    cases last with
    | off | expired => simp [newest] at recorded
    | on setting =>
      by_cases due : now ≥ setting.untilEpoch
      · simp only [newest, if_pos due] at recorded
        exact ⟨setting, rfl, due, (Option.some.inj recorded).symm⟩
      · simp [newest, due] at recorded

theorem expired_of_decides {op : Op} {log : List Row} {at_ : Clock} {lapsedBy lapsedReason : Str}
    {lapsedUntil : Clock}
    (decided : decides op log = some (.expired at_ lapsedBy lapsedReason lapsedUntil)) :
    op = .recordExpiry at_ := by
  cases op with
  | turnOn network got actor actorVerified reason until_ allowedRisk now =>
    simp only [decides, turnOn] at decided
    split_ifs at decided
    all_goals try cases decided
    split at decided <;> cases decided
  | turnOff actor actorVerified why now =>
    simp only [decides, turnOff] at decided
    split_ifs at decided
    · cases decided
    · split at decided <;> cases decided
  | recordExpiry now =>
    obtain ⟨setting, _, _, isRow⟩ := recordExpiry_rowsOf decided
    cases isRow
    rfl

theorem decidesUnexpired (log : List Row) : DecidesUnexpired log := by
  intro got risk now detection action setting auto
  unfold decide at auto
  rw [current_rowsOf] at auto
  cases newest : log.getLast? with
  | none => simp [newest] at auto
  | some row =>
    cases row with
    | off | expired => simp [newest] at auto
    | on last =>
      by_cases due : now ≥ last.untilEpoch
      · simp [newest, due] at auto
      · simp only [newest, if_neg due] at auto
        have same : last = setting := by
          split at auto
          · cases auto
          · split at auto
            · cases auto
            · by_cases inside : risk ∈ (if last.allowedRisk ∈ risks then
                  risks.take (risks.idxOf last.allowedRisk + 1) else [])
              · rw [if_pos inside] at auto
                exact Decision.auto.inj auto
              · rw [if_neg inside] at auto
                cases auto
        exact ⟨by rw [same], by rw [← same]; exact not_le.mp due⟩

/-! ### Runs -/

theorem expiresOwn_append {log : List Row} {row : Row} (own : ExpiresOwn log)
    (due : ∀ at_ lapsedBy lapsedReason lapsedUntil,
      row = .expired at_ lapsedBy lapsedReason lapsedUntil →
        ∃ setting, log.getLast? = some (.on setting) ∧ setting.untilEpoch ≤ at_) :
    ExpiresOwn (log ++ [row]) := by
  intro before at_ lapsedBy lapsedReason lapsedUntil isPrefix
  rcases prefix_concat_iff.mp isPrefix with whole | earlier
  · obtain ⟨sameLog, sameRow⟩ := append_inj' whole rfl
    rw [sameLog]
    exact due at_ lapsedBy lapsedReason lapsedUntil (singleton_inj.mp sameRow).symm
  · exact own before at_ lapsedBy lapsedReason lapsedUntil earlier

private theorem ExpiresOwn.quiet {front rest : List Row} {last : Row}
    (own : ExpiresOwn (front ++ rest)) (newest : front.getLast? = some last)
    (notOn : isOn last = false) :
    (rest.takeWhile (fun row => !isOn row)).countP isExpired = 0 := by
  induction rest generalizing front last with
  | nil => rfl
  | cons row rest ih =>
    have split : front ++ row :: rest = (front ++ [row]) ++ rest := by simp
    have isPrefix : front ++ [row] <+: front ++ row :: rest := ⟨rest, split.symm⟩
    cases row with
    | on setting => simp [isOn]
    | off setBy actorVerified at_ why =>
      rw [takeWhile_cons_of_pos (by rfl), countP_cons_of_neg (by simp [isExpired])]
      rw [split] at own
      exact ih own List.getLast?_concat rfl
    | expired at_ lapsedBy lapsedReason lapsedUntil =>
      obtain ⟨setting, isSetting, _⟩ := own front at_ lapsedBy lapsedReason lapsedUntil isPrefix
      rw [newest] at isSetting
      rw [Option.some.inj isSetting] at notOn
      cases notOn

theorem ExpiresOwn.once {log : List Row} (own : ExpiresOwn log) : ExpiresOnce log := by
  intro before setting after split
  cases after with
  | nil => simp
  | cons next rest =>
    cases onAgain : isOn next with
    | true => simp [onAgain]
    | false =>
      have whole : log = (before ++ [.on setting, next]) ++ rest := by simp [split]
      rw [whole] at own
      have newest : (before ++ [.on setting, next]).getLast? = some next := by simp
      have quiet := own.quiet newest onAgain
      rw [takeWhile_cons_of_pos (by simp [onAgain]), countP_cons, quiet]
      split_ifs
      · omega
      · omega

/-- **The record of a network's mode.** While every expiry that lands is still
due when it lands, an expiry stands only behind its own AUTO, once, and AUTO is
answered only while it lasts. -/
theorem auto_expires_own {log : List Row} (own : ExpiresOwn log) (acts : List (Log.Act Op))
    (stillDue : Log.Lands decides ExpiryStillDue (Log.idle log) acts) :
    EndsByItself (Log.run decides (Log.idle log) acts).log := by
  have kept : ExpiresOwn (Log.run decides (Log.idle log) acts).log := by
    apply Log.run_keeps ?_ acts (Log.decided_idle decides log) own stillDue
    intro log pending own decided _ stillDue
    apply expiresOwn_append own
    intro at_ lapsedBy lapsedReason lapsedUntil isExpiry
    rw [isExpiry] at decided
    have isOp := expired_of_decides decided
    have rechecked : (decides pending.op log).isSome := by
      unfold ExpiryStillDue at stillDue
      rw [isOp] at stillDue
      exact stillDue
    obtain ⟨again, recorded⟩ := Option.isSome_iff_exists.mp rechecked
    rw [isOp] at recorded
    obtain ⟨setting, newest, due, _⟩ := recordExpiry_rowsOf recorded
    exact ⟨setting, newest, due⟩
  exact ⟨kept, kept.once, decidesUnexpired _⟩

theorem expiresOwn_nil : ExpiresOwn [] := by
  intro before at_ lapsedBy lapsedReason lapsedUntil isPrefix
  have empty := prefix_nil.mp isPrefix
  simp at empty

/-- `turn_on` by a verified person on a lab network, for low risk. -/
def labTurnOn (now until_ : Clock) : Op :=
  .turnOn "lab1".ascii (.marked autoStage) "ann".ascii "oidc".ascii "drill".ascii until_
    "low".ascii now

/-- An AUTO that lapses is recorded expired once. -/
theorem lapsed_auto_expires_once :
    ExpiresOnce (Log.run decides (Log.idle [])
      [.reads (labTurnOn 0 100), .appends 0, .reads (.recordExpiry 150), .appends 0,
        .reads (.recordExpiry 160)]).log :=
  (auto_expires_own expiresOwn_nil _ (by decide +kernel)).once

/-- The expiry of one AUTO, read before a second AUTO is turned on and written
after it, cancels the second. -/
theorem expiry_cancels_renewed_auto :
    ¬ ∀ acts, EndsByItself (Log.run decides (Log.idle []) acts).log := by
  intro always
  have renewed := always
    [.reads (labTurnOn 0 100), .appends 0, .reads (.recordExpiry 150), .reads (labTurnOn 151 300),
      .appends 1, .appends 0]
  have written : (Log.run decides (Log.idle [])
      [.reads (labTurnOn 0 100), .appends 0, .reads (.recordExpiry 150),
        .reads (labTurnOn 151 300), .appends 1, .appends 0]).log =
      [.on ⟨"ann".ascii, "oidc".ascii, "drill".ascii, "low".ascii, 0, 100⟩,
        .on ⟨"ann".ascii, "oidc".ascii, "drill".ascii, "low".ascii, 151, 300⟩] ++
        [.expired 150 "ann".ascii "drill".ascii 100] := by
    decide +kernel
  rw [written] at renewed
  obtain ⟨setting, newest, due⟩ := renewed.own _ _ _ _ _ (List.prefix_refl _)
  cases newest
  revert due
  decide +kernel

end Nmas.Sdn.Modes
