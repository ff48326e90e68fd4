import Mathlib.Data.List.Infix

/-!
Contract: an append-only log whose writers read it whole, decide, and append
later.

A writer's decision is a function of the log it read. Between its read and its
append any number of rows may land, so what it appends may rest on a log that
has moved.

Owns:
- the states and steps of any number of such writers;
- what holds of every row still to be written;
- the rule that carries a property of the log over a run.

Does not own: what a row means, or which decisions are safe on a moved log.
-/

namespace Nmas.Log

open List

/-- A row decided and not yet written, with the log the decision read. -/
structure InFlight (Op Row : Type) where
  op : Op
  read : List Row
  row : Row

/-- The log, and the rows its writers have decided on and not yet written. -/
structure State (Op Row : Type) where
  log : List Row
  inFlight : List (InFlight Op Row)

/-- What happens next: a writer reads the log and decides, or a row in flight
is written. A writer that stops in between leaves its row in flight for good. -/
inductive Act (Op : Type) where
  | reads (op : Op)
  | appends (place : Nat)

variable {Op Row : Type}

/-- One step. A decision that refuses leaves nothing in flight. -/
def step (decides : Op → List Row → Option Row) (state : State Op Row) : Act Op → State Op Row
  | .reads op =>
    match decides op state.log with
    | some row => { state with inFlight := state.inFlight ++ [⟨op, state.log, row⟩] }
    | none => state
  | .appends place =>
    match state.inFlight[place]? with
    | some pending =>
      { log := state.log ++ [pending.row], inFlight := state.inFlight.eraseIdx place }
    | none => state

def run (decides : Op → List Row → Option Row) (state : State Op Row) (acts : List (Act Op)) :
    State Op Row :=
  acts.foldl (step decides) state

/-- No writer is between its read and its append. -/
def idle (log : List Row) : State Op Row := ⟨log, []⟩

def landing (state : State Op Row) : Act Op → Option (InFlight Op Row)
  | .reads _ => none
  | .appends place => state.inFlight[place]?

/-- A condition on every row written in a run: the row as decided, and the log
it lands on. -/
def Lands (decides : Op → List Row → Option Row) (allowed : InFlight Op Row → List Row → Prop) :
    State Op Row → List (Act Op) → Prop
  | _, [] => True
  | state, act :: rest =>
    (∀ pending ∈ landing state act, allowed pending state.log) ∧
      Lands decides allowed (step decides state act) rest

instance decidableLands (decides : Op → List Row → Option Row)
    (allowed : InFlight Op Row → List Row → Prop)
    [∀ pending log, Decidable (allowed pending log)] :
    ∀ state acts, Decidable (Lands decides allowed state acts)
  | _, [] => isTrue trivial
  | state, act :: rest =>
    have := decidableLands decides allowed (step decides state act) rest
    inferInstanceAs (Decidable (_ ∧ _))

/-- The decision behind a row, taken again on the log the row lands on, is
still to append. -/
def Rechecked (decides : Op → List Row → Option Row) (pending : InFlight Op Row)
    (log : List Row) : Prop :=
  (decides pending.op log).isSome

instance (decides : Op → List Row → Option Row) (pending : InFlight Op Row) (log : List Row) :
    Decidable (Rechecked decides pending log) :=
  inferInstanceAs (Decidable (_ = _))

def Decided (decides : Op → List Row → Option Row) (state : State Op Row) : Prop :=
  ∀ pending ∈ state.inFlight,
    decides pending.op pending.read = some pending.row ∧ pending.read <+: state.log

theorem decided_idle (decides : Op → List Row → Option Row) (log : List Row) :
    Decided decides (idle log) := by
  intro pending member
  cases member

theorem log_prefix_step (decides : Op → List Row → Option Row) (state : State Op Row)
    (act : Act Op) :
    state.log <+: (step decides state act).log := by
  cases act with
  | reads op =>
    rw [step]
    split
    · exact prefix_refl _
    · exact prefix_refl _
  | appends place =>
    rw [step]
    split
    · exact prefix_append _ _
    · exact prefix_refl _

theorem Decided.step {decides : Op → List Row → Option Row} {state : State Op Row}
    (decided : Decided decides state) (act : Act Op) :
    Decided decides (step decides state act) := by
  have grown := log_prefix_step decides state act
  cases act with
  | reads op =>
    rw [Log.step]
    split
    · rename_i row decidedNow
      intro pending member
      rcases mem_append.mp member with earlier | new
      · exact decided pending earlier
      · rw [mem_singleton] at new
        subst new
        exact ⟨decidedNow, prefix_refl _⟩
    · exact decided
  | appends place =>
    intro pending member
    have earlier : pending ∈ state.inFlight := by
      rw [Log.step] at member
      split at member
      · exact mem_of_mem_eraseIdx member
      · exact member
    exact ⟨(decided pending earlier).1, (decided pending earlier).2.trans grown⟩

theorem step_keeps {decides : Op → List Row → Option Row}
    {allowed : InFlight Op Row → List Row → Prop} {Keeps : List Row → Prop}
    (append_keeps : ∀ log pending, Keeps log → decides pending.op pending.read = some pending.row →
      pending.read <+: log → allowed pending log → Keeps (log ++ [pending.row]))
    {state : State Op Row} {act : Act Op} (decided : Decided decides state)
    (keeps : Keeps state.log)
    (lands : ∀ pending ∈ landing state act, allowed pending state.log) :
    Keeps (step decides state act).log := by
  cases act with
  | reads op =>
    rw [step]
    split
    · exact keeps
    · exact keeps
  | appends place =>
    rw [step]
    split
    · rename_i pending found
      have member : pending ∈ state.inFlight := mem_of_getElem? found
      exact append_keeps state.log pending keeps (decided pending member).1
        (decided pending member).2 (lands pending found)
    · exact keeps

/-- **The rule of runs.** A property of the log that every allowed append keeps
holds after every run whose appends are allowed. -/
theorem run_keeps {decides : Op → List Row → Option Row}
    {allowed : InFlight Op Row → List Row → Prop} {Keeps : List Row → Prop}
    (append_keeps : ∀ log pending, Keeps log → decides pending.op pending.read = some pending.row →
      pending.read <+: log → allowed pending log → Keeps (log ++ [pending.row]))
    {state : State Op Row} (acts : List (Act Op)) (decided : Decided decides state)
    (keeps : Keeps state.log) (lands : Lands decides allowed state acts) :
    Keeps (run decides state acts).log := by
  induction acts generalizing state with
  | nil => exact keeps
  | cons act rest ih =>
    rw [run, foldl_cons]
    apply ih
    · exact decided.step act
    · exact step_keeps append_keeps decided keeps lands.1
    · exact lands.2

end Nmas.Log
