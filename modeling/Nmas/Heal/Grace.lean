import Mathlib.Algebra.Order.Ring.Rat
import Nmas.Text.Unicode

/-!
Contract: the grace period's judgement of one device's reads.

Owns: `heal/grace.py`. `judge` takes the reads kept of a device and the times of
the outside changes on it; only reads after the newest change count.

A time is an exact rational of seconds. The words a judgement says are not kept:
nothing decides by them.
-/

namespace Nmas.Heal

open Nmas.Text

abbrev Clock := ℚ

inductive ReadState where
  | drifted
  | clean
  | skipped
  | error
  | busy
deriving DecidableEq, Repr

/-- One read of a device, as an incident keeps it. -/
structure Read where
  epoch : Clock
  state : ReadState
  departure : Str
  changedLines : Option Nat
  error : Str
deriving DecidableEq

namespace Grace

def readAttempts : Nat := 3

def retrySeconds : Clock := 60

/-- `WAITING_STATES`, then `SETTLED_STATES`. -/
inductive State where
  | needRead
  | waiting
  | persisted
  | atGolden
  | notCheckable
  | unreadable
deriving DecidableEq, Repr

def State.settles : State → Bool
  | .needRead | .waiting => false
  | _ => true

structure Operands where
  graceSeconds : Clock
  reads : Nat
  lastOutsideChange : Option Clock
  firstAt : Option Clock
  secondAt : Option Clock
  departure : Str
deriving DecidableEq

/-- What `judge` answers: `first` and `second` are places in the reads judged. -/
structure Judged where
  state : State
  dueAt : Option Clock
  first : Option Nat
  second : Option Nat
  operands : Operands
deriving DecidableEq

/-- `_same`: by fingerprint where both reads carry one, else by the count of
differing lines. -/
def same (one other : Read) : Bool :=
  if one.departure ≠ [] ∧ other.departure ≠ [] then one.departure = other.departure
  else one.changedLines = other.changedLines

/-- The reads after the newest outside change, each with its place. -/
def usable (reads : List Read) (lastChange : Option Clock) : List (Read × Nat) :=
  reads.zipIdx.filter (fun entry => lastChange.all (fun change => change < entry.1.epoch))

/-- The first read of the run of drifted reads that hold the newest one's
departure, going back; errors between them say nothing. -/
def firstOfRun (newest : Read) (found : Read × Nat) : List (Read × Nat) → Read × Nat
  | [] => found
  | entry :: earlier =>
    match entry.1.state with
    | .error | .busy => firstOfRun newest found earlier
    | .drifted => if same entry.1 newest then firstOfRun newest entry earlier else found
    | .clean | .skipped => found

def errorsInRow (back : List (Read × Nat)) : Nat :=
  ((back.takeWhile (fun entry => entry.1.state = .error ∨ entry.1.state = .busy)).filter
    (fun entry => entry.1.state = .error)).length

/-- `r.get("epoch") or now`. -/
def epochOr (read : Read) (now : Clock) : Clock := if read.epoch = 0 then now else read.epoch

def judge (reads : List Read) (changes : List Clock) (graceSeconds now : Clock) : Judged :=
  let lastChange := changes.max?
  let operands : Operands := ⟨graceSeconds, reads.length, lastChange, none, none, []⟩
  match (usable reads lastChange).reverse with
  | [] => ⟨.needRead, some now, none, none, operands⟩
  | newest :: earlier =>
    match newest.1.state with
    | .clean => ⟨.atGolden, none, some newest.2, none, operands⟩
    | .skipped => ⟨.notCheckable, none, some newest.2, none, operands⟩
    | .error | .busy =>
      if errorsInRow (newest :: earlier) ≥ readAttempts then
        ⟨.unreadable, none, none, none, operands⟩
      else ⟨.needRead, some (epochOr newest.1 now + retrySeconds), none, none, operands⟩
    | .drifted =>
      let first := firstOfRun newest.1 newest earlier
      let operands := { operands with
        firstAt := some first.1.epoch
        secondAt := some newest.1.epoch
        departure := newest.1.departure }
      if first.2 ≠ newest.2 ∧ newest.1.epoch - first.1.epoch ≥ graceSeconds then
        ⟨.persisted, none, some first.2, some newest.2, operands⟩
      else ⟨.waiting, some (epochOr first.1 now + graceSeconds), some first.2, none, operands⟩

variable {reads : List Read} {changes : List Clock} {graceSeconds now : Clock} {newest : Read}
  {found entry : Read × Nat} {earlier : List (Read × Nat)}

theorem firstOfRun_mem : firstOfRun newest found earlier ∈ found :: earlier := by
  induction earlier generalizing found with
  | nil => exact .head _
  | cons entry earlier ih =>
    have skips : firstOfRun newest found earlier ∈ found :: entry :: earlier := by
      rcases List.mem_cons.mp (@ih found) with isFound | before
      · rw [isFound]
        exact .head _
      · exact .tail _ (.tail _ before)
    unfold firstOfRun
    split
    · exact skips
    · exact skips
    · split
      · exact .tail _ ih
      · exact .head _
    · exact .head _
    · exact .head _

theorem mem_usable (member : entry ∈ usable reads changes.max?) :
    reads[entry.2]? = some entry.1 ∧ ∀ change ∈ changes, change < entry.1.epoch := by
  obtain ⟨isRead, after⟩ := List.mem_filter.mp member
  refine ⟨?_, fun change isChange => ?_⟩
  · exact List.mem_zipIdx_iff_getElem?.mp isRead
  · cases isNewest : changes.max? with
    | none =>
      rw [List.max?_eq_none_iff.mp isNewest] at isChange
      cases isChange
    | some last =>
      rw [isNewest] at after
      have upper := (List.max?_eq_some_iff.mp isNewest).2 change isChange
      have lower : last < entry.1.epoch := by simpa using after
      exact lt_of_le_of_lt upper lower

/-- **The reads judged by stand after every change**: the first read a judgement
names was made after all of them. -/
theorem judge_first {place : Nat} (isFirst : (judge reads changes graceSeconds now).first = some place) :
    ∃ read, reads[place]? = some read ∧ ∀ change ∈ changes, change < read.epoch := by
  unfold judge at isFirst
  dsimp only at isFirst
  have counts : ∀ entry ∈ (usable reads changes.max?).reverse, entry.2 = place →
      ∃ read, reads[place]? = some read ∧ ∀ change ∈ changes, change < read.epoch := by
    intro entry member isPlace
    rw [← isPlace]
    exact ⟨entry.1, mem_usable (List.mem_reverse.mp member)⟩
  split at isFirst
  · cases isFirst
  · rename_i newest earlier isUsable
    rw [isUsable] at counts
    split at isFirst
    · exact counts newest (.head _) (Option.some.inj isFirst)
    · exact counts newest (.head _) (Option.some.inj isFirst)
    · split at isFirst <;> cases isFirst
    · split at isFirst <;> cases isFirst
    · split at isFirst <;> exact counts _ firstOfRun_mem (Option.some.inj isFirst)

end Grace

end Nmas.Heal
