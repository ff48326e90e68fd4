import Mathlib.Data.List.Nodup
import Mathlib.Data.List.Infix
import Mathlib.Logic.Function.Basic

/-!
Contract: logs, one a key, that any number of appends reach.

An append begins, lands in its key's log or fails, and may return. Each append
is one line of its own, so two lines of one text stay two.

Owns:
- what is said of such logs: a returned line is in its log once, after every
  line whose append had returned before its own began;
- the steps that keep it: a beginning, a failure, and a landing anywhere behind
  the lines it has to follow.

Does not own: where the lines are kept.
-/

namespace Nmas.Log.Appends

open List

structure Line (Key Text : Type) where
  append : Nat
  key : Key
  text : Text
deriving DecidableEq

/-- An append that has begun: its line, the way it chose, and the lines of its key whose
append had returned by then. -/
structure Call (Key Text Route : Type) where
  line : Line Key Text
  route : Route
  earlier : List (Line Key Text)

structure Account (Key Text Route : Type) where
  log : Key → List (Line Key Text)
  calls : List (Call Key Text Route)
  returned : List (Call Key Text Route)
  next : Nat

def Before {Entry : Type} (one other : Entry) (log : List Entry) : Prop :=
  List.Sublist [one, other] log

instance {Entry : Type} [DecidableEq Entry] (one other : Entry) (log : List Entry) :
    Decidable (Before one other log) :=
  inferInstanceAs (Decidable (List.Sublist _ _))

theorem Before.of_mem_left {Entry : Type} {one other : Entry} {front back : List Entry}
    (member : one ∈ front) : Before one other (front ++ other :: back) := by
  have early : List.Sublist [one] front := singleton_sublist.mpr member
  have late : List.Sublist [other] (other :: back) := singleton_sublist.mpr (.head _)
  exact early.append late

theorem Before.mono {Entry : Type} {one other : Entry} {log longer : List Entry}
    (before : Before one other log) (grown : List.Sublist log longer) : Before one other longer :=
  List.Sublist.trans before grown

variable {Key Text Route : Type}

/-- The lines of a key whose append has returned. -/
def returnedOf [DecidableEq Key] (returned : List (Call Key Text Route)) (key : Key) :
    List (Line Key Text) :=
  (returned.map Call.line).filter (fun line => line.key = key)

/-- What is read of a returned append: its line once, after all it had to follow. -/
def ReadOnce [DecidableEq Key] [DecidableEq Text] (call : Call Key Text Route)
    (read : List (Line Key Text)) : Prop :=
  read.count call.line = 1 ∧ ∀ line ∈ call.earlier, Before line call.line read

instance [DecidableEq Key] [DecidableEq Text] (call : Call Key Text Route)
    (read : List (Line Key Text)) : Decidable (ReadOnce call read) :=
  inferInstanceAs (Decidable (_ ∧ _))

namespace Account

variable {account : Account Key Text Route} {call : Call Key Text Route}

/-- Every line is in one place, its own, and no later than what had to follow it. -/
structure Kept (account : Account Key Text Route) : Prop where
  nodup : ∀ key, (account.log key).Nodup
  own : ∀ key, ∀ line ∈ account.log key, line.key = key
  begun : ∀ key, ∀ line ∈ account.log key, line.append < account.next
  callsBegun : ∀ call ∈ account.calls, call.line.append < account.next
  callsApart : (account.calls.map (fun call => call.line.append)).Nodup
  notLanded : ∀ call ∈ account.calls, call.line ∉ account.log call.line.key
  follows : ∀ call ∈ account.calls, ∀ line ∈ call.earlier, line ∈ account.log call.line.key
  landed : ∀ call ∈ account.returned, call.line ∈ account.log call.line.key
  inOrder : ∀ call ∈ account.returned, ∀ line ∈ call.earlier,
    Before line call.line (account.log call.line.key)

theorem Kept.readOnce [DecidableEq Key] [DecidableEq Text] (kept : account.Kept)
    (member : call ∈ account.returned) : ReadOnce call (account.log call.line.key) := by
  refine ⟨?_, kept.inOrder call member⟩
  exact count_eq_one_of_mem (kept.nodup _) (kept.landed call member)

def begins [DecidableEq Key] (account : Account Key Text Route) (key : Key) (text : Text)
    (route : Route) : Account Key Text Route where
  log := account.log
  calls := account.calls ++ [⟨⟨account.next, key, text⟩, route, returnedOf account.returned key⟩]
  returned := account.returned
  next := account.next + 1

theorem Kept.begins [DecidableEq Key] (kept : account.Kept) (key : Key) (text : Text)
    (route : Route) : (account.begins key text route).Kept where
  nodup := kept.nodup
  own := kept.own
  begun name line member := Nat.lt_succ_of_lt (kept.begun name line member)
  callsBegun := by
    intro one member
    rcases mem_append.mp member with old | new
    · exact Nat.lt_succ_of_lt (kept.callsBegun one old)
    · rw [mem_singleton.mp new]
      exact Nat.lt_succ_self _
  callsApart := by
    unfold Account.begins
    rw [map_append, nodup_append]
    refine ⟨kept.callsApart, nodup_singleton _, ?_⟩
    intro old isOld new isNew
    obtain ⟨one, member, rfl⟩ := mem_map.mp isOld
    rw [map_singleton, mem_singleton] at isNew
    subst isNew
    exact Nat.ne_of_lt (kept.callsBegun one member)
  notLanded := by
    intro one member
    rcases mem_append.mp member with old | new
    · exact kept.notLanded one old
    · rw [mem_singleton.mp new]
      intro isIn
      exact Nat.lt_irrefl _ (kept.begun _ _ isIn)
  follows := by
    intro one member line isEarlier
    rcases mem_append.mp member with old | new
    · exact kept.follows one old line isEarlier
    · rw [mem_singleton.mp new] at isEarlier ⊢
      obtain ⟨isReturned, isKey⟩ := mem_filter.mp isEarlier
      obtain ⟨other, member, rfl⟩ := mem_map.mp isReturned
      have inLog := kept.landed other member
      rwa [of_decide_eq_true isKey] at inLog
  landed := kept.landed
  inOrder := kept.inOrder

def fails (account : Account Key Text Route) (place : Nat) : Account Key Text Route :=
  { account with calls := account.calls.eraseIdx place }

theorem Kept.fails (kept : account.Kept) (place : Nat) : (account.fails place).Kept where
  nodup := kept.nodup
  own := kept.own
  begun := kept.begun
  callsBegun one member := kept.callsBegun one (mem_of_mem_eraseIdx member)
  callsApart := kept.callsApart.sublist ((eraseIdx_sublist _ _).map _)
  notLanded one member := kept.notLanded one (mem_of_mem_eraseIdx member)
  follows one member := kept.follows one (mem_of_mem_eraseIdx member)
  landed := kept.landed
  inOrder := kept.inOrder

/-- The account with a call's line put into its log, between `front` and `back`. -/
def lands [DecidableEq Key] (account : Account Key Text Route) (place : Nat)
    (call : Call Key Text Route) (front back : List (Line Key Text)) (returns : Bool) :
    Account Key Text Route where
  log := Function.update account.log call.line.key (front ++ call.line :: back)
  calls := account.calls.eraseIdx place
  returned := if returns then account.returned ++ [call] else account.returned
  next := account.next

section
variable [DecidableEq Key] {place : Nat} {front back : List (Line Key Text)} {returns : Bool}
  {key : Key}

theorem lands_log_self :
    (account.lands place call front back returns).log call.line.key = front ++ call.line :: back :=
  Function.update_self _ _ _

theorem lands_log_of_ne (isOther : key ≠ call.line.key) :
    (account.lands place call front back returns).log key = account.log key :=
  Function.update_of_ne isOther _ _

end

theorem Kept.append_ne (kept : account.Kept) {place : Nat} {other : Call Key Text Route}
    (isCall : account.calls[place]? = some call) (member : other ∈ account.calls.eraseIdx place) :
    other.line.append ≠ call.line.append := by
  obtain ⟨index, differs, found⟩ := mem_eraseIdx_iff_getElem?.mp member
  intro same
  apply differs
  obtain ⟨inRange, isAt⟩ := List.getElem?_eq_some_iff.mp found
  obtain ⟨inRange', isAt'⟩ := List.getElem?_eq_some_iff.mp isCall
  have inMap : index < (account.calls.map (fun call => call.line.append)).length := by
    simpa using inRange
  have inMap' : place < (account.calls.map (fun call => call.line.append)).length := by
    simpa using inRange'
  have sameAt : (account.calls.map (fun call => call.line.append))[index] =
      (account.calls.map (fun call => call.line.append))[place] := by
    simp [isAt, isAt', same]
  exact kept.callsApart.getElem_inj_iff.mp sameAt

/-- **A line may land anywhere behind the lines it has to follow.** -/
theorem Kept.lands [DecidableEq Key] (kept : account.Kept) {place : Nat}
    {front back : List (Line Key Text)} (isCall : account.calls[place]? = some call)
    (isSplit : account.log call.line.key = front ++ back) (isBehind : call.earlier ⊆ front)
    (returns : Bool) : (account.lands place call front back returns).Kept := by
  have isRunning : call ∈ account.calls := mem_of_getElem? isCall
  have absent : call.line ∉ front ++ back := isSplit ▸ kept.notLanded call isRunning
  have grown : ∀ key, List.Sublist (account.log key)
      ((account.lands place call front back returns).log key) := by
    intro key
    by_cases isKey : key = call.line.key
    · subst isKey
      rw [lands_log_self, isSplit]
      exact (List.Sublist.refl front).append (sublist_cons_self _ _)
    · rw [lands_log_of_ne isKey]
  have members : ∀ key, ∀ line ∈ (account.lands place call front back returns).log key,
      line ∈ account.log key ∨ (key = call.line.key ∧ line = call.line) := by
    intro key line member
    by_cases isKey : key = call.line.key
    · subst isKey
      rw [lands_log_self] at member
      rw [isSplit]
      simp only [mem_append, mem_cons] at member ⊢
      tauto
    · rw [lands_log_of_ne isKey] at member
      exact .inl member
  have inLog : call.line ∈ (account.lands place call front back returns).log call.line.key := by
    rw [lands_log_self]
    exact mem_append_right _ (.head _)
  have returnedOr : ∀ one ∈ (account.lands place call front back returns).returned,
      one ∈ account.returned ∨ one = call := by
    intro one member
    change one ∈ (if returns then account.returned ++ [call] else account.returned) at member
    split_ifs at member
    · simpa using member
    · exact .inl member
  constructor
  case nodup =>
    intro key
    by_cases isKey : key = call.line.key
    · subst isKey
      rw [lands_log_self]
      exact nodup_middle.mpr (nodup_cons.mpr ⟨absent, isSplit ▸ kept.nodup _⟩)
    · rw [lands_log_of_ne isKey]
      exact kept.nodup key
  case own =>
    intro key line member
    rcases members key line member with old | ⟨isKey, rfl⟩
    · exact kept.own key line old
    · exact isKey.symm
  case begun =>
    intro key line member
    rcases members key line member with old | ⟨-, rfl⟩
    · exact kept.begun key line old
    · exact kept.callsBegun call isRunning
  case callsBegun => exact fun one member => kept.callsBegun one (mem_of_mem_eraseIdx member)
  case callsApart => exact kept.callsApart.sublist ((eraseIdx_sublist _ _).map _)
  case notLanded =>
    intro one member isIn
    rcases members _ _ isIn with old | ⟨-, same⟩
    · exact kept.notLanded one (mem_of_mem_eraseIdx member) old
    · exact kept.append_ne isCall member (congrArg Line.append same)
  case follows =>
    intro one member line isEarlier
    exact (grown _).subset (kept.follows one (mem_of_mem_eraseIdx member) line isEarlier)
  case landed =>
    intro one member
    rcases returnedOr one member with old | rfl
    · exact (grown _).subset (kept.landed one old)
    · exact inLog
  case inOrder =>
    intro one member line isEarlier
    rcases returnedOr one member with old | rfl
    · exact (kept.inOrder one old line isEarlier).mono (grown _)
    · rw [lands_log_self]
      exact Before.of_mem_left (isBehind isEarlier)

end Account

end Nmas.Log.Appends
