import Mathlib.Data.List.Basic
import Mathlib.Data.List.Induction
import Mathlib.Data.Set.Basic
import Mathlib.Order.Defs.LinearOrder
import Mathlib.Order.Basic

/-!
Contract: keys held by the time they were last seen.

Owns: a store that each look sets the keys it sees to its own time in and drops
what is no longer fresh from, and that it holds, after looks taken in their
order, the keys some look still fresh has seen.

Does not own: what is fresh. A time is taken as fresh at another by a relation
that a later time, or an earlier moment to ask, can only favour.
-/

namespace Nmas.Log

open List

structure Look (Key Time : Type) where
  time : Time
  sees : Set Key

variable {Key Time : Type} (fresh : Time → Time → Prop)

def look (held : Set (Key × Time)) (next : Look Key Time) : Set (Key × Time) :=
  {kept | (kept.1 ∈ next.sees ∧ kept.2 = next.time ∨ kept.1 ∉ next.sees ∧ kept ∈ held) ∧
    fresh next.time kept.2}

def looks (taken : List (Look Key Time)) : Set (Key × Time) := taken.foldl (look fresh) ∅

theorem looks_append_singleton (earlier : List (Look Key Time)) (last : Look Key Time) :
    looks fresh (earlier ++ [last]) = look fresh (looks fresh earlier) last :=
  foldl_concat _ _ _ _

theorem exists_look_of_held {earlier : List (Look Key Time)} {key : Key} {time : Time}
    (held : (key, time) ∈ looks fresh earlier) :
    ∃ one ∈ earlier, one.time = time ∧ key ∈ one.sees := by
  induction earlier using List.reverseRecOn with
  | nil => cases held
  | append_singleton earlier last ih =>
    rw [looks_append_singleton] at held
    rcases held.1 with ⟨sees, isTime⟩ | ⟨_, before⟩
    · exact ⟨last, mem_append_right _ (.head _), isTime.symm, sees⟩
    · obtain ⟨one, member, isOne⟩ := ih before
      exact ⟨one, mem_append_left _ member, isOne⟩

variable {fresh} [LinearOrder Time]

theorem held_of_look (later : ∀ now old new, fresh now old → old ≤ new → fresh now new)
    (sooner : ∀ now before time, fresh now time → before ≤ now → fresh before time)
    {taken : List (Look Key Time)}
    (inOrder : taken.Pairwise (fun one other => one.time ≤ other.time))
    {key : Key} {one : Look Key Time} (member : one ∈ taken) (sees : key ∈ one.sees)
    (isFresh : ∀ last ∈ taken.getLast?, fresh last.time one.time) :
    ∃ time, one.time ≤ time ∧ (key, time) ∈ looks fresh taken := by
  induction taken using List.reverseRecOn with
  | nil => cases member
  | append_singleton earlier last ih =>
    obtain ⟨orderedBefore, _, beforeLast⟩ := pairwise_append.mp inOrder
    have freshNow : fresh last.time one.time := by
      apply isFresh
      rw [List.getLast?_concat]
      rfl
    have notAfter : one.time ≤ last.time := by
      rcases mem_append.mp member with before | isLast
      · exact beforeLast one before last (.head _)
      · rw [mem_singleton.mp isLast]
    rw [looks_append_singleton]
    by_cases again : key ∈ last.sees
    · exact ⟨last.time, notAfter, .inl ⟨again, rfl⟩, later _ _ _ freshNow notAfter⟩
    · have before : one ∈ earlier := by
        rcases mem_append.mp member with before | isLast
        · exact before
        · rw [mem_singleton.mp isLast] at sees
          exact absurd sees again
      obtain ⟨time, after, held⟩ := ih orderedBefore before (by
        intro previous isPrevious
        apply sooner _ _ _ freshNow
        exact beforeLast previous (mem_of_mem_getLast? isPrevious) last (.head _))
      exact ⟨time, after, .inr ⟨again, held⟩, later _ _ _ freshNow after⟩

/-- **What is held is what the fresh looks saw.** -/
theorem held_iff (later : ∀ now old new, fresh now old → old ≤ new → fresh now new)
    (sooner : ∀ now before time, fresh now time → before ≤ now → fresh before time)
    {earlier : List (Look Key Time)} {last : Look Key Time}
    (inOrder : (earlier ++ [last]).Pairwise (fun one other => one.time ≤ other.time)) {key : Key} :
    (∃ time, (key, time) ∈ looks fresh (earlier ++ [last])) ↔
      ∃ one ∈ earlier ++ [last], fresh last.time one.time ∧ key ∈ one.sees := by
  constructor
  · rintro ⟨time, held⟩
    obtain ⟨one, member, rfl, sees⟩ := exists_look_of_held fresh held
    rw [looks_append_singleton] at held
    exact ⟨one, member, held.2, sees⟩
  · rintro ⟨one, member, isFresh, sees⟩
    obtain ⟨time, _, held⟩ := held_of_look later sooner inOrder member sees (by
      intro other isLast
      rw [List.getLast?_concat] at isLast
      cases isLast
      exact isFresh)
    exact ⟨time, held⟩

end Nmas.Log
