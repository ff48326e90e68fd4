import Mathlib.Data.List.Basic

/-!
Contract: a loop that goes over its items until a round changes nothing.

Owns: the round, the loop with a bound on its rounds, what the loop's answer is,
and that the loop ends when each change makes a measure smaller.

A visit that says it changed nothing changed nothing (`Honest`); the results
are about those.
-/

namespace Nmas.Fixpoint

variable {σ ι : Type*}

def round (visit : σ → ι → σ × Bool) : σ → List ι → σ × Bool
  | state, [] => (state, false)
  | state, item :: rest =>
    let visited := visit state item
    let later := round visit visited.1 rest
    (later.1, visited.2 || later.2)

/-- Rounds until one changes nothing; none where that takes more than `limit`. -/
def untilStill (visit : σ → ι → σ × Bool) (items : List ι) : (limit : Nat) → σ → Option σ
  | 0, _ => none
  | limit + 1, state =>
    let after := round visit state items
    if after.2 then untilStill visit items limit after.1 else some after.1

def Honest (visit : σ → ι → σ × Bool) : Prop :=
  ∀ state item, (visit state item).2 = false → (visit state item).1 = state

section Loop

variable {visit : σ → ι → σ × Bool} {items : List ι} {state result : σ}

theorem round_keeps {Keeps : σ → Prop}
    (keeps : ∀ item ∈ items, ∀ state, Keeps state → Keeps (visit state item).1)
    (holds : Keeps state) : Keeps (round visit state items).1 := by
  induction items generalizing state with
  | nil => exact holds
  | cons item rest ih =>
    have visited := keeps item (.head _) state holds
    exact ih (fun other member => keeps other (.tail _ member)) visited

theorem still_of_round (honest : Honest visit) (still : (round visit state items).2 = false) :
    (round visit state items).1 = state ∧ ∀ item ∈ items, (visit state item).2 = false := by
  induction items with
  | nil => exact ⟨rfl, nofun⟩
  | cons item rest ih =>
    obtain ⟨isStill, restStill⟩ := Bool.or_eq_false_iff.mp still
    have same := honest state item isStill
    simp only [round, same] at restStill ⊢
    obtain ⟨sameRest, stillRest⟩ := ih restStill
    refine ⟨sameRest, fun other member => ?_⟩
    rcases List.mem_cons.mp member with rfl | later
    · exact isStill
    · exact stillRest other later

theorem round_measure {measure : σ → Nat} {Keeps : σ → Prop} (honest : Honest visit)
    (keeps : ∀ item ∈ items, ∀ state, Keeps state → Keeps (visit state item).1)
    (smaller : ∀ item ∈ items, ∀ state, Keeps state → (visit state item).2 →
      measure (visit state item).1 < measure state)
    (holds : Keeps state) :
    measure (round visit state items).1 ≤ measure state ∧
      ((round visit state items).2 → measure (round visit state items).1 < measure state) := by
  induction items generalizing state with
  | nil => exact ⟨Nat.le_refl _, nofun⟩
  | cons item rest ih =>
    have visited := keeps item (.head _) state holds
    obtain ⟨notLarger, changedRest⟩ := ih
      (fun other member => keeps other (.tail _ member))
      (fun other member => smaller other (.tail _ member)) visited
    cases changed : (visit state item).2 with
    | false =>
      have same := honest state item changed
      simp only [round, changed, Bool.false_or]
      rw [same] at notLarger changedRest ⊢
      exact ⟨notLarger, changedRest⟩
    | true =>
      have less := smaller item (.head _) state holds changed
      exact ⟨Nat.le_trans notLarger (Nat.le_of_lt less), fun _ => Nat.lt_of_le_of_lt notLarger less⟩

theorem untilStill_spec {Keeps : σ → Prop} {limit : Nat} (honest : Honest visit)
    (keeps : ∀ item ∈ items, ∀ state, Keeps state → Keeps (visit state item).1)
    (holds : Keeps state) (ends : untilStill visit items limit state = some result) :
    Keeps result ∧ ∀ item ∈ items, (visit result item).2 = false := by
  induction limit generalizing state with
  | zero => cases ends
  | succ limit ih =>
    simp only [untilStill] at ends
    split_ifs at ends with changed
    · exact ih (round_keeps keeps holds) ends
    · obtain ⟨same, still⟩ := still_of_round honest (Bool.not_eq_true _ ▸ changed)
      obtain rfl := Option.some.inj ends
      exact ⟨round_keeps keeps holds, same.symm ▸ still⟩

theorem untilStill_more {limit more : Nat} (ends : untilStill visit items limit state = some result)
    (least : limit ≤ more) : untilStill visit items more state = some result := by
  induction limit generalizing state more with
  | zero => cases ends
  | succ limit ih =>
    obtain ⟨extra, rfl⟩ := Nat.exists_eq_add_of_lt least
    simp only [untilStill] at ends ⊢
    split_ifs at ends ⊢ with changed
    · exact ih ends (Nat.le_add_right _ _)
    · exact ends

theorem untilStill_ends (measure : σ → Nat) {Keeps : σ → Prop} {limit : Nat} (honest : Honest visit)
    (keeps : ∀ item ∈ items, ∀ state, Keeps state → Keeps (visit state item).1)
    (smaller : ∀ item ∈ items, ∀ state, Keeps state → (visit state item).2 →
      measure (visit state item).1 < measure state)
    (holds : Keeps state) (within : measure state < limit) :
    ∃ result, untilStill visit items limit state = some result := by
  induction limit generalizing state with
  | zero => omega
  | succ limit ih =>
    simp only [untilStill]
    split_ifs with changed
    · have less := (round_measure honest keeps smaller holds).2 changed
      exact ih (round_keeps keeps holds) (by omega)
    · exact ⟨_, rfl⟩

end Loop

end Nmas.Fixpoint
