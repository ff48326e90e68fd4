import Mathlib.Data.Finset.Union
import Mathlib.Data.Finset.Dedup

/-!
Contract: keyed settings. A command gives a setting, in place of the others of
its key, or clears one. A list of commands that gives no key two settings and
clears none that it gives is idempotent: over any part of what it gives, it ends
with exactly that.
-/

namespace Nmas.Outline

open List

variable {σ κ : Type*} [DecidableEq σ] [DecidableEq κ]

/-- What a command does to the settings of a level. -/
inductive Effect (σ : Type*) where
  | give (setting : σ)
  | clear (setting : σ)
deriving DecidableEq

/-- The settings once a command has run. -/
def Effect.on (key : σ → κ) (settings : Finset σ) : Effect σ → Finset σ
  | .give setting => insert setting (settings.filter (fun other => key other ≠ key setting))
  | .clear setting => settings.erase setting

def settle (key : σ → κ) (settings : Finset σ) (effects : List (Effect σ)) : Finset σ :=
  effects.foldl (Effect.on key) settings

def Effect.given : Effect σ → Option σ
  | .give setting => some setting
  | .clear _ => none

def given (effects : List (Effect σ)) : Finset σ := (effects.filterMap Effect.given).toFinset

/-- No key is given two settings, and none that is given is cleared. -/
structure Agrees (key : σ → κ) (effects : List (Effect σ)) : Prop where
  single : ∀ one ∈ given effects, ∀ other ∈ given effects, key one = key other → one = other
  kept : ∀ setting ∈ given effects, .clear setting ∉ effects

section Rules

variable {key : σ → κ} {settings : Finset σ} {effects all : List (Effect σ)} {setting : σ}

theorem mem_given : setting ∈ given effects ↔ .give setting ∈ effects := by
  unfold given
  rw [mem_toFinset, mem_filterMap]
  constructor
  · rintro ⟨effect, member, isGiven⟩
    cases effect with
    | give other =>
      cases isGiven
      exact member
    | clear other => cases isGiven
  · intro member
    exact ⟨.give setting, member, rfl⟩

theorem settle_append (more : List (Effect σ)) :
    settle key settings (effects ++ more) = settle key (settle key settings effects) more := by
  unfold settle
  rw [foldl_append]

theorem settle_of_agrees (agrees : Agrees key all) (below : settings ⊆ given all)
    (part : effects ⊆ all) : settle key settings effects = settings ∪ given effects := by
  induction effects generalizing settings with
  | nil => exact (Finset.union_empty _).symm
  | cons effect rest ih =>
    have isEffect : effect ∈ all := part (.head _)
    have isRest : rest ⊆ all := fun other member => part (.tail _ member)
    have unfolded : settle key settings (effect :: rest) =
      settle key (effect.on key settings) rest := rfl
    rw [unfolded]
    cases effect with
    | give setting =>
      have same : (Effect.give setting).on key settings = insert setting settings := by
        ext other
        simp only [Effect.on, Finset.mem_insert, Finset.mem_filter]
        constructor
        · rintro (rfl | ⟨inside, -⟩)
          · exact .inl rfl
          · exact .inr inside
        · rintro (rfl | inside)
          · exact .inl rfl
          · by_cases sameKey : key other = key setting
            · exact .inl (agrees.single other (below inside) setting
                  (mem_given.mpr isEffect) sameKey)
            · exact .inr ⟨inside, sameKey⟩
      have still : insert setting settings ⊆ given all :=
        Finset.insert_subset (mem_given.mpr isEffect) below
      rw [same, ih still isRest]
      ext other
      simp only [Finset.mem_union, Finset.mem_insert, mem_given, mem_cons, Effect.give.injEq]
      tauto
    | clear setting =>
      have absent : setting ∉ settings := by
        intro inside
        exact agrees.kept setting (below inside) isEffect
      have same : (Effect.clear setting).on key settings = settings :=
        Finset.erase_eq_of_notMem absent
      rw [same, ih below isRest]
      ext other
      simp only [Finset.mem_union, mem_given, mem_cons, reduceCtorEq, false_or]

theorem settle_subset : settle key settings effects ⊆ settings ∪ given effects := by
  induction effects generalizing settings with
  | nil => exact Finset.subset_union_left
  | cons effect rest ih =>
    have below : effect.on key settings ⊆ settings ∪ given [effect] := by
      intro other inside
      cases effect with
      | give setting =>
        simp only [Effect.on, Finset.mem_insert, Finset.mem_filter] at inside
        rcases inside with rfl | ⟨inside, -⟩
        · exact Finset.mem_union_right _ (mem_given.mpr (.head _))
        · exact Finset.mem_union_left _ inside
      | clear setting => exact Finset.mem_union_left _ (Finset.mem_of_mem_erase inside)
    intro other inside
    have isOne : other ∈ effect.on key settings ∪ given rest := ih inside
    simp only [Finset.mem_union, mem_given, mem_cons] at isOne below ⊢
    rcases isOne with here | later
    · rcases Finset.mem_union.mp (below here) with before | isGiven
      · exact .inl before
      · exact .inr (.inl (mem_singleton.mp (mem_given.mp isGiven)))
    · exact .inr (.inr later)

theorem settle_clear {cleared : List σ} :
    settle key settings (cleared.map Effect.clear) = settings \ cleared.toFinset := by
  induction cleared generalizing settings with
  | nil => simp [settle]
  | cons setting rest ih =>
    have unfolded : settle key settings ((setting :: rest).map Effect.clear) =
      settle key (settings.erase setting) (rest.map Effect.clear) := rfl
    rw [unfolded, ih]
    ext other
    simp only [Finset.mem_sdiff, Finset.mem_erase, mem_toFinset, mem_cons]
    tauto

end Rules

end Nmas.Outline
