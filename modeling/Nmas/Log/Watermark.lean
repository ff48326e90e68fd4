import Mathlib.Data.List.Count
import Mathlib.Data.List.MinMax
import Mathlib.Order.Lattice

/-!
Contract: a consumer whose mark is the newest time it has seen.

Each reading shows some items. Those newer than the mark are handed on, each as
what its reading makes of it, and the mark moves to the newest of them: before
anything is handed on, and whatever becomes of it.

The result owned here is the exact account of one thing handed on: it is handed
on in the reading that first shows its item, if the item is then newer than all
that earlier readings showed, and never again.
-/

namespace Nmas.Log.Watermark

open List

variable {ι τ T : Type} [LinearOrder T]

/-- One reading: what it shows, and what becomes of an item that is handed on. -/
structure Reading (ι τ : Type) where
  items : List ι
  hand : ι → List τ

def newer (time : ι → T) (mark : Option T) (item : ι) : Bool := mark.all (· < time item)

def fresh (time : ι → T) (mark : Option T) (items : List ι) : List ι :=
  items.filter (newer time mark)

def advance (time : ι → T) (mark : Option T) (items : List ι) : Option T :=
  ((fresh time mark items).map time).max?.or mark

def handed (time : ι → T) (mark : Option T) : List (Reading ι τ) → List τ
  | [] => []
  | reading :: rest =>
    (fresh time mark reading.items).flatMap reading.hand ++
      handed time (advance time mark reading.items) rest

def After (time : ι → T) (earlier : List (Reading ι τ)) (item : ι) : Prop :=
  ∀ reading ∈ earlier, ∀ other ∈ reading.items, time other < time item

instance (time : ι → T) (earlier : List (Reading ι τ)) (item : ι) :
    Decidable (After time earlier item) :=
  inferInstanceAs (Decidable (∀ reading ∈ earlier, ∀ other ∈ reading.items, time other < time item))

section Mark

variable {time : ι → T} {mark : Option T} {items : List ι} {item : ι}

theorem mem_fresh : item ∈ fresh time mark items ↔ item ∈ items ∧ newer time mark item := by
  unfold fresh
  rw [mem_filter]

/-- An item is newer than the mark a reading leaves exactly when it is newer than the
mark before and than everything the reading shows. -/
theorem newer_advance :
    newer time (advance time mark items) item ↔
      newer time mark item ∧ ∀ other ∈ items, time other < time item := by
  unfold advance
  cases isMax : ((fresh time mark items).map time).max? with
  | none =>
    have noneFresh := map_eq_nil_iff.mp (List.max?_eq_none_iff.mp isMax)
    rw [Option.none_or]
    refine ⟨fun isNewer => ⟨isNewer, fun other member => ?_⟩, And.left⟩
    have isOld : newer time mark other ≠ true := fun isNew =>
      ne_nil_of_mem (mem_fresh.mpr ⟨member, isNew⟩) noneFresh
    cases mark with
    | none => exact absurd rfl isOld
    | some bound =>
      have notAfter : ¬ bound < time other := by simpa [newer] using isOld
      have isAfter : bound < time item := by simpa [newer] using isNewer
      exact lt_of_le_of_lt (not_lt.mp notAfter) isAfter
  | some top =>
    obtain ⟨isTime, upper⟩ := List.max?_eq_some_iff.mp isMax
    obtain ⟨newest, isFresh, rfl⟩ := mem_map.mp isTime
    obtain ⟨isShown, isNew⟩ := mem_fresh.mp isFresh
    have asTop : newer time (some (time newest)) item ↔ time newest < time item := by
      simp [newer]
    rw [Option.some_or, asTop]
    constructor
    · intro above
      cases mark with
      | none =>
        refine ⟨rfl, fun other member => ?_⟩
        have below := upper _ (mem_map_of_mem (mem_fresh.mpr ⟨member, rfl⟩))
        exact lt_of_le_of_lt below above
      | some bound =>
        have isAfter : bound < time newest := by simpa [newer] using isNew
        refine ⟨by simpa [newer] using isAfter.trans above, fun other member => ?_⟩
        rcases le_or_gt (time other) bound with isOld | isNewer
        · exact lt_of_le_of_lt isOld (isAfter.trans above)
        · have below := upper _ (mem_map_of_mem
            (mem_fresh.mpr ⟨member, by simpa [newer] using isNewer⟩))
          exact lt_of_le_of_lt below above
    · exact fun both => both.2 newest isShown

theorem fresh_map {κ : Type} (name : κ → ι) (items : List κ) :
    fresh time mark (items.map name) = (fresh (time ∘ name) mark items).map name := by
  unfold fresh
  rw [filter_map]
  rfl

theorem advance_map {κ : Type} (name : κ → ι) (items : List κ) :
    advance time mark (items.map name) = advance (time ∘ name) mark items := by
  unfold advance
  rw [fresh_map, map_map]

end Mark

section Handed

variable [DecidableEq τ] {time : ι → T} {mark : Option T} {readings : List (Reading ι τ)}
  {item : ι} {thing : τ}

def Of (readings : List (Reading ι τ)) (item : ι) (thing : τ) : Prop :=
  ∀ reading ∈ readings, ∀ other, thing ∈ reading.hand other → other = item

theorem count_fresh {reading : Reading ι τ} [DecidableEq ι]
    (isOf : ∀ other, thing ∈ reading.hand other → other = item) :
    ((fresh time mark reading.items).flatMap reading.hand).count thing =
      if newer time mark item then reading.items.count item * (reading.hand item).count thing
      else 0 := by
  unfold fresh
  induction reading.items with
  | nil => simp
  | cons first rest ih =>
    by_cases isItem : first = item
    · subst isItem
      by_cases isNewer : newer time mark first = true
      · rw [if_pos isNewer] at ih ⊢
        rw [filter_cons_of_pos isNewer, flatMap_cons, count_append,
          ih, count_cons_self, Nat.add_mul, Nat.one_mul, Nat.add_comm]
      · rw [if_neg isNewer] at ih ⊢
        rw [filter_cons_of_neg isNewer, ih]
    · have notOf : (reading.hand first).count thing = 0 :=
        count_eq_zero.mpr fun isThing => isItem (isOf first isThing)
      rw [count_cons_of_ne isItem, ← ih]
      by_cases isNewer : newer time mark first = true
      · rw [filter_cons_of_pos isNewer, flatMap_cons, count_append, notOf,
          Nat.zero_add]
      · rw [filter_cons_of_neg isNewer]

theorem count_handed_old (isOf : Of readings item thing) (old : newer time mark item = false) :
    (handed time mark readings).count thing = 0 := by
  classical
  induction readings generalizing mark with
  | nil => rfl
  | cons reading rest ih =>
    have stays : newer time (advance time mark reading.items) item = false := by
      by_contra isNewer
      have before := (newer_advance.mp (Bool.not_eq_false _ ▸ isNewer)).1
      rw [old] at before
      cases before
    unfold handed
    rw [count_append, count_fresh (isOf reading mem_cons_self), old,
      ih (fun other member => isOf other (.tail _ member)) stays]
    rfl

/-- **The account of one thing.** It is handed on in the reading that first shows its
item, where that is newer than the mark, and never again. -/
theorem count_handed [DecidableEq ι] {before after : List (Reading ι τ)} {reading : Reading ι τ}
    (isOf : Of (before ++ reading :: after) item thing)
    (isFirst : ∀ earlier ∈ before, item ∉ earlier.items) (shown : item ∈ reading.items) :
    (handed time mark (before ++ reading :: after)).count thing =
      if newer time mark item = true ∧ After time before item then
        reading.items.count item * (reading.hand item).count thing
      else 0 := by
  induction before generalizing mark with
  | nil =>
    have later : (handed time (advance time mark reading.items) after).count thing = 0 := by
      refine count_handed_old (fun other member => isOf other (.tail _ member)) ?_
      by_contra isNewer
      have above := (newer_advance.mp (Bool.not_eq_false _ ▸ isNewer)).2 item shown
      exact lt_irrefl _ above
    rw [nil_append, handed, count_append,
      count_fresh (isOf reading (.head _)), later, Nat.add_zero]
    simp [After]
  | cons earlier rest ih =>
    have notShown := isFirst earlier (.head _)
    have none_ : ((fresh time mark earlier.items).flatMap earlier.hand).count thing = 0 := by
      rw [count_fresh (isOf earlier mem_cons_self), count_eq_zero.mpr notShown,
        Nat.zero_mul, ite_self]
    rw [cons_append, handed, count_append, none_, Nat.zero_add,
      ih (fun other member => isOf other (.tail _ member))
        (fun other member => isFirst other (.tail _ member))]
    simp only [After, newer_advance, forall_mem_cons, and_assoc]

theorem count_handed_absent [DecidableEq ι] (isOf : Of readings item thing)
    (absent : ∀ reading ∈ readings, item ∉ reading.items) :
    (handed time mark readings).count thing = 0 := by
  induction readings generalizing mark with
  | nil => rfl
  | cons reading rest ih =>
    unfold handed
    rw [count_append, count_fresh (isOf reading mem_cons_self),
      count_eq_zero.mpr (absent reading (.head _)), Nat.zero_mul, ite_self,
      ih (fun other member => isOf other (.tail _ member))
        (fun other member => absent other (.tail _ member))]

end Handed

end Nmas.Log.Watermark
