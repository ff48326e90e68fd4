import Mathlib.Data.List.Forall2

/-!
Contract: a list opened at the first entry that passes a test.
-/

namespace Nmas.Log

open List

/-- A list around one of its entries. -/
structure Focus (Entry : Type) where
  before : List Entry
  here : Entry
  after : List Entry

variable {Entry : Type} {test : Entry → Bool} {entries : List Entry} {found : Focus Entry}

/-- The list again, with another entry in the place of the one found. -/
def Focus.put (found : Focus Entry) (entry : Entry) : List Entry :=
  found.before ++ entry :: found.after

def Focus.rest (found : Focus Entry) : List Entry := found.before ++ found.after

/-- The list around the first entry that passes the test. -/
def focus (test : Entry → Bool) : List Entry → Option (Focus Entry)
  | [] => none
  | entry :: rest =>
    if test entry then some ⟨[], entry, rest⟩
    else (focus test rest).map (fun found => { found with before := entry :: found.before })

theorem focus_some (isFound : focus test entries = some found) :
    entries = found.put found.here ∧ test found.here := by
  induction entries generalizing found with
  | nil => cases isFound
  | cons entry rest ih =>
    unfold focus at isFound
    split at isFound
    · rename_i passes
      cases isFound
      exact ⟨rfl, passes⟩
    · obtain ⟨later, isLater, rfl⟩ := Option.map_eq_some_iff.mp isFound
      obtain ⟨isRest, passes⟩ := ih isLater
      refine ⟨?_, passes⟩
      show entry :: rest = entry :: later.put later.here
      rw [← isRest]

theorem focus_none : focus test entries = none ↔ ∀ entry ∈ entries, test entry = false := by
  induction entries with
  | nil =>
    constructor
    · intro _ entry member
      cases member
    · intro _
      rfl
  | cons entry rest ih =>
    unfold focus
    rw [forall_mem_cons, ← ih]
    split
    · rename_i passes
      simp [passes]
    · rename_i fails
      simp [fails]

theorem Focus.put_perm (found : Focus Entry) (entry : Entry) :
    (found.put entry).Perm (entry :: found.rest) := perm_middle

theorem Focus.mem_put {entry other : Entry} :
    other ∈ found.put entry ↔ other = entry ∨ other ∈ found.rest := by
  rw [(found.put_perm entry).mem_iff, mem_cons]

/-! ### Lists related place by place -/

variable {Other : Type} {Relates : Entry → Other → Prop} {others : List Other}

theorem exists_right_of_mem {entry : Entry} (relates : List.Forall₂ Relates entries others)
    (member : entry ∈ entries) : ∃ other ∈ others, Relates entry other := by
  induction relates with
  | nil => cases member
  | @cons first other entries others related _ ih =>
    rcases mem_cons.mp member with isFirst | later
    · exact ⟨other, .head _, isFirst ▸ related⟩
    · obtain ⟨found, isFound, related⟩ := ih later
      exact ⟨found, mem_cons_of_mem other isFound, related⟩

theorem exists_left_of_mem {other : Other} (relates : List.Forall₂ Relates entries others)
    (member : other ∈ others) : ∃ entry ∈ entries, Relates entry other :=
  exists_right_of_mem relates.flip member

end Nmas.Log
