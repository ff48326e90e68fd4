import Mathlib.Data.List.Basic
import Mathlib.Data.List.Nodup

/-!
Contract: entries kept under a key, in the order their keys first came.

Owns: `put` and `amend`, the two writes an interpreter's `dict` takes: an entry
set under a key keeps the place of the entry it replaces.
-/

namespace Nmas.Log

open List

variable {Entry Key : Type} [DecidableEq Key]

/-- The entry of `rows` under this key, changed in its place. -/
def amend (keyOf : Entry → Key) (key : Key) (change : Entry → Entry) (rows : List Entry) :
    List Entry :=
  rows.map (fun row => if keyOf row = key then change row else row)

/-- An entry set under its key: in the place of one already there, else last. -/
def put (keyOf : Entry → Key) (entry : Entry) (rows : List Entry) : List Entry :=
  if rows.any (fun row => keyOf row = keyOf entry) then
    amend keyOf (keyOf entry) (fun _ => entry) rows
  else rows ++ [entry]

variable {keyOf : Entry → Key} {key : Key} {change : Entry → Entry} {rows : List Entry}
  {entry row : Entry}

theorem amend_map {Value : Type} {value : Entry → Value}
    (keeps : ∀ row, value (change row) = value row) (rows : List Entry) :
    (amend keyOf key change rows).map value = rows.map value := by
  unfold amend
  rw [map_map]
  apply map_congr_left
  intro row _
  show value (if keyOf row = key then change row else row) = value row
  split
  · exact keeps row
  · rfl

theorem amend_self (keyOf : Entry → Key) (key : Key) (rows : List Entry) :
    amend keyOf key (fun row => row) rows = rows := by
  simp [amend]

theorem mem_amend (member : row ∈ amend keyOf key change rows) :
    ∃ old ∈ rows, row = old ∨ row = change old := by
  obtain ⟨old, oldMember, isRow⟩ := List.mem_map.mp member
  refine ⟨old, oldMember, ?_⟩
  split at isRow
  · exact .inr isRow.symm
  · exact .inl isRow.symm

theorem find_amend (keeps : ∀ row, keyOf (change row) = keyOf row) (rows : List Entry)
    (key other : Key) :
    (amend keyOf key change rows).find? (fun row => keyOf row = other) =
      if other = key then (rows.find? (fun row => keyOf row = other)).map change
      else rows.find? (fun row => keyOf row = other) := by
  unfold amend
  rw [List.find?_map]
  have sameKey : ((fun row => decide (keyOf row = other)) ∘
      fun row => if keyOf row = key then change row else row) =
        fun row => decide (keyOf row = other) := by
    funext row
    show decide (keyOf (if keyOf row = key then change row else row) = other) = _
    split
    · rw [keeps]
    · rfl
  rw [sameKey]
  split
  · rename_i isKey
    apply Option.map_congr
    intro row isFound
    have isOther : keyOf row = other := by simpa using List.find?_some isFound
    rw [if_pos (isOther.trans isKey)]
  · rename_i isOther
    rw [Option.map_congr (g := id), Option.map_id, id]
    intro row isFound
    have isKey : keyOf row = other := by simpa using List.find?_some isFound
    rw [if_neg (by rw [isKey]; exact isOther)]
    rfl

theorem mem_put (member : row ∈ put keyOf entry rows) : row ∈ rows ∨ row = entry := by
  unfold put at member
  split at member
  · obtain ⟨old, oldMember, isRow | isRow⟩ := mem_amend member
    · exact .inl (isRow ▸ oldMember)
    · exact .inr isRow
  · rcases mem_append.mp member with old | new
    · exact .inl old
    · exact .inr (mem_singleton.mp new)

theorem mem_put_iff : row ∈ put keyOf entry rows ↔
    row = entry ∨ (row ∈ rows ∧ keyOf row ≠ keyOf entry) := by
  unfold put
  split
  · rename_i held
    obtain ⟨old, oldMember, isKey⟩ := any_eq_true.mp held
    unfold amend
    rw [List.mem_map]
    constructor
    · rintro ⟨other, member, isRow⟩
      split at isRow
      · exact .inl isRow.symm
      · rename_i differs
        rw [← isRow]
        exact .inr ⟨member, differs⟩
    · rintro (isEntry | ⟨member, differs⟩)
      · refine ⟨old, oldMember, ?_⟩
        rw [if_pos (of_decide_eq_true isKey), isEntry]
      · exact ⟨row, member, if_neg differs⟩
  · rename_i new
    rw [mem_append, mem_singleton, or_comm]
    apply or_congr_right
    constructor
    · intro member
      refine ⟨member, ?_⟩
      intro isKey
      exact new (any_eq_true.mpr ⟨row, member, decide_eq_true isKey⟩)
    · exact And.left

theorem map_put {Other OtherKey : Type} [DecidableEq OtherKey] {otherKeyOf : Other → OtherKey}
    {read : Entry → Other}
    (same : ∀ row ∈ rows, otherKeyOf (read row) = otherKeyOf (read entry) ↔
      keyOf row = keyOf entry) :
    (put keyOf entry rows).map read = put otherKeyOf (read entry) (rows.map read) := by
  have sameAny : (rows.map read).any (fun row => otherKeyOf row = otherKeyOf (read entry)) =
      rows.any (fun row => keyOf row = keyOf entry) := by
    rw [any_map, Bool.eq_iff_iff, any_eq_true, any_eq_true]
    apply exists_congr
    intro row
    apply and_congr_right
    intro member
    show decide _ = true ↔ decide _ = true
    rw [decide_eq_true_iff, decide_eq_true_iff]
    exact same row member
  unfold put
  rw [sameAny]
  split
  · unfold amend
    rw [map_map, map_map]
    apply map_congr_left
    intro row member
    show read (if keyOf row = keyOf entry then entry else row) =
      if otherKeyOf (read row) = otherKeyOf (read entry) then read entry else read row
    by_cases isKey : keyOf row = keyOf entry
    · rw [if_pos isKey, if_pos ((same row member).mpr isKey)]
    · rw [if_neg isKey, if_neg (fun isOther => isKey ((same row member).mp isOther))]
  · rw [map_append, map_singleton]

theorem map_key_amend (keeps : ∀ row, keyOf row = key → keyOf (change row) = key) :
    (amend keyOf key change rows).map keyOf = rows.map keyOf := by
  unfold amend
  rw [map_map]
  apply map_congr_left
  intro row _
  show keyOf (if keyOf row = key then change row else row) = keyOf row
  split
  · rename_i isKey
    rw [keeps row isKey, isKey]
  · rfl

theorem put_distinct (distinct : (rows.map keyOf).Nodup) :
    ((put keyOf entry rows).map keyOf).Nodup := by
  unfold put
  split
  · rw [map_key_amend (fun row isKey => rfl)]
    exact distinct
  · rename_i new
    rw [map_append, map_singleton, nodup_append]
    refine ⟨distinct, nodup_cons.mpr ⟨not_mem_nil, nodup_nil⟩, ?_⟩
    intro key old other isNew same
    obtain ⟨row, member, isRow⟩ := List.mem_map.mp old
    apply new
    rw [any_eq_true]
    rw [mem_singleton.mp isNew] at same
    exact ⟨row, member, decide_eq_true (isRow.trans same)⟩

theorem mem_map_put {other : Key} :
    other ∈ (put keyOf entry rows).map keyOf ↔ other = keyOf entry ∨ other ∈ rows.map keyOf := by
  unfold put
  split
  · rename_i held
    rw [map_key_amend (fun row isKey => rfl)]
    obtain ⟨row, member, isKey⟩ := any_eq_true.mp held
    have inRows : keyOf entry ∈ rows.map keyOf :=
      List.mem_map.mpr ⟨row, member, of_decide_eq_true isKey⟩
    constructor
    · intro old
      exact .inr old
    · intro either
      rcases either with isEntry | old
      · rw [isEntry]
        exact inRows
      · exact old
  · rw [map_append, map_singleton, mem_append, mem_singleton, or_comm]

theorem put_of_new (new : ∀ row ∈ rows, keyOf row ≠ keyOf entry) :
    put keyOf entry rows = rows ++ [entry] := by
  rw [put, if_neg]
  intro held
  obtain ⟨row, member, isKey⟩ := any_eq_true.mp held
  exact new row member (of_decide_eq_true isKey)

theorem find_eq_some_iff (distinct : (rows.map keyOf).Nodup) :
    rows.find? (fun row => keyOf row = key) = some row ↔ row ∈ rows ∧ keyOf row = key := by
  constructor
  · intro isFound
    have isKey := List.find?_some isFound
    exact ⟨mem_of_find?_eq_some isFound, of_decide_eq_true isKey⟩
  · rintro ⟨member, isKey⟩
    cases isFound : rows.find? (fun row => keyOf row = key) with
    | none =>
      rw [List.find?_eq_none] at isFound
      exact absurd (decide_eq_true isKey) (isFound row member)
    | some other =>
      have otherKey := List.find?_some isFound
      have same : other = row := inj_on_of_nodup_map distinct
        (mem_of_find?_eq_some isFound) member
        ((of_decide_eq_true otherKey).trans isKey.symm)
      rw [same]

theorem find_amend_of_ne {other : Key} (keeps : ∀ row, keyOf row = key → keyOf (change row) = key)
    (isOther : key ≠ other) (rows : List Entry) :
    (amend keyOf key change rows).find? (fun row => keyOf row = other) =
      rows.find? (fun row => keyOf row = other) := by
  induction rows with
  | nil => rfl
  | cons first rest ih =>
    unfold amend at ih ⊢
    rw [map_cons, List.find?_cons, List.find?_cons, ih]
    by_cases isKey : keyOf first = key
    · simp [isKey, keeps first isKey, isOther]
    · rw [if_neg isKey]

theorem find_put_of_ne (isOther : keyOf entry ≠ key) :
    (put keyOf entry rows).find? (fun row => keyOf row = key) =
      rows.find? (fun row => keyOf row = key) := by
  unfold put
  split
  · exact find_amend_of_ne (fun _ _ => rfl) isOther rows
  · have notFound : [entry].find? (fun row => keyOf row = key) = none := by simpa using isOther
    rw [List.find?_append, notFound, Option.or_none]

/-! ### Values under their keys -/

section Lookup

variable {Value : Type} {value : Value} {entries : List (Key × Value)} {other : Key}

theorem lookup_cons_if {first : Key} {held : Value} :
    List.lookup other ((first, held) :: entries) =
      if other = first then some held else entries.lookup other := by
  rw [lookup_cons]
  by_cases same : other = first
  · rw [if_pos same, beq_iff_eq.mpr same]
  · rw [if_neg same, beq_eq_false_iff_ne.mpr same]

theorem lookup_eq_some_iff (distinct : (entries.map Prod.fst).Nodup) :
    entries.lookup key = some value ↔ (key, value) ∈ entries := by
  induction entries with
  | nil => simp
  | cons entry rest ih =>
    obtain ⟨first, held⟩ := entry
    rw [map_cons, nodup_cons] at distinct
    rw [lookup_cons_if, mem_cons, Prod.mk.injEq]
    by_cases same : key = first
    · have later : (key, value) ∉ rest := by
        intro member
        exact distinct.1 (same ▸ List.mem_map.mpr ⟨_, member, rfl⟩)
      simp [same, same ▸ later, eq_comm]
    · simp [same, ih distinct.2]

theorem lookup_eq_none_iff : entries.lookup key = none ↔ key ∉ entries.map Prod.fst := by
  rw [List.lookup_eq_none_iff]
  simp only [List.mem_map, not_exists, not_and, bne_iff_ne, ne_eq]
  constructor
  · intro apart entry member isKey
    exact apart entry member isKey.symm
  · intro apart entry member isKey
    exact apart entry member isKey.symm

theorem lookup_put :
    (put Prod.fst (key, value) entries).lookup other =
      if other = key then some value else entries.lookup other := by
  have amended : ∀ entries : List (Key × Value), (amend Prod.fst key (fun _ => (key, value))
      entries).lookup other = if other = key ∧ key ∈ entries.map Prod.fst then some value
        else entries.lookup other := by
    intro entries
    induction entries with
    | nil => simp [amend]
    | cons entry rest ih =>
      obtain ⟨first, held⟩ := entry
      have unfolded : amend Prod.fst key (fun _ => (key, value)) ((first, held) :: rest) =
          (if first = key then (key, value) else (first, held)) ::
            amend Prod.fst key (fun _ => (key, value)) rest := rfl
      rw [unfolded]
      by_cases isFirst : first = key
      · subst isFirst
        rw [if_pos rfl, lookup_cons_if, lookup_cons_if, ih]
        by_cases isOther : other = first
        · simp [isOther]
        · simp [isOther]
      · have apart : key ≠ first := fun same => isFirst same.symm
        rw [if_neg isFirst, lookup_cons_if, lookup_cons_if, ih]
        by_cases isOther : other = first
        · simp [isOther, isFirst]
        · have sameKeys : key ∈ ((first, held) :: rest).map Prod.fst ↔ key ∈ rest.map Prod.fst := by
            rw [map_cons, mem_cons]
            exact or_iff_right apart
          simp only [isOther, if_false, sameKeys]
  unfold put
  split
  · rename_i held
    have isHeld : key ∈ entries.map Prod.fst := by
      obtain ⟨entry, member, isKey⟩ := any_eq_true.mp held
      exact List.mem_map.mpr ⟨entry, member, of_decide_eq_true isKey⟩
    rw [amended]
    simp [isHeld]
  · rename_i new
    have isNew : key ∉ entries.map Prod.fst := by
      intro member
      obtain ⟨entry, inside, isKey⟩ := List.mem_map.mp member
      exact new (any_eq_true.mpr ⟨entry, inside, decide_eq_true isKey⟩)
    rw [lookup_append]
    by_cases isOther : other = key
    · rw [isOther, lookup_eq_none_iff.mpr isNew]
      simp
    · simp [isOther, lookup_cons_if]

end Lookup

end Nmas.Log
