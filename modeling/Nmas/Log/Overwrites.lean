import Mathlib.Data.List.TakeWhile
import Mathlib.Logic.Function.Basic
import Nmas.Log.Keyed

/-!
Contract: named cells that are overwritten, and put back from what was remembered.

Owns: a list of writes applied in order, the last value each name was given,
what a dictionary remembers of a cell when it is read before each write of it,
the writes that put the cells back, stopped at one of them or not; and exactly
when the cells end as they began.
-/

namespace Nmas.Log.Overwrites

open Function List

variable {Name Value : Type} [DecidableEq Name]

def overwrite (cells : Name → Value) (writes : List (Name × Value)) : Name → Value :=
  writes.foldl (fun cells write => update cells write.1 write.2) cells

def given (writes : List (Name × Value)) (name : Name) : List Value :=
  (writes.filter (fun write => write.1 = name)).map Prod.snd

def rememberFrom (entries : List (Name × Value)) (cells : Name → Value) :
    List (Name × Value) → List (Name × Value)
  | [] => entries
  | write :: rest =>
    rememberFrom (put Prod.fst (write.1, cells write.1) entries) (update cells write.1 write.2) rest

def remember (cells : Name → Value) (writes : List (Name × Value)) : List (Name × Value) :=
  rememberFrom [] cells writes

/-- The writes that put the entries back; the one of `stop`'s name leaves its value and is the
last. -/
def putBack (entries : List (Name × Value)) : Option (Name × Value) → List (Name × Value)
  | none => entries
  | some stop =>
    if stop.1 ∈ entries.map Prod.fst then
      entries.takeWhile (fun entry => entry.1 ≠ stop.1) ++ [stop]
    else entries

/-- The names reached before `stop`. -/
def reached (names : List Name) : Option (Name × Value) → List Name
  | none => names
  | some stop => names.takeWhile (fun name => name ≠ stop.1)

/-- Each cell is given last what it held. -/
def Repeats (cells : Name → Value) (writes : List (Name × Value)) : Prop :=
  ∀ name value, (given writes name).getLast? = some value → cells name = value

def Agree (writes : List (Name × Value)) : Prop :=
  ∀ one ∈ writes, ∀ another ∈ writes, one.1 = another.1 → one.2 = another.2

variable {cells : Name → Value} {writes more entries : List (Name × Value)} {name other : Name}
  {value : Value} {names : List Name}

/-! ### Writes -/

theorem overwrite_cons {write : Name × Value} :
    overwrite cells (write :: writes) = overwrite (update cells write.1 write.2) writes := rfl

theorem given_cons_self : given ((name, value) :: writes) name = value :: given writes name := by
  unfold given
  rw [filter_cons_of_pos (by simp)]
  rfl

theorem given_cons_of_ne (isOther : other ≠ name) :
    given ((other, value) :: writes) name = given writes name := by
  unfold given
  rw [filter_cons_of_neg (by simpa using isOther)]

theorem mem_given : value ∈ given writes name ↔ (name, value) ∈ writes := by
  unfold given
  constructor
  · intro member
    obtain ⟨⟨one, same⟩, isWrite, rfl⟩ := mem_map.mp member
    obtain ⟨isIn, isName⟩ := mem_filter.mp isWrite
    rw [← of_decide_eq_true isName]
    exact isIn
  · intro member
    exact mem_map.mpr ⟨_, mem_filter.mpr ⟨member, decide_eq_true rfl⟩, rfl⟩

theorem given_eq_nil : given writes name = [] ↔ name ∉ writes.map Prod.fst := by
  constructor
  · intro none isIn
    obtain ⟨⟨one, value⟩, member, rfl⟩ := mem_map.mp isIn
    have isGiven := mem_given.mpr member
    rw [none] at isGiven
    cases isGiven
  · intro absent
    apply eq_nil_iff_forall_not_mem.mpr
    intro value member
    exact absent (mem_map.mpr ⟨_, mem_given.mp member, rfl⟩)

theorem overwrite_apply (cells : Name → Value) (writes : List (Name × Value)) (name : Name) :
    overwrite cells writes name = (given writes name).getLastD (cells name) := by
  induction writes generalizing cells with
  | nil => rfl
  | cons write rest ih =>
    obtain ⟨other, value⟩ := write
    rw [overwrite_cons, ih]
    by_cases isName : other = name
    · subst isName
      rw [update_self, given_cons_self, getLastD_cons]
    · rw [update_of_ne (Ne.symm isName), given_cons_of_ne isName]

theorem overwrite_of_notMem (absent : name ∉ writes.map Prod.fst) :
    overwrite cells writes name = cells name := by
  rw [overwrite_apply, given_eq_nil.mpr absent]
  rfl

theorem getLastD_eq_iff {values : List Value} :
    values.getLastD value = value ↔ ∀ last, values.getLast? = some last → value = last := by
  rw [getLastD_eq_getLast?]
  cases values.getLast? with
  | none => simp
  | some last =>
    constructor
    · rintro same other ⟨⟩
      exact same.symm
    · intro gives
      exact (gives last rfl).symm

theorem overwrite_eq_self_iff : overwrite cells writes = cells ↔ Repeats cells writes := by
  rw [funext_iff]
  apply forall_congr'
  intro name
  rw [overwrite_apply]
  exact getLastD_eq_iff

theorem overwrite_gives_iff :
    (∀ write ∈ writes, overwrite cells writes write.1 = write.2) ↔ Agree writes := by
  constructor
  · intro gives one isOne another isAnother sameName
    rw [← gives one isOne, ← gives another isAnother, sameName]
  · intro agree write member
    obtain ⟨name, value⟩ := write
    rw [overwrite_apply, getLastD_eq_getLast?]
    rcases isLast : (given writes name).getLast? with - | last
    · rw [List.getLast?_eq_none_iff] at isLast
      have isGiven := mem_given.mpr member
      rw [isLast] at isGiven
      cases isGiven
    · exact agree (name, last) (mem_given.mp (mem_of_getLast? isLast)) (name, value) member rfl

/-! ### What is remembered -/

def valueOf (entries : List (Name × Value)) (name : Name) : Option Value :=
  (entries.find? (fun entry => entry.1 = name)).map Prod.snd

theorem valueOf_cons_self : valueOf ((name, value) :: entries) name = some value := by
  unfold valueOf
  rw [List.find?_cons_of_pos (by simp)]
  rfl

theorem valueOf_cons_of_ne (isOther : other ≠ name) :
    valueOf ((other, value) :: entries) name = valueOf entries name := by
  unfold valueOf
  rw [List.find?_cons_of_neg (by simpa using isOther)]

theorem valueOf_eq_none : valueOf entries name = none ↔ name ∉ entries.map Prod.fst := by
  unfold valueOf
  rw [Option.map_eq_none_iff, List.find?_eq_none]
  constructor
  · intro none isIn
    obtain ⟨entry, member, isName⟩ := mem_map.mp isIn
    exact none entry member (decide_eq_true isName)
  · intro absent entry member isName
    exact absent (mem_map.mpr ⟨entry, member, of_decide_eq_true isName⟩)

theorem overwrite_of_distinct (distinct : (entries.map Prod.fst).Nodup) :
    overwrite cells entries name = (valueOf entries name).getD (cells name) := by
  induction entries generalizing cells with
  | nil => rfl
  | cons entry rest ih =>
    obtain ⟨one, value⟩ := entry
    obtain ⟨notLater, restDistinct⟩ := nodup_cons.mp distinct
    rw [overwrite_cons]
    by_cases isName : one = name
    · subst isName
      rw [overwrite_of_notMem notLater, valueOf_cons_self]
      exact update_self one value cells
    · rw [ih restDistinct, valueOf_cons_of_ne isName]
      exact congrArg _ (update_of_ne (Ne.symm isName) value cells)

theorem valueOf_append :
    valueOf (entries ++ more) name = (valueOf entries name).or (valueOf more name) := by
  unfold valueOf
  rw [List.find?_append, Option.map_or]

theorem valueOf_amend (name : Name) (value : Value) (entries : List (Name × Value)) (other : Name) :
    valueOf (amend Prod.fst name (fun _ => (name, value)) entries) other =
      if other = name then (valueOf entries name).map (fun _ => value)
      else valueOf entries other := by
  induction entries with
  | nil => exact (ite_self none).symm
  | cons entry rest ih =>
    obtain ⟨one, old⟩ := entry
    by_cases isName : one = name
    · have changed : amend Prod.fst name (fun _ => (name, value)) ((one, old) :: rest) =
          (name, value) :: amend Prod.fst name (fun _ => (name, value)) rest :=
        congrArg (· :: _) (if_pos isName)
      rw [changed, isName]
      by_cases isOther : other = name
      · rw [isOther, if_pos rfl, valueOf_cons_self, valueOf_cons_self]
        rfl
      · rw [valueOf_cons_of_ne (Ne.symm isOther), ih, if_neg isOther,
          if_neg isOther, valueOf_cons_of_ne (Ne.symm isOther)]
    · have unchanged : amend Prod.fst name (fun _ => (name, value)) ((one, old) :: rest) =
          (one, old) :: amend Prod.fst name (fun _ => (name, value)) rest :=
        congrArg (· :: _) (if_neg isName)
      rw [unchanged, valueOf_cons_of_ne isName]
      by_cases isOther : one = other
      · rw [isOther, valueOf_cons_self, valueOf_cons_self, if_neg (isOther ▸ isName)]
      · rw [valueOf_cons_of_ne isOther, ih, valueOf_cons_of_ne isOther]

theorem valueOf_put (value : Value) :
    valueOf (put Prod.fst (name, value) entries) other =
      if other = name then some value else valueOf entries other := by
  unfold put
  split
  · rename_i held
    rw [valueOf_amend]
    split
    · rcases isHeld : valueOf entries name with - | old
      · obtain ⟨entry, member, isName⟩ := any_eq_true.mp held
        exact absurd (mem_map.mpr ⟨entry, member, of_decide_eq_true isName⟩)
          (valueOf_eq_none.mp isHeld)
      · rfl
    · rfl
  · rename_i new
    have absent : valueOf entries name = none := by
      rw [valueOf_eq_none]
      intro isIn
      obtain ⟨entry, member, isName⟩ := mem_map.mp isIn
      exact new (any_eq_true.mpr ⟨entry, member, decide_eq_true isName⟩)
    rw [valueOf_append]
    by_cases isOther : other = name
    · rw [isOther, absent, if_pos rfl, valueOf_cons_self]
      rfl
    · rw [valueOf_cons_of_ne (Ne.symm isOther), if_neg isOther]
      exact Option.or_none

theorem rememberFrom_distinct (distinct : (entries.map Prod.fst).Nodup) :
    ((rememberFrom entries cells writes).map Prod.fst).Nodup := by
  induction writes generalizing entries cells with
  | nil => exact distinct
  | cons write rest ih => exact ih (put_distinct distinct)

theorem valueOf_rememberFrom :
    valueOf (rememberFrom entries cells writes) name =
      if given writes name = [] then valueOf entries name
      else some ((given writes name).dropLast.getLastD (cells name)) := by
  induction writes generalizing entries cells with
  | nil => rfl
  | cons write rest ih =>
    obtain ⟨other, value⟩ := write
    refine ih.trans ?_
    by_cases isName : other = name
    · subst isName
      rw [given_cons_self, valueOf_put, if_pos rfl, update_self, if_neg (cons_ne_nil _ _)]
      split
      · rename_i isLast
        rw [isLast]
        rfl
      · rename_i isMore
        rw [dropLast_cons_of_ne_nil isMore, getLastD_cons]
    · rw [given_cons_of_ne isName, valueOf_put, if_neg (Ne.symm isName),
        update_of_ne (Ne.symm isName)]

theorem mem_names_rememberFrom :
    name ∈ (rememberFrom entries cells writes).map Prod.fst ↔
      name ∈ entries.map Prod.fst ++ writes.map Prod.fst := by
  induction writes generalizing entries cells with
  | nil =>
    rw [map_nil, append_nil]
    rfl
  | cons write rest ih =>
    refine ih.trans ?_
    rw [mem_append, mem_map_put, mem_append, map_cons, mem_cons]
    tauto

/-! ### What is reached before the stop -/

theorem takeWhile_append_of_mem {stop : Name} {left right : List Name} (isIn : stop ∈ left) :
    (left ++ right).takeWhile (fun name => name ≠ stop) =
      left.takeWhile (fun name => name ≠ stop) := by
  induction left with
  | nil => cases isIn
  | cons first rest ih =>
    rw [cons_append]
    by_cases isStop : first = stop
    · rw [takeWhile_cons_of_neg (by simpa using isStop),
        takeWhile_cons_of_neg (by simpa using isStop)]
    · rw [takeWhile_cons_of_pos (by simpa using isStop),
        takeWhile_cons_of_pos (by simpa using isStop),
        ih ((mem_cons.mp isIn).resolve_left (Ne.symm isStop))]

theorem takeWhile_append_of_notMem {stop : Name} {left right : List Name} (absent : stop ∉ left) :
    (left ++ right).takeWhile (fun name => name ≠ stop) =
      left ++ right.takeWhile (fun name => name ≠ stop) := by
  apply takeWhile_append_of_pos
  intro name member
  exact decide_eq_true (fun isStop => absent (isStop ▸ member))

theorem ne_of_mem_takeWhile {stop : Name}
    (member : name ∈ names.takeWhile (fun name => name ≠ stop)) : name ≠ stop :=
  by simpa using mem_takeWhile_imp member

theorem mem_of_mem_reached {stop : Option (Name × Value)} (member : name ∈ reached names stop) :
    name ∈ names := by
  cases stop with
  | none => exact member
  | some stop => exact (List.takeWhile_prefix _).subset member

theorem mem_takeWhile_put {stop : Name} {rest : List Name} :
    name ∈ ((put Prod.fst (other, value) entries).map Prod.fst ++ rest).takeWhile
        (fun name => name ≠ stop) ↔
      name ∈ (entries.map Prod.fst ++ other :: rest).takeWhile (fun name => name ≠ stop) := by
  by_cases held : other ∈ entries.map Prod.fst
  · have sameNames : (put Prod.fst (other, value) entries).map Prod.fst = entries.map Prod.fst := by
      obtain ⟨entry, member, isName⟩ := mem_map.mp held
      rw [put, if_pos (any_eq_true.mpr ⟨entry, member, decide_eq_true isName⟩),
        map_key_amend (fun row isKey => rfl)]
    rw [sameNames]
    by_cases isIn : stop ∈ entries.map Prod.fst
    · rw [takeWhile_append_of_mem isIn, takeWhile_append_of_mem isIn]
    · have isOther : other ≠ stop := fun isStop => isIn (isStop ▸ held)
      rw [takeWhile_append_of_notMem isIn, takeWhile_append_of_notMem isIn,
        takeWhile_cons_of_pos (by simpa using isOther), mem_append, mem_append,
        mem_cons]
      constructor
      · rintro (isEntry | isLater)
        · exact .inl isEntry
        · exact .inr (.inr isLater)
      · rintro (isEntry | rfl | isLater)
        · exact .inl isEntry
        · exact .inl held
        · exact .inr isLater
  · have moreNames : (put Prod.fst (other, value) entries).map Prod.fst =
        entries.map Prod.fst ++ [other] := by
      rw [put_of_new, map_append]
      · rfl
      · intro row member isName
        exact held (mem_map.mpr ⟨row, member, isName⟩)
    rw [moreNames, append_assoc]
    rfl

theorem mem_reached_rememberFrom {stop : Name} :
    name ∈ ((rememberFrom entries cells writes).map Prod.fst).takeWhile (fun name => name ≠ stop) ↔
      name ∈ (entries.map Prod.fst ++ writes.map Prod.fst).takeWhile (fun name => name ≠ stop) := by
  induction writes generalizing entries cells with
  | nil =>
    rw [map_nil, append_nil]
    rfl
  | cons write rest ih => exact ih.trans mem_takeWhile_put

/-! ### What is put back -/

theorem valueOf_takeWhile {stop : Name}
    (isReached : name ∈ (entries.map Prod.fst).takeWhile (fun name => name ≠ stop)) :
    valueOf (entries.takeWhile (fun entry => entry.1 ≠ stop)) name = valueOf entries name := by
  induction entries with
  | nil => cases isReached
  | cons entry rest ih =>
    obtain ⟨one, value⟩ := entry
    rw [map_cons] at isReached
    by_cases isStop : one = stop
    · rw [takeWhile_cons_of_neg (by simpa using isStop)] at isReached
      cases isReached
    · rw [takeWhile_cons_of_pos (by simpa using isStop)] at isReached ⊢
      by_cases isName : one = name
      · rw [isName, valueOf_cons_self, valueOf_cons_self]
      · rw [valueOf_cons_of_ne isName, valueOf_cons_of_ne isName]
        exact ih ((mem_cons.mp isReached).resolve_left (Ne.symm isName))

theorem names_takeWhile (stop : Name) :
    (entries.takeWhile (fun entry => entry.1 ≠ stop)).map Prod.fst =
      (entries.map Prod.fst).takeWhile (fun name => name ≠ stop) := by
  rw [takeWhile_map]
  rfl

theorem mem_names_putBack {stop : Option (Name × Value)}
    (member : name ∈ (putBack entries stop).map Prod.fst) : name ∈ entries.map Prod.fst := by
  cases stop with
  | none => exact member
  | some stop =>
    rw [putBack] at member
    split at member
    · rename_i isEntry
      rw [map_append, names_takeWhile, mem_append] at member
      rcases member with isBefore | isStop
      · exact (List.takeWhile_prefix _).subset isBefore
      · rw [mem_singleton.mp isStop]
        exact isEntry
    · exact member

theorem putBack_distinct (distinct : (entries.map Prod.fst).Nodup)
    (stop : Option (Name × Value)) : ((putBack entries stop).map Prod.fst).Nodup := by
  cases stop with
  | none => exact distinct
  | some stop =>
    unfold putBack
    simp only []
    split
    · rw [map_append, names_takeWhile, map_singleton, nodup_append]
      refine ⟨distinct.sublist (List.takeWhile_prefix _).sublist,
        nodup_cons.mpr ⟨not_mem_nil, nodup_nil⟩, ?_⟩
      intro name isBefore other isStop
      rw [mem_singleton.mp isStop]
      exact ne_of_mem_takeWhile isBefore
    · exact distinct

theorem remember_distinct : ((remember cells writes).map Prod.fst).Nodup :=
  rememberFrom_distinct nodup_nil

theorem mem_names_remember :
    name ∈ (remember cells writes).map Prod.fst ↔ name ∈ writes.map Prod.fst :=
  mem_names_rememberFrom

theorem mem_reached_remember {stop : Option (Name × Value)} :
    name ∈ reached ((remember cells writes).map Prod.fst) stop ↔
      name ∈ reached (writes.map Prod.fst) stop := by
  cases stop with
  | none => exact mem_names_remember
  | some stop => exact mem_reached_rememberFrom

theorem reached_of_notMem {stop : Name} (absent : stop ∉ names) :
    reached names (some (stop, value)) = names := by
  apply takeWhile_eq_self_iff.mpr
  intro name member
  apply decide_eq_true
  intro isStop
  rw [isStop] at member
  exact absent member

theorem valueOf_remember (isWritten : name ∈ writes.map Prod.fst) :
    valueOf (remember cells writes) name =
      some ((given writes name).dropLast.getLastD (cells name)) := by
  refine valueOf_rememberFrom.trans (if_neg ?_)
  intro none
  exact given_eq_nil.mp none isWritten

theorem putBack_reached {stop : Option (Name × Value)}
    (isReached : name ∈ reached (writes.map Prod.fst) stop) :
    overwrite (overwrite cells writes) (putBack (remember cells writes) stop) name =
      (given writes name).dropLast.getLastD (cells name) := by
  have isValue : valueOf (remember cells writes) name =
      some ((given writes name).dropLast.getLastD (cells name)) :=
    valueOf_remember (mem_of_mem_reached isReached)
  rw [overwrite_of_distinct (putBack_distinct remember_distinct stop)]
  rcases stop with - | ⟨stop, left⟩
  · rw [putBack, isValue]
    rfl
  · rw [putBack]
    simp only []
    split
    · rw [valueOf_append, valueOf_takeWhile (mem_reached_remember.mpr isReached), isValue]
      rfl
    · rw [isValue]
      rfl

theorem putBack_stopped (isWritten : name ∈ writes.map Prod.fst) :
    overwrite (overwrite cells writes) (putBack (remember cells writes) (some (name, value))) name =
      value := by
  have notBefore : valueOf ((remember cells writes).takeWhile (fun entry => entry.1 ≠ name)) name =
      none := by
    rw [valueOf_eq_none, names_takeWhile]
    intro isBefore
    exact ne_of_mem_takeWhile isBefore rfl
  rw [overwrite_of_distinct (putBack_distinct remember_distinct _), putBack,
    if_pos (mem_names_remember.mpr isWritten), valueOf_append, notBefore, valueOf_cons_self]
  rfl

theorem putBack_beyond {stop : Name} (notReached : name ∉ reached (writes.map Prod.fst)
      (some (stop, value))) (isOther : name ≠ stop) :
    overwrite (overwrite cells writes) (putBack (remember cells writes) (some (stop, value))) name =
      overwrite cells writes name := by
  have absent : valueOf (putBack (remember cells writes) (some (stop, value))) name = none := by
    rw [valueOf_eq_none, putBack]
    simp only []
    split
    · rw [map_append, names_takeWhile, mem_append]
      rintro (isBefore | isStop)
      · exact notReached (mem_reached_rememberFrom.mp isBefore)
      · exact isOther (mem_singleton.mp isStop)
    · rename_i notWritten
      intro isEntry
      apply notReached
      rw [← mem_reached_remember, reached_of_notMem notWritten]
      exact isEntry
  rw [overwrite_of_distinct (putBack_distinct remember_distinct _), absent]
  rfl

structure PutsBack (cells : Name → Value) (writes : List (Name × Value))
    (stop : Option (Name × Value)) : Prop where
  restored : ∀ name ∈ reached (writes.map Prod.fst) stop, ∀ value,
    (given writes name).dropLast.getLast? = some value → cells name = value
  stopped : ∀ entry ∈ stop, entry.1 ∈ writes.map Prod.fst → cells entry.1 = entry.2
  beyond : ∀ entry ∈ stop, ∀ name ∉ reached (writes.map Prod.fst) stop, name ≠ entry.1 →
    ∀ value, (given writes name).getLast? = some value → cells name = value

theorem putBack_eq_self_iff {stop : Option (Name × Value)} :
    overwrite (overwrite cells writes) (putBack (remember cells writes) stop) = cells ↔
      PutsBack cells writes stop := by
  constructor
  · intro same
    refine ⟨?_, ?_, ?_⟩
    · intro name isReached
      have atName := congrFun same name
      rw [putBack_reached isReached] at atName
      exact getLastD_eq_iff.mp atName
    · rintro ⟨name, value⟩ ⟨⟩ isWritten
      have atName := congrFun same name
      rw [putBack_stopped isWritten] at atName
      exact atName.symm
    · rintro ⟨other, value⟩ ⟨⟩ name notReached isOther
      have atName := congrFun same name
      rw [putBack_beyond notReached isOther, overwrite_apply] at atName
      exact getLastD_eq_iff.mp atName
  · intro puts
    funext name
    by_cases isReached : name ∈ reached (writes.map Prod.fst) stop
    · rw [putBack_reached isReached]
      exact getLastD_eq_iff.mpr (puts.restored name isReached)
    · by_cases isWritten : name ∈ writes.map Prod.fst
      · rcases stop with - | ⟨other, value⟩
        · exact absurd isWritten isReached
        · by_cases isOther : name = other
          · subst isOther
            rw [putBack_stopped isWritten]
            exact (puts.stopped _ rfl isWritten).symm
          · rw [putBack_beyond isReached isOther, overwrite_apply]
            exact getLastD_eq_iff.mpr (puts.beyond _ rfl name isReached isOther)
      · rw [overwrite_of_notMem (fun isEntry =>
            isWritten (mem_names_remember.mp (mem_names_putBack isEntry))),
          overwrite_of_notMem isWritten]

end Nmas.Log.Overwrites
