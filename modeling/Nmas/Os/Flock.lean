import Mathlib.Data.List.Basic

/-!
Contract: the kernel's lock of one file, as its open files take and give it up.

Owns: `flock` without waiting (exclusive, shared, unlock), what a process's end
gives up, and what any of them leaves of a lock held by another.

An owner is an open file; two opens of one file are two owners.
-/

namespace Nmas.Os

structure Flock (Owner : Type) where
  exclusive : Option Owner
  shared : List Owner

namespace Flock

variable {Owner : Type}

def free : Flock Owner := ⟨none, []⟩

/-- `LOCK_EX | LOCK_NB`; nothing where it would block. -/
def lockExclusive (lock : Flock Owner) (owner : Owner) : Option (Flock Owner) :=
  if lock.exclusive = none ∧ lock.shared = [] then some ⟨some owner, []⟩ else none

/-- `LOCK_SH | LOCK_NB`; nothing where it would block. -/
def lockShared (lock : Flock Owner) (owner : Owner) : Option (Flock Owner) :=
  if lock.exclusive = none then some { lock with shared := owner :: lock.shared } else none

/-- `LOCK_UN`, or the close of the open file. -/
def unlock [DecidableEq Owner] (lock : Flock Owner) (owner : Owner) : Flock Owner :=
  ⟨lock.exclusive.filter (fun held => held ≠ owner), lock.shared.filter (fun held => held ≠ owner)⟩

def drop (lock : Flock Owner) (gone : Owner → Bool) : Flock Owner :=
  ⟨lock.exclusive.filter (fun held => !gone held), lock.shared.filter (fun held => !gone held)⟩

variable {lock next : Flock Owner} {owner other : Owner} {gone : Owner → Bool}

theorem lockExclusive_some (taken : lock.lockExclusive owner = some next) :
    lock.exclusive = none ∧ next.exclusive = some owner := by
  unfold lockExclusive at taken
  split at taken
  · rename_i isFree
    cases taken
    exact ⟨isFree.1, rfl⟩
  · cases taken

theorem lockShared_exclusive (taken : lock.lockShared owner = some next) :
    next.exclusive = lock.exclusive := by
  unfold lockShared at taken
  split at taken
  · cases taken
    rfl
  · cases taken

theorem lockShared_free (taken : lock.lockShared owner = some next) : lock.exclusive = none := by
  unfold lockShared at taken
  split at taken
  · assumption
  · cases taken

section
variable [DecidableEq Owner]

theorem unlock_exclusive (held : lock.exclusive = some other) (isOther : other ≠ owner) :
    (lock.unlock owner).exclusive = some other := by
  unfold unlock
  simp [held, isOther]

end

theorem drop_exclusive (held : lock.exclusive = some other) (stays : gone other = false) :
    (lock.drop gone).exclusive = some other := by
  unfold drop
  simp [held, stays]

end Flock

end Nmas.Os
