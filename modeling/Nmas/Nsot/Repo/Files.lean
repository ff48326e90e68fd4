import Mathlib.Logic.Function.Basic
import Nmas.Text.Str

/-!
Contract: a list's repository, as the write paths of `nsot/repo.py` change it.

Owns: the three copies git keeps of a file (the working tree, the index, the
last commit) and what `git mv`, `git add`, `git reset` and a commit do to them;
`_safe_name` and the path of a golden.

Does not own: when git refuses. A caller says it.
-/

namespace Nmas.Nsot.Repo

open Nmas.Text

/-- What git keeps: in the working tree, staged, and committed. -/
structure Copies (α : Type) where
  tree : α
  index : α
  head : α

/-- What a path holds, where it holds something. -/
abbrev Files := Str → Option Str

def safeName [Unicode] (hostname : Str) : Str :=
  hostname.map (fun c => if Unicode.isAlnum c ∨ c ∈ ['-', '_', '.'] then c else '_')

def goldenRel [Unicode] (hostname : Str) : Str :=
  "golden/".ascii ++ safeName hostname ++ ".cfg".ascii

namespace Copies

open Function

variable (files : Copies Files) (own : List Str)

/-- `git mv -f`. -/
def move (source target : Str) : Copies Files where
  tree := update (update files.tree target (files.tree source)) source none
  index := update (update files.index target (files.index source)) source none
  head := files.head

/-- `git add -A` of some paths. -/
def add : Copies Files :=
  { files with index := fun path => if path ∈ own then files.tree path else files.index path }

/-- `git reset` of some paths. -/
def reset : Copies Files :=
  { files with index := fun path => if path ∈ own then files.head path else files.index path }

/-- `git commit` of the index. -/
def commit : Copies Files := { files with head := files.index }

/-- The paths of `git diff --cached`, among those git lists. -/
def stagedAmong (listed : List Str) : List Str :=
  listed.filter (fun path => files.index path ≠ files.head path)

/-- `stage_exactly`; nothing where the index holds a path of somebody else's, or git refuses. -/
def stageExactly (listed : List Str) (adds : Bool) : Option (Copies Files) :=
  if (files.stagedAmong listed).all (· ∈ own) ∧ adds then some (files.add own) else none

variable {files own} {source target path : Str}

theorem move_tree_target (isOther : target ≠ source) :
    (files.move source target).tree target = files.tree source := by
  unfold move
  simp only [update_of_ne isOther, update_self]

theorem move_tree_of_ne (notSource : path ≠ source) (notTarget : path ≠ target) :
    (files.move source target).tree path = files.tree path := by
  unfold move
  simp only [update_of_ne notSource, update_of_ne notTarget]

theorem move_index_of_ne (notSource : path ≠ source) (notTarget : path ≠ target) :
    (files.move source target).index path = files.index path := by
  unfold move
  simp only [update_of_ne notSource, update_of_ne notTarget]

theorem stageExactly_eq {listed : List Str} {adds : Bool} {staged : Copies Files}
    (isStaged : files.stageExactly own listed adds = some staged) : staged = files.add own := by
  unfold stageExactly at isStaged
  split at isStaged
  · exact (Option.some.inj isStaged).symm
  · cases isStaged

end Copies

end Nmas.Nsot.Repo
