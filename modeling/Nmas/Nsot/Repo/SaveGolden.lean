import Nmas.Log.Overwrites
import Nmas.Nsot.Normalize
import Nmas.Nsot.Repo.Files

/-!
Contract: a save of goldens, from the first write to its commit or its undoing.

Owns: `golden_body`, `_content_changed`, the writes, the staging and the commit
of `save_golden`, and `_undo_golden_writes` of `nsot/repo.py`; what is asked of
a save, and exactly when it is met.

Does not own: the manifest and the other paths of the commit, which are no
goldens; the guard's judgement of a capture; tags and publishing.
-/

namespace Nmas.Nsot.Repo

open Nmas.Text Nmas.Log.Overwrites List

structure GoldenItem where
  hostname : Str
  configText : Str
  mgmtIp : Str
deriving DecidableEq

section
variable [Unicode]

def goldenBody (hostname mgmtIp configText : Str) : Str :=
  "! Golden config ".ascii ++ [Char.ofNat 0x2014] ++ " ".ascii ++ hostname ++ " (".ascii ++
    mgmtIp ++ ")\n".ascii ++
    strip (['\n'].intercalate (Normalize.stripForRepo configText)) ++ ['\n']

namespace GoldenItem

variable (item : GoldenItem)

def rel : Str := goldenRel item.hostname

def content : Str := goldenBody item.hostname item.mgmtIp item.configText

def write : Str × Option Str := (item.rel, some item.content)

end GoldenItem

end

/-- How a call of git ends. -/
inductive Answer where
  | done | fails | raises

structure Behaviour where
  /-- Nothing stops the save before it looks at a capture. -/
  begins : Bool
  /-- The device's platform is known. -/
  dialect : GoldenItem → Bool
  /-- The device is in the manifest, or a new one is allowed. -/
  identified : GoldenItem → Bool
  /-- `git show` of the golden answers. -/
  shows : GoldenItem → Bool
  /-- `_guard_content` accepts the capture over what the file holds. -/
  accepts : GoldenItem → Option Str → Bool
  /-- The write that raises, and what its file is left with. -/
  writeRaises : Option (Nat × Option Str)
  /-- A path to stage is a directory, or one that is no golden is staged by somebody else. -/
  refuses : Bool
  /-- `git diff --cached` answers before the staging, and before the commit. -/
  asks : Bool
  asksAgain : Bool
  /-- After how many paths the staging stops, and whether it raises. -/
  stagingStops : Option (Nat × Bool)
  /-- Something besides the goldens is staged for the commit, and among its paths. -/
  extraDirty : Bool
  othersStaged : Bool
  /-- A save that changes nothing commits its decision. -/
  decides : Bool
  /-- How the commit ends, with what comes between it and the staging. -/
  commits : Answer
  /-- `git reset` does it. -/
  resets : Bool
  /-- The undo's write that raises, and what its file is left with. -/
  undoRaises : Option (Str × Option Str)

/-- The goldens, and the paths of them git lists. -/
structure Repository where
  files : Copies Files
  listed : List Str

/-- What a save leaves: the goldens, the captures it names as changed, whether it committed. -/
structure Left where
  files : Copies Files
  changed : List GoldenItem
  committed : Bool

namespace Copies

def written (files : Copies Files) (writes : List (Str × Option Str)) : Copies Files :=
  { files with tree := overwrite files.tree writes }

def unstage (files : Copies Files) (resets : Bool) (own : List Str) : Copies Files :=
  if resets then files.reset own else files

/-- `git commit` of some paths: what the working tree holds there. -/
def commitPaths (files : Copies Files) (paths : List Str) : Copies Files where
  tree := files.tree
  index := (files.add paths).index
  head := fun path => if path ∈ paths then files.tree path else files.head path

theorem unstage_tree (files : Copies Files) (resets : Bool) (own : List Str) :
    (files.unstage resets own).tree = files.tree := by
  unfold unstage
  split
  · rfl
  · rfl

theorem unstage_nil (files : Copies Files) (resets : Bool) : files.unstage resets [] = files := by
  have sameIndex : (files.reset []).index = files.index := by
    funext path
    show (if path ∈ [] then files.head path else files.index path) = files.index path
    exact if_neg not_mem_nil
  unfold unstage
  split
  · show { files with index := (files.reset []).index } = files
    rw [sameIndex]
  · rfl

theorem add_nil (files : Copies Files) : files.add [] = files := by
  have sameIndex : (files.add []).index = files.index := by
    funext path
    show (if path ∈ [] then files.tree path else files.index path) = files.index path
    exact if_neg not_mem_nil
  show { files with index := (files.add []).index } = files
  rw [sameIndex]

end Copies

namespace Behaviour

section
variable [Unicode]

def contentChanged (behaviour : Behaviour) (files : Copies Files) (item : GoldenItem) : Bool :=
  !behaviour.shows item || files.head item.rel ≠ some item.content

def pending (behaviour : Behaviour) (files : Copies Files) (items : List GoldenItem) :
    List GoldenItem :=
  ((items.filter behaviour.dialect).filter (behaviour.contentChanged files)).filter (fun item =>
    behaviour.accepts item (files.tree item.rel))

/-- Whether the save comes to its writes: every device has an identity, and there is a capture
left to record, or none refused. -/
def starts (behaviour : Behaviour) (files : Copies Files) (items : List GoldenItem) : Bool :=
  behaviour.begins && (items.filter behaviour.dialect).all behaviour.identified &&
    !((behaviour.pending files items).isEmpty &&
      (items.filter behaviour.dialect).all (behaviour.contentChanged files) && !items.isEmpty)

/-- The writes up to the one that raises, if one does. -/
def stoppedWrites (behaviour : Behaviour) (pending : List GoldenItem) :
    Option (List (Str × Option Str)) := do
  let (count, left) ← behaviour.writeRaises
  let item ← pending[count]?
  some ((pending.take count).map GoldenItem.write ++ [(item.rel, left)])

/-- `_undo_golden_writes`. -/
def undo (behaviour : Behaviour) (files : Copies Files) (before : List (Str × Option Str))
    (staged : List Str) : Left :=
  let unstaged := files.unstage behaviour.resets staged
  ⟨unstaged.written (putBack before behaviour.undoRaises), [], false⟩

def commitStaged (behaviour : Behaviour) (staged : Copies Files)
    (before : List (Str × Option Str)) (pending : List GoldenItem) : Left :=
  let own := pending.map GoldenItem.rel
  if pending.isEmpty && !behaviour.extraDirty then
    let left := staged.unstage behaviour.resets own
    if behaviour.decides then ⟨left.commit, [], true⟩ else ⟨left, [], false⟩
  else
    match behaviour.commits with
    | .raises => ⟨staged, [], false⟩
    | .fails => behaviour.undo staged before own
    | .done =>
      let paths := own.filter (fun path => staged.index path ≠ staged.head path)
      if behaviour.asksAgain && (!paths.isEmpty || behaviour.othersStaged) then
        ⟨staged.commitPaths paths, pending, true⟩
      else ⟨staged.commit, pending, true⟩

def stageAndCommit (behaviour : Behaviour) (repository : Repository)
    (pending : List GoldenItem) : Left :=
  let own := pending.map GoldenItem.rel
  let before := remember repository.files.tree (pending.map GoldenItem.write)
  let written := repository.files.written (pending.map GoldenItem.write)
  if behaviour.refuses ||
      behaviour.asks && !(written.stagedAmong repository.listed).all (· ∈ own) then
    behaviour.undo written before []
  else
    match behaviour.stagingStops with
    | some (count, true) => ⟨written.add (own.take count), [], false⟩
    | some (count, false) =>
      behaviour.undo ((written.add (own.take count)).unstage behaviour.resets own) before []
    | none => behaviour.commitStaged (written.add own) before pending

/-- `save_golden`, once the lock is held. -/
def saveGolden (behaviour : Behaviour) (repository : Repository) (items : List GoldenItem) : Left :=
  if behaviour.starts repository.files items then
    let pending := behaviour.pending repository.files items
    match behaviour.stoppedWrites pending with
    | some writes => ⟨repository.files.written writes, [], false⟩
    | none => behaviour.stageAndCommit repository pending
  else ⟨repository.files, [], false⟩

end

end Behaviour

section
variable [Unicode]

/-- What is asked of a save: its commit holds exactly the captures it names, or every golden in
the working tree and the index is as it was. -/
def AllOrNothing (before : Copies Files) (left : Left) : Prop :=
  if left.committed then
    (∀ item ∈ left.changed, left.files.head item.rel = some item.content) ∧
      ∀ path ∉ left.changed.map GoldenItem.rel, left.files.head path = before.head path
  else left.files.tree = before.tree ∧ left.files.index = before.index

/-! ### When it is met -/

namespace Behaviour

def StagedBefore (files : Copies Files) (pending : List GoldenItem) (paths : List Str) : Prop :=
  ∀ path ∈ paths, overwrite files.tree (pending.map GoldenItem.write) path = files.index path

/-- The index is as it was once the paths staged are unstaged: it held the commit's goldens, or
where git does not do it, what was staged. -/
def Unstages (behaviour : Behaviour) (files : Copies Files) (pending : List GoldenItem)
    (staged : List Str) : Prop :=
  if behaviour.resets then ∀ path ∈ pending.map GoldenItem.rel, files.head path = files.index path
  else StagedBefore files pending staged

def names (behaviour : Behaviour) (files : Copies Files) (pending : List GoldenItem) : Bool :=
  behaviour.asksAgain && (behaviour.othersStaged || (pending.map GoldenItem.rel).any (fun path =>
    overwrite files.tree (pending.map GoldenItem.write) path ≠ files.head path))

def CommitHolds (behaviour : Behaviour) (files : Copies Files) (pending : List GoldenItem) : Prop :=
  if pending.isEmpty && !behaviour.extraDirty then
    behaviour.decides → files.index = files.head
  else
    match behaviour.commits with
    | .raises => Repeats files.tree (pending.map GoldenItem.write) ∧
        StagedBefore files pending (pending.map GoldenItem.rel)
    | .fails => PutsBack files.tree (pending.map GoldenItem.write) behaviour.undoRaises ∧
        behaviour.Unstages files pending (pending.map GoldenItem.rel)
    | .done => Agree (pending.map GoldenItem.write) ∧
        (behaviour.names files pending ∨
          ∀ path ∉ pending.map GoldenItem.rel, files.index path = files.head path)

/-- When a save that has written its goldens is all or nothing. -/
def StagingHolds (behaviour : Behaviour) (repository : Repository) (pending : List GoldenItem) :
    Prop :=
  if behaviour.refuses || behaviour.asks &&
      !((repository.files.written (pending.map GoldenItem.write)).stagedAmong
        repository.listed).all (· ∈ pending.map GoldenItem.rel) then
    PutsBack repository.files.tree (pending.map GoldenItem.write) behaviour.undoRaises
  else
    match behaviour.stagingStops with
    | some (count, true) => Repeats repository.files.tree (pending.map GoldenItem.write) ∧
        StagedBefore repository.files pending ((pending.map GoldenItem.rel).take count)
    | some (count, false) =>
      PutsBack repository.files.tree (pending.map GoldenItem.write) behaviour.undoRaises ∧
        behaviour.Unstages repository.files pending ((pending.map GoldenItem.rel).take count)
    | none => behaviour.CommitHolds repository.files pending

/-- When a save is all or nothing. -/
def SaveHolds (behaviour : Behaviour) (repository : Repository) (items : List GoldenItem) : Prop :=
  behaviour.starts repository.files items →
    match behaviour.stoppedWrites (behaviour.pending repository.files items) with
    | some writes => Repeats repository.files.tree writes
    | none => behaviour.StagingHolds repository (behaviour.pending repository.files items)

/-! ### Each end of a save -/

variable {behaviour : Behaviour} {files : Copies Files} {pending : List GoldenItem}
  {staged : List Str}

theorem index_add_iff (files : Copies Files) (pending : List GoldenItem) (staged : List Str) :
    ((files.written (pending.map GoldenItem.write)).add staged).index = files.index ↔
      StagedBefore files pending staged := by
  rw [funext_iff]
  constructor
  · intro same path isStaged
    exact (if_pos isStaged).symm.trans (same path)
  · intro held path
    show (if path ∈ staged then _ else _) = _
    split
    · rename_i isStaged
      exact held path isStaged
    · rfl

theorem raised_iff (files : Copies Files) (pending : List GoldenItem) (staged : List Str) :
    AllOrNothing files ⟨(files.written (pending.map GoldenItem.write)).add staged, [], false⟩ ↔
      Repeats files.tree (pending.map GoldenItem.write) ∧ StagedBefore files pending staged :=
  and_congr overwrite_eq_self_iff (index_add_iff files pending staged)

theorem index_unstage_iff (isOwn : ∀ path ∈ staged, path ∈ pending.map GoldenItem.rel) :
    (((files.written (pending.map GoldenItem.write)).add staged).unstage behaviour.resets
        (pending.map GoldenItem.rel)).index = files.index ↔
      behaviour.Unstages files pending staged := by
  unfold Copies.unstage Unstages
  cases behaviour.resets with
  | false => exact index_add_iff files pending staged
  | true =>
    rw [if_pos rfl, if_pos rfl, funext_iff]
    constructor
    · intro same path isIn
      exact (if_pos isIn).symm.trans (same path)
    · intro held path
      show (if path ∈ pending.map GoldenItem.rel then _ else if path ∈ staged then _ else _) = _
      split
      · rename_i isIn
        exact held path isIn
      · rename_i notOwn
        exact if_neg (fun isStaged => notOwn (isOwn path isStaged))

theorem undone_iff {left : Copies Files} {own : List Str}
    (sameTree : left.tree = overwrite files.tree (pending.map GoldenItem.write)) :
    AllOrNothing files
        (behaviour.undo left (remember files.tree (pending.map GoldenItem.write)) own) ↔
      PutsBack files.tree (pending.map GoldenItem.write) behaviour.undoRaises ∧
        (left.unstage behaviour.resets own).index = files.index := by
  apply and_congr
  · show overwrite (left.unstage behaviour.resets own).tree _ = files.tree ↔ _
    rw [Copies.unstage_tree, sameTree]
    exact putBack_eq_self_iff
  · exact Iff.rfl

theorem index_staged (files : Copies Files) (pending : List GoldenItem) (path : Str) :
    ((files.written (pending.map GoldenItem.write)).add (pending.map GoldenItem.rel)).index path =
      if path ∈ pending.map GoldenItem.rel then
        overwrite files.tree (pending.map GoldenItem.write) path
      else files.index path := rfl

theorem committed_iff {head : Files}
    (own : ∀ path ∈ pending.map GoldenItem.rel,
      head path = overwrite files.tree (pending.map GoldenItem.write) path) :
    (∀ item ∈ pending, head item.rel = some item.content) ↔
      Agree (pending.map GoldenItem.write) := by
  rw [← @overwrite_gives_iff _ _ _ files.tree]
  constructor
  · intro gives write member
    obtain ⟨item, isItem, rfl⟩ := mem_map.mp member
    exact (own item.rel (mem_map_of_mem isItem)).symm.trans (gives item isItem)
  · intro gives item isItem
    exact (own item.rel (mem_map_of_mem isItem)).trans
      (gives item.write (mem_map_of_mem isItem))

omit [Unicode] in
theorem isEmpty_filter {path : Str → Bool} {paths : List Str} :
    (paths.filter path).isEmpty = !paths.any path := by
  rw [Bool.eq_iff_iff]
  simp

theorem done_iff (behaviour : Behaviour) (files : Copies Files) (pending : List GoldenItem)
    (isDone : behaviour.commits = .done)
    (moves : (pending.isEmpty && !behaviour.extraDirty) = false) :
    AllOrNothing files (behaviour.commitStaged
        ((files.written (pending.map GoldenItem.write)).add (pending.map GoldenItem.rel))
        (remember files.tree (pending.map GoldenItem.write)) pending) ↔
      Agree (pending.map GoldenItem.write) ∧ (behaviour.names files pending ∨
        ∀ path ∉ pending.map GoldenItem.rel, files.index path = files.head path) := by
  have samePaths : ((pending.map GoldenItem.rel).filter (fun path =>
      ((files.written (pending.map GoldenItem.write)).add (pending.map GoldenItem.rel)).index path ≠
        files.head path)) =
      (pending.map GoldenItem.rel).filter (fun path =>
        overwrite files.tree (pending.map GoldenItem.write) path ≠ files.head path) := by
    apply filter_congr
    intro path isOwn
    rw [index_staged, if_pos isOwn]
  have sameNames : (behaviour.asksAgain && (!((pending.map GoldenItem.rel).filter (fun path =>
      ((files.written (pending.map GoldenItem.write)).add (pending.map GoldenItem.rel)).index path ≠
        files.head path)).isEmpty || behaviour.othersStaged)) = behaviour.names files pending := by
    rw [samePaths, names, Bool.or_comm behaviour.othersStaged, isEmpty_filter, Bool.not_not]
  have isLeft : behaviour.commitStaged
      ((files.written (pending.map GoldenItem.write)).add (pending.map GoldenItem.rel))
      (remember files.tree (pending.map GoldenItem.write)) pending =
      if behaviour.names files pending then
        ⟨((files.written (pending.map GoldenItem.write)).add
          (pending.map GoldenItem.rel)).commitPaths ((pending.map GoldenItem.rel).filter (fun path =>
            overwrite files.tree (pending.map GoldenItem.write) path ≠ files.head path)),
          pending, true⟩
      else ⟨((files.written (pending.map GoldenItem.write)).add
          (pending.map GoldenItem.rel)).commit, pending, true⟩ := by
    rw [← sameNames, ← samePaths]
    unfold commitStaged
    rw [moves, isDone]
    rfl
  rw [isLeft]
  split
  · rename_i isNamed
    have own : ∀ path ∈ pending.map GoldenItem.rel,
        (((files.written (pending.map GoldenItem.write)).add
          (pending.map GoldenItem.rel)).commitPaths ((pending.map GoldenItem.rel).filter (fun path =>
            overwrite files.tree (pending.map GoldenItem.write) path ≠ files.head path))).head path =
          overwrite files.tree (pending.map GoldenItem.write) path := by
      intro path isOwn
      show (if path ∈ (pending.map GoldenItem.rel).filter _ then
        overwrite files.tree (pending.map GoldenItem.write) path else files.head path) = _
      split
      · rfl
      · rename_i notPath
        by_contra differs
        exact notPath (mem_filter.mpr ⟨isOwn, decide_eq_true (Ne.symm differs)⟩)
    constructor
    · intro good
      exact ⟨(committed_iff own).mp good.1, .inl isNamed⟩
    · intro holds
      refine ⟨(committed_iff own).mpr holds.1, ?_⟩
      intro path notOwn
      exact if_neg (fun isPath => notOwn (mem_of_mem_filter isPath))
  · rename_i notNamed
    have own : ∀ path ∈ pending.map GoldenItem.rel,
        (((files.written (pending.map GoldenItem.write)).add
          (pending.map GoldenItem.rel)).commit).head path =
          overwrite files.tree (pending.map GoldenItem.write) path := by
      intro path isOwn
      exact if_pos isOwn
    constructor
    · intro good
      refine ⟨(committed_iff own).mp good.1, .inr ?_⟩
      intro path notOwn
      exact (if_neg notOwn).symm.trans (good.2 path notOwn)
    · intro holds
      refine ⟨(committed_iff own).mpr holds.1, ?_⟩
      intro path notOwn
      exact (if_neg notOwn).trans ((holds.2.resolve_left notNamed) path notOwn)

theorem commitHolds_iff (behaviour : Behaviour) (files : Copies Files) (pending : List GoldenItem) :
    AllOrNothing files (behaviour.commitStaged
        ((files.written (pending.map GoldenItem.write)).add (pending.map GoldenItem.rel))
        (remember files.tree (pending.map GoldenItem.write)) pending) ↔
      behaviour.CommitHolds files pending := by
  unfold CommitHolds
  rcases moves : pending.isEmpty && !behaviour.extraDirty with - | -
  · rw [if_neg Bool.false_ne_true]
    rcases ends : behaviour.commits with - | - | -
    · exact done_iff behaviour files pending ends moves
    · unfold commitStaged
      rw [moves, ends, if_neg Bool.false_ne_true]
      refine (undone_iff rfl).trans (and_congr_right (fun _ => ?_))
      exact index_unstage_iff (fun path isOwn => isOwn)
    · unfold commitStaged
      rw [moves, ends, if_neg Bool.false_ne_true]
      exact raised_iff files pending (pending.map GoldenItem.rel)
  · obtain ⟨isEmpty, -⟩ := Bool.and_eq_true_iff.mp moves
    rw [if_pos rfl]
    unfold commitStaged
    rw [moves, if_pos rfl, isEmpty_iff.mp isEmpty, map_nil, map_nil,
      Copies.unstage_nil, Copies.add_nil]
    simp only []
    cases behaviour.decides with
    | false => exact iff_of_true ⟨rfl, rfl⟩ (fun decided => absurd decided Bool.false_ne_true)
    | true =>
      rw [if_pos rfl, forall_prop_of_true rfl, funext_iff]
      constructor
      · intro good path
        exact good.2 path not_mem_nil
      · intro same
        exact ⟨fun item isItem => (not_mem_nil isItem).elim, fun path _ => same path⟩

theorem stagingHolds_iff (behaviour : Behaviour) (repository : Repository)
    (pending : List GoldenItem) :
    AllOrNothing repository.files (behaviour.stageAndCommit repository pending) ↔
      behaviour.StagingHolds repository pending := by
  unfold stageAndCommit StagingHolds
  simp only []
  split
  · refine (undone_iff rfl).trans (and_iff_left ?_)
    rw [Copies.unstage_nil]
    rfl
  · rcases behaviour.stagingStops with - | ⟨count, raises⟩
    · exact commitHolds_iff behaviour repository.files pending
    · cases raises with
      | false =>
        refine (undone_iff (Copies.unstage_tree _ _ _)).trans (and_congr_right (fun _ => ?_))
        rw [Copies.unstage_nil]
        exact index_unstage_iff (fun path isTaken => mem_of_mem_take isTaken)
      | true => exact raised_iff repository.files pending _

/-- A save is all or nothing exactly where each file it leaves changed held what it was given. -/
theorem saveGolden_allOrNothing_iff (behaviour : Behaviour) (repository : Repository)
    (items : List GoldenItem) :
    AllOrNothing repository.files (behaviour.saveGolden repository items) ↔
      behaviour.SaveHolds repository items := by
  unfold saveGolden SaveHolds
  split
  · rename_i starts
    rw [forall_prop_of_true starts]
    simp only []
    rcases behaviour.stoppedWrites (behaviour.pending repository.files items) with - | writes
    · exact stagingHolds_iff behaviour repository _
    · exact (and_iff_left rfl).trans overwrite_eq_self_iff
  · rename_i never
    exact iff_of_true ⟨rfl, rfl⟩ (fun starts => absurd starts never)

end Behaviour

end

/-! ### Two captures of one file -/

/-- Every step does what it is asked, and the commit is refused. -/
def refusedCommit : Behaviour where
  begins := true
  dialect _ := true
  identified _ := true
  shows _ := true
  accepts _ _ := true
  writeRaises := none
  refuses := false
  asks := true
  asksAgain := true
  stagingStops := none
  extraDirty := false
  othersStaged := true
  decides := false
  commits := .fails
  resets := true
  undoRaises := none

def oneGolden : Repository :=
  let files : Files := fun path =>
    if path = "golden/r_1.cfg".ascii then some "hostname r1".ascii else none
  ⟨⟨files, files, files⟩, ["golden/r_1.cfg".ascii]⟩

/-- Two devices whose names make one path. -/
def twoCaptures : List GoldenItem :=
  [⟨"r/1".ascii, "hostname a".ascii, "10.0.0.1".ascii⟩,
    ⟨"r_1".ascii, "hostname b".ascii, "10.0.0.2".ascii⟩]

/-- The undo leaves the first capture where the golden was. -/
theorem first_capture_left :
    letI : Unicode := basicLatin
    (refusedCommit.saveGolden oneGolden twoCaptures).committed = false ∧
      (refusedCommit.saveGolden oneGolden twoCaptures).files.tree "golden/r_1.cfg".ascii =
        some (goldenBody "r/1".ascii "10.0.0.1".ascii "hostname a".ascii) ∧
      ¬ AllOrNothing oneGolden.files (refusedCommit.saveGolden oneGolden twoCaptures) := by
  have left : letI : Unicode := basicLatin
      (refusedCommit.saveGolden oneGolden twoCaptures).committed = false ∧
      (refusedCommit.saveGolden oneGolden twoCaptures).files.tree "golden/r_1.cfg".ascii =
        some (goldenBody "r/1".ascii "10.0.0.1".ascii "hostname a".ascii) ∧
      some (goldenBody "r/1".ascii "10.0.0.1".ascii "hostname a".ascii) ≠
        oneGolden.files.tree "golden/r_1.cfg".ascii := by decide +kernel
  let _ : Unicode := basicLatin
  refine ⟨left.1, left.2.1, fun holds => ?_⟩
  unfold AllOrNothing at holds
  rw [left.1, if_neg Bool.false_ne_true] at holds
  have asBefore := congrFun holds.1 "golden/r_1.cfg".ascii
  rw [left.2.1] at asBefore
  exact left.2.2 asBefore

end Nmas.Nsot.Repo
