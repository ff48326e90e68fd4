import Mathlib.Data.List.Nodup
import Nmas.Log.Machine
import Nmas.Nsot.Repo.Files

/-!
Contract: the renames a refresh recorded, applied to the goldens.

Owns: `pending_renames` and `clear_pending_rename` of `nsot/manifest.py`,
`apply_pending_renames` of `nsot/repo.py`; and the renames that move a device's
golden and nobody else's.

Does not own: what a golden says, the initial commit of a repository, and the
order the manifest's file lists its devices in.
-/

namespace Nmas.Nsot.Repo

open Nmas.Text List
open Nmas.Log.Machine (run Along)
open Function

/-- A device's entry in the manifest. `pending_rename` is from and to. -/
structure Entry where
  name : Str
  golden : Str
  pendingRename : Option (Str × Str)
deriving DecidableEq

structure Manifest where
  devices : List (Str × Entry)
  apart : (devices.map Prod.fst).Nodup

namespace Manifest

variable (manifest : Manifest) (identity : Str)

def entry : Option Entry :=
  (manifest.devices.find? (fun device => device.1 = identity)).map Prod.snd

def clearPendingRename (newName newGolden : Str) : Manifest where
  devices := manifest.devices.map (fun device =>
    if device.1 = identity then (identity, ⟨newName, newGolden, none⟩) else device)
  apart := by
    have same : (fun device : Str × Entry =>
        (if device.1 = identity then (identity, ⟨newName, newGolden, none⟩) else device).1) =
        Prod.fst := by
      funext device
      split
      · rename_i isSame
        exact isSame.symm
      · rfl
    rw [List.map_map]
    simpa only [Function.comp_def, same] using manifest.apart

end Manifest

/-- A rename of `pending_renames`. -/
structure Rename where
  identity : Str
  oldName : Str
  newName : Str
deriving DecidableEq

def pendingRenames (manifest : Manifest) : List Rename :=
  manifest.devices.filterMap (fun device =>
    device.2.pendingRename.map (fun pending => ⟨device.1, pending.1, pending.2⟩))

/-- The goldens, the manifest, and the paths git lists. -/
structure State where
  files : Copies Files
  manifest : Copies Manifest
  listed : List Str

/-- What git does of one rename: `mv`, `add` and `commit`. -/
structure Outcome where
  moves : Bool
  adds : Bool
  commits : Bool

structure Progress where
  state : State
  renamed : List Str

section
variable [Unicode]

def Rename.oldRel (rename : Rename) : Str := goldenRel rename.oldName

def Rename.newRel (rename : Rename) : Str := goldenRel rename.newName

def Rename.own (rename : Rename) : List Str := [rename.oldRel, rename.newRel]

namespace State

variable (state : State) (outcome : Outcome) (rename : Rename)

/-- Whether `git mv` does it: it moves tracked files, and none onto itself. -/
def moves : Bool :=
  outcome.moves && (state.files.index rename.oldRel).isSome && rename.oldRel ≠ rename.newRel

/-- `git mv`, and the manifest with it. -/
def moved : State :=
  { state with
    files := state.files.move rename.oldRel rename.newRel
    manifest := { state.manifest with
      tree := state.manifest.tree.clearPendingRename rename.identity rename.newName rename.newRel } }

def committed : Option State := do
  let staged ← (state.moved rename).files.stageExactly rename.own state.listed outcome.adds
  if outcome.commits then
    let manifest := (state.moved rename).manifest.tree
    some { state with files := staged.commit, manifest := ⟨manifest, manifest, manifest⟩ }
  else none

/-- A rename whose commit failed, undone: `unstage`, the move back, the manifest. -/
def undone : State :=
  let files := ((state.moved rename).files.reset rename.own)
  { state with
    files := { files with
      tree := update (update files.tree rename.oldRel (files.tree rename.newRel))
        rename.newRel none }
    manifest := { state.manifest with index := state.manifest.head } }

/-- One rename of `apply_pending_renames`, and whether it is reported. -/
def applied : State × Bool :=
  if state.files.tree rename.oldRel = none then
    ({ state with manifest := { state.manifest with
        tree := state.manifest.tree.clearPendingRename rename.identity rename.newName
          rename.newRel } }, false)
  else if state.moves outcome rename then
    match state.committed outcome rename with
    | some committed => (committed, true)
    | none => (state.undone rename, false)
  else (state, false)

end State

def applyNext (outcome : Rename → Outcome) (progress : Progress) (rename : Rename) : Progress :=
  let applied := progress.state.applied (outcome rename) rename
  ⟨applied.1, if applied.2 then progress.renamed ++ [rename.identity] else progress.renamed⟩

def applyPendingRenames (outcome : Rename → Outcome) (state : State) : Progress :=
  run (applyNext outcome) ⟨state, []⟩ (pendingRenames state.manifest.tree)

/-- What is asked of the renames: every identity's golden holds what it held, in the commit too
where its rename is reported, and a rename that is not reported is as it was. -/
structure RenamesKept (before : State) (after : Progress) : Prop where
  golden : ∀ identity entry, before.manifest.tree.entry identity = some entry →
    ∃ now, after.state.manifest.tree.entry identity = some now ∧
      after.state.files.tree now.golden = before.files.tree entry.golden
  committed : ∀ identity ∈ after.renamed, ∀ entry,
    before.manifest.tree.entry identity = some entry →
      ∃ now, after.state.manifest.head.entry identity = some now ∧
        after.state.files.head now.golden = before.files.tree entry.golden
  pending : ∀ rename ∈ pendingRenames before.manifest.tree, rename.identity ∉ after.renamed →
    after.state.manifest.tree.entry rename.identity = before.manifest.tree.entry rename.identity ∧
      ∀ entry, before.manifest.tree.entry rename.identity = some entry →
        after.state.files.tree entry.golden = before.files.tree entry.golden

/-- A rename finds its device's golden where its old name says, and where it is moved, nobody
else's golden is on either path; where its commit fails, nobody's golden is displaced. -/
def InPlace (outcome : Rename → Outcome) (progress : Progress) (rename : Rename) : Prop :=
  (progress.state.files.tree rename.oldRel).isSome ∧
    (progress.state.moves (outcome rename) rename →
      if (progress.state.committed (outcome rename) rename).isSome then
        ∀ device ∈ progress.state.manifest.tree.devices,
          if device.1 = rename.identity then device.2.golden = rename.oldRel
          else device.2.golden ≠ rename.oldRel ∧ device.2.golden ≠ rename.newRel
      else
        ∀ device ∈ progress.state.manifest.tree.devices,
          device.2.golden = rename.newRel → progress.state.files.tree rename.newRel = none)

instance (outcome : Rename → Outcome) (progress : Progress) (rename : Rename) :
    Decidable (InPlace outcome progress rename) :=
  inferInstanceAs (Decidable (_ ∧ _))

/-! ### The manifest -/

variable {manifest : Manifest} {identity other newName newGolden : Str} {entry : Entry}

omit [Unicode]

theorem Manifest.mem_of_entry (isEntry : manifest.entry identity = some entry) :
    (identity, entry) ∈ manifest.devices := by
  unfold Manifest.entry at isEntry
  obtain ⟨device, found, rfl⟩ := Option.map_eq_some_iff.mp isEntry
  have isDevice : device.1 = identity := by simpa using List.find?_some found
  rw [← isDevice]
  exact mem_of_find?_eq_some found

theorem Manifest.entry_of_mem (member : (identity, entry) ∈ manifest.devices) :
    manifest.entry identity = some entry := by
  unfold Manifest.entry
  obtain ⟨device, found⟩ : ∃ device,
      manifest.devices.find? (fun device => device.1 = identity) = some device :=
    Option.isSome_iff_exists.mp (List.find?_isSome.mpr ⟨_, member, decide_eq_true rfl⟩)
  have isDevice : device.1 = identity := by simpa using List.find?_some found
  have same := inj_on_of_nodup_map manifest.apart (mem_of_find?_eq_some found) member
    isDevice
  rw [found, same]
  rfl

theorem Manifest.entry_clear_of_ne (isOther : other ≠ identity) :
    (manifest.clearPendingRename identity newName newGolden).entry other =
      manifest.entry other := by
  rcases isEntry : manifest.entry other with - | entry
  · rcases isCleared : (manifest.clearPendingRename identity newName newGolden).entry other with
      - | cleared
    · rfl
    · obtain ⟨device, isDevice, same⟩ := mem_map.mp (Manifest.mem_of_entry isCleared)
      split at same
      · exact absurd (congrArg Prod.fst same).symm isOther
      · rw [same] at isDevice
        rw [Manifest.entry_of_mem isDevice] at isEntry
        cases isEntry
  · apply Manifest.entry_of_mem
    exact mem_map.mpr ⟨_, Manifest.mem_of_entry isEntry, if_neg isOther⟩

theorem Manifest.entry_clear_self (isEntry : manifest.entry identity = some entry) :
    (manifest.clearPendingRename identity newName newGolden).entry identity =
      some ⟨newName, newGolden, none⟩ := by
  apply Manifest.entry_of_mem
  refine mem_map.mpr ⟨_, Manifest.mem_of_entry isEntry, ?_⟩
  exact if_pos rfl

theorem entry_of_mem_pendingRenames {rename : Rename} (member : rename ∈ pendingRenames manifest) :
    ∃ entry, manifest.entry rename.identity = some entry := by
  obtain ⟨device, isDevice, isPending⟩ := mem_filterMap.mp member
  obtain ⟨pending, -, rfl⟩ := Option.map_eq_some_iff.mp isPending
  exact ⟨device.2, Manifest.entry_of_mem isDevice⟩

end

/-! ### One rename -/

section
variable [Unicode] {outcome : Rename → Outcome} {before : State} {progress : Progress}
  {rename : Rename} {state committed : State}

theorem committed_eq {outcome : Outcome} (isCommitted : state.committed outcome rename = some committed) :
    committed = { state with
      files := ((state.moved rename).files.add rename.own).commit
      manifest := ⟨(state.moved rename).manifest.tree, (state.moved rename).manifest.tree,
        (state.moved rename).manifest.tree⟩ } := by
  unfold State.committed at isCommitted
  rcases isStaged : (state.moved rename).files.stageExactly rename.own state.listed outcome.adds with
    - | staged
  · rw [isStaged] at isCommitted
    cases isCommitted
  · rw [isStaged] at isCommitted
    simp only [Option.bind_eq_bind, Option.bind_some] at isCommitted
    split_ifs at isCommitted
    cases isCommitted
    rw [Copies.stageExactly_eq isStaged]

/-- What the loop keeps: each golden in the working tree, the reported ones committed with
their entries, and every other entry. -/
structure Kept (before : State) (progress : Progress) : Prop where
  golden : ∀ identity entry, before.manifest.tree.entry identity = some entry →
    ∃ now, progress.state.manifest.tree.entry identity = some now ∧
      progress.state.files.tree now.golden = before.files.tree entry.golden
  renamed : ∀ identity ∈ progress.renamed, ∃ now,
    progress.state.manifest.tree.entry identity = some now ∧
      progress.state.manifest.head.entry identity = some now ∧
      (progress.state.files.tree now.golden).isSome ∧
      progress.state.files.index now.golden = progress.state.files.tree now.golden ∧
      progress.state.files.head now.golden = progress.state.files.tree now.golden
  others : ∀ identity ∉ progress.renamed,
    progress.state.manifest.tree.entry identity = before.manifest.tree.entry identity

omit [Unicode] in
theorem kept_start (before : State) : Kept before ⟨before, []⟩ where
  golden _ entry isEntry := ⟨entry, isEntry, rfl⟩
  renamed _ member := (not_mem_nil member).elim
  others _ _ := rfl

omit [Unicode] in
theorem Kept.renamesKept (kept : Kept before progress) : RenamesKept before progress where
  golden := kept.golden
  committed := by
    intro identity member entry isEntry
    obtain ⟨now, isNow, sameNow⟩ := kept.golden identity entry isEntry
    obtain ⟨now', isNow', inHead, -, -, sameHead⟩ := kept.renamed identity member
    rw [isNow] at isNow'
    cases isNow'
    exact ⟨now, inHead, sameHead.trans sameNow⟩
  pending := by
    intro rename member notRenamed
    have same := kept.others rename.identity notRenamed
    refine ⟨same, fun entry isEntry => ?_⟩
    obtain ⟨now, isNow, sameNow⟩ := kept.golden rename.identity entry isEntry
    rw [same, isEntry] at isNow
    cases isNow
    exact sameNow

theorem Kept.commits (kept : Kept before progress) (someFile : (progress.state.files.tree
      rename.oldRel).isSome) (isOther : rename.oldRel ≠ rename.newRel)
    (isKnown : ∃ entry, before.manifest.tree.entry rename.identity = some entry)
    (isCommitted : progress.state.committed (outcome rename) rename = some committed)
    (inPlace : ∀ device ∈ progress.state.manifest.tree.devices,
      if device.1 = rename.identity then device.2.golden = rename.oldRel
      else device.2.golden ≠ rename.oldRel ∧ device.2.golden ≠ rename.newRel) :
    Kept before ⟨committed, progress.renamed ++ [rename.identity]⟩ := by
  have isState := committed_eq isCommitted
  have elsewhere : ∀ identity entry, identity ≠ rename.identity →
      progress.state.manifest.tree.entry identity = some entry →
        entry.golden ≠ rename.oldRel ∧ entry.golden ≠ rename.newRel := by
    intro identity entry isAnother isEntry
    have placed := inPlace _ (Manifest.mem_of_entry isEntry)
    rwa [if_neg isAnother] at placed
  have sameTree : ∀ path, path ≠ rename.oldRel → path ≠ rename.newRel →
      committed.files.tree path = progress.state.files.tree path := by
    intro path notOld notNew
    rw [isState]
    exact Copies.move_tree_of_ne notOld notNew
  have newTree : committed.files.tree rename.newRel = progress.state.files.tree rename.oldRel := by
    rw [isState]
    exact Copies.move_tree_target isOther.symm
  have sameIndex : ∀ path, path ≠ rename.oldRel → path ≠ rename.newRel →
      committed.files.index path = progress.state.files.index path := by
    intro path notOld notNew
    rw [isState]
    change (if path ∈ rename.own then _ else _) = _
    rw [if_neg (by simp [Rename.own, notOld, notNew])]
    exact Copies.move_index_of_ne notOld notNew
  have newIndex : committed.files.index rename.newRel = committed.files.tree rename.newRel := by
    rw [isState]
    change (if rename.newRel ∈ rename.own then _ else _) = _
    rw [if_pos (by simp [Rename.own])]
    rfl
  have sameHead : committed.files.head = committed.files.index := by
    rw [isState]
    rfl
  have isManifest : committed.manifest.tree = progress.state.manifest.tree.clearPendingRename
      rename.identity rename.newName rename.newRel := by
    rw [isState]
    rfl
  have headManifest : committed.manifest.head = committed.manifest.tree := by
    rw [isState]
  obtain ⟨first, isFirst⟩ := isKnown
  obtain ⟨own, isOwn, ownSame⟩ := kept.golden _ _ isFirst
  have ownGolden : own.golden = rename.oldRel := by
    have placed := inPlace _ (Manifest.mem_of_entry isOwn)
    rwa [if_pos rfl] at placed
  have newEntry : committed.manifest.tree.entry rename.identity =
      some ⟨rename.newName, rename.newRel, none⟩ := by
    rw [isManifest]
    exact Manifest.entry_clear_self isOwn
  have otherEntry : ∀ identity, identity ≠ rename.identity →
      committed.manifest.tree.entry identity = progress.state.manifest.tree.entry identity := by
    intro identity isAnother
    rw [isManifest]
    exact Manifest.entry_clear_of_ne isAnother
  refine ⟨?_, ?_, ?_⟩
  · intro identity entry isEntry
    by_cases isOwnEntry : identity = rename.identity
    · subst isOwnEntry
      refine ⟨_, newEntry, newTree.trans ?_⟩
      rw [isFirst] at isEntry
      cases isEntry
      rw [← ownGolden]
      exact ownSame
    · obtain ⟨now, isNow, sameNow⟩ := kept.golden identity entry isEntry
      obtain ⟨notOld, notNew⟩ := elsewhere identity now isOwnEntry isNow
      exact ⟨now, (otherEntry identity isOwnEntry).trans isNow,
        (sameTree _ notOld notNew).trans sameNow⟩
  · intro identity member
    by_cases isOwnEntry : identity = rename.identity
    · subst isOwnEntry
      refine ⟨_, newEntry, headManifest ▸ newEntry, ?_, newIndex, ?_⟩
      · change (committed.files.tree rename.newRel).isSome
        rw [newTree]
        exact someFile
      · rw [sameHead]
        exact newIndex
    · have old : identity ∈ progress.renamed := by
        rcases mem_append.mp member with old | new
        · exact old
        · exact absurd (mem_singleton.mp new) isOwnEntry
      obtain ⟨now, isNow, -, someNow, indexNow, -⟩ := kept.renamed identity old
      obtain ⟨notOld, notNew⟩ := elsewhere identity now isOwnEntry isNow
      have isEntry := (otherEntry identity isOwnEntry).trans isNow
      have indexSame : committed.files.index now.golden = committed.files.tree now.golden := by
        rw [sameIndex _ notOld notNew, sameTree _ notOld notNew]
        exact indexNow
      refine ⟨now, isEntry, headManifest ▸ isEntry, ?_, indexSame, ?_⟩
      · change (committed.files.tree now.golden).isSome
        rw [sameTree _ notOld notNew]
        exact someNow
      · rw [sameHead]
        exact indexSame
  · intro identity absent
    simp only [mem_append, mem_singleton, not_or] at absent
    exact (otherEntry identity absent.2).trans (kept.others identity absent.1)

theorem Kept.undoes (kept : Kept before progress) (isOther : rename.oldRel ≠ rename.newRel)
    (inPlace : ∀ device ∈ progress.state.manifest.tree.devices,
      device.2.golden = rename.newRel → progress.state.files.tree rename.newRel = none) :
    Kept before ⟨progress.state.undone rename, progress.renamed⟩ := by
  have isMoved : ((progress.state.moved rename).files.reset rename.own).tree rename.newRel =
      progress.state.files.tree rename.oldRel := Copies.move_tree_target isOther.symm
  have sameTree : ∀ path, (path = rename.newRel → progress.state.files.tree path = none) →
      (progress.state.undone rename).files.tree path = progress.state.files.tree path := by
    intro path noneThere
    have isUndone : (progress.state.undone rename).files.tree = update
        (update (progress.state.files.move rename.oldRel rename.newRel).tree rename.oldRel
          (((progress.state.moved rename).files.reset rename.own).tree rename.newRel))
        rename.newRel none := rfl
    rw [isUndone]
    by_cases isNew : path = rename.newRel
    · rw [noneThere isNew]
      subst isNew
      exact update_self _ _ _
    · rw [update_of_ne isNew]
      by_cases isOld : path = rename.oldRel
      · subst isOld
        rw [update_self]
        exact isMoved
      · rw [update_of_ne isOld]
        exact Copies.move_tree_of_ne isOld isNew
  have sameIndex : ∀ path, (progress.state.undone rename).files.index path =
      if path ∈ rename.own then progress.state.files.head path
      else progress.state.files.index path := by
    intro path
    change (if path ∈ rename.own then _ else _) = _
    split_ifs with isOwn
    · rfl
    · simp only [Rename.own, mem_cons, not_mem_nil, or_false, not_or] at isOwn
      exact Copies.move_index_of_ne isOwn.1 isOwn.2
  have placed : ∀ identity entry, progress.state.manifest.tree.entry identity = some entry →
      (progress.state.undone rename).files.tree entry.golden =
        progress.state.files.tree entry.golden := by
    intro identity entry isEntry
    apply sameTree
    intro isNew
    rw [isNew]
    exact inPlace _ (Manifest.mem_of_entry isEntry) isNew
  refine ⟨?_, ?_, kept.others⟩
  · intro identity entry isEntry
    obtain ⟨now, isNow, sameNow⟩ := kept.golden identity entry isEntry
    exact ⟨now, isNow, (placed identity now isNow).trans sameNow⟩
  · intro identity member
    obtain ⟨now, isNow, inHead, someNow, indexNow, headNow⟩ := kept.renamed identity member
    have same := placed identity now isNow
    refine ⟨now, isNow, inHead, ?_, ?_, ?_⟩
    · change ((progress.state.undone rename).files.tree now.golden).isSome
      rw [same]
      exact someNow
    · change (progress.state.undone rename).files.index now.golden =
        (progress.state.undone rename).files.tree now.golden
      rw [same, sameIndex]
      split_ifs
      · exact headNow
      · exact indexNow
    · exact headNow.trans same.symm

/-- **A rename in place keeps every golden.** -/
theorem Kept.next (kept : Kept before progress) (inPlace : InPlace outcome progress rename)
    (isPending : rename ∈ pendingRenames before.manifest.tree) :
    Kept before (applyNext outcome progress rename) := by
  obtain ⟨someFile, placed⟩ := inPlace
  unfold applyNext State.applied
  rw [if_neg (by simpa [Option.isSome_iff_ne_none] using someFile)]
  by_cases moves : progress.state.moves (outcome rename) rename
  · have isOther : rename.oldRel ≠ rename.newRel := by
      unfold State.moves at moves
      simp only [Bool.and_eq_true, decide_eq_true_eq] at moves
      exact moves.2
    have inPlace := placed moves
    rw [if_pos moves]
    rcases isCommitted : progress.state.committed (outcome rename) rename with - | committed
    · rw [isCommitted] at inPlace
      exact kept.undoes isOther inPlace
    · rw [isCommitted] at inPlace
      exact kept.commits someFile isOther (entry_of_mem_pendingRenames isPending) isCommitted inPlace
  · rw [if_neg moves]
    exact kept

/-- **The renames move each device's golden and nobody else's**, where every one finds its
golden where its old name says and no other golden on either of its paths. -/
theorem renames_move_their_own (outcome : Rename → Outcome) (state : State)
    (inPlace : Along (applyNext outcome) (InPlace outcome) ⟨state, []⟩
      (pendingRenames state.manifest.tree)) :
    RenamesKept state (applyPendingRenames outcome state) := by
  have arePending : Along (applyNext outcome)
      (fun _ rename => rename ∈ pendingRenames state.manifest.tree) ⟨state, []⟩
      (pendingRenames state.manifest.tree) := Along.of_mem (fun _ _ member => member)
  have kept := (inPlace.and arePending).keeps
    (fun _ _ kept allowed => Kept.next kept allowed.1 allowed.2) (kept_start state)
  exact kept.renamesKept

end

/-! ### Chains and swaps -/

/-- Devices with a golden each, committed, and some renames pending. -/
def lab (devices : List (Str × Entry)) (apart : (devices.map Prod.fst).Nodup) : State :=
  let files : Files := fun path =>
    ((devices.find? (fun device => device.2.golden = path)).map (fun device => device.1))
  ⟨⟨files, files, files⟩, ⟨⟨devices, apart⟩, ⟨devices, apart⟩, ⟨devices, apart⟩⟩,
    devices.map (fun device => device.2.golden)⟩

def always : Rename → Outcome := fun _ => ⟨true, true, true⟩

/-- A chain whose last name is applied first. -/
def chain : State :=
  lab [("nb:1".ascii, ⟨"b".ascii, "golden/b.cfg".ascii, some ("b".ascii, "c".ascii)⟩),
    ("nb:2".ascii, ⟨"a".ascii, "golden/a.cfg".ascii, some ("a".ascii, "b".ascii)⟩)] (by decide)

theorem chain_moves :
    letI : Unicode := basicLatin
    RenamesKept chain (applyPendingRenames always chain) :=
  have inPlace : letI : Unicode := basicLatin
      Along (applyNext always) (InPlace always) ⟨chain, []⟩
        (pendingRenames chain.manifest.tree) := by decide +kernel
  letI : Unicode := basicLatin
  renames_move_their_own always chain inPlace

/-- Two devices that take each other's name. -/
def swap : State :=
  lab [("nb:1".ascii, ⟨"a".ascii, "golden/a.cfg".ascii, some ("a".ascii, "b".ascii)⟩),
    ("nb:2".ascii, ⟨"b".ascii, "golden/b.cfg".ascii, some ("b".ascii, "a".ascii)⟩)] (by decide)

/-- Both renames are reported, the first device has no golden and the second has the first's. -/
theorem swap_loses_golden :
    letI : Unicode := basicLatin
    (applyPendingRenames always swap).renamed = ["nb:1".ascii, "nb:2".ascii] ∧
      (applyPendingRenames always swap).state.files.tree "golden/b.cfg".ascii = none ∧
      (applyPendingRenames always swap).state.files.tree "golden/a.cfg".ascii =
        some "nb:1".ascii ∧
      ¬ RenamesKept swap (applyPendingRenames always swap) := by
  have lost : letI : Unicode := basicLatin
      (applyPendingRenames always swap).renamed = ["nb:1".ascii, "nb:2".ascii] ∧
      (applyPendingRenames always swap).state.files.tree "golden/b.cfg".ascii = none ∧
      (applyPendingRenames always swap).state.files.tree "golden/a.cfg".ascii =
        some "nb:1".ascii := by decide +kernel
  refine ⟨lost.1, lost.2.1, lost.2.2, fun kept => ?_⟩
  have isEntry : swap.manifest.tree.entry "nb:1".ascii =
      some ⟨"a".ascii, "golden/a.cfg".ascii, some ("a".ascii, "b".ascii)⟩ := by decide +kernel
  obtain ⟨now, isNow, sameNow⟩ := kept.golden _ _ isEntry
  have isNow' : letI : Unicode := basicLatin
      (applyPendingRenames always swap).state.manifest.tree.entry "nb:1".ascii =
        some ⟨"b".ascii, "golden/b.cfg".ascii, none⟩ := by decide +kernel
  rw [isNow'] at isNow
  cases isNow
  rw [lost.2.1] at sameNow
  have some' : (swap.files.tree "golden/a.cfg".ascii).isSome = true := by decide +kernel
  rw [← sameNow] at some'
  cases some'

end Nmas.Nsot.Repo
