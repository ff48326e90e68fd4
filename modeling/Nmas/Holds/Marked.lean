import Nmas.Holds.Owned

/-!
Contract: every record is marked, in a folder that is said indexed.

Owns:
- the markers, names and empty files a process counts on where it is;
- what each write of a lock file, a marker or a folder leaves of them;
- `Marked`, kept by every step of every process.
-/

namespace Nmas.Holds

open Nmas.Text List
open Nmas.Log (amend)
open Nmas.Os (Flock)

def Stage.marked : Stage → Bool
  | .looking | .keeping _ | .emptying | .writing | .syncing => true
  | _ => false

def LeaveStage.emptied : LeaveStage → Bool
  | .unmarking => true
  | _ => false

/-- The lock files whose markers a process counts on. -/
def Process.marked (process : Process) : List Path :=
  process.held.map (fun hold => hold.key.path) ++
    (process.acquiring?.filter (fun acquiring => acquiring.stage.marked)).toList.map
      (fun acquiring => acquiring.key.path)

/-- The lock files it has made. -/
def Process.files (process : Process) : List Path :=
  process.held.map (fun hold => hold.key.path) ++
    process.acquiring?.toList.map (fun acquiring => acquiring.key.path)

def Process.emptied (process : Process) : List Path :=
  (process.leaving.filter (fun leaving => leaving.stage.emptied)).map
    (fun leaving => leaving.key.path)

/-- The holds a `note` has yet to come to, or to write. -/
def Process.notes (process : Process) : List Key :=
  match process.critical with
  | some (.noting noting) => noting.writing.toList ++ noting.rest
  | _ => []

/-- The `_index` of an `acquire`. -/
def Process.index? (process : Process) : Option Index :=
  process.acquiring?.bind (fun acquiring =>
    match acquiring.stage with
    | .indexing index => some index
    | _ => none)

def Walks (state : State) (index : Index) : Prop :=
  ∀ names ∈ index.rest, ∀ path : Path, path.folder = index.folder → state.contents path ≠ none →
    state.marks path = true ∨ path.name ∈ names ∨ index.marking = some path.name

structure Fits (state : State) (process : Process) : Prop where
  counted : ∀ path ∈ process.marked, state.marks path = true
  listed : ∀ path ∈ process.files, path.name ∈ (state.folders path.folder).names
  emptied : ∀ path ∈ process.emptied, state.contents path = none
  noted : ∀ key ∈ process.notes, key ∈ process.held.map Hold.key
  walks : ∀ index ∈ process.index?, Walks state index

structure Marked (state : State) : Prop where
  fits : ∀ pid, Fits state (state.processes pid)
  listed : ∀ path, state.contents path ≠ none → path.name ∈ (state.folders path.folder).names
  indexed : ∀ path, (state.folders path.folder).indexed = true → state.contents path ≠ none →
    state.marks path = true
  walks : ∀ index ∈ state.indexers, Walks state index

variable {state next : State} {pid : Nat} {process before : Process} {key : Key} {hold : Hold}
  {path : Path} {index : Index} {acquiring : Acquiring}

/-! ### Writes of a file, a marker, a folder -/

structure Gentle (state next : State) : Prop where
  contents : ∀ path, next.contents path ≠ none → state.contents path ≠ none
  marks : ∀ path, state.marks path = true → next.marks path = true
  names : ∀ folder, (state.folders folder).names ⊆ (next.folders folder).names
  indexed : ∀ folder, (next.folders folder).indexed = (state.folders folder).indexed

theorem Walks.gentle (walks : Walks state index) (gentle : Gentle state next) :
    Walks next index := by
  intro names isRest path isFolder isRecord
  rcases walks names isRest path isFolder (gentle.contents path isRecord) with isMarked | later
  · exact .inl (gentle.marks path isMarked)
  · exact .inr later

theorem Fits.gentle (fits : Fits state process) (gentle : Gentle state next) :
    Fits next process where
  counted path member := gentle.marks path (fits.counted path member)
  listed path member := gentle.names path.folder (fits.listed path member)
  emptied path member := by
    by_contra isRecord
    exact gentle.contents path isRecord (fits.emptied path member)
  noted := fits.noted
  walks index isIndex := (fits.walks index isIndex).gentle gentle

theorem Marked.changes (kept : Marked state) (gentle : Gentle state next)
    (isNext : next.processes = Function.update state.processes pid process)
    (sameIndexers : next.indexers = state.indexers) (fits : Fits next process) : Marked next where
  fits other := by
    rw [isNext]
    by_cases isPid : other = pid
    · rw [isPid, Function.update_self]
      exact fits
    · rw [Function.update_of_ne isPid]
      exact (kept.fits other).gentle gentle
  listed path isRecord := gentle.names path.folder (kept.listed path (gentle.contents path isRecord))
  indexed path isIndexed isRecord := by
    rw [gentle.indexed] at isIndexed
    exact gentle.marks path (kept.indexed path isIndexed (gentle.contents path isRecord))
  walks index member := by
    rw [sameIndexers] at member
    exact (kept.walks index member).gentle gentle

theorem Marked.stays (kept : Marked state) (gentle : Gentle state next)
    (sameProcesses : next.processes = state.processes)
    (indexers : ∀ index ∈ next.indexers, Walks next index) : Marked next where
  fits pid := by
    rw [sameProcesses]
    exact (kept.fits pid).gentle gentle
  listed path isRecord := gentle.names path.folder (kept.listed path (gentle.contents path isRecord))
  indexed path isIndexed isRecord := by
    rw [gentle.indexed] at isIndexed
    exact gentle.marks path (kept.indexed path isIndexed (gentle.contents path isRecord))
  walks := indexers

theorem gentle_same (contents : next.contents = state.contents) (marks : next.marks = state.marks)
    (folders : next.folders = state.folders) : Gentle state next where
  contents path isRecord := by rw [← contents]; exact isRecord
  marks path isMarked := by rw [marks]; exact isMarked
  names folder := by rw [folders]; exact .refl _
  indexed folder := by rw [folders]

theorem contents_setContent (state : State) (path other : Path) (content : Option Info) :
    (state.setContent path content).contents other =
      if other = path then content else state.contents other := Function.update_apply ..

theorem marks_setMark (state : State) (path other : Path) (mark : Bool) :
    (state.setMark path mark).marks other = if other = path then mark else state.marks other :=
  Function.update_apply ..

theorem folders_setFolder (state : State) (folder other : Str) (kept : Folder) :
    (state.setFolder folder kept).folders other =
      if other = folder then kept else state.folders other := Function.update_apply ..

theorem gentle_empty : Gentle state (state.setContent path none) where
  contents other isRecord := by
    rw [contents_setContent] at isRecord
    split at isRecord
    · exact absurd rfl isRecord
    · exact isRecord
  marks _ isMarked := isMarked
  names _ := .refl _
  indexed _ := rfl

theorem gentle_mark : Gentle state (state.setMark path true) where
  contents _ isRecord := isRecord
  marks other isMarked := by
    rw [marks_setMark]
    split
    · rfl
    · exact isMarked
  names _ := .refl _
  indexed _ := rfl

theorem gentle_folder {folder : Str} {kept : Folder}
    (names : (state.folders folder).names ⊆ kept.names)
    (indexed : kept.indexed = (state.folders folder).indexed) :
    Gentle state (state.setFolder folder kept) where
  contents _ isRecord := isRecord
  marks _ isMarked := isMarked
  names other := by
    rw [folders_setFolder]
    split
    · rename_i isFolder
      rw [isFolder]
      exact names
    · exact .refl _
  indexed other := by
    rw [folders_setFolder]
    split
    · rename_i isFolder
      rw [isFolder]
      exact indexed
    · rfl

theorem Marked.brings {info : Info} (kept : Marked state) (isMarked : state.marks path)
    (isListed : path.name ∈ (state.folders path.folder).names)
    (notEmptied : ∀ pid, path ∉ (state.processes pid).emptied) :
    Marked (state.setContent path (some info)) := by
  have walks : ∀ index, Walks state index → Walks (state.setContent path (some info)) index := by
    intro index walks names isRest other isFolder isRecord
    rw [contents_setContent] at isRecord
    split at isRecord
    · rename_i isPath
      rw [isPath]
      exact .inl isMarked
    · exact walks names isRest other isFolder isRecord
  constructor
  · intro pid
    refine ⟨(kept.fits pid).counted, (kept.fits pid).listed, ?_, (kept.fits pid).noted, ?_⟩
    · intro other member
      have otherPath : other ≠ path := fun same => notEmptied pid (same ▸ member)
      rw [contents_setContent, if_neg otherPath]
      exact (kept.fits pid).emptied other member
    · intro index isIndex
      exact walks index ((kept.fits pid).walks index isIndex)
  · intro other isRecord
    rw [contents_setContent] at isRecord
    split at isRecord
    · rename_i isPath
      rw [isPath]
      exact isListed
    · exact kept.listed other isRecord
  · intro other isIndexed isRecord
    rw [contents_setContent] at isRecord
    split at isRecord
    · rename_i isPath
      rw [isPath]
      exact isMarked
    · exact kept.indexed other isIndexed isRecord
  · intro index member
    exact walks index (kept.walks index member)

theorem Marked.unmarks (kept : Marked state) (isEmpty : state.contents path = none)
    (notCounted : ∀ pid, path ∉ (state.processes pid).marked) :
    Marked (state.setMark path false) := by
  have stays : ∀ other, state.contents other ≠ none → state.marks other →
      (state.setMark path false).marks other = true := by
    intro other isRecord isMarked
    rw [marks_setMark, if_neg]
    · exact isMarked
    · rintro rfl
      exact isRecord isEmpty
  have walks : ∀ index, Walks state index → Walks (state.setMark path false) index := by
    intro index walks names isRest other isFolder isRecord
    rcases walks names isRest other isFolder isRecord with isMarked | later
    · exact .inl (stays other isRecord isMarked)
    · exact .inr later
  constructor
  · intro pid
    refine ⟨?_, (kept.fits pid).listed, (kept.fits pid).emptied, (kept.fits pid).noted, ?_⟩
    · intro other member
      have otherPath : other ≠ path := fun same => notCounted pid (same ▸ member)
      rw [marks_setMark, if_neg otherPath]
      exact (kept.fits pid).counted other member
    · intro index isIndex
      exact walks index ((kept.fits pid).walks index isIndex)
  · exact kept.listed
  · intro other isIndexed isRecord
    exact stays other isRecord (kept.indexed other isIndexed isRecord)
  · intro index member
    exact walks index (kept.walks index member)

/-! ### A step of an index -/

theorem Marked.indexes (kept : Marked state) (walks : Walks state index)
    (isDone : index.rest = some []) (notMarking : index.marking = none) :
    Marked (state.setFolder index.folder { state.folders index.folder with indexed := true }) := by
  have names : ∀ folder, (((state.setFolder index.folder
      { state.folders index.folder with indexed := true }).folders folder).names) =
        (state.folders folder).names := by
    intro folder
    rw [folders_setFolder]
    split
    · rename_i isFolder
      rw [isFolder]
    · rfl
  constructor
  · intro pid
    refine ⟨(kept.fits pid).counted, ?_, (kept.fits pid).emptied, (kept.fits pid).noted,
      (kept.fits pid).walks⟩
    intro path member
    rw [names]
    exact (kept.fits pid).listed path member
  · intro path isRecord
    rw [names]
    exact kept.listed path isRecord
  · intro path isIndexed isRecord
    by_cases isFolder : path.folder = index.folder
    · rcases walks [] isDone path isFolder isRecord with isMarked | isLater | isMarking
      · exact isMarked
      · cases isLater
      · rw [notMarking] at isMarking
        cases isMarking
    · rw [folders_setFolder, if_neg isFolder] at isIndexed
      exact kept.indexed path isIndexed isRecord
  · exact kept.walks

theorem marked_index (kept : Marked state) (walks : Walks state index) :
    Marked (index.step state).1 ∧
      ∀ further ∈ (index.step state).2, Walks (index.step state).1 further := by
  obtain ⟨folder, rest, marking⟩ := index
  unfold Index.step
  dsimp only
  split
  · rename_i name
    have gentle := @gentle_mark state ⟨folder, name⟩
    refine ⟨kept.stays gentle rfl (fun index member => (kept.walks index member).gentle gentle), ?_⟩
    rintro further ⟨⟩ names isRest path isFolder isRecord
    rcases walks names isRest path isFolder isRecord with isMarked | isLater | isMarking
    · exact .inl (gentle.marks path isMarked)
    · exact .inr (.inl isLater)
    · left
      rw [marks_setMark, if_pos]
      injection isMarking with isName
      cases path
      cases isFolder
      cases isName
      rfl
  · refine ⟨kept, ?_⟩
    rintro further ⟨⟩ names ⟨⟩ path isFolder isRecord
    have isListed := kept.listed path isRecord
    rw [isFolder] at isListed
    exact .inr (.inl isListed)
  · rename_i name later
    refine ⟨kept, ?_⟩
    rintro further ⟨⟩ names ⟨⟩ path isFolder isRecord
    rcases walks _ rfl path isFolder isRecord with isMarked | isLater | isMarking
    · exact .inl isMarked
    · rcases mem_cons.mp isLater with isName | isLater
      · right
        right
        have isPath : (⟨folder, name⟩ : Path) = path := by
          cases path
          cases isFolder
          cases isName
          rfl
        rw [isPath, if_pos (Option.isSome_iff_ne_none.mpr isRecord), isName]
      · exact .inr (.inl isLater)
    · cases isMarking
  · refine ⟨kept.indexes walks rfl rfl, ?_⟩
    rintro further ⟨⟩

/-! ### Whose a lock file is -/

theorem claim_unique {claim other : Claim} {also : Nat} (owned : Owned state)
    (member : claim ∈ (state.processes pid).claims)
    (alsoMember : other ∈ (state.processes also).claims) (samePath : claim.path = other.path) :
    pid = also ∧ claim.fd = other.fd := by
  have locked := owned.own pid claim member
  have lockedToo := owned.own also other alsoMember
  rw [samePath, lockedToo, Option.some_inj, Owner.holder.injEq] at locked
  exact ⟨locked.1.symm, locked.2.symm⟩

theorem mem_claims_held (member : hold ∈ process.held) : hold.claim ∈ process.claims :=
  mem_append_left _ (mem_append_left _ (mem_map_of_mem member))

theorem mem_claims_leaving {leaving : Leaving} (member : leaving ∈ process.leaving)
    (locked : leaving.stage.locked) : leaving.claim ∈ process.claims := by
  refine mem_append_left _ (mem_append_right _ ?_)
  exact mem_map_of_mem (mem_filter.mpr ⟨member, locked⟩)

theorem held_not_leaving (tidy : Tidy process) {leaving : Leaving} (isHeld : hold ∈ process.held)
    (isLeaving : leaving ∈ process.leaving) : hold.fd ≠ leaving.fd := by
  have books := (nodup_append.mp tidy.distinct).1
  exact (nodup_append.mp books).2.2 _ (mem_map_of_mem isHeld) _
    (mem_map_of_mem isLeaving)

theorem held_not_acquiring (tidy : Tidy process) (isHeld : hold ∈ process.held)
    (isAcquiring : process.acquiring? = some acquiring) : hold.fd ≠ acquiring.fd := by
  have apart := (nodup_append.mp tidy.distinct).2.2
  rw [isAcquiring] at apart
  exact apart _ (mem_append_left _ (mem_map_of_mem isHeld)) _ (.head _)

theorem leaving_not_acquiring (tidy : Tidy process) {leaving : Leaving}
    (isLeaving : leaving ∈ process.leaving) (isAcquiring : process.acquiring? = some acquiring) :
    leaving.fd ≠ acquiring.fd := by
  have apart := (nodup_append.mp tidy.distinct).2.2
  rw [isAcquiring] at apart
  exact apart _ (mem_append_right _ (mem_map_of_mem isLeaving)) _ (.head _)

theorem not_emptied {claim : Claim} (owned : Owned state)
    (member : claim ∈ (state.processes pid).claims)
    (notLeaving : ∀ leaving ∈ (state.processes pid).leaving, claim.fd ≠ leaving.fd) (other : Nat) :
    claim.path ∉ (state.processes other).emptied := by
  intro isEmptied
  obtain ⟨leaving, isLeaving, samePath⟩ := mem_map.mp isEmptied
  obtain ⟨isLeaving, isStage⟩ := mem_filter.mp isLeaving
  have locked : leaving.stage.locked := by
    cases isAt : leaving.stage with
    | unmarking => rfl
    | _ => simp [isAt, LeaveStage.emptied] at isStage
  obtain ⟨rfl, sameFd⟩ := claim_unique owned member (mem_claims_leaving isLeaving locked)
    samePath.symm
  exact notLeaving leaving isLeaving sameFd

theorem Stage.locked_of_marked {stage : Stage} (isMarked : stage.marked) : stage.locked := by
  cases stage <;> first | rfl | cases isMarked

theorem not_counted {leaving : Leaving} (owned : Owned state)
    (isLeaving : leaving ∈ (state.processes pid).leaving) (locked : leaving.stage.locked)
    (other : Nat) : leaving.key.path ∉ (state.processes other).marked := by
  have tidy := owned.tidy pid
  have isClaim := mem_claims_leaving isLeaving locked
  intro isMarked
  rcases mem_append.mp isMarked with isHeld | isAcquiring
  · obtain ⟨hold, isHeld, samePath⟩ := mem_map.mp isHeld
    obtain ⟨rfl, sameFd⟩ := claim_unique owned isClaim (mem_claims_held isHeld) samePath.symm
    exact held_not_leaving tidy isHeld isLeaving sameFd.symm
  · obtain ⟨acquiring, isAcquiring, samePath⟩ := mem_map.mp isAcquiring
    rw [Option.mem_toList] at isAcquiring
    obtain ⟨isAcquiring, isStage⟩ := Option.filter_eq_some_iff.mp isAcquiring
    have isOwn : acquiring.claim ∈ (state.processes other).claims := by
      refine mem_append_right _ (mem_map_of_mem ?_)
      rw [Option.mem_toList]
      exact Option.filter_eq_some_iff.mpr ⟨isAcquiring, Stage.locked_of_marked isStage⟩
    obtain ⟨rfl, sameFd⟩ := claim_unique owned isClaim isOwn samePath.symm
    exact leaving_not_acquiring tidy isLeaving isAcquiring sameFd

/-! ### `acquire` -/

theorem marked_setLock {lock : Flock Owner} (kept : Marked state) :
    Marked (state.setLock path lock) :=
  kept.stays (gentle_same rfl rfl rfl) rfl kept.walks

theorem marked_empty (kept : Marked state) : Marked (state.setContent path none) :=
  kept.stays gentle_empty rfl (fun index member => (kept.walks index member).gentle gentle_empty)

theorem marked_mark (kept : Marked state) : Marked (state.setMark path true) :=
  kept.stays gentle_mark rfl (fun index member => (kept.walks index member).gentle gentle_mark)

theorem marked_kept {records : List Info} {folder : Str} (kept : Marked state) :
    Marked (state.setFolder folder { state.folders folder with kept := records }) := by
  have gentle : Gentle state
      (state.setFolder folder { state.folders folder with kept := records }) :=
    gentle_folder (.refl _) rfl
  exact kept.stays gentle rfl (fun index member => (kept.walks index member).gentle gentle)

theorem fits_leave (fits : Fits state process) : Fits state { process with critical := none } where
  counted path member := by
    apply fits.counted path
    rcases mem_append.mp member with isHeld | isNone
    · exact mem_append_left _ isHeld
    · cases isNone
  listed path member := by
    apply fits.listed path
    rcases mem_append.mp member with isHeld | isNone
    · exact mem_append_left _ isHeld
    · cases isNone
  emptied := fits.emptied
  noted key member := by cases member
  walks index isIndex := by cases isIndex

theorem marked_leave (kept : Marked state) : Marked (leave state pid) :=
  kept.changes (gentle_same rfl rfl rfl) rfl rfl
    ((fits_leave (kept.fits pid)).gentle (gentle_same rfl rfl rfl))

theorem fits_onTo {stage : Stage} (fits : Fits state process)
    (isCritical : process.critical = some (.acquiring acquiring))
    (isMarked : stage.marked → state.marks acquiring.key.path)
    (walks : ∀ index, stage = .indexing index → Walks state index) :
    Fits state
      { process with critical := some (.acquiring { acquiring with stage := stage }) } where
  counted path member := by
    rcases mem_append.mp member with isHeld | isOwn
    · exact fits.counted path (mem_append_left _ isHeld)
    · obtain ⟨one, isOne, rfl⟩ := mem_map.mp isOwn
      rw [Option.mem_toList] at isOne
      obtain ⟨same, isStage⟩ := Option.filter_eq_some_iff.mp isOne
      cases same
      exact isMarked isStage
  listed path member := by
    apply fits.listed path
    rcases mem_append.mp member with isHeld | isOwn
    · exact mem_append_left _ isHeld
    · apply mem_append_right
      rw [acquiring?_some isCritical]
      exact isOwn
  emptied := fits.emptied
  noted key member := by cases member
  walks index isIndex := by
    cases stage with
    | indexing one =>
      cases isIndex
      exact walks index rfl
    | _ => cases isIndex

theorem marked_onTo {stage : Stage} (kept : Marked state)
    (isCritical : (state.processes pid).critical = some (.acquiring acquiring))
    (isMarked : stage.marked → state.marks acquiring.key.path)
    (walks : ∀ index, stage = .indexing index → Walks state index) :
    Marked (onTo state pid acquiring stage) :=
  kept.changes (gentle_same rfl rfl rfl) rfl rfl
    ((fits_onTo (kept.fits pid) isCritical isMarked walks).gentle (gentle_same rfl rfl rfl))

theorem acquiring_marked (kept : Marked state)
    (isCritical : (state.processes pid).critical = some (.acquiring acquiring))
    (isStage : acquiring.stage.marked) : state.marks acquiring.key.path := by
  apply (kept.fits pid).counted
  apply mem_append_right
  refine mem_map.mpr ⟨acquiring, ?_, rfl⟩
  rw [Option.mem_toList]
  exact Option.filter_eq_some_iff.mpr ⟨acquiring?_some isCritical, isStage⟩

theorem acquiring_listed (kept : Marked state)
    (isCritical : (state.processes pid).critical = some (.acquiring acquiring)) :
    acquiring.key.path.name ∈ (state.folders acquiring.key.path.folder).names := by
  apply (kept.fits pid).listed
  apply mem_append_right
  rw [acquiring?_some isCritical]
  exact .head _

theorem fits_insert (fits : Fits state process)
    (isCritical : process.critical = some (.acquiring acquiring))
    (isStage : acquiring.stage.marked) :
    Fits state { process with
      held := process.held ++ [⟨acquiring.key, acquiring.fd, 1, acquiring.thread, acquiring.info⟩]
      critical := none } := by
  have isAcquiring := acquiring?_some isCritical
  have paths : ∀ path, path ∈ process.held.map (fun hold => hold.key.path) ++
      [acquiring.key.path] ↔ path ∈ process.files := by
    intro path
    unfold Process.files
    rw [isAcquiring]
    rfl
  have marked : process.marked = process.files := by
    unfold Process.marked Process.files
    rw [isAcquiring]
    simp [isStage]
  constructor
  · intro path member
    apply fits.counted path
    rw [marked, ← paths]
    simpa [Process.marked, Process.acquiring?] using member
  · intro path member
    apply fits.listed path
    rw [← paths]
    simpa [Process.files, Process.acquiring?] using member
  · exact fits.emptied
  · intro key member
    cases member
  · intro index isIndex
    cases isIndex

theorem marked_acquireStep {fails : Bool} (owned : Owned state) (kept : Marked state)
    (isCritical : (state.processes pid).critical = some (.acquiring acquiring)) :
    Marked (acquireStep state pid acquiring fails) := by
  have marked := acquiring_marked kept isCritical
  have goes {stage : Stage} (isMarked : stage.marked → acquiring.stage.marked)
      (notIndexing : ∀ index, stage ≠ .indexing index) : Marked (onTo state pid acquiring stage) :=
    marked_onTo kept isCritical (fun isStage => marked (isMarked isStage))
      (fun index isStage => absurd isStage (notIndexing index))
  rcases acquireStep_cases state pid acquiring fails with
    ⟨next, stage, turns, isStep⟩ | ⟨-, isStage, isStep⟩
  · rw [isStep]
    cases turns with
    | raises _ => exact marked_leave kept
    | takes tries lock _ _ =>
      exact marked_onTo (marked_setLock kept) isCritical nofun
        (fun index isStage => by cases isStage)
    | unlocks _ => exact marked_leave (marked_setLock kept)
    | begins _ _ =>
      refine marked_onTo kept isCritical nofun ?_
      rintro index ⟨⟩ names ⟨⟩
    | indexes index isStage =>
      have walks : Walks state index := by
        apply (kept.fits pid).walks
        unfold Process.index?
        rw [acquiring?_some isCritical]
        simp [isStage]
      have indexed := marked_index kept walks
      have sameCritical := isCritical
      rw [← (index_frame state index).1] at sameCritical
      cases isFurther : (index.step state).2 with
      | none =>
        exact marked_onTo indexed.1 sameCritical nofun (fun index isStage => by cases isStage)
      | some further =>
        refine marked_onTo indexed.1 sameCritical nofun ?_
        rintro one ⟨⟩
        exact indexed.2 _ isFurther
    | marks _ =>
      refine marked_onTo (marked_mark kept) isCritical (fun _ => ?_)
        (fun index isStage => by cases isStage)
      rw [marks_setMark, if_pos rfl]
    | looks isStage =>
      cases state.contents acquiring.key.path with
      | none | some left => exact goes (fun _ => by rw [isStage]; rfl) (fun _ => by simp)
    | keeps left isStage =>
      exact marked_onTo (marked_kept kept) isCritical (fun _ => marked (by rw [isStage]; rfl))
        (fun index isStage => by cases isStage)
    | empties isStage =>
      exact marked_onTo (marked_empty kept) isCritical (fun _ => marked (by rw [isStage]; rfl))
        (fun index isStage => by cases isStage)
    | writes isStage =>
      have isMarked := marked (by rw [isStage]; rfl)
      refine marked_onTo (kept.brings isMarked (acquiring_listed kept isCritical) ?_) isCritical
        (fun _ => isMarked) (fun index isStage => by cases isStage)
      have isClaim := mem_claims_acquiring isCritical (by rw [isStage]; rfl)
      refine not_emptied owned isClaim ?_
      intro leaving isLeaving same
      exact leaving_not_acquiring (owned.tidy pid) isLeaving (acquiring?_some isCritical) same.symm
    | finds _ _ _ | retries _ _ _ | asks _ _ | skips _ _ =>
      exact goes nofun (fun _ => by simp)
    | forgets _ isStage => exact goes (fun _ => by rw [isStage]; rfl) (fun _ => by simp)
  · rw [isStep]
    have fits := fits_insert (kept.fits pid) isCritical (by rw [isStage]; rfl)
    exact kept.changes (gentle_same rfl rfl rfl) rfl rfl (fits.gentle (gentle_same rfl rfl rfl))

/-! ### `note` -/

theorem fits_holds {held : List Hold} {critical : Option Critical} (fits : Fits state process)
    (sameKeys : held.map Hold.key = process.held.map Hold.key) (idle : process.acquiring? = none)
    (stays : Process.acquiring? { process with critical := critical } = none)
    (notes : Process.notes { process with critical := critical } ⊆ process.notes) :
    Fits state { process with held := held, critical := critical } := by
  have samePaths : held.map (fun hold => hold.key.path) =
      process.held.map (fun hold => hold.key.path) := by
    have mapped := congrArg (List.map Key.path) sameKeys
    rw [map_map, map_map] at mapped
    exact mapped
  have none_ : Process.acquiring? { process with held := held, critical := critical } = none := stays
  constructor
  · intro path member
    apply fits.counted path
    unfold Process.marked at member ⊢
    rw [none_, samePaths] at member
    rw [idle]
    exact member
  · intro path member
    apply fits.listed path
    unfold Process.files at member ⊢
    rw [none_, samePaths] at member
    rw [idle]
    exact member
  · exact fits.emptied
  · intro key member
    show key ∈ held.map Hold.key
    rw [sameKeys]
    exact fits.noted key (notes member)
  · intro index isIndex
    unfold Process.index? at isIndex
    rw [none_] at isIndex
    cases isIndex

theorem marked_noteStep {noting : Noting} {fails : Bool} (owned : Owned state) (kept : Marked state)
    (isCritical : (state.processes pid).critical = some (.noting noting)) :
    Marked (noteStep state pid noting fails) := by
  have idle : (state.processes pid).acquiring? = none := by
    unfold Process.acquiring?
    rw [isCritical]
  have isNotes : (state.processes pid).notes = noting.writing.toList ++ noting.rest := by
    unfold Process.notes
    rw [isCritical]
  have goes {next : State} {held : List Hold} {further : Option Noting} (kept : Marked next)
      (sameProcesses : next.processes = state.processes)
      (sameKeys : held.map Hold.key = (state.processes pid).held.map Hold.key)
      (fewer : Process.notes { state.processes pid with critical := further.map .noting } ⊆
        noting.writing.toList ++ noting.rest) :
      Marked (next.setProcess pid { state.processes pid with
        held := held
        critical := further.map .noting }) := by
    rw [← sameProcesses] at idle isNotes sameKeys fewer ⊢
    rw [← isNotes] at fewer
    refine kept.changes (gentle_same rfl rfl rfl) rfl rfl
      (Fits.gentle (fits_holds (kept.fits pid) sameKeys idle ?_ fewer) (gentle_same rfl rfl rfl))
    cases further <;> rfl
  have amended (key : Key) : (amend Hold.key key
      (fun hold => { hold with info := hold.info.noted noting.step_ noting.now })
      (state.processes pid).held).map Hold.key = (state.processes pid).held.map Hold.key :=
    Log.amend_map (fun _ => by rfl) _
  obtain ⟨next, held, further, notes, isStep⟩ := noteStep_cases state pid noting fails
  rw [isStep]
  cases notes with
  | writes key hold isWriting isFound =>
    obtain ⟨isHeld, isKey⟩ := find_some isFound
    have isMarked : state.marks key.path := by
      apply (kept.fits pid).counted
      apply mem_append_left
      exact mem_map.mpr ⟨hold, isHeld, by rw [isKey]⟩
    have isListed : key.path.name ∈ (state.folders key.path.folder).names := by
      apply (kept.fits pid).listed
      apply mem_append_left
      exact mem_map.mpr ⟨hold, isHeld, by rw [isKey]⟩
    have notEmptied : ∀ other, key.path ∉ (state.processes other).emptied := by
      rw [← isKey]
      apply not_emptied owned (mem_claims_held isHeld)
      intro leaving isLeaving
      exact held_not_leaving (owned.tidy pid) isHeld isLeaving
    exact goes (kept.brings isMarked isListed notEmptied) rfl rfl (subset_append_right _ _)
  | skips _ key _ _ => exact goes kept rfl rfl (subset_append_right _ _)
  | empties key rest isIdle isRest =>
    refine goes (marked_empty kept) rfl (amended key) ?_
    rw [isRest]
    exact subset_append_right _ _
  | fails key rest isIdle isRest =>
    refine goes kept rfl (amended key) ?_
    rw [isRest]
    exact List.Subset.trans (subset_cons_self _ _) (subset_append_right _ _)
  | ends _ _ => exact goes kept rfl rfl (nil_subset _)

/-! ### The other steps -/

theorem fits_leaving {leaving : List Leaving} (fits : Fits state process)
    (emptied : ∀ one ∈ leaving, one.stage.emptied →
      state.contents one.key.path = none ∨ one ∈ process.leaving) :
    Fits state { process with leaving := leaving } := by
  refine ⟨fits.counted, fits.listed, ?_, fits.noted, fits.walks⟩
  intro path member
  obtain ⟨one, isOne, rfl⟩ := mem_map.mp member
  obtain ⟨isOne, isStage⟩ := mem_filter.mp isOne
  rcases emptied one isOne isStage with isEmpty | before
  · exact isEmpty
  · exact fits.emptied _ (mem_map.mpr ⟨one, mem_filter.mpr ⟨before, isStage⟩, rfl⟩)

theorem marked_goes {leaving : Leaving} {earlier later : List Leaving} {stage : LeaveStage}
    (kept : Marked state) (isSplit : (state.processes pid).leaving = earlier ++ leaving :: later)
    (emptied : stage.emptied → state.contents leaving.key.path = none) :
    Marked (state.setProcess pid { state.processes pid with
      leaving := earlier ++ { leaving with stage := stage } :: later }) := by
  have same : Gentle state (state.setProcess pid { state.processes pid with
      leaving := earlier ++ { leaving with stage := stage } :: later }) := gentle_same rfl rfl rfl
  refine kept.changes same rfl rfl (Fits.gentle (fits_leaving (kept.fits pid) ?_) same)
  intro one member isStage
  rw [isSplit]
  rcases mem_append.mp member with isEarlier | isTail
  · exact .inr (mem_append_left _ isEarlier)
  · rcases mem_cons.mp isTail with rfl | isLater
    · exact .inl (emptied isStage)
    · exact .inr (mem_append_right _ (.tail _ isLater))

theorem marked_closed {leaving : Leaving} {earlier later : List Leaving} (kept : Marked state)
    (isSplit : (state.processes pid).leaving = earlier ++ leaving :: later) :
    Marked (state.setProcess pid { state.processes pid with leaving := earlier ++ later }) := by
  have same : Gentle state (state.setProcess pid
      { state.processes pid with leaving := earlier ++ later }) := gentle_same rfl rfl rfl
  refine kept.changes same rfl rfl (Fits.gentle (fits_leaving (kept.fits pid) ?_) same)
  intro one member _
  rw [isSplit]
  rcases mem_append.mp member with isEarlier | isLater
  · exact .inr (mem_append_left _ isEarlier)
  · exact .inr (mem_append_right _ (.tail _ isLater))

theorem marked_leaveStep {place : Nat} {leaving : Leaving} {fails : Bool} (owned : Owned state)
    (kept : Marked state) (isThere : (state.processes pid).leaving[place]? = some leaving) :
    Marked (leaveStep state pid place leaving fails) := by
  obtain ⟨earlier, later, isSplit, erased, isSet⟩ := leaving_split isThere
  have isLeaving : leaving ∈ (state.processes pid).leaving := mem_of_getElem? isThere
  obtain ⟨next, stage, leaves, isStep⟩ := leaveStep_cases state pid place leaving fails
  rw [isStep]
  cases leaves with
  | gives stage isStage isLate =>
    rw [left, isSet]
    refine marked_goes kept isSplit (fun isEmptied => ?_)
    rcases isLate with rfl | ⟨-, rfl⟩ <;> cases isEmptied
  | empties _ =>
    rw [left, isSet]
    refine marked_goes (marked_empty kept) isSplit (fun _ => ?_)
    rw [contents_setContent, if_pos rfl]
  | unmarks isStage =>
    rw [left, isSet]
    have isEmpty : state.contents leaving.key.path = none := by
      apply (kept.fits pid).emptied
      refine mem_map.mpr ⟨leaving, mem_filter.mpr ⟨isLeaving, ?_⟩, rfl⟩
      rw [isStage]
      rfl
    have notCounted := not_counted owned isLeaving (by rw [isStage]; rfl)
    exact marked_goes (kept.unmarks isEmpty notCounted) isSplit (by simp [LeaveStage.emptied])
  | unlocks _ =>
    rw [left, isSet]
    exact marked_goes (marked_setLock kept) isSplit (by simp [LeaveStage.emptied])
  | closes _ _ =>
    rw [left, erased]
    exact marked_closed (marked_setLock kept) isSplit

theorem fits_acquire (fits : Fits state process) (isStage : acquiring.stage = .locking 0)
    (isListed : acquiring.key.path.name ∈ (state.folders acquiring.key.path.folder).names)
    (opened : Nat) :
    Fits state { process with critical := some (.acquiring acquiring), opened := opened } := by
  constructor
  · intro path member
    apply fits.counted path
    rcases mem_append.mp member with isHeld | isOwn
    · exact mem_append_left _ isHeld
    · simp [Process.acquiring?, isStage, Stage.marked] at isOwn
  · intro path member
    rcases mem_append.mp member with isHeld | isOwn
    · exact fits.listed path (mem_append_left _ isHeld)
    · have isPath : path = acquiring.key.path := by
        simpa [Process.acquiring?] using isOwn
      rw [isPath]
      exact isListed
  · exact fits.emptied
  · intro key member
    cases member
  · intro index isIndex
    simp [Process.index?, Process.acquiring?, isStage] at isIndex

theorem marked_amend {change : Hold → Hold} (kept : Marked state)
    (idle : (state.processes pid).critical = none)
    (keeps : ∀ hold, (change hold).key = hold.key ∧ (change hold).fd = hold.fd) :
    Marked (state.setProcess pid { state.processes pid with
      held := amend Hold.key key change (state.processes pid).held }) := by
  have sameKeys := (amend_fields key (state.processes pid).held keeps).1
  have fits := @fits_holds _ _ _ ((state.processes pid).critical) (kept.fits pid) sameKeys
    (acquiring?_none idle) (acquiring?_none idle) (.refl _)
  exact kept.changes (gentle_same rfl rfl rfl) rfl rfl (fits.gentle (gentle_same rfl rfl rfl))

theorem fits_pop (fits : Fits state process) (idle : process.critical = none) (fd : Nat) :
    Fits state { process with
      held := process.held.filter (fun other => other.key ≠ key)
      leaving := process.leaving ++ [⟨key, fd, .emptying⟩] } := by
  have fewer : process.held.filter (fun other => other.key ≠ key) ⊆ process.held :=
    filter_sublist.subset
  constructor
  · intro path member
    apply fits.counted path
    rcases mem_append.mp member with isHeld | isOwn
    · exact mem_append_left _ (map_subset _ fewer isHeld)
    · exact mem_append_right _ isOwn
  · intro path member
    apply fits.listed path
    rcases mem_append.mp member with isHeld | isOwn
    · exact mem_append_left _ (map_subset _ fewer isHeld)
    · exact mem_append_right _ isOwn
  · intro path member
    apply fits.emptied path
    simpa [Process.emptied, LeaveStage.emptied] using member
  · intro key member
    simp [Process.notes, idle] at member
  · exact fits.walks

theorem fits_idle (opened : Nat) : Fits state { Process.idle with opened := opened } := by
  constructor
  · intro path member
    cases member
  · intro path member
    cases member
  · intro path member
    cases member
  · intro key member
    cases member
  · intro index isIndex
    cases isIndex

theorem fits_note (fits : Fits state process) (idle : process.critical = none) (step_ : Str)
    (now : Heal.Clock) (thread : Nat) (device : Option Str) :
    Fits state { process with
      critical := some (.noting ⟨step_, now, none, process.noted thread device⟩) } := by
  have none_ := acquiring?_none idle
  constructor
  · intro path member
    apply fits.counted path
    unfold Process.marked at member ⊢
    rw [none_]
    exact member
  · intro path member
    apply fits.listed path
    unfold Process.files at member ⊢
    rw [none_]
    exact member
  · exact fits.emptied
  · intro key member
    exact (filter_sublist.map Hold.key).subset member
  · intro index isIndex
    cases isIndex

theorem index_indexers (state : State) (index : Index) :
    (index.step state).1.indexers = state.indexers := by
  unfold Index.step
  split <;> rfl

theorem marked_opens {names : List Str} (kept : Marked state)
    (isMore : (state.folders key.path.folder).names ⊆ names) (isListed : key.path.name ∈ names)
    (isKey : acquiring.key = key) (isStage : acquiring.stage = .locking 0) (opened : Nat) :
    Marked ((state.setFolder key.path.folder
      { state.folders key.path.folder with names := names }).setProcess pid
        { state.processes pid with critical := some (.acquiring acquiring), opened := opened }) := by
  have gentle : Gentle state (state.setFolder key.path.folder
      { state.folders key.path.folder with names := names }) := gentle_folder isMore rfl
  have listed := kept.stays gentle rfl (fun index member => (kept.walks index member).gentle gentle)
  refine listed.changes (gentle_same rfl rfl rfl) rfl rfl (Fits.gentle
    (fits_acquire (listed.fits pid) isStage ?_ opened) (gentle_same rfl rfl rfl))
  rw [isKey, folders_setFolder, if_pos rfl]
  exact isListed

theorem marked_step (state : State) (event : Event) (owned : Owned state) (kept : Marked state) :
    Marked (step state event) := by
  have outcome := outcome_step state event
  generalize step state event = next at outcome ⊢
  cases outcome with
  | stays => exact kept
  | amends _ pid key change idle keeps =>
    exact marked_amend kept idle (fun hold => ⟨(keeps hold).1, (keeps hold).2.1⟩)
  | opens pid thread key asked names _ _ isMore isListed =>
    exact marked_opens kept isMore isListed rfl rfl _
  | acquires pid fails acquiring isCritical => exact marked_acquireStep owned kept isCritical
  | notes pid fails noting isCritical => exact marked_noteStep owned kept isCritical
  | pops pid thread key hold idle _ =>
    exact kept.changes (gentle_same rfl rfl rfl) rfl rfl
      ((fits_pop (kept.fits pid) idle hold.fd).gentle (gentle_same rfl rfl rfl))
  | leaves pid place fails leaving isThere => exact marked_leaveStep owned kept isThere
  | begins pid thread device step_ now idle =>
    have fits := fits_note (kept.fits pid) idle step_ now thread device
    exact kept.changes (gentle_same rfl rfl rfl) rfl rfl (fits.gentle (gentle_same rfl rfl rfl))
  | probes | unprobes => exact marked_setLock kept
  | indexers _ indexers isIndex =>
    refine kept.stays (gentle_same rfl rfl rfl) rfl (fun one isOne => ?_)
    rcases isIndex one isOne with before | ⟨folder, rfl⟩
    · exact kept.walks one before
    · rintro names ⟨⟩
  | indexes _ index indexers isIndex isMore =>
    have indexed := marked_index kept (kept.walks index isIndex)
    refine indexed.1.stays (gentle_same rfl rfl rfl) rfl (fun one isOne => ?_)
    rcases isMore one isOne with before | isNew
    · apply indexed.1.walks
      rw [index_indexers]
      exact before
    · exact indexed.2 _ isNew
  | dies pid => exact kept.changes (gentle_same rfl rfl rfl) rfl rfl (fits_idle _)

end Nmas.Holds
