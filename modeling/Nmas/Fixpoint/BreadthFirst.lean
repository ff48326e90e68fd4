import Mathlib.Data.List.Dedup
import Mathlib.Data.List.Induction
import Mathlib.Data.List.Nodup
import Mathlib.Data.List.Perm.Subperm
import Nmas.Log.Keyed

/-!
Contract: a search that visits what it finds in the order it found it.

Owns: the loop over a queue with a bound on its rounds, where each node found
keeps a mark made from its finder's; that the marks say nothing of where the
search goes, so that a smaller mark is the image of a larger one; that the
bound suffices where finitely many nodes are led to; and that a search marked
with the edges it came by finds every node there is a way to, by a shortest one.
-/

namespace Nmas.Fixpoint.BreadthFirst

open List

variable {Node Label Mark Other : Type} [DecidableEq Node]

/-- The nodes found with their marks, in the order they were found, and those of
them not visited yet. -/
structure Search (Node Mark : Type) where
  found : List (Node × Mark)
  queue : List Node

def Search.markOf (search : Search Node Mark) (node : Node) : Option Mark :=
  (search.found.find? (·.1 = node)).map Prod.snd

def discover (extend : Mark → Node × Label → Mark) (mark : Mark) (search : Search Node Mark)
    (edge : Node × Label) : Search Node Mark :=
  if edge.1 ∈ search.found.map Prod.fst then search
  else ⟨search.found ++ [(edge.1, extend mark edge)], search.queue ++ [edge.1]⟩

/-- A node visited: each of its edges taken in turn. -/
def visit (next : Node → List (Node × Label)) (extend : Mark → Node × Label → Mark) (here : Node)
    (search : Search Node Mark) : Search Node Mark :=
  match search.markOf here with
  | some mark => (next here).foldl (discover extend mark) search
  | none => search

def searchFrom (next : Node → List (Node × Label)) (extend : Mark → Node × Label → Mark) :
    (room : Nat) → Search Node Mark → Search Node Mark
  | 0, search => search
  | _ + 1, ⟨found, []⟩ => ⟨found, []⟩
  | room + 1, ⟨found, here :: rest⟩ =>
    searchFrom next extend room (visit next extend here ⟨found, rest⟩)

def IsPath (next : Node → List (Node × Label)) : Node → List (Node × Label) → Node → Prop
  | start, [], finish => start = finish
  | start, edge :: rest, finish => edge ∈ next start ∧ IsPath next edge.1 rest finish

def IsShortest (next : Node → List (Node × Label)) (start : Node) (path : List (Node × Label))
    (finish : Node) : Prop :=
  IsPath next start path finish ∧
    ∀ other, IsPath next start other finish → path.length ≤ other.length

variable {next : Node → List (Node × Label)} {start : Node}

omit [DecidableEq Node] in
theorem isPath_append_singleton {path : List (Node × Label)} {edge : Node × Label} {finish : Node} :
    IsPath next start (path ++ [edge]) finish ↔
      edge.1 = finish ∧ ∃ last, IsPath next start path last ∧ edge ∈ next last := by
  induction path generalizing start with
  | nil => simp [IsPath, and_comm]
  | cons first rest ih =>
    rw [cons_append, IsPath, ih]
    simp only [IsPath]
    tauto

theorem mem_queue_foldl {extend : Mark → Node × Label → Mark} {mark : Mark}
    {edges : List (Node × Label)} {search : Search Node Mark} {node : Node}
    (member : node ∈ (edges.foldl (discover extend mark) search).queue) :
    node ∈ search.queue ∨ ∃ edge ∈ edges, edge.1 = node := by
  induction edges generalizing search with
  | nil => exact .inl member
  | cons edge rest ih =>
    rw [foldl_cons] at member
    rcases ih member with before | ⟨other, isEdge, isNode⟩
    · unfold discover at before
      split at before
      · exact .inl before
      · rcases mem_append.mp before with old | isNew
        · exact .inl old
        · exact .inr ⟨edge, .head _, (mem_singleton.mp isNew).symm⟩
    · exact .inr ⟨other, .tail _ isEdge, isNode⟩

theorem mem_queue_visit {extend : Mark → Node × Label → Mark} {here node : Node}
    {search : Search Node Mark} (member : node ∈ (visit next extend here search).queue) :
    node ∈ search.queue ∨ ∃ edge ∈ next here, edge.1 = node := by
  unfold visit at member
  split at member
  · exact mem_queue_foldl member
  · exact .inl member

/-! ### Marks -/

section Marks

variable {extend : Mark → Node × Label → Mark} {extendOther : Other → Node × Label → Other}
  {image : Mark → Other}

def Search.mapMarks (image : Mark → Other) (search : Search Node Mark) : Search Node Other :=
  ⟨search.found.map (fun entry => (entry.1, image entry.2)), search.queue⟩

theorem markOf_mapMarks (search : Search Node Mark) (node : Node) :
    (search.mapMarks image).markOf node = (search.markOf node).map image := by
  unfold Search.markOf Search.mapMarks
  rw [List.find?_map, Option.map_map, Option.map_map]
  rfl

theorem discover_mapMarks
    (commutes : ∀ mark edge, image (extend mark edge) = extendOther (image mark) edge)
    (mark : Mark) (search : Search Node Mark) (edge : Node × Label) :
    discover extendOther (image mark) (search.mapMarks image) edge =
      (discover extend mark search edge).mapMarks image := by
  have sameNodes : (search.mapMarks image).found.map Prod.fst = search.found.map Prod.fst := by
    simp [Search.mapMarks]
  unfold discover
  rw [sameNodes]
  split
  · rfl
  · simp [Search.mapMarks, commutes]

theorem visit_mapMarks
    (commutes : ∀ mark edge, image (extend mark edge) = extendOther (image mark) edge)
    (here : Node) (search : Search Node Mark) :
    visit next extendOther here (search.mapMarks image) =
      (visit next extend here search).mapMarks image := by
  unfold visit
  rw [markOf_mapMarks]
  cases search.markOf here with
  | none => rfl
  | some mark =>
    show (next here).foldl (discover extendOther (image mark)) (search.mapMarks image) = _
    induction next here generalizing search with
    | nil => rfl
    | cons edge rest ih =>
      rw [foldl_cons, discover_mapMarks commutes, ih]
      rfl

/-- **The marks say nothing of where the search goes.** -/
theorem searchFrom_mapMarks
    (commutes : ∀ mark edge, image (extend mark edge) = extendOther (image mark) edge)
    (room : Nat) (search : Search Node Mark) :
    searchFrom next extendOther room (search.mapMarks image) =
      (searchFrom next extend room search).mapMarks image := by
  induction room generalizing search with
  | zero => rfl
  | succ room ih =>
    obtain ⟨found, queue⟩ := search
    cases queue with
    | nil => rfl
    | cons here rest =>
      show searchFrom next extendOther room (visit next extendOther here
        (Search.mapMarks image ⟨found, rest⟩)) = _
      rw [visit_mapMarks commutes, ih]
      rfl

end Marks

/-! ### Marked with paths -/

section Paths

def byPath (path : List (Node × Label)) (edge : Node × Label) : List (Node × Label) :=
  path ++ [edge]

theorem foldl_discover (extend : Mark → Node × Label → Mark) (mark : Mark)
    (edges : List (Node × Label)) {found : List (Node × Mark)} (queue : List Node)
    (distinct : (found.map Prod.fst).Nodup) :
    ∃ new : List (Node × Mark),
      edges.foldl (discover extend mark) ⟨found, queue⟩ =
          ⟨found ++ new, queue ++ new.map Prod.fst⟩ ∧
        ((found ++ new).map Prod.fst).Nodup ∧
        (∀ entry ∈ new, ∃ edge ∈ edges, edge.1 = entry.1 ∧ entry.2 = extend mark edge) ∧
        ∀ edge ∈ edges, edge.1 ∈ (found ++ new).map Prod.fst := by
  induction edges generalizing found queue with
  | nil => exact ⟨[], by simp [distinct]⟩
  | cons edge rest ih =>
    rw [foldl_cons]
    by_cases known : edge.1 ∈ found.map Prod.fst
    · have same : discover extend mark ⟨found, queue⟩ edge = ⟨found, queue⟩ := if_pos known
      obtain ⟨new, isResult, newDistinct, fromEdges, allFound⟩ := ih queue distinct
      rw [same]
      refine ⟨new, isResult, newDistinct, ?_, ?_⟩
      · intro entry member
        obtain ⟨other, isEdge, isEntry⟩ := fromEdges entry member
        exact ⟨other, .tail _ isEdge, isEntry⟩
      · rw [forall_mem_cons]
        refine ⟨?_, allFound⟩
        rw [map_append]
        exact mem_append_left _ known
    · have added : discover extend mark ⟨found, queue⟩ edge =
          ⟨found ++ [(edge.1, extend mark edge)], queue ++ [edge.1]⟩ := if_neg known
      have oneMore : ((found ++ [(edge.1, extend mark edge)]).map Prod.fst).Nodup := by
        rw [map_append, map_singleton, ← concat_eq_append]
        exact List.Nodup.concat known distinct
      obtain ⟨new, isResult, newDistinct, fromEdges, allFound⟩ := ih (queue ++ [edge.1]) oneMore
      rw [added, isResult]
      refine ⟨(edge.1, extend mark edge) :: new, ?_, ?_, ?_, ?_⟩
      · simp
      · rw [append_cons]
        exact newDistinct
      · rw [forall_mem_cons]
        refine ⟨⟨edge, .head _, rfl, rfl⟩, ?_⟩
        intro entry member
        obtain ⟨other, isEdge, isEntry⟩ := fromEdges entry member
        exact ⟨other, .tail _ isEdge, isEntry⟩
      · rw [append_cons, forall_mem_cons]
        refine ⟨?_, allFound⟩
        simp

structure Explored (next : Node → List (Node × Label)) (start : Node)
    (done pending : List (Node × List (Node × Label))) : Prop where
  distinct : ((done ++ pending).map Prod.fst).Nodup
  started : ∃ entry ∈ done ++ pending, entry.1 = start ∧ entry.2 = []
  paths : ∀ entry ∈ done ++ pending, IsPath next start entry.2 entry.1
  ordered : (done ++ pending).Pairwise (fun one other => one.2.length ≤ other.2.length)
  /-- No node waits that is more than an edge further than the next. -/
  near : ∀ first ∈ pending.head?, ∀ entry ∈ pending, entry.2.length ≤ first.2.length + 1
  /-- Where a visited node leads is found, no further than an edge on. -/
  closed : ∀ entry ∈ done, ∀ edge ∈ next entry.1, ∃ other ∈ done ++ pending,
    other.1 = edge.1 ∧ other.2.length ≤ entry.2.length + 1

omit [DecidableEq Node] in
theorem explored_start : Explored next start [] [(start, [])] where
  distinct := nodup_singleton _
  started := ⟨_, .head _, rfl, rfl⟩
  paths := by
    intro entry member
    rw [mem_singleton.mp member]
    exact rfl
  ordered := pairwise_singleton _ _
  near := by
    intro first isFirst entry member
    rw [mem_singleton.mp member]
    exact Nat.zero_le _
  closed := nofun

theorem markOf_pending {done pending : List (Node × Mark)} {entry : Node × Mark}
    {queue : List Node} (distinct : ((done ++ entry :: pending).map Prod.fst).Nodup) :
    (⟨done ++ entry :: pending, queue⟩ : Search Node Mark).markOf entry.1 = some entry.2 := by
  have isFound : (done ++ entry :: pending).find? (·.1 = entry.1) = some entry :=
    (Log.find_eq_some_iff distinct).mpr ⟨by simp, rfl⟩
  unfold Search.markOf
  rw [isFound]
  rfl

theorem visit_explored {done pending : List (Node × List (Node × Label))}
    {entry : Node × List (Node × Label)} (explored : Explored next start done (entry :: pending)) :
    ∃ new : List (Node × List (Node × Label)),
      visit next byPath entry.1 ⟨done ++ entry :: pending, pending.map Prod.fst⟩ =
          ⟨(done ++ [entry]) ++ (pending ++ new), (pending ++ new).map Prod.fst⟩ ∧
        (∀ other ∈ new, ∃ edge ∈ next entry.1, edge.1 = other.1) ∧
        Explored next start (done ++ [entry]) (pending ++ new) := by
  obtain ⟨new, isResult, distinct, fromEdges, allFound⟩ :=
    foldl_discover byPath entry.2 (next entry.1) (pending.map Prod.fst) explored.distinct
  have regrouped : (done ++ entry :: pending) ++ new = (done ++ [entry]) ++ (pending ++ new) := by
    simp
  have newLength : ∀ other ∈ new, other.2.length = entry.2.length + 1 := by
    intro other member
    obtain ⟨edge, _, _, isMark⟩ := fromEdges other member
    rw [isMark, byPath, length_append, length_singleton]
  have atMost : ∀ old ∈ done ++ entry :: pending, old.2.length ≤ entry.2.length + 1 := by
    intro old member
    rcases mem_append.mp member with visited | waiting
    · have before := (pairwise_append.mp explored.ordered).2.2 old visited entry (.head _)
      omega
    · exact explored.near entry rfl old waiting
  have notAfter : ∀ later ∈ pending, entry.2.length ≤ later.2.length :=
    (pairwise_cons.mp (pairwise_append.mp explored.ordered).2.1).1
  refine ⟨new, ?_, ?_, ?_⟩
  · unfold visit
    rw [markOf_pending explored.distinct, ← regrouped, map_append]
    exact isResult
  · intro other member
    obtain ⟨edge, isEdge, isNode, _⟩ := fromEdges other member
    exact ⟨edge, isEdge, isNode⟩
  · constructor
    · rw [← regrouped]
      exact distinct
    · obtain ⟨first, member, isFirst⟩ := explored.started
      rw [← regrouped]
      exact ⟨first, mem_append_left _ member, isFirst⟩
    · rw [← regrouped]
      intro other member
      rcases mem_append.mp member with old | isNew
      · exact explored.paths other old
      · obtain ⟨edge, isEdge, isNode, isMark⟩ := fromEdges other isNew
        rw [isMark]
        apply isPath_append_singleton.mpr
        exact ⟨isNode, entry.1, explored.paths entry (by simp), isEdge⟩
    · rw [← regrouped]
      apply pairwise_append.mpr
      refine ⟨explored.ordered, ?_, ?_⟩
      · apply pairwise_of_forall_mem_list
        intro one isOne other isOther
        exact Nat.le_of_eq ((newLength one isOne).trans (newLength other isOther).symm)
      · intro old member other isNew
        rw [newLength other isNew]
        exact atMost old member
    · intro first isFirst other member
      have longEnough : entry.2.length ≤ first.2.length := by
        rcases mem_append.mp (mem_of_mem_head? isFirst) with waiting | isNew
        · exact notAfter first waiting
        · rw [newLength first isNew]
          omega
      rcases mem_append.mp member with waiting | isNew
      · have old := atMost other (by simp [waiting])
        omega
      · rw [newLength other isNew]
        omega
    · rw [← regrouped]
      intro visited member edge isEdge
      rcases mem_append.mp member with before | isEntry
      · obtain ⟨other, isOther, reaches⟩ := explored.closed visited before edge isEdge
        exact ⟨other, mem_append_left _ isOther, reaches⟩
      · rw [mem_singleton.mp isEntry] at isEdge ⊢
        obtain ⟨other, isOther, isNode⟩ := mem_map.mp (allFound edge isEdge)
        refine ⟨other, isOther, isNode, ?_⟩
        rcases mem_append.mp isOther with old | isNew
        · exact atMost other old
        · exact Nat.le_of_eq (newLength other isNew)

/-- **The search ends**, where everything led to is one of `nodes`. -/
theorem searchFrom_explored {nodes : List Node}
    (within : ∀ node, ∀ edge ∈ next node, edge.1 ∈ nodes) {room : Nat}
    {done pending : List (Node × List (Node × Label))} (explored : Explored next start done pending)
    (inside : ∀ entry ∈ done ++ pending, entry.1 ∈ nodes)
    (enough : nodes.length ≤ done.length + room) :
    ∃ found, searchFrom next byPath room ⟨done ++ pending, pending.map Prod.fst⟩ = ⟨found, []⟩ ∧
      Explored next start found [] := by
  induction room generalizing done pending with
  | zero =>
    have sub : (done ++ pending).map Prod.fst ⊆ nodes := by
      intro node member
      obtain ⟨entry, isEntry, rfl⟩ := mem_map.mp member
      exact inside entry isEntry
    have few := (List.Nodup.subperm explored.distinct sub).length_le
    rw [length_map, length_append] at few
    have nothing : pending = [] := eq_nil_of_length_eq_zero (by omega)
    rw [nothing] at explored ⊢
    exact ⟨done ++ [], rfl, by rw [append_nil]; exact explored⟩
  | succ room ih =>
    cases pending with
    | nil => exact ⟨done ++ [], rfl, by rw [append_nil]; exact explored⟩
    | cons entry rest =>
      obtain ⟨new, isVisit, newReached, visited⟩ := visit_explored explored
      show ∃ found, searchFrom next byPath room (visit next byPath entry.1
        ⟨done ++ entry :: rest, rest.map Prod.fst⟩) = _ ∧ _
      rw [isVisit]
      apply ih visited
      · intro other member
        have regrouped : (done ++ [entry]) ++ (rest ++ new) =
            (done ++ entry :: rest) ++ new := by simp
        rw [regrouped] at member
        rcases mem_append.mp member with old | isNew
        · exact inside other old
        · obtain ⟨edge, isEdge, isNode⟩ := newReached other isNew
          rw [← isNode]
          exact within entry.1 edge isEdge
      · rw [length_append, length_singleton]
        omega

omit [DecidableEq Node] in
theorem Explored.found_of_isPath {found : List (Node × List (Node × Label))}
    (explored : Explored next start found []) {path : List (Node × Label)} {finish : Node}
    (isPath : IsPath next start path finish) :
    ∃ entry ∈ found, entry.1 = finish ∧ entry.2.length ≤ path.length := by
  induction path using List.reverseRecOn generalizing finish with
  | nil =>
    obtain ⟨entry, member, isStart, isEmpty⟩ := explored.started
    rw [append_nil] at member
    refine ⟨entry, member, isStart.trans isPath, ?_⟩
    simp [isEmpty]
  | append_singleton path edge ih =>
    obtain ⟨isFinish, last, before, isEdge⟩ := isPath_append_singleton.mp isPath
    obtain ⟨entry, member, isLast, short⟩ := ih before
    rw [← isLast] at isEdge
    obtain ⟨other, isOther, isNode, near⟩ := explored.closed entry member edge isEdge
    rw [append_nil] at isOther
    refine ⟨other, isOther, isNode.trans isFinish, ?_⟩
    rw [length_append, length_singleton]
    omega

/-- **What is found is what there is a way to, by a shortest one.** -/
theorem searchFrom_shortest {nodes : List Node}
    (within : ∀ node, ∀ edge ∈ next node, edge.1 ∈ nodes) (startInside : start ∈ nodes)
    {room : Nat} (enough : nodes.length ≤ room) :
    ∃ found, searchFrom next byPath room ⟨[(start, [])], [start]⟩ = ⟨found, []⟩ ∧
      (found.map Prod.fst).Nodup ∧
      (∀ entry ∈ found, IsShortest next start entry.2 entry.1) ∧
      ∀ path finish, IsPath next start path finish → finish ∈ found.map Prod.fst := by
  have inside : ∀ entry ∈ [] ++ [(start, ([] : List (Node × Label)))], entry.1 ∈ nodes := by
    intro entry member
    rw [mem_singleton.mp member]
    exact startInside
  obtain ⟨found, isEnd, explored⟩ := searchFrom_explored within explored_start inside
    (by simpa using enough)
  have distinct := explored.distinct
  rw [append_nil] at distinct
  refine ⟨found, isEnd, distinct, ?_, ?_⟩
  · intro entry member
    refine ⟨explored.paths entry (by simp [member]), ?_⟩
    intro other isOther
    obtain ⟨same, sameMember, isNode, short⟩ := explored.found_of_isPath isOther
    rw [inj_on_of_nodup_map distinct sameMember member isNode] at short
    exact short
  · intro path finish isPath
    obtain ⟨entry, member, isNode, _⟩ := explored.found_of_isPath isPath
    exact mem_map.mpr ⟨entry, member, isNode⟩

end Paths

end Nmas.Fixpoint.BreadthFirst
