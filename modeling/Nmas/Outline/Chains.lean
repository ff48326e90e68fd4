import Mathlib.Data.List.Infix
import Mathlib.Data.List.TakeWhile

/-!
Contract: reading an outline by indentation.

A line sits under the nearest preceding lines of smaller indentation. `chains`
computes that for a list of indented values with one stack, and this module
owns what every such reading satisfies: each ancestor chain is made of lines
that were themselves read under the chain's shorter prefix, and indentation
grows strictly along a chain and into the line it belongs to.

Nothing here knows what the values are.
-/

namespace Nmas.Outline

open List

variable {α : Type*}

/-- What is still open when a line of indentation `depth` arrives, innermost
first: everything at least as deep has closed. -/
def closeTo (depth : Nat) (stack : List (Nat × α)) : List (Nat × α) :=
  stack.dropWhile (fun entry => depth ≤ entry.1)

def ancestors (stack : List (Nat × α)) : List α := (stack.map Prod.snd).reverse

def chainsFrom (stack : List (Nat × α)) : List (Nat × α) → List (α × List α)
  | [] => []
  | (depth, value) :: rest =>
    (value, ancestors (closeTo depth stack)) ::
      chainsFrom ((depth, value) :: closeTo depth stack) rest

def chains (lines : List (Nat × α)) : List (α × List α) := chainsFrom [] lines

/-- The full path of an entry: its ancestors, then itself. -/
def path (entry : α × List α) : List α := entry.2 ++ [entry.1]

/-- The paths that some entry sits under. -/
def headers (entries : List (α × List α)) : List (List α) :=
  entries.flatMap (fun entry => entry.2.inits.tail)

@[simp] theorem ancestors_nil : ancestors ([] : List (Nat × α)) = [] := rfl

@[simp] theorem ancestors_cons (entry : Nat × α) (stack : List (Nat × α)) :
    ancestors (entry :: stack) = ancestors stack ++ [entry.2] := by
  simp [ancestors]

theorem closeTo_suffix (depth : Nat) (stack : List (Nat × α)) : closeTo depth stack <:+ stack :=
  dropWhile_suffix _

theorem chainsFrom_append (stack front : List (Nat × α)) :
    ∃ opened, ∀ rest,
      chainsFrom stack (front ++ rest) = chainsFrom stack front ++ chainsFrom opened rest := by
  induction front generalizing stack with
  | nil => exact ⟨stack, fun _ => rfl⟩
  | cons line front ih =>
    obtain ⟨depth, value⟩ := line
    obtain ⟨opened, isRead⟩ := ih ((depth, value) :: closeTo depth stack)
    refine ⟨opened, fun rest => ?_⟩
    rw [cons_append, chainsFrom, isRead, chainsFrom, cons_append]

/-! ### Lines that close everything -/

theorem chainsFrom_restart {lines : List (Nat × α)} (starts : ∀ line ∈ lines.head?, line.1 = 0)
    (stack other : List (Nat × α)) : chainsFrom stack lines = chainsFrom other lines := by
  cases lines with
  | nil => rfl
  | cons line rest =>
    obtain ⟨depth, value⟩ := line
    have isTop : depth = 0 := starts (depth, value) rfl
    have closed (opened : List (Nat × α)) : closeTo depth opened = [] := by
      rw [closeTo, dropWhile_eq_nil_iff]
      simp [isTop]
    rw [chainsFrom, chainsFrom, closed stack, closed other]

private theorem chainsFrom_children {header : α} {depth : Nat} (isDeep : 0 < depth)
    (children : List α) {opened : List (Nat × α)}
    (isOpened : closeTo depth opened = [(0, header)]) (rest : List (Nat × α)) :
    ∃ stack, chainsFrom opened (children.map (fun child => (depth, child)) ++ rest) =
      children.map (fun child => (child, [header])) ++ chainsFrom stack rest := by
  induction children generalizing opened with
  | nil => exact ⟨opened, rfl⟩
  | cons child children ih =>
    have next : closeTo depth ((depth, child) :: [(0, header)]) = [(0, header)] := by
      have notClosed : ¬ depth ≤ 0 := Nat.not_le.mpr isDeep
      simp [closeTo, notClosed]
    obtain ⟨stack, isRead⟩ := ih next
    refine ⟨stack, ?_⟩
    rw [map_cons, cons_append, chainsFrom, isOpened, isRead]
    rfl

theorem chainsFrom_stanza {header : α} {depth : Nat} (isDeep : 0 < depth) (children : List α)
    {rest : List (Nat × α)} (starts : ∀ line ∈ rest.head?, line.1 = 0)
    (stack other : List (Nat × α)) :
    chainsFrom stack ((0, header) :: (children.map (fun child => (depth, child)) ++ rest)) =
      (header, []) :: (children.map (fun child => (child, [header])) ++ chainsFrom other rest) := by
  have closed : closeTo 0 stack = [] := by
    rw [closeTo, dropWhile_eq_nil_iff]
    simp
  have isOpened : closeTo depth [(0, header)] = [(0, header)] := by
    have notClosed : ¬ depth ≤ 0 := Nat.not_le.mpr isDeep
    simp [closeTo, notClosed]
  obtain ⟨opened, isRead⟩ := chainsFrom_children isDeep children isOpened rest
  rw [chainsFrom, closed, isRead, chainsFrom_restart starts opened other]
  rfl

/-! ### The nearest preceding lines -/

/-- The nearest of the lines before, the last one first, that is less deep than
`below`; then the nearest one before it that is less deep than it; and so on. -/
def nearest (depth : α → Nat) (below : Nat) : List α → List α
  | [] => []
  | line :: earlier =>
    if depth line < below then line :: nearest depth (depth line) earlier
    else nearest depth below earlier

def openAfter (stack lines : List (Nat × α)) : List (Nat × α) :=
  lines.foldl (fun stack line => line :: closeTo line.1 stack) stack

theorem chainsFrom_concat (stack front : List (Nat × α)) (depth : Nat) (value : α) :
    chainsFrom stack (front ++ [(depth, value)]) =
      chainsFrom stack front ++ [(value, ancestors (closeTo depth (openAfter stack front)))] := by
  induction front generalizing stack with
  | nil => rfl
  | cons line front ih =>
    rw [cons_append, chainsFrom, ih, chainsFrom, cons_append]
    rfl

private theorem closeTo_closeTo {low high : Nat} (isLow : low ≤ high) (stack : List (Nat × α)) :
    closeTo low (closeTo high stack) = closeTo low stack := by
  induction stack with
  | nil => rfl
  | cons entry stack ih =>
    by_cases closes : high ≤ entry.1
    · simpa [closeTo, closes, isLow.trans closes] using ih
    · simp [closeTo, closes]

theorem closeTo_openAfter {β : Type*} (depth : β → Nat) (value : β → α) (below : Nat)
    (lines : List β) :
    closeTo below (openAfter [] (lines.map fun line => (depth line, value line))) =
      (nearest depth below lines.reverse).map fun line => (depth line, value line) := by
  induction lines using List.reverseRecOn generalizing below with
  | nil => rfl
  | append_singleton lines line ih =>
    rw [map_append, map_singleton, openAfter, foldl_concat, ← openAfter,
      reverse_append, reverse_singleton, singleton_append, nearest]
    by_cases isAbove : depth line < below
    · have stays : ¬ below ≤ depth line := Nat.not_le.mpr isAbove
      rw [if_pos isAbove, map_cons, ← ih]
      simp [closeTo, stays]
    · have closes : below ≤ depth line := Nat.le_of_not_lt isAbove
      have again := closeTo_closeTo closes
        (openAfter [] (lines.map fun line => (depth line, value line)))
      rw [if_neg isAbove, ← ih]
      simpa [closeTo, closes] using again

theorem nearest_congr {depth other : α → Nat} {lines : List α}
    (same : ∀ line ∈ lines, depth line = other line) (below : Nat) :
    nearest depth below lines = nearest other below lines := by
  induction lines generalizing below with
  | nil => rfl
  | cons line earlier ih =>
    have later := ih fun old inside => same old (.tail _ inside)
    rw [nearest, nearest, same line mem_cons_self, later, later]

section LeftOut

variable {depth : α → Nat} {below : Nat} {lines : List α} {kept : α → Bool}

theorem nearest_filter (isKept : ∀ line ∈ nearest depth below lines, kept line) :
    nearest depth below (lines.filter kept) = nearest depth below lines := by
  induction lines generalizing below with
  | nil => rfl
  | cons line earlier ih =>
    rw [nearest] at isKept ⊢
    by_cases isAbove : depth line < below
    · rw [if_pos isAbove] at isKept ⊢
      rw [filter_cons_of_pos (isKept line mem_cons_self), nearest, if_pos isAbove,
        ih fun other inside => isKept other (.tail _ inside)]
    · rw [if_neg isAbove] at isKept ⊢
      cases isLine : kept line with
      | false =>
        rw [filter_cons_of_neg (by rw [isLine]; decide), ih isKept]
      | true =>
        rw [filter_cons_of_pos isLine, nearest, if_neg isAbove, ih isKept]

theorem nearest_eq_nil : nearest depth below lines = [] ↔ ∀ line ∈ lines, below ≤ depth line := by
  induction lines with
  | nil => simp [nearest]
  | cons line earlier ih =>
    by_cases isAbove : depth line < below
    · simp [nearest, isAbove, Nat.not_le.mpr isAbove]
    · simp [nearest, isAbove, ih, Nat.le_of_not_lt isAbove]

theorem outermost_filter {top : α} {deeper : Nat} (isDeeper : below ≤ deeper)
    (isTop : (nearest depth below lines).getLast? = some top) (isKept : kept top) :
    (nearest depth deeper (lines.filter kept)).getLast? = some top := by
  induction lines generalizing below deeper with
  | nil => cases isTop
  | cons line earlier ih =>
    -- What the lines further up give, under this line where it stays.
    have under (isFurther : (nearest depth (depth line) (earlier.filter kept)).getLast? = some top) :
        (line :: nearest depth (depth line) (earlier.filter kept)).getLast? = some top := by
      rw [List.getLast?_cons, isFurther]
      rfl
    rw [nearest] at isTop
    by_cases isAbove : depth line < below
    · have isDeep : depth line < deeper := isAbove.trans_le isDeeper
      rw [if_pos isAbove] at isTop
      cases isParents : nearest depth (depth line) earlier with
      | nil =>
        rw [isParents, List.getLast?_singleton, Option.some_inj] at isTop
        subst isTop
        have noParents : nearest depth (depth line) (earlier.filter kept) = [] :=
          nearest_eq_nil.mpr fun other inside =>
            nearest_eq_nil.mp isParents other (mem_of_mem_filter inside)
        rw [filter_cons_of_pos isKept, nearest, if_pos isDeep, noParents]
        rfl
      | cons parent rest =>
        have further : (nearest depth (depth line) earlier).getLast? = some top := by
          rw [isParents] at isTop ⊢
          rwa [List.getLast?_cons_cons] at isTop
        cases isLine : kept line with
        | true =>
          rw [filter_cons_of_pos isLine, nearest, if_pos isDeep]
          exact under (ih (Nat.le_refl _) further)
        | false =>
          rw [filter_cons_of_neg (by rw [isLine]; decide)]
          exact ih isDeep.le further
    · rw [if_neg isAbove] at isTop
      cases isLine : kept line with
      | false =>
        rw [filter_cons_of_neg (by rw [isLine]; decide)]
        exact ih isDeeper isTop
      | true =>
        rw [filter_cons_of_pos isLine, nearest]
        split
        · exact under (ih (Nat.le_of_not_lt isAbove) isTop)
        · exact ih isDeeper isTop

end LeftOut

/-! ### Headers -/

theorem mem_headers {entries : List (α × List α)} {header : List α} :
    header ∈ headers entries ↔ header ≠ [] ∧ ∃ entry ∈ entries, header <+: entry.2 := by
  have tail_inits : ∀ chain : List α, header ∈ chain.inits.tail ↔ header ≠ [] ∧ header <+: chain := by
    intro chain
    cases chain with
    | nil => simp
    | cons head tail =>
      rw [inits_cons, tail_cons, mem_map]
      constructor
      · rintro ⟨initial, member, rfl⟩
        exact ⟨by simp, cons_prefix_cons.mpr ⟨rfl, (mem_inits _ _).mp member⟩⟩
      · rintro ⟨nonempty, isPrefix⟩
        obtain ⟨first, rest, rfl⟩ := exists_cons_of_ne_nil nonempty
        obtain ⟨rfl, restPrefix⟩ := cons_prefix_cons.mp isPrefix
        exact ⟨rest, (mem_inits _ _).mpr restPrefix, rfl⟩
  simp only [headers, mem_flatMap, tail_inits]
  exact ⟨fun ⟨entry, member, nonempty, isPrefix⟩ => ⟨nonempty, entry, member, isPrefix⟩,
    fun ⟨nonempty, entry, member, isPrefix⟩ => ⟨entry, member, nonempty, isPrefix⟩⟩

/-! ### Ancestors were read under their own prefix -/

theorem eq_of_prefix_singleton {above : List α} {header only : α}
    (isPrefix : above ++ [header] <+: [only]) : above = [] ∧ header = only := by
  have lengths := isPrefix.length_le
  have nothing : above = [] := by
    rw [← length_eq_zero_iff]
    simp only [length_append, length_cons, length_nil] at lengths
    omega
  subst nothing
  exact ⟨rfl, (cons_prefix_cons.mp isPrefix).1⟩

private theorem suffix_of_prefix_ancestors {stack : List (Nat × α)} {above : List α} {header : α}
    (isPrefix : above ++ [header] <+: ancestors stack) :
    ∃ depth below, (depth, header) :: below <:+ stack ∧ ancestors below = above := by
  induction stack with
  | nil => simp at isPrefix
  | cons entry stack ih =>
    rw [ancestors_cons] at isPrefix
    rcases prefix_concat_iff.mp isPrefix with whole | shorter
    · obtain ⟨rfl, rfl⟩ := append_inj' whole rfl |>.imp id (fun h => by simpa using h)
      exact ⟨entry.1, stack, suffix_refl _, rfl⟩
    · obtain ⟨depth, below, isSuffix, same⟩ := ih shorter
      exact ⟨depth, below, isSuffix.trans (suffix_cons _ _), same⟩

private def Grounded (seen : List (α × List α)) (stack : List (Nat × α)) : Prop :=
  ∀ depth header below, (depth, header) :: below <:+ stack → (header, ancestors below) ∈ seen

private theorem chainsFrom_grounded {seen : List (α × List α)} {stack lines : List (Nat × α)}
    (grounded : Grounded seen stack) {value : α} {chain above : List α} {header : α}
    (member : (value, chain) ∈ chainsFrom stack lines) (isPrefix : above ++ [header] <+: chain) :
    (header, above) ∈ seen ∨ (header, above) ∈ chainsFrom stack lines := by
  induction lines generalizing seen stack with
  | nil => simp [chainsFrom] at member
  | cons line rest ih =>
    obtain ⟨depth, current⟩ := line
    rw [chainsFrom, mem_cons] at member
    rcases member with here | later
    · obtain ⟨rfl, rfl⟩ := Prod.mk.injEq .. |>.mp here
      obtain ⟨deep, below, isSuffix, rfl⟩ := suffix_of_prefix_ancestors isPrefix
      exact .inl (grounded deep header below (isSuffix.trans (closeTo_suffix _ _)))
    · have next : Grounded ((current, ancestors (closeTo depth stack)) :: seen)
          ((depth, current) :: closeTo depth stack) := by
        intro deep open_ below isSuffix
        rcases suffix_cons_iff.mp isSuffix with whole | shorter
        · obtain ⟨sameEntry, rfl⟩ := cons_eq_cons.mp whole
          obtain ⟨_, rfl⟩ := Prod.mk.injEq .. |>.mp sameEntry
          exact .head _
        · exact mem_cons_of_mem _
            (grounded deep open_ below (shorter.trans (closeTo_suffix _ _)))
      rcases ih next later with seenOrHere | found
      · rcases mem_cons.mp seenOrHere with here | seenBefore
        · rw [chainsFrom, here]
          exact .inr (.head _)
        · exact .inl seenBefore
      · rw [chainsFrom]
        exact .inr (.tail _ found)

theorem ancestor_mem_chains {lines : List (Nat × α)} {value : α} {chain above : List α}
    {header : α} (member : (value, chain) ∈ chains lines) (isPrefix : above ++ [header] <+: chain) :
    (header, above) ∈ chains lines := by
  have grounded : Grounded ([] : List (α × List α)) [] := by
    intro depth open_ below isSuffix
    simp at isSuffix
  simpa [chains] using chainsFrom_grounded grounded member isPrefix

theorem header_is_path {lines : List (Nat × α)} {header : List α}
    (isHeader : header ∈ headers (chains lines)) :
    ∃ entry ∈ chains lines, path entry = header := by
  obtain ⟨nonempty, ⟨value, chain⟩, member, isPrefix⟩ := mem_headers.mp isHeader
  obtain ⟨above, last, rfl⟩ := eq_nil_or_concat header |>.resolve_left nonempty
  rw [concat_eq_append] at isPrefix ⊢
  exact ⟨(last, above), ancestor_mem_chains member isPrefix, rfl⟩

/-! ### Values and indentation -/

/-- Each line of a path is deeper than the one it sits under. -/
def Nested (depth : α → Nat) (path : List α) : Prop :=
  path.Pairwise (fun outer inner => depth outer < depth inner)

theorem nested_dropWhile {depth : α → Nat} {opened : List α} (nested : Nested depth opened.reverse)
    (line : α) :
    Nested depth
      ((opened.dropWhile (fun header => depth line ≤ depth header)).reverse ++ [line]) := by
  induction opened with
  | nil => exact pairwise_singleton _ _
  | cons header opened ih =>
    rw [reverse_cons] at nested
    rw [dropWhile_cons]
    split_ifs with closes
    · exact ih (pairwise_append.mp nested).1
    · rw [reverse_cons]
      refine pairwise_append.mpr ⟨nested, pairwise_singleton _ _, ?_⟩
      intro above inside last isLast
      obtain rfl := mem_singleton.mp isLast
      have isShallower : depth header < depth last := by simpa using closes
      rcases mem_append.mp inside with deeper | here
      · have := (pairwise_append.mp nested).2.2 above deeper header (by simp)
        omega
      · rwa [mem_singleton.mp here]

private theorem ancestors_closeTo {depth : α → Nat} {stack : List (Nat × α)}
    (measured : ∀ entry ∈ stack, depth entry.2 = entry.1) (line : α) :
    ancestors (closeTo (depth line) stack) =
      ((stack.map Prod.snd).dropWhile (fun header => depth line ≤ depth header)).reverse := by
  induction stack with
  | nil => rfl
  | cons entry stack ih =>
    have isDepth := measured entry (by simp)
    have below := ih (fun other inside => measured other (by simp [inside]))
    simp only [closeTo, map_cons, dropWhile_cons, isDepth] at below ⊢
    split_ifs
    · exact below
    · rfl

private theorem nested_of_mem_chainsFrom {depth : α → Nat} {stack lines : List (Nat × α)}
    (measured : ∀ entry ∈ stack ++ lines, depth entry.2 = entry.1)
    (nested : Nested depth (ancestors stack)) {value : α} {chain : List α}
    (member : (value, chain) ∈ chainsFrom stack lines) : Nested depth (chain ++ [value]) := by
  induction lines generalizing stack with
  | nil => simp [chainsFrom] at member
  | cons line rest ih =>
    obtain ⟨width, current⟩ := line
    have isWidth : depth current = width := measured (width, current) (by simp)
    have here : Nested depth (ancestors (closeTo width stack) ++ [current]) := by
      rw [← isWidth, ancestors_closeTo fun entry inside => measured entry (by simp [inside])]
      exact nested_dropWhile nested current
    rw [chainsFrom, mem_cons] at member
    rcases member with first | later
    · obtain ⟨rfl, rfl⟩ := Prod.mk.injEq .. |>.mp first
      exact here
    · refine ih ?_ ?_ later
      · intro entry inside
        refine measured entry ?_
        rcases mem_append.mp inside with open_ | below
        · rcases mem_cons.mp open_ with rfl | stillOpen
          · simp
          · exact mem_append_left _ ((closeTo_suffix width stack).subset stillOpen)
        · simp [below]
      · rw [ancestors_cons]
        exact here

/-- **Indentation grows along a chain** and into the line it belongs to. -/
theorem nested_of_mem_chains {depth : α → Nat} {lines : List (Nat × α)}
    (measured : ∀ entry ∈ lines, depth entry.2 = entry.1) {value : α} {chain : List α}
    (member : (value, chain) ∈ chains lines) : Nested depth (chain ++ [value]) :=
  nested_of_mem_chainsFrom (by simpa using measured) (by simp [Nested]) member

theorem mem_of_mem_chainsFrom {stack lines : List (Nat × α)} {value : α} {chain : List α}
    (member : (value, chain) ∈ chainsFrom stack lines) : ∃ depth, (depth, value) ∈ lines := by
  induction lines generalizing stack with
  | nil => simp [chainsFrom] at member
  | cons line rest ih =>
    obtain ⟨depth, current⟩ := line
    rw [chainsFrom, mem_cons] at member
    rcases member with here | later
    · obtain ⟨rfl, _⟩ := Prod.mk.injEq .. |>.mp here
      exact ⟨depth, .head _⟩
    · obtain ⟨deep, found⟩ := ih later
      exact ⟨deep, .tail _ found⟩

theorem mem_of_mem_chains {lines : List (Nat × α)} {value : α} {chain : List α}
    (member : (value, chain) ∈ chains lines) : ∃ depth, (depth, value) ∈ lines :=
  mem_of_mem_chainsFrom member

end Nmas.Outline
