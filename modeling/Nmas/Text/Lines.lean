import Nmas.Text.Str

/-!
Owns: `"\n".join`, and how a joined text falls into lines again.

`splitlines` gives no last line that is empty, and gives one for a line break
alone, so the lines that were joined come back up to empty ones.
-/

namespace Nmas.Text

open List

def joinLines (lines : List Str) : Str := ['\n'].intercalate lines

variable {lines : List Str} {line text collected : Str}

theorem splitlinesFrom_cons {c : Char} (notBreak : isLineBreak c = false) :
    splitlinesFrom collected (c :: text) = splitlinesFrom (c :: collected) text := by
  rw [splitlinesFrom, if_neg (by simp [notBreak])]
  rintro rest rfl
  exact absurd notBreak (by decide)

theorem splitlinesFrom_clean (clean : ∀ c ∈ line, isLineBreak c = false) (collected text : Str) :
    splitlinesFrom collected (line ++ '\n' :: text) =
      (collected.reverse ++ line) :: splitlinesFrom [] text := by
  induction line generalizing collected with
  | nil =>
    rw [nil_append, append_nil]
    rfl
  | cons c rest ih =>
    rw [cons_append, splitlinesFrom_cons (clean c mem_cons_self),
      ih (fun d inside => clean d (.tail _ inside)),
      reverse_cons, append_assoc]
    rfl

theorem splitlinesFrom_last (clean : ∀ c ∈ line, isLineBreak c = false) (collected : Str) :
    splitlinesFrom collected line = splitlinesFrom (line.reverse ++ collected) [] := by
  induction line generalizing collected with
  | nil => rfl
  | cons c rest ih =>
    rw [splitlinesFrom_cons (clean c mem_cons_self),
      ih (fun d inside => clean d (.tail _ inside)),
      reverse_cons, append_assoc]
    rfl

theorem splitlines_last (clean : ∀ c ∈ line, isLineBreak c = false) :
    splitlines line = if line = [] then [] else [line] := by
  unfold splitlines
  rw [splitlinesFrom_last clean, append_nil, splitlinesFrom_nil, reverse_reverse]
  simp only [reverse_eq_nil_iff]

theorem splitlines_cons (clean : ∀ c ∈ line, isLineBreak c = false) (text : Str) :
    splitlines (line ++ '\n' :: text) = line :: splitlines text :=
  splitlinesFrom_clean clean [] text

theorem splitlines_joinLines (clean : ∀ line ∈ lines, ∀ c ∈ line, isLineBreak c = false) (ends : Bool) :
    (splitlines (joinLines lines ++ if ends then ['\n'] else [])).filter (fun line => line ≠ []) =
      lines.filter (fun line => line ≠ []) := by
  induction lines with
  | nil => cases ends <;> rfl
  | cons line rest ih =>
    have cleanLine := clean line (.head _)
    have later := ih (fun other member =>
      clean other (.tail _ member))
    cases rest with
    | nil =>
      cases ends with
      | false =>
        rw [joinLines, intercalate_singleton, if_neg (by decide), append_nil,
          splitlines_last cleanLine]
        split
        · rename_i isEmpty
          rw [isEmpty]
          rfl
        · rfl
      | true =>
        rw [joinLines, intercalate_singleton, if_pos rfl, splitlines_cons cleanLine]
        rfl
    | cons next rest =>
      have joined : joinLines (line :: next :: rest) =
          line ++ '\n' :: joinLines (next :: rest) := by
        simp [joinLines, intercalate_cons_cons]
      rw [joined, append_assoc, cons_append, splitlines_cons cleanLine,
        filter_cons, later]
      conv_rhs => rw [filter_cons]

theorem splitlines_ended (clean : ∀ line ∈ lines, ∀ c ∈ line, isLineBreak c = false)
    (notNothing : lines ≠ []) : splitlines (joinLines lines ++ ['\n']) = lines := by
  induction lines with
  | nil => exact absurd rfl notNothing
  | cons line rest ih =>
    have cleanLine := clean line (.head _)
    cases rest with
    | nil =>
      rw [joinLines, intercalate_singleton, splitlines_cons cleanLine]
      rfl
    | cons next rest =>
      have joined : joinLines (line :: next :: rest) =
          line ++ '\n' :: joinLines (next :: rest) := by
        simp [joinLines, intercalate_cons_cons]
      rw [joined, append_assoc, cons_append, splitlines_cons cleanLine,
        ih (fun other member => clean other (.tail _ member)) (by simp)]

end Nmas.Text
