/-
# Pieces joined by a separator

A general development: a loop writes every piece with the separator behind it, and the
last separator is erased afterwards.  What is left is `intercalate`, where there is a piece
at all.
-/
import Mathlib.Data.List.Basic

namespace Joined

variable {α : Type*} {sep : List α} {l : List (List α)}

/-- The text of the loop. -/
theorem flatten_map_append (sep : List α) (h : l ≠ []) :
    (l.map (· ++ sep)).flatten = sep.intercalate l ++ sep := by
  induction l with
  | nil => exact absurd rfl h
  | cons x l ih =>
    rw [List.map_cons, List.flatten_cons]
    rcases l with _ | ⟨y, l⟩
    · simp
    · rw [ih (List.cons_ne_nil _ _), List.intercalate_cons_cons]
      simp only [List.append_assoc]

/-- One byte of a separator is erased. -/
theorem dropLast_flatten_map (c : α) (h : l ≠ []) :
    (l.map (· ++ [c])).flatten.dropLast = [c].intercalate l := by
  rw [flatten_map_append _ h, List.dropLast_concat]

/-- A separator is cut off by its length. -/
theorem take_flatten_map (sep : List α) (h : l ≠ []) :
    (l.map (· ++ sep)).flatten.take ((l.map (· ++ sep)).flatten.length - sep.length) =
      sep.intercalate l := by
  rw [flatten_map_append _ h, List.length_append, Nat.add_sub_cancel, List.take_left]

/-- Where there is a piece, there is more than the separator, if the pieces have bytes. -/
theorem length_lt_flatten_map (h : l ≠ []) (hne : ∀ x ∈ l, x ≠ []) :
    sep.length < (l.map (· ++ sep)).flatten.length := by
  obtain ⟨x, l, rfl⟩ := List.exists_cons_of_ne_nil h
  have hx := List.length_pos_iff.mpr (hne x List.mem_cons_self)
  rw [List.map_cons, List.flatten_cons, List.length_append, List.length_append]
  omega

end Joined
