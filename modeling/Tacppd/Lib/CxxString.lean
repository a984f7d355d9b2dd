/-
# Strings that are changed by position

A general development: the functions of a C++ string that take positions.  A position outside
of the string is an exception; a negative length is the greatest unsigned number, and reaches
to the end of the string.
-/
import Mathlib.Data.List.DropRight
import Mathlib.Data.List.TakeWhile
import Mathlib.Algebra.Order.Group.Int

namespace CxxString

variable {α : Type*} {p : α → Bool} {s a b : List α} {pos n : ℤ}

/-! ## Replacing -/

/-- `replace(pos, n, ins)`, or nothing where it throws. -/
def replace (s : List α) (pos n : ℤ) (ins : List α) : Option (List α) :=
  if pos < 0 ∨ s.length < pos then none
  else some (s.take pos.toNat ++ ins ++ if n < 0 then [] else s.drop (pos.toNat + n.toNat))

/-- A part in the middle is replaced. -/
theorem replace_append (a m b ins : List α) :
    replace (a ++ m ++ b) a.length m.length ins = some (a ++ ins ++ b) := by
  have hin : ¬ ((a.length : ℤ) < 0 ∨ ((a ++ m ++ b).length : ℤ) < a.length) := by
    simp only [List.length_append]
    omega
  have htake : (a ++ m ++ b).take a.length = a := by rw [List.append_assoc, List.take_left]
  have hdrop : (a ++ m ++ b).drop (a.length + m.length) = b := by
    rw [← List.length_append, List.drop_left]
  rw [replace, if_neg hin, if_neg (by omega), Int.toNat_natCast, Int.toNat_natCast, htake, hdrop]

/-- A text is inserted. -/
theorem replace_zero (a b ins : List α) :
    replace (a ++ b) a.length 0 ins = some (a ++ ins ++ b) := by
  have h := replace_append a [] b ins
  rwa [List.append_nil, List.length_nil] at h

/-- A negative length reaches to the end. -/
theorem replace_neg (a b : List α) (hn : n < 0) :
    replace (a ++ b) a.length n [] = some a := by
  have hin : ¬ ((a.length : ℤ) < 0 ∨ ((a ++ b).length : ℤ) < a.length) := by
    simp only [List.length_append]
    omega
  rw [replace, if_neg hin, if_pos hn, Int.toNat_natCast, List.take_left]
  simp

/-- What is left after an erasure. -/
theorem replace_sublist (h : replace s pos n [] = some b) : List.Sublist b s := by
  rw [replace] at h
  split at h
  · contradiction
  · obtain rfl := Option.some.inj h
    rw [List.append_nil]
    have hparts := List.take_append_drop pos.toNat s
    split
    · rw [List.append_nil]
      exact List.take_sublist _ _
    · rw [← List.drop_drop]
      have hsub := (List.Sublist.refl (s.take pos.toNat)).append
        (List.drop_sublist n.toNat (s.drop pos.toNat))
      rwa [hparts] at hsub

/-! ## Searching -/

/-- A position as an `int`: `npos` becomes −1. -/
def toInt : Option ℕ → ℤ
  | none => -1
  | some i => i

@[simp] theorem toInt_some (i : ℕ) : toInt (some i) = i := rfl

/-- `find_first_not_of`. -/
def findFirstNotOf (p : α → Bool) (s : List α) (pos : ℕ) : Option ℕ :=
  ((s.drop pos).findIdx? fun c => !p c).map (pos + ·)

/-- `find_last_not_of`. -/
def findLastNotOf (p : α → Bool) (s : List α) (pos : ℕ) : Option ℕ :=
  let kept := (s.take (pos + 1)).rdropWhile p
  if kept = [] then none else some (kept.length - 1)

theorem findFirstNotOf_append (h : ∃ c ∈ b, p c = false) :
    findFirstNotOf p (a ++ b) a.length = some (a.length + (b.takeWhile p).length) := by
  rw [findFirstNotOf, List.drop_left]
  have hidx : b.findIdx? (fun c => !p c) = some (b.takeWhile p).length := by
    induction b with
    | nil => simp at h
    | cons c b ih =>
      rw [List.findIdx?_cons, List.takeWhile_cons]
      cases hc : p c with
      | false => rfl
      | true =>
        have hrest : ∃ x ∈ b, p x = false := by
          obtain ⟨x, hx, hpx⟩ := h
          rcases List.mem_cons.mp hx with rfl | hx
          · rw [hc] at hpx
            contradiction
          · exact ⟨x, hx, hpx⟩
        simp [ih hrest]
  rw [hidx, Option.map_some]

/-- The position behind the last byte that is found. -/
theorem toInt_findLastNotOf (s : List α) (pos : ℕ) :
    toInt (findLastNotOf p s pos) + 1 = ((s.take (pos + 1)).rdropWhile p).length := by
  rw [findLastNotOf]
  by_cases hnil : (s.take (pos + 1)).rdropWhile p = []
  · simp only [hnil, if_true, toInt]
    rfl
  · have hpos := List.length_pos_iff.mpr hnil
    simp only [if_neg hnil, toInt]
    omega

theorem take_length_succ (a b : List α) (c : α) :
    (a ++ c :: b).take (a.length + 1) = a ++ [c] := by
  rw [List.append_cons, ← @List.length_singleton α c, ← List.length_append, List.take_left]

end CxxString
