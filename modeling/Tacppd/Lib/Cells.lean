/-
# Arrays that are written by index

A general development: an array of a fixed size, one element of it written, and a stretch of
it moved within the array as `memmove` does.  The positions are integers, and there is no
result when one of them is outside.

The rules say what is written and moved when the array is cut at these positions.
-/
import Mathlib.Algebra.Order.Ring.Int
import Mathlib.Data.List.Basic

namespace Cells

variable {α : Type*}

/-- The element at a position. -/
def peek (a : List α) (i : ℤ) : Option α := if 0 ≤ i then a[i.toNat]? else none

/-- Write one element. -/
def put (a : List α) (i : ℤ) (x : α) : Option (List α) :=
  if 0 ≤ i ∧ i < a.length then some (a.set i.toNat x) else none

/-- Move `n` elements from `src` to `dst`. -/
def move (a : List α) (dst src n : ℤ) : Option (List α) :=
  if 0 ≤ dst ∧ 0 ≤ src ∧ 0 ≤ n ∧ dst + n ≤ a.length ∧ src + n ≤ a.length then
    some (a.take dst.toNat ++ (a.drop src.toNat).take n.toNat ++ a.drop (dst.toNat + n.toNat))
  else none

/-- Write the same element to `n` positions. -/
def fill (x : α) : ℕ → List α → ℤ → Option (List α)
  | 0, a, _ => some a
  | n + 1, a, i => (put a i x).bind fun a => fill x n a (i + 1)

theorem put_append (l r : List α) (y x : α) {i : ℤ} (hi : i = l.length) :
    put (l ++ y :: r) i x = some (l ++ x :: r) := by
  unfold put
  rw [if_pos (by simp only [List.length_append, List.length_cons]; omega), hi, Int.toNat_natCast,
    List.set_append_right _ _ (Nat.le_refl _), Nat.sub_self, List.set_cons_zero]

theorem peek_append (l r : List α) (y : α) {i : ℤ} (hi : i = l.length) :
    peek (l ++ y :: r) i = some y := by
  unfold peek
  rw [if_pos (by omega), hi, Int.toNat_natCast, List.getElem?_append_right (Nat.le_refl _),
    Nat.sub_self, List.getElem?_cons_zero]

/-- A stretch moved by one position to the right, and what comes into the gap. -/
theorem move_right_put (l m r : List α) (y x : α) {i n : ℤ} (hi : i = l.length)
    (hn : n = m.length) :
    ((move (l ++ (m ++ y :: r)) (i + 1) i n).bind fun a => put a i x) =
      some (l ++ x :: (m ++ r)) := by
  have hlen : (l ++ (m ++ y :: r)).length = l.length + (m.length + (r.length + 1)) := by
    simp only [List.length_append, List.length_cons]
  have hdst : (i + 1).toNat = l.length + 1 := by omega
  have hsrc : i.toNat = l.length := by omega
  have hcount : n.toNat = m.length := by omega
  obtain ⟨z, zs, hz⟩ : ∃ z zs, m ++ y :: r = z :: zs := by
    cases m with
    | nil => exact ⟨y, r, rfl⟩
    | cons z m => exact ⟨z, m ++ y :: r, rfl⟩
  have hmove : move (l ++ (m ++ y :: r)) (i + 1) i n = some (l ++ z :: (m ++ r)) := by
    unfold move
    rw [if_pos (by omega), hdst, hsrc, hcount, List.drop_left, List.take_left]
    have hfront : (l ++ (m ++ y :: r)).take (l.length + 1) = l ++ [z] := by
      rw [hz, show l ++ z :: zs = (l ++ [z]) ++ zs by simp]
      exact List.take_left' (by simp)
    have hback : (l ++ (m ++ y :: r)).drop (l.length + 1 + m.length) = r := by
      rw [show l ++ (m ++ y :: r) = (l ++ m ++ [y]) ++ r by simp]
      exact List.drop_left' (by simp; omega)
    rw [hfront, hback]
    simp
  rw [hmove, Option.bind_some, put_append l _ z x hi]

/-- A stretch moved by one position to the left: its last element stays where it was. -/
theorem move_left (l m r : List α) (x y : α) {i n : ℤ} (hi : i = l.length)
    (hn : n = m.length + 1) :
    move (l ++ x :: (m ++ y :: r)) i (i + 1) n = some (l ++ (m ++ y :: y :: r)) := by
  have hlen : (l ++ x :: (m ++ y :: r)).length = l.length + (m.length + (r.length + 1) + 1) := by
    simp only [List.length_append, List.length_cons]
  have hdst : i.toNat = l.length := by omega
  have hsrc : (i + 1).toNat = (l ++ [x]).length := by
    rw [List.length_append, List.length_singleton]
    omega
  have hcount : n.toNat = m.length + 1 := by omega
  unfold move
  rw [if_pos (by omega), hdst, hsrc, hcount, List.take_left]
  have hstretch : ((l ++ x :: (m ++ y :: r)).drop (l ++ [x]).length).take (m.length + 1) =
      m ++ [y] := by
    rw [show l ++ x :: (m ++ y :: r) = (l ++ [x]) ++ (m ++ y :: r) by simp, List.drop_left,
      show m ++ y :: r = (m ++ [y]) ++ r by simp]
    exact List.take_left' (by simp)
  have hback : (l ++ x :: (m ++ y :: r)).drop (l.length + (m.length + 1)) = y :: r := by
    rw [show l ++ x :: (m ++ y :: r) = (l ++ x :: m) ++ y :: r by simp]
    exact List.drop_left' (by simp)
  rw [hstretch, hback]
  simp

/-- A stretch moved to the start. -/
theorem move_front (l m r : List α) {i n : ℤ} (hi : i = l.length) (hn : n = m.length) :
    move (l ++ (m ++ r)) 0 i n = some (m ++ (l ++ (m ++ r)).drop m.length) := by
  have hlen : (l ++ (m ++ r)).length = l.length + (m.length + r.length) := by
    simp only [List.length_append]
  have hsrc : i.toNat = l.length := by omega
  have hcount : n.toNat = m.length := by omega
  unfold move
  rw [if_pos (by omega), hsrc, hcount, List.drop_left, List.take_left]
  simp

theorem fill_append (x : α) (l m r : List α) {i : ℤ} (hi : i = l.length) :
    fill x m.length (l ++ (m ++ r)) i = some (l ++ (List.replicate m.length x ++ r)) := by
  induction m generalizing l i with
  | nil => rfl
  | cons y m ih =>
    rw [List.length_cons, fill, List.cons_append, put_append l _ y x hi, Option.bind_some]
    have hnext := @ih (l ++ [x]) (i + 1) (by rw [List.length_append, hi]; rfl)
    rw [List.append_assoc, List.append_assoc] at hnext
    exact hnext

end Cells
