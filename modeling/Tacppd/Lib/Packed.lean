/-
# Packed structures in memory

A general development: a structure is a list of fields with their sizes, one directly
behind the other.  Reads are checked against the length of the memory (`load`); a write
leaves the bytes before and behind it (`store`).  A read after a write sees what has been
written if it is of the same place, and what was there before if it is of another one.
-/
import Tacppd.Lib.Layout
import Mathlib.Algebra.Order.Ring.Nat

namespace Packed

/-! ## Fields -/

variable {F : Type*} [DecidableEq F]

/-- The bytes before a field. -/
def offset : List (F × ℕ) → F → ℕ
  | [], _ => 0
  | (g, n) :: s, f => if g = f then 0 else n + offset s f

/-- The bytes of a field. -/
def width : List (F × ℕ) → F → ℕ
  | [], _ => 0
  | (g, n) :: s, f => if g = f then n else width s f

/-- The bytes of the structure, `sizeof`. -/
def size (s : List (F × ℕ)) : ℕ := (s.map Prod.snd).sum

theorem offset_add_width_le (s : List (F × ℕ)) (f : F) : offset s f + width s f ≤ size s := by
  induction s with
  | nil => rfl
  | cons x s ih =>
    obtain ⟨g, n⟩ := x
    simp only [size, List.map_cons, List.sum_cons] at ih ⊢
    rw [offset, width]
    split <;> omega

/-! ## Memory -/

variable {α : Type*} {mem u v : List α} {i j n : ℕ}

/-- Read `n` elements from `i` on, where all of them are inside. -/
def load (mem : List α) (i n : ℕ) : Option (List α) :=
  if i + n ≤ mem.length then some ((mem.drop i).take n) else none

/-- Write a list from `i` on. -/
def store (mem : List α) (i : ℕ) (v : List α) : List α :=
  mem.take i ++ v ++ mem.drop (i + v.length)

theorem load_eq_some (h : i + n ≤ mem.length) : load mem i n = some ((mem.drop i).take n) :=
  if_pos h

theorem ensures_load {post : List α → Prop} :
    Guarded.Ensures (load mem i n) post ↔
      i + n ≤ mem.length ∧ post ((mem.drop i).take n) := by
  rw [load]
  split <;> simp [*]

theorem load_of_holds (hu : Guarded.Holds mem i u) (hn : u.length = n)
    (h : i + n ≤ mem.length) : load mem i n = some u := by
  rw [load_eq_some h, ← hn, hu.take_eq]

theorem length_flatten_eq {l : List (List α)} (hl : ∀ c ∈ l, c.length = n) :
    l.flatten.length = n * l.length := by
  induction l with
  | nil => rfl
  | cons c l ih =>
    rw [List.forall_mem_cons] at hl
    rw [List.flatten_cons, List.length_append, hl.1, ih hl.2, List.length_cons, Nat.mul_succ,
      Nat.add_comm]

/-- One of several pieces of the same length. -/
theorem load_flatten {pre : List α} {l : List (List α)} (hl : ∀ c ∈ l, c.length = n)
    (hi : i < l.length) : load (pre ++ l.flatten) (pre.length + n * i) n = some l[i] := by
  induction l generalizing pre i with
  | nil => simp at hi
  | cons c l ih =>
    rw [List.forall_mem_cons] at hl
    cases i with
    | zero =>
      apply load_of_holds _ hl.1
      · rw [List.length_append, List.flatten_cons, List.length_append, hl.1]
        omega
      · rw [Nat.mul_zero, Nat.add_zero, List.flatten_cons, Guarded.Holds, List.drop_left]
        exact List.prefix_append _ _
    | succ i =>
      have hi' : i < l.length := by simpa using hi
      have hpre : pre.length + n * (i + 1) = (pre ++ c).length + n * i := by
        rw [List.length_append, hl.1, Nat.mul_succ]
        omega
      rw [List.flatten_cons, ← List.append_assoc, hpre, ih hl.2 hi', List.getElem_cons_succ]

theorem length_store (h : i + v.length ≤ mem.length) : (store mem i v).length = mem.length := by
  simp only [store, List.length_append, List.length_take, List.length_drop]
  omega

theorem holds_store (h : i + v.length ≤ mem.length) : Guarded.Holds (store mem i v) i v := by
  have htake : (mem.take i).length = i := List.length_take_of_le (by omega)
  refine ⟨mem.drop (i + v.length), ?_⟩
  rw [store, List.append_assoc]
  exact (List.drop_left' htake).symm

/-- Another place. -/
theorem holds_store_ne (hu : Guarded.Holds mem j u) (h : i + v.length ≤ mem.length)
    (hne : j + u.length ≤ i ∨ i + v.length ≤ j) : Guarded.Holds (store mem i v) j u := by
  rw [Guarded.Holds, List.prefix_iff_getElem?] at hu ⊢
  intro k hk
  have hmem := hu k hk
  rw [List.getElem?_drop] at hmem ⊢
  have htake : (mem.take i).length = i := List.length_take_of_le (by omega)
  rw [← hmem, store]
  rcases hne with hbefore | hbehind
  · rw [List.append_assoc, List.getElem?_append_left (by omega),
      List.getElem?_take_of_lt (by omega)]
  · rw [List.getElem?_append_right (by rw [List.length_append]; omega), List.getElem?_drop,
      List.length_append, htake]
    congr 1
    omega

/-! ## Writing fields -/

/-- Two fields of a structure have no byte in common. -/
theorem offset_disjoint (s : List (F × ℕ)) {f g : F} (h : f ≠ g) :
    offset s f + width s f ≤ offset s g ∨ offset s g + width s g ≤ offset s f := by
  induction s with
  | nil => exact Or.inl le_rfl
  | cons x s ih =>
    obtain ⟨x, n⟩ := x
    rw [offset, offset, width, width]
    by_cases hf : x = f
    · rw [if_pos hf, if_pos hf, if_neg (hf ▸ h), if_neg (hf ▸ h)]
      omega
    · by_cases hg : x = g
      · rw [if_neg hf, if_neg hf, if_pos hg, if_pos hg]
        omega
      · rw [if_neg hf, if_neg hf, if_neg hg, if_neg hg]
        omega

/-- Write fields one after the other, each from its beginning. -/
def storeFields (s : List (F × ℕ)) (mem : List α) (ws : List (F × List α)) : List α :=
  ws.foldl (fun mem x => store mem (offset s x.1) x.2) mem

/-- Values that fit their fields, each field once. -/
structure Fitting (s : List (F × ℕ)) (ws : List (F × List α)) : Prop where
  width : ∀ x ∈ ws, x.2.length ≤ width s x.1
  once : (ws.map Prod.fst).Nodup

theorem length_storeFields {s : List (F × ℕ)} {ws : List (F × List α)} (hmem : mem.length = size s)
    (hws : ∀ x ∈ ws, x.2.length ≤ width s x.1) : (storeFields s mem ws).length = size s := by
  induction ws generalizing mem with
  | nil => exact hmem
  | cons x ws ih =>
    rw [List.forall_mem_cons] at hws
    have hle := offset_add_width_le s x.1
    rw [storeFields, List.foldl_cons, ← storeFields]
    refine ih ?_ hws.2
    rw [length_store (by omega), hmem]

/-- What stands in other fields than those written stays. -/
theorem holds_storeFields_ne {s : List (F × ℕ)} {ws : List (F × List α)} {f : F}
    (hmem : mem.length = size s) (hws : ∀ x ∈ ws, x.2.length ≤ width s x.1)
    (hf : f ∉ ws.map Prod.fst) (hu : Guarded.Holds mem (offset s f) u)
    (hlen : u.length ≤ width s f) : Guarded.Holds (storeFields s mem ws) (offset s f) u := by
  induction ws generalizing mem with
  | nil => exact hu
  | cons x ws ih =>
    rw [List.forall_mem_cons] at hws
    rw [List.map_cons, List.mem_cons, not_or] at hf
    have hle := offset_add_width_le s x.1
    rw [storeFields, List.foldl_cons, ← storeFields]
    refine ih ?_ hws.2 hf.2 (holds_store_ne hu (by omega) ?_)
    · rw [length_store (by omega), hmem]
    · have hdisjoint := offset_disjoint s hf.1
      omega

/-- Every field has what has been written to it. -/
theorem holds_storeFields {s : List (F × ℕ)} {ws : List (F × List α)} (hmem : mem.length = size s)
    (hws : Fitting s ws) : ∀ x ∈ ws, Guarded.Holds (storeFields s mem ws) (offset s x.1) x.2 := by
  obtain ⟨hwidth, honce⟩ := hws
  induction ws generalizing mem with
  | nil => simp
  | cons x ws ih =>
    rw [List.forall_mem_cons] at hwidth
    rw [List.map_cons, List.nodup_cons] at honce
    have hle := offset_add_width_le s x.1
    have hstored : (store mem (offset s x.1) x.2).length = size s := by
      rw [length_store (by omega), hmem]
    rw [List.forall_mem_cons, storeFields, List.foldl_cons, ← storeFields]
    exact ⟨holds_storeFields_ne hstored hwidth.2 honce.1 (holds_store (by omega)) hwidth.1,
      ih hstored hwidth.2 honce.2⟩

end Packed
