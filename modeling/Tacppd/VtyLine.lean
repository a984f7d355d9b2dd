/-
# The line editor

`VtyTerm` keeps the line that is typed in an array of 513 bytes, with the position of the cursor.
The editing operations move the bytes by lengths of their own, and none of them clears the array
behind the NUL.

Against the text in front of the cursor and behind it: clearing the line leaves the cursor at -1,
inserting at the end of a full line writes behind the array, and inserting in the middle moves
the text over its NUL and needs another one behind it.  Nothing else goes wrong
(`lineEditor_iff`).

What is written to the terminal is left out.  The bytes that are read for it are not: a position
outside the array stops the model there.
-/
import Tacppd.Bytes
import Tacppd.Lib.Cells
import Tacppd.Lib.Machine
import Mathlib.Tactic.Common

namespace Tacppd

open Cells

/-! ## The line -/

/-- `maxVtyInput`. -/
def maxVtyInput : ℕ := 512

/-- `vty_line` and `vtylinepos`. -/
structure VtyLine where
  line : Bytes
  pos : ℤ
  deriving DecidableEq, Repr

/-- `strlen`, when there is a NUL in the array. -/
def strlen (a : Bytes) : Option ℕ := if 0 ∈ a then some (cstr a).length else none

/-- `twrite(vty_line + i)` reads up to a NUL. -/
def twriteAt (a : Bytes) (i : ℤ) : Option Unit :=
  if 0 ≤ i ∧ 0 ∈ a.drop i.toNat then some () else none

/-- `n` bytes are written to the terminal one by one. -/
def walk (a : Bytes) : ℕ → ℤ → Option ℤ
  | 0, i => some i
  | n + 1, i => (peek a i).bind fun _ => walk a n (i + 1)

namespace VtyLine

/-- `vty_insert_char`. -/
def insertChar (c : UInt8) (t : VtyLine) : Option VtyLine := do
  let length ← strlen t.line
  if t.pos = length then
    let line ← put t.line t.pos c
    let line ← put line (t.pos + 1) 0
    return ⟨line, t.pos + 1⟩
  else if t.pos < maxVtyInput then
    -- the NUL is not moved
    let line ← (move t.line (t.pos + 1) t.pos (length - t.pos)).bind (put · t.pos c)
    return ⟨line, t.pos + 1⟩
  else return t

/-- `vty_del_char`. -/
def delChar (t : VtyLine) : Option VtyLine := do
  let length ← strlen t.line
  if length = 0 ∨ length = t.pos then return t
  else
    twriteAt t.line (t.pos + 1)
    let line ← move t.line t.pos (t.pos + 1) (length - t.pos)
    return { t with line := line }

/-- `vty_move_backward`. -/
def moveBackward (t : VtyLine) : VtyLine := if 0 < t.pos then { t with pos := t.pos - 1 } else t

/-- `vty_del_backward_char`. -/
def delBackwardChar (t : VtyLine) : Option VtyLine :=
  if t.pos = 0 then some t
  else do
    let t := t.moveBackward
    twriteAt t.line (t.pos + 1)
    let length ← strlen t.line
    let line ← move t.line t.pos (t.pos + 1) (length - t.pos)
    return { t with line := line }

/-- `vty_move_forward`: at the end of the line it inserts a blank. -/
def moveForward (t : VtyLine) : Option VtyLine := do
  let length ← strlen t.line
  if t.pos < length then
    let _ ← peek t.line t.pos
    return { t with pos := t.pos + 1 }
  else if t.pos < maxVtyInput then t.insertChar 32
  else return t

/-- `vty_move_end_of_line`. -/
def moveEndOfLine (t : VtyLine) : Option VtyLine := do
  let length ← strlen t.line
  let pos ← walk t.line (length - t.pos).toNat t.pos
  return { t with pos := pos }

/-- `vty_move_beginning_of_line`. -/
def moveBeginningOfLine (t : VtyLine) : VtyLine := { t with pos := min t.pos 0 }

/-- `vty_clear_input`: the last test of `while(vtylinepos--)` takes one from 0. -/
def clearInput (t : VtyLine) : Option VtyLine := do
  let t ← t.moveEndOfLine
  let line ← put t.line 0 0
  return ⟨line, -1⟩

/-- `vty_clear_line_from_beg`. -/
def clearLineFromBeg (t : VtyLine) : Option VtyLine :=
  if t.pos = 0 then some t
  else do
    let length ← strlen t.line
    let line ← move t.line 0 t.pos (length - t.pos)
    let line ← Cells.fill 32 t.pos.toNat line (length - t.pos)
    twriteAt line 0
    let line ← put line (length - t.pos) 0
    return ⟨line, 0⟩

end VtyLine

/-- The editing keys. -/
inductive VtyKey
  | insertChar (c : UInt8) (h : c ≠ 0)
  | deleteChar
  | deleteBackwardChar
  | left
  | right
  | beginningOfLine
  | endOfLine
  | clearLine
  | clearLineFromBeginning
  deriving DecidableEq, Repr

/-- What `treadstr` does for a key. -/
def VtyKey.run : VtyKey → VtyLine → Option VtyLine
  | insertChar c _, t => t.insertChar c
  | deleteChar, t => t.delChar
  | deleteBackwardChar, t => t.delBackwardChar
  | left, t => some t.moveBackward
  | right, t => t.moveForward
  | beginningOfLine, t => some t.moveBeginningOfLine
  | endOfLine, t => t.moveEndOfLine
  | clearLine, t => t.clearInput
  | clearLineFromBeginning, t => t.clearLineFromBeg

/-- `readstr` starts with an empty line; a key that leaves the array leaves no line. -/
def lineEditor : Machine (Option VtyLine) VtyKey Unit Empty :=
  ⟨some ⟨List.replicate (maxVtyInput + 1) 0, 0⟩, fun t key => .ok (t.bind key.run, ())⟩

/-! ## The text with a cursor in it -/

/-- The bytes in front of the cursor and those behind it. -/
structure CursorText where
  before : Bytes
  after : Bytes
  deriving DecidableEq, Repr

namespace CursorText

/-- A line that is full takes nothing more. -/
def insert (c : UInt8) (z : CursorText) : CursorText :=
  if (z.before ++ z.after).length < maxVtyInput then { z with before := z.before ++ [c] } else z

def step (z : CursorText) : VtyKey → CursorText
  | .insertChar c _ => z.insert c
  | .deleteChar => { z with after := z.after.tail }
  | .deleteBackwardChar => { z with before := z.before.dropLast }
  | .left => ⟨z.before.dropLast, z.before.getLast?.toList ++ z.after⟩
  | .right =>
    match z.after with
    | [] => z.insert 32
    | c :: after => ⟨z.before ++ [c], after⟩
  | .beginningOfLine => ⟨[], z.before ++ z.after⟩
  | .endOfLine => ⟨z.before ++ z.after, []⟩
  | .clearLine => ⟨[], []⟩
  | .clearLineFromBeginning => { z with before := [] }

/-- The text after some keys. -/
def typed (keys : List VtyKey) : CursorText := keys.foldl step ⟨[], []⟩

end CursorText

/-- The line holds the text, and the cursor is where it should be. -/
structure VtyLine.Shows (t : VtyLine) (z : CursorText) : Prop where
  size : t.line.length = maxVtyInput + 1
  ended : 0 ∈ t.line
  text : cstr t.line = z.before ++ z.after
  cursor : t.pos = z.before.length

/-- The condition on the line before a key: it is not cleared as a whole, and what is inserted
finds room, and a NUL behind the one that is overwritten. -/
def VtyKey.Fits (t : VtyLine) : VtyKey → Prop
  | insertChar _ _ => (cstr t.line).length < maxVtyInput ∧
      (t.pos = (cstr t.line).length ∨ t.line[(cstr t.line).length + 1]? = some 0)
  | clearLine => False
  | _ => True

instance (t : VtyLine) (key : VtyKey) : Decidable (key.Fits t) := by
  cases key <;> unfold VtyKey.Fits <;> infer_instance

/-! ## The operations on a line that shows a text -/

/-- The array of a line, cut at the cursor and at the NUL. -/
structure VtyLine.Cut (t : VtyLine) (z : CursorText) (stale : Bytes) : Prop where
  line : t.line = z.before ++ (z.after ++ 0 :: stale)
  zero : 0 ∉ z.before ++ z.after
  size : t.line.length = maxVtyInput + 1
  cursor : t.pos = z.before.length

section

variable {t : VtyLine} {z : CursorText} {b a stale : Bytes} {p : ℤ} {c : UInt8}

theorem VtyLine.Cut.shows (h : t.Cut z stale) : t.Shows z := by
  have hline : t.line = (z.before ++ z.after) ++ 0 :: stale := by rw [h.line, List.append_assoc]
  refine ⟨h.size, ?_, ?_, h.cursor⟩
  · rw [hline]
    simp
  · rw [hline, cstr_append_zero h.zero]

theorem VtyLine.Shows.cut (h : t.Shows z) : ∃ stale, t.Cut z stale := by
  obtain ⟨stale, hline⟩ := exists_eq_cstr_append h.ended
  rw [h.text, List.append_assoc] at hline
  refine ⟨stale, hline, ?_, h.size, h.cursor⟩
  rw [← h.text]
  exact zero_not_mem_cstr _

theorem strlen_append (h0 : 0 ∉ a) : strlen (a ++ 0 :: stale) = some a.length := by
  unfold strlen
  rw [if_pos (by simp), cstr_append_zero h0]

theorem VtyLine.Cut.strlen (h : t.Cut z stale) :
    strlen t.line = some (z.before.length + z.after.length) := by
  rw [h.line, ← List.append_assoc, strlen_append h.zero, List.length_append]

theorem twriteAt_eq {line : Bytes} {i : ℤ} (hi : 0 ≤ i) (h : 0 ∈ line.drop i.toNat) :
    twriteAt line i = some () :=
  if_pos ⟨hi, h⟩

/-- The text with its NUL has room in the array. -/
theorem VtyLine.Cut.length (h : t.Cut z stale) :
    z.before.length + z.after.length + stale.length = maxVtyInput := by
  have hsize := h.size
  rw [h.line] at hsize
  simp only [List.length_append, List.length_cons] at hsize
  omega

theorem cut_mk (hzero : 0 ∉ b ++ a) (hlen : b.length + a.length + stale.length = maxVtyInput)
    (hp : p = b.length) : (⟨b ++ (a ++ 0 :: stale), p⟩ : VtyLine).Cut ⟨b, a⟩ stale := by
  refine ⟨rfl, hzero, ?_, hp⟩
  simp only [List.length_append, List.length_cons]
  omega

/-- A byte more at the end. -/
theorem VtyLine.Cut.insertChar_end (h : t.Cut ⟨b, []⟩ stale) (hroom : b.length < maxVtyInput)
    (hc : c ≠ 0) : ∃ t' stale', t.insertChar c = some t' ∧ t'.Cut ⟨b ++ [c], []⟩ stale' := by
  obtain ⟨line, pos⟩ := t
  have hlen := h.length
  have hstrlen := h.strlen
  obtain ⟨rfl, hzero, -, hpos⟩ := h
  have hpos' : pos = b.length := hpos
  simp only [List.length_nil, Nat.add_zero] at hlen hstrlen
  obtain ⟨y, stale, rfl⟩ : ∃ y stale', stale = y :: stale' := by
    apply List.exists_cons_of_ne_nil
    rintro rfl
    simp only [List.length_nil] at hlen
    omega
  have hput : put (b ++ 0 :: y :: stale) pos c = some (b ++ c :: y :: stale) :=
    put_append b _ 0 c hpos'
  have hput' : put (b ++ c :: y :: stale) (pos + 1) 0 = some (b ++ c :: 0 :: stale) := by
    have hnext := @put_append _ (b ++ [c]) stale y 0 (pos + 1) (by simp [hpos'])
    simpa using hnext
  have hcut : (⟨(b ++ [c]) ++ ([] ++ 0 :: stale), pos + 1⟩ : VtyLine).Cut ⟨b ++ [c], []⟩ stale := by
    refine cut_mk ?_ ?_ (by simp [hpos'])
    · simp only [List.append_nil, List.mem_append, List.mem_singleton] at hzero ⊢
      exact not_or.mpr ⟨hzero, hc.symm⟩
    · simp only [List.length_append, List.length_cons, List.length_nil] at hlen ⊢
      omega
  refine ⟨_, stale, ?_, hcut⟩
  simp only [List.nil_append] at hstrlen ⊢
  unfold VtyLine.insertChar
  simp only [hstrlen, Option.bind_eq_bind, Option.bind_some]
  rw [if_pos hpos', hput, Option.bind_some, hput', Option.bind_some, List.append_assoc]
  rfl

/-- **A byte more in the middle**: what stands behind the NUL comes behind the text. -/
theorem VtyLine.Cut.insertChar_middle (h : t.Cut ⟨b, a⟩ stale) (ha : a ≠ []) (c : UInt8) :
    t.insertChar c = some ⟨b ++ c :: (a ++ stale), t.pos + 1⟩ := by
  obtain ⟨line, pos⟩ := t
  have hlen := h.length
  have hstrlen := h.strlen
  obtain ⟨rfl, hzero, -, hpos⟩ := h
  have hpos' : pos = b.length := hpos
  have hpos_lt : 0 < a.length := List.length_pos_iff.mpr ha
  simp only at hlen hstrlen
  have hmove := move_right_put b a stale (0 : UInt8) c hpos'
    (show (((b.length + a.length : ℕ) : ℤ) - pos) = a.length by omega)
  unfold VtyLine.insertChar
  simp only [hstrlen, Option.bind_eq_bind, Option.bind_some]
  rw [if_neg (by omega), if_pos (by omega), hmove, Option.bind_some]
  rfl

/-- The byte under the cursor. -/
theorem VtyLine.Cut.move_left {x : UInt8} (h : t.Cut ⟨b, x :: a⟩ stale) :
    move t.line t.pos (t.pos + 1) ((b.length + (x :: a).length : ℕ) - t.pos) =
        some (b ++ (a ++ 0 :: 0 :: stale)) ∧ twriteAt t.line (t.pos + 1) = some () ∧
      (⟨b ++ (a ++ 0 :: 0 :: stale), t.pos⟩ : VtyLine).Cut ⟨b, a⟩ (0 :: stale) := by
  obtain ⟨line, pos⟩ := t
  have hlen := h.length
  obtain ⟨rfl, hzero, -, hpos⟩ := h
  have hpos' : pos = b.length := hpos
  simp only [List.length_cons] at hlen ⊢
  refine ⟨?_, ?_, ?_⟩
  · exact Cells.move_left b a stale x 0 hpos' (by push_cast; omega)
  · refine twriteAt_eq (by omega) ?_
    have hdrop : (b ++ (x :: a ++ 0 :: stale)).drop (pos + 1).toNat = a ++ 0 :: stale := by
      rw [show b ++ (x :: a ++ 0 :: stale) = (b ++ [x]) ++ (a ++ 0 :: stale) by simp]
      exact List.drop_left' (by rw [List.length_append, List.length_singleton]; omega)
    rw [hdrop]
    simp
  · refine cut_mk ?_ (by simp only [List.length_cons]; omega) hpos'
    intro hmem
    refine hzero ?_
    rcases List.mem_append.mp hmem with hmem | hmem
    · exact List.mem_append_left _ hmem
    · exact List.mem_append_right _ (List.mem_cons_of_mem x hmem)

theorem VtyLine.Cut.delChar (h : t.Cut z stale) :
    ∃ t' stale', t.delChar = some t' ∧ t'.Cut { z with after := z.after.tail } stale' := by
  obtain ⟨b, a⟩ := z
  have hstrlen := h.strlen
  have hpos : t.pos = b.length := h.cursor
  unfold VtyLine.delChar
  simp only [hstrlen, Option.bind_eq_bind, Option.bind_some]
  cases a with
  | nil =>
    rw [if_pos (.inr (by rw [hpos]; simp))]
    exact ⟨t, stale, rfl, h⟩
  | cons x a =>
    obtain ⟨hmove, hshown, hcut⟩ := h.move_left
    rw [if_neg (by simp only [List.length_cons]; omega), hshown, Option.bind_some, hmove,
      Option.bind_some]
    exact ⟨_, _, rfl, hcut⟩

theorem VtyLine.Cut.moveBackward (h : t.Cut z stale) :
    t.moveBackward.Cut ⟨z.before.dropLast, z.before.getLast?.toList ++ z.after⟩ stale := by
  obtain ⟨b, a⟩ := z
  have hpos : t.pos = b.length := h.cursor
  unfold VtyLine.moveBackward
  rcases List.eq_nil_or_concat b with rfl | ⟨b, x, rfl⟩
  · rw [if_neg (by rw [hpos]; decide)]
    exact h
  · have hlen : ((b.concat x).length : ℤ) = b.length + 1 := by simp
    rw [if_pos (by omega)]
    refine ⟨?_, ?_, h.size, ?_⟩
    · rw [h.line]
      simp
    · have hzero := h.zero
      simpa using hzero
    · show t.pos - 1 = _
      rw [hpos, hlen]
      simp

theorem VtyLine.Cut.delBackwardChar (h : t.Cut z stale) :
    ∃ t' stale', t.delBackwardChar = some t' ∧
      t'.Cut { z with before := z.before.dropLast } stale' := by
  obtain ⟨b, a⟩ := z
  have hpos : t.pos = b.length := h.cursor
  unfold VtyLine.delBackwardChar
  rcases List.eq_nil_or_concat b with rfl | ⟨b, x, rfl⟩
  · have hzero : t.pos = 0 := hpos
    rw [if_pos hzero]
    exact ⟨t, stale, rfl, h⟩
  · have hback := h.moveBackward
    rw [List.concat_eq_append] at hback hpos ⊢
    simp only [List.dropLast_concat, List.getLast?_concat, Option.toList_some,
      List.singleton_append] at hback
    have hstrlen := hback.strlen
    obtain ⟨hmove, hshown, hcut⟩ := hback.move_left
    rw [if_neg (by rw [hpos]; simp; omega)]
    simp only [hshown, hstrlen, hmove, Option.bind_eq_bind, Option.bind_some, List.dropLast_concat]
    exact ⟨_, _, rfl, hcut⟩

theorem VtyLine.Cut.moveForward (h : t.Cut z stale) :
    ∃ t' stale', t.moveForward = some t' ∧ t'.Cut (z.step .right) stale' := by
  obtain ⟨b, a⟩ := z
  have hstrlen := h.strlen
  have hlen := h.length
  have hpos : t.pos = b.length := h.cursor
  unfold VtyLine.moveForward
  simp only [hstrlen, Option.bind_eq_bind, Option.bind_some]
  cases a with
  | nil =>
    simp only [List.length_nil, Nat.add_zero] at hlen ⊢
    rw [if_neg (by omega)]
    have hstep : (⟨b, []⟩ : CursorText).step .right = CursorText.insert 32 ⟨b, []⟩ := rfl
    rw [hstep]
    unfold CursorText.insert
    by_cases hfull : b.length < maxVtyInput
    · rw [if_pos (by omega), if_pos (by simpa using hfull)]
      exact h.insertChar_end hfull (by decide)
    · rw [if_neg (by omega), if_neg (by simpa using hfull)]
      exact ⟨t, stale, rfl, h⟩
  | cons x a =>
    have hpeek : peek t.line t.pos = some x := by
      rw [h.line]
      exact peek_append b _ x hpos
    rw [if_pos (by simp only [List.length_cons]; omega), hpeek, Option.bind_some]
    refine ⟨_, stale, rfl, ?_, ?_, h.size, ?_⟩
    · show t.line = (b ++ [x]) ++ (a ++ 0 :: stale)
      rw [h.line]
      simp
    · have hzero := h.zero
      show 0 ∉ (b ++ [x]) ++ a
      simpa using hzero
    · show t.pos + 1 = ((b ++ [x]).length : ℤ)
      rw [hpos]
      simp

theorem walk_append (b a rest : Bytes) {i : ℤ} (hi : i = b.length) :
    walk (b ++ (a ++ rest)) a.length i = some (i + a.length) := by
  induction a generalizing b i with
  | nil => simp [walk]
  | cons x a ih =>
    have hnext := @ih (b ++ [x]) (i + 1) (by rw [hi]; simp)
    rw [List.length_cons, walk, List.cons_append, peek_append b _ x hi, Option.bind_some]
    rw [List.append_assoc] at hnext
    rw [show b ++ x :: (a ++ rest) = b ++ ([x] ++ (a ++ rest)) from rfl, hnext]
    congr 1
    push_cast
    omega

theorem VtyLine.Cut.moveEndOfLine (h : t.Cut z stale) :
    ∃ t', t.moveEndOfLine = some t' ∧ t'.Cut ⟨z.before ++ z.after, []⟩ stale := by
  obtain ⟨b, a⟩ := z
  have hstrlen := h.strlen
  have hpos : t.pos = b.length := h.cursor
  have hcount : (((b.length + a.length : ℕ) : ℤ) - t.pos).toNat = a.length := by omega
  have hwalk : walk t.line a.length t.pos = some (t.pos + a.length) := by
    rw [h.line]
    exact walk_append b a _ hpos
  unfold VtyLine.moveEndOfLine
  simp only [hstrlen, Option.bind_eq_bind, Option.bind_some, hcount, hwalk]
  refine ⟨_, rfl, ?_, ?_, h.size, ?_⟩
  · rw [h.line]
    simp
  · simpa using h.zero
  · show t.pos + a.length = _
    rw [hpos]
    simp

theorem VtyLine.Cut.moveBeginningOfLine (h : t.Cut z stale) :
    t.moveBeginningOfLine.Cut ⟨[], z.before ++ z.after⟩ stale := by
  have hpos := h.cursor
  refine ⟨?_, by simpa using h.zero, h.size, ?_⟩
  · show t.line = _
    rw [h.line]
    simp
  · show min t.pos 0 = 0
    omega

/-- **Clearing the line** leaves the cursor in front of it. -/
theorem VtyLine.Cut.clearInput (h : t.Cut z stale) :
    ∃ line, t.clearInput = some ⟨line, -1⟩ := by
  obtain ⟨t', hend, hcut⟩ := h.moveEndOfLine
  have hput : ∃ line, put t'.line 0 0 = some line := by
    unfold put
    rw [if_pos (by rw [hcut.size]; decide)]
    exact ⟨_, rfl⟩
  obtain ⟨line, hput⟩ := hput
  unfold VtyLine.clearInput
  simp only [hend, hput, Option.bind_eq_bind, Option.bind_some]
  exact ⟨line, rfl⟩

theorem VtyLine.Cut.clearLineFromBeg (h : t.Cut z stale) :
    ∃ t' stale', t.clearLineFromBeg = some t' ∧ t'.Cut { z with before := [] } stale' := by
  obtain ⟨b, a⟩ := z
  have hpos : t.pos = b.length := h.cursor
  have hstrlen := h.strlen
  have hlen := h.length
  unfold VtyLine.clearLineFromBeg
  cases b with
  | nil =>
    have hzero : t.pos = 0 := hpos
    rw [if_pos hzero]
    exact ⟨t, stale, rfl, h⟩
  | cons x b =>
    simp only [List.length_cons] at hpos hlen hstrlen
    have hcount : (((b.length + 1 + a.length : ℕ) : ℤ) - t.pos) = a.length := by omega
    -- the bytes between the text at its new place and the NUL at its old one
    obtain ⟨gap, hgap, hgaplen⟩ : ∃ gap, (x :: b ++ (a ++ 0 :: stale)).drop a.length =
        gap ++ 0 :: stale ∧ gap.length = b.length + 1 := by
      refine ⟨(x :: b ++ a).drop a.length, ?_, ?_⟩
      · rw [← List.append_assoc, List.drop_append_of_le_length (by simp; omega)]
      · simp only [List.length_drop, List.length_append, List.length_cons]
        omega
    have hmove : move t.line 0 t.pos a.length = some (a ++ (gap ++ 0 :: stale)) := by
      rw [h.line, ← hgap]
      exact move_front (x :: b) a (0 :: stale) hpos rfl
    have hfill : Cells.fill 32 t.pos.toNat (a ++ (gap ++ 0 :: stale)) (a.length : ℤ) =
        some (a ++ 32 :: (List.replicate b.length 32 ++ 0 :: stale)) := by
      have hturns : t.pos.toNat = gap.length := by omega
      rw [hturns, fill_append 32 a gap (0 :: stale) rfl, hgaplen]
      rfl
    have hshown : twriteAt (a ++ 32 :: (List.replicate b.length 32 ++ 0 :: stale)) 0 = some () :=
      twriteAt_eq (Int.le_refl 0) (by simp)
    have hput : put (a ++ 32 :: (List.replicate b.length 32 ++ 0 :: stale)) (a.length : ℤ) 0 =
        some (a ++ 0 :: (List.replicate b.length 32 ++ 0 :: stale)) := put_append a _ 32 0 rfl
    rw [if_neg (by omega)]
    simp only [hstrlen, hcount, hmove, hfill, hshown, hput, Option.bind_eq_bind, Option.bind_some]
    refine ⟨_, _, rfl, @cut_mk [] a (List.replicate b.length 32 ++ 0 :: stale) 0 ?_ ?_ rfl⟩
    · exact fun hmem => h.zero (List.mem_append_right _ hmem)
    · simp only [List.length_nil, List.length_append, List.length_replicate, List.length_cons]
      omega

/-! ## One key -/

/-- The line is as it should be: it holds the text, the cursor is where it is in the text, and
neither leaves the array. -/
structure VtyLine.Right (t : VtyLine) (z : CursorText) : Prop extends t.Shows z where
  pos_nonneg : 0 ≤ t.pos
  pos_le : t.pos ≤ (cstr t.line).length
  length_le : (cstr t.line).length ≤ maxVtyInput

theorem VtyLine.Cut.right (h : t.Cut z stale) : t.Right z := by
  have hshows := h.shows
  have hlen := h.length
  refine ⟨hshows, ?_, ?_, ?_⟩
  · rw [hshows.cursor]
    omega
  · rw [hshows.cursor, hshows.text, List.length_append]
    omega
  · rw [hshows.text, List.length_append]
    omega

/-- A byte more at the end of a full line is written behind the array. -/
theorem VtyLine.Cut.insertChar_full (h : t.Cut ⟨b, []⟩ []) (c : UInt8) :
    t.insertChar c = none := by
  obtain ⟨line, pos⟩ := t
  have hstrlen := h.strlen
  obtain ⟨rfl, -, -, hpos⟩ := h
  have hpos' : pos = b.length := hpos
  have hput : put (b ++ 0 :: []) pos c = some (b ++ c :: []) := put_append b [] 0 c hpos'
  have hput' : put (b ++ c :: []) (pos + 1) 0 = none := by
    unfold put
    rw [if_neg (by simp; omega)]
  simp only [List.nil_append, List.length_nil, Nat.add_zero] at hstrlen ⊢
  unfold VtyLine.insertChar
  simp only [hstrlen, Option.bind_eq_bind, Option.bind_some]
  rw [if_pos hpos', hput, Option.bind_some, hput']
  rfl

/-- Behind the NUL that the text was moved over another one is needed. -/
theorem not_shows_of_ne {y : UInt8} (hy : y ≠ 0)
    (h : (⟨b ++ (a ++ y :: stale), p⟩ : VtyLine).Shows ⟨b, a⟩) : False := by
  obtain ⟨more, hline⟩ := exists_eq_cstr_append h.ended
  rw [h.text, List.append_assoc] at hline
  have hback := List.append_cancel_left (List.append_cancel_left hline)
  exact hy (List.cons.inj hback).1

/-- A byte is inserted as it should be if and only if it fits. -/
theorem VtyLine.Cut.insertChar_iff (h : t.Cut z stale) (hc : c ≠ 0) :
    (∃ t', t.insertChar c = some t' ∧ t'.Right (z.insert c)) ↔
      (VtyKey.insertChar c hc).Fits t := by
  obtain ⟨b, a⟩ := z
  have hlen := h.length
  have hpos : t.pos = b.length := h.cursor
  have htext : (cstr t.line).length = b.length + a.length := by
    rw [h.shows.text, List.length_append]
  unfold VtyKey.Fits CursorText.insert
  simp only [List.length_append] at hlen ⊢
  rw [htext]
  cases a with
  | nil =>
    simp only [List.length_nil, Nat.add_zero] at hlen ⊢
    by_cases hroom : b.length < maxVtyInput
    · obtain ⟨t', stale', hinsert, hcut⟩ := h.insertChar_end hroom hc
      rw [if_pos hroom]
      exact iff_of_true ⟨t', hinsert, hcut.right⟩ ⟨hroom, .inl hpos⟩
    · obtain rfl : stale = [] := List.eq_nil_of_length_eq_zero (by omega)
      refine iff_of_false ?_ fun hfits => hroom hfits.1
      rintro ⟨t', hinsert, -⟩
      rw [h.insertChar_full c] at hinsert
      contradiction
  | cons x a =>
    have hne : x :: a ≠ [] := List.cons_ne_nil x a
    rw [h.insertChar_middle hne c]
    cases stale with
    | nil =>
      simp only [List.length_nil, Nat.add_zero] at hlen
      refine iff_of_false ?_ fun hfits => by omega
      rintro ⟨t', hinsert, hright⟩
      obtain rfl := Option.some.inj hinsert
      have hended := hright.ended
      have hzero := h.zero
      simp only [List.append_nil, List.mem_append, List.mem_cons] at hended hzero
      rcases hended with hb | hc' | hxa
      · exact hzero (.inl hb)
      · exact hc hc'.symm
      · exact hzero (.inr hxa)
    | cons y stale =>
      have hroom : b.length + (x :: a).length < maxVtyInput := by
        simp only [List.length_cons] at hlen ⊢
        omega
      have hbehind : t.line[b.length + (x :: a).length + 1]? = some y := by
        have hfront : b.length + (x :: a).length + 1 = (b ++ (x :: a) ++ [0]).length := by
          simp only [List.length_append, List.length_cons, List.length_nil]
        rw [h.line, hfront, show b ++ (x :: a ++ 0 :: y :: stale) =
          (b ++ (x :: a) ++ [0]) ++ y :: stale by simp,
          List.getElem?_append_right (Nat.le_refl _), Nat.sub_self, List.getElem?_cons_zero]
      rw [if_pos hroom, hbehind]
      have hline : b ++ c :: (x :: a ++ y :: stale) = (b ++ [c]) ++ (x :: a ++ y :: stale) := by
        simp
      rw [hline]
      by_cases hy : y = 0
      · subst hy
        refine iff_of_true ⟨_, rfl, VtyLine.Cut.right (cut_mk ?_ ?_ ?_)⟩ ⟨hroom, .inr rfl⟩
        · have hzero := h.zero
          simp only [List.mem_append, List.mem_singleton] at hzero ⊢
          rintro ((hb | hc') | hxa)
          · exact hzero (.inl hb)
          · exact hc hc'.symm
          · exact hzero (.inr hxa)
        · simp only [List.length_append, List.length_cons, List.length_nil] at hlen ⊢
          omega
        · rw [hpos]
          simp
      · refine iff_of_false ?_ ?_
        · rintro ⟨t', hinsert, hright⟩
          obtain rfl := Option.some.inj hinsert
          exact not_shows_of_ne hy hright.toShows
        · rintro ⟨-, hend | hzero⟩
          · rw [hpos] at hend
            simp only [List.length_cons] at hend
            omega
          · exact hy (Option.some.inj hzero)

end

/-- **One key**: a line that is right stays so if and only if the key fits it. -/
theorem VtyKey.right_iff {t : VtyLine} {z : CursorText} (h : t.Shows z) (key : VtyKey) :
    (∃ t', key.run t = some t' ∧ t'.Right (z.step key)) ↔ key.Fits t := by
  obtain ⟨stale, hcut⟩ := h.cut
  cases key with
  | insertChar c hc => exact hcut.insertChar_iff hc
  | deleteChar =>
    obtain ⟨t', stale', hrun, hcut'⟩ := hcut.delChar
    exact iff_of_true ⟨t', hrun, hcut'.right⟩ trivial
  | deleteBackwardChar =>
    obtain ⟨t', stale', hrun, hcut'⟩ := hcut.delBackwardChar
    exact iff_of_true ⟨t', hrun, hcut'.right⟩ trivial
  | left => exact iff_of_true ⟨_, rfl, hcut.moveBackward.right⟩ trivial
  | right =>
    obtain ⟨t', stale', hrun, hcut'⟩ := hcut.moveForward
    exact iff_of_true ⟨t', hrun, hcut'.right⟩ trivial
  | beginningOfLine => exact iff_of_true ⟨_, rfl, hcut.moveBeginningOfLine.right⟩ trivial
  | endOfLine =>
    obtain ⟨t', hrun, hcut'⟩ := hcut.moveEndOfLine
    exact iff_of_true ⟨t', hrun, hcut'.right⟩ trivial
  | clearLine =>
    obtain ⟨line, hrun⟩ := hcut.clearInput
    refine iff_of_false ?_ id
    rintro ⟨t', hrun', hright⟩
    obtain rfl := Option.some.inj (hrun.symm.trans hrun')
    have hneg : (0 : ℤ) ≤ -1 := hright.pos_nonneg
    exact absurd hneg (by decide)
  | clearLineFromBeginning =>
    obtain ⟨t', stale', hrun, hcut'⟩ := hcut.clearLineFromBeg
    exact iff_of_true ⟨t', hrun, hcut'.right⟩ trivial

/-! ## Runs -/

/-- After the keys so far the line is right. -/
def LineRight (pre : List (VtyKey × Unit)) (t : Option VtyLine) : Prop :=
  ∃ line ∈ t, line.Right (CursorText.typed (pre.map Prod.fst))

/-- The key fits the line before it. -/
def KeyFits (_ : List (VtyKey × Unit)) (t : Option VtyLine) (key : VtyKey) : Prop :=
  ∀ line ∈ t, key.Fits line

theorem lineRight_nil : LineRight [] lineEditor.init := by
  refine ⟨_, rfl, @VtyLine.Cut.right _ _ (List.replicate maxVtyInput 0) ⟨?_, ?_, ?_, ?_⟩⟩
  · rfl
  · exact List.not_mem_nil
  · exact List.length_replicate ..
  · rfl

/-- **The line editor**: for every sequence of keys, the line is right in every state if and only
if every key fits the line that it is typed into. -/
theorem lineEditor_iff (keys : List VtyKey) :
    lineEditor.Always LineRight (lineEditor.history keys) ↔
      lineEditor.EveryStep KeyFits (lineEditor.history keys) := by
  refine (lineEditor.reaches_history keys).always_iff_everyStep lineRight_nil ?_
  rintro pre t key t' ⟨⟩ - ⟨line, rfl, hright⟩ hstep
  obtain ⟨rfl, -⟩ := Prod.mk.inj (Except.ok.inj hstep)
  have htyped : CursorText.typed ((pre ++ [(key, ())]).map Prod.fst) =
      (CursorText.typed (pre.map Prod.fst)).step key := by
    unfold CursorText.typed
    rw [List.map_append, List.foldl_append]
    rfl
  unfold LineRight KeyFits
  rw [htyped]
  have hone := key.right_iff hright.toShows
  constructor
  · rintro ⟨line', hrun, hright'⟩ line₁ hline₁
    obtain rfl := Option.some.inj hline₁
    exact hone.mp ⟨line', hrun, hright'⟩
  · intro hfits
    obtain ⟨line', hrun, hright'⟩ := hone.mpr (hfits line rfl)
    exact ⟨line', hrun, hright'⟩

/-- `abc` is typed, the cursor moved to the `c`, what stands before it cleared, and a `d` typed. -/
def typedInFront : List VtyKey :=
  [.insertChar 97 (by decide), .insertChar 98 (by decide), .insertChar 99 (by decide), .left,
    .clearLineFromBeginning, .insertChar 100 (by decide)]

/-- The cursor behind a cleared line, and the text after a byte in front of a shorter one. -/
theorem lineEditor_breaks :
    (lineEditor.final [.clearLine]).map (·.pos) = some (-1) ∧
      ¬ lineEditor.Always LineRight (lineEditor.history [.clearLine]) ∧
      CursorText.typed typedInFront = ⟨str "d", str "c"⟩ ∧
      (lineEditor.final typedInFront).map (fun t => cstr t.line) =
        some (str "dc ") := by
  have hpos : (lineEditor.final [.clearLine]).map (·.pos) = some (-1) := by
    decide +kernel
  refine ⟨hpos, fun halways => ?_, by decide +kernel, by decide +kernel⟩
  obtain ⟨line, hline, hright⟩ := halways _ [] _ (List.append_nil _).symm
    (lineEditor.reaches_history [.clearLine])
  rw [Option.mem_def.mp hline] at hpos
  have hneg : line.pos = -1 := Option.some.inj hpos
  have hnonneg := hright.pos_nonneg
  omega

end Tacppd
