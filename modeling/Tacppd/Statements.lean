/-
# Values in the statements of the pgsql driver

`TacDb::add` escapes a string with `utl::toSQL` before it puts it into the table
description, and the driver writes it between quotes in a buffer of its own: 80 bytes in
`db_add`, 90 in `db_update` and `db_del`, 100 in `db_query`.  A value that fits is one
closed literal.  One byte more and the closing quote is cut off, or in `db_add` the comma
behind it, so that the literal runs on into the rest of the statement.

`literal_closed_iff` gives the exact length for each of the builders.
-/
import Tacppd.Atoi
import Tacppd.Select

namespace Tacppd

open Sql (quote)

/-! ## The builders -/

/-- A number as it is printed with `%d`. -/
def signedText (v : ℕ) : Bytes := str (toString (toInt v))

/-- A string between quotes in a buffer of `n` bytes: the string is cut to `n - 3` bytes and
the whole to `n - 2`. -/
def quotedIn (n : ℕ) (v : Bytes) : Bytes :=
  snprintf (n - 1) (quote :: (cstr v).take (n - 3) ++ [quote])

/-- A value in `db_update` and `db_del`, with `char tmp[90]`. -/
def DbValue.shownUpdate (time2iso : ℤ → Bytes) : DbValue → Bytes
  | bool v => if v then str "true" else str "false"
  | int v => snprintf 89 (signedText v)
  | float v => snprintf 89 v
  | string v => quotedIn 90 v
  | date v => snprintf 89 (quote :: time2iso v ++ [quote])
  | ip v => snprintf 89 (quote :: v ++ [quote])

/-- A value in `db_add`, with `char tmp[80]` and the comma in the buffer. -/
def DbValue.shownAdd (time2iso : ℤ → Bytes) : DbValue → Bytes
  | bool v => if v then str "true," else str "false,"
  | int v => snprintf 79 (signedText v ++ str ",")
  | float v => snprintf 79 (v ++ str ",")
  | string v => snprintf 79 (quote :: (cstr v).take 77 ++ [quote] ++ str ",")
  | date v =>
    if v < 100 then str "NULL,"
    else snprintf 79 (quote :: time2iso v ++ [quote] ++ str ",")
  | ip v =>
    if v = unknownIp then str "NULL,"
    else snprintf 79 (quote :: v ++ [quote] ++ str ",")

/-- A field name, in a buffer of 100 bytes. -/
def DbField.shownName (f : DbField) : Bytes := snprintf 99 f.name

/-- A field that is asked for. -/
def condition (shown : DbValue → Bytes) (f : DbField) : Bytes :=
  f.shownName ++ str "=" ++ shown f.value ++ str " AND "

/-- `ppp`: the fields that are asked for, with AND between them. -/
def conditions (shown : DbValue → Bytes) (fields : List DbField) : Bytes :=
  let ppp := ((fields.filter fun f => f.request).map (condition shown)).flatten
  if 5 < ppp.length then ppp.take (ppp.length - 5) else ppp

/-- `db_add`; the erasure of the last comma throws where there is none. -/
def dbAdd (time2iso : ℤ → Bytes) (d : DbTable) : Option Bytes :=
  let fff := (d.fields.map fun f => snprintf 79 (f.shownName ++ str ",")).flatten
  let vvv := (d.fields.map fun f => f.value.shownAdd time2iso).flatten
  if fff = [] ∨ vvv = [] then none
  else some (str "INSERT INTO " ++ d.name ++ str "(" ++ fff.dropLast ++ str ") VALUES (" ++
    vvv.dropLast ++ str ")")

/-- `vvv` of `db_update`: the fields that are marked by `set_update`. -/
def settings (time2iso : ℤ → Bytes) (update : Bytes → Bool) (fields : List DbField) : Bytes :=
  ((fields.filter fun f => update f.name).map fun f =>
    f.shownName ++ str "=" ++ f.value.shownUpdate time2iso ++ str ",").flatten

/-- `db_update`. -/
def dbUpdate (time2iso : ℤ → Bytes) (update : Bytes → Bool) (d : DbTable) : Option Bytes :=
  let vvv := settings time2iso update d.fields
  if vvv = [] then none
  else some (str "UPDATE " ++ d.name ++ str " SET " ++ vvv.dropLast ++ str " WHERE " ++
    conditions (DbValue.shownUpdate time2iso) d.fields)

/-- `db_del`. -/
def dbDel (time2iso : ℤ → Bytes) (d : DbTable) : Bytes :=
  str "DELETE FROM " ++ d.name ++ str " WHERE " ++
    conditions (DbValue.shownUpdate time2iso) d.fields

/-! ## A value as one literal -/

/-- Between two quotes the text is read to its end as the inside of one literal. -/
def Inside (f : UInt8 → UInt8) (x : Bytes) : Prop :=
  ∃ w, Sql.run (some f) (.lit []) x = (.lit w, [])

/-- The statement has the text `v` as one closed literal, between the text before it and the
text after it that the builder writes. -/
def OneLiteral (f : UInt8 → UInt8) (v head tail req : Bytes) : Prop :=
  req = head ++ quote :: (v ++ quote :: tail) ∧ Inside f v

section

variable {f : UInt8 → UInt8} {s x t : Bytes}

/-- One escaped byte is read as one byte of the literal. -/
theorem run_sqlByte (u : Bytes) (c : UInt8) :
    ∃ b, ∀ t, Sql.run (some f) (.lit u) (sqlByte c ++ t) =
      Sql.run (some f) (.lit (u ++ [b])) t := by
  rw [sqlByte]
  split
  · have hne : Sql.backslash ≠ quote := by decide
    exact ⟨f c, fun t => by simp [Sql.run, Sql.step, hne]⟩
  · next hc =>
    rw [not_or, not_or] at hc
    exact ⟨c, fun t => by simp [Sql.run, Sql.step, hc.1, hc.2.1]⟩

/-- Behind its backslash the literal is not closed. -/
theorem run_sqlByte_part (u : Bytes) (c : UInt8) (h : t <+: sqlByte c) (hne : t ≠ sqlByte c) :
    ∃ w, Sql.run (some f) (.lit u) t = (.lit w, []) ∨
      Sql.run (some f) (.lit u) t = (.escape w, []) := by
  rw [sqlByte] at h hne
  have hslash : Sql.backslash ≠ quote := by decide
  split at h
  · next hc =>
    rw [if_pos hc] at hne
    rcases t with _ | ⟨b, t⟩
    · exact ⟨u, .inl rfl⟩
    · rw [List.cons_prefix_cons] at h
      obtain ⟨rfl, h⟩ := h
      rcases t with _ | ⟨b, t⟩
      · exact ⟨u, .inr (by simp [Sql.run, Sql.step, hslash])⟩
      · rw [List.cons_prefix_cons, List.prefix_nil] at h
        obtain ⟨rfl, rfl⟩ := h
        exact absurd rfl hne
  · next hc =>
    rw [if_neg hc] at hne
    rcases t with _ | ⟨b, t⟩
    · exact ⟨u, .inl rfl⟩
    · rw [List.cons_prefix_cons, List.prefix_nil] at h
      obtain ⟨rfl, rfl⟩ := h
      exact absurd rfl hne

/-- A part of an escaped text is read as the inside of a literal, and may end behind a
backslash. -/
theorem run_flatMap_sqlByte (u : Bytes) (h : t <+: s.flatMap sqlByte) :
    ∃ w, Sql.run (some f) (.lit u) t = (.lit w, []) ∨
      Sql.run (some f) (.lit u) t = (.escape w, []) := by
  induction s generalizing u t with
  | nil =>
    obtain rfl := List.prefix_nil.mp h
    exact ⟨u, .inl rfl⟩
  | cons c s ih =>
    rw [List.flatMap_cons] at h
    -- the part ends inside the first escaped byte, or it goes on behind it
    rcases List.prefix_or_prefix_of_prefix h (List.prefix_append _ _) with hpart | ⟨t', rfl⟩
    · by_cases hne : t = sqlByte c
      · obtain ⟨b, hb⟩ := @run_sqlByte f u c
        have hrun := hb []
        rw [List.append_nil, ← hne] at hrun
        exact ⟨u ++ [b], .inl hrun⟩
      · exact run_sqlByte_part u c hpart hne
    · obtain ⟨b, hb⟩ := @run_sqlByte f u c
      rw [hb]
      exact ih (u ++ [b]) ((List.prefix_append_right_inj _).mp h)

/-- An escaped text is read to its end. -/
theorem inside_flatMap_sqlByte (s : Bytes) : Inside f (s.flatMap sqlByte) := by
  suffices hrun : ∀ u, ∃ w, Sql.run (some f) (.lit u) (s.flatMap sqlByte) = (.lit w, []) by
    exact hrun []
  induction s with
  | nil => exact fun u => ⟨u, rfl⟩
  | cons c s ih =>
    intro u
    obtain ⟨b, hb⟩ := @run_sqlByte f u c
    rw [List.flatMap_cons, hb]
    exact ih (u ++ [b])

/-- What `toSQL` gives is a text escaped whole: its loop stops between two bytes. -/
theorem toSqlLoop_eq_flatMap (j : ℕ) (s : Bytes) :
    ∃ s', toSqlLoop j s = s'.flatMap sqlByte ∧ s' <+: s := by
  induction s generalizing j with
  | nil => exact ⟨[], rfl, List.prefix_rfl⟩
  | cons c s ih =>
    rw [toSqlLoop]
    split
    · obtain ⟨s', hs', hs⟩ := ih (j + (sqlByte c).length)
      exact ⟨c :: s', by rw [hs', List.flatMap_cons], List.cons_prefix_cons.mpr ⟨rfl, hs⟩⟩
    · exact ⟨[], rfl, List.nil_prefix⟩

theorem toSQL_eq_flatMap (s : Bytes) :
    ∃ s' : Bytes, toSQL s = s'.flatMap sqlByte ∧ (0 : UInt8) ∉ s' := by
  obtain ⟨s', hs', hs⟩ := toSqlLoop_eq_flatMap 0 (snprintf 899 s)
  refine ⟨s', hs', fun h0 => zero_not_mem_cstr s ?_⟩
  exact List.mem_of_mem_take (hs.subset h0)

theorem zero_not_mem_toSQL (s : Bytes) : (0 : UInt8) ∉ toSQL s := by
  obtain ⟨s', hs', h0⟩ := toSQL_eq_flatMap s
  rw [hs']
  intro hmem
  obtain ⟨c, hc, hin⟩ := List.mem_flatMap.mp hmem
  exact h0 (zero_mem_sqlByte hin ▸ hc)

theorem inside_toSQL (s : Bytes) : Inside f (toSQL s) := by
  obtain ⟨s', hs', -⟩ := toSQL_eq_flatMap s
  rw [hs']
  exact inside_flatMap_sqlByte s'

/-- No part of an escaped text closes a literal. -/
theorem not_closed_toSQL (h : x ++ [quote] <+: toSQL s) : ¬ Inside f x := by
  rintro ⟨w, hw⟩
  obtain ⟨s', hs', -⟩ := toSQL_eq_flatMap s
  rw [hs'] at h
  obtain ⟨w', hw'⟩ := @run_flatMap_sqlByte f s' _ [] h
  rw [Sql.run_append, hw] at hw'
  simp [Sql.run, Sql.step] at hw'

/-- A text that fits its buffer has both quotes, and one that does not has no closing one. -/
theorem quotedIn_eq {n : ℕ} (hn : 4 ≤ n) (h0 : (0 : UInt8) ∉ t) :
    quotedIn n t =
      if t.length ≤ n - 4 then quote :: (t ++ [quote]) else quote :: t.take (n - 3) := by
  have h0' : (0 : UInt8) ∉ quote :: t.take (n - 3) ++ [quote] := by
    simp only [List.cons_append, List.mem_cons, List.mem_append, List.not_mem_nil, or_false,
      not_or]
    exact ⟨by decide, fun h => h0 (List.mem_of_mem_take h), by decide⟩
  obtain ⟨k, rfl⟩ : ∃ k, n = k + 4 := ⟨n - 4, by omega⟩
  rw [quotedIn, cstr_eq_self h0, snprintf, cstr_eq_self h0',
    show k + 4 - 1 - 1 = k + 1 + 1 by omega, show k + 4 - 3 = k + 1 by omega,
    show k + 4 - 4 = k by omega, List.cons_append, List.take_succ_cons]
  split
  · next hfit =>
    rw [List.take_of_length_le (show t.length ≤ k + 1 by omega),
      List.take_of_length_le (by simp only [List.length_append, List.length_singleton]; omega)]
  · next hlong =>
    have hlen : (t.take (k + 1)).length = k + 1 := by
      rw [List.length_take]
      omega
    rw [List.take_append_of_le_length (by omega), List.take_take, Nat.min_self]

/-- The closed literal at a place of a statement is the only one there. -/
theorem oneLiteral_unique {head tail : Bytes} (ht : Inside f t) :
    OneLiteral f x head tail (head ++ quote :: (t ++ quote :: tail)) ↔ x = t := by
  constructor
  · rintro ⟨hreq, -⟩
    have hrest := List.append_cancel_left hreq
    rw [List.cons_eq_cons] at hrest
    exact (List.append_cancel_right hrest.2).symm
  · rintro rfl
    exact ⟨rfl, ht⟩

/-- **A value between its quotes**, with the rest of the statement behind it: when it fits, it
is the literal, and when it does not, there is none. -/
theorem oneLiteral_quotedIn {n : ℕ} (hn : 4 ≤ n) (s head tail : Bytes) :
    OneLiteral f x head tail (head ++ quotedIn n (toSQL s) ++ tail) ↔
      x = toSQL s ∧ (toSQL s).length ≤ n - 4 := by
  rw [quotedIn_eq hn (zero_not_mem_toSQL s)]
  split
  · next hfit =>
    have htext : head ++ quote :: (toSQL s ++ [quote]) ++ tail =
        head ++ quote :: (toSQL s ++ quote :: tail) := by simp
    rw [htext, oneLiteral_unique (inside_toSQL s), and_iff_left hfit]
  · next hlong =>
    refine iff_of_false ?_ (fun h => hlong h.2)
    rintro ⟨hreq, hin⟩
    -- the quote that closes it would be one of the escaped text
    have hx : (toSQL s).take (n - 3) = x ++ [quote] := by
      have hrest : (toSQL s).take (n - 3) ++ tail = (x ++ [quote]) ++ tail := by
        simpa [List.append_assoc] using hreq
      exact List.append_cancel_right hrest
    exact not_closed_toSQL (hx ▸ List.take_prefix _ _) hin

/-- The same with the comma in the buffer, as `db_add` has it. -/
theorem shownAdd_toSQL (time2iso : ℤ → Bytes) (s : Bytes) :
    (DbValue.string (toSQL s)).shownAdd time2iso =
      if (toSQL s).length ≤ 75 then quote :: (toSQL s ++ quote :: str ",")
      else if (toSQL s).length = 76 then quote :: (toSQL s ++ [quote])
      else quote :: (toSQL s).take 77 := by
  have h0 := zero_not_mem_toSQL s
  have h0' : (0 : UInt8) ∉ quote :: (toSQL s).take 77 ++ [quote] ++ str "," := by
    simp only [List.cons_append, List.mem_cons, List.mem_append, List.not_mem_nil, or_false,
      not_or]
    exact ⟨by decide, ⟨fun h => h0 (List.mem_of_mem_take h), by decide⟩, by decide⟩
  have hcomma : (str ",").length = 1 := by decide
  rw [DbValue.shownAdd, cstr_eq_self h0, snprintf, cstr_eq_self h0', List.cons_append,
    List.cons_append, show 79 - 1 = 77 + 1 by rfl, List.take_succ_cons, List.append_assoc]
  split
  · next hfit =>
    rw [List.take_of_length_le (show (toSQL s).length ≤ 77 by omega), List.take_of_length_le]
    · rfl
    · simp only [List.length_append, List.length_singleton, hcomma]
      omega
  · split
    · next hlen =>
      rw [List.take_of_length_le (show (toSQL s).length ≤ 77 by omega), List.take_append, hlen]
      rw [List.take_of_length_le (by omega)]
      rfl
    · next hlong =>
      have hlen : ((toSQL s).take 77).length = 77 := by
        rw [List.length_take]
        omega
      rw [List.take_append_of_le_length (by omega), List.take_take, Nat.min_self]

/-- A value that fits, with the values behind it and the last comma erased. -/
theorem shownAdd_fits (time2iso : ℤ → Bytes) {s : Bytes} (hfit : (toSQL s).length ≤ 75)
    (rest : Bytes) :
    ((DbValue.string (toSQL s)).shownAdd time2iso ++ rest).dropLast =
      quote :: (toSQL s ++ quote :: (str "," ++ rest).dropLast) := by
  have hne : str "," ++ rest ≠ [] := by simp [show str "," = [44] by decide]
  have happend : quote :: (toSQL s ++ quote :: str ",") ++ rest =
      (quote :: (toSQL s ++ [quote])) ++ (str "," ++ rest) := by simp
  rw [shownAdd_toSQL, if_pos hfit, happend, List.dropLast_append_of_ne_nil hne]
  simp

/-- **A value in `db_add`**, with the values behind it and the closing bracket. -/
theorem oneLiteral_shownAdd (time2iso : ℤ → Bytes) (s head rest back : Bytes) :
    OneLiteral f x head ((str "," ++ rest).dropLast ++ back)
        (head ++ ((DbValue.string (toSQL s)).shownAdd time2iso ++ rest).dropLast ++ back) ↔
      x = toSQL s ∧ (toSQL s).length ≤ 75 := by
  have hcomma : str "," = [44] := by decide
  by_cases hfit : (toSQL s).length ≤ 75
  · have htext : head ++ quote :: (toSQL s ++ quote :: (str "," ++ rest).dropLast) ++ back =
        head ++ quote :: (toSQL s ++ quote :: ((str "," ++ rest).dropLast ++ back)) := by simp
    rw [shownAdd_fits time2iso hfit, htext, oneLiteral_unique (inside_toSQL s),
      and_iff_left hfit]
  · rw [shownAdd_toSQL, if_neg hfit]
    refine iff_of_false ?_ (fun h => hfit h.2)
    rintro ⟨hreq, hin⟩
    -- the comma is cut, and from 77 bytes on the closing quote
    obtain ⟨piece, hpiece, hcut⟩ : ∃ piece,
        (if (toSQL s).length = 76 then quote :: (toSQL s ++ [quote])
          else quote :: (toSQL s).take 77) = quote :: piece ∧
        (piece = toSQL s ++ [quote] ∨ piece = (toSQL s).take 77) := by
      split
      · exact ⟨_, rfl, .inl rfl⟩
      · exact ⟨_, rfl, .inr rfl⟩
    have hpart : piece.dropLast <+: toSQL s := by
      rcases hcut with rfl | rfl
      · rw [List.dropLast_concat]
      · exact (List.dropLast_prefix _).trans (List.take_prefix _ _)
    have hne : piece ≠ [] := by
      rcases hcut with rfl | rfl
      · simp
      · apply List.ne_nil_of_length_pos
        rw [List.length_take]
        omega
    rw [hpiece] at hreq
    by_cases hrest : rest = []
    · -- the last value of the statement
      subst hrest
      have hlast : piece.dropLast ++ back = (x ++ [quote]) ++ back := by
        simpa [List.dropLast_cons_of_ne_nil hne, hcomma, List.append_assoc] using hreq
      exact not_closed_toSQL (List.append_cancel_right hlast ▸ hpart) hin
    · have hbehind : piece ++ (rest.dropLast ++ back) =
          (x ++ [quote, 44]) ++ (rest.dropLast ++ back) := by
        rw [List.dropLast_append_of_ne_nil hrest, List.dropLast_append_of_ne_nil hrest] at hreq
        simpa [hcomma, List.append_assoc] using hreq
      have heq := List.append_cancel_right hbehind
      rcases hcut with rfl | rfl
      · have hlast := congrArg List.getLast? heq
        simp [quote] at hlast
      · have hclosed : x ++ [quote] <+: (toSQL s).take 77 := by
          rw [heq]
          exact ⟨[44], by simp⟩
        exact not_closed_toSQL (hclosed.trans (List.take_prefix 77 (toSQL s))) hin

end

/-! ## The place of a value in a statement -/

/-- The text that a builder writes before a value, and after it. -/
structure Slot where
  head : Bytes
  tail : Bytes

/-- The statement has the text `v` as one closed literal at the place of the value. -/
def Slot.HasLiteral (f : UInt8 → UInt8) (slot : Slot) (v req : Bytes) : Prop :=
  OneLiteral f v slot.head slot.tail req

section

variable (time2iso : ℤ → Bytes) (shown : DbValue → Bytes) (name front : Bytes)
  (pre : List DbField) (x : DbField) (post : List DbField)

/-- Among the values of `db_add`. -/
def addSlot : Slot where
  head := str "INSERT INTO " ++ name ++ str "(" ++
    ((pre ++ x :: post).map fun f => snprintf 79 (f.shownName ++ str ",")).flatten.dropLast ++
    str ") VALUES (" ++ (pre.map fun f => f.value.shownAdd time2iso).flatten
  tail := (str "," ++ (post.map fun f => f.value.shownAdd time2iso).flatten).dropLast ++ str ")"

/-- Among the conditions, with the beginning of the statement. -/
def conditionSlot : Slot where
  head := front ++ ((pre.filter fun f => f.request).map (condition shown)).flatten ++
    x.shownName ++ str "="
  tail :=
    let rest := str " AND " ++ ((post.filter fun f => f.request).map (condition shown)).flatten
    rest.take (rest.length - 5)

/-- Among the conditions of `db_query`. -/
def querySlot : Slot :=
  conditionSlot (DbValue.shown time2iso)
    (str "SELECT " ++ selectList ⟨name, pre ++ x :: post⟩ ++ str " FROM " ++ name ++
      str " WHERE ") pre x post

/-- Among the conditions of `db_del`. -/
def delSlot : Slot :=
  conditionSlot (DbValue.shownUpdate time2iso) (str "DELETE FROM " ++ name ++ str " WHERE ")
    pre x post

/-- Among the conditions of `db_update`. -/
def updateSlot (update : Bytes → Bool) : Slot :=
  conditionSlot (DbValue.shownUpdate time2iso)
    (str "UPDATE " ++ name ++ str " SET " ++
      (settings time2iso update (pre ++ x :: post)).dropLast ++ str " WHERE ") pre x post

/-- Among the new values of `db_update`. -/
def settingSlot (update : Bytes → Bool) : Slot where
  head := str "UPDATE " ++ name ++ str " SET " ++ settings time2iso update pre ++
    x.shownName ++ str "="
  tail := (str "," ++ settings time2iso update post).dropLast ++ str " WHERE " ++
    conditions (DbValue.shownUpdate time2iso) (pre ++ x :: post)

end

section

variable {f : UInt8 → UInt8} {time2iso : ℤ → Bytes} {shown : DbValue → Bytes} {front : Bytes}
  {pre post : List DbField} {x : DbField}

/-- The conditions around one of them. -/
theorem conditions_eq (hx : x.request = true) :
    front ++ conditions shown (pre ++ x :: post) =
      (conditionSlot shown front pre x post).head ++ shown x.value ++
        (conditionSlot shown front pre x post).tail := by
  have hand : (str " AND ").length = 5 := by decide
  have heq : (str "=").length = 1 := by decide
  obtain ⟨a, ha⟩ : ∃ a, a = ((pre.filter fun f => f.request).map (condition shown)).flatten :=
    ⟨_, rfl⟩
  obtain ⟨b, hb⟩ : ∃ b, b = ((post.filter fun f => f.request).map (condition shown)).flatten :=
    ⟨_, rfl⟩
  have hppp : (((pre ++ x :: post).filter fun f => f.request).map (condition shown)).flatten =
      (a ++ x.shownName ++ str "=" ++ shown x.value) ++ (str " AND " ++ b) := by
    rw [List.filter_append, List.filter_cons, if_pos hx, List.map_append, List.map_cons,
      List.flatten_append, List.flatten_cons, ← ha, ← hb, condition]
    simp only [List.append_assoc]
  rw [conditions, hppp, conditionSlot, ← ha, ← hb]
  simp only
  rw [if_pos (by simp only [List.length_append, hand, heq]; omega), List.take_append]
  rw [List.take_of_length_le (by simp only [List.length_append, hand]; omega)]
  -- the five characters that are dropped are the last AND
  have hcount : (a ++ x.shownName ++ str "=" ++ shown x.value ++ (str " AND " ++ b)).length - 5 -
      (a ++ x.shownName ++ str "=" ++ shown x.value).length =
        (str " AND " ++ b).length - 5 := by
    simp only [List.length_append, hand]
    omega
  rw [hcount]
  simp only [List.append_assoc]

theorem settings_eq {update : Bytes → Bool} (hx : update x.name = true) :
    settings time2iso update (pre ++ x :: post) =
      settings time2iso update pre ++ x.shownName ++ str "=" ++ x.value.shownUpdate time2iso ++
        (str "," ++ settings time2iso update post) := by
  rw [settings, List.filter_append, List.filter_cons, if_pos hx, List.map_append, List.map_cons,
    List.flatten_append, List.flatten_cons]
  simp only [settings, List.append_assoc]

end

/-! ### One builder after the other -/

section

variable {f : UInt8 → UInt8} {time2iso : ℤ → Bytes} {name s v req : Bytes}
  {pre post : List DbField} {x : DbField}

/-- The text of `db_add` around a value. -/
theorem dbAdd_text (hx : x.value.shownAdd time2iso ≠ [])
    (hreq : dbAdd time2iso ⟨name, pre ++ x :: post⟩ = some req) :
    req = (addSlot time2iso name pre x post).head ++
      (x.value.shownAdd time2iso ++
        (post.map fun f => f.value.shownAdd time2iso).flatten).dropLast ++ str ")" := by
  rw [dbAdd] at hreq
  split at hreq
  · contradiction
  · obtain rfl := Option.some.inj hreq
    have hne : x.value.shownAdd time2iso ++
        (post.map fun f => f.value.shownAdd time2iso).flatten ≠ [] := by
      exact fun hnil => hx (List.append_eq_nil_iff.mp hnil).1
    have hvalues : ((pre ++ x :: post).map fun f => f.value.shownAdd time2iso).flatten.dropLast =
        (pre.map fun f => f.value.shownAdd time2iso).flatten ++
          (x.value.shownAdd time2iso ++
            (post.map fun f => f.value.shownAdd time2iso).flatten).dropLast := by
      rw [List.map_append, List.map_cons, List.flatten_append, List.flatten_cons,
        List.dropLast_append_of_ne_nil hne]
    simp only [hvalues, addSlot, ← List.append_assoc]

/-- A table with a value that is shown is added. -/
theorem dbAdd_isSome (hx : x.value.shownAdd time2iso ≠ []) :
    ∃ req, dbAdd time2iso ⟨name, pre ++ x :: post⟩ = some req := by
  have hcolumn : snprintf 79 (x.shownName ++ str ",") ≠ [] := by
    have hname : (0 : UInt8) ∉ x.shownName ++ str "," := by
      rw [List.mem_append, not_or]
      refine ⟨fun h => zero_not_mem_cstr x.name (List.mem_of_mem_take h), by decide⟩
    have hcomma : (str ",").length = 1 := by decide
    apply List.ne_nil_of_length_pos
    rw [snprintf, cstr_eq_self hname, List.length_take, List.length_append, hcomma]
    omega
  rw [dbAdd]
  simp only [List.map_append, List.map_cons, List.flatten_append, List.flatten_cons,
    List.append_eq_nil_iff, hcolumn, hx, false_and, and_false, or_self, if_false]
  exact ⟨_, rfl⟩

/-- The text of `db_query` around a condition. -/
theorem dbQuery_text (hrequest : x.request = true)
    (hreq : dbQuery time2iso ⟨name, pre ++ x :: post⟩ = some req) :
    req = (querySlot time2iso name pre x post).head ++ x.value.shown time2iso ++
      (querySlot time2iso name pre x post).tail := by
  rw [dbQuery] at hreq
  split at hreq
  · contradiction
  · obtain rfl := Option.some.inj hreq
    have hwhere : whereList time2iso ⟨name, pre ++ x :: post⟩ =
        conditions (DbValue.shown time2iso) (pre ++ x :: post) := rfl
    have hsplit := @conditions_eq (DbValue.shown time2iso) [] pre post x hrequest
    have hlong : 0 < (whereList time2iso ⟨name, pre ++ x :: post⟩).length := by
      rw [hwhere, ← List.nil_append (conditions _ _), hsplit, conditionSlot]
      simp only [List.length_append, show (str "=").length = 1 by decide]
      omega
    simp only [if_pos hlong]
    rw [hwhere, conditions_eq hrequest, querySlot]

/-- The text of `db_update` around a new value. -/
theorem dbUpdate_text {update : Bytes → Bool} (hupdate : update x.name = true)
    (hreq : dbUpdate time2iso update ⟨name, pre ++ x :: post⟩ = some req) :
    req = (settingSlot time2iso name pre x post update).head ++ x.value.shownUpdate time2iso ++
      (settingSlot time2iso name pre x post update).tail := by
  rw [dbUpdate] at hreq
  split at hreq
  · contradiction
  · obtain rfl := Option.some.inj hreq
    have hne : str "," ++ settings time2iso update post ≠ [] := by
      intro hnil
      exact absurd (List.append_eq_nil_iff.mp hnil).1 (by decide)
    rw [settings_eq hupdate, List.dropLast_append_of_ne_nil hne, settingSlot]
    simp only [List.append_assoc]

theorem dbUpdate_isSome {update : Bytes → Bool} (hupdate : update x.name = true) :
    ∃ req, dbUpdate time2iso update ⟨name, pre ++ x :: post⟩ = some req := by
  have hne : settings time2iso update (pre ++ x :: post) ≠ [] := by
    rw [settings_eq hupdate]
    simp [show str "," = [44] by decide]
  rw [dbUpdate]
  simp only [if_neg hne]
  exact ⟨_, rfl⟩

theorem hasLiteral_dbAdd (hx : x.value = .string (toSQL s))
    (hreq : dbAdd time2iso ⟨name, pre ++ x :: post⟩ = some req) :
    (addSlot time2iso name pre x post).HasLiteral f v req ↔
      v = toSQL s ∧ (toSQL s).length ≤ 75 := by
  have hne : x.value.shownAdd time2iso ≠ [] := by
    rw [hx, shownAdd_toSQL]
    split
    · simp
    · split <;> simp
  rw [dbAdd_text hne hreq, Slot.HasLiteral, hx]
  exact oneLiteral_shownAdd time2iso s _ _ (str ")")

theorem hasLiteral_dbQuery (hx : x.value = .string (toSQL s)) (hrequest : x.request = true)
    (hreq : dbQuery time2iso ⟨name, pre ++ x :: post⟩ = some req) :
    (querySlot time2iso name pre x post).HasLiteral f v req ↔
      v = toSQL s ∧ (toSQL s).length ≤ 96 := by
  rw [dbQuery_text hrequest hreq, Slot.HasLiteral, hx]
  exact @oneLiteral_quotedIn f v 100 (by decide) s _ _

theorem hasLiteral_setting {update : Bytes → Bool} (hx : x.value = .string (toSQL s))
    (hupdate : update x.name = true)
    (hreq : dbUpdate time2iso update ⟨name, pre ++ x :: post⟩ = some req) :
    (settingSlot time2iso name pre x post update).HasLiteral f v req ↔
      v = toSQL s ∧ (toSQL s).length ≤ 86 := by
  rw [dbUpdate_text hupdate hreq, Slot.HasLiteral, hx]
  exact oneLiteral_quotedIn (by decide) s _ _

theorem hasLiteral_dbUpdate {update : Bytes → Bool} (hx : x.value = .string (toSQL s))
    (hrequest : x.request = true)
    (hreq : dbUpdate time2iso update ⟨name, pre ++ x :: post⟩ = some req) :
    (updateSlot time2iso name pre x post update).HasLiteral f v req ↔
      v = toSQL s ∧ (toSQL s).length ≤ 86 := by
  rw [dbUpdate] at hreq
  split at hreq
  · contradiction
  · obtain rfl := Option.some.inj hreq
    rw [Slot.HasLiteral, conditions_eq hrequest, hx]
    exact oneLiteral_quotedIn (by decide) s _ _

theorem hasLiteral_dbDel (hx : x.value = .string (toSQL s)) (hrequest : x.request = true) :
    (delSlot time2iso name pre x post).HasLiteral f v
        (dbDel time2iso ⟨name, pre ++ x :: post⟩) ↔ v = toSQL s ∧ (toSQL s).length ≤ 86 := by
  rw [Slot.HasLiteral, dbDel, conditions_eq hrequest, hx]
  exact oneLiteral_quotedIn (by decide) s _ _

end

/-- Reads a text in which a backslash escapes the byte behind it: whether it ends behind such a
backslash, and nothing when a quote stands in it unescaped. -/
def escapeScan : Bool → Bytes → Option Bool
  | esc, [] => some esc
  | esc, c :: t =>
    if esc then escapeScan false t
    else if c = Sql.backslash then escapeScan true t
    else if c = quote ∨ c = 34 then none
    else escapeScan false t

theorem escapeScan_flatMap (s : Bytes) : escapeScan false (s.flatMap sqlByte) = some false := by
  induction s with
  | nil => rfl
  | cons c s ih =>
    rw [List.flatMap_cons, sqlByte]
    split
    · show escapeScan false (Sql.backslash :: c :: s.flatMap sqlByte) = some false
      rw [escapeScan, if_neg Bool.false_ne_true, if_pos rfl, escapeScan, if_pos rfl, ih]
    · next hc =>
      rw [not_or] at hc
      rw [List.singleton_append, escapeScan, if_neg Bool.false_ne_true, if_neg hc.1, if_neg hc.2,
        ih]

/-- The loop stays inside `ret`. -/
theorem length_toSqlLoop {j : ℕ} (hj : j ≤ 998) (s : Bytes) :
    j + (toSqlLoop j s).length ≤ 998 := by
  induction s generalizing j with
  | nil => exact hj
  | cons c s ih =>
    rw [toSqlLoop]
    split
    · have hbyte := length_sqlByte c
      have hrest := ih (show j + (sqlByte c).length ≤ 998 by omega)
      rw [List.length_append]
      omega
    · exact hj

/-- **What `toSQL` gives**: the escaped front of the text before the first NUL, all of it when it
has at most 498 bytes, with no quote on its own and no backslash left over at the end. -/
theorem toSQL_escape (s : Bytes) :
    (∃ p, p <+: cstr s ∧ toSQL s = p.flatMap sqlByte ∧ ((cstr s).length ≤ 498 → p = cstr s)) ∧
      escapeScan false (toSQL s) = some false ∧ (toSQL s).length < 1000 := by
  obtain ⟨p, hp, hpre⟩ := toSqlLoop_eq_flatMap 0 (snprintf 899 s)
  have hlen := length_toSqlLoop (Nat.zero_le 998) (snprintf 899 s)
  refine ⟨?_, ?_, ?_⟩
  · by_cases hshort : (cstr s).length ≤ 498
    · refine ⟨cstr s, List.prefix_rfl, ?_, fun _ => rfl⟩
      have hkept : snprintf 899 s = cstr s := List.take_of_length_le (by omega)
      rw [toSQL, hkept, toSqlLoop_eq (by omega)]
    · exact ⟨p, hpre.trans (List.take_prefix _ _), hp, fun h => absurd h hshort⟩
  · rw [toSQL, hp, escapeScan_flatMap]
  · rw [toSQL]
    omega

/-- What stands behind a NUL is lost. -/
theorem toSQL_nul : ¬ ∀ s : Bytes, s.length ≤ 498 → toSQL s = s.flatMap sqlByte := by
  intro h
  have hwhole : toSQL [97, 0, 98] = ([97, 0, 98] : Bytes).flatMap sqlByte := h _ (by decide)
  exact absurd hwhole (by decide)

end Tacppd
