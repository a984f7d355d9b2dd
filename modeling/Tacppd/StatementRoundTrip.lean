/-
# Strings stored in pgsql and read back

`TacDb::add` escapes a string with `utl::toSQL`, and `TacDb::modify` and the requests pass it
as it is.  The server keeps what the literal in the statement stands for, and `sdb_get` reads
it back without the blanks at its end.

`stringRoundTrip_iff` says which strings come back from `db_add` and from `db_update` and are
found by `db_query`, and which ones would if every caller escaped them.
-/
import Tacppd.Statements
import Mathlib.Data.List.DropRight

namespace Tacppd

open Sql (quote)

/-! ## The server and the reader -/

/-- The literal at the place of the value stands for `v`. -/
def Slot.Denotes (f : UInt8 → UInt8) (slot : Slot) (req v : Bytes) : Prop :=
  ∃ x, req = slot.head ++ quote :: (x ++ quote :: slot.tail) ∧
    Sql.run (some f) (.lit []) x = (.lit v, [])

/-- A byte of a number or a word. -/
def bareByte (c : UInt8) : Bool := Sql.isWord c || c == 43 || c == 45 || c == 46

/-- The value that a text in a statement stands for: a closed literal, a number or a word. -/
def valueOf (f : UInt8 → UInt8) (t : Bytes) : Option Bytes :=
  if t.head? = some quote then
    if t.tail.getLast? = some quote then
      match Sql.run (some f) (.lit []) t.tail.dropLast with
      | (.lit w, []) => some w
      | _ => none
    else none
  else if t ≠ [] ∧ t.all bareByte = true then some t
  else none

/-- The loop of `sdb_get` over the end of the text, which leaves the first byte. -/
def trimLoop : Bytes → Bytes
  | [] => []
  | c :: s => c :: s.rdropWhile fun b => b == 32

/-- `sdb_get`, with `char s[300]`. -/
def sdbGet (v : Bytes) : Bytes := trimLoop (snprintf 299 v)

/-- A value that is a literal at its place, stored, selected and read. -/
def Slot.ComesBack (f : UInt8 → UInt8) (slot : Slot) (req s : Bytes) : Prop :=
  ∃ v, slot.Denotes f req v ∧ sdbGet v = s

/-- The round trip of a string in the field `n` of a table, between the fields `pre` and
`post`.  `passed` is what `TacDb` makes of the string for an update and for a request; for
`db_add` it is `toSQL`. -/
structure StringRoundTrip (f : UInt8 → UInt8) (time2iso : ℤ → Bytes) (name n : Bytes)
    (pre post : List DbField) (passed : Bytes → Bytes) (s : Bytes) : Prop where
  add : ∀ request,
    let x : DbField := ⟨n, request, .string (toSQL s)⟩
    ∃ req, dbAdd time2iso ⟨name, pre ++ x :: post⟩ = some req ∧
      (addSlot time2iso name pre x post).ComesBack f req s
  update : ∀ request update, update n = true →
    let x : DbField := ⟨n, request, .string (passed s)⟩
    ∃ req, dbUpdate time2iso update ⟨name, pre ++ x :: post⟩ = some req ∧
      (settingSlot time2iso name pre x post update).ComesBack f req s
  query : ∀ req,
    let x : DbField := ⟨n, true, .string (passed s)⟩
    dbQuery time2iso ⟨name, pre ++ x :: post⟩ = some req →
      (querySlot time2iso name pre x post).Denotes f req s

/-! ## What the reader keeps -/

theorem trimLoop_isPrefix (s : Bytes) : trimLoop s <+: s := by
  cases s with
  | nil => exact List.prefix_rfl
  | cons c s => exact List.cons_prefix_cons.mpr ⟨rfl, List.rdropWhile_prefix _ _⟩

theorem sdbGet_isPrefix (v : Bytes) : sdbGet v <+: v :=
  (trimLoop_isPrefix _).trans (isPrefix_snprintf 299 v)

theorem length_sdbGet_le (v : Bytes) : (sdbGet v).length ≤ v.length := (sdbGet_isPrefix v).length_le

/-- The string does not end with a blank, or it is one blank. -/
def NoBlankEnd (s : Bytes) : Prop := s.getLast? = some 32 → s.length = 1

instance (s : Bytes) : Decidable (NoBlankEnd s) :=
  inferInstanceAs (Decidable (s.getLast? = some 32 → s.length = 1))

theorem trimLoop_eq_self_iff (s : Bytes) : trimLoop s = s ↔ NoBlankEnd s := by
  cases s with
  | nil => simp [trimLoop, NoBlankEnd]
  | cons c s =>
    rw [trimLoop, List.cons_eq_cons, and_iff_right rfl, List.rdropWhile_eq_self_iff, NoBlankEnd]
    rcases List.eq_nil_or_concat s with rfl | ⟨t, d, rfl⟩
    · simp
    · rw [List.concat_eq_append, ← List.cons_append, List.getLast?_concat]
      simp

/-- A string that fits is read as it is. -/
theorem sdbGet_eq_self_iff {s : Bytes} (h0 : (0 : UInt8) ∉ s) (hlen : s.length ≤ 298) :
    sdbGet s = s ↔ NoBlankEnd s := by
  rw [sdbGet, snprintf_eq_self h0 (by omega), trimLoop_eq_self_iff]

/-! ## A string as it is -/

section

variable {f : UInt8 → UInt8} {slot : Slot} {req s v : Bytes} {n : ℕ}

/-- The literal of a string that is passed as it is. -/
theorem denotes_quotedIn (hn : 4 ≤ n) (h0 : (0 : UInt8) ∉ s)
    (hreq : req = slot.head ++ quotedIn n s ++ slot.tail) (h : slot.Denotes f req v) :
    v.length ≤ s.length ∧
      (v = s → s.length ≤ n - 4 ∧ Sql.Plain (some f) s) := by
  obtain ⟨x, hx, hrun⟩ := h
  obtain ⟨hlen, hplain⟩ := Sql.run_lit (some f) hrun
  rw [List.nil_append] at hplain
  rw [List.length_nil, Nat.zero_add] at hlen
  rw [hreq, quotedIn_eq hn h0, List.append_assoc] at hx
  have hrest := List.append_cancel_left hx
  split at hrest
  · next hfit =>
    -- the string is what stands between the quotes
    have hsame : s = x := by
      have htail : s ++ (quote :: slot.tail) = x ++ (quote :: slot.tail) := by
        simpa using hrest
      exact List.append_cancel_right htail
    subst hsame
    exact ⟨hlen, fun hv => ⟨hfit, hplain.mp hv⟩⟩
  · next hlong =>
    -- the quote that closes the literal is one of the string, which has more bytes
    have hcut : s.take (n - 3) = x ++ [quote] := by
      have htail : s.take (n - 3) ++ slot.tail = (x ++ [quote]) ++ slot.tail := by
        simpa using hrest
      exact List.append_cancel_right htail
    have hcount := congrArg List.length hcut
    rw [List.length_take, List.length_append, List.length_singleton] at hcount
    refine ⟨by omega, fun hv => ?_⟩
    subst hv
    omega

theorem denotes_of_plain (hn : 4 ≤ n) (h0 : (0 : UInt8) ∉ s)
    (hreq : req = slot.head ++ quotedIn n s ++ slot.tail) (hlen : s.length ≤ n - 4)
    (hplain : Sql.Plain (some f) s) : slot.Denotes f req s := by
  refine ⟨s, ?_, Sql.run_lit_of_plain (some f) [] hplain⟩
  rw [hreq, quotedIn_eq hn h0, if_pos hlen]
  simp

/-- **A request for a string** that is passed as it is. -/
theorem denotes_quotedIn_iff (hn : 4 ≤ n) (h0 : (0 : UInt8) ∉ s)
    (hreq : req = slot.head ++ quotedIn n s ++ slot.tail) :
    slot.Denotes f req s ↔ s.length ≤ n - 4 ∧ Sql.Plain (some f) s := by
  constructor
  · exact fun h => (denotes_quotedIn hn h0 hreq h).2 rfl
  · exact fun h => denotes_of_plain hn h0 hreq h.1 h.2

/-- **A string stored as it is.** -/
theorem comesBack_quotedIn_iff (hn : 4 ≤ n) (hn' : n ≤ 302) (h0 : (0 : UInt8) ∉ s)
    (hreq : req = slot.head ++ quotedIn n s ++ slot.tail) :
    slot.ComesBack f req s ↔
      s.length ≤ n - 4 ∧ Sql.Plain (some f) s ∧ NoBlankEnd s := by
  constructor
  · rintro ⟨v, hv, hback⟩
    obtain ⟨hlen, hsame⟩ := denotes_quotedIn hn h0 hreq hv
    -- neither the literal nor the reader adds a byte
    have hpre := sdbGet_isPrefix v
    have hvs : v = s := by
      rw [← hback]
      refine (hpre.eq_of_length (le_antisymm hpre.length_le ?_)).symm
      rw [hback]
      exact hlen
    obtain ⟨hfit, hplain⟩ := hsame hvs
    rw [hvs] at hback
    exact ⟨hfit, hplain, (sdbGet_eq_self_iff h0 (by omega)).mp hback⟩
  · rintro ⟨hfit, hplain, hblank⟩
    exact ⟨s, denotes_of_plain hn h0 hreq hfit hplain,
      (sdbGet_eq_self_iff h0 (by omega)).mpr hblank⟩

end

/-! ## What a text stands for -/

/-- A number or a word stands for itself. -/
theorem valueOf_of_bare {f : UInt8 → UInt8} {t : Bytes} (hne : t ≠ [])
    (h : ∀ c ∈ t, bareByte c = true) : valueOf f t = some t := by
  have hhead : ¬ t.head? = some quote := by
    intro hq
    have hbare := h quote (List.mem_of_mem_head? hq)
    revert hbare
    decide
  rw [valueOf, if_neg hhead, if_pos ⟨hne, List.all_eq_true.mpr h⟩]

/-- What stands behind a quote is closed by its last byte. -/
theorem valueOf_quote_iff {f : UInt8 → UInt8} {t w : Bytes} :
    valueOf f (quote :: t) = some w ↔
      ∃ x, t = x ++ [quote] ∧ Sql.run (some f) (.lit []) x = (.lit w, []) := by
  rw [valueOf, if_pos (by rfl), List.tail_cons]
  constructor
  · intro h
    split at h
    · next hlast =>
      obtain ⟨x, rfl⟩ := List.getLast?_eq_some_iff.mp hlast
      rw [List.dropLast_concat] at h
      split at h
      · next v hv => exact ⟨x, rfl, Option.some.inj h ▸ hv⟩
      · contradiction
    · contradiction
  · rintro ⟨x, rfl, hrun⟩
    rw [List.getLast?_concat, if_pos rfl, List.dropLast_concat, hrun]

/-- What stands between two quotes. -/
theorem valueOf_quoted {f : UInt8 → UInt8} (x : Bytes) {w : Bytes} :
    valueOf f (quote :: (x ++ [quote])) = some w ↔
      Sql.run (some f) (.lit []) x = (.lit w, []) := by
  rw [valueOf_quote_iff]
  constructor
  · rintro ⟨y, hy, hrun⟩
    exact List.append_cancel_right hy ▸ hrun
  · exact fun hrun => ⟨x, rfl, hrun⟩

/-- **The value of a string between its quotes** has no more bytes than the string, and is the
string exactly when it fits and its bytes stand for themselves. -/
theorem valueOf_quotedIn {f : UInt8 → UInt8} {n : ℕ} (hn : 4 ≤ n) {s w : Bytes}
    (h0 : (0 : UInt8) ∉ s) (h : valueOf f (quotedIn n s) = some w) :
    w.length ≤ s.length ∧ (w = s → s.length ≤ n - 4 ∧ Sql.Plain (some f) s) := by
  rw [quotedIn_eq hn h0] at h
  split at h
  · next hfit =>
    obtain ⟨hlen, hplain⟩ := Sql.run_lit (some f) ((valueOf_quoted s).mp h)
    rw [List.length_nil, Nat.zero_add] at hlen
    rw [List.nil_append] at hplain
    exact ⟨hlen, fun hw => ⟨hfit, hplain.mp hw⟩⟩
  · next hlong =>
    -- the quote at the end is one of the string, which has more bytes
    obtain ⟨x, hx, hrun⟩ := valueOf_quote_iff.mp h
    have hlen := (Sql.run_lit (some f) hrun).1
    have hcount := congrArg List.length hx
    rw [List.length_take, List.length_append, List.length_singleton] at hcount
    rw [List.length_nil] at hlen
    refine ⟨by omega, fun hw => ?_⟩
    subst hw
    omega

theorem valueOf_quotedIn_self_iff {f : UInt8 → UInt8} {n : ℕ} (hn : 4 ≤ n) {s : Bytes}
    (h0 : (0 : UInt8) ∉ s) :
    valueOf f (quotedIn n s) = some s ↔ s.length ≤ n - 4 ∧ Sql.Plain (some f) s := by
  constructor
  · exact fun h => (valueOf_quotedIn hn h0 h).2 rfl
  · rintro ⟨hfit, hplain⟩
    rw [quotedIn_eq hn h0, if_pos hfit]
    exact (valueOf_quoted s).mpr (Sql.run_lit_of_plain (some f) [] hplain)

/-! ## A string that is escaped -/

section

variable {f : UInt8 → UInt8} {slot : Slot} {req s v : Bytes} {n : ℕ}

/-- The loop of `toSQL` ends at the end of the text, or behind 996 bytes. -/
theorem toSqlLoop_eq_or (j : ℕ) (s : Bytes) :
    toSqlLoop j s = s.flatMap sqlByte ∨ 997 ≤ j + (toSqlLoop j s).length := by
  induction s generalizing j with
  | nil => exact .inl rfl
  | cons c s ih =>
    rw [toSqlLoop]
    split
    · rcases ih (j + (sqlByte c).length) with heq | hlong
      · exact .inl (by rw [heq, List.flatMap_cons])
      · refine .inr ?_
        rw [List.length_append]
        omega
    · exact .inr (by rw [List.length_nil]; omega)

theorem le_length_flatMap_sqlByte (s : Bytes) : s.length ≤ (s.flatMap sqlByte).length := by
  induction s with
  | nil => simp
  | cons c s ih =>
    have hbyte := length_sqlByte c
    rw [List.flatMap_cons, List.length_append, List.length_cons]
    omega

/-- A short result of `toSQL` is the whole text, escaped. -/
theorem toSQL_eq_of_short (h0 : (0 : UInt8) ∉ s) (h : (toSQL s).length ≤ 897) :
    toSQL s = s.flatMap sqlByte := by
  have hcut : toSQL s = (s.take 898).flatMap sqlByte := by
    rcases toSqlLoop_eq_or 0 (snprintf 899 s) with heq | hlong
    · rw [toSQL, heq, snprintf, cstr_eq_self h0]
    · rw [← toSQL] at hlong
      omega
  have hbytes := le_length_flatMap_sqlByte (s.take 898)
  rw [← hcut, List.length_take] at hbytes
  rw [hcut, List.take_of_length_le (by omega)]

/-- Nothing gets shorter. -/
theorem length_le_toSQL (h0 : (0 : UInt8) ∉ s) (h : (toSQL s).length ≤ 897) :
    s.length ≤ (toSQL s).length := by
  rw [toSQL_eq_of_short h0 h]
  exact le_length_flatMap_sqlByte s

variable (hslash : f Sql.backslash = Sql.backslash) (hquote : f quote = quote)
  (hdouble : f 34 = 34)
include hslash hquote hdouble

/-- Where backslashes escape, the escaped text stands for the text. -/
theorem run_flatMap_sqlByte_eq (u s : Bytes) :
    Sql.run (some f) (.lit u) (s.flatMap sqlByte) = (.lit (u ++ s), []) := by
  induction s generalizing u with
  | nil => simp [Sql.run]
  | cons c s ih =>
    rw [List.flatMap_cons, List.append_cons u c s, ← ih (u ++ [c]), sqlByte]
    split
    · next hc =>
      have hf : f c = c := by
        rcases hc with rfl | rfl | rfl
        · exact hslash
        · exact hquote
        · exact hdouble
      have hne : Sql.backslash ≠ quote := by decide
      simp [Sql.run, Sql.step, hf, hne]
    · next hc =>
      rw [not_or, not_or] at hc
      simp [Sql.run, Sql.step, hc.1, hc.2.1]

/-- **A string that is escaped** and fits is its literal. -/
theorem denotes_toSQL_iff (h0 : (0 : UInt8) ∉ s) {m : ℕ} (hm : m ≤ 897)
    (hfit : ∀ x, slot.HasLiteral f x req ↔ x = toSQL s ∧ (toSQL s).length ≤ m) :
    (∀ v, slot.Denotes f req v → v = s) ∧
      (slot.Denotes f req s ↔ (toSQL s).length ≤ m) := by
  have hrun : (toSQL s).length ≤ m → Sql.run (some f) (.lit []) (toSQL s) = (.lit s, []) := by
    intro hlen
    rw [toSQL_eq_of_short h0 (by omega), run_flatMap_sqlByte_eq hslash hquote hdouble]
    rfl
  constructor
  · rintro v ⟨x, hx, hv⟩
    obtain ⟨rfl, hlen⟩ := (hfit x).mp ⟨hx, v, hv⟩
    rw [hrun hlen] at hv
    simpa using hv.symm
  · constructor
    · rintro ⟨x, hx, hv⟩
      exact ((hfit x).mp ⟨hx, s, hv⟩).2
    · intro hlen
      obtain ⟨hx, -⟩ := (hfit (toSQL s)).mpr ⟨rfl, hlen⟩
      exact ⟨toSQL s, hx, hrun hlen⟩

/-- **A string that is escaped, stored and read.** -/
theorem comesBack_toSQL_iff (h0 : (0 : UInt8) ∉ s) {m : ℕ} (hm : m ≤ 298)
    (hfit : ∀ x, slot.HasLiteral f x req ↔ x = toSQL s ∧ (toSQL s).length ≤ m) :
    slot.ComesBack f req s ↔ (toSQL s).length ≤ m ∧ NoBlankEnd s := by
  obtain ⟨hsame, hself⟩ := denotes_toSQL_iff hslash hquote hdouble h0 (by omega) hfit
  have hshort : (toSQL s).length ≤ m → s.length ≤ 298 := by
    intro hlen
    have hbytes := length_le_toSQL h0 (by omega)
    omega
  constructor
  · rintro ⟨v, hv, hback⟩
    obtain rfl := hsame v hv
    have hlen := hself.mp hv
    exact ⟨hlen, (sdbGet_eq_self_iff h0 (hshort hlen)).mp hback⟩
  · rintro ⟨hlen, hblank⟩
    exact ⟨s, hself.mpr hlen, (sdbGet_eq_self_iff h0 (hshort hlen)).mpr hblank⟩

end

/-! ## The round trip -/

section

variable {f : UInt8 → UInt8} (hslash : f Sql.backslash = Sql.backslash)
  (hquote : f quote = quote) (hdouble : f 34 = 34) (time2iso : ℤ → Bytes) (name n : Bytes)
  (pre post : List DbField) {s : Bytes} (h0 : (0 : UInt8) ∉ s)
include hslash hquote hdouble h0

/-- A string that is added. -/
theorem comesBack_dbAdd_iff (request : Bool) {req : Bytes}
    (hreq : dbAdd time2iso ⟨name, pre ++ ⟨n, request, .string (toSQL s)⟩ :: post⟩ = some req) :
    (addSlot time2iso name pre ⟨n, request, .string (toSQL s)⟩ post).ComesBack f req s ↔
      (toSQL s).length ≤ 75 ∧ NoBlankEnd s :=
  comesBack_toSQL_iff hslash hquote hdouble h0 (by omega) fun _ => hasLiteral_dbAdd rfl hreq

/-- The string is added, and it comes back if it fits. -/
theorem add_comesBack_iff :
    (∀ request,
      let x : DbField := ⟨n, request, .string (toSQL s)⟩
      ∃ req, dbAdd time2iso ⟨name, pre ++ x :: post⟩ = some req ∧
        (addSlot time2iso name pre x post).ComesBack f req s) ↔
      (toSQL s).length ≤ 75 ∧ NoBlankEnd s := by
  constructor
  · intro h
    obtain ⟨req, hreq, hback⟩ := h false
    exact (comesBack_dbAdd_iff hslash hquote hdouble time2iso name n pre post h0 false hreq).mp
      hback
  · intro h request
    have hne : (DbValue.string (toSQL s)).shownAdd time2iso ≠ [] := by
      rw [shownAdd_toSQL, if_pos h.1]
      simp
    obtain ⟨req, hreq⟩ :=
      @dbAdd_isSome time2iso name pre post ⟨n, request, .string (toSQL s)⟩ hne
    exact ⟨req, hreq, (comesBack_dbAdd_iff hslash hquote hdouble time2iso name n pre post h0
      request hreq).mpr h⟩

/-- Where every caller escapes the string, it comes back from both and is found. -/
theorem stringRoundTrip_toSQL (hfit : (toSQL s).length ≤ 75) (hblank : NoBlankEnd s) :
    StringRoundTrip f time2iso name n pre post toSQL s where
  add := (add_comesBack_iff hslash hquote hdouble time2iso name n pre post h0).mpr ⟨hfit, hblank⟩
  update := by
    intro request update hupdate x
    obtain ⟨req, hreq⟩ := @dbUpdate_isSome time2iso name pre post x update hupdate
    refine ⟨req, hreq, ?_⟩
    rw [comesBack_toSQL_iff hslash hquote hdouble h0 (show 86 ≤ 298 by omega)
      fun _ => hasLiteral_setting rfl hupdate hreq]
    exact ⟨by omega, hblank⟩
  query := by
    intro req x hreq
    have hdenotes := denotes_toSQL_iff hslash hquote hdouble h0 (show 96 ≤ 897 by omega)
      fun v => @hasLiteral_dbQuery f time2iso name s v req pre post x rfl rfl hreq
    exact hdenotes.2.mpr (by omega)

/-- **The round trip of a string.**  As `TacDb` does it, it holds exactly for the strings that
have no quote, no backslash and no blank at their end, and whose escaped text has 75 bytes at
most.  If every caller escaped the string, the last two conditions would do. -/
theorem stringRoundTrip_iff :
    (StringRoundTrip f time2iso name n pre post id s ↔
      (toSQL s).length ≤ 75 ∧ NoBlankEnd s ∧ quote ∉ s ∧ Sql.backslash ∉ s) ∧
    (StringRoundTrip f time2iso name n pre post toSQL s ↔
      (toSQL s).length ≤ 75 ∧ NoBlankEnd s) := by
  have hplain : Sql.Plain (some f) s ↔ quote ∉ s ∧ Sql.backslash ∉ s := by
    simp [Sql.Plain]
  have hadd := add_comesBack_iff hslash hquote hdouble time2iso name n pre post h0
  refine ⟨⟨?_, ?_⟩, fun h => hadd.mp h.add, fun h => stringRoundTrip_toSQL hslash hquote hdouble
    time2iso name n pre post h0 h.1 h.2⟩
  · intro h
    -- the update shows the bytes that do not stand for themselves
    obtain ⟨req, hreq, hback⟩ := h.update false (fun _ => true) rfl
    obtain ⟨-, hclean, -⟩ := (comesBack_quotedIn_iff (by omega) (by omega) h0
      (dbUpdate_text rfl hreq)).mp hback
    obtain ⟨hfit, hblank⟩ := hadd.mp h.add
    exact ⟨hfit, hblank, hplain.mp hclean⟩
  · rintro ⟨hfit, hblank, hclean⟩
    have hbytes := length_le_toSQL h0 (by omega)
    refine ⟨hadd.mpr ⟨hfit, hblank⟩, ?_, ?_⟩
    · intro request update hupdate x
      obtain ⟨req, hreq⟩ := @dbUpdate_isSome time2iso name pre post x update hupdate
      refine ⟨req, hreq, ?_⟩
      exact (comesBack_quotedIn_iff (by omega) (by omega) h0 (dbUpdate_text hupdate hreq)).mpr
        ⟨by omega, hplain.mpr hclean, hblank⟩
    · intro req x hreq
      exact (denotes_quotedIn_iff (n := 100) (by omega) h0 (dbQuery_text rfl hreq)).mpr
        ⟨by omega, hplain.mpr hclean⟩

end

/-- The name of a user, in a table of two fields. -/
theorem stringRoundTrip_joe :
    StringRoundTrip (fun c => c) (fun _ => []) (str "t") (str "username") []
      [⟨str "maxsess", false, .int 1⟩] id (str "joe") :=
  (stringRoundTrip_iff rfl rfl rfl (fun _ => []) (str "t") (str "username") []
    [⟨str "maxsess", false, .int 1⟩] (by decide)).1.mpr (by decide +kernel)

/-- A string with a quote does not come back from an update: the literal ends at the quote. -/
theorem stringRoundTrip_quote :
    ¬ (∀ (f : UInt8 → UInt8) (time2iso : ℤ → Bytes) (name n : Bytes) (pre post : List DbField)
      (s : Bytes), f Sql.backslash = Sql.backslash → f quote = quote → f 34 = 34 →
      (0 : UInt8) ∉ s → s.length ≤ 32 →
      StringRoundTrip f time2iso name n pre post id s) := by
  intro hall
  obtain ⟨req, hreq, hback⟩ := (hall (fun c => c) (fun _ => []) (str "t") (str "n") [] []
    (str "O'Neil") rfl rfl rfl (by decide) (by decide)).update false (fun _ => true) rfl
  obtain ⟨-, hclean, -⟩ := (comesBack_quotedIn_iff (by omega) (by omega) (by decide)
    (dbUpdate_text rfl hreq)).mp hback
  exact hclean.1 (by decide)

end Tacppd
