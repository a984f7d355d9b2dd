/-
# The SELECT for a user

`TacDb::get` puts the user name into the table description of the users and marks the
field as the one that is asked for; the driver of `db/pgsql.cc` builds a SELECT from the
description.  On this path nothing escapes the name: the statement has it between two
quotes as it is, so that it is read back as one literal exactly when the name has no
quote in it, and no backslash on a server where backslashes escape
(`select_literal_iff`).
-/
import Tacppd.Authen
import Tacppd.Track
import Tacppd.Lib.Sql

namespace Tacppd

open Sql (Token quote)

/-! ## The description of a table -/

/-- The value of a field, by its type.  A number with a point is kept as it is printed. -/
inductive DbValue
  | bool (v : Bool)
  | int (v : ℕ)
  | float (shown : Bytes)
  | string (v : Bytes)
  | date (v : ℤ)
  | ip (v : Bytes)
  deriving DecidableEq, Repr

/-- `DbField`, as far as a SELECT reads it. -/
structure DbField where
  name : Bytes
  request : Bool
  value : DbValue
  deriving DecidableEq, Repr

/-- `DbTable`.  No two fields have the same name. -/
structure DbTable where
  name : Bytes
  fields : List DbField
  deriving DecidableEq, Repr

/-- The value of a cleared field. -/
def DbValue.cleared : DbValue → DbValue
  | bool _ => bool false
  | int _ => int 0
  | float _ => float (str "0.000000")
  | string _ => string []
  | date _ => date 0
  | ip _ => ip unknownIp

/-- `setStringType`, which a field of another type does not show. -/
def DbValue.setString (v : Bytes) : DbValue → DbValue
  | string _ => string v
  | other => other

namespace DbTable

def clear (d : DbTable) : DbTable :=
  { d with fields := d.fields.map fun f => ⟨f.name, false, f.value.cleared⟩ }

/-- `add(n, v)` for a string: set the field with the name, or make a new one. -/
def addString (d : DbTable) (n v : Bytes) : DbTable :=
  if d.fields.any fun f => decide (f.name = n) then
    { d with fields := d.fields.map fun f =>
        if f.name = n then { f with value := f.value.setString v } else f }
  else { d with fields := d.fields ++ [⟨n, false, .string v⟩] }

def setRequest (d : DbTable) (n : Bytes) : DbTable :=
  { d with fields := d.fields.map fun f => if f.name = n then { f with request := true } else f }

end DbTable

/-! ## The driver -/

/-- A string between quotes, in a buffer of 100 bytes: the string is cut to 97 bytes and
the whole to 98. -/
def quoted (v : Bytes) : Bytes := snprintf 99 (quote :: (cstr v).take 97 ++ [quote])

/-- A value in the statement. -/
def DbValue.shown (time2iso : ℤ → Bytes) : DbValue → Bytes
  | bool v => if v then str "true" else str "false"
  | int v => snprintf 99 (str (toString (v % 4294967296)))
  | float v => snprintf 99 v
  | string v => quoted v
  | date v => snprintf 99 (quote :: time2iso v ++ [quote])
  | ip v => snprintf 99 (quote :: v ++ [quote])

/-- `fff`: the fields that are not asked for, with commas between them. -/
def selectList (d : DbTable) : Bytes :=
  (((d.fields.filter fun f => !f.request).map fun f => f.name ++ str ",").flatten).dropLast

/-- `ppp`: the fields that are asked for, with AND between them. -/
def whereList (time2iso : ℤ → Bytes) (d : DbTable) : Bytes :=
  let ppp := ((d.fields.filter fun f => f.request).map fun f =>
    snprintf 99 f.name ++ str "=" ++ f.value.shown time2iso ++ str " AND ").flatten
  if 5 < ppp.length then ppp.take (ppp.length - 5) else ppp

/-- The statement of `db_query`; the erasure of the last comma throws where there is
none. -/
def dbQuery (time2iso : ℤ → Bytes) (d : DbTable) : Option Bytes :=
  if d.fields.all fun f => f.request then none
  else
    let head := str "SELECT " ++ selectList d ++ str " FROM " ++ d.name
    let ppp := whereList time2iso d
    some (if 0 < ppp.length then head ++ str " WHERE " ++ ppp else head)

/-! ## `TacDb::get` -/

/-- The table of the users, as the constructor of `DbList` makes it. -/
def usrTable : DbTable where
  name := str "tacppd_v1_usr"
  fields :=
    [⟨str "dupdate", false, .date 0⟩, ⟨str "username", false, .string []⟩,
      ⟨str "password", false, .string []⟩, ⟨str "dopen", false, .date 0⟩,
      ⟨str "dclose", false, .date 0⟩, ⟨str "avpid", false, .string []⟩,
      ⟨str "accid", false, .string []⟩, ⟨str "bilid", false, .string []⟩,
      ⟨str "addid", false, .string []⟩, ⟨str "maxsess", false, .int 0⟩]

/-- The table with the user name as the value that is asked for. -/
def usrRequest (user : Bytes) : DbTable :=
  (usrTable.clear.addString (str "username") user).setRequest (str "username")

/-- The first statement of `TacDb::get`, where it comes to one. -/
def tacDbGet (time2iso : ℤ → Bytes) (shutdown dbOpen : Bool) (user : Bytes) : Option Bytes :=
  if user = [] then none
  else if shutdown then none
  else if !dbOpen then none
  else dbQuery time2iso (usrRequest user)

/-! ## The statement for a name -/

/-- The part of the statement before the user name. -/
def selectHead : Bytes :=
  str "SELECT dupdate,password,dopen,dclose,avpid,accid,bilid,addid,maxsess" ++
    str " FROM tacppd_v1_usr WHERE username="

/-- The tokens of this part. -/
def selectTokens : List Token :=
  [.word (str "SELECT"), .word (str "dupdate"), .sym 44, .word (str "password"), .sym 44,
    .word (str "dopen"), .sym 44, .word (str "dclose"), .sym 44, .word (str "avpid"), .sym 44,
    .word (str "accid"), .sym 44, .word (str "bilid"), .sym 44, .word (str "addid"), .sym 44,
    .word (str "maxsess"), .word (str "FROM"), .word (str "tacppd_v1_usr"),
    .word (str "WHERE"), .word (str "username"), .sym 61]

theorem run_selectHead (esc : Option (UInt8 → UInt8)) :
    Sql.run esc .gap selectHead = (.gap, selectTokens) := by
  have hquote : quote ∉ selectHead := by decide +kernel
  have hout : Sql.Mode.gap.Outside := trivial
  rw [Sql.run_of_not_mem esc hout hquote]
  decide +kernel

theorem selectList_usrRequest (user : Bytes) :
    selectList (usrRequest user) =
      str "dupdate,password,dopen,dclose,avpid,accid,bilid,addid,maxsess" := by
  rfl

theorem whereList_usrRequest (time2iso : ℤ → Bytes) (user : Bytes) :
    whereList time2iso (usrRequest user) = str "username=" ++ quoted user := by
  have hppp : ((usrRequest user).fields.filter fun f => f.request) =
      [⟨str "username", true, .string user⟩] := rfl
  have hname : snprintf 99 (str "username") ++ str "=" = str "username=" := by decide
  have hand : (str " AND ").length = 5 := rfl
  have hshort : (str "username=").length = 9 := rfl
  simp only [whereList, hppp, List.map_cons, List.map_nil, List.flatten_cons, List.flatten_nil,
    List.append_nil, hname, DbValue.shown]
  rw [List.length_append, List.length_append, hand, hshort, if_pos (by omega),
    Nat.add_sub_cancel, ← hshort, ← List.length_append]
  exact List.take_left

/-- **The statement for a user**: a fixed text, and the name between two quotes. -/
theorem tacDbGet_eq (time2iso : ℤ → Bytes) (shutdown dbOpen : Bool) (user : Bytes) :
    tacDbGet time2iso shutdown dbOpen user =
      if user ≠ [] ∧ shutdown = false ∧ dbOpen = true then some (selectHead ++ quoted user)
      else none := by
  have hquery : dbQuery time2iso (usrRequest user) = some (selectHead ++ quoted user) := by
    have hall : ((usrRequest user).fields.all fun f => f.request) = false := rfl
    have hname : (usrRequest user).name = str "tacppd_v1_usr" := rfl
    have hhead : str "SELECT " ++
        str "dupdate,password,dopen,dclose,avpid,accid,bilid,addid,maxsess" ++
        str " FROM " ++ str "tacppd_v1_usr" ++ str " WHERE " ++ str "username=" =
        selectHead := by
      decide +kernel
    have hlong : 0 < (str "username=" ++ quoted user).length := by
      rw [List.length_append]
      exact Nat.add_pos_left (by decide) _
    rw [dbQuery, hall, selectList_usrRequest, whereList_usrRequest, hname, ← hhead,
      if_neg Bool.false_ne_true]
    simp only [if_pos hlong, List.append_assoc]
  rw [tacDbGet, hquery]
  by_cases huser : user = []
  · simp [huser]
  · cases shutdown <;> cases dbOpen <;> simp [huser]

/-! ## When the name stays one literal -/

theorem length_cstr_lt {b : Bytes} (h : (0 : UInt8) ∈ b) : (cstr b).length < b.length := by
  refine lt_of_le_of_ne (length_cstr_le b) fun heq => ?_
  have hself : cstr b = b := (List.takeWhile_prefix _).eq_of_length heq
  rw [← hself] at h
  exact zero_not_mem_cstr b h

/-- The name between its quotes; the closing quote is the 98th byte at most. -/
theorem quoted_eq (v : Bytes) : quoted v = quote :: ((cstr v).take 97 ++ [quote]).take 97 := by
  have h0 : (0 : UInt8) ∉ quote :: (cstr v).take 97 ++ [quote] := by
    simp only [List.cons_append, List.mem_cons, List.mem_append, List.not_mem_nil, or_false,
      not_or]
    exact ⟨by decide, fun h => zero_not_mem_cstr v (List.mem_of_mem_take h), by decide⟩
  rw [quoted, snprintf, cstr_eq_self h0]
  rfl

/-- A name that fits. -/
theorem quoted_eq_of_fits {v : Bytes} (h0 : (0 : UInt8) ∉ v) (hlen : v.length ≤ 96) :
    quoted v = quote :: (v ++ [quote]) := by
  have hcut : v.take 97 = v := List.take_of_length_le (by omega)
  have hall : (v ++ [quote]).take 97 = v ++ [quote] :=
    List.take_of_length_le (by rw [List.length_append, List.length_singleton]; omega)
  rw [quoted_eq, cstr_eq_self h0, hcut, hall]

/-- The statement has its fixed tokens and the name as one literal when the rest after
the first quote is this literal. -/
theorem lex_select (esc : Option (UInt8 → UInt8)) (s v : Bytes) :
    Sql.lex esc (selectHead ++ quote :: s) = some (selectTokens ++ [.lit v]) ↔
      Sql.lexFrom esc (.lit []) s = some [.lit v] := by
  rw [Sql.lex, Sql.lexFrom_append, run_selectHead]
  simp [Sql.lexFrom, Sql.step, Sql.start]

/-- **The name is one literal of the statement** exactly when it fits between the quotes
and every byte of it stands for itself. -/
theorem lex_quoted_iff (esc : Option (UInt8 → UInt8)) (user : Bytes) :
    Sql.lex esc (selectHead ++ quoted user) = some (selectTokens ++ [.lit user]) ↔
      (0 : UInt8) ∉ user ∧ user.length ≤ 96 ∧ Sql.Plain esc user := by
  by_cases hfits : (0 : UInt8) ∉ user ∧ user.length ≤ 96
  · obtain ⟨h0, hlen⟩ := hfits
    have hlit := Sql.lexFrom_lit_iff esc [] user
    rw [List.nil_append] at hlit
    rw [quoted_eq_of_fits h0 hlen, lex_select, hlit]
    exact ⟨fun h => ⟨h0, hlen, h⟩, fun h => h.2.2⟩
  · -- too few bytes are left for the name and a quote
    have hcut : (((cstr user).take 97 ++ [quote]).take 97).length ≤ user.length := by
      rw [List.length_take, List.length_append, List.length_singleton, List.length_take]
      by_cases h0 : (0 : UInt8) ∈ user
      · have hcstr := length_cstr_lt h0
        omega
      · have hlong : ¬ user.length ≤ 96 := fun hlen => hfits ⟨h0, hlen⟩
        omega
    rw [quoted_eq, lex_select]
    refine iff_of_false (Sql.lexFrom_ne_lit esc ?_) fun h => hfits ⟨h.1, h.2.1⟩
    rwa [Sql.cap, List.length_nil, Nat.zero_add]

/-- Whatever statement is sent for the user, it has the fixed tokens and then the name as
one literal. -/
def SelectKept (esc : Option (UInt8 → UInt8)) (time2iso : ℤ → Bytes) (shutdown dbOpen : Bool)
    (user : Bytes) : Prop :=
  ∀ req, tacDbGet time2iso shutdown dbOpen user = some req →
    Sql.lex esc req = some (selectTokens ++ [.lit user])

/-- **The SELECT keeps its tokens** exactly for the names that have no NUL, no quote, and
no backslash where backslashes escape, and that are no longer than 96 bytes. -/
theorem select_literal_iff (esc : Option (UInt8 → UInt8)) (time2iso : ℤ → Bytes)
    (shutdown dbOpen : Bool) (user : Bytes) :
    SelectKept esc time2iso shutdown dbOpen user ↔
      (shutdown = false → dbOpen = true →
        (0 : UInt8) ∉ user ∧ user.length ≤ 96 ∧ Sql.Plain esc user) := by
  rw [SelectKept, tacDbGet_eq]
  by_cases hsent : user ≠ [] ∧ shutdown = false ∧ dbOpen = true
  · rw [if_pos hsent, ← lex_quoted_iff]
    constructor
    · intro h _ _
      exact h _ rfl
    · intro h req hreq
      obtain rfl := Option.some.inj hreq
      exact h hsent.2.1 hsent.2.2
  · rw [if_neg hsent]
    refine iff_of_true (fun req hreq => by contradiction) fun hsh hop => ?_
    obtain rfl : user = [] := by
      by_contra hne
      exact hsent ⟨hne, hsh, hop⟩
    simp [Sql.Plain]

/-- A name with a quote in it makes its own condition. -/
theorem select_or_true :
    ¬ SelectKept none (fun _ => []) false true (str "x' OR 'a'='a") ∧
      Sql.lex none (selectHead ++ quoted (str "x' OR 'a'='a")) =
        some (selectTokens ++ [.lit (str "x"), .word (str "OR"), .lit (str "a"), .sym 61,
          .lit (str "a")]) := by
  have hlex : Sql.lex none (selectHead ++ quoted (str "x' OR 'a'='a")) =
      some (selectTokens ++ [.lit (str "x"), .word (str "OR"), .lit (str "a"), .sym 61,
        .lit (str "a")]) := by
    decide +kernel
  refine ⟨fun h => ?_, hlex⟩
  have hkept := h (selectHead ++ quoted (str "x' OR 'a'='a")) (by rw [tacDbGet_eq]; rfl)
  rw [hlex] at hkept
  revert hkept
  decide

/-! ## What `toSQL` makes of a name -/

/-- A byte of the text, with a backslash before a backslash and both kinds of quotes. -/
def sqlByte (c : UInt8) : Bytes :=
  if c = Sql.backslash ∨ c = quote ∨ c = 34 then [Sql.backslash, c] else [c]

/-- The loop of `toSQL`, with `j` bytes written. -/
def toSqlLoop : ℕ → Bytes → Bytes
  | _, [] => []
  | j, c :: s => if j < 997 then sqlByte c ++ toSqlLoop (j + (sqlByte c).length) s else []

/-- `utl::toSQL`, which the `add` command of the terminal calls for what it stores. -/
def toSQL (s : Bytes) : Bytes := toSqlLoop 0 (snprintf 899 s)

theorem length_sqlByte (c : UInt8) : 1 ≤ (sqlByte c).length ∧ (sqlByte c).length ≤ 2 := by
  rw [sqlByte]
  split <;> simp

theorem zero_mem_sqlByte {c : UInt8} (h : (0 : UInt8) ∈ sqlByte c) : c = 0 := by
  rw [sqlByte] at h
  split at h
  · have hne : ¬ (0 : UInt8) = Sql.backslash := by decide
    simp only [List.mem_cons, List.not_mem_nil, or_false] at h
    exact (h.resolve_left hne).symm
  · exact (List.mem_singleton.mp h).symm

/-- A text that is not too long is escaped whole. -/
theorem toSqlLoop_eq {j : ℕ} {s : Bytes} (h : j + 2 * s.length ≤ 998) :
    toSqlLoop j s = s.flatMap sqlByte := by
  induction s generalizing j with
  | nil => rfl
  | cons c s ih =>
    have hbyte := length_sqlByte c
    rw [List.length_cons] at h
    rw [toSqlLoop, if_pos (by omega), ih (by omega), List.flatMap_cons]

theorem length_flatMap_sqlByte (s : Bytes) : (s.flatMap sqlByte).length ≤ 2 * s.length := by
  induction s with
  | nil => simp
  | cons c s ih =>
    have hbyte := length_sqlByte c
    rw [List.flatMap_cons, List.length_append, List.length_cons]
    omega

/-- Where backslashes escape, what `toSQL` writes is read back as the text. -/
theorem lexFrom_flatMap_sqlByte {f : UInt8 → UInt8} (hslash : f Sql.backslash = Sql.backslash)
    (hquote : f quote = quote) (hdouble : f 34 = 34) (v s : Bytes) :
    Sql.lexFrom (some f) (.lit v) (s.flatMap sqlByte ++ [quote]) = some [.lit (v ++ s)] := by
  induction s generalizing v with
  | nil => simp [Sql.lexFrom, Sql.step, Sql.finish]
  | cons c s ih =>
    rw [List.flatMap_cons, List.append_assoc, List.append_cons v c s, ← ih (v ++ [c]), sqlByte]
    split
    · next hc =>
      have hf : f c = c := by
        rcases hc with rfl | rfl | rfl
        · exact hslash
        · exact hquote
        · exact hdouble
      have hne : Sql.backslash ≠ quote := by decide
      simp [Sql.lexFrom, Sql.step, hf, hne]
    · next hc =>
      rw [not_or, not_or] at hc
      simp [Sql.lexFrom, Sql.step, hc.1, hc.2.1]

/-- **With `toSQL` on the way** the statement would have the name as one literal, where
backslashes escape. -/
theorem lex_toSQL {f : UInt8 → UInt8} (hslash : f Sql.backslash = Sql.backslash)
    (hquote : f quote = quote) (hdouble : f 34 = 34) {user : Bytes} (h0 : (0 : UInt8) ∉ user)
    (hlen : user.length ≤ 48) :
    Sql.lex (some f) (selectHead ++ quoted (toSQL user)) =
      some (selectTokens ++ [.lit user]) := by
  have hsql : toSQL user = user.flatMap sqlByte := by
    rw [toSQL, snprintf_eq_self h0 (by omega), toSqlLoop_eq (by omega)]
  have h0' : (0 : UInt8) ∉ user.flatMap sqlByte := by
    intro hmem
    obtain ⟨c, hc, hin⟩ := List.mem_flatMap.mp hmem
    exact h0 (zero_mem_sqlByte hin ▸ hc)
  have hbytes := length_flatMap_sqlByte user
  rw [hsql, quoted_eq_of_fits h0' (by omega), lex_select]
  exact lexFrom_flatMap_sqlByte hslash hquote hdouble [] user

end Tacppd
