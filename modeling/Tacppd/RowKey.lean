/-
# The keys of the encrypted fields

A password is encrypted under a key of its row.  `TacDb::add` takes the first text of the
command for the key, `TacDb::get` the user name, or for the table of the additional data its
id, and `show` and `sshow` the first field of the table if it is a string.  The first field of
the users is a date, so that there the key is empty.

`get` asks for the row with the name as it is, where `add` has escaped it.  `keys_agree_iff`
says when the text that is stored is read as the password by all of them.
-/
import Tacppd.StatementRoundTrip
import Tacppd.TacDb

namespace Tacppd

open Sql (quote)

/-! ## The column and its readers -/

/-- A table with an encrypted field, and the field by which `get` finds the row. -/
structure CryptTable where
  table : DbTable
  field : Bytes
  keyField : Bytes
  wellTyped : table.clear.WellTyped
  field_mem : ⟨field, false, .string []⟩ ∈ table.clear.fields
  keyField_mem : ⟨keyField, false, .string []⟩ ∈ table.clear.fields
  encrypted_iff : ∀ x ∈ table.clear.fields, encrypted x.name = true ↔ x.name = field
  ne : keyField ≠ field
  /-- `get` has read the key from the row of the user. -/
  fromUser : Bool
  /-- A string in front is the key. -/
  first : ∀ x ∈ table.clear.fields.head?, x.value = .string [] → x.name = keyField

def usrCrypt : CryptTable where
  table := usrTable
  field := str "password"
  keyField := str "username"
  wellTyped := by decide +kernel
  field_mem := by decide +kernel
  keyField_mem := by decide +kernel
  encrypted_iff := by decide +kernel
  ne := by decide
  fromUser := false
  first := by decide +kernel

def addCrypt : CryptTable where
  table := addTable
  field := str "enable"
  keyField := str "addid"
  wellTyped := by decide +kernel
  field_mem := by decide +kernel
  keyField_mem := by decide +kernel
  encrypted_iff := by decide +kernel
  ne := by decide
  fromUser := true
  first := by decide +kernel

/-- What the server keeps for a string of `db_add`: what its literal stands for, and nothing
for a string that does not fit. -/
def columnText (f : UInt8 → UInt8) (v : Bytes) : Option Bytes :=
  if 75 < v.length then none
  else
    match Sql.run (some f) (.lit []) v with
    | (.lit w, []) => some w
    | _ => none

/-- The string in a field of the description. -/
def DbTable.stringOf (d : DbTable) (n : Bytes) : Bytes :=
  match (d.fields.find? fun f => decide (f.name = n)).map DbField.value with
  | some (.string v) => v
  | _ => []

section

variable (md5 : Bytes → Digest) (m : DbModule) (f : UInt8 → UInt8) (c : CryptTable)
  (d : DbTable)

/-- The column of a field in the row that `db_add` makes. -/
def stored (n : Bytes) : Option Bytes := columnText f (d.stringOf n)

/-- `get` for a name or an id, where the table has the one row.  It takes no empty text, asks
with `db_query` for the row that has the text as it is, and decrypts under it. -/
def getSecret (user : Bytes) : Option Bytes :=
  (stored f d c.keyField).bind fun column =>
    if user = [] then none
    else if valueOf f (quoted user) = some column then
      (stored f d c.field).bind fun e => m.decrypt md5 (sdbGet e) user
    else none

/-- `showvarkey`, which only a string in field 0 sets. -/
def showvarkey : Option Bytes :=
  match d.fields with
  | ⟨_, _, .string v⟩ :: _ => (columnText f v).map sdbGet
  | _ => some []

/-- `show`, with `char svk[100]`, `char crp[100]` and `char tmps[100]`. -/
def showSecret : Option Bytes :=
  (stored f d c.field).bind fun e =>
    (showvarkey f d).bind fun key =>
      (m.decrypt md5 (snprintf 99 (sdbGet e)) (snprintf 99 key)).map (snprintf 100)

/-- `sshow`. -/
def sshowSecret : Option Bytes :=
  (stored f d c.field).bind fun e =>
    (showvarkey f d).bind fun key => (m.decrypt md5 (sdbGet e) key).map (snprintf 100)

end

/-- What `get` has for the key of a row: a name comes from the login, and an id from the row
of a user that has it. -/
def CryptTable.getKey (c : CryptTable) (key : Bytes) : Bytes :=
  if c.fromUser then sdbGet key else key

/-- The value that the command gives to a field. -/
def given (args : List (Bytes × Bytes)) (n : Bytes) : Bytes := (args.lookup n).getD []

/-- The row that `add` makes is read as the password by all three. -/
def KeysAgree [LongWidth] (conv : Conversions) (md5 : Bytes → Digest) (m : DbModule)
    (f : UInt8 → UInt8) (c : CryptTable) (args : List (Bytes × Bytes)) (p : Bytes) : Prop :=
  ∃ d, tacDbAdd conv md5 m c.table args = some d ∧
    getSecret md5 m f c d (c.getKey (given args c.keyField)) = some p ∧
    showSecret md5 m f c d = some p ∧ sshowSecret md5 m f c d = some p

/-! ## When the keys agree -/

/-- The row can be asked for by its key: the key fits, and reaches the SELECT as it has been
given. -/
structure CryptTable.KeyFound (c : CryptTable) (key : Bytes) : Prop where
  length : (toSQL key).length ≤ 75
  ne : key ≠ []
  quote : quote ∉ key
  backslash : Sql.backslash ∉ key
  blank : c.fromUser = true → NoBlankEnd key

/-- The first field of the table is a string. -/
def CryptTable.StringFirst (c : CryptTable) : Prop :=
  ∃ x ∈ c.table.clear.fields.head?, x.value = .string []

instance (c : CryptTable) : Decidable c.StringFirst :=
  inferInstanceAs (Decidable (∃ x ∈ c.table.clear.fields.head?, x.value = .string []))

/-- The key of `show` and `sshow`. -/
def CryptTable.shownKey (c : CryptTable) (args : List (Bytes × Bytes)) : Bytes :=
  if c.StringFirst then trimLoop (given args c.keyField) else []

/-- The password fits its buffers, and the key of the row gives the same hash everywhere. -/
structure KeysMatch (md5 : Bytes → Digest) (m : DbModule) (c : CryptTable)
    (args : List (Bytes × Bytes)) (p : Bytes) : Prop where
  length : p.length ≤ 31
  ne_hash : ∀ (i : ℕ) (hi : i < p.length),
    p[i] ≠ (m.createMd5Hash md5 (showkey args)).get (i % 16)
  get : m.AgreeOn md5 p (showkey args) (given args c.keyField)
  shown : m.AgreeOn md5 p (showkey args) (c.shownKey args)

/-- Without encryption the password is stored as it is. -/
structure PlainFits (p : Bytes) : Prop where
  length : p.length ≤ 32
  escaped : (p.flatMap sqlByte).length ≤ 63
  blank : NoBlankEnd p

/-! ## The column -/

section

variable {f : UInt8 → UInt8} (hslash : f Sql.backslash = Sql.backslash)
  (hquote : f quote = quote) (hdouble : f 34 = 34)

theorem columnText_of_plain {v : Bytes} (hlen : v.length ≤ 75) (h : Sql.Plain (some f) v) :
    columnText f v = some v := by
  rw [columnText, if_neg (by omega), Sql.run_lit_of_plain (some f) [] h]
  rfl

include hslash hquote hdouble

theorem columnText_flatMap {s : Bytes} (hlen : (s.flatMap sqlByte).length ≤ 75) :
    columnText f (s.flatMap sqlByte) = some s := by
  rw [columnText, if_neg (by omega), run_flatMap_sqlByte_eq hslash hquote hdouble]
  rfl

/-- A string that `add` escapes. -/
theorem columnText_toSQL {s : Bytes} (h0 : (0 : UInt8) ∉ s) :
    columnText f (toSQL s) = if (toSQL s).length ≤ 75 then some s else none := by
  split
  · next hfit =>
    have heq := toSQL_eq_of_short h0 (show (toSQL s).length ≤ 897 by omega)
    rw [heq] at hfit ⊢
    exact columnText_flatMap hslash hquote hdouble hfit
  · next hlong => rw [columnText, if_pos (by omega)]

end

/-! ## The SELECT of `get` -/

section

variable {c : CryptTable} {f : UInt8 → UInt8} {key : Bytes}

theorem getKey_isPrefix (c : CryptTable) (key : Bytes) : c.getKey key <+: key := by
  rw [CryptTable.getKey]
  split
  · exact sdbGet_isPrefix key
  · exact List.prefix_rfl

theorem getKey_eq_self_iff (h0 : (0 : UInt8) ∉ key) (hlen : key.length ≤ 298) :
    c.getKey key = key ↔ (c.fromUser = true → NoBlankEnd key) := by
  rw [CryptTable.getKey]
  split
  · next hfrom => simp only [sdbGet_eq_self_iff h0 hlen, hfrom, true_imp_iff]
  · next hfrom => simp [hfrom]

theorem CryptTable.KeyFound.getKey_eq (h : c.KeyFound key) (h0 : (0 : UInt8) ∉ key) :
    c.getKey key = key := by
  have hfit := h.length
  have hlen := length_le_toSQL h0 (by omega)
  exact (getKey_eq_self_iff h0 (by omega)).mpr h.blank

/-- **The row is found** exactly when its key has no quote and no backslash, and comes to `get`
as it is. -/
theorem keyFound_iff (h0 : (0 : UInt8) ∉ key) :
    ((toSQL key).length ≤ 75 ∧ c.getKey key ≠ [] ∧
      valueOf f (quoted (c.getKey key)) = some key) ↔ c.KeyFound key := by
  have hpre := getKey_isPrefix c key
  have h0get : (0 : UInt8) ∉ c.getKey key := fun h => h0 (hpre.subset h)
  constructor
  · rintro ⟨hfit, hne, hvalue⟩
    -- neither `get` nor the literal adds a byte
    obtain ⟨hlen, hplain⟩ := @valueOf_quotedIn f 100 (by omega) _ _ h0get hvalue
    have hself : c.getKey key = key := hpre.eq_of_length (le_antisymm hpre.length_le hlen)
    have hbytes := (hplain hself.symm).2
    rw [hself] at hne hbytes
    have hshort := length_le_toSQL h0 (by omega)
    exact ⟨hfit, hne, hbytes.1, hbytes.2 rfl,
      (getKey_eq_self_iff h0 (by omega)).mp hself⟩
  · intro h
    have hfit := h.length
    have hlen := length_le_toSQL h0 (by omega)
    rw [h.getKey_eq h0]
    exact ⟨h.length, h.ne, (@valueOf_quotedIn_self_iff f 100 (by omega) _ h0).mpr
      ⟨by omega, h.quote, fun _ => h.backslash⟩⟩

end

/-! ## The description after `add` -/

section

variable {conv : Conversions} {md5 : Bytes → Digest} {m : DbModule} {c : CryptTable}
  {args : List (Bytes × Bytes)} {p : Bytes}

/-- The description that `add` fills, where the password is encrypted. -/
def addedTable [LongWidth] (conv : Conversions) (md5 : Bytes → Digest) (m : DbModule)
    (c : CryptTable) (args : List (Bytes × Bytes)) : DbTable where
  name := c.table.clear.name
  fields := c.table.clear.fields.map
    (DbField.after (addText conv md5 m (showkey args)) false args)

/-- `add` fills the description, unless the encryption fails. -/
theorem tacDbAdd_eq [LongWidth] (hargs : c.table.clear.ArgsOf args)
    (hp : args.lookup c.field = some p) :
    tacDbAdd conv md5 m c.table args =
      (m.encrypt md5 (snprintf 100 p) (showkey args)).map fun _ =>
        addedTable conv md5 m c args := by
  obtain ⟨hyes, hno⟩ := @DbTable.fill_eq _ (addText conv md5 m (showkey args)) false args
    c.wellTyped hargs (keepsTypes_addText conv md5 m _)
  have hsecret := (c.encrypted_iff _ c.field_mem).mpr rfl
  cases henc : m.encrypt md5 (snprintf 100 p) (showkey args) with
  | none =>
    refine hno fun hall => ?_
    have hsome := hall _ c.field_mem p hp
    simp [addText, DbValue.ofText, DbValue.cleared, hsecret, henc] at hsome
  | some e =>
    refine hyes fun x hx valu hvalu => ?_
    rw [addText]
    cases hvalue : x.value.cleared with
    | string b =>
      by_cases hcrypt : encrypted x.name = true
      · -- the password is the only one that is encrypted
        rw [(c.encrypted_iff x hx).mp hcrypt, hp, Option.some.injEq] at hvalu
        subst hvalu
        simp [DbValue.ofText, hcrypt, henc]
      · simp [DbValue.ofText, hcrypt]
    | _ => simp [DbValue.ofText]

theorem stringOf_after {ofText : Bytes → Bytes → DbValue → Option DbValue} {request : Bool}
    {d : DbTable} (h : d.WellTyped) {x : DbField} (hx : x ∈ d.fields) {v : Bytes}
    (hv : (x.after ofText request args).value = .string v) :
    DbTable.stringOf { d with fields := d.fields.map (DbField.after ofText request args) } x.name =
      v := by
  rw [DbTable.stringOf, DbTable.find_after h hx, Option.map_some, hv]

/-- The text of the password. -/
theorem stringOf_added_field [LongWidth] {e : Bytes} (hp : args.lookup c.field = some p)
    (henc : m.encrypt md5 (snprintf 100 p) (showkey args) = some e) :
    (addedTable conv md5 m c args).stringOf c.field = snprintf 100 e := by
  have hsecret := (c.encrypted_iff _ c.field_mem).mpr rfl
  refine stringOf_after c.wellTyped c.field_mem ?_
  simp [DbField.after, hp, addText, DbValue.ofText, DbValue.cleared, hsecret, henc]

/-- A string field that is not encrypted. -/
theorem after_addText [LongWidth] {n : Bytes} (hn : encrypted n = false) (request : Bool) :
    ((⟨n, request, .string []⟩ : DbField).after (addText conv md5 m (showkey args)) false
      args).value = .string (toSQL (given args n)) := by
  rw [DbField.after, given]
  cases args.lookup n with
  | none => rfl
  | some valu => simp [addText, DbValue.ofText, DbValue.cleared, hn]

theorem encrypted_keyField (c : CryptTable) : encrypted c.keyField = false := by
  rw [Bool.eq_false_iff]
  exact fun h => c.ne ((c.encrypted_iff _ c.keyField_mem).mp h)

/-- The text of the key. -/
theorem stringOf_added_keyField [LongWidth] :
    (addedTable conv md5 m c args).stringOf c.keyField = toSQL (given args c.keyField) :=
  stringOf_after c.wellTyped c.keyField_mem (after_addText (encrypted_keyField c) false)

/-- A string in front of the cleared table is the key, and empty. -/
theorem head_cases (c : CryptTable) :
    (c.table.clear.fields = [] ∧ ¬ c.StringFirst) ∨
      ∃ x xs, c.table.clear.fields = x :: xs ∧
        ((x = ⟨c.keyField, x.request, .string []⟩ ∧ c.StringFirst) ∨
          (x.value.cleared ≠ .string [] ∧ ¬ c.StringFirst)) := by
  rcases hfields : c.table.clear.fields with _ | ⟨x, xs⟩
  · refine .inl ⟨rfl, ?_⟩
    rintro ⟨x, hx, -⟩
    simp [hfields] at hx
  · refine .inr ⟨x, xs, rfl, ?_⟩
    have hhead : x ∈ c.table.clear.fields.head? := by simp [hfields]
    have hclear : x.value.cleared = x.value := by
      obtain ⟨y, -, rfl⟩ := List.mem_map.mp (List.mem_of_mem_head? hhead)
      exact DbValue.cleared_cleared _
    by_cases hstr : x.value = .string []
    · refine .inl ⟨?_, x, hhead, hstr⟩
      rw [← c.first x hhead hstr, ← hstr]
    · refine .inr ⟨by rwa [hclear], ?_⟩
      rintro ⟨y, hy, hvalue⟩
      rw [hfields, List.head?_cons, Option.mem_some_iff] at hy
      exact hstr (hy ▸ hvalue)

/-- The texts of a command have no NUL. -/
theorem zero_not_mem_given {n : Bytes} (h0 : ∀ arg ∈ args, (0 : UInt8) ∉ arg.2) :
    (0 : UInt8) ∉ given args n := by
  rw [given]
  cases hv : args.lookup n with
  | none => simp
  | some v =>
    obtain ⟨pre, post, rfl, -⟩ := List.lookup_eq_some_iff.mp hv
    exact h0 (n, v) (by simp)

variable {f : UInt8 → UInt8} (hslash : f Sql.backslash = Sql.backslash)
  (hquote : f quote = quote) (hdouble : f 34 = 34)
include hslash hquote hdouble

/-- The key that `show` finds in the row. -/
theorem showvarkey_added [LongWidth] (h0 : (0 : UInt8) ∉ given args c.keyField)
    (hfit : (toSQL (given args c.keyField)).length ≤ 75) :
    showvarkey f (addedTable conv md5 m c args) = some (c.shownKey args) := by
  rw [showvarkey, addedTable, CryptTable.shownKey]
  rcases head_cases c with ⟨hnil, hno⟩ | ⟨x, xs, hcons, ⟨hx, hyes⟩ | ⟨hx, hno⟩⟩
  · simp [hnil, hno]
  · have hvalue : (x.after (addText conv md5 m (showkey args)) false args).value =
        .string (toSQL (given args c.keyField)) := by
      rw [hx]
      exact after_addText (encrypted_keyField c) x.request
    have hkept := length_le_toSQL h0 (by omega)
    rw [hcons, List.map_cons, if_pos hyes]
    rcases hafter : x.after (addText conv md5 m (showkey args)) false args with ⟨n, request, v⟩
    rw [hafter] at hvalue
    subst hvalue
    simp only [columnText_toSQL hslash hquote hdouble h0, if_pos hfit, Option.map_some, sdbGet]
    rw [snprintf_eq_self h0 (by omega)]
  · have htype : (x.after (addText conv md5 m (showkey args)) false args).value.cleared ≠
        .string [] := by
      rwa [DbTable.cleared_after (keepsTypes_addText conv md5 m _)]
    rw [hcons, List.map_cons, if_neg hno]
    rcases hafter : x.after (addText conv md5 m (showkey args)) false args with ⟨n, request, v⟩
    rw [hafter] at htype
    cases v with
    | string v => exact absurd rfl htype
    | _ => rfl

/-- The columns of the row. -/
theorem stored_keyField [LongWidth] (h0 : (0 : UInt8) ∉ given args c.keyField) :
    stored f (addedTable conv md5 m c args) c.keyField =
      if (toSQL (given args c.keyField)).length ≤ 75 then some (given args c.keyField)
      else none := by
  rw [stored, stringOf_added_keyField, columnText_toSQL hslash hquote hdouble h0]

/-- **The three readers** of a stored text that fits their buffers. -/
theorem secrets_eq [LongWidth] (h0 : (0 : UInt8) ∉ given args c.keyField)
    (hk : c.KeyFound (given args c.keyField))
    {e : Bytes} (he : stored f (addedTable conv md5 m c args) c.field = some e)
    (h0e : (0 : UInt8) ∉ e) (hlen : e.length ≤ 98) :
    getSecret md5 m f c (addedTable conv md5 m c args) (c.getKey (given args c.keyField)) =
      m.decrypt md5 (sdbGet e) (given args c.keyField) ∧
    showSecret md5 m f c (addedTable conv md5 m c args) =
      (m.decrypt md5 (sdbGet e) (c.shownKey args)).map (snprintf 100) ∧
    sshowSecret md5 m f c (addedTable conv md5 m c args) =
      (m.decrypt md5 (sdbGet e) (c.shownKey args)).map (snprintf 100) := by
  have hfit := hk.length
  have hself := hk.getKey_eq h0
  obtain ⟨-, hne, hfound⟩ := (@keyFound_iff c f _ h0).mpr hk
  rw [hself] at hne hfound
  have hkey := @stored_keyField conv md5 m c args f hslash hquote hdouble _ h0
  rw [if_pos hfit] at hkey
  have hshown := @showvarkey_added conv md5 m c args f hslash hquote hdouble _ h0 hfit
  have hbytes := length_le_toSQL h0 (by omega)
  have hcut : snprintf 99 (c.shownKey args) = c.shownKey args := by
    rw [CryptTable.shownKey]
    split
    · have hpre := trimLoop_isPrefix (given args c.keyField)
      have hle := hpre.length_le
      exact snprintf_eq_self (fun h => h0 (hpre.subset h)) (by omega)
    · rfl
  have hread : snprintf 99 (sdbGet e) = sdbGet e := by
    have hle := length_sdbGet_le e
    exact snprintf_eq_self (fun h => h0e ((sdbGet_isPrefix e).subset h)) (by omega)
  rw [getSecret, showSecret, sshowSecret, he, hkey, hshown, hself]
  simp only [Option.bind_some, if_neg hne, if_pos hfound, hcut, hread, and_self]

/-- The three readers of an encrypted password. -/
theorem secrets_of_groups [LongWidth] (hm : m.cryptokey ≠ str "none")
    (h0 : (0 : UInt8) ∉ given args c.keyField) (hk : c.KeyFound (given args c.keyField))
    (hp : args.lookup c.field = some p) {x : Bytes} (hx0 : (0 : UInt8) ∉ x)
    (hxlen : x.length ≤ 31)
    (henc : m.encrypt md5 (snprintf 100 p) (showkey args) = some (base64Groups x)) :
    getSecret md5 m f c (addedTable conv md5 m c args) (c.getKey (given args c.keyField)) =
      m.decrypt md5 (base64Groups x) (given args c.keyField) ∧
    showSecret md5 m f c (addedTable conv md5 m c args) =
      m.decrypt md5 (base64Groups x) (c.shownKey args) ∧
    sshowSecret md5 m f c (addedTable conv md5 m c args) =
      m.decrypt md5 (base64Groups x) (c.shownKey args) := by
  have h0e := zero_not_mem_base64Groups x
  have helen := length_base64Groups x
  obtain ⟨hquotes, hslashes, hblanks⟩ := base64Groups_plain x
  -- no byte of the text is touched by the server and by its reader
  have hblank : NoBlankEnd (base64Groups x) := by
    intro hlast
    exact absurd (List.mem_of_getLast? hlast) hblanks
  have hkept : sdbGet (base64Groups x) = base64Groups x :=
    (sdbGet_eq_self_iff h0e (by omega)).mpr hblank
  have hcolumn : stored f (addedTable conv md5 m c args) c.field = some (base64Groups x) := by
    rw [stored, stringOf_added_field hp henc, snprintf_eq_self h0e (by omega)]
    exact columnText_of_plain (by omega) ⟨hquotes, fun _ => hslashes⟩
  obtain ⟨hget, hshow, hsshow⟩ := @secrets_eq conv md5 m c args f hslash hquote hdouble _ h0 hk
    _ hcolumn h0e (by omega)
  rw [hkept] at hget hshow hsshow
  have hshown : ∀ vk, (m.decrypt md5 (base64Groups x) vk).map (snprintf 100) =
      m.decrypt md5 (base64Groups x) vk := by
    intro vk
    have hcut := length_cstr_le (m.md5Xor md5 x vk)
    rw [DbModule.length_md5Xor md5 hm] at hcut
    rw [DbModule.decrypt_groups md5 hm hx0 hxlen, Option.map_some,
      snprintf_eq_self (zero_not_mem_cstr _) (by omega)]
  rw [hget, hshow, hsshow, hshown]
  exact ⟨rfl, rfl, rfl⟩

/-- The password encrypted, as far as it fits. -/
theorem keysAgree_of_crypt [LongWidth] (hm : m.cryptokey ≠ str "none") (h0p : (0 : UInt8) ∉ p)
    (h0 : (0 : UInt8) ∉ given args c.keyField) (hk : c.KeyFound (given args c.keyField))
    (hargs : c.table.clear.ArgsOf args) (hp : args.lookup c.field = some p) :
    KeysAgree conv md5 m f c args p ↔ KeysMatch md5 m c args p := by
  by_cases hlen : p.length ≤ 31
  · have henc : m.encrypt md5 (snprintf 100 p) (showkey args) =
        some (base64Groups (cstr (m.md5Xor md5 p (showkey args)))) := by
      rw [snprintf_eq_self h0p (by omega), DbModule.encrypt_eq md5 hm h0p hlen]
    have hxlen := length_cstr_le (m.md5Xor md5 p (showkey args))
    rw [DbModule.length_md5Xor md5 hm] at hxlen
    obtain ⟨hget, hshow, hsshow⟩ := secrets_of_groups hslash hquote hdouble hm h0 hk hp
      (zero_not_mem_cstr _) (by omega) henc
    have hiff := fun vk => DbModule.decrypt_groups_iff md5 hm h0p hlen (showkey args) vk
    constructor
    · rintro ⟨d, hd, h1, h2, -⟩
      rw [tacDbAdd_eq hargs hp, henc, Option.map_some, Option.some.injEq] at hd
      subst hd
      rw [hget, hiff] at h1
      rw [hshow, hiff] at h2
      exact ⟨hlen, h1.1, h1.2, h2.2⟩
    · intro h
      have h1 := (hiff _).mpr ⟨h.ne_hash, h.get⟩
      have h2 := (hiff _).mpr ⟨h.ne_hash, h.shown⟩
      refine ⟨_, by rw [tacDbAdd_eq hargs hp, henc, Option.map_some], ?_, ?_, ?_⟩
      · rw [hget, h1]
      · rw [hshow, h2]
      · rw [hsshow, h2]
  · -- the buffer of the encryption has no room for the password and a NUL
    refine iff_of_false ?_ fun h => hlen h.length
    rintro ⟨d, hd, -⟩
    have h0cut : (0 : UInt8) ∉ snprintf 100 p := fun h => h0p ((isPrefix_snprintf 100 p).subset h)
    have hcut : 32 ≤ (snprintf 100 p).length := by
      rw [snprintf, cstr_eq_self h0p, List.length_take]
      omega
    rw [tacDbAdd_eq hargs hp, DbModule.encrypt_eq_none md5 hm h0cut hcut] at hd
    contradiction

/-- The password as it is, where nothing is encrypted. -/
theorem keysAgree_of_none [LongWidth] (hm : m.cryptokey = str "none") (h0p : (0 : UInt8) ∉ p)
    (h0 : (0 : UInt8) ∉ given args c.keyField) (hk : c.KeyFound (given args c.keyField))
    (hargs : c.table.clear.ArgsOf args) (hp : args.lookup c.field = some p) :
    KeysAgree conv md5 m f c args p ↔ PlainFits p := by
  have hcut : (cstr (snprintf 100 p)).take 32 = p.take 32 := by
    have h0cut : (0 : UInt8) ∉ p.take 99 := fun h => h0p (List.mem_of_mem_take h)
    rw [snprintf, cstr_eq_self h0p, cstr_eq_self h0cut, List.take_take]
    rfl
  have henc : m.encrypt md5 (snprintf 100 p) (showkey args) =
      terminated 64 ((p.take 32).flatMap sqlByte) := by
    rw [DbModule.encrypt, if_pos hm, hcut]
  by_cases hlong : ((p.take 32).flatMap sqlByte).length ≤ 63
  · rw [terminated, if_pos (by omega)] at henc
    have h0s : (0 : UInt8) ∉ (p.take 32).flatMap sqlByte := by
      intro hmem
      obtain ⟨b, hb, hin⟩ := List.mem_flatMap.mp hmem
      exact h0p (List.mem_of_mem_take (zero_mem_sqlByte hin ▸ hb))
    have hcolumn : stored f (addedTable conv md5 m c args) c.field = some (p.take 32) := by
      rw [stored, stringOf_added_field hp henc, snprintf_eq_self h0s (by omega)]
      exact columnText_flatMap hslash hquote hdouble (by omega)
    have h0cut : (0 : UInt8) ∉ p.take 32 := fun h => h0p (List.mem_of_mem_take h)
    have hcutlen : (p.take 32).length ≤ 32 := by
      rw [List.length_take]
      omega
    have h0read : (0 : UInt8) ∉ sdbGet (p.take 32) :=
      fun h => h0cut ((sdbGet_isPrefix _).subset h)
    have hreadlen := length_sdbGet_le (p.take 32)
    obtain ⟨hget, hshow, hsshow⟩ := @secrets_eq conv md5 m c args f hslash hquote hdouble _ h0 hk
      _ hcolumn h0cut (by omega)
    have hdecrypt : ∀ vk, m.decrypt md5 (sdbGet (p.take 32)) vk = some (sdbGet (p.take 32)) := by
      intro vk
      rw [DbModule.decrypt, if_pos hm, cstr_eq_self h0read]
    rw [hdecrypt] at hget hshow hsshow
    rw [Option.map_some, snprintf_eq_self h0read (by omega)] at hshow hsshow
    constructor
    · rintro ⟨d, hd, hp1, -, -⟩
      rw [tacDbAdd_eq hargs hp, henc, Option.map_some, Option.some.injEq] at hd
      subst hd
      rw [hget, Option.some.injEq] at hp1
      have hplen : p.length ≤ 32 := by
        rw [← hp1]
        omega
      rw [List.take_of_length_le hplen] at hp1 hlong
      exact ⟨hplen, hlong, (sdbGet_eq_self_iff h0p (by omega)).mp hp1⟩
    · intro h
      have hread := (sdbGet_eq_self_iff h0p (by have := h.length; omega)).mpr h.blank
      rw [List.take_of_length_le h.length, hread] at hget hshow hsshow
      exact ⟨_, by rw [tacDbAdd_eq hargs hp, henc, Option.map_some], hget, hshow, hsshow⟩
  · refine iff_of_false ?_ fun h => hlong ?_
    · rintro ⟨d, hd, -⟩
      rw [tacDbAdd_eq hargs hp, henc, terminated, if_neg (by omega)] at hd
      contradiction
    · rw [List.take_of_length_le h.length]
      exact h.escaped

/-- **The keys agree** exactly when the row can be asked for by its key, and the password comes
back under the key of `add`, of `get` and of `show`. -/
theorem keys_agree_iff [LongWidth] (h0 : ∀ arg ∈ args, (0 : UInt8) ∉ arg.2)
    (hargs : c.table.clear.ArgsOf args) (hp : args.lookup c.field = some p) :
    KeysAgree conv md5 m f c args p ↔
      c.KeyFound (given args c.keyField) ∧
        if m.cryptokey = str "none" then PlainFits p else KeysMatch md5 m c args p := by
  have h0k := zero_not_mem_given (n := c.keyField) h0
  have h0p : (0 : UInt8) ∉ p := by
    have hgiven := zero_not_mem_given (n := c.field) h0
    rwa [given, hp] at hgiven
  by_cases hk : c.KeyFound (given args c.keyField)
  · rw [and_iff_right hk]
    split
    · next hm => exact keysAgree_of_none hslash hquote hdouble hm h0p h0k hk hargs hp
    · next hm => exact keysAgree_of_crypt hslash hquote hdouble hm h0p h0k hk hargs hp
  · -- `get` does not find the row
    refine iff_of_false ?_ fun h => hk h.1
    rintro ⟨d, hd, hget, -⟩
    rw [tacDbAdd_eq hargs hp, Option.map_eq_some_iff] at hd
    obtain ⟨e, -, rfl⟩ := hd
    rw [getSecret, stored_keyField hslash hquote hdouble h0k] at hget
    split at hget
    · next hfit =>
      rw [Option.bind_some] at hget
      split at hget
      · contradiction
      · next hne =>
        split at hget
        · next hfound => exact hk ((keyFound_iff h0k).mp ⟨hfit, hne, hfound⟩)
        · contradiction
    · contradiction

end

/-- A command for the users. -/
def usrArgs : List (Bytes × Bytes) := [(str "username", str "joe"), (str "password", str "secret")]

/-- A command for the additional data. -/
def addArgs : List (Bytes × Bytes) := [(str "addid", str "adm"), (str "enable", str "secret")]

/-- A machine without names. -/
def sampleConv : Conversions := ⟨⟨fun _ => none, id, fun _ => 0⟩, id, fun _ => 0⟩

/-- A hash whose first byte is the length of its text. -/
def lengthDigest (b : Bytes) : Digest :=
  ⟨UInt8.ofNat (200 + b.length) :: List.replicate 15 200, by simp [md5Len]⟩

/-- The id first. -/
theorem keys_agree_addid :
    KeysAgree sampleConv lengthDigest DbModule.sample (fun c => c) addCrypt addArgs
      (str "secret") :=
  (keys_agree_iff rfl rfl rfl (by decide +kernel) ⟨by decide +kernel, by decide +kernel⟩
    (by decide +kernel)).mpr
    ⟨⟨by decide +kernel, by decide, by decide, by decide, fun _ => by decide⟩, by
      rw [if_neg (by decide)]
      exact ⟨by decide, by decide +kernel, by decide +kernel, by decide +kernel⟩⟩

/-- `show` decrypts the password of a user under the empty key. -/
theorem keys_differ_username :
    ¬ (∀ (conv : Conversions) (md5 : Bytes → Digest) (m : DbModule) (f : UInt8 → UInt8)
      (c : CryptTable) (args : List (Bytes × Bytes)) (p : Bytes),
      f Sql.backslash = Sql.backslash → f quote = quote → f 34 = 34 →
      (∀ arg ∈ args, (0 : UInt8) ∉ arg.2) → c.table.clear.ArgsOf args →
      args.lookup c.field = some p → KeysAgree conv md5 m f c args p) := by
  intro hall
  have hargs : usrCrypt.table.clear.ArgsOf usrArgs := ⟨by decide +kernel, by decide +kernel⟩
  have hagree := hall sampleConv lengthDigest DbModule.sample (fun c => c) usrCrypt usrArgs
    (str "secret") rfl rfl rfl (by decide +kernel) hargs (by decide +kernel)
  have hk : usrCrypt.KeyFound (given usrArgs usrCrypt.keyField) :=
    ⟨by decide +kernel, by decide, by decide, by decide, fun _ => by decide⟩
  have hmatch := (keysAgree_of_crypt rfl rfl rfl (by decide) (by decide) (by decide +kernel)
    hk hargs (by decide +kernel)).mp hagree
  have hshown := hmatch.shown
  revert hshown
  decide +kernel

end Tacppd
