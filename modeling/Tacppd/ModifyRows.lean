/-
# The rows that `modify` changes

`TacDb::modify` puts the new values into the description of the table first, and then the
values that select the rows into the same slots.  A field that is both selected by and set
keeps the value that it is selected by; a password is looked for as it is decrypted, where
`del` looks for it encrypted; and a string goes into the statement as it is.

`modify_right_iff` says when the rows that `del` would delete are changed, and as they should
be.
-/
import Tacppd.RowKey
import Tacppd.Lib.SqlRows

namespace Tacppd

open Sql (quote)

/-! ## Statements as lists of columns with texts -/

/-- The columns of some of the fields, with the texts of `db_update` and `db_del`. -/
def DbTable.pairs (time2iso : ℤ → Bytes) (p : DbField → Bool) (d : DbTable) :
    List (Bytes × Bytes) :=
  (d.fields.filter p).map fun f => (f.shownName, f.value.shownUpdate time2iso)

/-- A server, as it is described by its documentation. -/
abbrev SqlServer (f : UInt8 → UInt8) := @SqlRows.Server Bytes Bytes Bytes (valueOf f)

/-- What `db_update` leaves of the rows.  It throws where no field is marked, and the server
takes no statement without a condition. -/
noncomputable def updatedRows {f : UInt8 → UInt8} (srv : SqlServer f) (time2iso : ℤ → Bytes)
    (marked : Bytes → Bool) (d : DbTable) (rows : List (Bytes → Bytes)) :
    List (Bytes → Bytes) :=
  let conds := d.pairs time2iso fun x => x.request
  match dbUpdate time2iso marked d with
  | none => rows
  | some _ =>
    if conds = [] then rows
    else srv.update (d.pairs time2iso fun x => marked x.name) conds rows

/-- What `db_del` leaves of them. -/
noncomputable def keptRows {f : UInt8 → UInt8} (srv : SqlServer f) (time2iso : ℤ → Bytes)
    (d : DbTable) (rows : List (Bytes → Bytes)) : List (Bytes → Bytes) :=
  let conds := d.pairs time2iso fun x => x.request
  if conds = [] then rows else srv.delete conds rows

/-! ## The new values -/

/-- A timestamp, as `2001-03-24 10:30:05`: with every digit as 0. -/
def IsStamp (v : Bytes) : Prop :=
  (v.map fun c => if 48 ≤ c ∧ c ≤ 57 then 48 else c) = str "0000-00-00 00:00:00"

instance (v : Bytes) : Decidable (IsStamp v) := inferInstanceAs (Decidable (_ = _))

/-- A text that turns a flag on: the beginning of `open` or `true`, in any letters, or the
whole word and more behind a blank. -/
def flagOn (valu : Bytes) : Bool :=
  let w := valu.map toLower
  !w.isEmpty && [str "open", str "true"].any fun word =>
    w.isPrefixOf word || (word ++ [32]).isPrefixOf w

/-- **What an argument `n=valu` wants the column of a field to be**, by the type of the field:
a string as it is given, a password that is read as the given one under the key, the number that
the text begins with, the time that it stands for, and the address of the host. -/
def NewValue (conv : Conversions) (md5 : Bytes → Digest) (m : DbModule) (key n valu v : Bytes) :
    DbValue → Prop
  | .bool _ => v = if flagOn valu then str "true" else str "false"
  | .int _ => v = str (toString (leadingNumber valu))
  | .float _ => v = conv.atof valu
  | .string _ => if encrypted n then m.decrypt md5 v key = some valu else v = valu
  | .date _ => IsStamp v ∧ conv.iso2time v = conv.iso2time valu
  | .ip _ => if valu = [] then v = unknownIp else conv.env.gethostbyname valu = some v

instance (conv : Conversions) (md5 : Bytes → Digest) (m : DbModule) (key n valu v : Bytes)
    (t : DbValue) : Decidable (NewValue conv md5 m key n valu v t) :=
  match t with
  | .bool _ => inferInstanceAs (Decidable (v = _))
  | .int _ => inferInstanceAs (Decidable (v = _))
  | .float _ => inferInstanceAs (Decidable (v = _))
  | .string _ => inferInstanceAs (Decidable (ite _ _ _))
  | .date _ => inferInstanceAs (Decidable (_ ∧ _))
  | .ip _ => inferInstanceAs (Decidable (ite _ _ _))

/-- A long text is the new value of no field. -/
theorem exists_not_newValue (conv : Conversions) (md5 : Bytes → Digest) (m : DbModule)
    (key n valu : Bytes) :
    ∃ l, ∀ k ≥ l, ∀ t, ¬ NewValue conv md5 m key n valu (List.replicate k 65) t := by
  refine ⟨valu.length + 129 + (str (toString (leadingNumber valu))).length +
    (conv.atof valu).length + ((conv.env.gethostbyname valu).getD []).length, ?_⟩
  intro k hk t h
  have hplain : cstr (List.replicate k 65) = List.replicate k 65 :=
    cstr_eq_self (by simp [List.mem_replicate])
  cases t with
  | bool b =>
    rw [NewValue] at h
    have hlen := congrArg List.length h
    have htrue : (str "true").length = 4 := by decide
    have hfalse : (str "false").length = 5 := by decide
    rw [List.length_replicate, apply_ite List.length, htrue, hfalse] at hlen
    split at hlen <;> omega
  | int b =>
    rw [NewValue] at h
    have hlen := congrArg List.length h
    rw [List.length_replicate] at hlen
    omega
  | float b =>
    rw [NewValue] at h
    have hlen := congrArg List.length h
    rw [List.length_replicate] at hlen
    omega
  | string b =>
    rw [NewValue] at h
    split at h
    · -- the password is shorter, or the buffer of `decrypt` has no room for the text
      rw [DbModule.decrypt, hplain] at h
      split at h
      · have hlen := congrArg List.length (Option.some.inj h)
        rw [List.length_replicate] at hlen
        omega
      · rw [terminated, if_neg, Option.bind_none] at h
        · contradiction
        · rw [List.length_take, List.length_replicate]
          omega
    · have hlen := congrArg List.length h
      rw [List.length_replicate] at hlen
      omega
  | date b =>
    have hlen := congrArg List.length (show List.map _ _ = _ from h.1)
    have hstamp : (str "0000-00-00 00:00:00").length = 19 := by decide
    rw [List.length_map, List.length_replicate, hstamp] at hlen
    omega
  | ip b =>
    rw [NewValue] at h
    split at h
    · have hlen := congrArg List.length h
      have hip : unknownIp.length = 7 := by decide
      rw [List.length_replicate, hip] at hlen
      omega
    · rw [h, Option.getD_some, List.length_replicate] at hk
      omega

section

variable (conv : Conversions) (md5 : Bytes → Digest) (m : DbModule) {f : UInt8 → UInt8}
  (time2iso : ℤ → Bytes) {n valu : Bytes}

/-- **A string is set to what is given** exactly when it fits and its bytes stand for
themselves. -/
theorem setsNew_string_iff [LongWidth] (hn : encrypted n = false) (h0 : (0 : UInt8) ∉ valu)
    (key : Bytes) :
    (∃ w ∈ updateText conv md5 m key n valu (.string []),
      ∃ v ∈ valueOf f (w.shownUpdate time2iso),
        NewValue conv md5 m key n valu v (.string [])) ↔
      valu.length ≤ 86 ∧ Sql.Plain (some f) valu := by
  have hupdate : updateText conv md5 m key n valu (.string []) = some (.string valu) := by
    simp [updateText, DbValue.ofText, hn]
  have hnew : ∀ v, NewValue conv md5 m key n valu v (.string []) ↔ v = valu := fun v => by
    simp [NewValue, hn]
  simp only [hupdate, hnew, Option.mem_def, Option.some.injEq, exists_eq_left', exists_eq_right]
  exact valueOf_quotedIn_self_iff (show 4 ≤ 90 by omega) h0

/-- **A number is set to what is given** exactly when an `int` has room for it. -/
theorem setsNew_int_iff [LongWidth] (key : Bytes) :
    (∃ w ∈ updateText conv md5 m key n valu (.int 0),
      ∃ v ∈ valueOf f (w.shownUpdate time2iso), NewValue conv md5 m key n valu v (.int 0)) ↔
      IntNumber (leadingNumber valu) := by
  have hint := intNumber_atoi valu
  have hlow := hint.1
  have hhigh := hint.2
  have hshown : (DbValue.int (atoi valu % 18446744073709551616).toNat).shownUpdate time2iso =
      str (toString (atoi valu)) := by
    have hback : toInt ((atoi valu % 18446744073709551616).toNat : ℕ) = atoi valu := by
      rw [toInt, Int.bmod_def]
      split <;> omega
    have hlen := length_toString_intNumber hint
    rw [DbValue.shownUpdate, signedText, hback]
    refine snprintf_eq_self (fun h0 => ?_) (by omega)
    rcases byte_of_mem_toString h0 with h | h
    · exact absurd h.1 (by decide)
    · exact absurd h (by decide)
  have hvalue : valueOf f (str (toString (atoi valu))) = some (str (toString (atoi valu))) := by
    refine valueOf_of_bare (toString_int_ne_nil _) fun c hc => ?_
    rcases byte_of_mem_toString hc with h | rfl
    · simp [bareByte, Sql.isWord, h.1, h.2]
    · decide
  simp only [updateText, DbValue.ofText, Option.mem_def, Option.some.injEq, exists_eq_left',
    NewValue, hshown, hvalue]
  rw [← atoi_eq_iff]
  constructor
  · intro h
    have hread := congrArg leadingNumber h
    rwa [leadingNumber_toString, leadingNumber_toString] at hread
  · intro h
    rw [h]

end

/-! ## The texts of the arguments -/

section

variable (conv : Conversions) (md5 : Bytes → Digest) (m : DbModule) (f : UInt8 → UInt8)
  (time2iso : ℤ → Bytes) (d : DbTable) (args args2 : List (Bytes × Bytes))

/-- The value of an argument, for a field of the table. -/
def argValue (ofText : Bytes → Bytes → DbValue → Option DbValue) (args : List (Bytes × Bytes))
    (n : Bytes) : Option DbValue :=
  (args.lookup n).bind fun valu => (d.clear.typeOf n).bind (ofText n valu)

/-- The text of an argument. -/
def argText (ofText : Bytes → Bytes → DbValue → Option DbValue) (args : List (Bytes × Bytes))
    (n : Bytes) : Bytes :=
  ((argValue d ofText args n).map (DbValue.shownUpdate time2iso)).getD []

/-- What `modify` asks for. -/
def selectShown [LongWidth] : Bytes → Bytes :=
  argText time2iso d (selectText conv md5 m (showkey args)) args

/-- What `del` asks for. -/
def delShown [LongWidth] : Bytes → Bytes :=
  argText time2iso d (delText conv md5 m (showkey args)) args

/-- What `modify` sets a field to: a text that selects takes the place of a new value. -/
def slotShown [LongWidth] (n : Bytes) : Bytes :=
  if (args.lookup n).isSome then selectShown conv md5 m time2iso d args n
  else argText time2iso d (updateText conv md5 m (showkey args)) args2 n

/-- A column with the new value of its field, under the first text of the command as the key. -/
def IsNew (n v : Bytes) : Prop :=
  ∃ valu ∈ args2.lookup n, ∃ x ∈ d.fields, x.name = n ∧
    NewValue conv md5 m ((args.head?.map Prod.snd).getD []) n valu v x.value

instance (n v : Bytes) : Decidable (IsNew conv md5 m d args args2 n v) :=
  inferInstanceAs (Decidable (∃ valu ∈ args2.lookup n, ∃ x ∈ d.fields, x.name = n ∧
    NewValue conv md5 m ((args.head?.map Prod.snd).getD []) n valu v x.value))

/-- **`modify` is right**: on every server, the rows that `del` would delete have the new
values afterwards and are otherwise as they were, and the other rows are untouched. -/
def ModifyRight [LongWidth] : Prop :=
  ∃ d2 d1, tacDbModify conv md5 m d args args2 = some d2 ∧
    tacDbDel conv md5 m d args = some d1 ∧
    ∀ (srv : SqlServer f) (rows : List (Bytes → Bytes)),
      List.Forall₂ (fun r r' =>
        if keptRows srv time2iso d1 [r] = [] then
          SqlRows.Becomes (args2.map Prod.fst) (IsNew conv md5 m d args args2) r r'
        else r' = r) rows (updatedRows srv time2iso (updateMarks args2) d2 rows)

/-- The texts of all arguments are converted: no password is too long. -/
def AllConvert [LongWidth] : Prop :=
  DbTable.Converts (selectText conv md5 m (showkey args)) args d.clear ∧
    DbTable.Converts (delText conv md5 m (showkey args)) args d.clear ∧
    DbTable.Converts (updateText conv md5 m (showkey args)) args2 d.clear

/-- The condition for `modify`: nothing is asked for or nothing is set, or every text that is
set stands for a value and, either the rows are looked for as `del` does and every field is set
to a new value, or the rows have new values already. -/
def ModifyHolds [LongWidth] : Prop :=
  AllConvert conv md5 m d args args2 ∧ (args = [] ∨ args2 = [] ∨
    ((∀ n ∈ args2.map Prod.fst,
      (valueOf f (slotShown conv md5 m time2iso d args args2 n)).isSome = true) ∧
      ((SqlRows.SameRows (valueOf f) (args.map Prod.fst) (selectShown conv md5 m time2iso d args)
          (delShown conv md5 m time2iso d args) ∧
        SqlRows.SetsWanted (valueOf f) (args2.map Prod.fst)
          (slotShown conv md5 m time2iso d args args2) (IsNew conv md5 m d args args2)) ∨
      SqlRows.NothingToDo (valueOf f) (args.map Prod.fst) (args2.map Prod.fst)
        (selectShown conv md5 m time2iso d args) (delShown conv md5 m time2iso d args)
        (IsNew conv md5 m d args args2))))

end

/-! ## The lists of the statements -/

section

variable {conv : Conversions} {md5 : Bytes → Digest} {m : DbModule} {f : UInt8 → UInt8}
  {time2iso : ℤ → Bytes} {d : DbTable} {args args2 : List (Bytes × Bytes)}

theorem isSome_lookup_iff {n : Bytes} :
    (args.lookup n).isSome = true ↔ n ∈ args.map Prod.fst := by
  rw [Option.isSome_iff_ne_none, ne_eq, List.lookup_eq_none_iff, List.mem_map]
  push Not
  constructor
  · rintro ⟨x, hx, hne⟩
    have heq : n = x.1 := by simpa using hne
    exact ⟨x, hx, heq.symm⟩
  · rintro ⟨x, hx, rfl⟩
    exact ⟨x, hx, by simp⟩

theorem updateMarks_iff {n : Bytes} : updateMarks args n = true ↔ n ∈ args.map Prod.fst := by
  rw [updateMarks, List.any_eq_true, List.mem_map]
  simp only [decide_eq_true_eq]

/-- The columns of a statement are names of the table, in its order. -/
def columns (d : DbTable) (args : List (Bytes × Bytes)) : List Bytes :=
  (d.clear.fields.map DbField.name).filter fun n => (args.lookup n).isSome

theorem mem_columns (hargs : d.clear.ArgsOf args) {n : Bytes} :
    n ∈ columns d args ↔ n ∈ args.map Prod.fst := by
  rw [columns, List.mem_filter, isSome_lookup_iff, and_iff_right_iff_imp]
  intro hn
  obtain ⟨arg, harg, rfl⟩ := List.mem_map.mp hn
  exact hargs.mem arg harg

/-- No name is cut by `char name[100]`. -/
theorem shownName_dbList : ∀ d ∈ dbList, ∀ x ∈ d.clear.fields, x.shownName = x.name := by
  decide +kernel

/-- The pairs of a table whose fields have been filled. -/
theorem pairs_map (hd : d ∈ dbList) {g : DbField → DbField} {p : DbField → Bool}
    {t : Bytes → Bytes} (hname : ∀ x ∈ d.clear.fields, (g x).name = x.name)
    (hp : ∀ x ∈ d.clear.fields, p (g x) = (args.lookup x.name).isSome)
    (ht : ∀ x ∈ d.clear.fields, (args.lookup x.name).isSome = true →
      (g x).value.shownUpdate time2iso = t x.name) :
    DbTable.pairs time2iso p { d.clear with fields := d.clear.fields.map g } =
      SqlRows.texts (columns d args) t := by
  have hshown := shownName_dbList d hd
  rw [DbTable.pairs, SqlRows.texts, columns]
  generalize d.clear.fields = fields at *
  induction fields with
  | nil => rfl
  | cons x fields ih =>
    rw [List.forall_mem_cons] at hname hp ht hshown
    have hrest := ih hname.2 hp.2 ht.2 hshown.2
    simp only [List.map_cons, List.filter_cons, hp.1]
    split
    · next hx =>
      rw [List.map_cons, List.map_cons, hrest, ht.1 hx, DbField.shownName, hname.1]
      have hself := hshown.1
      rw [DbField.shownName] at hself
      rw [hself]
    · exact hrest

theorem argValue_eq (hd : d.clear.WellTyped) {ofText : Bytes → Bytes → DbValue → Option DbValue}
    {x : DbField} (hx : x ∈ d.clear.fields) {valu : Bytes}
    (hv : args.lookup x.name = some valu) :
    argValue d ofText args x.name = ofText x.name valu x.value.cleared := by
  rw [argValue, hv, Option.bind_some, hd.typeOf x hx, Option.bind_some]

/-- The text of a field that has been filled. -/
theorem shown_after (hd : d.clear.WellTyped)
    {ofText : Bytes → Bytes → DbValue → Option DbValue} {request : Bool} {x y : DbField}
    (hx : x ∈ d.clear.fields) (hname : y.name = x.name)
    (htype : y.value.cleared = x.value.cleared)
    (hconv : DbTable.Converts ofText args d.clear) (hsome : (args.lookup x.name).isSome = true) :
    (y.after ofText request args).value.shownUpdate time2iso =
      argText time2iso d ofText args x.name := by
  obtain ⟨valu, hv⟩ := Option.isSome_iff_exists.mp hsome
  obtain ⟨w, hw⟩ := Option.isSome_iff_exists.mp (hconv x hx valu hv)
  rw [argText, argValue_eq hd hx hv, hw, DbField.after, hname, hv]
  simp only [htype, hw, Option.map_some, Option.getD_some]

theorem request_after {ofText : Bytes → Bytes → DbValue → Option DbValue} (request : Bool)
    (x : DbField) :
    (x.after ofText request args).request =
      (x.request || (request && (args.lookup x.name).isSome)) := by
  rw [DbField.after]
  cases args.lookup x.name <;> simp

theorem name_after {ofText : Bytes → Bytes → DbValue → Option DbValue} (request : Bool)
    (x : DbField) : (x.after ofText request args).name = x.name := by
  rw [DbField.after]
  split <;> rfl

theorem request_clear {x : DbField} (hx : x ∈ d.clear.fields) : x.request = false := by
  obtain ⟨y, -, rfl⟩ := List.mem_map.mp hx
  rfl

/-- **The description of `del`.** -/
theorem tacDbDel_pairs [LongWidth] (hd : d ∈ dbList) (hargs : d.clear.ArgsOf args)
    (hconv : DbTable.Converts (delText conv md5 m (showkey args)) args d.clear) :
    ∃ d1, tacDbDel conv md5 m d args = some d1 ∧
      d1.pairs time2iso (fun x => x.request) =
        SqlRows.texts (columns d args) (delShown conv md5 m time2iso d args) := by
  have hwell := DbTable.wellTyped_dbList d hd
  refine ⟨_, (DbTable.fill_eq hwell hargs (keepsTypes_delText conv md5 m _)).1 hconv, ?_⟩
  apply pairs_map hd
  · exact fun x _ => name_after true x
  · intro x hx
    rw [request_after, request_clear hx]
    simp
  · exact fun x hx hsome => shown_after hwell hx rfl rfl hconv hsome

/-- The table between the two loops of `modify`. -/
theorem between_loops (hd : d ∈ dbList) (hargs : d.clear.ArgsOf args)
    {ofText ofText' : Bytes → Bytes → DbValue → Option DbValue}
    (hkeep : DbTable.KeepsTypes ofText') {d' : DbTable}
    (hd' : d' = { d.clear with fields := d.clear.fields.map (DbField.after ofText' false args2) }) :
    d'.WellTyped ∧ d'.ArgsOf args ∧
      (DbTable.Converts ofText args d' ↔ DbTable.Converts ofText args d.clear) := by
  have hwell := DbTable.wellTyped_dbList d hd
  have hname : ∀ x ∈ d.clear.fields, (x.after ofText' false args2).name = x.name :=
    fun x _ => name_after false x
  have htype : ∀ x ∈ d.clear.fields,
      (x.after ofText' false args2).value.cleared = x.value.cleared :=
    fun x _ => DbTable.cleared_after hkeep x
  subst hd'
  refine ⟨hwell.map hname htype, ⟨hargs.nodup, fun arg harg => ?_⟩, ?_⟩
  · have hmap : (d.clear.fields.map (DbField.after ofText' false args2)).map DbField.name =
        d.clear.fields.map DbField.name := by
      rw [List.map_map]
      exact List.map_congr_left hname
    rw [hmap]
    exact hargs.mem arg harg
  · constructor
    · intro h x hx valu hv
      have hsome := h _ (List.mem_map_of_mem hx) valu (by rwa [hname x hx])
      rwa [hname x hx, htype x hx] at hsome
    · intro h y hy valu hv
      obtain ⟨x, hx, rfl⟩ := List.mem_map.mp hy
      rw [hname x hx] at hv ⊢
      rw [htype x hx]
      exact h x hx valu hv

/-- **The description of `modify`**: the columns that select, and those that are set. -/
theorem tacDbModify_pairs [LongWidth] (hd : d ∈ dbList) (hargs : d.clear.ArgsOf args)
    (hargs2 : d.clear.ArgsOf args2)
    (hselect : DbTable.Converts (selectText conv md5 m (showkey args)) args d.clear)
    (hupdate : DbTable.Converts (updateText conv md5 m (showkey args)) args2 d.clear) :
    ∃ d2, tacDbModify conv md5 m d args args2 = some d2 ∧
      d2.pairs time2iso (fun x => x.request) =
        SqlRows.texts (columns d args) (selectShown conv md5 m time2iso d args) ∧
      d2.pairs time2iso (fun x => updateMarks args2 x.name) =
        SqlRows.texts (columns d args2) (slotShown conv md5 m time2iso d args args2) := by
  have hwell := DbTable.wellTyped_dbList d hd
  have hkeep := keepsTypes_updateText conv md5 m (showkey args)
  have hfirst := (@DbTable.fill_eq _ _ false _ hwell hargs2 hkeep).1 hupdate
  obtain ⟨hwell', hargs', hconv⟩ := @between_loops d args args2 hd hargs
    (selectText conv md5 m (showkey args)) _ hkeep _ rfl
  have hsecond := (@DbTable.fill_eq _ _ true _ hwell' hargs'
    (keepsTypes_selectText conv md5 m (showkey args))).1 (hconv.mpr hselect)
  have htype : ∀ x : DbField,
      (x.after (updateText conv md5 m (showkey args)) false args2).value.cleared =
        x.value.cleared := fun x => DbTable.cleared_after hkeep x
  refine ⟨_, by rw [tacDbModify, hfirst, Option.bind_some, hsecond], ?_, ?_⟩
  · rw [List.map_map]
    apply pairs_map hd
    · intro x _
      rw [Function.comp_apply, name_after, name_after]
    · intro x hx
      rw [Function.comp_apply, request_after, request_after, name_after, request_clear hx]
      simp
    · intro x hx hsome
      exact shown_after hwell hx (name_after false x) (htype x) hselect hsome
  · rw [List.map_map]
    apply pairs_map hd
    · intro x _
      rw [Function.comp_apply, name_after, name_after]
    · intro x hx
      rw [Function.comp_apply, name_after, name_after, Bool.eq_iff_iff, updateMarks_iff,
        isSome_lookup_iff]
    · intro x hx hsome
      rw [Function.comp_apply, slotShown]
      split
      · next hin => exact shown_after hwell hx (name_after false x) (htype x) hselect hin
      · next hout =>
        have hnone : args.lookup x.name = none := Option.not_isSome_iff_eq_none.mp hout
        have hkept : (x.after (updateText conv md5 m (showkey args)) false args2).after
            (selectText conv md5 m (showkey args)) true args =
              x.after (updateText conv md5 m (showkey args)) false args2 := by
          rw [DbField.after, name_after, hnone]
        rw [hkept]
        exact shown_after hwell hx rfl rfl hupdate hsome

/-- The loops of both commands end, exactly if all texts are converted. -/
theorem allConvert_of_some [LongWidth] (hd : d ∈ dbList) (hargs : d.clear.ArgsOf args)
    (hargs2 : d.clear.ArgsOf args2) {d1 d2 : DbTable}
    (hmodify : tacDbModify conv md5 m d args args2 = some d2)
    (hdel : tacDbDel conv md5 m d args = some d1) : AllConvert conv md5 m d args args2 := by
  have hwell := DbTable.wellTyped_dbList d hd
  have hkeep := keepsTypes_updateText conv md5 m (showkey args)
  have hupdate : DbTable.Converts (updateText conv md5 m (showkey args)) args2 d.clear := by
    by_contra hno
    rw [tacDbModify, (DbTable.fill_eq hwell hargs2 hkeep).2 hno] at hmodify
    contradiction
  have hfirst := (@DbTable.fill_eq _ _ false _ hwell hargs2 hkeep).1 hupdate
  obtain ⟨hwell', hargs', hconv⟩ := @between_loops d args args2 hd hargs
    (selectText conv md5 m (showkey args)) _ hkeep _ rfl
  refine ⟨?_, ?_, hupdate⟩
  · by_contra hno
    rw [tacDbModify, hfirst, Option.bind_some, (DbTable.fill_eq hwell' hargs'
      (keepsTypes_selectText conv md5 m _)).2 fun h => hno (hconv.mp h)] at hmodify
    contradiction
  · by_contra hno
    rw [tacDbDel, (DbTable.fill_eq hwell hargs (keepsTypes_delText conv md5 m _)).2 hno] at hdel
    contradiction

/-! ## When `modify` is right -/

theorem columns_eq_nil_iff (hargs : d.clear.ArgsOf args) : columns d args = [] ↔ args = [] := by
  constructor
  · intro h
    rcases args with _ | ⟨arg, rest⟩
    · rfl
    · have hmem : arg.1 ∈ columns d (arg :: rest) := (mem_columns hargs).mpr (by simp)
      rw [h] at hmem
      contradiction
  · rintro rfl
    simp [columns]

theorem texts_columns_eq_nil_iff (hargs : d.clear.ArgsOf args) (t : Bytes → Bytes) :
    SqlRows.texts (columns d args) t = [] ↔ args = [] := by
  rw [SqlRows.texts, List.map_eq_nil_iff, columns_eq_nil_iff hargs]

/-- The rows that `db_update` leaves, by what it is given. -/
theorem updatedRows_eq (hargs : d.clear.ArgsOf args) (hargs2 : d.clear.ArgsOf args2)
    {srv : SqlServer f} {d2 : DbTable} {tm ts : Bytes → Bytes}
    (hconds : d2.pairs time2iso (fun x => x.request) = SqlRows.texts (columns d args) tm)
    (hsets : d2.pairs time2iso (fun x => updateMarks args2 x.name) =
      SqlRows.texts (columns d args2) ts) (rows : List (Bytes → Bytes)) :
    updatedRows srv time2iso (updateMarks args2) d2 rows =
      if args = [] then rows
      else srv.update (SqlRows.texts (columns d args2) ts) (SqlRows.texts (columns d args) tm)
        rows := by
  have hnil : args2 = [] ↔ ¬ ∃ x ∈ d2.fields, updateMarks args2 x.name = true := by
    rw [← texts_columns_eq_nil_iff hargs2 ts, ← hsets, DbTable.pairs, List.map_eq_nil_iff,
      List.filter_eq_nil_iff]
    push Not
    rfl
  rw [updatedRows]
  simp only [hconds, hsets, texts_columns_eq_nil_iff hargs]
  by_cases hargs2' : args2 = []
  · rw [dbUpdate_eq_none (hnil.mp hargs2'), (columns_eq_nil_iff hargs2).mpr hargs2',
      SqlRows.update_nil, ite_self]
  · rw [dbUpdate_eq (not_not.mp fun hno => hargs2' (hnil.mpr hno))]

/-- One row, under `db_del`. -/
theorem keptRows_singleton_iff (hargs : d.clear.ArgsOf args) {srv : SqlServer f} {d1 : DbTable}
    {td : Bytes → Bytes}
    (hconds : d1.pairs time2iso (fun x => x.request) = SqlRows.texts (columns d args) td)
    (r : Bytes → Bytes) :
    keptRows srv time2iso d1 [r] = [] ↔
      args ≠ [] ∧ srv.holds (SqlRows.texts (columns d args) td) r := by
  rw [keptRows]
  simp only [hconds, texts_columns_eq_nil_iff hargs]
  by_cases hnil : args = []
  · simp [hnil]
  · rw [if_neg hnil, SqlRows.Server.delete, List.filter_eq_nil_iff]
    simp [hnil]

/-- Of each column, infinitely many values are not the new one. -/
theorem infinite_not_isNew (n : Bytes) : {v | ¬ IsNew conv md5 m d args args2 n v}.Infinite := by
  obtain ⟨l, hl⟩ := exists_not_newValue conv md5 m ((args.head?.map Prod.snd).getD []) n
    ((args2.lookup n).getD [])
  have hinj : Function.Injective fun k => List.replicate (l + k) (65 : UInt8) := by
    intro k k' hk
    have hlen := congrArg List.length hk
    simpa using hlen
  refine Set.infinite_of_injective_forall_mem hinj fun k => ?_
  rintro ⟨valu, hvalu, x, -, -, hnew⟩
  rw [Option.mem_def.mp hvalu, Option.getD_some] at hl
  exact hl (l + k) (by omega) x.value hnew

/-- A field that is both selected by and set has the text that it is selected by. -/
theorem slotShown_of_mem [LongWidth] (hargs : d.clear.ArgsOf args) {n : Bytes}
    (hn : n ∈ columns d args) :
    slotShown conv md5 m time2iso d args args2 n = selectShown conv md5 m time2iso d args n := by
  rw [slotShown, if_pos (isSome_lookup_iff.mpr ((mem_columns hargs).mp hn))]

/-- If the texts are converted, it is a question of an UPDATE on a server. -/
theorem modifyRight_iff_right [LongWidth] (hd : d ∈ dbList) (hargs : d.clear.ArgsOf args)
    (hargs2 : d.clear.ArgsOf args2) (hall : AllConvert conv md5 m d args args2) :
    ModifyRight conv md5 m f time2iso d args args2 ↔ args = [] ∨
      SqlRows.Right (valueOf f) (columns d args) (columns d args2)
        (selectShown conv md5 m time2iso d args) (delShown conv md5 m time2iso d args)
        (slotShown conv md5 m time2iso d args args2) (IsNew conv md5 m d args args2) := by
  classical
  obtain ⟨d1, hdel, hdelconds⟩ :=
    @tacDbDel_pairs conv md5 m time2iso d args _ hd hargs hall.2.1
  obtain ⟨d2, hmodify, hconds, hsets⟩ :=
    @tacDbModify_pairs conv md5 m time2iso d args args2 _ hd hargs hargs2 hall.1 hall.2.2
  rw [ModifyRight]
  simp only [hmodify, hdel, Option.some.injEq, exists_and_left, exists_eq_left',
    updatedRows_eq hargs hargs2 hconds hsets, keptRows_singleton_iff hargs hdelconds]
  by_cases hnil : args = []
  · simp [hnil, List.forall₂_same]
  · simp only [hnil, ne_eq, not_false_eq_true, true_and, if_false, false_or, SqlRows.Right,
      SqlRows.becomes_congr fun k => mem_columns hargs2 (n := k)]

/-- Only the texts of encrypted fields can fail to be converted. -/
theorem allConvert_of_plain [LongWidth] (hargs : ∀ arg ∈ args, encrypted arg.1 = false)
    (hargs2 : ∀ arg ∈ args2, encrypted arg.1 = false) :
    AllConvert conv md5 m d args args2 := by
  have hplain : ∀ {l : List (Bytes × Bytes)} {n valu : Bytes},
      (∀ arg ∈ l, encrypted arg.1 = false) → l.lookup n = some valu → encrypted n = false := by
    intro l n valu hl hv
    obtain ⟨arg, harg, rfl⟩ := List.mem_map.mp (isSome_lookup_iff.mp (Option.isSome_of_eq_some hv))
    exact hl arg harg
  refine ⟨?_, ?_, ?_⟩ <;> intro x hx valu hv
  · rw [selectText, hplain hargs hv]
    cases x.value.cleared <;> rfl
  · rw [delText, hplain hargs hv]
    cases x.value.cleared <;> rfl
  · rw [updateText, hplain hargs2 hv]
    cases x.value.cleared <;> rfl

end

/-- A user by his name. -/
def userNamed : List (Bytes × Bytes) := [(str "username", str "joe")]

/-- His profile, and how often he may log in. -/
def newProfile : List (Bytes × Bytes) := [(str "avpid", str "ppp"), (str "maxsess", str "+2")]

/-- Another name for him. -/
def newName : List (Bytes × Bytes) := [(str "username", str "bob")]

end Tacppd
