/-
# The commands of the database layer

`TacDb::add`, `modify` and `del` take a list of field names and a list of texts, look up the
type of each field, and put the value into the description of the table that they give to the
driver.  The texts of the password fields are encrypted on the way, with the first text of
the list as the key.

`fill_eq` says what the description is after such a loop.
-/
import Tacppd.DbCrypt
import Tacppd.PgDriver
import Tacppd.Accounting

namespace Tacppd

/-! ## Words -/

/-- `isupper`. -/
def isUpper (c : UInt8) : Bool := decide (65 ≤ c) && decide (c ≤ 90)

/-- `tolower`. -/
def toLower (c : UInt8) : UInt8 := if isUpper c then c + 32 else c

/-- The second loop of `match`, and what is left of both texts behind it. -/
def matchRest : Bytes → Bytes → Bool
  | [], [] => true
  | [], c :: _ => c == 32
  | _ :: _, [] => true
  | m :: mask, c :: b => m == toLower c && matchRest mask b

/-- The first loop, over the capital letters of the mask. -/
def matchHead : Bytes → Bytes → Bool
  | m :: mask, c :: b =>
    if isUpper m then toLower m == toLower c && matchHead mask b
    else matchRest (m :: mask) (c :: b)
  | mask, b => matchRest mask b

/-- `utl::match`: the word is a part of the mask from its start, or it goes on with a blank
behind the mask. -/
def utlMatch (b mask : Bytes) : Bool :=
  !(cstr b).isEmpty && !mask.isEmpty && matchHead mask (cstr b)

/-! ## The tables -/

/-- The table of the additional data. -/
def addTable : DbTable where
  name := str "tacppd_v1_add"
  fields :=
    [⟨str "addid", false, .string []⟩, ⟨str "authsrc", false, .string []⟩,
      ⟨str "enable", false, .string []⟩]

def accTable : DbTable where
  name := str "tacppd_v1_acc"
  fields :=
    [⟨str "unid", false, .int 0⟩, ⟨str "accid", false, .string []⟩,
      ⟨str "phone", false, .string []⟩, ⟨str "nas", false, .string []⟩,
      ⟨str "port", false, .string []⟩, ⟨str "time", false, .string []⟩]

def avpTable : DbTable where
  name := str "tacppd_v1_avp"
  fields :=
    [⟨str "unid", false, .int 0⟩, ⟨str "avpid", false, .string []⟩,
      ⟨str "service", false, .string []⟩, ⟨str "protocol", false, .string []⟩,
      ⟨str "avp", false, .string []⟩]

def cmdTable : DbTable where
  name := str "tacppd_v1_cmd"
  fields :=
    [⟨str "unid", false, .int 0⟩, ⟨str "avpid", false, .string []⟩,
      ⟨str "cmdperm", false, .string []⟩, ⟨str "cmddeny", false, .string []⟩,
      ⟨str "argperm", false, .string []⟩, ⟨str "argdeny", false, .string []⟩]

def bilTable : DbTable where
  name := str "tacppd_v1_res"
  fields := [⟨str "bilid", false, .string []⟩, ⟨str "bilmodid", false, .int 0⟩]

def bilresTable : DbTable where
  name := str "tacppd_v1_resdata"
  fields :=
    [⟨str "bilid", false, .string []⟩, ⟨str "attribute", false, .string []⟩,
      ⟨str "value", false, .string []⟩]

def nfusrTable : DbTable where
  name := str "tacppd_v1_nfuser"
  fields :=
    [⟨str "usernetip", false, .ip (str "127.0.0.1")⟩, ⟨str "username", false, .string []⟩,
      ⟨str "comment", false, .string []⟩]

/-- The tables of `DbList`. -/
def dbList : List DbTable :=
  [usrTable, addTable, accTable, avpTable, cmdTable, bilTable, bilresTable, nfusrTable]

/-! ## One argument -/

/-- What the conversions ask of the machine. -/
structure Conversions where
  env : AcctEnv
  /-- `atof`, as the number is printed with `%f`. -/
  atof : Bytes → Bytes
  /-- `utl::iso2time`, which depends on the time zone. -/
  iso2time : Bytes → ℤ

/-- The text of an argument as a value of the type of a field.  What is made of a string is
up to the command. -/
def DbValue.ofText [LongWidth] (conv : Conversions) (ofString : Bytes → Option Bytes)
    (valu : Bytes) :
    DbValue → Option DbValue
  | bool _ => some (bool (utlMatch valu (str "OPen") || utlMatch valu (str "TRue")))
  | int _ => some (int (atoi valu % 18446744073709551616).toNat)
  | float _ => some (float (conv.atof valu))
  | string _ => (ofString valu).map string
  | date _ => some (date (conv.iso2time valu))
  | ip _ => some (ip (fill conv.env valu))

/-- A value set in a field of its type; the others do not show it. -/
def DbValue.set (v : DbValue) : DbValue → DbValue
  | bool b => match v with | bool c => bool c | _ => bool b
  | int b => match v with | int c => int c | _ => int b
  | float b => match v with | float c => float c | _ => float b
  | string b => match v with | string c => string c | _ => string b
  | date b => match v with | date c => date c | _ => date b
  | ip b => match v with | ip c => ip c | _ => ip b

/-- The fields whose values are encrypted. -/
def encrypted (argu : Bytes) : Bool := argu == str "password" || argu == str "enable"

namespace DbTable

/-- `add(n, v)`: set the field with the name, or make a new one. -/
def add (d : DbTable) (n : Bytes) (v : DbValue) : DbTable :=
  if d.fields.any fun f => decide (f.name = n) then
    { d with fields := d.fields.map fun f =>
        if f.name = n then { f with value := v.set f.value } else f }
  else { d with fields := d.fields ++ [⟨n, false, v⟩] }

/-- The type of the first field whose name matches, as a cleared value. -/
def typeOf (d : DbTable) (argu : Bytes) : Option DbValue :=
  (d.fields.find? fun f => utlMatch argu f.name).map fun f => f.value.cleared

/-- One round of the loops of `add`, `modify` and `del`.  Nothing where a conversion reads
outside its buffer. -/
def enter (ofText : Bytes → DbValue → Option DbValue) (request : Bool) (d : DbTable)
    (arg : Bytes × Bytes) : Option DbTable :=
  let d := match d.typeOf arg.1 with
    | none => some d
    | some t => (ofText arg.2 t).map (d.add arg.1)
  d.map fun d => if request then d.setRequest arg.1 else d

/-- The loop over the arguments; what is made of a text depends on the name. -/
def fill (ofText : Bytes → Bytes → DbValue → Option DbValue) (request : Bool) :
    List (Bytes × Bytes) → DbTable → Option DbTable
  | [], d => some d
  | arg :: args, d => (d.enter (ofText arg.1) request arg).bind (fill ofText request args)

end DbTable

/-! ## The commands -/

/-- `showkey`, with `char showkey[50]`: the first of the texts. -/
def showkey (args : List (Bytes × Bytes)) : Bytes :=
  match args with
  | [] => []
  | arg :: _ => snprintf 50 arg.2

section

variable (conv : Conversions) (md5 : Bytes → Digest) (m : DbModule)

/-- What `add` makes of a text. -/
def addText [LongWidth] (key argu valu : Bytes) : DbValue → Option DbValue :=
  DbValue.ofText conv (fun s =>
    if encrypted argu then (m.encrypt md5 (snprintf 100 s) key).map (snprintf 100)
    else some (toSQL s)) valu

/-- What `modify` makes of a new value. -/
def updateText [LongWidth] (key argu valu : Bytes) : DbValue → Option DbValue :=
  DbValue.ofText conv (fun s =>
    if encrypted argu then m.encrypt md5 (snprintf 100 s) key else some s) valu

/-- What `modify` makes of a text that selects. -/
def selectText [LongWidth] (key argu valu : Bytes) : DbValue → Option DbValue :=
  DbValue.ofText conv (fun s =>
    if encrypted argu then m.decrypt md5 (snprintf 100 s) key else some s) valu

/-- What `del`, `show` and `sshow` make of one. -/
def delText [LongWidth] (key argu valu : Bytes) : DbValue → Option DbValue :=
  DbValue.ofText conv (fun s =>
    if encrypted argu then (m.encrypt md5 (snprintf 100 s) key).map (snprintf 100)
    else some s) valu

/-- `TacDb::add`, up to the call of `db_add`. -/
def tacDbAdd [LongWidth] (d : DbTable) (args : List (Bytes × Bytes)) : Option DbTable :=
  d.clear.fill (addText conv md5 m (showkey args)) false args

/-- `TacDb::modify`, up to the call of `db_update`: the new values first. -/
def tacDbModify [LongWidth] (d : DbTable) (args args2 : List (Bytes × Bytes)) : Option DbTable :=
  (d.clear.fill (updateText conv md5 m (showkey args)) false args2).bind
    (DbTable.fill (selectText conv md5 m (showkey args)) true args)

/-- The fields that `modify` has marked by `set_update`. -/
def updateMarks (args2 : List (Bytes × Bytes)) (n : Bytes) : Bool :=
  args2.any fun arg => decide (arg.1 = n)

/-- `TacDb::del`, up to the call of `db_del`. -/
def tacDbDel [LongWidth] (d : DbTable) (args : List (Bytes × Bytes)) : Option DbTable :=
  d.clear.fill (delText conv md5 m (showkey args)) true args

end

/-! ## The description after a loop -/

theorem DbValue.cleared_cleared (v : DbValue) : v.cleared.cleared = v.cleared := by
  cases v <;> rfl

/-- A value of the type of the field replaces its value. -/
theorem DbValue.set_of_cleared {v w : DbValue} (h : w.cleared = v.cleared) : w.set v = w := by
  cases v <;> cases w <;> simp_all [DbValue.cleared, DbValue.set]

/-- A text becomes a value of the type of the field. -/
theorem DbValue.cleared_ofText [LongWidth] {conv : Conversions} {ofString : Bytes → Option Bytes}
    {valu : Bytes} {t w : DbValue} (h : t.ofText conv ofString valu = some w) :
    w.cleared = t.cleared := by
  cases t with
  | string b =>
    obtain ⟨s, -, rfl⟩ := Option.map_eq_some_iff.mp h
    rfl
  | _ => obtain rfl := Option.some.inj h; rfl

namespace DbTable

/-- The names are distinct, and each of them is looked up with the type of its field. -/
structure WellTyped (d : DbTable) : Prop where
  nodup : (d.fields.map DbField.name).Nodup
  typeOf : ∀ f ∈ d.fields, d.typeOf f.name = some f.value.cleared

instance (d : DbTable) : Decidable d.WellTyped :=
  decidable_of_iff ((d.fields.map DbField.name).Nodup ∧
    ∀ f ∈ d.fields, d.typeOf f.name = some f.value.cleared)
    ⟨fun h => ⟨h.1, h.2⟩, fun h => ⟨h.1, h.2⟩⟩

/-- The arguments of a command: no name twice, and every name is one of a field. -/
structure ArgsOf (d : DbTable) (args : List (Bytes × Bytes)) : Prop where
  nodup : (args.map Prod.fst).Nodup
  mem : ∀ arg ∈ args, arg.1 ∈ d.fields.map DbField.name

end DbTable

/-- A field after the loop. -/
def DbField.after (ofText : Bytes → Bytes → DbValue → Option DbValue) (request : Bool)
    (args : List (Bytes × Bytes)) (f : DbField) : DbField :=
  match args.lookup f.name with
  | none => f
  | some valu =>
    ⟨f.name, f.request || request, (ofText f.name valu f.value.cleared).getD f.value⟩

/-- A field after one round. -/
def DbField.entered (n : Bytes) (request : Bool) (w : DbValue) (f : DbField) : DbField :=
  if f.name = n then ⟨f.name, f.request || request, w.set f.value⟩ else f

@[simp] theorem DbField.entered_name (n : Bytes) (request : Bool) (w : DbValue) (f : DbField) :
    (f.entered n request w).name = f.name := by
  rw [entered]
  split <;> rfl

theorem DbField.entered_of_ne {n : Bytes} {f : DbField} (h : f.name ≠ n) (request : Bool)
    (w : DbValue) : f.entered n request w = f := if_neg h

theorem DbField.entered_self {f : DbField} {w : DbValue} (h : w.cleared = f.value.cleared)
    (request : Bool) : f.entered f.name request w = ⟨f.name, f.request || request, w⟩ := by
  rw [entered, if_pos rfl, DbValue.set_of_cleared h]

namespace DbTable

/-- Every text is converted. -/
def Converts (ofText : Bytes → Bytes → DbValue → Option DbValue) (args : List (Bytes × Bytes))
    (d : DbTable) : Prop :=
  ∀ f ∈ d.fields, ∀ valu, args.lookup f.name = some valu →
    (ofText f.name valu f.value.cleared).isSome = true

/-- The values have the types of their fields. -/
def KeepsTypes (ofText : Bytes → Bytes → DbValue → Option DbValue) : Prop :=
  ∀ n valu t w, ofText n valu t = some w → w.cleared = t.cleared

section

variable {d : DbTable} {ofText : Bytes → Bytes → DbValue → Option DbValue} {request : Bool}
  {args : List (Bytes × Bytes)}

/-- The same names and types. -/
theorem typeOf_map {g : DbField → DbField} (hname : ∀ f ∈ d.fields, (g f).name = f.name)
    (htype : ∀ f ∈ d.fields, (g f).value.cleared = f.value.cleared) (argu : Bytes) :
    ({ d with fields := d.fields.map g } : DbTable).typeOf argu = d.typeOf argu := by
  obtain ⟨name, fields⟩ := d
  simp only [typeOf]
  induction fields with
  | nil => rfl
  | cons f fields ih =>
    rw [List.map_cons, List.find?_cons, List.find?_cons, hname f List.mem_cons_self]
    split
    · rw [Option.map_some, Option.map_some, htype f List.mem_cons_self]
    · exact ih (fun x hx => hname x (List.mem_cons_of_mem _ hx))
        fun x hx => htype x (List.mem_cons_of_mem _ hx)

theorem WellTyped.map {g : DbField → DbField} (h : d.WellTyped)
    (hname : ∀ f ∈ d.fields, (g f).name = f.name)
    (htype : ∀ f ∈ d.fields, (g f).value.cleared = f.value.cleared) :
    WellTyped { d with fields := d.fields.map g } where
  nodup := by
    have hmap : (d.fields.map g).map DbField.name = d.fields.map DbField.name := by
      rw [List.map_map]
      exact List.map_congr_left hname
    rw [hmap]
    exact h.nodup
  typeOf := by
    intro x hx
    obtain ⟨f, hf, rfl⟩ := List.mem_map.mp hx
    rw [typeOf_map hname htype, hname f hf, htype f hf]
    exact h.typeOf f hf

/-- One round, for a field of the table. -/
theorem enter_eq (h : d.WellTyped) {f : DbField} (hf : f ∈ d.fields) (valu : Bytes) :
    d.enter (ofText f.name) request (f.name, valu) =
      (ofText f.name valu f.value.cleared).map fun w =>
        { d with fields := d.fields.map (DbField.entered f.name request w) } := by
  have hany : (d.fields.any fun g => decide (g.name = f.name)) = true := by
    rw [List.any_eq_true]
    exact ⟨f, hf, by simp⟩
  simp only [enter, h.typeOf f hf, Option.map_map]
  cases ofText f.name valu f.value.cleared with
  | none => rfl
  | some w =>
    simp only [Option.map_some, Function.comp_apply, add, hany, if_true, Option.some.injEq]
    cases request with
    | false =>
      simp only [Bool.false_eq_true, if_false, DbTable.mk.injEq, true_and]
      apply List.map_congr_left
      intro g hg
      simp [DbField.entered]
    | true =>
      simp only [setRequest, if_true, List.map_map, DbTable.mk.injEq, true_and]
      apply List.map_congr_left
      intro g hg
      by_cases hname : g.name = f.name <;> simp [DbField.entered, hname]

/-- Two fields with one name are the same. -/
theorem WellTyped.eq_of_name (h : d.WellTyped) {f g : DbField} (hf : f ∈ d.fields)
    (hg : g ∈ d.fields) (hname : g.name = f.name) : g = f :=
  List.inj_on_of_nodup_map h.nodup hg hf hname

/-- A name that is used up is not looked up again. -/
theorem lookup_eq_none_of_nodup {n valu : Bytes} {rest : List (Bytes × Bytes)}
    (h : (((n, valu) :: rest).map Prod.fst).Nodup) : rest.lookup n = none := by
  rw [List.map_cons, List.nodup_cons] at h
  rw [List.lookup_eq_none_iff]
  intro x hx
  have hne : n ≠ x.1 := by
    rintro rfl
    exact h.1 (List.mem_map.mpr ⟨x, hx, rfl⟩)
  simpa using hne

/-- The table after one round. -/
theorem WellTyped.entered (h : d.WellTyped) (request : Bool) {f : DbField}
    (hf : f ∈ d.fields) {w : DbValue} (hw : w.cleared = f.value.cleared) :
    (∀ x ∈ d.fields, (x.entered f.name request w).value.cleared = x.value.cleared) ∧
      WellTyped { d with fields := d.fields.map (DbField.entered f.name request w) } := by
  have htype : ∀ x ∈ d.fields, (x.entered f.name request w).value.cleared = x.value.cleared := by
    intro x hx
    by_cases hname : x.name = f.name
    · rw [h.eq_of_name hf hx hname, DbField.entered_self hw]
      exact hw
    · rw [DbField.entered_of_ne hname]
  exact ⟨htype, h.map (fun x _ => DbField.entered_name _ _ _ x) htype⟩

/-- The arguments that are left belong to the table after one round. -/
theorem ArgsOf.tail {arg : Bytes × Bytes} (h : d.ArgsOf (arg :: args)) (n : Bytes) (w : DbValue) :
    ArgsOf { d with fields := d.fields.map (DbField.entered n request w) } args := by
  refine ⟨(List.nodup_cons.mp h.nodup).2, fun x hx => ?_⟩
  have hmap : (d.fields.map (DbField.entered n request w)).map DbField.name =
      d.fields.map DbField.name := by
    rw [List.map_map]
    apply List.map_congr_left
    intro f _
    exact DbField.entered_name _ _ _ f
  rw [hmap]
  exact h.mem x (List.mem_cons_of_mem _ hx)

/-- One argument and the rest of them. -/
theorem lookup_cons_of_ne {n x valu : Bytes} (h : x ≠ n) (rest : List (Bytes × Bytes)) :
    ((n, valu) :: rest).lookup x = rest.lookup x := by
  rw [List.lookup_cons, show (x == n) = false by simpa using h]

/-- The rest of the arguments does not come back to the field of the first one. -/
theorem converts_entered_iff (h : d.WellTyped) (request : Bool) {f : DbField}
    (hf : f ∈ d.fields) {w : DbValue}
    {valu : Bytes} (hw : ofText f.name valu f.value.cleared = some w)
    (htype : w.cleared = f.value.cleared) (hnone : args.lookup f.name = none) :
    Converts ofText args { d with fields := d.fields.map (DbField.entered f.name request w) } ↔
      Converts ofText ((f.name, valu) :: args) d := by
  obtain ⟨htypes, -⟩ := h.entered request hf htype
  have hfirst : ((f.name, valu) :: args).lookup f.name = some valu := by simp
  constructor
  · intro hall x hx v hv
    by_cases hname : x.name = f.name
    · rw [h.eq_of_name hf hx hname, hfirst, Option.some.injEq] at hv
      rw [h.eq_of_name hf hx hname, ← hv, hw]
      rfl
    · rw [lookup_cons_of_ne hname] at hv
      have hsome := hall (x.entered f.name request w) (List.mem_map_of_mem hx) v
        (by rwa [DbField.entered_name])
      rwa [DbField.entered_name, htypes x hx] at hsome
  · intro hall y hy v hv
    obtain ⟨x, hx, rfl⟩ := List.mem_map.mp hy
    rw [DbField.entered_name] at hv ⊢
    rw [htypes x hx]
    by_cases hname : x.name = f.name
    · rw [hname, hnone] at hv
      contradiction
    · exact hall x hx v (by rwa [lookup_cons_of_ne hname])

theorem after_entered (h : d.WellTyped) {f : DbField} (hf : f ∈ d.fields) {w : DbValue}
    {valu : Bytes} (hw : ofText f.name valu f.value.cleared = some w)
    (htype : w.cleared = f.value.cleared) (hnone : args.lookup f.name = none) {x : DbField}
    (hx : x ∈ d.fields) :
    (x.entered f.name request w).after ofText request args =
      x.after ofText request ((f.name, valu) :: args) := by
  have hfirst : ((f.name, valu) :: args).lookup f.name = some valu := by simp
  by_cases hname : x.name = f.name
  · rw [h.eq_of_name hf hx hname, DbField.entered_self htype, DbField.after, hnone,
      DbField.after, hfirst]
    simp only [hw, Option.getD_some]
  · rw [DbField.entered_of_ne hname, DbField.after, DbField.after, lookup_cons_of_ne hname]

/-- **The description after a loop**: every field with an argument has the value that its text
is converted to.  Nothing if a conversion fails. -/
theorem fill_eq (h : d.WellTyped) (hargs : d.ArgsOf args) (hkeep : KeepsTypes ofText) :
    (Converts ofText args d → d.fill ofText request args =
      some { d with fields := d.fields.map (DbField.after ofText request args) }) ∧
    (¬ Converts ofText args d → d.fill ofText request args = none) := by
  induction args generalizing d with
  | nil =>
    have hnil : Converts ofText [] d := fun f _ valu hlookup => by simp at hlookup
    refine ⟨fun _ => ?_, fun hno => absurd hnil hno⟩
    have hmap : d.fields.map (DbField.after ofText request []) = d.fields := by
      rw [show DbField.after ofText request [] = id from rfl, List.map_id]
    rw [fill, hmap]
  | cons arg rest ih =>
    obtain ⟨n, valu⟩ := arg
    obtain ⟨f, hf, rfl⟩ := List.mem_map.mp (hargs.mem (n, valu) List.mem_cons_self)
    have hnone := lookup_eq_none_of_nodup hargs.nodup
    rw [fill, enter_eq h hf]
    cases hw : ofText f.name valu f.value.cleared with
    | none =>
      have hno : ¬ Converts ofText ((f.name, valu) :: rest) d := by
        intro hall
        have hsome := hall f hf valu (by simp)
        rw [hw] at hsome
        contradiction
      exact ⟨fun hall => absurd hall hno, fun _ => rfl⟩
    | some w =>
      have htype := hkeep _ _ _ _ hw
      rw [DbValue.cleared_cleared] at htype
      obtain ⟨-, hwell⟩ := h.entered request hf htype
      obtain ⟨hyes, hno⟩ := ih hwell (hargs.tail f.name w)
      have hconv := converts_entered_iff h request hf hw htype hnone
      rw [Option.map_some, Option.bind_some]
      refine ⟨fun hall => ?_, fun hall => hno fun hrest => hall (hconv.mp hrest)⟩
      rw [hyes (hconv.mpr hall), List.map_map]
      simp only [Option.some.injEq, DbTable.mk.injEq, true_and]
      apply List.map_congr_left
      intro x hx
      exact after_entered h hf hw htype hnone hx

/-- A field keeps its type. -/
theorem cleared_after (hkeep : KeepsTypes ofText) (f : DbField) :
    (f.after ofText request args).value.cleared = f.value.cleared := by
  rw [DbField.after]
  split
  · rfl
  · next valu hvalu =>
    cases hw : ofText f.name valu f.value.cleared with
    | none => rfl
    | some w =>
      have htype := hkeep _ _ _ _ hw
      rwa [DbValue.cleared_cleared] at htype

/-- The field with a name, after the loop. -/
theorem find_after (h : d.WellTyped) {f : DbField} (hf : f ∈ d.fields) :
    (d.fields.map (DbField.after ofText request args)).find? (fun g => decide (g.name = f.name)) =
      some (f.after ofText request args) := by
  have hname : ∀ g : DbField, (g.after ofText request args).name = g.name := by
    intro g
    rw [DbField.after]
    split <;> rfl
  rw [List.find?_map]
  have hfind : d.fields.find? ((fun g => decide (g.name = f.name)) ∘
      DbField.after ofText request args) = some f := by
    rw [List.find?_eq_some_iff_append]
    obtain ⟨pre, post, hsplit⟩ := List.append_of_mem hf
    refine ⟨by simp [hname], pre, post, hsplit, fun g hg => ?_⟩
    have hnodup := h.nodup
    rw [hsplit, List.map_append, List.map_cons, List.nodup_append] at hnodup
    have hne := hnodup.2.2 g.name (List.mem_map_of_mem hg) f.name List.mem_cons_self
    simp [hname, hne]
  rw [hfind]
  rfl

end

/-- Every table of `DbList` is well typed. -/
theorem wellTyped_dbList : ∀ d ∈ dbList, d.clear.WellTyped := by
  decide +kernel

end DbTable

section

variable (conv : Conversions) (md5 : Bytes → Digest) (m : DbModule) (key : Bytes)

theorem keepsTypes_addText [LongWidth] : DbTable.KeepsTypes (addText conv md5 m key) :=
  fun _ _ _ _ => DbValue.cleared_ofText

theorem keepsTypes_updateText [LongWidth] : DbTable.KeepsTypes (updateText conv md5 m key) :=
  fun _ _ _ _ => DbValue.cleared_ofText

theorem keepsTypes_selectText [LongWidth] : DbTable.KeepsTypes (selectText conv md5 m key) :=
  fun _ _ _ _ => DbValue.cleared_ofText

theorem keepsTypes_delText [LongWidth] : DbTable.KeepsTypes (delText conv md5 m key) :=
  fun _ _ _ _ => DbValue.cleared_ofText

end

end Tacppd
