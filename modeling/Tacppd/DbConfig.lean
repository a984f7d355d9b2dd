/-
# Databases in the configuration file

A database is named `name@host:port` and has a module, which `TacDb::load` opens.  When the file of
a module cannot be opened, `load` comes back with the error and with the mutex of the database
locked, and `CoreDb::applycf` then puts the old name back and loads again, which never ends
(`dbCommands_stop_iff`).  What is saved is read back as far as its modules can be loaded
(`dbsReadBack_iff`).
-/
import Tacppd.NodeNames

namespace Tacppd

/-! ## The databases -/

/-- The loading of database modules: the text of the error, if there is one, and the functions
that are found in a module. -/
structure DbDLoad where
  dbload : Bytes → Bytes
  getfunc : Bytes → Bytes → Bool

/-- The functions that `TacDb::load` asks for. -/
def dbFunctions : List Bytes :=
  [str "db_init", str "db_destroy", str "db_open", str "db_close", str "db_query", str "db_get",
    str "db_create", str "db_create_idx", str "db_add", str "db_update", str "db_function"]

instance : DecidableEq IpAddr := fun _ _ => decidable_of_iff' _ IpAddr.ext_iff

/-- The settings of a database, class `DbModule`. -/
structure DbConf where
  location : IpAddr
  dbport : ℕ
  dbname : Bytes
  cryptokey : Bytes
  username : Bytes
  password : Bytes
  module_ : Bytes
  shutdown : Bool
  deriving DecidableEq

namespace DbConf

/-- `TacDb::TacDb`, as `CoreDb::add` calls it. -/
def new (k : IpAddr × ℕ × Bytes) : DbConf :=
  ⟨k.1, k.2.1, k.2.2, str "public", str "dbuser", str "dbpassword", str "none.so", true⟩

/-- What the functions of `CoreDb` compare: the address, the port and the name. -/
def id (x : DbConf) : Bytes × ℕ × Bytes := (x.location.ipa, x.dbport, x.dbname)

/-- `getdbid()`. -/
def dbid (x : DbConf) : Bytes := x.dbname ++ 64 :: (x.location.hname ++ 58 :: decimal x.dbport)

/-- The part of `CoreDb::buildcfstr` for a database. -/
def buildcfstr (x : DbConf) : Bytes :=
  str " database " ++ x.dbid ++ [10] ++
    str "  cryptokey '" ++ x.cryptokey ++ [39, 10] ++
    str "  login " ++ x.username ++ [10] ++
    str "  password " ++ x.password ++ [10] ++
    str "  module " ++ x.module_ ++ [10] ++
    str "  shutdown " ++ yesNo x.shutdown ++ [10] ++
    str "  exit"

end DbConf

/-- The module of a database: `dl` is not there, or a module is loaded and has `dl_destroy` or not,
or `Mutex_` has stayed locked. -/
inductive DbLoader
  | unloaded
  | loaded (destroy : Bool)
  | held
  deriving DecidableEq

/-- Class `TacDb`. -/
structure TacDb where
  conf : DbConf
  dl : DbLoader
  deriving DecidableEq

section

variable (ld : DbDLoad)

/-- Whether the module has all functions. -/
def DbDLoad.complete (m : Bytes) : Bool := dbFunctions.all (ld.getfunc m)

/-- The text of the error when a module is opened. -/
def DbDLoad.error (m : Bytes) : Bytes := if ld.dbload m = str "(null)" then [] else ld.dbload m

/-- `TacDb::load`: the text of the error.  It does not end with the mutex locked, and the server
falls with a module to close that has no `dl_destroy`. -/
def TacDb.load (x : TacDb) : Option (TacDb × Bytes) :=
  match x.dl with
  | .held | .loaded false => none
  | .unloaded | .loaded true =>
    if ld.error x.conf.module_ ≠ [] then some ({ x with dl := .held }, ld.error x.conf.module_)
    else
      some ({ x with dl := .loaded (ld.getfunc x.conf.module_ (str "db_destroy")) },
        if ld.complete x.conf.module_ then [] else str "Error in detecting functions in module")

/-- `TacDb::~TacDb` comes to its end. -/
def TacDb.destroys (x : TacDb) : Bool := decide (x.dl = .unloaded ∨ x.dl = .loaded true)

variable (env : AcctEnv)

/-- The descriptor of a database in `CoreDb::applycf`, cut into `char IpAddr[17]` and
`char dbname[64]`; nothing where one of its parts is empty. -/
def dbOf [LongWidth] (descr : Bytes) : Option (IpAddr × ℕ × Bytes) :=
  if splitId descr 0 = [] ∨ splitId descr 1 = [] ∨ splitId descr 2 = [] then none
  else some (IpAddr.make env (snprintf 16 (splitId descr 1)), atoiUnsigned (splitId descr 2),
    snprintf 63 (splitId descr 0))

variable (k : Bytes × ℕ × Bytes)

/-- `CoreDb::add`. -/
def addDb (x : DbConf) (tdb : List TacDb) : List TacDb :=
  if (Keyed.look DbConf.id (tdb.map TacDb.conf) x.id).isSome = true then tdb
  else tdb ++ [⟨x, .unloaded⟩]

/-- `CoreDb::del`. -/
def delDb (tdb : List TacDb) : Option (List TacDb) :=
  if tdb.all (fun tmp => decide (tmp.conf.id = k → tmp.destroys = true)) then
    some (tdb.filter fun tmp => decide (tmp.conf.id ≠ k))
  else none

/-- `modify_module`, `modify2`, `modify4`, `modify5` and `modify_shutdown`: every database with the
name is changed. -/
def modifyDb (f : DbConf → DbConf) (tdb : List TacDb) : List TacDb :=
  tdb.map fun tmp => if tmp.conf.id = k then { tmp with conf := f tmp.conf } else tmp

/-- `CoreDb::load`: the first one is loaded. -/
def loadDb : List TacDb → Option (List TacDb × Bytes)
  | [] => some ([], [])
  | tmp :: tdb =>
    if tmp.conf.id = k then (tmp.load ld).map fun r => (r.1 :: tdb, r.2)
    else (loadDb tdb).map fun r => (tmp :: r.1, r.2)

/-- `CoreDb::getmodulename`. -/
def getDbModulename (tdb : List TacDb) : Bytes :=
  match Keyed.look DbConf.id (tdb.map TacDb.conf) k with
  | some x => x.module_
  | none => []

/-- The branch of `applycf` for a module. -/
def applyDbModule (m : Bytes) (tdb : List TacDb) : Option (List TacDb) :=
  (loadDb ld k (modifyDb k (fun tmp => { tmp with module_ := m }) tdb)).bind fun r =>
    if r.2 ≠ [] then
      (loadDb ld k (modifyDb k (fun tmp => { tmp with module_ := getDbModulename k tdb }) r.1)).map
        Prod.fst
    else some r.1

end

/-! ## The commands -/

/-- The commands by their `cmdID`. -/
inductive DbCmd
  | confDbNo
  | confDbNode
  | confDbCrypto
  | confDbLogin
  | confDbPasswd
  | confDbModule
  | confDbShutdown
  deriving DecidableEq

/-- The commands for databases in the node `config`. -/
def dbConfig : List (List MaskWord × Option DbCmd) :=
  [([.key (str "Exit")], none),
    ([.key (str "NO"), .key (str "DAtabase"), .param (.str 2 none)], some .confDbNo),
    ([.key (str "DAtabase"), .param (.str 2 none)], some .confDbNode)]

/-- The commands in the node of a database. -/
def dbInner : List (List MaskWord × Option DbCmd) :=
  [([.key (str "Exit")], none),
    ([.key (str "CRYptokey"), .param (.str 0 (some 255))], some .confDbCrypto),
    ([.key (str "LOgin"), .param (.str 0 (some 255))], some .confDbLogin),
    ([.key (str "PAssword"), .param (.str 0 (some 255))], some .confDbPasswd),
    ([.key (str "MOdule"), .param (.str 0 (some 255))], some .confDbModule),
    ([.key (str "SHutdown"), .param yesNoMask], some .confDbShutdown)]

section

variable (ld : DbDLoad) (env : AcctEnv)

/-- The commands that change a setting. -/
def dbSet : DbCmd → Bytes → DbConf → DbConf
  | .confDbCrypto, p, x => { x with cryptokey := p }
  | .confDbLogin, p, x => { x with username := p }
  | .confDbPasswd, p, x => { x with password := p }
  | .confDbShutdown, p, x => { x with shutdown := if utlMatch p (str "No") then false else true }
  | _, _, x => x

/-- What `applycf` does for a descriptor with its parts; the text of an error is not used. -/
def applyDbTo (cmdname : DbCmd) (k : IpAddr × ℕ × Bytes) (p : Bytes) (tdb : List TacDb) :
    Option (List TacDb) :=
  let k' := (k.1.ipa, k.2)
  match cmdname with
  | .confDbNo => delDb k' tdb
  | .confDbNode => (loadDb ld k' (addDb (.new k) tdb)).map Prod.fst
  | .confDbModule => applyDbModule ld k' p tdb
  | cmdname => some (modifyDb k' (dbSet cmdname p) tdb)

/-- `CoreDb::applycf`.  The parameters come as C strings, and the descriptor is shorter than the
array of `splitId`. -/
def applyDb [LongWidth] (cmdname : DbCmd) (paramList up : List Bytes) (tdb : List TacDb) :
    Option (List TacDb) :=
  let descr := if cmdname = .confDbNo ∨ cmdname = .confDbNode then paramList.head? else up.head?
  paramList.head?.bind fun p => descr.bind fun d =>
    if 255 < (cstr d).length then none
    else
      match dbOf env (cstr d) with
      | none => some tdb
      | some k => applyDbTo ld cmdname k (cstr p) tdb

def dbSection [LongWidth] : ConfSection (List TacDb) DbCmd where
  config := dbConfig
  node := .confDbNode
  inner := dbInner
  applycf := applyDb ld env

/-- The texts of all databases. -/
def dbText (tdb : List TacDb) : Bytes := tdb.flatMap fun x => x.conf.buildcfstr ++ [10]

/-- The text of the databases gives databases with the same settings, from none. -/
def DbsReadBack [LongWidth] (tdb : List TacDb) : Prop :=
  ∃ tdb', (dbSection ld env).replay (dbText tdb) [] = some (none, tdb') ∧
    tdb'.map TacDb.conf = tdb.map TacDb.conf

end

section

variable {ld : DbDLoad} {env : AcctEnv} {k : Bytes × ℕ × Bytes} {m p : Bytes} {x : TacDb}
  {tdb tdb' pre post : List TacDb}

/-! ## What loading does -/

/-- The file of the module is opened. -/
def DbDLoad.Opens (ld : DbDLoad) (m : Bytes) : Prop := ld.error m = []

/-- The module is opened and has all functions. -/
structure DbDLoad.Whole (ld : DbDLoad) (m : Bytes) : Prop where
  opens : ld.Opens m
  complete : ld.complete m = true

/-- The module is not opened, or it cannot be closed again. -/
def DbDLoad.Stops (ld : DbDLoad) (m : Bytes) : Prop :=
  ¬ ld.Opens m ∨ ld.getfunc m (str "db_destroy") = false

theorem DbDLoad.Whole.destroy (h : ld.Whole m) : ld.getfunc m (str "db_destroy") = true :=
  List.all_eq_true.mp h.complete _ (by simp [dbFunctions])

theorem DbDLoad.Whole.not_stops (h : ld.Whole m) : ¬ ld.Stops m := by
  rintro (hopens | hdestroy)
  · exact hopens h.opens
  · rw [h.destroy] at hdestroy
    contradiction

theorem TacDb.load_of_opens (hx : x.destroys = true) (h : ld.Opens x.conf.module_) :
    x.load ld = some ({ x with dl := .loaded (ld.getfunc x.conf.module_ (str "db_destroy")) },
      if ld.complete x.conf.module_ then [] else str "Error in detecting functions in module") := by
  obtain ⟨conf, dl⟩ := x
  change ld.error conf.module_ = [] at h
  unfold destroys at hx
  unfold load
  match dl, hx with
  | .unloaded, _ => simp [h]
  | .loaded true, _ => simp [h]

theorem TacDb.load_of_not_opens (hx : x.destroys = true) (h : ¬ ld.Opens x.conf.module_) :
    ∃ s, s ≠ [] ∧ x.load ld = some ({ x with dl := .held }, s) := by
  obtain ⟨conf, dl⟩ := x
  refine ⟨ld.error conf.module_, h, ?_⟩
  change ld.error conf.module_ ≠ [] at h
  unfold destroys at hx
  unfold load
  match dl, hx with
  | .unloaded, _ => simp [h]
  | .loaded true, _ => simp [h]

/-- What `load` leaves when the module is whole. -/
theorem TacDb.load_of_whole (hx : x.destroys = true) (h : ld.Whole x.conf.module_) :
    x.load ld = some (⟨x.conf, .loaded true⟩, []) := by
  rw [load_of_opens hx h.opens, h.destroy, if_pos h.complete]

/-! ## One database in the list -/

theorem loadDb_split (hpre : ∀ y ∈ pre, y.conf.id ≠ k) (hx : x.conf.id = k) :
    loadDb ld k (pre ++ x :: post) =
      (x.load ld).map fun r => (pre ++ r.1 :: post, r.2) := by
  induction pre with
  | nil => rw [List.nil_append, loadDb, if_pos hx]; rfl
  | cons y pre ih =>
    rw [List.forall_mem_cons] at hpre
    rw [List.cons_append, loadDb, if_neg hpre.1, ih hpre.2, Option.map_map]
    rfl

theorem loadDb_of_not_mem (h : ∀ y ∈ tdb, y.conf.id ≠ k) : loadDb ld k tdb = some (tdb, []) := by
  induction tdb with
  | nil => rfl
  | cons y tdb ih =>
    rw [List.forall_mem_cons] at h
    rw [loadDb, if_neg h.1, ih h.2]
    rfl

theorem modifyDb_of_not_mem {f : DbConf → DbConf} (h : ∀ y ∈ tdb, y.conf.id ≠ k) :
    modifyDb k f tdb = tdb := by
  unfold modifyDb
  rw [List.map_congr_left fun y hy => if_neg (h y hy), List.map_id']

theorem modifyDb_split {f : DbConf → DbConf} (hpre : ∀ y ∈ pre, y.conf.id ≠ k)
    (hx : x.conf.id = k) (hpost : ∀ y ∈ post, y.conf.id ≠ k) :
    modifyDb k f (pre ++ x :: post) = pre ++ { x with conf := f x.conf } :: post := by
  have hfront := @modifyDb_of_not_mem k pre f hpre
  have hback := @modifyDb_of_not_mem k post f hpost
  unfold modifyDb at hfront hback ⊢
  rw [List.map_append, List.map_cons, hfront, hback, if_pos hx]

/-- The databases of a list with different names: one of them, or none. -/
theorem splitDb (h : Keyed.Distinct DbConf.id (tdb.map TacDb.conf))
    (k : Bytes × ℕ × Bytes) : (∀ y ∈ tdb, y.conf.id ≠ k) ∨ ∃ pre x post, tdb = pre ++ x :: post ∧
      (∀ y ∈ pre, y.conf.id ≠ k) ∧ x.conf.id = k ∧ ∀ y ∈ post, y.conf.id ≠ k := by
  by_cases hmem : ∃ x ∈ tdb, x.conf.id = k
  · obtain ⟨x, hx, hk⟩ := hmem
    obtain ⟨pre, post, rfl⟩ := List.append_of_mem hx
    have hnodup : ((pre ++ x :: post).map fun y => y.conf.id).Nodup := by
      rw [Keyed.Distinct, List.map_map] at h
      exact h
    rw [List.map_append, List.map_cons, List.nodup_append, List.nodup_cons] at hnodup
    refine .inr ⟨pre, x, post, rfl, fun y hy heq => ?_, hk, fun y hy heq => ?_⟩
    · exact hnodup.2.2 _ (List.mem_map_of_mem hy) _ List.mem_cons_self (heq.trans hk.symm)
    · exact hnodup.2.1.1 (List.mem_map.mpr ⟨y, hy, heq.trans hk.symm⟩)
  · exact .inl fun y hy heq => hmem ⟨y, hy, heq⟩

theorem lookDb_split (hpre : ∀ y ∈ pre, y.conf.id ≠ k) (hx : x.conf.id = k) :
    Keyed.look DbConf.id ((pre ++ x :: post).map TacDb.conf) k = some x.conf := by
  induction pre with
  | nil => rw [List.nil_append, List.map_cons, Keyed.look_cons, if_pos hx]
  | cons y pre ih =>
    rw [List.forall_mem_cons] at hpre
    rw [List.cons_append, List.map_cons, Keyed.look_cons, if_neg hpre.1, ih hpre.2]

/-! ## What the commands keep -/

/-- The databases have different names, and whole modules that are loaded. -/
structure GoodDbs (ld : DbDLoad) (tdb : List TacDb) : Prop where
  loaded : ∀ x ∈ tdb, x.dl = .loaded true ∧ ld.Whole x.conf.module_
  distinct : Keyed.Distinct DbConf.id (tdb.map TacDb.conf)

/-- What the line of a module makes of a database: nothing where functions are missing. -/
def DbDLoad.setModule (ld : DbDLoad) (m : Bytes) (x : DbConf) : DbConf :=
  if ld.complete m then { x with module_ := m } else x

theorem map_conf_modifyDb {f : DbConf → DbConf} (hdistinct : Keyed.Distinct DbConf.id
    (tdb.map TacDb.conf)) :
    (modifyDb k f tdb).map TacDb.conf = Keyed.alter DbConf.id k f (tdb.map TacDb.conf) := by
  rcases splitDb hdistinct k with hnot | ⟨pre, x, post, rfl, hpre, hx, hpost⟩
  · have hnone : Keyed.look DbConf.id (tdb.map TacDb.conf) k = none := by
      rw [Keyed.look_eq_none_iff]
      intro y hy
      obtain ⟨x, hx, rfl⟩ := List.mem_map.mp hy
      exact hnot x hx
    rw [modifyDb_of_not_mem hnot, Keyed.alter_of_look_eq_none hnone]
  · have halter : ∀ l : List TacDb, (∀ y ∈ l, y.conf.id ≠ k) →
        Keyed.alter DbConf.id k f ((l ++ x :: post).map TacDb.conf) =
          (l ++ { x with conf := f x.conf } :: post).map TacDb.conf := by
      intro l hl
      induction l with
      | nil =>
        rw [List.nil_append, List.map_cons, Keyed.alter, if_pos hx]
        rfl
      | cons y l ih =>
        rw [List.forall_mem_cons] at hl
        rw [List.cons_append, List.map_cons, Keyed.alter, if_neg hl.1, ih hl.2]
        rfl
    rw [modifyDb_split hpre hx hpost, halter pre hpre]

/-- A change of the settings that keeps the name and has a whole module. -/
theorem GoodDbs.modifyDb {f : DbConf → DbConf} (h : GoodDbs ld tdb) (hf : ∀ x, (f x).id = x.id)
    (hmodule : ∀ x, ld.Whole x.module_ → ld.Whole (f x).module_) :
    GoodDbs ld (modifyDb k f tdb) where
  loaded x hx := by
    obtain ⟨y, hy, rfl⟩ := List.mem_map.mp hx
    split
    · exact ⟨(h.loaded y hy).1, hmodule _ (h.loaded y hy).2⟩
    · exact h.loaded y hy
  distinct := by
    rw [map_conf_modifyDb h.distinct]
    exact Keyed.Distinct.alter hf h.distinct

theorem id_dbSet (cmdname : DbCmd) (p : Bytes) (x : DbConf) : (dbSet cmdname p x).id = x.id := by
  cases cmdname <;> rfl

theorem module_dbSet (cmdname : DbCmd) (p : Bytes) (x : DbConf) :
    (dbSet cmdname p x).module_ = x.module_ := by
  cases cmdname <;> rfl

/-- A setting other than the module. -/
theorem goodDbs_dbSet (h : GoodDbs ld tdb) (cmdname : DbCmd) :
    GoodDbs ld (modifyDb k (dbSet cmdname p) tdb) := by
  refine h.modifyDb (id_dbSet cmdname p) fun x hx => ?_
  rw [module_dbSet]
  exact hx

theorem TacDb.conf_load {r : TacDb × Bytes} (h : x.load ld = some r) : r.1.conf = x.conf := by
  unfold load at h
  split at h
  · contradiction
  · contradiction
  all_goals split at h <;> rw [← Option.some.inj h]

/-- The branch for a module, on the one database that has the name. -/
theorem applyDbModule_split {c : DbConf} {dl : DbLoader} (hpre : ∀ y ∈ pre, y.conf.id ≠ k)
    (hc : c.id = k) (hpost : ∀ y ∈ post, y.conf.id ≠ k) (m : Bytes) :
    applyDbModule ld k m (pre ++ ⟨c, dl⟩ :: post) =
      (TacDb.load ld ⟨{ c with module_ := m }, dl⟩).bind fun r =>
        if r.2 ≠ [] then (TacDb.load ld ⟨c, r.1.dl⟩).map fun r' => pre ++ r'.1 :: post
        else some (pre ++ r.1 :: post) := by
  have hname : getDbModulename k (pre ++ ⟨c, dl⟩ :: post) = c.module_ := by
    rw [getDbModulename, lookDb_split hpre hc]
  rw [applyDbModule, hname, modifyDb_split hpre hc hpost, loadDb_split hpre hc]
  cases hload : TacDb.load ld ⟨{ c with module_ := m }, dl⟩ with
  | none => rfl
  | some r =>
    have hconf : r.1.conf = { c with module_ := m } := TacDb.conf_load hload
    have hr : r.1.conf.id = k := by
      rw [hconf]
      exact hc
    rw [Option.map_some, Option.bind_some, Option.bind_some, modifyDb_split hpre hr hpost]
    dsimp only
    rw [hconf, loadDb_split hpre hc, Option.map_map]
    rfl

/-- **A module is given to a database**: the command does not end where the module stops it. -/
theorem applyDbModule_of_stops (h : GoodDbs ld tdb) (hmem : k ∈ (tdb.map TacDb.conf).map DbConf.id)
    (hm : ld.Stops m) : applyDbModule ld k m tdb = none := by
  rcases splitDb h.distinct k with hnot | ⟨pre, ⟨c, dl⟩, post, rfl, hpre, hc, hpost⟩
  · rw [List.map_map] at hmem
    obtain ⟨y, hy, heq⟩ := List.mem_map.mp hmem
    exact absurd heq (hnot y hy)
  · obtain rfl : dl = .loaded true := (h.loaded ⟨c, dl⟩ (by simp)).1
    rw [applyDbModule_split hpre hc hpost]
    by_cases hopens : ld.Opens m
    · have hdestroy : ld.getfunc m (str "db_destroy") = false :=
        hm.resolve_left (not_not_intro hopens)
      have hcomplete : ld.complete m = false := by
        by_contra hcomplete
        exact (DbDLoad.Whole.not_stops ⟨hopens, by simpa using hcomplete⟩) hm
      have herror : str "Error in detecting functions in module" ≠ [] := by decide +kernel
      rw [TacDb.load_of_opens (by simp [TacDb.destroys]) hopens, Option.bind_some]
      simp [hcomplete, hdestroy, herror, TacDb.load]
    · obtain ⟨s, hs, hload⟩ := @TacDb.load_of_not_opens ld ⟨{ c with module_ := m }, .loaded true⟩
        (by simp [TacDb.destroys]) hopens
      rw [hload, Option.bind_some, if_pos hs]
      rfl

/-- Otherwise the database has the module, or has kept its own. -/
theorem applyDbModule_of_not_stops (h : GoodDbs ld tdb)
    (hm : k ∈ (tdb.map TacDb.conf).map DbConf.id → ¬ ld.Stops m) :
    applyDbModule ld k m tdb = some (modifyDb k (ld.setModule m) tdb) := by
  rcases splitDb h.distinct k with hnot | ⟨pre, ⟨c, dl⟩, post, rfl, hpre, hc, hpost⟩
  · rw [applyDbModule, modifyDb_of_not_mem hnot, loadDb_of_not_mem hnot, modifyDb_of_not_mem hnot]
    rfl
  · obtain ⟨hdl, hwhole⟩ := h.loaded ⟨c, dl⟩ (by simp)
    obtain rfl : dl = .loaded true := hdl
    have hm := not_or.mp (hm (by
      rw [List.map_map]
      exact List.mem_map.mpr ⟨⟨c, .loaded true⟩, by simp, hc⟩))
    have hopens : ld.Opens m := not_not.mp hm.1
    have hdestroy : ld.getfunc m (str "db_destroy") = true := by simpa using hm.2
    have herror : str "Error in detecting functions in module" ≠ [] := by decide +kernel
    rw [applyDbModule_split hpre hc hpost, modifyDb_split hpre hc hpost,
      TacDb.load_of_opens (by simp [TacDb.destroys]) hopens, Option.bind_some]
    by_cases hcomplete : ld.complete m = true
    · simp [DbDLoad.setModule, hcomplete, hdestroy]
    · have hback : TacDb.load ld ⟨c, .loaded true⟩ = some (⟨c, .loaded true⟩, []) :=
        TacDb.load_of_whole (by simp [TacDb.destroys]) hwhole
      simp [DbDLoad.setModule, hcomplete, hdestroy, herror, hback]

theorem look_conf_eq_none (h : ∀ y ∈ tdb, y.conf.id ≠ k) :
    Keyed.look DbConf.id (tdb.map TacDb.conf) k = none := by
  rw [Keyed.look_eq_none_iff]
  intro c hc
  obtain ⟨y, hy, rfl⟩ := List.mem_map.mp hc
  exact h y hy

/-- A database with its module loaded, where there is none of the name. -/
def putDb (x : DbConf) (tdb : List TacDb) : List TacDb :=
  if (Keyed.look DbConf.id (tdb.map TacDb.conf) x.id).isSome = true then tdb
  else tdb ++ [⟨x, .loaded true⟩]

/-- A database is added with its module loaded, or the module of the one that is there is loaded
again. -/
theorem loadDb_addDb (h : GoodDbs ld tdb) (hnone : ld.Whole (str "none.so"))
    (c : IpAddr × ℕ × Bytes) :
    (loadDb ld (DbConf.new c).id (addDb (.new c) tdb)).map Prod.fst =
      some (putDb (.new c) tdb) := by
  rcases splitDb h.distinct (DbConf.new c).id with hnot | ⟨pre, x, post, rfl, hpre, hx, -⟩
  · rw [addDb, putDb, look_conf_eq_none hnot, if_neg (by simp), if_neg (by simp),
      loadDb_split hnot rfl, TacDb.load_of_whole (by simp [TacDb.destroys]) hnone]
    rfl
  · obtain ⟨hdl, hwhole⟩ := h.loaded x (by simp)
    rw [addDb, putDb, lookDb_split hpre hx, if_pos Option.isSome_some, if_pos Option.isSome_some,
      loadDb_split hpre hx, TacDb.load_of_whole (by simp [TacDb.destroys, hdl]) hwhole, ← hdl]
    rfl

theorem map_conf_putDb (x : DbConf) (tdb : List TacDb) : (putDb x tdb).map TacDb.conf =
    if (Keyed.look DbConf.id (tdb.map TacDb.conf) x.id).isSome = true then tdb.map TacDb.conf
    else tdb.map TacDb.conf ++ [x] := by
  unfold putDb
  split
  · rfl
  · rw [List.map_append]
    rfl

theorem GoodDbs.concat (h : GoodDbs ld tdb) {c : DbConf} (hc : ld.Whole c.module_)
    (hnew : Keyed.look DbConf.id (tdb.map TacDb.conf) c.id = none) :
    GoodDbs ld (tdb ++ [⟨c, .loaded true⟩]) where
  loaded x hx := by
    rcases List.mem_append.mp hx with hx | hx
    · exact h.loaded x hx
    · rw [List.mem_singleton.mp hx]
      exact ⟨rfl, hc⟩
  distinct := by
    rw [List.map_append]
    exact Keyed.Distinct.concat h.distinct hnew

theorem GoodDbs.put (h : GoodDbs ld tdb) {c : DbConf} (hc : ld.Whole c.module_) :
    GoodDbs ld (putDb c tdb) := by
  unfold putDb
  split
  · exact h
  · next hlook => exact h.concat hc (by simpa using hlook)

theorem delDb_eq (h : GoodDbs ld tdb) (k : Bytes × ℕ × Bytes) :
    delDb k tdb = some (tdb.filter fun tmp => decide (tmp.conf.id ≠ k)) := by
  rw [delDb, if_pos]
  rw [List.all_eq_true]
  intro x hx
  simp [TacDb.destroys, (h.loaded x hx).1]

theorem GoodDbs.filter (h : GoodDbs ld tdb) (p : TacDb → Bool) : GoodDbs ld (tdb.filter p) where
  loaded x hx := h.loaded x (List.mem_of_mem_filter hx)
  distinct := h.distinct.sublist ((List.filter_sublist.map TacDb.conf).map DbConf.id)

/-- A module that does not stop the command. -/
theorem goodDbs_setModule (h : GoodDbs ld tdb)
    (hm : k ∈ (tdb.map TacDb.conf).map DbConf.id → ¬ ld.Stops m) :
    GoodDbs ld (modifyDb k (ld.setModule m) tdb) := by
  by_cases hmem : k ∈ (tdb.map TacDb.conf).map DbConf.id
  · have hopens : ld.Opens m := not_not.mp (not_or.mp (hm hmem)).1
    refine h.modifyDb (fun x => ?_) fun x hx => ?_
    · unfold DbDLoad.setModule
      split <;> rfl
    · unfold DbDLoad.setModule
      split
      · next hcomplete => exact ⟨hopens, hcomplete⟩
      · exact hx
  · rw [modifyDb_of_not_mem fun y hy heq => hmem (by
      rw [List.map_map]
      exact List.mem_map.mpr ⟨y, hy, heq⟩)]
    exact h

/-- **A command on whole modules** comes to its end, and leaves the modules whole, unless it loads a
module that stops it. -/
theorem applyDbTo_good (hnone : ld.Whole (str "none.so")) (h : GoodDbs ld tdb) (cmdname : DbCmd)
    (c : IpAddr × ℕ × Bytes) (p : Bytes)
    (hstop : cmdname = .confDbModule →
      (c.1.ipa, c.2) ∈ (tdb.map TacDb.conf).map DbConf.id → ¬ ld.Stops p) :
    ∃ tdb', applyDbTo ld cmdname c p tdb = some tdb' ∧ GoodDbs ld tdb' := by
  cases cmdname with
  | confDbNo => exact ⟨_, delDb_eq h _, h.filter _⟩
  | confDbNode => exact ⟨_, loadDb_addDb h hnone c, h.put hnone⟩
  | confDbModule =>
    exact ⟨_, applyDbModule_of_not_stops h (hstop rfl), goodDbs_setModule h (hstop rfl)⟩
  | confDbCrypto => exact ⟨_, rfl, goodDbs_dbSet h .confDbCrypto⟩
  | confDbLogin => exact ⟨_, rfl, goodDbs_dbSet h .confDbLogin⟩
  | confDbPasswd => exact ⟨_, rfl, goodDbs_dbSet h .confDbPasswd⟩
  | confDbShutdown => exact ⟨_, rfl, goodDbs_dbSet h .confDbShutdown⟩

/-! ## Where the commands stop -/

/-- A command with its parameter and the descriptor that it is given. -/
structure DbLine where
  cmdname : DbCmd
  param : Bytes
  up : Bytes

/-- The descriptor of a database that `applycf` takes. -/
def DbLine.descr (c : DbLine) : Bytes :=
  if c.cmdname = .confDbNo ∨ c.cmdname = .confDbNode then c.param else c.up

/-- One command. -/
def DbLine.apply [LongWidth] (ld : DbDLoad) (env : AcctEnv) (tdb : List TacDb) (c : DbLine) :
    Option (List TacDb) := applyDb ld env c.cmdname [c.param] [c.up] tdb

/-- A database that is there is given a module that is not opened, or that cannot be closed. -/
def DbLine.Stops [LongWidth] (ld : DbDLoad) (env : AcctEnv) (tdb : List TacDb) (c : DbLine) :
    Prop :=
  c.cmdname = .confDbModule ∧ ∃ k, dbOf env (cstr c.up) = some k ∧
    (k.1.ipa, k.2) ∈ (tdb.map TacDb.conf).map DbConf.id ∧ ld.Stops (cstr c.param)

theorem DbLine.apply_eq [LongWidth] {c : DbLine} (hc : (cstr c.descr).length ≤ 255) :
    c.apply ld env tdb = match dbOf env (cstr c.descr) with
      | none => some tdb
      | some k => applyDbTo ld c.cmdname k (cstr c.param) tdb := by
  obtain ⟨cmdname, param, up⟩ := c
  unfold descr at hc ⊢
  unfold apply applyDb
  simp only [List.head?_cons, Option.bind_some] at hc ⊢
  split
  · next hnode =>
    rw [if_pos hnode] at hc
    rw [Option.bind_some, if_neg (Nat.not_lt.mpr hc)]
  · next hnode =>
    rw [if_neg hnode] at hc
    rw [Option.bind_some, if_neg (Nat.not_lt.mpr hc)]

theorem DbLine.apply_good [LongWidth] (hnone : ld.Whole (str "none.so")) (h : GoodDbs ld tdb)
    {c : DbLine} (hc : (cstr c.descr).length ≤ 255) :
    (c.Stops ld env tdb ∧ c.apply ld env tdb = none) ∨
      ¬ c.Stops ld env tdb ∧ ∃ tdb', c.apply ld env tdb = some tdb' ∧ GoodDbs ld tdb' := by
  rw [apply_eq hc]
  by_cases hstop : c.Stops ld env tdb
  · obtain ⟨hmodule, k, hk, hmem, hm⟩ := hstop
    refine .inl ⟨⟨hmodule, k, hk, hmem, hm⟩, ?_⟩
    have hdescr : c.descr = c.up := by
      rw [descr, if_neg (by simp [hmodule])]
    rw [hdescr, hk, hmodule]
    exact applyDbModule_of_stops h hmem hm
  · refine .inr ⟨hstop, ?_⟩
    cases hk : dbOf env (cstr c.descr) with
    | none => exact ⟨tdb, rfl, h⟩
    | some k =>
      apply applyDbTo_good hnone h
      intro hmodule hmem hm
      have hdescr : c.descr = c.up := by
        rw [descr, if_neg (by simp [hmodule])]
      rw [hdescr] at hk
      exact hstop ⟨hmodule, k, hk, hmem, hm⟩

theorem goodDbs_nil : GoodDbs ld [] := ⟨by simp, List.nodup_nil⟩

/-- **Commands for databases come to an end** until one loads a module that stops it, and that one
does not. -/
theorem dbCommands_stop_iff [LongWidth] (hnone : ld.Whole (str "none.so")) {cs : List DbLine}
    (hcs : ∀ c ∈ cs, (cstr c.descr).length ≤ 255) :
    cs.foldlM (DbLine.apply ld env) [] = none ↔ ∃ pre c post tdb, cs = pre ++ c :: post ∧
      pre.foldlM (DbLine.apply ld env) [] = some tdb ∧ c.Stops ld env tdb := by
  have hgood : ∀ (pre : List DbLine) (tdb : List TacDb), (∀ c ∈ pre, c ∈ cs) →
      pre.foldlM (DbLine.apply ld env) [] = some tdb → GoodDbs ld tdb := by
    intro pre tdb hpre
    refine Records.foldlM_invariant (fun tdb tdb' c hc h happly => ?_) goodDbs_nil
    rcases DbLine.apply_good hnone h (hcs c (hpre c hc)) with ⟨-, hstop⟩ | ⟨-, tdb'', hsome, h'⟩
    · rw [hstop] at happly
      contradiction
    · rw [hsome] at happly
      rwa [← Option.some.inj happly]
  rw [Records.foldlM_eq_none_iff]
  constructor
  · rintro ⟨pre, c, post, tdb, rfl, hpre, hnone'⟩
    refine ⟨pre, c, post, tdb, rfl, hpre, ?_⟩
    have h := hgood pre tdb (fun c hc => by simp [hc]) hpre
    rcases DbLine.apply_good hnone h (hcs c (by simp)) with ⟨hstop, -⟩ | ⟨-, tdb', hsome, -⟩
    · exact hstop
    · rw [hsome] at hnone'
      contradiction
  · rintro ⟨pre, c, post, tdb, rfl, hpre, hstop⟩
    refine ⟨pre, c, post, tdb, rfl, hpre, ?_⟩
    have h := hgood pre tdb (fun c hc => by simp [hc]) hpre
    rcases DbLine.apply_good hnone h (hcs c (by simp)) with ⟨-, hnone'⟩ | ⟨hnot, -⟩
    · exact hnone'
    · exact absurd hstop hnot

/-- All modules are whole, but for one that is not there. -/
def pickyLoad : DbDLoad where
  dbload m := if m = str "bad.so" then str "no file" else []
  getfunc _ _ := true

theorem whole_none : pickyLoad.Whole (str "none.so") := by
  constructor
  · show pickyLoad.error (str "none.so") = []
    decide +kernel
  · decide +kernel

/-- A database gets the module that is not there. -/
theorem dbCommands_bad : [⟨.confDbNode, str "users@10.0.0.1:5432", []⟩,
    ⟨.confDbModule, str "bad.so", str "users@10.0.0.1:5432"⟩].foldlM
      (DbLine.apply pickyLoad numericEnv) [] = none := by
  rw [dbCommands_stop_iff whole_none (by decide +kernel)]
  have hof : dbOf numericEnv (cstr (str "users@10.0.0.1:5432")) =
      some (IpAddr.make numericEnv (str "10.0.0.1"), 5432, str "users") := by decide +kernel
  refine ⟨[⟨.confDbNode, str "users@10.0.0.1:5432", []⟩], _, [],
    [⟨.new (IpAddr.make numericEnv (str "10.0.0.1"), 5432, str "users"), .loaded true⟩],
    rfl, ?_, ?_⟩
  · decide +kernel
  · refine ⟨rfl, _, hof, List.mem_singleton_self _, .inl ?_⟩
    show pickyLoad.error (cstr (str "bad.so")) ≠ []
    decide +kernel

/-! ## The lines of a database -/

/-- A descriptor with its parts. -/
structure DbName [LongWidth] (env : AcctEnv) where
  descr : Bytes
  parts : IpAddr × ℕ × Bytes
  parts_eq : dbOf env (cstr descr) = some parts
  short : (cstr descr).length ≤ 255

/-- The descriptor that a line of a node gives, if it has its parts. -/
def dbName [LongWidth] (env : AcctEnv) (u : Bytes) : Option (DbName env) :=
  if short : (cstr u).length ≤ 255 then
    match parts_eq : dbOf env (cstr u) with
    | some parts => some ⟨u, parts, parts_eq, short⟩
    | none => none
  else none

/-- A module that is opened, and closed again. -/
def DbDLoad.closes (ld : DbDLoad) (m : Bytes) : Bool :=
  decide (ld.error m = []) && ld.getfunc m (str "db_destroy")

theorem DbDLoad.closes_iff : ld.closes m = true ↔ ¬ ld.Stops m := by
  unfold closes Stops Opens
  simp

namespace DbConf

def cryptokeyLine : ParamLine DbConf DbCmd where
  word := str "cryptokey"
  key := str "CRYptokey"
  mask := .str 0 (some 255)
  cmd := .confDbCrypto
  value x := 39 :: x.cryptokey ++ [39]
  set := dbSet .confDbCrypto

def loginLine : ParamLine DbConf DbCmd where
  word := str "login"
  key := str "LOgin"
  mask := .str 0 (some 255)
  cmd := .confDbLogin
  value x := x.username
  set := dbSet .confDbLogin

def passwordLine : ParamLine DbConf DbCmd where
  word := str "password"
  key := str "PAssword"
  mask := .str 0 (some 255)
  cmd := .confDbPasswd
  value x := x.password
  set := dbSet .confDbPasswd

def moduleLine (ld : DbDLoad) : ParamLine DbConf DbCmd where
  word := str "module"
  key := str "MOdule"
  mask := .str 0 (some 255)
  cmd := .confDbModule
  value x := x.module_
  set := ld.setModule

/-- The line of a module, which is read where the module does not stop the command. -/
def moduleField [LongWidth] (ld : DbDLoad) : Records.Field DbConf Bytes Bytes where
  line := (moduleLine ld).field.line
  read x := ((moduleLine ld).read x).filter ld.closes
  set := ld.setModule

def shutdownLine : ParamLine DbConf DbCmd where
  word := str "shutdown"
  key := str "SHutdown"
  mask := yesNoMask
  cmd := .confDbShutdown
  value x := yesNo x.shutdown
  set := dbSet .confDbShutdown

end DbConf

/-- A database as a node. -/
def dbNode [LongWidth] (ld : DbDLoad) (env : AcctEnv) :
    Records.Node DbConf (Bytes × ℕ × Bytes) Bytes (DbName env) Bytes where
  key := DbConf.id
  head x := keyLine 1 (str "database") x.dbid
  readHead x :=
    (lineParam (.str 2 none) (1 + (str "database").length + 1) x.dbid).bind (dbName env)
  new u := .new u.parts
  fields _ := [DbConf.cryptokeyLine.field, DbConf.loginLine.field, DbConf.passwordLine.field,
    DbConf.moduleField ld, DbConf.shutdownLine.field]
  exit := exitLine

theorem DbConf.buildcfstr_eq_write [LongWidth] (c : DbConf) :
    c.buildcfstr ++ [10] = ((dbNode ld env).write c).flatMap (· ++ [10]) := by
  have hwords : str " database " = 32 :: str "database" ++ [32] ∧
      str "  cryptokey '" = 32 :: 32 :: str "cryptokey" ++ [32, 39] ∧
      str "  login " = 32 :: 32 :: str "login" ++ [32] ∧
      str "  password " = 32 :: 32 :: str "password" ++ [32] ∧
      str "  module " = 32 :: 32 :: str "module" ++ [32] ∧
      str "  shutdown " = 32 :: 32 :: str "shutdown" ++ [32] := by decide +kernel
  unfold buildcfstr Records.Node.write dbNode
  simp [hwords, ParamLine.field, cryptokeyLine, loginLine, passwordLine, moduleField, moduleLine,
    shutdownLine, keyLine, exitLine]

/-! ## The lines as commands -/

/-- Each line is a command of the node, which no other command of it takes. -/
theorem dbLines_in (ld : DbDLoad) : DbConf.cryptokeyLine.In dbInner ∧
    DbConf.loginLine.In dbInner ∧ DbConf.passwordLine.In dbInner ∧
      (DbConf.moduleLine ld).In dbInner ∧ DbConf.shutdownLine.In dbInner := by
  have hrefuse : (dbInner.take 4 ++ dbInner.drop 5).all
      (fun c => refuses (str "module" ++ [32]) c.1) = true := by decide +kernel
  have hkeyword : Keyword (str "module") := by decide +kernel
  have hkey : matchNstrict (str "module" ++ [32]) (str "MOdule") = true := by decide +kernel
  refine ⟨⟨⟨dbInner.take 1, dbInner.drop 2, rfl, ?_⟩, ?_, ?_⟩,
    ⟨⟨dbInner.take 2, dbInner.drop 3, rfl, ?_⟩, ?_, ?_⟩,
    ⟨⟨dbInner.take 3, dbInner.drop 4, rfl, ?_⟩, ?_, ?_⟩,
    ⟨⟨dbInner.take 4, dbInner.drop 5, rfl, hrefuse⟩, hkeyword, hkey⟩,
    ⟨⟨dbInner.take 5, [], rfl, ?_⟩, ?_, ?_⟩⟩ <;> decide +kernel

/-- The commands in the node of a database. -/
theorem applyDb_inner [LongWidth] {cmdname : DbCmd}
    (hcmd : cmdname ≠ .confDbNo ∧ cmdname ≠ .confDbNode)
    (hp : (0 : UInt8) ∉ p) (u : DbName env) (tdb : List TacDb) :
    applyDb ld env cmdname [p] [u.descr] tdb = applyDbTo ld cmdname u.parts p tdb := by
  have hnode : ¬ (cmdname = .confDbNo ∨ cmdname = .confDbNode) := not_or.mpr hcmd
  unfold applyDb
  simp only [List.head?_cons, Option.bind_some, if_neg hnode, if_neg (Nat.not_lt.mpr u.short),
    u.parts_eq, cstr_eq_self hp]

theorem step_db [LongWidth] (c : DbConf) (tdb : List TacDb) :
    (dbSection ld env).step (none, tdb) ((dbNode ld env).head c) =
      (lineParam (.str 2 none) (1 + (str "database").length + 1) c.dbid).bind fun u =>
        (applyDb ld env .confDbNode [u] [] tdb).map fun tdb => (some [u], tdb) :=
  @ConfSection.step_enter _ _ _ (dbSection ld env) tdb (str "database") (str "DAtabase")
    (.str 2 none) (dbConfig.take 2) [] _ rfl (by decide +kernel) (by decide +kernel)
    (by decide +kernel) c.dbid

/-- The commands that the lines of a database are. -/
theorem step_dbField [LongWidth] (c : DbConf) (u : DbName env) (h : GoodDbs ld tdb)
    {f : Records.Field DbConf Bytes Bytes} (hf : f ∈ (dbNode ld env).fields c)
    (hmem : (DbConf.new u.parts).id ∈ (tdb.map TacDb.conf).map DbConf.id) :
    (dbSection ld env).step (some [u.descr], tdb) (f.line c) = (f.read c).map fun p =>
      (some [u.descr], modifyDb (DbConf.new u.parts).id (f.set p) tdb) := by
  have hset : ∀ {l : ParamLine DbConf DbCmd}, l.In dbInner → l.cmd ≠ .confDbNode →
      (∀ p, (0 : UInt8) ∉ p → applyDb ld env l.cmd [p] [u.descr] tdb =
        some (modifyDb (DbConf.new u.parts).id (l.set p) tdb)) →
      (dbSection ld env).step (some [u.descr], tdb) (l.field.line c) = (l.field.read c).map fun p =>
        (some [u.descr], modifyDb (DbConf.new u.parts).id (l.field.set p) tdb) :=
    fun hl hne happly => @ParamLine.step _ _ _ _ (dbSection ld env) _ _ _ _ hl hne c _ happly
  obtain ⟨hcrypto, hlogin, hpassword, hmodule, hshutdown⟩ := dbLines_in ld
  simp only [dbNode, List.mem_cons, List.not_mem_nil, or_false] at hf
  rcases hf with rfl | rfl | rfl | rfl | rfl
  · exact hset hcrypto DbCmd.noConfusion fun p hp => applyDb_inner (by decide) hp u tdb
  · exact hset hlogin DbCmd.noConfusion fun p hp => applyDb_inner (by decide) hp u tdb
  · exact hset hpassword DbCmd.noConfusion fun p hp => applyDb_inner (by decide) hp u tdb
  · have hstep := @ParamLine.step_bind _ _ _ _ (dbSection ld env) [u.descr] tdb _
      (DbConf.moduleLine ld) hmodule DbCmd.noConfusion c
    show (dbSection ld env).step (some [u.descr], tdb) ((DbConf.moduleLine ld).field.line c) =
      (((DbConf.moduleLine ld).read c).filter ld.closes).map _
    rw [hstep]
    cases hread : (DbConf.moduleLine ld).read c with
    | none => rfl
    | some p =>
      have happly : applyDb ld env .confDbModule [p] [u.descr] tdb =
          applyDbModule ld (DbConf.new u.parts).id p tdb :=
        applyDb_inner (by decide) (of_lineParam hread).1 u tdb
      rw [Option.bind_some]
      show (applyDb ld env .confDbModule [p] [u.descr] tdb).map _ = _
      rw [happly, Option.filter_some]
      by_cases hm : ld.Stops p
      · have hcloses : ld.closes p ≠ true := fun hcloses => DbDLoad.closes_iff.mp hcloses hm
        rw [applyDbModule_of_stops h hmem hm, if_neg hcloses]
        rfl
      · rw [applyDbModule_of_not_stops h fun _ => hm, if_pos (DbDLoad.closes_iff.mpr hm)]
        rfl
  · exact hset hshutdown DbCmd.noConfusion fun p hp => applyDb_inner (by decide) hp u tdb

/-! ## What a database is read as -/

/-- A database that the file can hold.  The port is read behind the first colon, which may be one of
the name. -/
structure DbConf.Storable [LongWidth] (ld : DbDLoad) (env : AcctEnv) (c : DbConf) : Prop where
  dbid : PlainWord c.dbid ∧ Clean c.dbid
  dbname : c.dbname ≠ [] ∧ (64 : UInt8) ∉ c.dbname ∧ c.dbname.length ≤ 62
  host : c.location.hname ≠ [] ∧ (58 : UInt8) ∉ c.location.hname ∧ c.location.hname.length ≤ 15
  address : fill env c.location.hname = c.location.ipa
  port : c.dbport < 4294967296 ∧ atoiUnsigned (splitId c.dbid 2) = c.dbport
  cryptokey : QuotedText 0 255 c.cryptokey
  username : PlainText 0 255 c.username
  password : PlainText 0 255 c.password
  module_ : PlainText 0 255 c.module_ ∧ ld.Whole c.module_

/-- The texts of a database have no newline, and its name and its host are what the descriptor was
cut into. -/
structure DbConf.OneLine (c : DbConf) : Prop where
  dbname : Clean c.dbname ∧ (64 : UInt8) ∉ c.dbname ∧ c.dbname.length ≤ 62
  host : (10 : UInt8) ∉ c.location.hname ∧ (58 : UInt8) ∉ c.location.hname ∧
    c.location.hname.length ≤ 15
  port : c.dbport < 4294967296
  cryptokey : (10 : UInt8) ∉ c.cryptokey
  username : (10 : UInt8) ∉ c.username
  password : (10 : UInt8) ∉ c.password
  module_ : (10 : UInt8) ∉ c.module_

variable {c : DbConf} {u : Bytes}

theorem DbConf.OneLine.length_dbid (h : c.OneLine) : c.dbid.length ≤ 89 := by
  have hport : (decimal (c.dbport : ℤ)).length ≤ 10 :=
    length_decimal_le (Nat.lt_of_lt_of_le h.port (by decide))
  have hname := h.dbname.2.2
  have hhost := h.host.2.2
  simp only [DbConf.dbid, List.length_append, List.length_cons]
  omega

theorem DbConf.OneLine.clean_dbid (h : c.OneLine) : Clean c.dbid := by
  have hzero : (0 : UInt8) ∉ decimal c.dbport := not_mem_decimal (by simp)
  have hten := ten_not_mem_decimal c.dbport
  have hhost := c.location.zero_not_mem
  unfold Clean DbConf.dbid
  simp [h.dbname.1.1, h.dbname.1.2, h.host.1, hzero, hten, hhost]

/-- The parts of a descriptor that has them. -/
theorem dbOf_eq_some_iff [LongWidth] {k : IpAddr × ℕ × Bytes} : dbOf env u = some k ↔
    (splitId u 0 ≠ [] ∧ splitId u 1 ≠ [] ∧ splitId u 2 ≠ []) ∧
      (IpAddr.make env (snprintf 16 (splitId u 1)), atoiUnsigned (splitId u 2),
        snprintf 63 (splitId u 0)) = k := by
  unfold dbOf
  split
  · next hempty =>
    simp only [reduceCtorEq, false_iff, not_and]
    rintro ⟨h0, h1, h2⟩
    simp [h0, h1, h2] at hempty
  · next hparts =>
    simp only [not_or] at hparts
    simp [hparts]

/-- A descriptor with a name and a host, cut. -/
theorem exists_of_splitId (h0 : splitId u 0 ≠ []) (h1 : splitId u 1 ≠ []) :
    ∃ r, u = splitId u 0 ++ 64 :: (splitId u 1 ++ 58 :: r) := by
  have hat : (64 : UInt8) ∈ u := by
    by_contra hnot
    exact h0 (beforeSep_of_not_mem hnot)
  obtain ⟨a, t, rfl, ha⟩ := List.eq_append_cons_of_mem hat
  have hname : splitId (a ++ 64 :: t) 0 = a := beforeSep_append ha t
  have hhost : splitId (a ++ 64 :: t) 1 = beforeSep 58 t := by
    rw [splitId, if_pos hat, afterSep_append ha]
  rw [hhost] at h1
  rw [hname, hhost]
  have hcolon : (58 : UInt8) ∈ t := by
    by_contra hnot
    exact h1 (beforeSep_of_not_mem hnot)
  obtain ⟨h, r, rfl, hh⟩ := List.eq_append_cons_of_mem hcolon
  exact ⟨r, by rw [beforeSep_append hh]⟩

/-- A descriptor with parts as long as those of a database, read from the text of the database, is
the whole text. -/
theorem eq_dbid_of_lineParam [LongWidth] (hc : c.OneLine) {m : ParamMask} {n : ℕ} (hn : n ≤ 200)
    (hu : lineParam m n c.dbid = some u) (h0 : splitId u 0 ≠ []) (h1 : splitId u 1 ≠ [])
    (hname : c.dbname.length ≤ (splitId u 0).length)
    (hhost : c.location.hname.length ≤ (splitId u 1).length) : u = c.dbid := by
  have hlen := hc.length_dbid
  obtain ⟨pre, post, heq, hends⟩ := exists_of_lineParam hc.clean_dbid.1 (by omega) hu
  obtain ⟨r, hr⟩ := exists_of_splitId h0 h1
  have hlength := congrArg List.length heq
  have hulength := congrArg List.length hr
  simp only [DbConf.dbid, List.length_append, List.length_cons] at hlength hulength
  have htail : decimal c.dbport <:+ c.dbid :=
    ⟨c.dbname ++ 64 :: (c.location.hname ++ [58]), by simp [DbConf.dbid]⟩
  -- what stands behind the descriptor is in the port
  have hpost : post = [] := by
    have hsuffix : post <:+ decimal c.dbport :=
      List.suffix_of_suffix_length_le ⟨pre ++ u, by simp [heq]⟩ htail (by omega)
    cases post with
    | nil => rfl
    | cons b post =>
      have hb : b ∈ ([64, 58, 0, 32, 39, 34] : Bytes) :=
        List.mem_append_right [64, 58, 0] (hends b rfl)
      exact absurd (hsuffix.subset List.mem_cons_self) (not_mem_decimal hb)
  -- so the whole port is in it
  have hport : (decimal (c.dbport : ℤ)).length ≤ r.length := by
    by_contra hlt
    have hsuffix : 58 :: r <:+ decimal c.dbport := by
      refine List.suffix_of_suffix_length_le ?_ htail (by simp only [List.length_cons]; omega)
      refine ⟨pre ++ (splitId u 0 ++ 64 :: splitId u 1), ?_⟩
      rw [heq, hpost, List.append_nil, List.append_assoc]
      congr 1
      exact (by simp : (splitId u 0 ++ 64 :: splitId u 1) ++ 58 :: r =
        splitId u 0 ++ 64 :: (splitId u 1 ++ 58 :: r)).trans hr.symm
    exact absurd (hsuffix.subset List.mem_cons_self) (not_mem_decimal (by simp))
  have hpre : pre = [] := List.length_eq_zero_iff.mp (by omega)
  rw [heq, hpre, hpost, List.nil_append, List.append_nil]

/-- The descriptor comes back. -/
theorem readDbName_iff [LongWidth] (hc : c.OneLine) :
    (∃ u, lineParam (.str 2 none) (1 + (str "database").length + 1) c.dbid = some u ∧
      dbOf env (cstr u) = some (c.location, c.dbport, c.dbname)) ↔
    PlainWord c.dbid ∧ c.dbname ≠ [] ∧ c.location.hname ≠ [] ∧
      fill env c.location.hname = c.location.ipa ∧ atoiUnsigned (splitId c.dbid 2) = c.dbport := by
  have hword : (str "database").length = 8 := by decide +kernel
  have hlen := hc.length_dbid
  have hplain : lineParam (.str 2 none) (1 + (str "database").length + 1) c.dbid = some c.dbid ↔
      PlainWord c.dbid ∧ (0 : UInt8) ∉ c.dbid ∧ isCorrespondW (.str 2 none) c.dbid = some true :=
    lineParam_plain_iff fun _ => by omega
  have hname : splitId c.dbid 0 = c.dbname := beforeSep_append hc.dbname.2.1 _
  have hhost : splitId c.dbid 1 = c.location.hname := splitId_at hc.dbname.2.1 hc.host.2.1
  have hcutName : snprintf 63 c.dbname = c.dbname :=
    snprintf_eq_self hc.dbname.1.1 hc.dbname.2.2
  have hcutHost : snprintf 16 c.location.hname = c.location.hname :=
    snprintf_eq_self c.location.zero_not_mem hc.host.2.2
  constructor
  · rintro ⟨u, hu, hof⟩
    rw [cstr_eq_self (of_lineParam hu).1] at hof
    obtain ⟨⟨h0, h1, h2⟩, hparts⟩ := dbOf_eq_some_iff.mp hof
    obtain ⟨hlocation, hrest⟩ := Prod.mk.inj hparts
    obtain ⟨hport, hdbname⟩ := Prod.mk.inj hrest
    obtain ⟨hhname, hipa⟩ := IpAddr.ext_iff.mp hlocation
    change snprintf 99 (snprintf 16 (splitId u 1)) = c.location.hname at hhname
    have hlength0 := (isPrefix_snprintf 63 (splitId u 0)).length_le
    have hlength1 := (isPrefix_snprintf 99 (snprintf 16 (splitId u 1))).length_le
    have hlength2 := (isPrefix_snprintf 16 (splitId u 1)).length_le
    rw [hdbname] at hlength0
    rw [hhname] at hlength1
    obtain rfl := eq_dbid_of_lineParam hc (by omega) hu h0 h1 hlength0 (hlength1.trans hlength2)
    rw [hname] at h0
    rw [hhost] at h1 hipa
    change fill env (snprintf 16 c.location.hname) = c.location.ipa at hipa
    rw [hcutHost] at hipa
    exact ⟨(hplain.mp hu).1, h0, h1, hipa, hport⟩
  · rintro ⟨hplainWord, h0, h1, hipa, hport⟩
    have hmin : isCorrespondW (.str 2 none) c.dbid = some true := by
      have h : 2 ≤ c.dbid.length := by simp [DbConf.dbid]; omega
      simp [isCorrespondW, h]
    refine ⟨c.dbid, hplain.mpr ⟨hplainWord, hc.clean_dbid.1, hmin⟩, ?_⟩
    rw [cstr_eq_self hc.clean_dbid.1, dbOf_eq_some_iff, hname, hhost, hcutName, hcutHost, hport]
    refine ⟨⟨h0, h1, fun hempty => ?_⟩, ?_⟩
    · have hsuffix : decimal c.dbport <:+ splitId c.dbid 2 := by
        have hbehind := @suffix_afterSep 58 (c.dbname ++ 64 :: c.location.hname) (decimal c.dbport)
        rwa [List.append_assoc, List.cons_append] at hbehind
      rw [hempty, List.suffix_nil] at hsuffix
      exact toString_ne_nil c.dbport hsuffix
    · have hmake : IpAddr.make env c.location.hname = c.location :=
        IpAddr.ext_iff.mpr ⟨c.location.fits, hipa⟩
      rw [hmake]

theorem dbName_eq_some_iff [LongWidth] {n : DbName env} :
    dbName env u = some n ↔ n.descr = u := by
  obtain ⟨descr, parts, hparts, hshort⟩ := n
  unfold dbName
  constructor
  · intro h
    split at h
    · split at h
      · exact (congrArg DbName.descr (Option.some.inj h)).symm
      · contradiction
    · contradiction
  · rintro rfl
    rw [dif_pos hshort]
    split
    · next parts' hparts' =>
      obtain rfl := Option.some.inj (hparts'.symm.trans hparts)
      rfl
    · next hnone =>
      rw [hparts] at hnone
      contradiction

theorem dbName_eq_none_iff [LongWidth] (hu : (cstr u).length ≤ 255) :
    dbName env u = none ↔ dbOf env (cstr u) = none := by
  rw [Option.eq_none_iff_forall_ne_some]
  constructor
  · intro h
    by_contra hne
    obtain ⟨parts, hparts⟩ := Option.ne_none_iff_exists'.mp hne
    exact h ⟨u, parts, hparts, hu⟩ (dbName_eq_some_iff.mpr rfl)
  · intro h n hn
    have hparts := n.parts_eq
    rw [dbName_eq_some_iff.mp hn, h] at hparts
    contradiction

theorem readDb_iff [LongWidth] (hc : c.OneLine) : (dbNode ld env).read c = some c ↔
    (∃ u, lineParam (.str 2 none) (1 + (str "database").length + 1) c.dbid = some u ∧
      dbOf env (cstr u) = some (c.location, c.dbport, c.dbname)) ∧
    DbConf.cryptokeyLine.read c = some c.cryptokey ∧ DbConf.loginLine.read c = some c.username ∧
    DbConf.passwordLine.read c = some c.password ∧
    ∃ m, (DbConf.moduleLine ld).read c = some m ∧ ld.closes m = true ∧
      (if ld.complete m then m else str "none.so") = c.module_ := by
  have hshut : DbConf.shutdownLine.read c = some (yesNo c.shutdown) :=
    lineParam_yesNo c.shutdown (by decide)
  have hmeans : (if utlMatch (yesNo c.shutdown) (str "No") then false else true) = c.shutdown := by
    have hall : ∀ b, (if utlMatch (yesNo b) (str "No") then false else true) = b := by
      decide +kernel
    exact hall c.shutdown
  have hmodule : ∀ (m : Bytes) (x : DbConf), x.module_ = str "none.so" →
      ld.setModule m x = { x with module_ := if ld.complete m then m else str "none.so" } := by
    intro m x hx
    unfold DbDLoad.setModule
    split
    · rfl
    · rw [← hx]
  have hread : ∀ {l : ParamLine DbConf DbCmd}, l.field.read c = l.read c := rfl
  dsimp only [Records.Node.read, dbNode]
  simp only [Records.setFields_cons, Records.setFields_nil, Option.bind_eq_some_iff, hread, hshut,
    Option.some.injEq, DbConf.moduleField, Option.filter_eq_some_iff]
  constructor
  · rintro ⟨n, ⟨u, hu, hn⟩, k, hk, l, hl, p, hp, m, ⟨hm, hcloses⟩, _, rfl, heq⟩
    have hsetModule := hmodule m (dbSet .confDbPasswd p (dbSet .confDbLogin l
      (dbSet .confDbCrypto k (.new n.parts)))) rfl
    change dbSet .confDbShutdown (yesNo c.shutdown) (ld.setModule m (dbSet .confDbPasswd p
      (dbSet .confDbLogin l (dbSet .confDbCrypto k (.new n.parts))))) = c at heq
    rw [hsetModule] at heq
    have hdescr := dbName_eq_some_iff.mp hn
    have hparts : n.parts = (c.location, c.dbport, c.dbname) :=
      Prod.ext (congrArg DbConf.location heq)
        (Prod.ext (congrArg DbConf.dbport heq) (congrArg DbConf.dbname heq))
    refine ⟨⟨u, hu, ?_⟩, ?_, ?_, ?_, m, hm, hcloses, congrArg DbConf.module_ heq⟩
    · rw [← hdescr, n.parts_eq, hparts]
    · rw [hk]
      exact congrArg some (congrArg DbConf.cryptokey heq)
    · rw [hl]
      exact congrArg some (congrArg DbConf.username heq)
    · rw [hp]
      exact congrArg some (congrArg DbConf.password heq)
  · rintro ⟨⟨u, hu, hof⟩, hk, hl, hp, m, hm, hcloses, hmod⟩
    have hlen := hc.length_dbid
    have hshort : (cstr u).length ≤ 255 := by
      have hcut := length_cstr_le u
      have hle := length_of_lineParam hu
      omega
    refine ⟨⟨u, _, hof, hshort⟩, ⟨u, hu, dbName_eq_some_iff.mpr rfl⟩, _, hk, _, hl, _, hp, m,
      ⟨hm, hcloses⟩, _, rfl, ?_⟩
    show dbSet .confDbShutdown (yesNo c.shutdown) (ld.setModule m (dbSet .confDbPasswd c.password
      (dbSet .confDbLogin c.username (dbSet .confDbCrypto c.cryptokey
        (.new (c.location, c.dbport, c.dbname)))))) = c
    rw [hmodule _ _ rfl, hmod]
    show (⟨c.location, c.dbport, c.dbname, c.cryptokey, c.username, c.password, c.module_,
      if utlMatch (yesNo c.shutdown) (str "No") then false else true⟩ : DbConf) = c
    rw [hmeans]

theorem readDb_eq_self_iff [LongWidth] (hnone : ld.Whole (str "none.so")) (hc : c.OneLine) :
    (dbNode ld env).read c = some c ↔ c.Storable ld env := by
  have hcrypto : DbConf.cryptokeyLine.read c = some c.cryptokey ↔ QuotedText 0 255 c.cryptokey :=
    lineParam_quotedText_iff (by decide) hc.cryptokey
  have hlogin : DbConf.loginLine.read c = some c.username ↔ PlainText 0 255 c.username :=
    lineParam_plainText_iff (by decide) hc.username
  have hpassword : DbConf.passwordLine.read c = some c.password ↔ PlainText 0 255 c.password :=
    lineParam_plainText_iff (by decide) hc.password
  have hfit : 255 + (2 + (str "module").length + 1) ≤ 298 := by decide +kernel
  have hmodule : (DbConf.moduleLine ld).read c = some c.module_ ↔ PlainText 0 255 c.module_ :=
    lineParam_plainText_iff hfit hc.module_
  have hself : lineParam (.str 0 (some 255)) (2 + (str "module").length + 1) (str "none.so") =
      some (str "none.so") :=
    (lineParam_plainText_iff hfit (by decide +kernel)).mpr
      ⟨by decide +kernel, by decide +kernel, by decide +kernel, by decide +kernel⟩
  rw [readDb_iff hc, readDbName_iff hc, hcrypto, hlogin, hpassword]
  constructor
  · rintro ⟨⟨hword, h0, h1, hipa, hport⟩, hk, hl, hp, m, hm, hcloses, hmod⟩
    refine ⟨⟨hword, hc.clean_dbid⟩, ⟨h0, hc.dbname.2.1, hc.dbname.2.2⟩,
      ⟨h1, hc.host.2.1, hc.host.2.2⟩, hipa, ⟨hc.port, hport⟩, hk, hl, hp, ?_⟩
    split at hmod
    · next hcomplete =>
      rw [← hmod] at hmodule ⊢
      have hopens : ld.error m = [] := of_decide_eq_true (Bool.and_eq_true_iff.mp hcloses).1
      exact ⟨hmodule.mp hm, hopens, hcomplete⟩
    · rw [← hmod] at hmodule ⊢
      refine ⟨hmodule.mp ?_, hnone⟩
      show lineParam (.str 0 (some 255)) (2 + (str "module").length + 1) c.module_ = _
      rw [← hmod, hself]
  · intro h
    refine ⟨⟨h.dbid.1, h.dbname.1, h.host.1, h.address, h.port.2⟩, h.cryptokey, h.username,
      h.password, c.module_, hmodule.mpr h.module_.1,
      DbDLoad.closes_iff.mpr h.module_.2.not_stops, ?_⟩
    rw [if_pos h.module_.2.complete]

theorem DbConf.Storable.oneLine [LongWidth] (h : c.Storable ld env) : c.OneLine where
  dbname := ⟨⟨fun h0 => h.dbid.2.1 (List.mem_append_left _ h0),
    fun h10 => h.dbid.2.2 (List.mem_append_left _ h10)⟩, h.dbname.2.1, h.dbname.2.2⟩
  host := ⟨fun h10 => h.dbid.2.2 (by simp [DbConf.dbid, h10]), h.host.2.1, h.host.2.2⟩
  port := h.port.1
  cryptokey := h.cryptokey.clean.2
  username := h.username.clean.2
  password := h.password.clean.2
  module_ := h.module_.1.clean.2

/-! ## The section -/

theorem id_setModule (m : Bytes) (x : DbConf) : (ld.setModule m x).id = x.id := by
  unfold DbDLoad.setModule
  split <;> rfl

/-- Whatever a line of a database changes, it keeps the name. -/
theorem id_dbField [LongWidth] {f : Records.Field DbConf Bytes Bytes}
    (hf : f ∈ (dbNode ld env).fields c) (p : Bytes) (x : DbConf) : (f.set p x).id = x.id := by
  simp only [dbNode, List.mem_cons, List.not_mem_nil, or_false] at hf
  rcases hf with rfl | rfl | rfl | rfl | rfl
  · exact id_dbSet _ p x
  · exact id_dbSet _ p x
  · exact id_dbSet _ p x
  · exact id_setModule p x
  · exact id_dbSet _ p x

/-- A line that is read leaves the modules whole. -/
theorem goodDbs_dbField [LongWidth] (h : GoodDbs ld tdb) {f : Records.Field DbConf Bytes Bytes}
    (hf : f ∈ (dbNode ld env).fields c) (hread : f.read c = some p) :
    GoodDbs ld (modifyDb k (f.set p) tdb) := by
  simp only [dbNode, List.mem_cons, List.not_mem_nil, or_false] at hf
  rcases hf with rfl | rfl | rfl | rfl | rfl
  · exact goodDbs_dbSet h .confDbCrypto
  · exact goodDbs_dbSet h .confDbLogin
  · exact goodDbs_dbSet h .confDbPasswd
  · have hcloses : ld.closes p = true := (Option.filter_eq_some_iff.mp hread).2
    exact goodDbs_setModule h fun _ => DbDLoad.closes_iff.mp hcloses
  · exact goodDbs_dbSet h .confDbShutdown

/-- In the node of a descriptor without its parts nothing is changed. -/
theorem step_dbField_of_none [LongWidth] {f : Records.Field DbConf Bytes Bytes}
    {z : Option (List Bytes) × List TacDb} (hf : f ∈ (dbNode ld env).fields c)
    (hu : dbOf env (cstr u) = none)
    (hz : (dbSection ld env).step (some [u], tdb) (f.line c) = some z) : z = (some [u], tdb) := by
  have hset : ∀ {l : ParamLine DbConf DbCmd}, l.In dbInner →
      l.cmd ≠ .confDbNo ∧ l.cmd ≠ .confDbNode →
      (dbSection ld env).step (some [u], tdb) (l.field.line c) = some z → z = (some [u], tdb) := by
    intro l hl hcmd hz
    rw [ParamLine.step_bind (S := dbSection ld env) hl hcmd.2] at hz
    obtain ⟨q, -, hz⟩ := Option.bind_eq_some_iff.mp hz
    obtain ⟨tdb', happly, rfl⟩ := Option.map_eq_some_iff.mp hz
    change applyDb ld env l.cmd [q] [u] tdb = some tdb' at happly
    unfold applyDb at happly
    simp only [List.head?_cons, Option.bind_some, if_neg (not_or.mpr hcmd), hu] at happly
    split at happly
    · contradiction
    · rw [Option.some.inj happly]
  obtain ⟨hcrypto, hlogin, hpassword, hmodule, hshutdown⟩ := dbLines_in ld
  simp only [dbNode, List.mem_cons, List.not_mem_nil, or_false] at hf
  rcases hf with rfl | rfl | rfl | rfl | rfl
  · exact hset hcrypto (by decide) hz
  · exact hset hlogin (by decide) hz
  · exact hset hpassword (by decide) hz
  · exact hset hmodule ⟨DbCmd.noConfusion, DbCmd.noConfusion⟩ hz
  · exact hset hshutdown (by decide) hz

/-- A database whose first line gives no name makes no database. -/
theorem run_db_of_none [LongWidth] (hc : c.OneLine) {z : Option (List Bytes) × List TacDb}
    (hread : (dbNode ld env).readHead c = none)
    (hz : ((dbNode ld env).write c).foldlM (dbSection ld env).step (none, tdb) = some z) :
    z = (none, tdb) := by
  rw [Records.Node.write, List.cons_append, List.foldlM_cons, step_db] at hz
  cases hline : lineParam (.str 2 none) (1 + (str "database").length + 1) c.dbid with
  | none =>
    rw [hline] at hz
    contradiction
  | some u =>
    have hlen := hc.length_dbid
    have hu : (cstr u).length ≤ 255 := by
      have hcut := length_cstr_le u
      have hle := length_of_lineParam hline
      omega
    have hof : dbOf env (cstr u) = none := by
      unfold dbNode at hread
      rw [← dbName_eq_none_iff hu]
      simpa only [hline, Option.bind_some] using hread
    have hnode : applyDb ld env .confDbNode [u] [] tdb = some tdb := by
      unfold applyDb
      simp [Nat.not_lt.mpr hu, hof]
    rw [hline, Option.bind_some, hnode] at hz
    change (((dbNode ld env).fields c).map (fun f => f.line c) ++ [exitLine]).foldlM
      (dbSection ld env).step (some [u], tdb) = some z at hz
    rw [List.foldlM_append] at hz
    obtain ⟨z', hfields, hexit⟩ := Option.bind_eq_some_iff.mp hz
    obtain rfl : z' = (some [u], tdb) := by
      refine Records.foldlM_invariant (P := (· = (some [u], tdb))) (fun s s' l hl hs hstep => ?_)
        rfl hfields
      obtain ⟨f, hf, rfl⟩ := List.mem_map.mp hl
      rw [hs] at hstep
      exact step_dbField_of_none hf hof hstep
    rw [List.foldlM_cons, ConfSection.step_exit rfl] at hexit
    exact (Option.some.inj hexit).symm

theorem dbNode_reader [LongWidth] (hnone : ld.Whole (str "none.so")) :
    (dbNode ld env).Reader DbConf.OneLine (GoodDbs ld) (fun n => [n.descr]) (dbSection ld env).step
      (fun tdb => tdb.map TacDb.conf) := by
  apply Records.Node.Reader.ofKeyed putDb modifyDb
  · exact fun u tdb h => ⟨h.put hnone, map_conf_putDb _ tdb⟩
  · exact fun c _ f hf k p tdb hread h => ⟨goodDbs_dbField h hf hread, map_conf_modifyDb h.distinct⟩
  · exact fun c _ f hf p x => id_dbField hf p x
  · intro c tdb z hc h hread hz
    exact ⟨tdb, run_db_of_none hc hread hz, h, Nat.le_refl _⟩
  · intro c tdb u _ h hread
    obtain ⟨t, hline, hname⟩ := Option.bind_eq_some_iff.mp hread
    obtain rfl := dbName_eq_some_iff.mp hname
    have happly : applyDb ld env .confDbNode [u.descr] [] tdb =
        (loadDb ld (DbConf.new u.parts).id (addDb (.new u.parts) tdb)).map Prod.fst := by
      unfold applyDb
      simp only [List.head?_cons, Option.bind_some, or_true, if_true,
        if_neg (Nat.not_lt.mpr u.short), u.parts_eq]
      rfl
    rw [step_db, hline, Option.bind_some, happly, loadDb_addDb h hnone]
    rfl
  · intro c u tdb _ h f hf hsome
    refine step_dbField c u h hf ?_
    obtain ⟨x, hx, hid⟩ := Keyed.look_isSome_iff.mp hsome
    exact List.mem_map.mpr ⟨x, hx, hid⟩
  · exact fun u tdb => ConfSection.step_exit rfl

theorem conf_loadDb {r : List TacDb × Bytes} (h : loadDb ld k tdb = some r) :
    r.1.map TacDb.conf = tdb.map TacDb.conf := by
  induction tdb generalizing r with
  | nil => rw [← Option.some.inj h]
  | cons y tdb ih =>
    rw [loadDb] at h
    split at h
    · obtain ⟨r', hload, rfl⟩ := Option.map_eq_some_iff.mp h
      rw [List.map_cons, List.map_cons, TacDb.conf_load hload]
    · obtain ⟨r', hload, rfl⟩ := Option.map_eq_some_iff.mp h
      rw [List.map_cons, List.map_cons, ih hload]

/-- The texts of all databases have no newline. -/
def OneLineDbs (tdb : List TacDb) : Prop := ∀ x ∈ tdb.map TacDb.conf, x.OneLine

theorem OneLineDbs.modifyDb {f : DbConf → DbConf} (h : OneLineDbs tdb)
    (hf : ∀ x : DbConf, x.OneLine → (f x).OneLine) : OneLineDbs (modifyDb k f tdb) := by
  intro x hx
  obtain ⟨y, hy, rfl⟩ := List.mem_map.mp hx
  obtain ⟨y, hmem, rfl⟩ := List.mem_map.mp hy
  have hone := h y.conf (List.mem_map_of_mem hmem)
  split
  · exact hf _ hone
  · exact hone

theorem OneLineDbs.loadDb {r : List TacDb × Bytes} (h : OneLineDbs tdb)
    (hload : loadDb ld k tdb = some r) : OneLineDbs r.1 := by
  unfold OneLineDbs
  rw [conf_loadDb hload]
  exact h

theorem oneLine_dbSet (hp : Clean p) {x : DbConf} (hx : x.OneLine) (cmdname : DbCmd) :
    (dbSet cmdname p x).OneLine := by
  cases cmdname with
  | confDbNo => exact hx
  | confDbNode => exact hx
  | confDbCrypto => exact { hx with cryptokey := hp.2 }
  | confDbLogin => exact { hx with username := hp.2 }
  | confDbPasswd => exact { hx with password := hp.2 }
  | confDbModule => exact hx
  | confDbShutdown => exact { hx with }

/-- The parts of a descriptor without a newline. -/
theorem oneLine_newDb [LongWidth] {parts : IpAddr × ℕ × Bytes} (hu : Clean u)
    (hof : dbOf env u = some parts) : (DbConf.new parts).OneLine := by
  obtain ⟨-, rfl⟩ := dbOf_eq_some_iff.mp hof
  have hname : ∀ b ∈ snprintf 63 (splitId u 0), b ∈ splitId u 0 := (isPrefix_snprintf _ _).subset
  have hhost : ∀ b ∈ snprintf 99 (snprintf 16 (splitId u 1)), b ∈ splitId u 1 := fun b hb =>
    (isPrefix_snprintf _ _).subset ((isPrefix_snprintf _ _).subset hb)
  have hdefaults : (10 : UInt8) ∉ str "public" ∧ (10 : UInt8) ∉ str "dbuser" ∧
      (10 : UInt8) ∉ str "dbpassword" ∧ (10 : UInt8) ∉ str "none.so" := by decide +kernel
  refine ⟨⟨⟨fun h0 => hu.1 (mem_of_mem_splitId (hname _ h0)),
    fun h10 => hu.2 (mem_of_mem_splitId (hname _ h10))⟩,
    fun hat => not_mem_beforeSep (hname _ hat), ?_⟩,
    ⟨fun h10 => hu.2 (mem_of_mem_splitId (hhost _ h10)),
      fun hcolon => colon_not_mem_splitId (hhost _ hcolon), ?_⟩, ?_, hdefaults.1, hdefaults.2.1,
    hdefaults.2.2.1, hdefaults.2.2.2⟩
  · exact List.length_take_le _ _
  · exact Nat.le_trans (isPrefix_snprintf 99 _).length_le (List.length_take_le _ _)
  · show (atoi (splitId u 2) % 4294967296).toNat < 4294967296
    omega

theorem DbConf.OneLine.setModule (h : c.OneLine) (hm : (10 : UInt8) ∉ m) :
    ({ c with module_ := m } : DbConf).OneLine := { h with module_ := hm }

theorem oneLine_applyDbModule (hp : Clean p) (h : OneLineDbs tdb)
    (happly : applyDbModule ld k p tdb = some tdb') : OneLineDbs tdb' := by
  obtain ⟨r, hload, happly⟩ := Option.bind_eq_some_iff.mp happly
  have hr : OneLineDbs r.1 :=
    OneLineDbs.loadDb (h.modifyDb fun x hx => hx.setModule hp.2) hload
  split at happly
  · obtain ⟨r', hload', rfl⟩ := Option.map_eq_some_iff.mp happly
    -- the name that is put back is that of a database, or empty
    have hname : (10 : UInt8) ∉ getDbModulename k tdb := by
      unfold getDbModulename
      split
      · next x hx => exact (h x (Keyed.mem_of_look hx)).module_
      · exact List.not_mem_nil
    exact OneLineDbs.loadDb (hr.modifyDb fun x hx => hx.setModule hname) hload'
  · rwa [← Option.some.inj happly]

/-- One command leaves the texts so. -/
theorem oneLine_applyDb [LongWidth] {cmdname : DbCmd} {params up : List Bytes}
    (hparams : ∀ t ∈ params, Clean t) (hup : ∀ t ∈ up, Clean t) (h : OneLineDbs tdb)
    (happly : applyDb ld env cmdname params up tdb = some tdb') : OneLineDbs tdb' := by
  obtain ⟨q, hq, happly⟩ := Option.bind_eq_some_iff.mp happly
  obtain ⟨d, hd, happly⟩ := Option.bind_eq_some_iff.mp happly
  have hcq : Clean (cstr q) := by
    have hclean := hparams q (List.mem_of_head? hq)
    rwa [cstr_eq_self hclean.1]
  have hcd : Clean (cstr d) := by
    have hclean : Clean d := by
      split at hd
      · exact hparams d (List.mem_of_head? hd)
      · exact hup d (List.mem_of_head? hd)
    rwa [cstr_eq_self hclean.1]
  split at happly
  · contradiction
  · split at happly
    · rwa [← Option.some.inj happly]
    · next parts hof =>
      have hset : ∀ cmdname, OneLineDbs (modifyDb (parts.1.ipa, parts.2)
          (dbSet cmdname (cstr q)) tdb) :=
        fun cmdname => h.modifyDb fun x hx => oneLine_dbSet hcq hx cmdname
      cases cmdname with
      | confDbNo =>
        change delDb _ tdb = some tdb' at happly
        unfold delDb at happly
        split at happly
        · rw [← Option.some.inj happly]
          exact fun x hx => h x ((List.filter_sublist.map TacDb.conf).subset hx)
        · contradiction
      | confDbNode =>
        obtain ⟨r, hload, rfl⟩ := Option.map_eq_some_iff.mp happly
        have hadd : OneLineDbs (addDb (.new parts) tdb) := by
          unfold addDb
          split
          · exact h
          · intro x hx
            rw [List.map_append, List.mem_append] at hx
            rcases hx with hx | hx
            · exact h x hx
            · rw [List.mem_singleton.mp hx]
              exact oneLine_newDb hcd hof
        exact hadd.loadDb hload
      | confDbModule => exact oneLine_applyDbModule hcq h happly
      | confDbCrypto => exact Option.some.inj happly ▸ hset .confDbCrypto
      | confDbLogin => exact Option.some.inj happly ▸ hset .confDbLogin
      | confDbPasswd => exact Option.some.inj happly ▸ hset .confDbPasswd
      | confDbShutdown => exact Option.some.inj happly ▸ hset .confDbShutdown

theorem dbSection_writes [LongWidth] (hnone : ld.Whole (str "none.so")) :
    (dbSection ld env).Writes (dbNode ld env) (fun n => [n.descr]) (fun tdb => tdb.map TacDb.conf)
      (GoodDbs ld) DbConf.buildcfstr DbConf.OneLine where
  reader := dbNode_reader hnone
  text := DbConf.buildcfstr_eq_write
  lines c hc := by
    have hquoted : (10 : UInt8) ∉ 39 :: c.cryptokey ++ [39] := by simpa using hc.cryptokey
    apply ten_not_mem_nodeLines (by decide +kernel) hc.clean_dbid.2
    intro l hl
    simp only [dbNode, List.map_cons, List.map_nil, List.mem_cons, List.not_mem_nil, or_false] at hl
    rcases hl with rfl | rfl | rfl | rfl | rfl
    · exact ten_not_mem_keyLine (by decide +kernel) hquoted 2
    · exact ten_not_mem_keyLine (by decide +kernel) hc.username 2
    · exact ten_not_mem_keyLine (by decide +kernel) hc.password 2
    · have hword : (10 : UInt8) ∉ str "module" := by decide +kernel
      exact ten_not_mem_keyLine hword hc.module_ 2
    · have hword : (10 : UInt8) ∉ str "shutdown" := by decide +kernel
      exact ten_not_mem_keyLine hword (answerWord _).ten 2
  keeps _ _ _ _ _ hparams hup h happly := oneLine_applyDb hparams hup h happly
  config := List.cons_ne_nil _ _
  inner := List.cons_ne_nil _ _

/-- **Databases in the file**: with a module `none.so` that can be loaded, they are read back if and
only if no address, port and name come twice and the file can hold each of them. -/
theorem dbsReadBack_iff [LongWidth] (hnone : ld.Whole (str "none.so")) : DbsReadBack ld env tdb ↔
    ((tdb.map TacDb.conf).map DbConf.id).Nodup ∧ ∀ x ∈ tdb, x.conf.Storable ld env := by
  have hback := (@dbSection_writes ld env _ hnone).readsBack_iff (fun c => readDb_eq_self_iff hnone)
    (fun c => DbConf.Storable.oneLine) goodDbs_nil rfl (tdb.map TacDb.conf)
  rw [List.flatMap_map, List.forall_mem_map] at hback
  exact hback

/-- A new database with a name of its own. -/
theorem dbsReadBack_users : DbsReadBack pickyLoad numericEnv
    [⟨.new (IpAddr.make numericEnv (str "10.0.0.1"), 5432, str "users"), .loaded true⟩] := by
  refine (dbsReadBack_iff whole_none).mpr ⟨List.nodup_singleton _, ?_⟩
  rw [List.forall_mem_singleton]
  exact
    { dbid := by decide +kernel
      dbname := by decide +kernel
      host := by decide +kernel
      address := by decide +kernel
      port := by decide +kernel
      cryptokey := ⟨by decide +kernel, by decide +kernel, by decide +kernel, by decide +kernel⟩
      username := ⟨by decide +kernel, by decide +kernel, by decide +kernel, by decide +kernel⟩
      password := ⟨by decide +kernel, by decide +kernel, by decide +kernel, by decide +kernel⟩
      module_ := ⟨⟨by decide +kernel, by decide +kernel, by decide +kernel, by decide +kernel⟩,
        whole_none⟩ }

end

end Tacppd
