/-
# Managers in the configuration file

A manager is saved with the text of its password, its type and the number of its access list.  A
new manager has the number 0, which the command does not take, and the text of a password may be
empty or have a hash cut off (`Manager.lean`), so not every manager that can be entered can be
read again: `managersReadBack_iff` says which.
-/
import Tacppd.ConfNodes
import Tacppd.Manager

namespace Tacppd

/-! ## The functions of the managers -/

namespace CoreManager

variable (md5 : Bytes → Digest)

/-- `CoreManager::del`. -/
def del (u : Bytes) (c : CoreManager) : CoreManager :=
  ⟨Keyed.dropAll ManagerUser.username (cstr u) c.usr⟩

/-- The first manager with the name is changed. -/
def alter (u : Bytes) (f : ManagerUser → ManagerUser) (c : CoreManager) : CoreManager :=
  ⟨Keyed.alter ManagerUser.username u f c.usr⟩

/-- `cmodify` and `modify(u, a)`: a manager that is not there is added, and the function starts
again. -/
def changeLoop (u : Bytes) (f : ManagerUser → ManagerUser) : ℕ → CoreManager → Option CoreManager
  | 0, _ => none
  | fuel + 1, c => if (c.user u).isSome then some (c.alter (cstr u) f) else
    changeLoop u f fuel (c.add u)

def cmodify (u p : Bytes) (c : CoreManager) : Option CoreManager :=
  c.changeLoop u (fun tmp => tmp.setPassword (cstr p)) 2

def modifyAcl (u : Bytes) (a : ℤ) (c : CoreManager) : Option CoreManager :=
  c.changeLoop u (fun tmp => { tmp with acl := a }) 2

/-- `modify2`: the type. -/
def modify2 (u t : Bytes) (c : CoreManager) : CoreManager :=
  c.alter (cstr u) fun tmp => { tmp with type := cstr t }

end CoreManager

/-- The part of `CoreManager::buildcfstr` for a manager. -/
def ManagerUser.buildcfstr (x : ManagerUser) : Bytes :=
  str " manager " ++ x.username ++ [10] ++
    str "  cpassword '" ++ x.password ++ [39, 10] ++
    str "  type " ++ x.type ++ [10] ++
    str "  acl " ++ decimal x.acl ++ [10] ++
    str "  exit"

/-- The texts of all managers. -/
def managerText (usr : List ManagerUser) : Bytes := usr.flatMap fun x => x.buildcfstr ++ [10]

/-! ## The commands -/

/-- The commands by their `cmdID`. -/
inductive ManagerCmd
  | confManagerNo
  | confManagerNode
  | confManagerPwd
  | confManagerCPwd
  | confManagerAcl
  | confManagerHttp
  | confManagerTerm
  | confManagerTci
  deriving DecidableEq

/-- The types in `etc/tacppd.cf.xml`. -/
def managerTypes : List (Bytes × ManagerCmd) :=
  [(str "Http", .confManagerHttp), (str "Terminal", .confManagerTerm),
    (str "TCI", .confManagerTci)]

/-- The commands for managers in the node `config`. -/
def managerConfig : List (List MaskWord × Option ManagerCmd) :=
  [([.key (str "Exit")], none),
    ([.key (str "NO"), .key (str "MAnager"), .param (.str 2 (some 30))], some .confManagerNo),
    ([.key (str "MAnager"), .param (.str 2 (some 30))], some .confManagerNode)]

/-- The commands in the node of a manager. -/
def managerInner : List (List MaskWord × Option ManagerCmd) :=
  [([.key (str "Exit")], none),
    ([.key (str "PAssword"), .param (.str 5 (some 30))], some .confManagerPwd),
    ([.key (str "CPAssword"), .param (.str 1 (some 30))], some .confManagerCPwd),
    ([.key (str "ACl"), .param (.int 1 (some 100))], some .confManagerAcl),
    ([.key (str "TYpe"), .key (str "Http")], some .confManagerHttp),
    ([.key (str "TYpe"), .key (str "Terminal")], some .confManagerTerm),
    ([.key (str "TYpe"), .key (str "TCI")], some .confManagerTci)]

section

variable (md5 : Bytes → Digest)

/-- `CoreManager::applycf`.  The parameters come as C strings. -/
def applyManager [LongWidth] (cmdname : ManagerCmd) (paramList up : List Bytes) (c : CoreManager) :
    Option CoreManager :=
  match cmdname with
  | .confManagerNo => paramList.head?.map fun p => c.del p
  | .confManagerNode => paramList.head?.map fun p => c.add p
  | .confManagerPwd => paramList.head?.bind fun p => up.head?.bind fun u => c.modify md5 u p
  | .confManagerCPwd => paramList.head?.bind fun p => up.head?.bind fun u => c.cmodify u p
  | .confManagerAcl =>
    paramList.head?.bind fun p => up.head?.bind fun u => c.modifyAcl u (atoi (cstr p))
  | .confManagerHttp => up.head?.map fun u => c.modify2 u (lowered (str "Http"))
  | .confManagerTerm => up.head?.map fun u => c.modify2 u (lowered (str "Terminal"))
  | .confManagerTci => up.head?.map fun u => c.modify2 u (lowered (str "TCI"))

def managerSection [LongWidth] : ConfSection CoreManager ManagerCmd where
  config := managerConfig
  node := .confManagerNode
  inner := managerInner
  applycf := applyManager md5

/-- The text of the managers gives the same managers, from none. -/
def ManagersReadBack [LongWidth] (c : CoreManager) : Prop :=
  (managerSection md5).replay (managerText c.usr) ⟨[]⟩ = some (none, c)

end

/-! ## The lines of a manager -/

namespace ManagerUser

def cpasswordLine : ParamLine ManagerUser ManagerCmd where
  word := str "cpassword"
  key := str "CPAssword"
  mask := .str 1 (some 30)
  cmd := .confManagerCPwd
  value x := 39 :: x.password ++ [39]
  set p x := { x with password := p }

def typeLine : ChoiceLine ManagerUser ManagerCmd where
  word := str "type"
  key := str "TYpe"
  alts := managerTypes
  value x := x.type
  set p x := { x with type := p }

def aclLine [LongWidth] : ParamLine ManagerUser ManagerCmd where
  word := str "acl"
  key := str "ACl"
  mask := .int 1 (some 100)
  cmd := .confManagerAcl
  value x := decimal x.acl
  set p x := { x with acl := atoi p }

end ManagerUser

/-- A manager as a node. -/
def managerNode [LongWidth] : Records.Node ManagerUser Bytes Bytes Bytes Bytes where
  key := ManagerUser.username
  head x := keyLine 1 (str "manager") x.username
  readHead x := lineParam (.str 2 (some 30)) (1 + (str "manager").length + 1) x.username
  new u := ⟨cstr u, str "nopassword", 0, str "terminal"⟩
  fields _ := [ManagerUser.cpasswordLine.field, ManagerUser.typeLine.field,
    ManagerUser.aclLine.field]
  exit := exitLine

theorem ManagerUser.buildcfstr_eq_write [LongWidth] (x : ManagerUser) :
    x.buildcfstr ++ [10] = (managerNode.write x).flatMap (· ++ [10]) := by
  have hwords : str " manager " = 32 :: str "manager" ++ [32] ∧
      str "  cpassword '" = 32 :: 32 :: str "cpassword" ++ [32, 39] ∧
      str "  type " = 32 :: 32 :: str "type" ++ [32] ∧
      str "  acl " = 32 :: 32 :: str "acl" ++ [32] := by decide +kernel
  unfold buildcfstr Records.Node.write managerNode
  simp [hwords, ParamLine.field, ChoiceLine.field, cpasswordLine, typeLine, aclLine, keyLine,
    exitLine]

section

variable {md5 : Bytes → Digest} {c c' : CoreManager} {u p : Bytes} {x : ManagerUser}

theorem CoreManager.user_add (u : Bytes) (c : CoreManager) : ((c.add u).user u).isSome = true := by
  unfold add
  split
  · assumption
  · rw [user, Keyed.look_concat, if_pos rfl]
    cases Keyed.look ManagerUser.username c.usr (cstr u) <;> rfl

/-- The second round of the loops finds the manager that the first one has added. -/
theorem CoreManager.changeLoop_eq (u : Bytes) (f : ManagerUser → ManagerUser) (c : CoreManager) :
    c.changeLoop u f 2 = some ((c.add u).alter (cstr u) f) := by
  unfold changeLoop
  split
  · next hu => rw [add, if_pos hu]
  · rw [changeLoop, if_pos (c.user_add u)]

theorem CoreManager.modify_eq (u p : Bytes) (c : CoreManager) :
    c.modify md5 u p = some ((c.add u).alter (cstr u)
      fun tmp => tmp.setPassword (base64Encode (tmp.createMd5Hash md5 p).bytes)) := by
  unfold modify modifyLoop
  split
  · next hu =>
    rw [add, if_pos hu]
    rfl
  · rw [modifyLoop, if_pos (c.user_add u)]
    rfl

/-! ## The lines as commands -/

theorem cpasswordLine_in : ManagerUser.cpasswordLine.In managerInner :=
  ⟨⟨managerInner.take 2, managerInner.drop 3, rfl, by decide +kernel⟩, by decide +kernel,
    by decide +kernel⟩

theorem managerAclLine_in [LongWidth] : ManagerUser.aclLine.In managerInner := by
  have hothers : (managerInner.take 3 ++ managerInner.drop 4).all
      (fun c => refuses (str "acl" ++ [32]) c.1) = true := by decide +kernel
  have hword : Keyword (str "acl") := by decide +kernel
  have hkey : matchNstrict (str "acl" ++ [32]) (str "ACl") = true := by decide +kernel
  exact ⟨⟨managerInner.take 3, managerInner.drop 4, rfl, hothers⟩, hword, hkey⟩

theorem managerTypeLine_in : ManagerUser.typeLine.In managerInner :=
  ⟨⟨managerInner.take 4, [], rfl, by decide +kernel⟩, by decide +kernel, by decide +kernel⟩

/-- A manager that is there is only changed. -/
theorem CoreManager.add_of_user (h : (c.user u).isSome = true) : c.add u = c := by
  rw [add, if_pos h]

theorem step_manager [LongWidth] (x : ManagerUser) (c : CoreManager) :
    (managerSection md5).step (none, c) (managerNode.head x) =
      (managerNode.readHead x).map fun u => (some [u], c.add u) := by
  dsimp only [managerNode]
  exact @ConfSection.step_enter_map _ _ _ (managerSection md5) c (str "manager")
    (str "MAnager") (.str 2 (some 30)) (managerConfig.take 2) [] _ rfl (by decide +kernel)
    (by decide +kernel) (by decide +kernel) x.username _ fun _ => rfl

/-- The commands for the types. -/
theorem managerTypes_spec [LongWidth] : ∀ y ∈ managerTypes, y.2 ≠ .confManagerNode ∧
    cstr (lowered y.1) = lowered y.1 ∧
      ∀ u c, applyManager md5 y.2 [] [u] c = some (c.modify2 u (lowered y.1)) := by
  intro y hy
  unfold managerTypes at hy
  simp only [List.mem_cons, List.not_mem_nil, or_false] at hy
  rcases hy with rfl | rfl | rfl
  · exact ⟨ManagerCmd.noConfusion, by decide +kernel, fun _ _ => rfl⟩
  · exact ⟨ManagerCmd.noConfusion, by decide +kernel, fun _ _ => rfl⟩
  · exact ⟨ManagerCmd.noConfusion, by decide +kernel, fun _ _ => rfl⟩

/-- The commands that the lines of a manager are. -/
theorem step_managerField [LongWidth] (x : ManagerUser) (u : Bytes) (c : CoreManager)
    {f : Records.Field ManagerUser Bytes Bytes} (hf : f ∈ managerNode.fields x)
    (hc : (c.user u).isSome = true) :
    (managerSection md5).step (some [u], c) (f.line x) =
      (f.read x).map fun p => (some [u], c.alter (cstr u) (f.set p)) := by
  rcases List.mem_cons.mp hf with rfl | hf
  · apply ParamLine.step cpasswordLine_in ManagerCmd.noConfusion
    intro p hp
    show c.cmodify u p = _
    rw [CoreManager.cmodify, CoreManager.changeLoop_eq, CoreManager.add_of_user hc,
      cstr_eq_self hp]
    rfl
  rcases List.mem_cons.mp hf with rfl | hf
  · apply ChoiceLine.step managerTypeLine_in
    · exact fun y hy => (@managerTypes_spec md5 _ y hy).1
    · intro y hy
      obtain ⟨-, hzero, happly⟩ := @managerTypes_spec md5 _ y hy
      show applyManager md5 y.2 [] [u] c = _
      rw [happly, CoreManager.modify2, hzero]
      rfl
  obtain rfl := List.mem_singleton.mp hf
  apply ParamLine.step managerAclLine_in ManagerCmd.noConfusion
  intro p hp
  show c.modifyAcl u (atoi (cstr p)) = _
  rw [CoreManager.modifyAcl, CoreManager.changeLoop_eq, CoreManager.add_of_user hc,
    cstr_eq_self hp]
  rfl

/-! ## What a manager is read as -/

/-- A manager that the file can hold. -/
structure ManagerUser.Storable (x : ManagerUser) : Prop where
  username : PlainText 2 30 x.username
  password : QuotedText 1 30 x.password
  type : x.type ∈ ([str "http", str "terminal", str "tci"] : List Bytes)
  acl : 1 ≤ x.acl ∧ x.acl ≤ 100

/-- The texts of a manager have no newline. -/
structure ManagerUser.OneLine (x : ManagerUser) : Prop where
  username : (10 : UInt8) ∉ x.username
  password : (10 : UInt8) ∉ x.password
  type : (10 : UInt8) ∉ x.type

theorem readManager_iff [LongWidth] (x : ManagerUser) : managerNode.read x = some x ↔
    lineParam (.str 2 (some 30)) (1 + (str "manager").length + 1) x.username = some x.username ∧
      ManagerUser.cpasswordLine.read x = some x.password ∧
      ManagerUser.typeLine.read x = some x.type ∧
      ∃ t, ManagerUser.aclLine.read x = some t ∧ atoi t = x.acl := by
  dsimp only [Records.Node.read, managerNode]
  simp only [Records.setFields_cons, Records.setFields_nil, Option.bind_eq_some_iff,
    ParamLine.field, ChoiceLine.field]
  constructor
  · rintro ⟨u, hu, p, hp, y, hy, t, ht, heq⟩
    change some (⟨cstr u, p, atoi t, y⟩ : ManagerUser) = some x at heq
    rw [cstr_eq_self (of_lineParam hu).1] at heq
    obtain rfl := Option.some.inj heq
    exact ⟨hu, hp, hy, t, ht, rfl⟩
  · rintro ⟨hu, hp, hy, t, ht, hacl⟩
    refine ⟨_, hu, _, hp, _, hy, t, ht, ?_⟩
    show some (⟨cstr x.username, x.password, atoi t, x.type⟩ : ManagerUser) = some x
    rw [cstr_eq_self (of_lineParam hu).1, hacl]

theorem readManager_eq_self_iff [LongWidth] (hx : x.OneLine) :
    managerNode.read x = some x ↔ x.Storable := by
  have hpassword : ManagerUser.cpasswordLine.read x = some x.password ↔
      QuotedText 1 30 x.password := lineParam_quotedText_iff (by decide) hx.password
  have husername : lineParam (.str 2 (some 30)) (1 + (str "manager").length + 1) x.username =
      some x.username ↔ PlainText 2 30 x.username :=
    lineParam_plainText_iff (by decide) hx.username
  have htype : ManagerUser.typeLine.read x = some x.type ↔
      x.type ∈ managerTypes.map fun y => lowered y.1 := ChoiceLine.read_iff (by decide +kernel)
  have hacl : (∃ t, ManagerUser.aclLine.read x = some t ∧ atoi t = x.acl) ↔
      1 ≤ x.acl ∧ x.acl ≤ 100 :=
    lineParam_number_iff (by decide) (by decide) (show 2 + (str "acl").length + 1 ≤ 200 by decide)
  have htypes : (managerTypes.map fun y => lowered y.1) =
      [str "http", str "terminal", str "tci"] := by decide +kernel
  rw [readManager_iff, husername, hpassword, htype, hacl, htypes]
  exact ⟨fun h => ⟨h.1, h.2.1, h.2.2.1, h.2.2.2⟩, fun h => ⟨h.username, h.password, h.type, h.acl⟩⟩

theorem ManagerUser.Storable.oneLine (h : x.Storable) : x.OneLine where
  username := h.username.clean.2
  password := h.password.clean.2
  type := by
    have hall : ∀ t ∈ ([str "http", str "terminal", str "tci"] : List Bytes), (10 : UInt8) ∉ t := by
      decide +kernel
    exact hall _ h.type

/-! ## The whole text -/

theorem managerNode_reader [LongWidth] :
    managerNode.Reader ManagerUser.OneLine (fun _ => True) (fun u => [u])
      (managerSection md5).step CoreManager.usr := by
  apply Records.Node.Reader.ofKeyed (fun x c =>
    if (Keyed.look ManagerUser.username c.usr x.username).isSome = true then c
    else ⟨c.usr ++ [x]⟩) CoreManager.alter
  · exact fun _ _ _ => ⟨trivial, apply_ite CoreManager.usr _ _ _⟩
  · exact fun _ _ _ _ _ _ _ _ _ => ⟨trivial, rfl⟩
  · intro x _ f hf p y
    simp only [managerNode, List.mem_cons, List.not_mem_nil, or_false] at hf
    rcases hf with rfl | rfl | rfl <;> rfl
  · intro x c z _ _ hread hz
    apply Records.Node.Reader.enter_none_of_step _ hz
    rw [step_manager, hread]
    rfl
  · intro x c u _ _ hread
    rw [step_manager, hread]
    rfl
  · exact fun x u c _ _ f hf hc => step_managerField x u c hf hc
  · exact fun u c => ConfSection.step_exit rfl

theorem ten_not_mem_base64Encode (s : Bytes) : (10 : UInt8) ∉ base64Encode s := by
  have hall : ∀ n < 64, base64Tbl (UInt8.ofNat n) ≠ 10 := by decide +kernel
  have htbl : ∀ x : UInt8, x.toNat < 64 → base64Tbl x ≠ 10 := by
    intro x hx
    rw [← UInt8.ofNat_toNat (x := x)]
    exact hall x.toNat hx
  unfold base64Encode
  split
  · exact List.not_mem_nil
  · intro h
    exact base64Groups_forall (p := (· ≠ 10)) (by decide) htbl _ 10 (List.mem_of_mem_take h) rfl

theorem oneLine_addManager (hu : Clean u) (hc : ∀ x ∈ c.usr, x.OneLine) :
    ∀ x ∈ (c.add u).usr, x.OneLine := by
  unfold CoreManager.add
  split
  · exact hc
  · intro x hx
    rcases List.mem_append.mp hx with hx | hx
    · exact hc x hx
    · rw [List.mem_singleton.mp hx]
      have hdefault : (10 : UInt8) ∉ str "nopassword" ∧ (10 : UInt8) ∉ str "terminal" := by
        decide +kernel
      exact ⟨ten_not_mem_cstr hu.2, hdefault.1, hdefault.2⟩

theorem oneLine_alterManager {f : ManagerUser → ManagerUser}
    (hf : ∀ x : ManagerUser, x.OneLine → (f x).OneLine) (hc : ∀ x ∈ c.usr, x.OneLine) :
    ∀ x ∈ (c.alter u f).usr, x.OneLine := Keyed.forall_mem_alter hf hc

/-- One command leaves the texts without newlines. -/
theorem oneLine_applyManager [LongWidth] {cmdname : ManagerCmd} {params up : List Bytes}
    (hparams : ∀ t ∈ params, Clean t) (hup : ∀ t ∈ up, Clean t) (hc : ∀ x ∈ c.usr, x.OneLine)
    (h : applyManager md5 cmdname params up c = some c') : ∀ x ∈ c'.usr, x.OneLine := by
  have htype : ∀ t : Bytes, (10 : UInt8) ∉ t →
      (up.head?.map fun u => c.modify2 u t) = some c' → ∀ x ∈ c'.usr, x.OneLine := by
    intro t ht h
    obtain ⟨u, -, rfl⟩ := Option.map_eq_some_iff.mp h
    exact oneLine_alterManager (fun x hx => { hx with type := ten_not_mem_cstr ht }) hc
  cases cmdname with
  | confManagerNo =>
    obtain ⟨p, -, rfl⟩ := Option.map_eq_some_iff.mp h
    exact fun x hx => hc x (List.mem_of_mem_filter hx)
  | confManagerNode =>
    obtain ⟨p, hp, rfl⟩ := Option.map_eq_some_iff.mp h
    exact oneLine_addManager (hparams p (List.mem_of_head? hp)) hc
  | confManagerPwd =>
    obtain ⟨p, hp, h⟩ := Option.bind_eq_some_iff.mp h
    obtain ⟨u, hu, h⟩ := Option.bind_eq_some_iff.mp h
    obtain rfl := Option.some.inj ((c.modify_eq u p).symm.trans h)
    exact oneLine_alterManager
      (fun x hx => { hx with password := ten_not_mem_base64Encode _ })
      (oneLine_addManager (hup u (List.mem_of_head? hu)) hc)
  | confManagerCPwd =>
    obtain ⟨p, hp, h⟩ := Option.bind_eq_some_iff.mp h
    obtain ⟨u, hu, h⟩ := Option.bind_eq_some_iff.mp h
    obtain rfl := Option.some.inj ((c.changeLoop_eq u _).symm.trans h)
    exact oneLine_alterManager
      (fun x hx => { hx with
        password := ten_not_mem_cstr (hparams p (List.mem_of_head? hp)).2 })
      (oneLine_addManager (hup u (List.mem_of_head? hu)) hc)
  | confManagerAcl =>
    obtain ⟨p, hp, h⟩ := Option.bind_eq_some_iff.mp h
    obtain ⟨u, hu, h⟩ := Option.bind_eq_some_iff.mp h
    obtain rfl := Option.some.inj ((c.changeLoop_eq u _).symm.trans h)
    exact oneLine_alterManager (fun x hx => { hx with })
      (oneLine_addManager (hup u (List.mem_of_head? hu)) hc)
  | confManagerHttp => exact htype _ (by decide +kernel) h
  | confManagerTerm => exact htype _ (by decide +kernel) h
  | confManagerTci => exact htype _ (by decide +kernel) h

theorem managerSection_writes [LongWidth] : (managerSection md5).Writes managerNode (fun u => [u])
    CoreManager.usr (fun _ => True) ManagerUser.buildcfstr ManagerUser.OneLine where
  reader := managerNode_reader
  text := ManagerUser.buildcfstr_eq_write
  lines x hx := by
    have hquoted : (10 : UInt8) ∉ 39 :: x.password ++ [39] := by simpa using hx.password
    have hacl : (10 : UInt8) ∉ str "acl" := by decide +kernel
    apply ten_not_mem_nodeLines (by decide +kernel) hx.username
    simp only [managerNode, List.map_cons, List.map_nil, List.forall_mem_cons]
    exact ⟨ten_not_mem_keyLine (by decide +kernel) hquoted 2,
      ten_not_mem_keyLine (by decide +kernel) hx.type 2,
      ten_not_mem_keyLine hacl (ten_not_mem_decimal x.acl) 2, nofun⟩
  keeps _ _ _ _ _ hparams hup hc h := oneLine_applyManager hparams hup hc h
  config := List.cons_ne_nil _ _
  inner := List.cons_ne_nil _ _

/-- **Managers in the file**: they are read back if and only if no name comes twice and the file
can hold each of them. -/
theorem managersReadBack_iff [LongWidth] : ManagersReadBack md5 c ↔
    (c.usr.map ManagerUser.username).Nodup ∧ ∀ x ∈ c.usr, x.Storable := by
  have hwrites := @managerSection_writes md5
  have hback := hwrites.readsBack_iff (fun x => readManager_eq_self_iff)
    (fun x => ManagerUser.Storable.oneLine) (s := ⟨[]⟩) trivial rfl c.usr
  rw [← show managerNode.key = ManagerUser.username from rfl, ← hback]
  unfold ManagersReadBack
  constructor
  · exact fun h => ⟨c, h, rfl⟩
  · rintro ⟨⟨usr⟩, h, rfl⟩
    exact h

end

end Tacppd
