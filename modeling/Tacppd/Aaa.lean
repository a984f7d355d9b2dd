/-
# Authentication against the database

`AAA.cc`: `cpass` compares a stored secret with a supplied one, in clear or as a
CHAP response, and `db_authentication` decides whether a user may come in: the
record is there, a session is left, the account is open, the secret is right and
the access rows let the user in from here.

The decision is the conjunction of these five checks
(`dbAuthentication_eq_true_iff`); the two results about it say exactly when the
secret check and the access rows do what they are for.
-/
import Tacppd.Database

namespace Tacppd

/-! ## The functions of the source -/

/-- `AAA::cpass`: the secret of the database against the one of the NAS.  A
supplied secret that is not the stored one is read as a CHAP response: an id byte,
the challenge, and 16 bytes that must be the MD5 of id, stored secret and
challenge. -/
def cpass (md5 : Bytes → Digest) (pwdu pwdn : Bytes) : Bool :=
  if pwdu = [] ∨ pwdn = [] then false
  else if pwdu = pwdn then true
  else
    let pwduser := snprintf passwordLen pwdu
    let pwdnas := snprintf passwordLen pwdn
    if pwdnas.length < 1 + md5Len then false
    else
      let chalLen := pwdnas.length - 1 - md5Len
      let input := pwdnas.take 1 ++ pwduser ++ (pwdnas.drop 1).take chalLen
      (md5 input).bytes == (pwdnas.drop (1 + chalLen)).take md5Len

/-- The arguments of one call of `db_authentication`. -/
structure AuthenCall where
  user : Bytes
  password : Bytes
  remAddr : Bytes
  nas : Bytes
  port : Bytes
  enable : Bytes
  deriving DecidableEq, Repr

/-- The password of the nopassword probe. -/
def nullPassword : Bytes := str "(null)"

/-- The chain over `authsrc` in `db_authentication`. -/
def secretAccepted (md5 : Bytes → Digest) (data : DbUser) (call : AuthenCall) : Bool :=
  if scompNum data.authsrc (str "db") 2 then
    if call.password = nullPassword then false
    else !(!cpass md5 data.password call.password && !cpass md5 data.enable call.enable)
  else if scompNum data.authsrc (str "cpwd") 4 then
    !(decide (data.password ≠ call.password) && decide (data.enable ≠ call.enable))
  else if scompNum data.authsrc (str "ccf") 3 then true  -- cryptocard file: no check
  else if scompNum data.authsrc (str "ccd") 3 then true  -- cryptocard table: no check
  else scompNum data.authsrc (str "nopwd") 5

/-- The four flags of the loop over the access rows. -/
structure AccFlags where
  flag1 : Bool
  flag2 : Bool
  flag3 : Bool
  flag4 : Bool
  deriving DecidableEq, Repr

/-- The checks of one access row: a flag once set stays set. -/
def AccFlags.check (env : Env) (call : AuthenCall) (f : AccFlags) (acc : DbUserAcc) : AccFlags where
  flag1 := if env.regexec acc.phone call.remAddr then true else f.flag1
  flag2 := if env.regexec acc.nas call.nas then true else f.flag2
  flag3 :=
    if call.port ≠ [] then if env.regexec acc.port call.port then true else f.flag3 else true
  flag4 := if acc.time ≠ [] then if env.checkTime acc.time then true else f.flag4 else true

def AccFlags.all (f : AccFlags) : Bool := f.flag1 && f.flag2 && f.flag3 && f.flag4

/-- The loop over the access rows, with `flag` as it stands before it.  The flags
are set to false once, before the first row. -/
def accLoop (env : Env) (call : AuthenCall) : AccFlags → Bool → List DbUserAcc → Bool
  | _, flag, [] => flag
  | f, _, acc :: rest =>
    -- what an earlier row has set counts for this one too
    let f := f.check env call acc
    if f.all then true else accLoop env call f false rest

/-- `AAA::db_authentication`. -/
def dbAuthentication (md5 : Bytes → Digest) (env : Env) (call : AuthenCall) : Bool :=
  let data := env.get2add call.user call.nas call.port call.remAddr
  if !data.result then false
  else if data.maxsess ≠ 0 ∧ data.maxsess ≤ env.numsess call.user then false
  else if env.time < data.openTime ∨ (data.closeTime < env.time ∧ 100 < data.closeTime) then false
  else if !secretAccepted md5 data call then false
  else accLoop env call ⟨false, false, false, false⟩ true data.acc

/-- `AAA::db_authorization`: the record of the user, with its dynamic AVPs
evaluated for the phone that is tracked on the port. -/
def dbAuthorization (env : Env) (user peer port remAddr : Bytes) : DbUser :=
  let dbd := env.get2add user peer port remAddr
  if !dbd.result then dbd
  else env.modifyer user peer port (env.trackedPhone peer port) dbd

/-! ## The access rows -/

/-- The four columns of an access row. -/
def DbUserAcc.phoneOk (env : Env) (call : AuthenCall) (acc : DbUserAcc) : Bool :=
  env.regexec acc.phone call.remAddr

def DbUserAcc.nasOk (env : Env) (call : AuthenCall) (acc : DbUserAcc) : Bool :=
  env.regexec acc.nas call.nas

def DbUserAcc.portOk (env : Env) (call : AuthenCall) (acc : DbUserAcc) : Bool :=
  decide (call.port = []) || env.regexec acc.port call.port

def DbUserAcc.timeOk (env : Env) (acc : DbUserAcc) : Bool :=
  decide (acc.time = []) || env.checkTime acc.time

/-- One row lets the caller in: all its columns agree. -/
def DbUserAcc.permits (env : Env) (call : AuthenCall) (acc : DbUserAcc) : Prop :=
  acc.phoneOk env call = true ∧ acc.nasOk env call = true ∧ acc.portOk env call = true ∧
    acc.timeOk env = true

/-- Every column is satisfied by some row, not necessarily the same one. -/
def columnsMet (env : Env) (call : AuthenCall) (rows : List DbUserAcc) : Prop :=
  (∃ acc ∈ rows, acc.phoneOk env call = true) ∧ (∃ acc ∈ rows, acc.nasOk env call = true) ∧
    (∃ acc ∈ rows, acc.portOk env call = true) ∧ (∃ acc ∈ rows, acc.timeOk env = true)

theorem AccFlags.check_eq (env : Env) (call : AuthenCall) (f : AccFlags) (acc : DbUserAcc) :
    f.check env call acc =
      ⟨acc.phoneOk env call || f.flag1, acc.nasOk env call || f.flag2,
        acc.portOk env call || f.flag3, acc.timeOk env || f.flag4⟩ := by
  unfold AccFlags.check DbUserAcc.phoneOk DbUserAcc.nasOk DbUserAcc.portOk DbUserAcc.timeOk
  by_cases hp : call.port = [] <;> by_cases ht : acc.time = [] <;> simp [hp, ht]

/-- One turn of the loop: either it breaks here or the later rows decide. -/
theorem accLoop_succ (env : Env) (call : AuthenCall) (f : AccFlags) (flag : Bool)
    (acc : DbUserAcc) (rest : List DbUserAcc) :
    accLoop env call f flag (acc :: rest) =
      ((f.check env call acc).all || accLoop env call (f.check env call acc) false rest) := by
  rw [accLoop]
  cases (f.check env call acc).all <;> rfl

/-- Over at least one row the loop asks of every flag that it was set before or is
set by some row. -/
theorem accLoop_cons (env : Env) (call : AuthenCall) (f : AccFlags) (flag : Bool)
    (acc : DbUserAcc) (rest : List DbUserAcc) :
    accLoop env call f flag (acc :: rest) =
      (((acc :: rest).any (·.phoneOk env call) || f.flag1) &&
        ((acc :: rest).any (·.nasOk env call) || f.flag2) &&
        ((acc :: rest).any (·.portOk env call) || f.flag3) &&
        ((acc :: rest).any (·.timeOk env) || f.flag4)) := by
  induction rest generalizing f flag acc with
  | nil =>
    rw [accLoop_succ, AccFlags.check_eq]
    simp only [AccFlags.all, accLoop, List.any_cons, List.any_nil, Bool.or_false]
  | cons acc' rest ih =>
    rw [accLoop_succ, ih, AccFlags.check_eq]
    simp only [AccFlags.all, List.any_cons]
    by_cases hall : ((acc.phoneOk env call || f.flag1) && (acc.nasOk env call || f.flag2) &&
        (acc.portOk env call || f.flag3) && (acc.timeOk env || f.flag4)) = true
    · -- the loop breaks, and no later row could unset a flag
      rw [hall, Bool.true_or]
      simp only [Bool.and_eq_true, Bool.or_eq_true] at hall
      obtain ⟨⟨⟨h1, h2⟩, h3⟩, h4⟩ := hall
      symm
      simp only [Bool.and_eq_true, Bool.or_eq_true]
      exact ⟨⟨⟨h1.imp_left .inl, h2.imp_left .inl⟩, h3.imp_left .inl⟩, h4.imp_left .inl⟩
    · rw [Bool.eq_false_iff.mpr hall, Bool.false_or]
      simp only [Bool.or_assoc, Bool.or_left_comm]

/-- The loop over the access rows as the function runs it: no rows let everybody
in, and otherwise every column must be met by some row. -/
theorem accLoop_iff (env : Env) (call : AuthenCall) (rows : List DbUserAcc) :
    accLoop env call ⟨false, false, false, false⟩ true rows = true ↔
      rows = [] ∨ columnsMet env call rows := by
  cases rows with
  | nil => simp [accLoop]
  | cons acc rest =>
    rw [accLoop_cons]
    simp only [Bool.or_false, Bool.and_eq_true, List.any_eq_true, columnsMet, reduceCtorEq,
      false_or, and_assoc]

/-- A row that lets the caller in meets every column. -/
theorem columnsMet_of_permits {env : Env} {call : AuthenCall} {rows : List DbUserAcc}
    (h : ∃ acc ∈ rows, acc.permits env call) : columnsMet env call rows := by
  obtain ⟨acc, hmem, hp, hn, ho, ht⟩ := h
  exact ⟨⟨acc, hmem, hp⟩, ⟨acc, hmem, hn⟩, ⟨acc, hmem, ho⟩, ⟨acc, hmem, ht⟩⟩

/-- The order of the rows does not matter to the columns. -/
theorem columnsMet_perm {env : Env} {call : AuthenCall} {rows rows' : List DbUserAcc}
    (h : rows'.Perm rows) : columnsMet env call rows' ↔ columnsMet env call rows := by
  simp only [columnsMet, h.mem_iff]

/-! ## The decision -/

/-- The checks of `db_authentication` before the secret. -/
structure MayTry (env : Env) (data : DbUser) (call : AuthenCall) : Prop where
  found : data.result = true
  sessionLeft : data.maxsess = 0 ∨ env.numsess call.user < data.maxsess
  opened : data.openTime ≤ env.time
  notClosed : env.time ≤ data.closeTime ∨ data.closeTime ≤ 100

/-- The loop asks the environment for patterns and times only, never for a record. -/
theorem accLoop_withRecord (env : Env) (data : DbUser) (call : AuthenCall) :
    accLoop (env.withRecord data) call = accLoop env call := by
  funext f flag rows
  induction rows generalizing f flag with
  | nil => rfl
  | cons acc rest ih =>
    rw [accLoop, accLoop, ih]
    rfl

/-- Of all look-ups only the one for this call is made. -/
theorem dbAuthentication_withRecord (md5 : Bytes → Digest) (env : Env) (call : AuthenCall) :
    dbAuthentication md5
        (env.withRecord (env.get2add call.user call.nas call.port call.remAddr)) call =
      dbAuthentication md5 env call := by
  unfold dbAuthentication
  rw [accLoop_withRecord]
  rfl

/-- **The decision of `db_authentication`** is the conjunction of its checks. -/
theorem dbAuthentication_eq_true_iff (md5 : Bytes → Digest) (env : Env) (data : DbUser)
    (call : AuthenCall) :
    dbAuthentication md5 (env.withRecord data) call = true ↔
      MayTry env data call ∧ secretAccepted md5 data call = true ∧
        (data.acc = [] ∨ columnsMet env call data.acc) := by
  rw [← accLoop_iff]
  have hchecks : dbAuthentication md5 (env.withRecord data) call = true ↔
      data.result = true ∧ (data.maxsess = 0 ∨ env.numsess call.user < data.maxsess) ∧
        (data.openTime ≤ env.time ∧ (env.time ≤ data.closeTime ∨ data.closeTime ≤ 100)) ∧
        secretAccepted md5 data call = true ∧
        accLoop (env.withRecord data) call ⟨false, false, false, false⟩ true data.acc = true := by
    simp [dbAuthentication, Env.withRecord]
  rw [hchecks, accLoop_withRecord]
  constructor
  · rintro ⟨hfound, hsess, ⟨hopen, hclose⟩, hsec, hrows⟩
    exact ⟨⟨hfound, hsess, hopen, hclose⟩, hsec, hrows⟩
  · rintro ⟨⟨hfound, hsess, hopen, hclose⟩, hsec, hrows⟩
    exact ⟨hfound, hsess, ⟨hopen, hclose⟩, hsec, hrows⟩

end Tacppd
