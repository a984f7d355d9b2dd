/-
# Authentication

`TacacsSessionContainer::process`, the part for authentication packets, with
`TacacsServerAuthentication::get_start` and `get_cont`.  The packet with sequence
number 1 is read as START; the packets up to number 7 are read as CONTINUE, with a
user name or a password in them, as far as the request is an ASCII login or an
enable request.

Every packet is answered at most once and calls `db_authentication` at most once,
so one step is an `AuthenOutcome`.  `Outcome` says what it can be at each stage, and
`Outcome.pass` what is behind a PASS.
-/
import Tacppd.Aaa

namespace Tacppd

/-! ## Numbers of the protocol -/

def tacPlusAuthenLogin : UInt8 := 1
def tacPlusAuthenChpass : UInt8 := 2
def tacPlusAuthenSendpass : UInt8 := 3
def tacPlusAuthenSendauth : UInt8 := 4

def tacPlusAuthenTypeAscii : UInt8 := 1
def tacPlusAuthenTypePap : UInt8 := 2
def tacPlusAuthenTypeChap : UInt8 := 3
def tacPlusAuthenTypeArap : UInt8 := 4
def tacPlusAuthenTypeMschap : UInt8 := 5

def tacPlusAuthenSvcLogin : UInt8 := 1
def tacPlusAuthenSvcEnable : UInt8 := 2
def tacPlusAuthenSvcH323Vsa : UInt8 := 10

def echoOn : UInt8 := 0
def noEcho : UInt8 := 1

/-- The types of requests that `get_start` returns. -/
inductive RequestType
  | enableRequest
  | asciiLogin
  | papLogin
  | chapLogin
  | arapLogin
  | papOut
  | chapOut
  | asciiChpass
  | mschapLogin
  | mschapOut
  | chapPassword
  | papPassword
  deriving DecidableEq, Repr

/-- The statuses of a reply that the server sends. -/
inductive AuthenStatus
  | pass
  | fail
  | getUser
  | getPass
  deriving DecidableEq, Repr

def AuthenStatus.code : AuthenStatus → UInt8
  | pass => 1
  | fail => 2
  | getUser => 4
  | getPass => 5

/-! ## The state and the packets -/

/-- The state of the authentication of one session, class
`TacacsServerAuthentication`.  Its buffers `data` and `password` are cleared and
filled anew wherever they are used. -/
structure TacacsServerAuthentication where
  user : Bytes
  port : Bytes
  remAddr : Bytes
  cisco : Bytes
  enable : Bytes
  request : Option RequestType
  pwstring : Bytes
  chap : Bool
  enReq : Bool
  deriving DecidableEq, Repr

/-- The constructor. -/
def TacacsServerAuthentication.new : TacacsServerAuthentication where
  user := []
  port := []
  remAddr := []
  cisco := []
  enable := []
  request := none
  pwstring := []
  chap := false
  enReq := false

/-- What `process` clears before a START packet; `chap` stays. -/
def TacacsServerAuthentication.reset (a : TacacsServerAuthentication) :
    TacacsServerAuthentication :=
  { TacacsServerAuthentication.new with chap := a.chap }

/-- The type of a request: the last rule that fits. -/
def startType (action authenType service version : UInt8) : Option RequestType :=
  let type : Option RequestType := none
  let type := if action = tacPlusAuthenLogin ∧ service = tacPlusAuthenSvcEnable then
    some .enableRequest else type
  let type := if action = tacPlusAuthenChpass ∧ authenType = tacPlusAuthenTypeAscii then
    some .asciiChpass else type
  let type := if action = tacPlusAuthenLogin ∧
      (service = tacPlusAuthenSvcLogin ∨ service = tacPlusAuthenSvcH323Vsa) ∧
      authenType = tacPlusAuthenTypeAscii then some .asciiLogin else type
  let type := if action = tacPlusAuthenLogin ∧ authenType = tacPlusAuthenTypePap ∧
      version = tacPlusVer1 then some .papLogin else type
  let type := if action = tacPlusAuthenSendauth ∧ authenType = tacPlusAuthenTypePap ∧
      version = tacPlusVer1 then some .papOut else type
  let type := if action = tacPlusAuthenLogin ∧ authenType = tacPlusAuthenTypeChap ∧
      version = tacPlusVer1 then some .chapLogin else type
  let type := if action = tacPlusAuthenSendauth ∧ authenType = tacPlusAuthenTypeChap ∧
      version = tacPlusVer1 then some .chapOut else type
  let type := if action = tacPlusAuthenLogin ∧ authenType = tacPlusAuthenTypeMschap ∧
      version = tacPlusVer1 then some .mschapLogin else type
  let type := if action = tacPlusAuthenSendauth ∧ authenType = tacPlusAuthenTypeMschap ∧
      version = tacPlusVer1 then some .mschapOut else type
  let type := if action = tacPlusAuthenLogin ∧ authenType = tacPlusAuthenTypeArap ∧
      version = tacPlusVer1 then some .arapLogin else type
  let type := if action = tacPlusAuthenSendpass ∧ authenType = tacPlusAuthenTypeChap ∧
      version = tacPlusVer0 then some .chapPassword else type
  let type := if action = tacPlusAuthenSendpass ∧ authenType = tacPlusAuthenTypePap ∧
      version = tacPlusVer0 then some .papPassword else type
  type

/-- One text field of a START packet, copied to a buffer of `cap` bytes: nothing
inside when the field is too long, and no meaning when the terminator goes past the
buffer, which the length check lets happen. -/
def startField (pak : Bytes) (off len cap : ℕ) : Option (Option Bytes) :=
  if cap < len then some none
  else if len = cap then none  -- passes the test with `>`
  else (strncpy pak off len).map some

/-- What `get_start` leaves: the session's fields, the buffer `data`, and the type,
nothing for 0. -/
structure Start where
  authen : TacacsServerAuthentication
  data : Bytes
  type : Option RequestType

/-- `get_start`. -/
def getStart (a : TacacsServerAuthentication) (peer : Bytes) (hdr : Hdr) (pak : Bytes) :
    Option Start :=
  if hdr.version ≠ tacPlusVer0 ∧ hdr.version ≠ tacPlusVer1 then some ⟨a, [], none⟩
  else
    let a := { a with cisco := peer }
    if hdr.seqNo ≠ 1 then some ⟨a, [], none⟩
    else
      let type := startType (pak.getD 0 0) (pak.getD 2 0) (pak.getD 3 0) hdr.version
      let userLen := (pak.getD 4 0).toNat
      let portLen := (pak.getD 5 0).toNat
      let remAddrLen := (pak.getD 6 0).toNat
      match startField pak 8 userLen usernameLen with
      | none => none
      | some none => some ⟨a, [], none⟩
      | some (some user) =>
        let a := { a with user := user }
        match startField pak (8 + userLen) portLen Tacppd.portLen with
        | none => none
        | some none => some ⟨a, [], none⟩
        | some (some port) =>
          let a := { a with port := port }
          match startField pak (8 + userLen + portLen) remAddrLen Tacppd.remAddrLen with
          | none => none
          | some none => some ⟨a, [], none⟩
          | some (some remAddr) =>
            let a := { a with remAddr := remAddr }
            match startField pak (8 + userLen + portLen + remAddrLen) (pak.getD 7 0).toNat
              dataLen with
            | none => none
            | some none => some ⟨a, [], none⟩
            | some (some data) => some ⟨a, data, type⟩

/-- A number of two bytes in network order. -/
def ntohs (pak : Bytes) (off : ℕ) : ℕ := (pak.getD off 0).toNat * 256 + (pak.getD (off + 1) 0).toNat

/-- What `get_cont` reads: the flags and the user message. -/
structure Cont where
  flag : UInt8
  userMsg : Bytes

/-- `get_cont`; nothing inside for the return value -1.  What it copies to `data` is
only logged. -/
def getCont (hdr : Hdr) (pak : Bytes) (maxlen : ℕ) : Option (Option Cont) :=
  let userMsgLen := ntohs pak 0
  let userDataLen := ntohs pak 2
  if hdr.len ≠ 5 + userMsgLen + userDataLen then some none
  else if maxlen < userMsgLen then some none
  else
    match strncpy pak 5 userMsgLen with
    | none => none
    | some userMsg =>
      if dataLen < userDataLen then some none
      else
        match strncpy pak (5 + userMsgLen) userDataLen with
        | none => none
        | some _ => some (some ⟨pak.getD 4 0, userMsg⟩)

/-! ## One packet -/

/-- The arguments of `send_reply`; the data field is always empty. -/
structure AuthenReply where
  status : AuthenStatus
  serverMsg : Bytes
  flag : UInt8
  ver : UInt8
  deriving DecidableEq, Repr

/-- What one packet comes to: the fields after it, the call of `db_authentication`
with its result, and the reply. -/
structure AuthenOutcome where
  authen : TacacsServerAuthentication
  call : Option (AuthenCall × Bool)
  reply : Option AuthenReply

def failReply : AuthenReply := ⟨.fail, [], noEcho, tacPlusVer0⟩

def passReply (chap : Bool) : AuthenReply :=
  ⟨.pass, [], noEcho, if chap then tacPlusVer1 else tacPlusVer0⟩

/-- The call that is made with the session's fields and a password. -/
def TacacsServerAuthentication.call (a : TacacsServerAuthentication) (password : Bytes) :
    AuthenCall :=
  ⟨a.user, password, a.remAddr, a.cisco, a.port, a.enable⟩

section

variable (md5 : Bytes → Digest) (env : Env)

/-- A call of `db_authentication` and the two replies it decides between. -/
def TacacsServerAuthentication.decide (a : TacacsServerAuthentication) (password : Bytes)
    (yes no : AuthenReply) : AuthenOutcome :=
  let result := dbAuthentication md5 env (a.call password)
  ⟨a, some (a.call password, result), some (if result then yes else no)⟩

/-- The packet with sequence number 1. -/
def processStart (loginstring pwdstring : Bytes) (a : TacacsServerAuthentication) (peer : Bytes)
    (hdr : Hdr) (pak : Bytes) : Option AuthenOutcome :=
  match getStart a.reset peer hdr pak with
  | none => none
  | some start =>
    match start.type with
    | none => some ⟨start.authen, none, some failReply⟩
    | some type =>
      let a := { start.authen with request := some type }
      if type = .asciiLogin ∨ type = .enableRequest then
        let a := { a with enReq := type == .enableRequest }
        if a.user = [] then some ⟨a, none, some ⟨.getUser, cstr loginstring, echoOn, tacPlusVer0⟩⟩
        else
          some (a.decide md5 env nullPassword (passReply false)
            ⟨.getPass, cstr pwdstring, noEcho, tacPlusVer0⟩)
      else if (type = .papLogin ∨ type = .chapLogin) ∧ start.data ≠ [] then
        let a := { a with pwstring := start.data.take 253, chap := true }
        if a.pwstring ≠ [] then some (a.decide md5 env a.pwstring (passReply a.chap) failReply)
        else some ⟨a, none, none⟩
      else if type = .chapPassword ∨ type = .papPassword then
        some ⟨a, none, some (passReply false)⟩  -- SENDPASS: no password is sent back
      else some ⟨a, none, some failReply⟩

/-- A CONTINUE packet with the user name in it. -/
def userStage (pwdstring : Bytes) (a : TacacsServerAuthentication) (hdr : Hdr) (pak : Bytes) :
    Option AuthenOutcome :=
  match getCont hdr pak usernameLen with
  | none => none
  | some none => some ⟨a, none, some failReply⟩
  | some (some cont) =>
    match terminated usernameLen cont.userMsg with
    | none => none
    | some user =>
      let a := { a with user := user }
      if cont.flag = 1 then some ⟨a, none, some failReply⟩
      else
        some (a.decide md5 env nullPassword (passReply false)
          ⟨.getPass, if a.enReq then str "ENABLE PASSWORD:" else cstr pwdstring, noEcho,
            tacPlusVer0⟩)

/-- A CONTINUE packet with the password in it. -/
def passwordStage (a : TacacsServerAuthentication) (hdr : Hdr) (pak : Bytes) :
    Option AuthenOutcome :=
  match getCont hdr pak passwordLen with
  | none => none
  | some none => some ⟨a, none, some failReply⟩
  | some (some cont) =>
    if cont.flag = 1 then some ⟨a, none, none⟩
    else
      match terminated passwordLen cont.userMsg with
      | none => none
      | some password =>
        let a := if a.enReq then { a with enable := password }
          else { a with pwstring := snprintf 253 password }
        some (a.decide md5 env a.pwstring (passReply a.chap) failReply)

/-- The request is carried on by CONTINUE packets. -/
def TacacsServerAuthentication.goesOn (a : TacacsServerAuthentication) : Bool :=
  a.request == some .asciiLogin || a.request == some .enableRequest

/-- `process` on an authentication packet with sequence number `seq`. -/
def processAuthen (loginstring pwdstring : Bytes) (a : TacacsServerAuthentication) (peer : Bytes)
    (seq : ℕ) (hdr : Hdr) (pak : Bytes) : Option AuthenOutcome :=
  if seq = 1 then processStart md5 env loginstring pwdstring a peer hdr pak
  else if 2 ≤ seq ∧ seq ≤ 4 then
    -- cases 2 to 4 fall through to the password once a user name is there
    if a.goesOn then
      if a.user = [] then userStage md5 env pwdstring a hdr pak
      else passwordStage md5 env a hdr pak
    else some ⟨a, none, none⟩
  else if 5 ≤ seq ∧ seq ≤ 7 then
    if a.goesOn then passwordStage md5 env a hdr pak
    else some ⟨a, none, none⟩
  else some ⟨a, none, none⟩

end

/-! ## What the packets carry -/

/-- A text field of a packet. -/
def field (body : Bytes) (off len : ℕ) : Bytes := cstr ((body.drop off).take len)

/-- The user name in a START packet. -/
def startUser (body : Bytes) : Bytes := field body 8 (body.getD 4 0).toNat

/-- The data in a START packet. -/
def startData (body : Bytes) : Bytes :=
  field body (8 + (body.getD 4 0).toNat + (body.getD 5 0).toNat + (body.getD 6 0).toNat)
    (body.getD 7 0).toNat

/-- The user message in a CONTINUE packet. -/
def contMsg (body : Bytes) : Bytes := field body 5 (ntohs body 0)

/-- The lengths in a CONTINUE packet are those of a user name that can be read. -/
def contReadable (hdr : Hdr) (body : Bytes) : Prop :=
  hdr.len = 5 + ntohs body 0 + ntohs body 2 ∧ ntohs body 0 ≤ usernameLen ∧
    ntohs body 2 ≤ dataLen

instance (hdr : Hdr) (body : Bytes) : Decidable (contReadable hdr body) :=
  inferInstanceAs (Decidable (_ ∧ _ ∧ _))

/-- The user name in a CONTINUE packet, empty when the packet is malformed. -/
def contUser (hdr : Hdr) (body : Bytes) : Bytes :=
  if contReadable hdr body then contMsg body else []

/-! ## Reading the packets -/

theorem startField_eq_some {pak : Bytes} {off len cap : ℕ} {s : Bytes}
    (h : startField pak off len cap = some (some s)) : len < cap ∧ s = field pak off len := by
  unfold startField at h
  split at h
  · simp at h
  · split at h
    · contradiction
    · obtain ⟨t, ht, hs⟩ := Option.map_eq_some_iff.mp h
      obtain rfl := Option.some.inj hs
      exact ⟨by omega, eq_of_strncpy ht⟩

/-- `get_start` does not touch the request. -/
theorem getStart_request {a : TacacsServerAuthentication} {peer : Bytes} {hdr : Hdr} {pak : Bytes}
    {start : Start} (h : getStart a peer hdr pak = some start) :
    start.authen.request = a.request := by
  unfold getStart at h
  simp only at h
  repeat' split at h
  all_goals first
    | contradiction
    | obtain rfl := Option.some.inj h
      rfl

/-- What a START packet with a known type leaves. -/
structure StartRead (a : TacacsServerAuthentication) (hdr : Hdr) (pak : Bytes) (start : Start)
    (type : RequestType) : Prop where
  user : start.authen.user = startUser pak
  data : start.data = startData pak
  short : start.data.length < dataLen
  type_eq : startType (pak.getD 0 0) (pak.getD 2 0) (pak.getD 3 0) hdr.version = some type
  enable : start.authen.enable = a.enable
  request : start.authen.request = a.request
  enReq : start.authen.enReq = a.enReq

theorem getStart_read {a : TacacsServerAuthentication} {peer : Bytes} {hdr : Hdr} {pak : Bytes}
    {start : Start} {type : RequestType} (h : getStart a peer hdr pak = some start)
    (ht : start.type = some type) : StartRead a hdr pak start type := by
  unfold getStart at h
  split at h
  · obtain rfl := Option.some.inj h
    contradiction
  · simp only at h
    split at h
    · obtain rfl := Option.some.inj h
      contradiction
    · split at h
      · contradiction
      · obtain rfl := Option.some.inj h
        contradiction
      · next user huser =>
        split at h
        · contradiction
        · obtain rfl := Option.some.inj h
          contradiction
        · next port hport =>
          split at h
          · contradiction
          · obtain rfl := Option.some.inj h
            contradiction
          · next remAddr hrem =>
            split at h
            · contradiction
            · obtain rfl := Option.some.inj h
              contradiction
            · next data hdata =>
              obtain rfl := Option.some.inj h
              obtain ⟨hlen, hfield⟩ := startField_eq_some hdata
              refine ⟨(startField_eq_some huser).2, hfield, ?_, ht, rfl, rfl, rfl⟩
              have hcstr := length_cstr_le ((pak.drop (8 + (pak.getD 4 0).toNat +
                (pak.getD 5 0).toNat + (pak.getD 6 0).toNat)).take (pak.getD 7 0).toNat)
              rw [List.length_take] at hcstr
              show data.length < dataLen
              rw [hfield, field]
              omega

/-- A rule of `startType` decides, or the rules before it do. -/
theorem eq_some_of_ite {α : Type*} {c : Prop} [Decidable c] {x r : α} {t : Option α}
    (h : (if c then some x else t) = some r) : (c ∧ x = r) ∨ t = some r := by
  by_cases hc : c
  · rw [if_pos hc] at h
    exact .inl ⟨hc, Option.some.inj h⟩
  · rw [if_neg hc] at h
    exact .inr h

/-- A request for a password comes with the action SENDPASS only. -/
theorem startType_password {action authenType service version : UInt8} {type : RequestType}
    (h : startType action authenType service version = some type)
    (htype : type = .chapPassword ∨ type = .papPassword) : action = tacPlusAuthenSendpass := by
  dsimp only [startType] at h
  -- the last two rules are those for SENDPASS
  rcases eq_some_of_ite h with ⟨hc, -⟩ | h
  · exact hc.1
  rcases eq_some_of_ite h with ⟨hc, -⟩ | h
  · exact hc.1
  -- and the ten before them give other types
  iterate 10
    rcases eq_some_of_ite h with ⟨-, rfl⟩ | h
    · simp at htype
  contradiction

/-- What `get_cont` reads of a CONTINUE packet. -/
theorem getCont_eq_some {hdr : Hdr} {pak : Bytes} {maxlen : ℕ} {cont : Cont}
    (h : getCont hdr pak maxlen = some (some cont)) :
    hdr.len = 5 + ntohs pak 0 + ntohs pak 2 ∧ ntohs pak 0 ≤ maxlen ∧ ntohs pak 2 ≤ dataLen ∧
      cont.userMsg = contMsg pak := by
  unfold getCont at h
  simp only at h
  split at h
  · simp at h
  · next hlen =>
    split at h
    · simp at h
    · next hmax =>
      split at h
      · contradiction
      · next userMsg hmsg =>
        split at h
        · simp at h
        · next hdata =>
          split at h
          · contradiction
          · obtain rfl := Option.some.inj (Option.some.inj h)
            exact ⟨not_not.mp hlen, by omega, by omega, eq_of_strncpy hmsg⟩

/-- The flags of a CONTINUE packet are its fifth byte. -/
theorem getCont_flag {hdr : Hdr} {pak : Bytes} {maxlen : ℕ} {cont : Cont}
    (h : getCont hdr pak maxlen = some (some cont)) : cont.flag = pak.getD 4 0 := by
  unfold getCont at h
  simp only at h
  repeat' split at h
  all_goals first
    | contradiction
    | obtain rfl := Option.some.inj (Option.some.inj h)
      rfl
    | simp at h

/-- A packet that `get_cont` refuses for its user name is malformed. -/
theorem getCont_eq_none {hdr : Hdr} {pak : Bytes}
    (h : getCont hdr pak usernameLen = some none) : ¬ contReadable hdr pak := by
  rintro ⟨hlen, hmax, hdata⟩
  unfold getCont at h
  simp only at h
  rw [if_neg (not_not.mpr hlen), if_neg (by omega)] at h
  split at h
  · contradiction
  · rw [if_neg (by omega)] at h
    split at h <;> simp at h

/-! ## What is behind a PASS -/

section

variable {md5 : Bytes → Digest} {env : Env} {loginstring pwdstring peer : Bytes}
  {a : TacacsServerAuthentication} {hdr : Hdr} {pak : Bytes} {o : AuthenOutcome}

/-- The call is made for the nopassword probe, or hands on a secret as password or as
enable string. -/
def SuppliesSecret (call : AuthenCall) (secret : Bytes) : Prop :=
  call.password = nullPassword ∨ call.password = secret ∨ call.enable = secret

/-- What must be behind a PASS: the check was made in this step for this user, with
what the packet supplies, and said yes. -/
def CheckedFor (md5 : Bytes → Digest) (env : Env) (o : AuthenOutcome) (user secret : Bytes) :
    Prop :=
  ∃ call, o.call = some (call, true) ∧ dbAuthentication md5 env call = true ∧
    call.user = user ∧ SuppliesSecret call secret

/-- What a packet comes to: an answer without a check, which is no PASS, or a check for
the user with what the packet supplies. -/
inductive Outcome (md5 : Bytes → Digest) (env : Env) (user secret : Bytes) : AuthenOutcome → Prop
  | told (a : TacacsServerAuthentication) (reply : Option AuthenReply)
      (hno : ∀ r, reply = some r → r.status ≠ .pass) : Outcome md5 env user secret ⟨a, none, reply⟩
  | decided (a : TacacsServerAuthentication) (password : Bytes) (yes no : AuthenReply)
      (huser : a.user = user) (hsecret : SuppliesSecret (a.call password) secret)
      (hno : no.status ≠ .pass) : Outcome md5 env user secret (a.decide md5 env password yes no)

/-- Behind a PASS there is a check that said yes. -/
theorem Outcome.pass {user secret : Bytes} (ho : Outcome md5 env user secret o) {r : AuthenReply}
    (hr : o.reply = some r) (hpass : r.status = .pass) : CheckedFor md5 env o user secret := by
  cases ho with
  | told a reply hno => exact absurd hpass (hno r hr)
  | decided a password yes no huser hsecret hno =>
    unfold TacacsServerAuthentication.decide at hr ⊢
    simp only at hr
    cases hres : dbAuthentication md5 env (a.call password)
    · rw [hres] at hr
      obtain rfl := Option.some.inj hr
      exact absurd hpass hno
    · -- the reply may be either one here: the check said yes
      exact ⟨a.call password, rfl, hres, huser, hsecret⟩

theorem failReply_not_pass : ∀ r, some failReply = some r → r.status ≠ .pass := by
  intro r hr
  obtain rfl := Option.some.inj hr
  decide

theorem no_reply_not_pass : ∀ r : AuthenReply, none = some r → r.status ≠ .pass := by
  intro r hr
  contradiction

/-- A START packet: but for a request for a password it is answered after a check; and
where CONTINUE packets can carry on, the user is the one in the packet and a reply is
sent. -/
theorem processStart_ok (h : processStart md5 env loginstring pwdstring a peer hdr pak = some o) :
    (pak.getD 0 0 ≠ tacPlusAuthenSendpass →
      Outcome md5 env (startUser pak) (startData pak) o) ∧
    (o.authen.goesOn = true → o.authen.user = startUser pak ∧ o.reply.isSome = true) := by
  unfold processStart at h
  split at h
  · contradiction
  · next start hstart =>
    split at h
    · -- the packet is refused, and the request stays cleared
      obtain rfl := Option.some.inj h
      refine ⟨fun _ => .told _ _ failReply_not_pass, fun hgo => ?_⟩
      rw [TacacsServerAuthentication.goesOn, getStart_request hstart] at hgo
      contradiction
    · next type htype =>
      have hread := getStart_read hstart htype
      simp only at h
      split at h
      · -- ASCII login or enable request
        split at h
        · obtain rfl := Option.some.inj h
          refine ⟨fun _ => .told _ _ ?_, fun _ => ⟨hread.user, rfl⟩⟩
          intro r hr
          obtain rfl := Option.some.inj hr
          simp
        · obtain rfl := Option.some.inj h
          exact ⟨fun _ => .decided _ _ _ _ hread.user (.inl rfl) (by simp),
            fun _ => ⟨hread.user, rfl⟩⟩
      · next hascii =>
        have hends : ∀ b : TacacsServerAuthentication, b.request = some type →
            b.goesOn = true → False := by
          intro b hb hgo
          apply hascii
          simpa [TacacsServerAuthentication.goesOn, hb] using hgo
        split at h
        · -- PAP or CHAP login
          split at h
          · obtain rfl := Option.some.inj h
            refine ⟨fun _ => .decided _ _ _ _ hread.user (.inr (.inl ?_)) (by simp [failReply]),
              fun hgo => (hends _ rfl hgo).elim⟩
            have hshort := hread.short
            show start.data.take 253 = startData pak
            rw [← hread.data]
            exact List.take_of_length_le (by simp only [dataLen] at hshort; omega)
          · obtain rfl := Option.some.inj h
            exact ⟨fun _ => .told _ _ no_reply_not_pass, fun hgo => (hends _ rfl hgo).elim⟩
        · split at h
          · next hpwd =>
            obtain rfl := Option.some.inj h
            exact ⟨fun haction => absurd (startType_password hread.type_eq hpwd) haction,
              fun hgo => (hends _ rfl hgo).elim⟩
          · obtain rfl := Option.some.inj h
            exact ⟨fun _ => .told _ _ failReply_not_pass, fun hgo => (hends _ rfl hgo).elim⟩

/-- A CONTINUE packet with a user name: it is answered after the nopassword probe, and
leaves the user that is in it. -/
theorem userStage_ok (h : userStage md5 env pwdstring a hdr pak = some o) :
    Outcome md5 env (contUser hdr pak) (contMsg pak) o ∧
    (a.user = [] → o.authen.user = contUser hdr pak ∧ o.reply.isSome = true) := by
  unfold userStage at h
  split at h
  · contradiction
  · next hcont =>
    obtain rfl := Option.some.inj h
    have hmal : contUser hdr pak = [] := if_neg (getCont_eq_none hcont)
    exact ⟨.told _ _ failReply_not_pass, fun huser => ⟨huser.trans hmal.symm, rfl⟩⟩
  · next cont hcont =>
    obtain ⟨hlen, hmax, hdata, hmsg⟩ := getCont_eq_some hcont
    split at h
    · contradiction
    · next user huser =>
      obtain ⟨-, rfl⟩ := terminated_eq_some_iff.mp huser
      have hreadable : cont.userMsg = contUser hdr pak := by
        rw [contUser, if_pos ⟨hlen, hmax, hdata⟩, hmsg]
      simp only at h
      split at h
      · obtain rfl := Option.some.inj h
        exact ⟨.told _ _ failReply_not_pass, fun _ => ⟨hreadable, rfl⟩⟩
      · obtain rfl := Option.some.inj h
        exact ⟨.decided _ _ _ _ hreadable (.inl rfl) (by simp), fun _ => ⟨hreadable, rfl⟩⟩

/-- A CONTINUE packet with a password: it is checked for the session's user, who
stays. -/
theorem passwordStage_ok (h : passwordStage md5 env a hdr pak = some o) :
    Outcome md5 env a.user (contMsg pak) o ∧ o.authen.user = a.user := by
  unfold passwordStage at h
  split at h
  · contradiction
  · obtain rfl := Option.some.inj h
    exact ⟨.told _ _ failReply_not_pass, rfl⟩
  · next cont hcont =>
    obtain ⟨-, -, -, hmsg⟩ := getCont_eq_some hcont
    split at h
    · obtain rfl := Option.some.inj h
      exact ⟨.told _ _ no_reply_not_pass, rfl⟩
    · split at h
      · contradiction
      · next password hterm =>
        obtain ⟨hshort, rfl⟩ := terminated_eq_some_iff.mp hterm
        obtain rfl := Option.some.inj h
        cases hen : a.enReq
        · simp only [Bool.false_eq_true, if_false]
          refine ⟨.decided _ _ _ _ rfl (.inr (.inl ?_)) (by simp [failReply]), rfl⟩
          -- the buffer of the password is shorter than the one it is copied to
          show snprintf 253 cont.userMsg = contMsg pak
          rw [hmsg] at hshort ⊢
          exact snprintf_eq_self (zero_not_mem_cstr _) (by simp only [passwordLen] at hshort; omega)
        · simp only [if_true]
          exact ⟨.decided _ _ _ _ rfl (.inr (.inr hmsg)) (by simp [failReply]), rfl⟩

/-! ## Which stage a packet comes to -/

/-- Behind the first packet of a session: a user name is read up to number 4 while there
is none, a password up to number 7, and everything else is left without an answer. -/
theorem processAuthen_later {seq : ℕ} (hseq : 2 ≤ seq)
    (h : processAuthen md5 env loginstring pwdstring a peer seq hdr pak = some o) :
    (a.goesOn = true ∧ a.user = [] ∧ seq ≤ 4 ∧ userStage md5 env pwdstring a hdr pak = some o) ∨
    (a.goesOn = true ∧ (a.user = [] → 5 ≤ seq) ∧ seq ≤ 7 ∧
      passwordStage md5 env a hdr pak = some o) ∨
    ((a.goesOn = true → 8 ≤ seq) ∧ o = ⟨a, none, none⟩) := by
  unfold processAuthen at h
  rw [if_neg (by omega)] at h
  -- numbers 2 to 4, then 5 to 7, then the others
  split_ifs at h with hearly hgo huser hlate hgo'
  · exact .inl ⟨hgo, huser, hearly.2, h⟩
  · exact .inr (.inl ⟨hgo, fun hnil => absurd hnil huser, by omega, h⟩)
  · exact .inr (.inr ⟨fun hgo' => absurd hgo' hgo, (Option.some.inj h).symm⟩)
  · exact .inr (.inl ⟨hgo', fun _ => hlate.1, hlate.2, h⟩)
  · exact .inr (.inr ⟨fun hgo => absurd hgo hgo', (Option.some.inj h).symm⟩)
  · exact .inr (.inr ⟨fun _ => by omega, (Option.some.inj h).symm⟩)

end

end Tacppd
