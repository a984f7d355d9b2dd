/-
# A session

`TacacsSessionContainer` with its packet processor: `read_packet` takes a packet in,
`process` handles it by its type and sends at most one reply.  `receive` is the body of
the connection loop for one packet of a session, and a session is the machine with
this step.

What a step can do is said once, in `receive_ok`; the results about whole runs are made
from it.
-/
import Tacppd.Lib.Machine
import Tacppd.Reply

namespace Tacppd

/-! ## The parts of a session -/

/-- What a session is created with; the texts are cut to the buffers of
`TacacsPacketReader`, and the peer is the text of an address. -/
structure SessionConfig where
  sessionId : UInt32
  key : Bytes
  peer : Bytes
  loginstring : Bytes
  pwdstring : Bytes
  authoriz : Bool
  loginstring_fits : loginstring.length < 100
  pwdstring_fits : pwdstring.length < 100
  peer_fits : peer.length < ipLen

/-- The authorization handler of a session.  `freed` says that strings of an earlier
request have been freed while the pointers to them are still in place. -/
structure TacacsServerAuthorization where
  freed : Bool
  deriving DecidableEq, Repr

/-- The state of a session, class `TacacsSessionContainer`.  The handlers are made
with the first packet of their type; that of accounting keeps nothing that a later
packet reads. -/
structure TacacsSessionContainer where
  tac : TacacsPacket
  tacAuthen : Option TacacsServerAuthentication
  tacAuthor : Option TacacsServerAuthorization
  deriving DecidableEq, Repr

/-- A new packet processor. -/
def SessionConfig.packet (cfg : SessionConfig) : TacacsPacket where
  sessionId := cfg.sessionId
  seqNo := 0
  key := cfg.key
  peer := cfg.peer
  version := 0

def SessionConfig.new (cfg : SessionConfig) : TacacsSessionContainer := ⟨cfg.packet, none, none⟩

/-- One packet as it comes in: the header, and what `sockread` gets for the body, at
most the announced length.  The rest of the server is as it is at that moment. -/
structure Input where
  env : Env
  hdr : Hdr
  body : Bytes
  got : body.length ≤ hdr.len.toNat

/-- Why no further packet is processed. -/
inductive Stop
  /-- The connection is closed, and all its sessions are deleted. -/
  | closed
  /-- An exception that nobody catches. -/
  | terminated
  /-- Something without a meaning. -/
  | undefined
  deriving DecidableEq, Repr

/-- What one packet comes to: the check made for it, the replies, and the list handed to
`db_accounting`. -/
structure Processed where
  call : Option (AuthenCall × Bool)
  replies : List Sent
  accounting : Option (List Bytes)
  deriving DecidableEq, Repr

section

variable (md5 : Bytes → Digest) (cfg : SessionConfig)

/-! ## Reading -/

def tacPlusMajorVerMask : UInt8 := 0xf0

def tacPlusMajorVer : UInt8 := 0xc0

/-- `INT_MAX`. -/
def intMax : ℤ := 2147483647

/-- The tests of `read_packet_header` and `read_packet` that come before the body is
looked at, by the number `seqNo` this packet should have. -/
def readChecks (seqNo : ℕ) (i : Input) : Option Stop :=
  if i.hdr.version &&& tacPlusMajorVerMask ≠ tacPlusMajorVer then some .closed
  else if intMax < tacPlusHdrSize + i.hdr.len then some .undefined  -- `int` overflow
  else if 10000 < tacPlusHdrSize + i.hdr.len then some .closed
  else if tacPlusHdrSize + i.hdr.len + 3 < 0 then some .terminated  -- `new` throws
  else if (i.body.length : ℤ) ≠ i.hdr.len then some .closed
  else if seqNo ≠ i.hdr.seqNo.toNat then some .closed
  else none

/-- `read_packet`: the processor, and the buffer with the body in clear.  The buffer is
15 bytes longer than the body, and these are zero. -/
def TacacsPacket.readPacket (t : TacacsPacket) (i : Input) : Except Stop (TacacsPacket × Bytes) :=
  match readChecks (t.seqNo + 1) i with
  | some stop => .error stop
  | none =>
    let read := { t with seqNo := t.seqNo + 1 }.md5Xor md5 i.hdr i.body
    .ok (read.1, read.2.2 ++ List.replicate 15 0)

/-! ## Processing -/

/-- What `process` does with a packet, with the replies still to be numbered. -/
structure Reaction where
  tacAuthen : Option TacacsServerAuthentication
  tacAuthor : Option TacacsServerAuthorization
  call : Option (AuthenCall × Bool)
  replies : List Reply
  accounting : Option (List Bytes)

/-- A packet of a type the server does not know, or one that is not answered. -/
def TacacsSessionContainer.ignore (s : TacacsSessionContainer) : Reaction :=
  ⟨s.tacAuthen, s.tacAuthor, none, [], none⟩

/-- The part of `process` for authentication. -/
def TacacsSessionContainer.authen (s : TacacsSessionContainer) (i : Input) (pak : Bytes) :
    Option Reaction :=
  match processAuthen md5 i.env cfg.loginstring cfg.pwdstring
      (s.tacAuthen.getD TacacsServerAuthentication.new) cfg.peer s.tac.seqNo i.hdr pak with
  | none => none
  | some o =>
    match o.reply with
    | none => some ⟨some o.authen, s.tacAuthor, o.call, [], none⟩
    | some r =>
      match TacacsServerAuthentication.sendReply r.status r.serverMsg [] r.flag r.ver with
      | none => none
      | some reply => some ⟨some o.authen, s.tacAuthor, o.call, [reply], none⟩

/-- The part of `process` for authorization.  Only the first packet of a session has
the number 1, so the handler of a request is always a new one; at any later packet
the strings of the request would be freed a second time. -/
def TacacsSessionContainer.author (s : TacacsSessionContainer) (i : Input) (pak : Bytes) :
    Option Reaction :=
  let a := s.tacAuthor.getD ⟨false⟩
  match TacacsServerAuthorization.getRequest i.hdr pak with
  | none => none
  | some none => if a.freed then none else some ⟨s.tacAuthen, some a, none, [], none⟩
  | some (some req) =>
    let user := if req.user ≠ [] then req.user else str "DEFAULT"
    let dbd := dbAuthorization i.env user cfg.peer req.port req.remAddr
    match (authorize i.env cfg.authoriz dbd req).answer with
    | none => none
    | some answer =>
      match TacacsServerAuthorization.sendResponse answer.status [] [] answer.avpair with
      | none => none
      | some reply =>
        let freed := decide (req.avpair ≠ []) || decide (answer.avpair.getD [] ≠ [])
        some ⟨s.tacAuthen, some ⟨freed⟩, none, [reply], none⟩

/-- The part of `process` for accounting; the flag 0 is the return value of an error. -/
def TacacsSessionContainer.acct (s : TacacsSessionContainer) (i : Input) (pak : Bytes) :
    Option Reaction :=
  if s.tac.seqNo ≠ 1 then some s.ignore
  else
    match TacacsServerAccounting.getRequest cfg.peer i.hdr pak with
    | none => none
    | some none => some s.ignore
    | some (some req) =>
      if req.flag = 0 then some s.ignore
      else
        match TacacsServerAccounting.sendReply [] [] tacPlusAcctStatusSuccess, logavp req with
        | some reply, some lines => some ⟨s.tacAuthen, s.tacAuthor, none, [reply], some lines⟩
        | _, _ => none

/-- What `process` does with a packet, by its type. -/
def TacacsSessionContainer.react (s : TacacsSessionContainer) (i : Input) (pak : Bytes) :
    Option Reaction :=
  match selector i.hdr with
  | some .authen => s.authen md5 cfg i pak
  | some .author => s.author cfg i pak
  | some .acct => s.acct cfg i pak
  | none => some s.ignore

/-- `process`. -/
def TacacsSessionContainer.process (s : TacacsSessionContainer) (i : Input) (pak : Bytes) :
    Option (TacacsSessionContainer × Processed) :=
  match s.react md5 cfg i pak with
  | none => none
  | some r =>
    let sent := s.tac.sendAll md5 r.replies
    some (⟨sent.1, r.tacAuthen, r.tacAuthor⟩, ⟨r.call, sent.2, r.accounting⟩)

/-- The connection loop for one packet of this session. -/
def TacacsSessionContainer.receive (s : TacacsSessionContainer) (i : Input) :
    Except Stop (TacacsSessionContainer × Processed) :=
  match s.tac.readPacket md5 i with
  | .error stop => .error stop
  | .ok (tac, pak) =>
    match { s with tac := tac }.process md5 cfg i pak with
    | none => .error .undefined
    | some next => .ok next

/-- A session as a machine. -/
def session : Machine TacacsSessionContainer Input Processed Stop where
  init := cfg.new
  step := fun s i => s.receive md5 cfg i

end

/-! ## What a step can do -/

/-- A packet that passes the tests: the major version is right, the whole body is
there, it is not too long, and the number is the expected one. -/
structure Readable (seqNo : ℕ) (i : Input) : Prop where
  version : i.hdr.version &&& tacPlusMajorVerMask = tacPlusMajorVer
  whole : i.hdr.len = i.body.length
  short : tacPlusHdrSize + i.body.length ≤ 10000
  number : i.hdr.seqNo.toNat = seqNo

theorem readChecks_eq_none {seqNo : ℕ} {i : Input} (h : readChecks seqNo i = none) :
    Readable seqNo i := by
  unfold readChecks at h
  -- every test but the last branch has stopped the packet
  split_ifs at h with hver hover hlong hneg hbody hseq
  have hwhole : i.hdr.len = i.body.length := (not_not.mp hbody).symm
  refine ⟨not_not.mp hver, hwhole, ?_, (not_not.mp hseq).symm⟩
  rw [hwhole] at hlong
  omega

/-- The processor after a packet has been read. -/
def TacacsPacket.accept (t : TacacsPacket) (i : Input) : TacacsPacket :=
  { t with seqNo := t.seqNo + 1, version := i.hdr.version }

/-- The body of a packet in clear. -/
def TacacsPacket.decrypt (md5 : Bytes → Digest) (t : TacacsPacket) (i : Input) : Bytes :=
  (t.md5Xor md5 i.hdr i.body).2.2

/-- The body in clear depends on the session through its key only. -/
theorem TacacsPacket.decrypt_congr (md5 : Bytes → Digest) {t t' : TacacsPacket}
    (h : t.key = t'.key) (i : Input) : t.decrypt md5 i = t'.decrypt md5 i := by
  unfold decrypt
  rw [t.md5Xor_data, t'.md5Xor_data, h]

/-- A step that was taken: what `read_packet` has checked, what `process` does with the
packet, and the state and the output this gives. -/
structure Received (md5 : Bytes → Digest) (cfg : SessionConfig) (s : TacacsSessionContainer)
    (i : Input) (s' : TacacsSessionContainer) (o : Processed) (r : Reaction) : Prop where
  readable : Readable (s.tac.seqNo + 1) i
  react : { s with tac := s.tac.accept i }.react md5 cfg i
    (s.tac.decrypt md5 i ++ List.replicate 15 0) = some r
  state : s' = ⟨((s.tac.accept i).sendAll md5 r.replies).1, r.tacAuthen, r.tacAuthor⟩
  out : o = ⟨r.call, ((s.tac.accept i).sendAll md5 r.replies).2, r.accounting⟩

section

variable {md5 : Bytes → Digest} {cfg : SessionConfig} {s s' : TacacsSessionContainer} {i : Input}
  {o : Processed} {r : Reaction} {pak : Bytes}

theorem readPacket_ok {t t' : TacacsPacket} (h : t.readPacket md5 i = .ok (t', pak)) :
    Readable (t.seqNo + 1) i ∧ t' = t.accept i ∧
      pak = t.decrypt md5 i ++ List.replicate 15 0 := by
  unfold TacacsPacket.readPacket at h
  split at h
  · contradiction
  · next hchecks =>
    obtain ⟨ht, hpak⟩ := Prod.mk.inj (Except.ok.inj h)
    have hkey : ({ t with seqNo := t.seqNo + 1 } : TacacsPacket).key = t.key := rfl
    refine ⟨readChecks_eq_none hchecks, ?_, ?_⟩
    · rw [← ht, TacacsPacket.md5Xor_key]
      rfl
    · rw [← hpak, ← TacacsPacket.decrypt_congr md5 hkey i]
      rfl

theorem receive_ok (h : s.receive md5 cfg i = .ok (s', o)) : ∃ r, Received md5 cfg s i s' o r := by
  unfold TacacsSessionContainer.receive at h
  split at h
  · contradiction
  · next tac pak hread =>
    obtain ⟨hreadable, rfl, rfl⟩ := readPacket_ok hread
    split at h
    · contradiction
    · next next hprocess =>
      obtain rfl := Except.ok.inj h
      unfold TacacsSessionContainer.process at hprocess
      split at hprocess
      · contradiction
      · next r hreact =>
        obtain ⟨hstate, hout⟩ := Prod.mk.inj (Option.some.inj hprocess)
        exact ⟨r, hreadable, hreact, hstate.symm, hout.symm⟩

/-! ## One reply at most -/

theorem authen_replies (h : s.authen md5 cfg i pak = some r) : r.replies.length ≤ 1 := by
  unfold TacacsSessionContainer.authen at h
  split at h
  · contradiction
  · split at h
    · obtain rfl := Option.some.inj h
      simp
    · split at h
      · contradiction
      · obtain rfl := Option.some.inj h
        simp

theorem author_replies (h : s.author cfg i pak = some r) : r.replies.length ≤ 1 := by
  unfold TacacsSessionContainer.author at h
  simp only at h
  split at h
  · contradiction
  · split at h
    · contradiction
    · obtain rfl := Option.some.inj h
      simp
  · split at h
    · contradiction
    · split at h
      · contradiction
      · obtain rfl := Option.some.inj h
        simp

theorem acct_replies (h : s.acct cfg i pak = some r) : r.replies.length ≤ 1 := by
  unfold TacacsSessionContainer.acct at h
  split at h
  · obtain rfl := Option.some.inj h
    simp [TacacsSessionContainer.ignore]
  · split at h
    · contradiction
    · obtain rfl := Option.some.inj h
      simp [TacacsSessionContainer.ignore]
    · split at h
      · obtain rfl := Option.some.inj h
        simp [TacacsSessionContainer.ignore]
      · split at h
        · obtain rfl := Option.some.inj h
          simp
        · contradiction

/-- **A packet is answered at most once**, whatever its type. -/
theorem react_replies (h : s.react md5 cfg i pak = some r) : r.replies.length ≤ 1 := by
  unfold TacacsSessionContainer.react at h
  split at h
  · exact authen_replies h
  · exact author_replies h
  · exact acct_replies h
  · obtain rfl := Option.some.inj h
    simp [TacacsSessionContainer.ignore]

/-! ## What every step keeps -/

theorem Received.key (h : Received md5 cfg s i s' o r) : s'.tac.key = s.tac.key := by
  rw [h.state]
  show ((s.tac.accept i).sendAll md5 r.replies).1.key = s.tac.key
  rw [TacacsPacket.sendAll_key]
  rfl

theorem Received.length_replies (h : Received md5 cfg s i s' o r) :
    o.replies.length = r.replies.length := by
  rw [h.out]
  exact TacacsPacket.length_sendAll ..

theorem Received.replies (h : Received md5 cfg s i s' o r) : o.replies.length ≤ 1 := by
  rw [h.length_replies]
  exact react_replies h.react

/-- The counter goes up by one for the packet and by one for each reply. -/
theorem Received.seqNo (h : Received md5 cfg s i s' o r) :
    s'.tac.seqNo = s.tac.seqNo + 1 + o.replies.length := by
  rw [h.length_replies, h.state]
  show ((s.tac.accept i).sendAll md5 r.replies).1.seqNo = _
  rw [TacacsPacket.sendAll_seqNo]
  rfl

/-- The replies carry the numbers after the packet's. -/
theorem Received.numbers (h : Received md5 cfg s i s' o r) :
    o.replies.map (·.wireHdr.seqNo) =
      (List.range' (s.tac.seqNo + 2) o.replies.length).map UInt8.ofNat := by
  rw [h.length_replies, h.out]
  show ((s.tac.accept i).sendAll md5 r.replies).2.map (·.wireHdr.seqNo) = _
  rw [TacacsPacket.sendAll_numbers]
  rfl

end

/-! ## A short session -/

/-- A session that is not encrypted. -/
def clearSession : SessionConfig where
  sessionId := 5
  key := str "none"
  peer := str "10.0.0.1"
  loginstring := str "login:"
  pwdstring := str "password:"
  authoriz := false
  loginstring_fits := by decide
  pwdstring_fits := by decide
  peer_fits := by decide

/-- The ASCII login of a user who needs no password. -/
def bobLogin : Input where
  env := quietEnv (openUser [] [] [])
  hdr := ⟨tacPlusVer0, 1, 1, tacPlusClear, 5, 11⟩
  body := [1, 0, 1, 1, 3, 0, 0, 0] ++ str "bob"
  got := by decide

/-- What it comes to. -/
def bobPassed : Processed where
  call := some (⟨str "bob", nullPassword, [], str "10.0.0.1", [], []⟩, true)
  replies := [⟨⟨tacPlusVer0, 1, 2, tacPlusClear, 5, 6⟩, [1, 1, 0, 0, 0, 0],
    ⟨tacPlusVer0, 1, 2, tacPlusClear, 5, 6⟩, [1, 1, 0, 0, 0, 0]⟩]
  accounting := none

theorem history_bobLogin : (session (fun _ => constDigest 0) clearSession).history [bobLogin] =
    [(bobLogin, bobPassed)] := rfl

end Tacppd
