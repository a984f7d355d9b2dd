/-
# Replies there and back

The `send_reply` of authentication and of accounting, and on the client
`authen_get_reply` and `account_get_reply`.  The two readers report what they have found
by throwing it to a handler of their own, but they throw an `unsigned char` where the
handler takes an `int`, and a `const char *` where it takes a `char *`.

No authentication reply comes back, and no malformed reply gives the result that is
documented for it; an accounting reply comes back if and only if there is a zero behind
each of the two texts (`reply_roundtrip_iff`).
-/
import Tacppd.Client
import Tacppd.Wire

namespace Tacppd

open Guarded

/-! ## The server -/

/-- `TacacsServerAuthentication::send_reply` step by step, for every status. -/
def TacacsServerAuthentication.writeReply (status : ℤ) (serverMsg data : Bytes)
    (flag ver : UInt8) : Option Reply :=
  (writeTwoTexts (replyBufLen - tacPlusHdrSize)
    ([UInt8.ofInt status, flag] ++ htons serverMsg.length ++ htons data.length) serverMsg
    data).map fun body => ⟨ver, .authen, body⟩

/-- `TacacsServerAccounting::send_reply` step by step, for every status. -/
def TacacsServerAccounting.writeReply (serverMsg data : Bytes) (status : ℤ) : Option Reply :=
  (writeTwoTexts (replyBufLen - tacPlusHdrSize)
    (hostShort serverMsg.length ++ hostShort data.length ++ [UInt8.ofInt status]) serverMsg
    data).map fun body => ⟨tacPlusVer0, .acct, body⟩

section

variable {serverMsg data fixed : Bytes} {flag ver : UInt8} {type : PacketType}

/-- One terminator for both texts is room enough. -/
theorem writeTwoTexts_eq_inReplyBuf (hfixed : fixed.length ≤ 6) :
    (writeTwoTexts (replyBufLen - tacPlusHdrSize) fixed serverMsg data).map
        (fun body => (⟨ver, type, body⟩ : Reply)) =
      inReplyBuf ver type (fixed ++ serverMsg ++ data) 1 := by
  ext r
  rw [Option.map_eq_some_iff, inReplyBuf, replyBufLen, tacPlusHdrSize]
  simp only [writeTwoTexts_eq, List.length_append]
  have hnil : ∀ s : Bytes, s = [] ↔ s.length = 0 := fun s => List.length_eq_zero_iff.symm
  rw [hnil, hnil]
  split
  · next hlong =>
    refine iff_of_false ?_ (by simp)
    rintro ⟨body, ⟨⟨-, hmsg, hdata⟩, -⟩, -⟩
    omega
  · next hfits =>
    rw [Option.some.injEq]
    constructor
    · rintro ⟨body, ⟨-, rfl⟩, hr⟩
      exact hr
    · rintro rfl
      exact ⟨_, ⟨⟨by omega, by omega, by omega⟩, rfl⟩, rfl⟩

/-- For the statuses the server sends these are the packets of the two `sendReply`. -/
theorem authenSendReply_eq (status : AuthenStatus) :
    TacacsServerAuthentication.sendReply status serverMsg data flag ver =
      TacacsServerAuthentication.writeReply status.code.toNat serverMsg data flag ver := by
  have hcode : UInt8.ofInt status.code.toNat = status.code := by cases status <;> rfl
  rw [TacacsServerAuthentication.writeReply, hcode, writeTwoTexts_eq_inReplyBuf (by simp [htons])]
  rfl

theorem acctSendReply_eq (status : UInt8) :
    TacacsServerAccounting.sendReply serverMsg data status =
      TacacsServerAccounting.writeReply serverMsg data status.toNat := by
  have hcode : UInt8.ofInt status.toNat = status := by
    apply UInt8.toNat_inj.mp
    have hbyte := (toNat_ofInt_eq_iff status.toNat).mpr ⟨by omega, by
      have hlt := status.toNat_lt
      omega⟩
    exact Int.ofNat.inj hbyte
  rw [TacacsServerAccounting.writeReply, hcode, writeTwoTexts_eq_inReplyBuf (by simp [hostShort])]
  rfl

end

/-! ## The client -/

/-- What a call of one of the readers comes to. -/
inductive ClientOutcome
  /-- The return value, and the two buffers of the caller. -/
  | returned (ret : ℤ) (serverMsg data : Bytes)
  /-- An exception that none of the handlers takes. -/
  | escaped
  deriving DecidableEq, Repr

/-- `bzero(server, sizeof(server))` on a pointer: 8 bytes are cleared, whatever the size
of the buffer. -/
def clearPointer (buf : Bytes) : Option Bytes := write buf 0 (List.replicate 8 0)

/-- `if(n > 0) strncpy(buf, body + off, n)`. -/
def copyField (body buf : Bytes) (off n : ℕ) : Option Bytes :=
  if 0 < n then copyUntil 0 body buf off 0 n else some buf

/-- `authen_get_reply` behind `read_packet`; `server` and `datas` are the buffers of the
caller. -/
def authenReadReply (server datas : Bytes) (hdr : Hdr) (body : Bytes) : Option ClientOutcome := do
  let mlen ← netShortAt body 2
  let dlen ← netShortAt body 4
  let server ← clearPointer server
  let datas ← clearPointer datas
  if hdr.len ≠ 6 + mlen + dlen then some (.returned 0 server datas)
  else do
    let _server ← copyField body server 6 mlen
    let _datas ← copyField body datas (6 + mlen) dlen
    let _status ← body[0]?
    some .escaped  -- `throw rep->status` is an `unsigned char`, the handler takes an `int`

/-- `account_get_reply` behind `read_packet`. -/
def accountReadReply (serverMsg data : Bytes) (hdr : Hdr) (body : Bytes) : Option ClientOutcome :=
  -- each `throw` of a text is a `const char *`, the handler takes a `char *`
  if hdr.type ≠ PacketType.acct.code then some .escaped
  else if hdr.seqNo ≠ 2 then some .escaped
  else do
    let msgLen ← hostShortAt body 0
    let dataLen ← hostShortAt body 2
    if hdr.len ≠ 5 + msgLen + dataLen then some .escaped
    else do
      let status ← body[4]?
      let serverMsg ← clearPointer serverMsg
      let serverMsg ← copyUntil 0 body serverMsg 5 0 msgLen
      let data ← clearPointer data
      let data ← copyUntil 0 body data (5 + msgLen) 0 dataLen
      some (.returned status.toNat serverMsg data)

section

variable (md5 : Bytes → Digest) (t : TacacsPacket) (server datas : Bytes) (hdr : Hdr)
  (stream : Bytes)

/-- `TacacsClient::authen_get_reply`. -/
def authenGetReply : Option ClientOutcome :=
  match (t.readPacketWhole md5 hdr stream).result with
  | .packet _ body => authenReadReply server datas hdr body
  | .failed => some (.returned 0 server datas)
  | .threw => some .escaped
  | .undefined => none

/-- `TacacsClient::account_get_reply`. -/
def accountGetReply : Option ClientOutcome :=
  match (t.readPacketWhole md5 hdr stream).result with
  | .packet _ body => accountReadReply server datas hdr body
  | .failed => some (.returned (-1) server datas)
  | .threw => some .escaped
  | .undefined => none

end

/-- The reader has returned this status, and the buffers hold these texts. -/
def Returned (status : ℤ) (serverMsg data : Bytes) (outcome : Option ClientOutcome) : Prop :=
  ∃ server datas, outcome = some (.returned status server datas) ∧ cstr server = serverMsg ∧
    cstr datas = data

/-- The reader has returned this number, with whatever there is in the buffers. -/
def ReturnedError (ret : ℤ) (outcome : Option ClientOutcome) : Prop :=
  ∃ server datas, outcome = some (.returned ret server datas)

/-! ## The caller's buffers -/

section

variable {s buf body : Bytes}

/-- Behind the text there is a zero, one of the eight that are cleared or one that has
been in the buffer before. -/
def EndsAt (s buf : Bytes) : Prop := s.length < 8 ∨ buf.getD s.length 0 = 0

instance (s buf : Bytes) : Decidable (EndsAt s buf) := inferInstanceAs (Decidable (_ ∨ _))

/-- A buffer whose first eight bytes are cleared. -/
def cleared (buf : Bytes) : Bytes := List.replicate 8 0 ++ buf.drop 8

theorem clearPointer_eq (h : 8 ≤ buf.length) : clearPointer buf = some (cleared buf) := by
  have hwrite := write_append [] buf (List.replicate 8 0)
  rw [List.length_replicate, if_pos h] at hwrite
  exact hwrite

theorem length_cleared (h : 8 ≤ buf.length) : (cleared buf).length = buf.length := by
  rw [cleared, List.length_append, List.length_replicate, List.length_drop]
  omega

theorem cstr_eq_nil_iff (l : Bytes) : cstr l = [] ↔ l.getD 0 0 = 0 := by
  cases l with
  | nil => simp
  | cons b l => by_cases hb : b = 0 <;> simp [cstr, hb]

/-- The buffer holds the text that was copied to it if and only if there is a zero behind
it. -/
theorem cstr_copied_iff (h0 : (0 : UInt8) ∉ s) :
    cstr (s ++ (cleared buf).drop s.length) = s ↔ EndsAt s buf := by
  have happend : cstr (s ++ (cleared buf).drop s.length) =
      s ++ cstr ((cleared buf).drop s.length) := cstr_append h0 _
  have hbehind : ((cleared buf).drop s.length).getD 0 0 =
      if s.length < 8 then 0 else buf.getD s.length 0 := by
    simp only [List.getD_eq_getElem?_getD, List.getElem?_drop, Nat.add_zero, cleared]
    split
    · next hlt =>
      rw [List.getElem?_append_left (by rwa [List.length_replicate]), List.getElem?_replicate,
        if_pos hlt]
      rfl
    · next hge =>
      rw [List.getElem?_append_right (by rw [List.length_replicate]; omega),
        List.length_replicate, List.getElem?_drop]
      congr 2
      omega
  rw [happend, List.append_right_eq_self, cstr_eq_nil_iff, hbehind, EndsAt]
  split
  · next hlt => exact iff_of_true rfl (Or.inl hlt)
  · next hge => rw [or_iff_right hge]

/-- A text of the packet, copied without a terminator. -/
theorem copyUntil_cleared {off : ℕ} (h : Holds body off s) (h0 : (0 : UInt8) ∉ s)
    (h8 : 8 ≤ buf.length) (hroom : s.length ≤ buf.length) :
    copyUntil 0 body (cleared buf) off 0 s.length = some (s ++ (cleared buf).drop s.length) := by
  rw [copyUntil_zero_eq_some_iff, copied, h.text_eq h0, Nat.sub_self, List.replicate_zero,
    List.append_nil, length_cleared h8]
  exact ⟨⟨h.readable 0, hroom⟩, rfl⟩

end

/-! ## Authentication -/

section

variable {server datas body : Bytes} {hdr : Hdr}

/-- The only value that is returned is 0, for lengths that do not fit. -/
theorem authenReadReply_returned {ret : ℤ} {s d : Bytes}
    (h : authenReadReply server datas hdr body = some (.returned ret s d)) :
    ret = 0 ∧ ∃ mlen dlen, netShortAt body 2 = some mlen ∧ netShortAt body 4 = some dlen ∧
      hdr.len ≠ 6 + mlen + dlen := by
  rw [authenReadReply] at h
  simp only [Option.bind_eq_bind, Option.bind_eq_some_iff] at h
  obtain ⟨mlen, hm, dlen, hd, server', -, datas', -, h⟩ := h
  split at h
  · next hne =>
    obtain ⟨rfl, -, -⟩ := ClientOutcome.returned.inj (Option.some.inj h)
    exact ⟨rfl, mlen, dlen, hm, hd, hne⟩
  · simp only [Option.bind_eq_some_iff] at h
    obtain ⟨_, -, _, -, _, -, h⟩ := h
    simp at h

/-- Nothing but 0 is ever returned. -/
theorem authenGetReply_returned {md5 : Bytes → Digest} {t : TacacsPacket} {stream : Bytes}
    {ret : ℤ} {s d : Bytes}
    (h : authenGetReply md5 t server datas hdr stream = some (.returned ret s d)) : ret = 0 := by
  rw [authenGetReply] at h
  split at h
  · exact (authenReadReply_returned h).1
  · obtain ⟨rfl, -, -⟩ := ClientOutcome.returned.inj (Option.some.inj h)
    rfl
  · simp at h
  · contradiction

end

/-- The two texts of a reply behind `fixed`. -/
structure ReplyLayout (body fixed serverMsg data : Bytes) : Prop where
  fixedAt : Holds body 0 fixed
  serverMsgAt : Holds body fixed.length serverMsg
  dataAt : Holds body (fixed.length + serverMsg.length) data

theorem slack_layout (fixed serverMsg data : Bytes) (k : ℕ) :
    ReplyLayout (slack (fixed ++ serverMsg ++ data) k) fixed serverMsg data := by
  have h : Holds (slack (fixed ++ serverMsg ++ data) k) 0 (fixed ++ serverMsg ++ data) :=
    List.prefix_append _ _
  simp only [holds_append_iff, List.length_append, Nat.zero_add] at h
  obtain ⟨⟨hfixed, hmsg⟩, hdata⟩ := h
  exact ⟨hfixed, hmsg, hdata⟩

section

variable {md5 : Bytes → Digest} {t t' : TacacsPacket} {status : ℤ} {serverMsg data : Bytes}
  {server datas : Bytes} {r : Reply}

/-- A reply of the server is not returned. -/
theorem authenGetReply_not_returned (hkey : t'.key = t.key) (hseq : t'.seqNo = t.seqNo)
    (hnum : t.seqNo < 255) {flag ver : UInt8}
    (hver : ver &&& tacPlusMajorVerMask = tacPlusMajorVer)
    (hsend : TacacsServerAuthentication.writeReply status serverMsg data flag ver = some r)
    (more : Bytes) :
    ¬ Returned status serverMsg data (authenGetReply md5 t' server datas
      (t.send md5 r).2.wireHdr ((t.send md5 r).2.wireBody ++ more)) := by
  rw [TacacsServerAuthentication.writeReply, writeTwoTexts_eq_inReplyBuf (by simp [htons])] at hsend
  obtain ⟨hr, hle⟩ := inReplyBuf_eq_some hsend
  have hbody : r.body = [UInt8.ofInt status, flag] ++ htons serverMsg.length ++
      htons data.length ++ serverMsg ++ data := by rw [hr]
  have hlen := wireHdr_len md5 (t := t) (r := r) (by rw [hbody]; omega)
  have htotal : r.body.length = 6 + serverMsg.length + data.length := by
    rw [hbody]
    simp only [List.length_append, htons, List.length_cons, List.length_nil]
  rw [← hbody, htotal] at hle
  have hlay := slack_layout ([UInt8.ofInt status, flag] ++ htons serverMsg.length ++
    htons data.length) serverMsg data 3
  rw [← hbody] at hlay
  have hfixed := hlay.fixedAt
  simp only [holds_append_iff] at hfixed
  obtain ⟨⟨-, hmlen⟩, hdlen⟩ := hfixed
  have hread := readPacketWhole_send md5 hkey hseq hnum (r := r) (by omega)
    (by rw [hr]; exact hver) more
  rintro ⟨s, d, hout, -⟩
  rw [authenGetReply, hread] at hout
  obtain ⟨-, mlen, dlen, hm, hd, hne⟩ := authenReadReply_returned hout
  have hm' : netShortAt (slack r.body 3) 2 = some serverMsg.length :=
    netShortAt_of_holds hmlen (by omega)
  have hd' : netShortAt (slack r.body 3) 4 = some data.length :=
    netShortAt_of_holds hdlen (by omega)
  obtain rfl := Option.some.inj (hm'.symm.trans hm)
  obtain rfl := Option.some.inj (hd'.symm.trans hd)
  apply hne
  rw [hlen, htotal]
  push_cast
  rfl

end

/-! ## Accounting -/

/-- The packet is one that `account_get_reply` accepts. -/
def AcctReplyOk (hdr : Hdr) (body : Bytes) : Prop :=
  hdr.type = PacketType.acct.code ∧ hdr.seqNo = 2 ∧
    ∃ msgLen dataLen, hostShortAt body 0 = some msgLen ∧ hostShortAt body 2 = some dataLen ∧
      hdr.len = 5 + msgLen + dataLen

section

variable {md5 : Bytes → Digest} {t t' : TacacsPacket} {status : ℤ} {serverMsg data : Bytes}
  {server datas : Bytes} {r : Reply} {hdr : Hdr} {body : Bytes}

/-- Only packets that are accepted give a return value. -/
theorem accountReadReply_returned {ret : ℤ} {s d : Bytes}
    (h : accountReadReply server datas hdr body = some (.returned ret s d)) :
    AcctReplyOk hdr body := by
  rw [accountReadReply] at h
  split at h
  · simp at h
  next htype =>
    split at h
    · simp at h
    next hseq =>
      simp only [Option.bind_eq_bind, Option.bind_eq_some_iff] at h
      obtain ⟨msgLen, hm, dataLen, hd, h⟩ := h
      split at h
      · simp at h
      next hlen =>
        exact ⟨not_not.mp htype, not_not.mp hseq, msgLen, dataLen, hm, hd, not_not.mp hlen⟩

/-- A packet that is not accepted does not give the result 0. -/
theorem accountGetReply_not_zero {stream : Bytes}
    (hbad : ∀ t'' body, (t.readPacketWhole md5 hdr stream).result = .packet t'' body →
      ¬ AcctReplyOk hdr body) :
    ¬ ReturnedError 0 (accountGetReply md5 t server datas hdr stream) := by
  rintro ⟨s, d, hout⟩
  rw [accountGetReply] at hout
  split at hout
  · next t'' body hread => exact hbad t'' body hread (accountReadReply_returned hout)
  · simp at hout
  · simp at hout
  · contradiction

/-- What the client makes of a reply of the server. -/
theorem accountReadReply_eq (hlay : ReplyLayout body
      (hostShort serverMsg.length ++ hostShort data.length ++ [UInt8.ofInt status]) serverMsg data)
    (hmsg : (0 : UInt8) ∉ serverMsg) (hdata : (0 : UInt8) ∉ data)
    (hserver : serverMsg.length < server.length ∧ 8 ≤ server.length)
    (hdatas : data.length < datas.length ∧ 8 ≤ datas.length)
    (hshort : serverMsg.length + data.length ≤ 500) (htype : hdr.type = PacketType.acct.code)
    (hseq : hdr.seqNo = 2) (hlen : hdr.len = 5 + serverMsg.length + data.length) :
    accountReadReply server datas hdr body =
      some (.returned (UInt8.ofInt status).toNat
        (serverMsg ++ (cleared server).drop serverMsg.length)
        (data ++ (cleared datas).drop data.length)) := by
  have hfixed := hlay.fixedAt
  simp only [holds_append_iff, holds_cons_iff] at hfixed
  obtain ⟨⟨hmlen, hdlen⟩, hstatus, -⟩ := hfixed
  have hm : hostShortAt body 0 = some serverMsg.length := hostShortAt_of_holds hmlen (by omega)
  have hd : hostShortAt body 2 = some data.length := hostShortAt_of_holds hdlen (by omega)
  have hs : body[4]? = some (UInt8.ofInt status) := hstatus
  have hmsgAt : Holds body 5 serverMsg := hlay.serverMsgAt
  have hdataAt : Holds body (5 + serverMsg.length) data := hlay.dataAt
  rw [accountReadReply, if_neg (not_not.mpr htype), if_neg (not_not.mpr hseq), hm, hd]
  simp only [Option.bind_eq_bind, Option.bind_some]
  rw [if_neg (not_not.mpr hlen), hs, Option.bind_some, clearPointer_eq hserver.2, Option.bind_some,
    copyUntil_cleared hmsgAt hmsg hserver.2 hserver.1.le, Option.bind_some,
    clearPointer_eq hdatas.2, Option.bind_some,
    copyUntil_cleared hdataAt hdata hdatas.2 hdatas.1.le, Option.bind_some]

/-- A reply of the server is returned if and only if the status is a byte and both
buffers have a zero behind the text. -/
theorem accountGetReply_returned_iff (hkey : t'.key = t.key) (hseq : t'.seqNo = t.seqNo)
    (hnum : t.seqNo = 1) (hmsg : (0 : UInt8) ∉ serverMsg) (hdata : (0 : UInt8) ∉ data)
    (hserver : serverMsg.length < server.length ∧ 8 ≤ server.length)
    (hdatas : data.length < datas.length ∧ 8 ≤ datas.length)
    (hsend : TacacsServerAccounting.writeReply serverMsg data status = some r) (more : Bytes) :
    Returned status serverMsg data (accountGetReply md5 t' server datas (t.send md5 r).2.wireHdr
        ((t.send md5 r).2.wireBody ++ more)) ↔
      (0 ≤ status ∧ status < 256) ∧ EndsAt serverMsg server ∧ EndsAt data datas := by
  rw [TacacsServerAccounting.writeReply, writeTwoTexts_eq_inReplyBuf (by simp [hostShort])] at hsend
  obtain ⟨hr, hle⟩ := inReplyBuf_eq_some hsend
  have hbody : r.body = hostShort serverMsg.length ++ hostShort data.length ++
      [UInt8.ofInt status] ++ serverMsg ++ data := by rw [hr]
  have htotal : r.body.length = 5 + serverMsg.length + data.length := by
    rw [hbody]
    simp only [List.length_append, hostShort, List.length_cons, List.length_nil]
  rw [← hbody, htotal] at hle
  have hlen := wireHdr_len md5 (t := t) (r := r) (by omega)
  have htype : (t.send md5 r).2.wireHdr.type = PacketType.acct.code := by
    rw [wireHdr_type, hr]
  have hwire := wireHdr_seqNo_second md5 (r := r) hnum
  have hlay := slack_layout (hostShort serverMsg.length ++ hostShort data.length ++
    [UInt8.ofInt status]) serverMsg data 3
  rw [← hbody] at hlay
  have hread := readPacketWhole_send md5 hkey hseq (by omega) (r := r) (by omega)
    (by rw [hr]; exact tacPlusVer0_major) more
  rw [htotal] at hlen
  have hout := accountReadReply_eq hlay hmsg hdata hserver hdatas (by omega) htype hwire
    (by rw [hlen]; push_cast; rfl)
  rw [accountGetReply, hread]
  simp only
  rw [hout, Returned]
  constructor
  · rintro ⟨s, d, h, hs, hd⟩
    obtain ⟨hret, rfl, rfl⟩ := ClientOutcome.returned.inj (Option.some.inj h)
    exact ⟨(toNat_ofInt_eq_iff status).mp hret, (cstr_copied_iff hmsg).mp hs,
      (cstr_copied_iff hdata).mp hd⟩
  · rintro ⟨hbyte, hs, hd⟩
    rw [(toNat_ofInt_eq_iff status).mpr hbyte]
    exact ⟨_, _, rfl, (cstr_copied_iff hmsg).mpr hs, (cstr_copied_iff hdata).mpr hd⟩

end

/-! ## Both replies -/

/-- For every status, message and data, and buffers of the caller with room for them and
a terminator: no authentication reply is returned; whatever packet there is,
`authen_get_reply` never returns -1, which is documented for a failure; an accounting
reply is returned if and only if the status is a byte and there is a zero behind each
text; no other packet makes `account_get_reply` return 0, which is documented for a
failure. -/
theorem reply_roundtrip_iff (md5 : Bytes → Digest) {t t' : TacacsPacket} (hkey : t'.key = t.key)
    (hseq : t'.seqNo = t.seqNo) (status : ℤ) {serverMsg data server datas : Bytes}
    (hmsg : (0 : UInt8) ∉ serverMsg) (hdata : (0 : UInt8) ∉ data)
    (hserver : serverMsg.length < server.length ∧ 8 ≤ server.length)
    (hdatas : data.length < datas.length ∧ 8 ≤ datas.length) :
    (t.seqNo < 255 → ∀ flag ver r more, ver &&& tacPlusMajorVerMask = tacPlusMajorVer →
      TacacsServerAuthentication.writeReply status serverMsg data flag ver = some r →
      ¬ Returned status serverMsg data (authenGetReply md5 t' server datas
        (t.send md5 r).2.wireHdr ((t.send md5 r).2.wireBody ++ more))) ∧
    (∀ hdr stream, ¬ ReturnedError (-1) (authenGetReply md5 t' server datas hdr stream)) ∧
    (t.seqNo = 1 → ∀ r more, TacacsServerAccounting.writeReply serverMsg data status = some r →
      (Returned status serverMsg data (accountGetReply md5 t' server datas
          (t.send md5 r).2.wireHdr ((t.send md5 r).2.wireBody ++ more)) ↔
        (0 ≤ status ∧ status < 256) ∧ EndsAt serverMsg server ∧ EndsAt data datas)) ∧
    ∀ hdr stream, (∀ t'' body, (t'.readPacketWhole md5 hdr stream).result = .packet t'' body →
        ¬ AcctReplyOk hdr body) →
      ¬ ReturnedError 0 (accountGetReply md5 t' server datas hdr stream) := by
  refine ⟨fun hnum flag ver r more hver hsend => ?_, fun hdr stream => ?_,
    fun hnum r more hsend => ?_, fun hdr stream hbad => ?_⟩
  · exact authenGetReply_not_returned hkey hseq hnum hver hsend more
  · rintro ⟨s, d, hout⟩
    have hret := authenGetReply_returned hout
    contradiction
  · exact accountGetReply_returned_iff hkey hseq hnum hmsg hdata hserver hdatas hsend more
  · exact accountGetReply_not_zero hbad

/-- A client and a server after the request. -/
def replySession : TacacsPacket := ⟨1, 1, str "tacacs", [], 0⟩

/-- The answer to an accounting request. -/
theorem reply_roundtrip_acct :
    ∃ r, TacacsServerAccounting.writeReply [] [] 1 = some r ∧
      Returned 1 [] [] (accountGetReply (fun _ => constDigest 7) replySession
        (List.replicate 16 1) (List.replicate 16 1)
        (replySession.send (fun _ => constDigest 7) r).2.wireHdr
        ((replySession.send (fun _ => constDigest 7) r).2.wireBody ++ [])) := by
  have hsend : TacacsServerAccounting.writeReply [] [] 1 =
      some ⟨tacPlusVer0, .acct, [0, 0, 0, 0, 1]⟩ := by
    decide +kernel
  have hroundtrip := @reply_roundtrip_iff (fun _ => constDigest 7) replySession replySession rfl rfl
    1 [] [] (List.replicate 16 1) (List.replicate 16 1) (by simp) (by simp) (by decide) (by decide)
  exact ⟨_, hsend, (hroundtrip.2.2.1 rfl _ [] hsend).mpr ⟨by decide, by decide, by decide⟩⟩

/-- A PASS without a text. -/
def passPacket : Reply := ⟨tacPlusVer0, .authen, [1, 1, 0, 0, 0, 0]⟩

/-- The exception leaves both readers of this packet, though the one is handed a valid
reply, and the other one a packet of the wrong type. -/
theorem reply_roundtrip_escaped :
    ∃ r, TacacsServerAuthentication.writeReply 1 [] [] 1 tacPlusVer0 = some r ∧
      (let hdr := (replySession.send (fun _ => constDigest 7) r).2.wireHdr
        let stream := (replySession.send (fun _ => constDigest 7) r).2.wireBody
        let buf := List.replicate 16 0
        (authenGetReply (fun _ => constDigest 7) replySession buf buf hdr stream = some .escaped ∧
          ¬ Returned 1 [] []
            (authenGetReply (fun _ => constDigest 7) replySession buf buf hdr stream)) ∧
        accountGetReply (fun _ => constDigest 7) replySession buf buf hdr stream = some .escaped ∧
          ¬ ReturnedError 0
            (accountGetReply (fun _ => constDigest 7) replySession buf buf hdr stream)) := by
  have hauthen : authenGetReply (fun _ => constDigest 7) replySession (List.replicate 16 0)
      (List.replicate 16 0)
      (replySession.send (fun _ => constDigest 7) passPacket).2.wireHdr
      (replySession.send (fun _ => constDigest 7) passPacket).2.wireBody
      = some .escaped := by decide +kernel
  have hacct : accountGetReply (fun _ => constDigest 7) replySession (List.replicate 16 0)
      (List.replicate 16 0)
      (replySession.send (fun _ => constDigest 7) passPacket).2.wireHdr
      (replySession.send (fun _ => constDigest 7) passPacket).2.wireBody
      = some .escaped := by decide +kernel
  refine ⟨passPacket, by decide +kernel, ⟨hauthen, ?_⟩, hacct, ?_⟩
  · rintro ⟨s, d, hout, -⟩
    exact ClientOutcome.noConfusion (Option.some.inj (hauthen.symm.trans hout))
  · rintro ⟨s, d, hout⟩
    exact ClientOutcome.noConfusion (Option.some.inj (hacct.symm.trans hout))

end Tacppd
