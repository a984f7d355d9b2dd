/-
# The reply writers

`send_reply` of authentication, `send_response` of authorization and `send_reply` of
accounting, with `TacacsPacket::write_packet`.  Each of the three takes the next
sequence number, fills a header and a body in a buffer of 512 bytes, and writes the
packet.  What they differ in is a `Reply`; the rest is `TacacsPacket.send`.
-/
import Tacppd.Authen
import Tacppd.Request

namespace Tacppd

/-! ## The packets -/

/-- What a reply writer puts into its packet besides sequence number and session. -/
structure Reply where
  version : UInt8
  type : PacketType
  body : Bytes
  deriving DecidableEq, Repr

/-- A short number in network order. -/
def htons (n : ℕ) : Bytes := [UInt8.ofNat (n / 256), UInt8.ofNat n]

/-- A short number as it stands in the memory of a little-endian machine. -/
def hostShort (n : ℕ) : Bytes := [UInt8.ofNat n, UInt8.ofNat (n / 256)]

/-- A packet in the buffer of a reply writer, which also needs `extra` bytes after the
body; nothing when it goes past the buffer. -/
def inReplyBuf (version : UInt8) (type : PacketType) (body : Bytes) (extra : ℕ) : Option Reply :=
  if replyBufLen < tacPlusHdrSize + body.length + extra then none else some ⟨version, type, body⟩

theorem inReplyBuf_eq_some {version : UInt8} {type : PacketType} {body : Bytes} {extra : ℕ}
    {r : Reply} (h : inReplyBuf version type body extra = some r) :
    r = ⟨version, type, body⟩ ∧ body.length ≤ 500 := by
  unfold inReplyBuf at h
  split at h
  · contradiction
  · next hfit =>
    simp only [replyBufLen, tacPlusHdrSize] at hfit
    exact ⟨(Option.some.inj h).symm, by omega⟩

/-- `TacacsServerAuthentication::send_reply`, before the packet is numbered. -/
def TacacsServerAuthentication.sendReply (status : AuthenStatus) (serverMsg data : Bytes)
    (flag ver : UInt8) : Option Reply :=
  inReplyBuf ver .authen
    ([status.code, flag] ++ htons serverMsg.length ++ htons data.length ++ serverMsg ++ data) 1

/-- `TacacsServerAuthorization::send_response`.  The AVPs are counted up to the first
empty one; the texts after it are copied, too, but are not part of the packet. -/
def TacacsServerAuthorization.sendResponse (status : AuthorStatus) (serverMsg data : Bytes)
    (avpair : Option (List Bytes)) : Option Reply :=
  let counted := (avpair.getD []).takeWhile (· ≠ [])
  let rest := (avpair.getD []).dropWhile (· ≠ [])
  inReplyBuf tacPlusVer0 .author
    ([status.code, UInt8.ofNat counted.length] ++ hostShort serverMsg.length ++
      hostShort data.length ++ counted.map (UInt8.ofNat ·.length) ++ serverMsg ++ data ++
      counted.flatten) (rest.flatten.length + 1)

def tacPlusAcctStatusSuccess : UInt8 := 1

/-- `TacacsServerAccounting::send_reply`. -/
def TacacsServerAccounting.sendReply (serverMsg data : Bytes) (status : UInt8) : Option Reply :=
  inReplyBuf tacPlusVer0 .acct
    (hostShort serverMsg.length ++ hostShort data.length ++ [status] ++ serverMsg ++ data) 1

/-! ## Sending -/

/-- A packet handed to `sockwrite`: as the reply writer made it, and as it goes on the
wire. -/
structure Sent where
  hdr : Hdr
  body : Bytes
  wireHdr : Hdr
  wireBody : Bytes
  deriving DecidableEq, Repr

/-- Number a reply, encrypt it and hand it to the socket. -/
def TacacsPacket.send (md5 : Bytes → Digest) (t : TacacsPacket) (r : Reply) :
    TacacsPacket × Sent :=
  let t := { t with seqNo := t.seqNo + 1 }
  let hdr : Hdr := ⟨r.version, r.type.code, UInt8.ofNat t.seqNo, tacPlusClear, t.sessionId,
    UInt32.ofNat r.body.length⟩
  let written := t.md5Xor md5 hdr r.body
  (written.1, ⟨hdr, r.body, written.2.1, written.2.2⟩)

/-- Send replies one after the other. -/
def TacacsPacket.sendAll (md5 : Bytes → Digest) : TacacsPacket → List Reply →
    TacacsPacket × List Sent
  | t, [] => (t, [])
  | t, r :: rs =>
    let rest := (t.send md5 r).1.sendAll md5 rs
    (rest.1, (t.send md5 r).2 :: rest.2)

section

variable (md5 : Bytes → Digest) (t : TacacsPacket)

/-- A reply takes the next number, and nothing else of the processor but its
version changes. -/
theorem TacacsPacket.send_fst (r : Reply) :
    (t.send md5 r).1 = { t with seqNo := t.seqNo + 1, version := r.version } := by
  simp [TacacsPacket.send]

/-- The encryption leaves the number in the header alone. -/
theorem TacacsPacket.send_seqNo (r : Reply) :
    (t.send md5 r).2.wireHdr.seqNo = UInt8.ofNat (t.seqNo + 1) := by
  show (TacacsPacket.md5Xor md5 _ _ _).2.1.seqNo = _
  rw [TacacsPacket.md5Xor_hdr]

@[simp] theorem TacacsPacket.sendAll_key (rs : List Reply) :
    (t.sendAll md5 rs).1.key = t.key := by
  induction rs generalizing t with
  | nil => rfl
  | cons r rs ih =>
    rw [sendAll]
    show ((t.send md5 r).1.sendAll md5 rs).1.key = t.key
    rw [ih, t.send_fst]

/-- Every reply takes one number. -/
@[simp] theorem TacacsPacket.sendAll_seqNo (rs : List Reply) :
    (t.sendAll md5 rs).1.seqNo = t.seqNo + rs.length := by
  induction rs generalizing t with
  | nil => rfl
  | cons r rs ih =>
    rw [sendAll, List.length_cons]
    show ((t.send md5 r).1.sendAll md5 rs).1.seqNo = _
    rw [ih, t.send_fst]
    show t.seqNo + 1 + rs.length = t.seqNo + (rs.length + 1)
    omega

/-- The numbers on the wire are those that follow the last packet's, cut to a byte. -/
theorem TacacsPacket.sendAll_numbers (rs : List Reply) :
    (t.sendAll md5 rs).2.map (·.wireHdr.seqNo) =
      (List.range' (t.seqNo + 1) rs.length).map UInt8.ofNat := by
  induction rs generalizing t with
  | nil => rfl
  | cons r rs ih =>
    rw [sendAll, List.length_cons, List.range'_succ, List.map_cons, List.map_cons, t.send_seqNo]
    have hnext : (t.send md5 r).1.seqNo = t.seqNo + 1 := by rw [t.send_fst]
    show _ :: ((t.send md5 r).1.sendAll md5 rs).2.map (·.wireHdr.seqNo) = _
    rw [ih, hnext]

@[simp] theorem TacacsPacket.length_sendAll (rs : List Reply) :
    (t.sendAll md5 rs).2.length = rs.length := by
  simpa using congrArg List.length (t.sendAll_numbers md5 rs)

/-- What is sent are the replies, of the same type and with the same body. -/
theorem TacacsPacket.sendAll_bodies (rs : List Reply) :
    (t.sendAll md5 rs).2.map (fun s => (s.hdr.type, s.body)) =
      rs.map (fun r => (r.type.code, r.body)) := by
  induction rs generalizing t with
  | nil => rfl
  | cons r rs ih =>
    rw [sendAll, List.map_cons, List.map_cons]
    show _ :: ((t.send md5 r).1.sendAll md5 rs).2.map _ = _
    rw [ih]
    rfl

end

end Tacppd
