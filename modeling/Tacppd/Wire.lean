/-
# From one side to the other

A packet that one side has sent, read by the other side, which has the same key and
counts the same packets: `read_packet` gives the body back in clear, on the server
(`readPacketBody_send`) and on the client (`readPacketWhole_send`).
-/
import Tacppd.DecoderAgree
import Tacppd.RoundTrip

namespace Tacppd

section

variable {md5 : Bytes → Digest} {t t' : TacacsPacket} {r : Reply}

/-- The second call of `md5_xor` on a packet takes the first one back, on any processor
with the same key. -/
theorem md5Xor_md5Xor (hkey : t'.key = t.key) (p : Packet) :
    (t'.md5Xor md5 (t.md5Xor md5 p.hdr p.body).2.1 (t.md5Xor md5 p.hdr p.body).2.2).2.2 =
      p.body := by
  by_cases hnone : t.key = str "none"
  · rw [t'.md5Xor_data, if_pos (hkey.trans hnone), t.md5Xor_data, if_pos hnone]
  · have hlen : (t.md5Xor md5 p.hdr p.body).2.1.len = (t.md5Xor md5 p.hdr p.body).2.2.length := by
      rw [t.md5Xor_hdr, t.length_md5Xor]
      exact p.length_eq
    have honce := t.md5Xor_body md5 p hnone
    have htwice := t'.md5Xor_body md5 ⟨_, _, hlen⟩ (by rwa [hkey])
    have hsame : createMd5Hash md5 t'.key (t.md5Xor md5 p.hdr p.body).2.1.sessionId
        (t.md5Xor md5 p.hdr p.body).2.1.version (t.md5Xor md5 p.hdr p.body).2.1.seqNo =
        createMd5Hash md5 t.key p.hdr.sessionId p.hdr.version p.hdr.seqNo := by
      rw [t.md5Xor_hdr, hkey]
    rw [htwice, hsame]
    simp only
    rw [honce, Pad.overlay_overlay _ _ xor_xor_cancel]

/-- The header on the wire announces the length of the body. -/
theorem wireHdr_len (md5 : Bytes → Digest) (hsmall : r.body.length ≤ 10000) :
    (t.send md5 r).2.wireHdr.len = r.body.length := by
  have hlen := len_send md5 t hsmall
  show (TacacsPacket.md5Xor md5 _ _ _).2.1.len = _
  rw [TacacsPacket.md5Xor_hdr]
  exact hlen

/-- The answer to the first packet of a session. -/
theorem wireHdr_seqNo_second (md5 : Bytes → Digest) (hnum : t.seqNo = 1) :
    (t.send md5 r).2.wireHdr.seqNo = 2 := by
  rw [t.send_seqNo, hnum]
  rfl

theorem tacPlusVer0_major : tacPlusVer0 &&& tacPlusMajorVerMask = tacPlusMajorVer := by decide

theorem wireHdr_type : (t.send md5 r).2.wireHdr.type = r.type.code := by
  show (TacacsPacket.md5Xor md5 _ _ _).2.1.type = _
  rw [TacacsPacket.md5Xor_hdr]

theorem length_wireBody : (t.send md5 r).2.wireBody.length = r.body.length :=
  TacacsPacket.length_md5Xor ..

/-- A read of as many bytes as were sent. -/
theorem sockread_append (s more : Bytes) :
    sockread (s.length : ℤ) (s ++ more) = ((s.length : ℤ), s) := by
  rw [sockread]
  split
  · next hneg =>
    obtain rfl : s = [] := List.length_eq_zero_iff.mp (by omega)
    rfl
  · have hle : (s.length : ℤ) ≤ (s ++ more).length := by
      rw [List.length_append]
      omega
    rw [if_pos hle, Int.toNat_natCast, List.take_left]

/-- The data of a packet that was sent are read whole, and are the body. -/
theorem readData_send (md5 : Bytes → Digest) (hkey : t'.key = t.key)
    (hseq : t'.seqNo = t.seqNo) (hnum : t.seqNo < 255) (hsmall : r.body.length ≤ 10000)
    (more : Bytes) (rest : ℕ) :
    t'.readData md5 (t.send md5 r).2.wireHdr ((t.send md5 r).2.wireBody ++ more) rest =
      .packet { t' with seqNo := t'.seqNo + 1, version := r.version } (slack r.body rest) := by
  have hlen := wireHdr_len md5 (t := t) hsmall
  have hread := sockread_append (t.send md5 r).2.wireBody more
  rw [length_wireBody, ← hlen] at hread
  have hnext : t'.seqNo + 1 = (t.send md5 r).2.wireHdr.seqNo.toNat := by
    rw [t.send_seqNo, toNat_ofNat_of_le (by omega), hseq]
  have hclear := @md5Xor_md5Xor md5 { t with seqNo := t.seqNo + 1 }
    { t' with seqNo := t'.seqNo + 1 } hkey ⟨(t.send md5 r).2.hdr, r.body, len_send md5 t hsmall⟩
  have hversion : (t.send md5 r).2.wireHdr.version = r.version := by
    show (TacacsPacket.md5Xor md5 _ _ _).2.1.version = _
    rw [TacacsPacket.md5Xor_hdr]
  rw [TacacsPacket.readData, hread]
  simp only
  rw [if_neg (not_not.mpr rfl), if_neg (not_not.mpr hnext), TacacsPacket.md5Xor_key, hversion]
  exact congrArg (fun b => ReadResult.packet _ (slack b rest)) hclear

/-- **The server reads what the client has sent.** -/
theorem readPacketBody_send (hkey : t'.key = t.key) (hseq : t'.seqNo = t.seqNo)
    (hnum : t.seqNo < 255) (hsmall : r.body.length ≤ 9988) (more : Bytes) :
    (t'.readPacketBody md5 (t.send md5 r).2.wireHdr ((t.send md5 r).2.wireBody ++ more)).result =
      .packet { t' with seqNo := t'.seqNo + 1, version := r.version } (slack r.body 15) := by
  have hlen := wireHdr_len md5 (t := t) (r := r) (by omega)
  have hdata := readData_send md5 (r := r) hkey hseq hnum (by omega) more 15
  have hmax : ¬ intMax < tacPlusHdrSize + (r.body.length : ℤ) := by
    rw [intMax, tacPlusHdrSize]
    omega
  have hlong : ¬ 10000 < tacPlusHdrSize + (r.body.length : ℤ) := by
    rw [tacPlusHdrSize]
    omega
  rw [TacacsPacket.readPacketBody, hlen]
  simp only
  rw [if_neg hmax, if_neg hlong, if_neg (by omega)]
  exact hdata

/-- **The client reads what the server has sent.** -/
theorem readPacketWhole_send (md5 : Bytes → Digest) (hkey : t'.key = t.key)
    (hseq : t'.seqNo = t.seqNo) (hnum : t.seqNo < 255) (hsmall : r.body.length ≤ 9988)
    (hversion : r.version &&& tacPlusMajorVerMask = tacPlusMajorVer) (more : Bytes) :
    (t'.readPacketWhole md5 (t.send md5 r).2.wireHdr ((t.send md5 r).2.wireBody ++ more)).result =
      .packet { t' with seqNo := t'.seqNo + 1, version := r.version } (slack r.body 3) := by
  have hlen := wireHdr_len md5 (t := t) (r := r) (by omega)
  have hdata := readData_send md5 (r := r) hkey hseq hnum (by omega) more 3
  have hwire : (t.send md5 r).2.wireHdr.version = r.version := by
    show (TacacsPacket.md5Xor md5 _ _ _).2.1.version = _
    rw [TacacsPacket.md5Xor_hdr]
  have hsum := whole_len (t.send md5 r).2.wireHdr
  have hmax : (r.body.length : ℤ) ≤ intMax - tacPlusHdrSize := by
    rw [intMax, tacPlusHdrSize]
    omega
  have hlong : ¬ 10000 < tacPlusHdrSize + (r.body.length : ℤ) := by
    rw [tacPlusHdrSize]
    omega
  rw [hlen, if_pos hmax] at hsum
  rw [TacacsPacket.readPacketWhole, hwire, if_neg (not_not.mpr hversion), hsum]
  simp only
  rw [if_neg hlong, if_neg (by omega), if_neg (by omega)]
  exact hdata

end

end Tacppd
