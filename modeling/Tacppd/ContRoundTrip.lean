/-
# CONTINUE packets there and back

`TacacsClient::authen_send_cont`, read by `TacacsServerAuthentication::get_cont`: a packet
comes back whatever its two texts are, as long as they fit (`cont_roundtrip`).
-/
import Tacppd.Client
import Tacppd.DecoderRules
import Tacppd.RoundTrip

namespace Tacppd

open Guarded

/-! ## The client -/

/-- `TacacsClient::authen_send_cont`, before the packet is numbered; the buffer has 512
bytes.  Nothing is written to the flags behind the two lengths, so they are 0. -/
def authenSendCont (userMsg data : Bytes) : Option Reply :=
  (writeTwoTexts (512 - tacPlusHdrSize) (htons userMsg.length ++ htons data.length ++ [0]) userMsg
    data).map fun body => ⟨tacPlusVer0, .authen, body⟩

/-! ## The server -/

/-- What `get_cont` leaves: the flag it returns, and the two buffers. -/
structure ContRead where
  flag : UInt8
  userMsg : Bytes
  data : Bytes
  deriving DecidableEq, Repr

/-- `get_cont` with both buffers, the first of `maxlen` bytes, the second of
`DATA_LEN`. -/
def checkedReadCont (hdr : Hdr) (body : Bytes) (maxlen : ℕ) : Option (Option ContRead) := do
  let m1 ← body[0]?
  let m0 ← body[1]?
  let d1 ← body[2]?
  let d0 ← body[3]?
  let userMsgLen : ℕ := m1.toNat * 256 + m0.toNat
  let userDataLen : ℕ := d1.toNat * 256 + d0.toNat
  if hdr.len ≠ 5 + userMsgLen + userDataLen then some none
  else do
    let flag ← body[4]?
    if maxlen < userMsgLen then some none
    else do
      let userMsg ← checkedCopy body 5 userMsgLen maxlen
      if dataLen < userDataLen then some none
      else do
        let data ← checkedCopy body (5 + userMsgLen) userDataLen dataLen
        some (some ⟨flag, userMsg, data⟩)

/-- Without the second buffer this is `checkedGetCont`. -/
theorem checkedGetCont_eq (hdr : Hdr) (body : Bytes) (maxlen : ℕ) :
    checkedGetCont hdr body maxlen =
      (checkedReadCont hdr body maxlen).map
        (Option.map fun r => (⟨r.flag, cstr r.userMsg⟩ : Cont)) := by
  rw [checkedGetCont, checkedReadCont]
  rcases body[0]? with _ | m1
  · rfl
  rcases body[1]? with _ | m0
  · rfl
  rcases body[2]? with _ | d1
  · rfl
  rcases body[3]? with _ | d0
  · rfl
  simp only [Option.bind_eq_bind, Option.bind_some]
  split
  · rfl
  rcases body[4]? with _ | flag
  · rfl
  simp only [Option.bind_some]
  split
  · rfl
  rcases checkedCopy body 5 (m1.toNat * 256 + m0.toNat) maxlen with _ | userMsg
  · rfl
  simp only [Option.bind_some]
  split
  · rfl
  rcases checkedCopy body (5 + (m1.toNat * 256 + m0.toNat)) (d1.toNat * 256 + d0.toNat) dataLen
    with _ | data
  · rfl
  · rfl

/-! ## The packet -/

section

variable {userMsg data body : Bytes} {r : Reply}

/-- The body of a CONTINUE packet. -/
def contBody (userMsg data : Bytes) : Bytes :=
  htons userMsg.length ++ htons data.length ++ [0] ++ userMsg ++ data

theorem length_contBody (userMsg data : Bytes) :
    (contBody userMsg data).length = 5 + userMsg.length + data.length := by
  simp only [contBody, htons, List.length_append, List.length_cons, List.length_nil]

/-- **What `authen_send_cont` makes.** -/
theorem authenSendCont_eq :
    authenSendCont userMsg data = some r ↔
      ((userMsg = [] ∨ userMsg.length < 495) ∧
        (data = [] ∨ userMsg.length + data.length < 495)) ∧
        r = ⟨tacPlusVer0, .authen, contBody userMsg data⟩ := by
  have hfixed : (htons userMsg.length ++ htons data.length ++ [(0 : UInt8)]).length = 5 := rfl
  rw [authenSendCont, Option.map_eq_some_iff]
  simp only [writeTwoTexts_eq, hfixed, tacPlusHdrSize]
  constructor
  · rintro ⟨body, ⟨⟨-, hm, hd⟩, rfl⟩, rfl⟩
    exact ⟨⟨hm.imp_right fun h => by omega, hd.imp_right fun h => by omega⟩, rfl⟩
  · rintro ⟨⟨hm, hd⟩, rfl⟩
    exact ⟨_, ⟨⟨by omega, hm.imp_right fun h => by omega, hd.imp_right fun h => by omega⟩, rfl⟩,
      rfl⟩

/-! ## There and back -/

/-- Where the parts of the packet stand. -/
structure ContLayout (body userMsg data : Bytes) : Prop where
  userMsgLenAt : Holds body 0 (htons userMsg.length)
  dataLenAt : Holds body 2 (htons data.length)
  flagAt : body[4]? = some 0
  userMsgAt : Holds body 5 userMsg
  dataAt : Holds body (5 + userMsg.length) data

theorem contBody_layout (userMsg data : Bytes) :
    ContLayout (contBody userMsg data) userMsg data := by
  have h := holds_self (contBody userMsg data)
  have hparts : Holds (contBody userMsg data) 0 (htons userMsg.length ++ (htons data.length ++
      ([0] ++ (userMsg ++ data)))) := by
    simpa only [contBody, List.append_assoc] using h
  simp only [holds_append_iff, holds_cons_iff, Nat.zero_add] at hparts
  obtain ⟨hmsgLen, hdataLen, ⟨hflag, -⟩, hmsg, hdata⟩ := hparts
  exact ⟨hmsgLen, hdataLen, hflag, hmsg, hdata⟩

/-- A text of the body, copied to a cleared buffer. -/
theorem checkedCopy_of_holds {s : Bytes} {off cap : ℕ} (h : Holds body off s)
    (h0 : (0 : UInt8) ∉ s) (hcap : s.length ≤ cap) :
    checkedCopy body off s.length cap = some (s ++ List.replicate (cap - s.length) 0) := by
  rw [checkedCopy_eq_some_iff, copied, h.text_eq h0, Nat.sub_self]
  exact ⟨⟨h.readable 0, hcap⟩, by simp⟩

end

/-- A message no longer than the buffer of the receiver and data no longer than
`DATA_LEN`, each of them empty or not, that fit the buffer of the client: `get_cont`
returns 0, and the two buffers hold them. -/
theorem cont_roundtrip (md5 : Bytes → Digest) (t : TacacsPacket) {userMsg data : Bytes}
    (hmsg : (0 : UInt8) ∉ userMsg) (hdata : (0 : UInt8) ∉ data) {maxlen : ℕ}
    (hmsgLen : userMsg.length ≤ maxlen) (hdataLen : data.length ≤ dataLen) {r : Reply}
    (hsend : authenSendCont userMsg data = some r) :
    checkedReadCont (t.send md5 r).2.hdr (t.send md5 r).2.body maxlen =
      some (some ⟨0, userMsg ++ List.replicate (maxlen - userMsg.length) 0,
        data ++ List.replicate (dataLen - data.length) 0⟩) := by
  obtain ⟨⟨hm, hd⟩, hr⟩ := authenSendCont_eq.mp hsend
  have hbody : r.body = contBody userMsg data := by rw [hr]
  have htotal := length_contBody userMsg data
  have hfits : userMsg.length < 495 ∧ userMsg.length + data.length < 495 := by
    rcases hm with rfl | hm
    · rcases hd with rfl | hd
      · decide
      · exact ⟨by decide, hd⟩
    · rcases hd with rfl | hd
      · exact ⟨hm, hm⟩
      · exact ⟨hm, hd⟩
  have hlen := len_send md5 t (r := r) (by rw [hbody]; omega)
  have hlay := contBody_layout userMsg data
  obtain ⟨m1, m0, hm1, hm0, hmsgRead⟩ := htons_read hlay.userMsgLenAt (by omega)
  obtain ⟨d1, d0, hd1, hd0, hdataRead⟩ := htons_read hlay.dataLenAt (by omega)
  rw [hbody] at hlen
  show checkedReadCont (t.send md5 r).2.hdr r.body maxlen = _
  rw [hbody, checkedReadCont, hlen, hm1, hm0, hd1, hd0]
  simp only [Option.bind_eq_bind, Option.bind_some, hmsgRead, hdataRead, hlay.flagAt]
  rw [if_neg (by omega), if_neg (by omega), checkedCopy_of_holds hlay.userMsgAt hmsg hmsgLen,
    Option.bind_some, if_neg (by omega), checkedCopy_of_holds hlay.dataAt hdata hdataLen,
    Option.bind_some]

/-- The password of an ASCII login, and no data. -/
theorem cont_roundtrip_password :
    let t : TacacsPacket := ⟨1, 2, str "tacacs", [], 0⟩
    ∃ r, authenSendCont (str "secret") [] = some r ∧
      checkedReadCont (t.send (fun _ => constDigest 7) r).2.hdr
          (t.send (fun _ => constDigest 7) r).2.body passwordLen =
        some (some ⟨0, str "secret" ++ List.replicate 44 0, List.replicate 254 0⟩) := by
  intro t
  have hsend : authenSendCont (str "secret") [] =
      some ⟨tacPlusVer0, .authen, contBody (str "secret") []⟩ :=
    authenSendCont_eq.mpr ⟨by decide, rfl⟩
  exact ⟨_, hsend, cont_roundtrip (fun _ => constDigest 7) t (by decide) (by decide) (by decide)
    (by decide) hsend⟩

end Tacppd
