/-
# Authorization responses there and back

`TacacsServerAuthorization::send_response` and `TacacsClient::author_get_response`.  The
server goes through the AVPs twice: it counts and measures them up to the first empty
one, and then copies all of them.

The response comes back if and only if no AVP is empty and none has 128 bytes or more
(`response_roundtrip_iff`).
-/
import Mathlib.Algebra.BigOperators.Group.List.Basic
import Mathlib.Algebra.Order.Ring.Nat
import Tacppd.Wire

namespace Tacppd

open Guarded

/-! ## The server -/

/-- The loop that counts the AVPs and writes their lengths: the buffer, where `lens`
points, `i` and `arglens`. -/
def countAvps (buf : Bytes) (lens i arglens : ℕ) : List Bytes → Option (Bytes × ℕ × ℕ × ℕ)
  | [] => some (buf, lens, i, arglens)
  | avp :: avpair =>
    if avp.length ≠ 0 then
      (put buf lens (UInt8.ofNat avp.length)).bind fun buf =>
        countAvps buf (lens + 1) (i + 1) (arglens + avp.length) avpair
    else some (buf, lens, i, arglens)

/-- `send_response` step by step, for every status.  With a null pointer in place of the
AVPs both loops are left out. -/
def TacacsServerAuthorization.writeResponse (status : ℤ) (serverMsg data : Bytes)
    (avpair : Option (List Bytes)) : Option Reply := do
  let (buf, lens, i, arglens) ←
    countAvps (List.replicate (replyBufLen - tacPlusHdrSize) 0) 6 0 0 (avpair.getD [])
  let datalength := 6 + i + serverMsg.length + data.length + arglens
  let buf ← write buf 0 ([UInt8.ofInt status, UInt8.ofNat i] ++ hostShort serverMsg.length ++
    hostShort data.length)
  let (buf, lens) ← strcpyNext 0 buf lens serverMsg
  let (buf, lens) ← strcpyNext 0 buf lens data
  let (buf, _) ← strcpyAll 0 buf lens (avpair.getD [])
  let body ← front buf datalength
  some ⟨tacPlusVer0, .author, body⟩

section

variable {cap : ℕ} {done : Bytes} {avpair : List Bytes}

/-- The AVPs that are counted. -/
def counted (avpair : List Bytes) : List Bytes := avpair.takeWhile (· ≠ [])

theorem ensures_countAvps {i arglens : ℕ} {post : Bytes × ℕ × ℕ × ℕ → Prop} :
    Ensures (countAvps (clearBehind 0 cap done) done.length i arglens avpair) post ↔
      (counted avpair).length ≤ cap - done.length ∧
        post (clearBehind 0 cap (done ++ (counted avpair).map (UInt8.ofNat ·.length)),
          (done ++ (counted avpair).map (UInt8.ofNat ·.length)).length,
          i + (counted avpair).length, arglens + ((counted avpair).map List.length).sum) := by
  induction avpair generalizing done i arglens with
  | nil => simp [countAvps, counted]
  | cons avp avpair ih =>
    rw [countAvps]
    by_cases havp : avp = []
    · rw [if_neg (by simp [havp])]
      simp [counted, havp]
    · have hcounted : counted (avp :: avpair) = avp :: counted avpair := by
        simp [counted, havp]
      have hput : put (clearBehind 0 cap done) done.length (UInt8.ofNat avp.length) =
          write (clearBehind 0 cap done) done.length [UInt8.ofNat avp.length] := by
        simp [write]
      have hnext : done.length + 1 = (done ++ [UInt8.ofNat avp.length]).length := by simp
      rw [if_pos (by simpa using havp), hput, ensures_bind, ensures_write, hnext, ih, ← and_assoc,
        hcounted]
      simp only [List.length_append, List.length_cons, List.length_nil, List.append_assoc,
        List.singleton_append, List.map_cons, List.sum_cons]
      rw [Nat.add_assoc i, Nat.add_comm 1, Nat.add_assoc arglens]
      refine and_congr_left fun _ => ?_
      omega

end

/-! ## What the server makes -/

section

variable {status : ℤ} {serverMsg data : Bytes} {avpair : Option (List Bytes)}

/-- The fixed fields of a response. -/
def responseFixed (status : ℤ) (serverMsg data : Bytes) (cnt : ℕ) : Bytes :=
  [UInt8.ofInt status, UInt8.ofNat cnt] ++ hostShort serverMsg.length ++ hostShort data.length

/-- The body of a response. -/
def responseBody (status : ℤ) (serverMsg data : Bytes) (avps : List Bytes) : Bytes :=
  responseFixed status serverMsg data avps.length ++
    (avps.map (UInt8.ofNat ·.length) ++ (serverMsg ++ (data ++ avps.flatten)))

theorem length_responseBody (status : ℤ) (serverMsg data : Bytes) (avps : List Bytes) :
    (responseBody status serverMsg data avps).length =
      6 + avps.length + serverMsg.length + data.length + (avps.map List.length).sum := by
  have hfixed : (responseFixed status serverMsg data avps.length).length = 6 := rfl
  simp only [responseBody, List.length_append, List.length_map, List.length_flatten, hfixed]
  omega

/-- The AVPs from the first empty one on. -/
def uncounted (avpair : List Bytes) : List Bytes := avpair.dropWhile (· ≠ [])

theorem counted_append (avpair : List Bytes) : counted avpair ++ uncounted avpair = avpair :=
  List.takeWhile_append_dropWhile

/-- **What `send_response` makes.**  The packet ends behind the AVPs that are counted; the
others need room in the buffer, too. -/
theorem writeResponse_eq {r : Reply} :
    TacacsServerAuthorization.writeResponse status serverMsg data avpair = some r ↔
      (responseBody status serverMsg data (counted (avpair.getD []))).length +
          (uncounted (avpair.getD [])).flatten.length < 500 ∧
        r = ⟨tacPlusVer0, .author, responseBody status serverMsg data (counted (avpair.getD []))⟩
        := by
  have hens : TacacsServerAuthorization.writeResponse status serverMsg data avpair = some r ↔
      Ensures (TacacsServerAuthorization.writeResponse status serverMsg data avpair) (· = r) := by
    simp [Ensures]
  rw [hens, TacacsServerAuthorization.writeResponse]
  generalize avpair.getD [] = avps
  have hclear : List.replicate (replyBufLen - tacPlusHdrSize) 0 =
      clearBehind (0 : UInt8) 500 (List.replicate 6 0) := by
    rw [clearBehind, List.replicate_append_replicate]
    rfl
  have hcount := fun post => @ensures_countAvps 500 (List.replicate 6 0) avps 0 0 post
  have hfixed := fun post => @ensures_overwrite UInt8 0 500
    ((counted avps).map (UInt8.ofNat ·.length))
    (responseFixed status serverMsg data (counted avps).length) post (List.replicate 6 0) rfl
  have hlen : (List.replicate 6 (0 : UInt8) ++ (counted avps).map (UInt8.ofNat ·.length)).length =
      (responseFixed status serverMsg data (counted avps).length ++
        (counted avps).map (UInt8.ofNat ·.length)).length := by
    rw [List.length_append, List.length_append]
    rfl
  have hprefix : responseBody status serverMsg data (counted avps) <+:
      responseFixed status serverMsg data (counted avps).length ++
        (counted avps).map (UInt8.ofNat ·.length) ++ serverMsg ++ data ++ avps.flatten := by
    refine ⟨(uncounted avps).flatten, ?_⟩
    have hflatten := congrArg List.flatten (counted_append avps)
    rw [List.flatten_append] at hflatten
    rw [← hflatten, responseBody]
    simp only [List.append_assoc]
  have hroom : avps.flatten.length =
      ((counted avps).map List.length).sum + (uncounted avps).flatten.length := by
    rw [← List.length_flatten, ← List.length_append, ← List.flatten_append, counted_append]
  rw [hclear]
  simp only [List.length_replicate, hlen] at hcount
  simp only [responseFixed] at hfixed hcount hprefix
  simp only [↓ensures_do, hcount, Nat.zero_add, hfixed, ↓ensures_strcpyNext, ↓ensures_strcpyAll,
    ← length_responseBody status, ensures_front hprefix, ensures_some]
  simp only [List.length_append, List.length_map, hostShort, List.length_cons, List.length_nil]
  rw [length_responseBody]
  constructor
  · rintro ⟨-, -, hfit, havps, rfl⟩
    refine ⟨?_, rfl⟩
    rcases havps with rfl | havps
    · simp only [List.flatten_nil, List.length_nil] at hroom
      omega
    · omega
  · rintro ⟨hfit, rfl⟩
    exact ⟨by omega, by omega, by omega, Or.inr (by omega), rfl⟩

/-- For the statuses the server sends this is the packet of `sendResponse`. -/
theorem sendResponse_eq (status : AuthorStatus) :
    TacacsServerAuthorization.sendResponse status serverMsg data avpair =
      TacacsServerAuthorization.writeResponse status.code.toNat serverMsg data avpair := by
  have hcode : UInt8.ofInt status.code.toNat = status.code := by cases status <;> rfl
  have hcounted : (avpair.getD []).takeWhile (· ≠ []) = counted (avpair.getD []) := rfl
  have huncounted : (avpair.getD []).dropWhile (· ≠ []) = uncounted (avpair.getD []) := rfl
  ext r
  rw [writeResponse_eq, TacacsServerAuthorization.sendResponse, inReplyBuf]
  simp only [hcounted, huncounted]
  have hbody : [status.code, UInt8.ofNat (counted (avpair.getD [])).length] ++
      hostShort serverMsg.length ++ hostShort data.length ++
      (counted (avpair.getD [])).map (UInt8.ofNat ·.length) ++ serverMsg ++ data ++
      (counted (avpair.getD [])).flatten =
      responseBody status.code.toNat serverMsg data (counted (avpair.getD [])) := by
    rw [responseBody, responseFixed, hcode]
    simp only [List.append_assoc]
  rw [hbody, replyBufLen, tacPlusHdrSize]
  split
  · refine iff_of_false (by simp) ?_
    omega
  · rw [and_iff_right (by omega), Option.some.injEq, eq_comm]

end

/-! ## The client -/

def tacPlusAuthorStatusError : UInt8 := 17

/-- What `author_get_response` comes to: its return value, and what it has written to the
two buffers and the array of the caller, as far as it has. -/
structure AuthorResponse where
  ret : ℤ
  texts : Option (Bytes × Bytes)
  avpair : Option (List (Option Bytes))
  deriving DecidableEq, Repr

/-- `author_get_response` behind `read_packet`.  The caller's buffers are taken to be large
enough; its array has `room` places.  The two loops over the length bytes are one loop of
the source. -/
def authorReadResponse (room : ℕ) (hdr : Hdr) (body : Bytes) : Option AuthorResponse :=
  if hdr.type ≠ PacketType.author.code then some ⟨0, none, none⟩
  else if hdr.seqNo ≠ 2 then some ⟨0, none, none⟩
  else do
    let status ← body[0]?
    let avpair ← put (List.replicate room none) 0 none
    if status = tacPlusAuthorStatusError then some ⟨status.toNat, none, some avpair⟩
    else do
      let argCnt ← body[1]?
      let arglens ← checkedArglens body 6 0 argCnt.toNat
      let l ← checkedTable body newTable 6 0 argCnt.toNat
      let msgLen ← hostShortAt body 2
      let dataLen ← hostShortAt body 4
      if hdr.len ≠ 6 + argCnt.toNat + msgLen + dataLen + arglens then
        some ⟨status.toNat, none, some avpair⟩
      else do
        let lens := 6 + argCnt.toNat
        let serverMsg ← strncpy body lens msgLen
        let lens := lens + msgLen
        let data ← strncpy body lens dataLen
        let lens := lens + dataLen
        let avpair ← checkedAvps body l (List.replicate 255 0) avpair lens 0 argCnt.toNat
        some ⟨status.toNat, some (serverMsg, data), some avpair⟩

/-- `TacacsClient::author_get_response`. -/
def authorGetResponse (md5 : Bytes → Digest) (t : TacacsPacket) (room : ℕ) (hdr : Hdr)
    (stream : Bytes) : Option AuthorResponse :=
  match (t.readPacketWhole md5 hdr stream).result with
  | .packet _ data => authorReadResponse room hdr data
  | .failed => some ⟨-1, none, none⟩
  | .threw => none
  | .undefined => none

/-- The client has returned this response. -/
structure AuthorResponse.Is (r : AuthorResponse) (status : ℤ) (serverMsg data : Bytes)
    (avps : List Bytes) : Prop where
  ret : r.ret = status
  texts : r.texts = some (serverMsg, data)
  avpair : ∃ avpair, r.avpair = some avpair ∧
    avpair.takeWhile Option.isSome = avps.map some

/-! ## What the client finds -/

theorem strncpy_of_holds {body s : Bytes} {off : ℕ} (h : Holds body off s)
    (h0 : (0 : UInt8) ∉ s) : strncpy body off s.length = some s := by
  have hcopy := strncpy_slack 0 (h.readable 0)
  rwa [slack, List.replicate_zero, List.append_nil, h.text_eq h0] at hcopy

section

variable {status : ℤ} {serverMsg data : Bytes} {avps : List Bytes} {body : Bytes} {room : ℕ}
  {hdr : Hdr}

/-- Where the parts of a response stand. -/
structure ResponseLayout (body : Bytes) (status : ℤ) (serverMsg data : Bytes)
    (avps : List Bytes) : Prop where
  statusAt : body[0]? = some (UInt8.ofInt status)
  argCntAt : body[1]? = some (UInt8.ofNat avps.length)
  msgLenAt : Holds body 2 (hostShort serverMsg.length)
  dataLenAt : Holds body 4 (hostShort data.length)
  tableAt : Holds body 6 (avps.map (UInt8.ofNat ·.length))
  serverMsgAt : Holds body (6 + avps.length) serverMsg
  dataAt : Holds body (6 + avps.length + serverMsg.length) data
  avpsAt : Holds body (6 + avps.length + serverMsg.length + data.length) avps.flatten

theorem responseBody_layout (h : Holds body 0 (responseBody status serverMsg data avps)) :
    ResponseLayout body status serverMsg data avps := by
  rw [responseBody, responseFixed] at h
  simp only [List.cons_append, List.nil_append, List.append_assoc, holds_cons_iff,
    holds_append_iff, List.length_map] at h
  obtain ⟨hstatus, hcnt, hmsgLen, hdataLen, htable, hmsg, hdata, havps⟩ := h
  exact ⟨hstatus, hcnt, hmsgLen, hdataLen, htable, hmsg, hdata, havps⟩

/-- The array when no AVP has been read. -/
def noAvps (room : ℕ) : List (Option Bytes) := List.replicate room none

/-- What the client makes of a response that announces all of its parts. -/
def responseRead (room : ℕ) (status : ℤ) (serverMsg data : Bytes) (avps : List Bytes) :
    AuthorResponse :=
  let ret := (UInt8.ofInt status).toNat
  if UInt8.ofInt status = tacPlusAuthorStatusError then ⟨ret, none, some (noAvps room)⟩
  else if ∀ avp ∈ avps, avp.length < 128 then
    ⟨ret, some (serverMsg, data), some (avps.map some ++ noAvps (room - avps.length))⟩
  else ⟨ret, none, some (noAvps room)⟩

/-- The loop over the AVPs, in an array with room for them. -/
theorem checkedAvps_eq (havps : AvpairOk avps) (hshort : ∀ avp ∈ avps, avp.length < 128)
    (hroom : avps.length < room) {off : ℕ} (hoff : Holds body off avps.flatten) :
    checkedAvps body (signedLens avps ++ newTable.drop avps.length) (List.replicate 255 0)
      (noAvps room) off 0 avps.length = some (avps.map some ++ noAvps (room - avps.length)) := by
  have hlens : ∀ l ∈ signedLens avps, -128 ≤ l ∧ l ≤ 127 := by
    intro l hl
    obtain ⟨avp, -, rfl⟩ := List.mem_map.mp hl
    exact signedByte_bounds _
  have hlen : (signedLens avps).length = avps.length := List.length_map ..
  have harray : noAvps room = none :: noAvps (room - 1) := by
    rw [noAvps, noAvps, ← List.replicate_succ]
    congr 1
    omega
  have htail : none :: (noAvps (room - 1)).drop avps.length = noAvps (room - avps.length) := by
    rw [noAvps, noAvps, List.drop_replicate, ← List.replicate_succ]
    congr 1
    omega
  have h := @ensures_checkedAvps body off [] (signedLens avps) (newTable.drop avps.length)
    (List.replicate 255 0) [] (noAvps (room - 1))
    (· = avps.map some ++ noAvps (room - avps.length)) List.length_replicate rfl hlens
  rw [hlen, signedLens_of_lt hshort, avpTexts_of_holds hoff havps.text, List.nil_append, htail] at h
  obtain ⟨r, hr, rfl⟩ := h.mpr ⟨⟨avpsInside_of_holds hoff, by
    rw [noAvps, List.length_replicate]
    omega⟩, rfl⟩
  rw [harray, signedLens_of_lt hshort]
  exact hr

/-- **What the client reads.** -/
theorem authorReadResponse_eq (hlay : ResponseLayout body status serverMsg data avps)
    (hmsg : (0 : UInt8) ∉ serverMsg) (hdata : (0 : UInt8) ∉ data) (havps : AvpairOk avps)
    (hroom : avps.length < room) (htype : hdr.type = PacketType.author.code)
    (hseq : hdr.seqNo = 2)
    (hlen : hdr.len = (responseBody status serverMsg data avps).length)
    (hfit : (responseBody status serverMsg data avps).length ≤ 500)
    (hcnt : avps.length ≤ 255) :
    authorReadResponse room hdr body = some (responseRead room status serverMsg data avps) := by
  have htotal := length_responseBody status serverMsg data avps
  have hput : put (List.replicate room (none : Option Bytes)) 0 none = some (noAvps room) := by
    rw [put, List.length_replicate, if_pos (by omega), List.set_replicate_self, noAvps]
  rw [authorReadResponse, if_neg (not_not.mpr htype), if_neg (not_not.mpr hseq), hlay.statusAt,
    hput, responseRead]
  simp only [Option.bind_eq_bind, Option.bind_some]
  by_cases herror : UInt8.ofInt status = tacPlusAuthorStatusError
  · rw [if_pos herror, if_pos herror]
  rw [if_neg herror, if_neg herror, hlay.argCntAt, Option.bind_some, toNat_ofNat_of_le hcnt]
  -- the two readings of the length table
  have h6 : 6 ≤ body.length := by
    have hle := hlay.dataLenAt.length_le
    simp only [hostShort, List.length_cons, List.length_nil] at hle
    omega
  have hinside : 6 + avps.length ≤ body.length := by
    have hle := hlay.tableAt.length_le
    rw [List.length_map] at hle
    omega
  have htable : lensAt body 6 avps.length = signedLens avps := by
    have hlens := lensAt_of_holds hlay.tableAt
    rwa [List.length_map, map_signedByte_lens] at hlens
  have hsum : checkedArglens body 6 0 avps.length = some (arglens (signedLens avps)) := by
    have hread : Ensures (checkedArglens body 6 0 avps.length) (· = arglens (signedLens avps)) :=
      (ensures_checkedArglens 0 h6).mpr ⟨hinside, by rw [htable, arglens]⟩
    obtain ⟨r, hr, rfl⟩ := hread
    exact hr
  have hl : checkedTable body newTable 6 0 avps.length =
      some (signedLens avps ++ newTable.drop avps.length) := by
    have hread : Ensures (checkedTable body newTable 6 0 avps.length)
        (· = signedLens avps ++ newTable.drop avps.length) :=
      (ensures_newTable h6 hcnt).mpr ⟨hinside, by rw [htable]⟩
    obtain ⟨r, hr, rfl⟩ := hread
    exact hr
  rw [hsum, Option.bind_some, hl, Option.bind_some,
    hostShortAt_of_holds hlay.msgLenAt (by omega), Option.bind_some,
    hostShortAt_of_holds hlay.dataLenAt (by omega), Option.bind_some, hlen, htotal]
  have hiff := arglens_signedLens_eq_iff havps.short
  by_cases hshort : ∀ avp ∈ avps, avp.length < 128
  · have hequal := hiff.mpr hshort
    rw [if_neg (by omega), if_pos hshort, strncpy_of_holds hlay.serverMsgAt hmsg,
      Option.bind_some, strncpy_of_holds hlay.dataAt hdata, Option.bind_some,
      checkedAvps_eq havps hshort hroom hlay.avpsAt, Option.bind_some]
  · have hne : arglens (signedLens avps) ≠ (avps.map List.length).sum := fun h => hshort (hiff.mp h)
    rw [if_pos (by omega), if_neg hshort]

end

/-! ## There and back -/

theorem counted_eq_iff (avpair : List Bytes) : counted avpair = avpair ↔ [] ∉ avpair := by
  rw [counted, List.takeWhile_eq_self_iff]
  simp only [ne_eq, decide_eq_true_eq]
  constructor
  · intro h hnil
    exact h [] hnil rfl
  · rintro h avp havp rfl
    exact h havp

theorem counted_subset {avpair : List Bytes} {avp : Bytes} (h : avp ∈ counted avpair) :
    avp ∈ avpair := (List.takeWhile_prefix _).subset h

/-- Every AVP that is counted takes a byte in the table and one for its text. -/
theorem length_counted_le (avpair : List Bytes) :
    (counted avpair).length ≤ ((counted avpair).map List.length).sum := by
  have hpos : ∀ n ∈ (counted avpair).map List.length, 1 ≤ n := by
    intro n hn
    obtain ⟨avp, havp, rfl⟩ := List.mem_map.mp hn
    have hne := List.mem_takeWhile_imp havp
    exact List.length_pos_of_ne_nil (by simpa using hne)
  have hle := List.length_le_sum_of_one_le _ hpos
  rwa [List.length_map] at hle

/-- What is read is what was sent, unless an AVP is empty or too long, or the status is
no byte. -/
theorem responseRead_is_iff {room : ℕ} {status : ℤ} (hstatus : status ≠ 17)
    (serverMsg data : Bytes) (avpair : List Bytes) :
    (responseRead room status serverMsg data (counted avpair)).Is status serverMsg data avpair ↔
      (0 ≤ status ∧ status < 256) ∧ [] ∉ avpair ∧ ∀ avp ∈ avpair, avp.length < 128 := by
  rw [responseRead]
  split
  · next herror =>
    refine iff_of_false (fun h => by simpa using h.texts) ?_
    rintro ⟨hbyte, -⟩
    have hret := (toNat_ofInt_eq_iff status).mpr hbyte
    rw [herror] at hret
    exact hstatus hret.symm
  · split
    · next hshort =>
      constructor
      · rintro ⟨hret, -, avps, havps, hall⟩
        obtain rfl := Option.some.inj havps
        rw [noAvps, takeWhile_isSome_append, List.map_inj_right fun _ _ => Option.some.inj] at hall
        refine ⟨(toNat_ofInt_eq_iff status).mp hret, (counted_eq_iff avpair).mp hall, ?_⟩
        rwa [hall] at hshort
      · rintro ⟨hbyte, hne, -⟩
        refine ⟨(toNat_ofInt_eq_iff status).mpr hbyte, rfl, _, rfl, ?_⟩
        rw [noAvps, takeWhile_isSome_append, (counted_eq_iff avpair).mpr hne]
    · next hlong =>
      refine iff_of_false (fun h => by simpa using h.texts) ?_
      rintro ⟨-, -, hshort⟩
      exact hlong fun avp havp => hshort avp (counted_subset havp)

/-- For every status but ERROR, every message and data, and every list of AVPs of at most
255 bytes that fit the packet, sent as the second packet of a session to a client with
the same key whose array has room for them: the response comes back if and only if the
status is a byte, no AVP is empty and each has fewer than 128 bytes. -/
theorem response_roundtrip_iff (md5 : Bytes → Digest) {t t' : TacacsPacket}
    (hkey : t'.key = t.key) (hnum : t.seqNo = 1) (hnum' : t'.seqNo = 1) {status : ℤ}
    (hstatus : status ≠ 17) {serverMsg data : Bytes} (hmsg : (0 : UInt8) ∉ serverMsg)
    (hdata : (0 : UInt8) ∉ data) {avpair : List Bytes} (havps : AvpairOk avpair) {room : ℕ}
    (hroom : avpair.length < room) {r : Reply}
    (hsend : TacacsServerAuthorization.writeResponse status serverMsg data (some avpair) = some r)
    (more : Bytes) :
    (∃ q, authorGetResponse md5 t' room (t.send md5 r).2.wireHdr
        ((t.send md5 r).2.wireBody ++ more) = some q ∧ q.Is status serverMsg data avpair) ↔
      (0 ≤ status ∧ status < 256) ∧ [] ∉ avpair ∧ ∀ avp ∈ avpair, avp.length < 128 := by
  obtain ⟨hfit, hr⟩ := writeResponse_eq.mp hsend
  rw [Option.getD_some] at hfit hr
  have hbody : r.body = responseBody status serverMsg data (counted avpair) := by rw [hr]
  have hversion : r.version &&& tacPlusMajorVerMask = tacPlusMajorVer := by
    rw [hr]
    exact tacPlusVer0_major
  have htype : (t.send md5 r).2.wireHdr.type = PacketType.author.code := by
    rw [wireHdr_type, hr]
  have hseq := wireHdr_seqNo_second md5 (r := r) hnum
  have hsmall : r.body.length ≤ 9988 := by
    rw [hbody]
    omega
  have hlen := wireHdr_len md5 (t := t) (r := r) (by omega)
  have hread := readPacketWhole_send md5 hkey (hnum'.trans hnum.symm) (by omega) hsmall
    hversion more
  have htotal := length_responseBody status serverMsg data (counted avpair)
  have hcount := length_counted_le avpair
  have hcounted : (counted avpair).length ≤ avpair.length :=
    (List.takeWhile_prefix _).length_le
  have hok : AvpairOk (counted avpair) :=
    ⟨fun avp havp => havps.text avp (counted_subset havp),
      fun avp havp => havps.short avp (counted_subset havp)⟩
  have hlay : ResponseLayout (slack r.body 3) status serverMsg data (counted avpair) := by
    rw [hbody]
    exact responseBody_layout (List.prefix_append _ _)
  rw [hbody] at hlen
  rw [authorGetResponse, hread]
  simp only
  rw [authorReadResponse_eq hlay hmsg hdata hok (by omega) htype hseq hlen (by omega) (by omega)]
  simp only [Option.some.injEq, exists_eq_left']
  exact responseRead_is_iff hstatus serverMsg data avpair

/-- A client and a server of one session, after the request. -/
def responseSession : TacacsPacket := ⟨1, 1, str "tacacs", [], 0⟩

/-- The answer to a request for a shell. -/
theorem response_roundtrip_shell :
    ∃ r, TacacsServerAuthorization.writeResponse 1 [] [] (some [str "priv-lvl=15"]) = some r ∧
      ∃ q, authorGetResponse (fun _ => constDigest 7) responseSession 8
          (responseSession.send (fun _ => constDigest 7) r).2.wireHdr
          ((responseSession.send (fun _ => constDigest 7) r).2.wireBody ++ []) = some q ∧
        q.Is 1 [] [] [str "priv-lvl=15"] := by
  have hsend : TacacsServerAuthorization.writeResponse 1 [] [] (some [str "priv-lvl=15"]) =
      some ⟨tacPlusVer0, .author, responseBody 1 [] [] (counted [str "priv-lvl=15"])⟩ :=
    writeResponse_eq.mpr ⟨by decide, rfl⟩
  have hroundtrip := @response_roundtrip_iff (fun _ => constDigest 7) responseSession
    responseSession rfl rfl rfl 1 (by decide) [] [] (by simp) (by simp) [str "priv-lvl=15"]
    ⟨by decide, by decide⟩ 8 (by decide) _ hsend []
  exact ⟨_, hsend, hroundtrip.mpr ⟨by decide, by decide, by decide⟩⟩

/-- An empty AVP in front: the packet has no AVP at all, and the other one is lost. -/
theorem response_roundtrip_lost :
    ∃ r, TacacsServerAuthorization.writeResponse 1 [] [] (some [[], str "priv-lvl=15"]) = some r ∧
      ¬ ∃ q, authorGetResponse (fun _ => constDigest 7) responseSession 8
          (responseSession.send (fun _ => constDigest 7) r).2.wireHdr
          ((responseSession.send (fun _ => constDigest 7) r).2.wireBody ++ []) = some q ∧
        q.Is 1 [] [] [[], str "priv-lvl=15"] := by
  refine ⟨_, writeResponse_eq.mpr ⟨by decide, rfl⟩, ?_⟩
  rintro ⟨q, hq, -, -, avpair, havpair, hall⟩
  have hread : (authorGetResponse (fun _ => constDigest 7) responseSession 8
      (responseSession.send (fun _ => constDigest 7) ⟨tacPlusVer0, .author,
        responseBody 1 [] [] (counted [[], str "priv-lvl=15"])⟩).2.wireHdr
      ((responseSession.send (fun _ => constDigest 7) ⟨tacPlusVer0, .author,
        responseBody 1 [] [] (counted [[], str "priv-lvl=15"])⟩).2.wireBody ++ [])).map
          (fun q => (q.avpair.map (·.takeWhile Option.isSome))) = some (some []) := by
    decide +kernel
  rw [Option.getD_some] at hq
  rw [hq, Option.map_some, havpair, Option.map_some, hall] at hread
  simp at hread

end Tacppd
