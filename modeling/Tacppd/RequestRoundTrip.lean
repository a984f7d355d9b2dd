/-
# Requests there and back

The body that `author_send_request` has made, read by
`TacacsServerAuthorization::get_request`, and the same for accounting.

An authorization request comes back unless an AVP has 128 bytes or more, or there are a
hundred of them or more (`request_roundtrip_iff`).  Of an accounting request everything
comes back but the flag, which is never written to the packet.
-/
import Tacppd.Client
import Tacppd.RoundTrip

namespace Tacppd

open Guarded

/-! ## What is to come back -/

/-- The numbers fit the bytes they are stored in. -/
structure RequestFields.Fit (f : RequestFields) : Prop where
  method : 0 ≤ f.method ∧ f.method < 256
  privLvl : 0 ≤ f.privLvl ∧ f.privLvl < 256
  authenType : 0 ≤ f.authenType ∧ f.authenType < 256
  authenService : 0 ≤ f.authenService ∧ f.authenService < 256

/-- A C string that fits a field of `cap` bytes. -/
structure Fits (cap : ℕ) (s : Bytes) : Prop where
  text : (0 : UInt8) ∉ s
  short : s.length < cap

/-- The numbers of a request, from the bytes that were read. -/
def fieldsOf (method privLvl authenType authenService : UInt8) : RequestFields :=
  ⟨method.toNat, privLvl.toNat, authenType.toNat, authenService.toNat⟩

/-- The decoder has returned this request.  The array has a null pointer after the last
AVP. -/
structure AuthorRead.Is (r : AuthorRead) (f : RequestFields) (user port : Bytes)
    (avpair : List Bytes) : Prop where
  fields : fieldsOf r.method r.privLvl r.authenType r.authenService = f
  user : cstr r.user = user
  port : cstr r.port = port
  remAddr : cstr r.remAddr = ourAddr
  avpair : r.avpair.takeWhile Option.isSome = avpair.map some

/-- The decoder has returned this request, but for the flag. -/
structure AcctRequest.Is (r : AcctRequest) (f : RequestFields) (user port : Bytes)
    (avpair : List Bytes) : Prop where
  fields : fieldsOf r.method r.privLvl r.authenType r.authenService = f
  user : r.user = user
  port : r.port = port
  remAddr : r.remAddr = ourAddr
  avpair : r.avpair = avpair

/-! ## The parts of a request -/

section

variable {pre user port : Bytes} {avpair : List Bytes}

/-- A request whose fixed fields are `pre` and the four lengths. -/
def writtenBody (pre user port : Bytes) (avpair : List Bytes) : Bytes :=
  requestBody (pre ++ requestLens user port avpair) user port avpair

/-- Where the parts of a request stand. -/
structure RequestLayout (body pre user port : Bytes) (avpair : List Bytes) : Prop where
  preAt : Holds body 0 pre
  fixedAt : Holds body pre.length (requestLens user port avpair)
  tableAt : Holds body (pre.length + 4) (avpair.map (UInt8.ofNat ·.length))
  userAt : Holds body (pre.length + 4 + avpair.length) user
  portAt : Holds body (pre.length + 4 + avpair.length + user.length) port
  remAddrAt : Holds body (pre.length + 4 + avpair.length + user.length + port.length) ourAddr
  avpsAt : Holds body
    (pre.length + 4 + avpair.length + user.length + port.length + ourAddr.length) avpair.flatten

theorem writtenBody_layout (pre user port : Bytes) (avpair : List Bytes) :
    RequestLayout (writtenBody pre user port avpair) pre user port avpair := by
  have h : Holds (writtenBody pre user port avpair) 0 (pre ++ requestLens user port avpair ++
      (avpair.map (UInt8.ofNat ·.length) ++ (user ++ (port ++ (ourAddr ++ avpair.flatten))))) :=
    holds_self _
  simp only [holds_append_iff, List.length_append, List.length_map, Nat.zero_add] at h
  obtain ⟨⟨hpre, hfixed⟩, htable, huser, hport, haddr, havps⟩ := h
  exact ⟨hpre, hfixed, htable, huser, hport, haddr, havps⟩

/-- The lengths in a request: the four from `off` on, and the table behind them. -/
structure RequestLens (body : Bytes) (off : ℕ) (user port : Bytes) (avpair : List Bytes) :
    Prop where
  user : byteAt body off = user.length
  port : byteAt body (off + 1) = port.length
  remAddr : byteAt body (off + 2) = ourAddr.length
  argCnt : byteAt body (off + 3) = avpair.length
  table : lensAt body (off + 4) avpair.length = signedLens avpair

theorem RequestLayout.lens {body : Bytes} (h : RequestLayout body pre user port avpair)
    (huser : user.length < usernameLen) (hport : port.length < portLen)
    (hcnt : avpair.length ≤ 255) : RequestLens body pre.length user port avpair := by
  rw [usernameLen] at huser
  rw [portLen] at hport
  have hbyte : ∀ n i, body.getD (pre.length + i) 0 = UInt8.ofNat n → n ≤ 255 →
      byteAt body (pre.length + i) = n := by
    intro n i hget hle
    rw [byteAt, hget, toNat_ofNat_of_le hle]
  have hget := getD_of_holds h.fixedAt
  have htable := lensAt_of_holds h.tableAt
  rw [List.length_map, map_signedByte_lens] at htable
  exact ⟨hbyte _ 0 (hget 0 (show 0 < 4 by omega)) (by omega),
    hbyte _ 1 (hget 1 (show 1 < 4 by omega)) (by omega),
    hbyte _ 2 (hget 2 (show 2 < 4 by omega)) (by decide),
    hbyte _ 3 (hget 3 (show 3 < 4 by omega)) hcnt, htable⟩

theorem length_writtenBody (pre user port : Bytes) (avpair : List Bytes) :
    (writtenBody pre user port avpair).length =
      pre.length + 4 + avpair.length + user.length + port.length + ourAddr.length +
        (avpair.map List.length).sum := by
  rw [writtenBody, length_requestBody, List.length_append]
  rfl

theorem fieldsOf_bytes_iff (f : RequestFields) :
    fieldsOf (UInt8.ofInt f.method) (UInt8.ofInt f.privLvl) (UInt8.ofInt f.authenType)
      (UInt8.ofInt f.authenService) = f ↔ f.Fit := by
  obtain ⟨method, privLvl, authenType, authenService⟩ := f
  rw [fieldsOf, RequestFields.mk.injEq, toNat_ofInt_eq_iff, toNat_ofInt_eq_iff,
    toNat_ofInt_eq_iff, toNat_ofInt_eq_iff]
  constructor
  · rintro ⟨hm, hp, ht, hs⟩
    exact ⟨hm, hp, ht, hs⟩
  · rintro ⟨hm, hp, ht, hs⟩
    exact ⟨hm, hp, ht, hs⟩

/-! ## What the writers make -/

variable {f : RequestFields} {req : Reply}

theorem cutAvps_eq_self (h : ∀ avp ∈ avpair, avp.length ≤ 255) : cutAvps avpair = avpair :=
  (List.map_congr_left fun avp havp => List.take_of_length_le (h avp havp)).trans
    (List.map_id' avpair)

theorem authorSendRequest_eq (h : ∀ avp ∈ avpair, avp.length ≤ 255) :
    authorSendRequest f user port avpair = some req ↔
      (writtenBody f.bytes user port avpair).length < 244 ∧
        req = ⟨tacPlusVer0, .author, writtenBody f.bytes user port avpair⟩ := by
  rw [authorSendRequest, Option.map_eq_some_iff, cutAvps_eq_self h]
  simp only [writeRequest_eq h]
  constructor
  · rintro ⟨body, ⟨hfit, rfl⟩, rfl⟩
    exact ⟨hfit, rfl⟩
  · rintro ⟨hfit, rfl⟩
    exact ⟨_, ⟨hfit, rfl⟩, rfl⟩

theorem accountSendRequest_eq (flag : ℤ) (h : ∀ avp ∈ avpair, avp.length ≤ 255) :
    accountSendRequest flag f user port avpair = some req ↔
      (writtenBody (0 :: f.bytes) user port avpair).length < 500 ∧
        req = ⟨tacPlusVer0, .acct, writtenBody (0 :: f.bytes) user port avpair⟩ := by
  rw [accountSendRequest, Option.map_eq_some_iff, cutAvps_eq_self h]
  simp only [writeRequest_eq h]
  constructor
  · rintro ⟨body, ⟨hfit, rfl⟩, rfl⟩
    exact ⟨hfit, rfl⟩
  · rintro ⟨hfit, rfl⟩
    exact ⟨_, ⟨hfit, rfl⟩, rfl⟩

end

/-! ## Authorization -/

section

variable {f : RequestFields} {user port : Bytes} {avpair : List Bytes} {hdr : Hdr}

variable {body : Bytes}

/-- What the second half of `get_request` finds in the body. -/
theorem authorInside_iff_lt (hlay : RequestLayout body f.bytes user port avpair)
    (hlens : RequestLens body 4 user port avpair) (huser : Fits usernameLen user)
    (hport : Fits portLen port) (hshort : ∀ avp ∈ avpair, avp.length < 128) :
    AuthorInside body ↔ avpair.length < maxAvp := by
  constructor
  · intro h
    have hroom := h.avps.2
    rwa [hlens.argCnt] at hroom
  · intro hroom
    constructor
    · rw [hlens.user, hlens.argCnt]
      exact ⟨hlay.userAt.readable 0, huser.short⟩
    · rw [hlens.user, hlens.port, hlens.argCnt]
      exact ⟨hlay.portAt.readable 0, hport.short⟩
    · rw [hlens.user, hlens.port, hlens.remAddr, hlens.argCnt]
      exact ⟨hlay.remAddrAt.readable 0, by decide⟩
    · rw [authorAvpOff, hlens.user, hlens.port, hlens.remAddr, hlens.argCnt, hlens.table,
        signedLens_of_lt hshort]
      exact ⟨avpsInside_of_holds hlay.avpsAt, hroom⟩

/-- What it returns then. -/
theorem authorRead_is_iff (hlay : RequestLayout body f.bytes user port avpair)
    (hlens : RequestLens body 4 user port avpair) (huser : Fits usernameLen user)
    (hport : Fits portLen port) (havps : AvpairOk avpair)
    (hshort : ∀ avp ∈ avpair, avp.length < 128) :
    (authorRead body).Is f user port avpair ↔ f.Fit := by
  have hget : ∀ i, i < 4 → body.getD i 0 = f.bytes.getD i 0 := by
    intro i hi
    have h := getD_of_holds hlay.preAt i hi
    rwa [Nat.zero_add] at h
  have hfields : fieldsOf (authorRead body).method (authorRead body).privLvl
      (authorRead body).authenType (authorRead body).authenService = f ↔ f.Fit := by
    simp only [authorRead]
    rw [hget 0 (by omega), hget 1 (by omega), hget 2 (by omega), hget 3 (by omega)]
    exact fieldsOf_bytes_iff f
  refine ⟨fun h => hfields.mp h.fields, fun hfit => ⟨hfields.mpr hfit, ?_, ?_, ?_, ?_⟩⟩
  · simp only [authorRead]
    rw [cstr_copied, hlens.user, hlens.argCnt]
    exact hlay.userAt.text_eq huser.text
  · simp only [authorRead]
    rw [cstr_copied, hlens.user, hlens.port, hlens.argCnt]
    exact hlay.portAt.text_eq hport.text
  · simp only [authorRead]
    rw [cstr_copied, hlens.user, hlens.port, hlens.remAddr, hlens.argCnt]
    exact hlay.remAddrAt.text_eq (by decide)
  · have htexts := avpTexts_of_holds hlay.avpsAt havps.text
    rw [← signedLens_of_lt hshort, ← hlens.table] at htexts
    simp only [authorRead]
    rw [authorAvpOff, hlens.user, hlens.port, hlens.remAddr, hlens.argCnt]
    exact (congrArg (fun l => List.takeWhile Option.isSome (l.map some ++ _)) htexts).trans
      (takeWhile_isSome_append avpair _)

/-- The lengths add up to the length of the body if and only if no AVP has 128 bytes or
more. -/
theorem authorTotal_eq_iff (hlens : RequestLens body 4 user port avpair) (havps : AvpairOk avpair)
    (hbody : body = writtenBody f.bytes user port avpair) :
    (body.length : ℤ) = authorTotal body ↔ ∀ avp ∈ avpair, avp.length < 128 := by
  have hpre : f.bytes.length = 4 := rfl
  have htotal := length_writtenBody f.bytes user port avpair
  rw [← hbody, hpre] at htotal
  rw [← arglens_signedLens_eq_iff havps.short, authorTotal, hlens.user, hlens.port,
    hlens.remAddr, hlens.argCnt, hlens.table, htotal]
  push_cast
  omega

/-- **What comes back of an authorization request.** -/
theorem authorRequest_is_iff (huser : Fits usernameLen user) (hport : Fits portLen port)
    (havps : AvpairOk avpair) (hcnt : avpair.length ≤ 255)
    (hbody : body = writtenBody f.bytes user port avpair)
    (htype : hdr.type = PacketType.author.code) (hseq : hdr.seqNo = 1)
    (hlen : hdr.len = body.length) :
    Ensures (TacacsServerAuthorization.checkedGetRequest hdr body)
        (fun r => ∃ q ∈ r, q.Is f user port avpair) ↔
      f.Fit ∧ avpair.length < maxAvp ∧ ∀ avp ∈ avpair, avp.length < 128 := by
  have hlay : RequestLayout body f.bytes user port avpair := by
    rw [hbody]
    exact writtenBody_layout ..
  have hlens : RequestLens body 4 user port avpair := hlay.lens huser.short hport.short hcnt
  have hinside : 8 + byteAt body 7 ≤ body.length := by
    have htotal := length_writtenBody f.bytes user port avpair
    have hpre : f.bytes.length = 4 := rfl
    rw [hlens.argCnt, hbody]
    omega
  rw [ensures_authorGetRequest, if_neg (not_not.mpr htype), if_neg (not_not.mpr hseq),
    and_iff_right hinside, hlen]
  have htotal := authorTotal_eq_iff hlens havps hbody
  by_cases hshort : ∀ avp ∈ avpair, avp.length < 128
  · rw [if_neg (not_not.mpr (htotal.mpr hshort)),
      authorInside_iff_lt hlay hlens huser hport hshort]
    simp only [Option.mem_def, Option.some.injEq, exists_eq_left']
    rw [authorRead_is_iff hlay hlens huser hport havps hshort, and_iff_left hshort]
    exact and_comm
  · rw [if_pos fun h => hshort (htotal.mp h)]
    refine iff_of_false ?_ fun h => hshort h.2.2
    rintro ⟨q, hq, -⟩
    contradiction

end

/-! ## Accounting -/

section

variable {f : RequestFields} {user port : Bytes} {avpair : List Bytes} {hdr : Hdr} {body : Bytes}

theorem acctInside_written (hlay : RequestLayout body (0 :: f.bytes) user port avpair)
    (hlens : RequestLens body 5 user port avpair) (huser : Fits usernameLen user)
    (hport : Fits portLen port) (hshort : ∀ avp ∈ avpair, avp.length < 128) :
    AcctInside body := by
  constructor
  · rw [hlens.user, hlens.argCnt]
    exact ⟨hlay.userAt.readable 0, huser.short.le⟩
  · rw [hlens.user, hlens.port, hlens.argCnt]
    exact ⟨hlay.portAt.readable 0, hport.short.le⟩
  · rw [hlens.user, hlens.port, hlens.remAddr, hlens.argCnt]
    exact ⟨hlay.remAddrAt.readable 0, by decide⟩
  · rw [acctAvpOff, hlens.user, hlens.port, hlens.remAddr, hlens.argCnt, hlens.table,
      signedLens_of_lt hshort]
    exact avpsInside_of_holds hlay.avpsAt

theorem acctRead_is_iff (peer : Bytes) (hlay : RequestLayout body (0 :: f.bytes) user port avpair)
    (hlens : RequestLens body 5 user port avpair) (huser : Fits usernameLen user)
    (hport : Fits portLen port) (havps : AvpairOk avpair)
    (hshort : ∀ avp ∈ avpair, avp.length < 128) :
    (acctRead peer body).Is f user port avpair ↔ f.Fit := by
  have hget : ∀ i, i < 5 → body.getD i 0 = (0 :: f.bytes).getD i 0 := by
    intro i hi
    have h := getD_of_holds hlay.preAt i hi
    rwa [Nat.zero_add] at h
  have hfields : fieldsOf (acctRead peer body).method (acctRead peer body).privLvl
      (acctRead peer body).authenType (acctRead peer body).authenService = f ↔ f.Fit := by
    simp only [acctRead]
    rw [hget 1 (by omega), hget 2 (by omega), hget 3 (by omega), hget 4 (by omega)]
    exact fieldsOf_bytes_iff f
  refine ⟨fun h => hfields.mp h.fields, fun hfit => ⟨hfields.mpr hfit, ?_, ?_, ?_, ?_⟩⟩
  · simp only [acctRead]
    rw [hlens.user, hlens.argCnt]
    exact hlay.userAt.text_eq huser.text
  · simp only [acctRead]
    rw [hlens.user, hlens.port, hlens.argCnt]
    exact hlay.portAt.text_eq hport.text
  · simp only [acctRead]
    rw [hlens.user, hlens.port, hlens.remAddr, hlens.argCnt]
    exact hlay.remAddrAt.text_eq (by decide)
  · simp only [acctRead]
    rw [acctAvpOff, hlens.user, hlens.port, hlens.remAddr, hlens.argCnt, hlens.table,
      signedLens_of_lt hshort]
    exact avpTexts_of_holds hlay.avpsAt havps.text

theorem acctTotal_eq_iff (hlens : RequestLens body 5 user port avpair) (havps : AvpairOk avpair)
    (hbody : body = writtenBody (0 :: f.bytes) user port avpair) :
    (body.length : ℤ) = acctTotal body ↔ ∀ avp ∈ avpair, avp.length < 128 := by
  have hpre : (0 :: f.bytes).length = 5 := rfl
  have htotal := length_writtenBody (0 :: f.bytes) user port avpair
  rw [← hbody, hpre] at htotal
  rw [← arglens_signedLens_eq_iff havps.short, acctTotal, hlens.user, hlens.port,
    hlens.remAddr, hlens.argCnt, hlens.table, htotal]
  push_cast
  omega

/-- The flag that is read is the byte nothing was written to. -/
theorem acctRead_flag (peer : Bytes) (hlay : RequestLayout body (0 :: f.bytes) user port avpair) :
    (acctRead peer body).flag = 0 :=
  getD_of_holds hlay.preAt 0 (by simp)

/-- **What comes back of an accounting request.**  The rest of it is read back as an
authorization request is, and has no bound on the number of the AVPs; the flag is 0. -/
theorem acctRequest_is_iff (peer : Bytes) (huser : Fits usernameLen user)
    (hport : Fits portLen port) (havps : AvpairOk avpair) (hcnt : avpair.length ≤ 255)
    (hbody : body = writtenBody (0 :: f.bytes) user port avpair)
    (htype : hdr.type = PacketType.acct.code) (hseq : hdr.seqNo = 1)
    (hlen : hdr.len = body.length) :
    Ensures (TacacsServerAccounting.checkedGetRequest peer hdr body)
        (fun r => ∃ q ∈ r, q.Is f user port avpair ∧ q.flag = 0) ↔
      f.Fit ∧ ∀ avp ∈ avpair, avp.length < 128 := by
  have hlay : RequestLayout body (0 :: f.bytes) user port avpair := by
    rw [hbody]
    exact writtenBody_layout ..
  have hlens : RequestLens body 5 user port avpair := hlay.lens huser.short hport.short hcnt
  have hinside : 9 + byteAt body 8 ≤ body.length := by
    have htotal := length_writtenBody (0 :: f.bytes) user port avpair
    have hpre : (0 :: f.bytes).length = 5 := rfl
    rw [hlens.argCnt, hbody]
    omega
  rw [ensures_acctGetRequest, if_neg (not_not.mpr htype), if_neg (not_not.mpr hseq),
    and_iff_right hinside, hlen]
  have htotal := acctTotal_eq_iff hlens havps hbody
  by_cases hshort : ∀ avp ∈ avpair, avp.length < 128
  · rw [if_neg (not_not.mpr (htotal.mpr hshort)),
      and_iff_right (acctInside_written hlay hlens huser hport hshort)]
    simp only [Option.mem_def, Option.some.injEq, exists_eq_left']
    rw [acctRead_is_iff peer hlay hlens huser hport havps hshort,
      and_iff_left (acctRead_flag peer hlay), and_iff_left hshort]
  · rw [if_pos fun h => hshort (htotal.mp h)]
    refine iff_of_false ?_ fun h => hshort h.2
    rintro ⟨q, hq, -⟩
    contradiction

/-- In every case a request that is accepted has the flag 0, which is the return value of
a failure. -/
theorem acctRequest_flag {peer : Bytes} {q : AcctRequest}
    (hbody : body = writtenBody (0 :: f.bytes) user port avpair)
    (hq : TacacsServerAccounting.checkedGetRequest peer hdr body = some (some q)) :
    q.flag = 0 := by
  have hens : Ensures (TacacsServerAccounting.checkedGetRequest peer hdr body)
      (fun r => r = some q) := ⟨some q, hq, rfl⟩
  rw [ensures_acctGetRequest] at hens
  split at hens
  · contradiction
  · split at hens
    · contradiction
    · obtain ⟨-, hens⟩ := hens
      split at hens
      · contradiction
      · obtain rfl := Option.some.inj hens.2
        apply acctRead_flag
        rw [hbody]
        exact writtenBody_layout ..

end

/-! ## Both requests -/

/-- `get_request` has returned the authorization request. -/
def AuthorReturned (f : RequestFields) (user port : Bytes) (avpair : List Bytes)
    (result : Option (Option AuthorRead)) : Prop :=
  ∃ q, result = some (some q) ∧ q.Is f user port avpair

/-- `get_request` has returned the accounting request, with its flag; 0 is no success. -/
def AcctReturned (flag : ℤ) (f : RequestFields) (user port : Bytes) (avpair : List Bytes)
    (result : Option (Option AcctRequest)) : Prop :=
  ∃ q, result = some (some q) ∧ q.flag ≠ 0 ∧ (q.flag.toNat : ℤ) = flag ∧ q.Is f user port avpair

/-- For every user and port that fit their fields and all AVPs of at most 255 bytes that
fit the buffer, in a packet that is the first of its session: an authorization request
is returned if and only if the numbers fit their bytes, there are
fewer than a hundred AVPs, and each has fewer than 128 bytes.  An accounting request is
never returned. -/
theorem request_roundtrip_iff (md5 : Bytes → Digest) {t : TacacsPacket} (hnew : t.seqNo = 0)
    (peer : Bytes) (flag : ℤ) (f : RequestFields) {user port : Bytes}
    (huser : Fits usernameLen user) (hport : Fits portLen port) {avpair : List Bytes}
    (havps : AvpairOk avpair) :
    (∀ req, authorSendRequest f user port avpair = some req →
      (AuthorReturned f user port avpair (TacacsServerAuthorization.checkedGetRequest
          (t.send md5 req).2.hdr (t.send md5 req).2.body) ↔
        f.Fit ∧ avpair.length < maxAvp ∧ ∀ avp ∈ avpair, avp.length < 128)) ∧
    ∀ req, accountSendRequest flag f user port avpair = some req →
      ¬ AcctReturned flag f user port avpair (TacacsServerAccounting.checkedGetRequest peer
        (t.send md5 req).2.hdr (t.send md5 req).2.body) := by
  refine ⟨fun req hsend => ?_, fun req hsend => ?_⟩
  · obtain ⟨hfit, rfl⟩ := (authorSendRequest_eq havps.short).mp hsend
    have hcnt : avpair.length ≤ 255 := by
      rw [length_writtenBody] at hfit
      omega
    have hseq := send_seqNo_first hnew md5
      ⟨tacPlusVer0, .author, writtenBody f.bytes user port avpair⟩
    have hlen := len_send md5 t (r := ⟨tacPlusVer0, .author, writtenBody f.bytes user port avpair⟩)
      (show _ ≤ 10000 by simp only; omega)
    refine Iff.trans ?_ (authorRequest_is_iff huser hport havps hcnt rfl rfl hseq hlen)
    constructor
    · rintro ⟨q, hq, h⟩
      exact ⟨some q, hq, q, rfl, h⟩
    · rintro ⟨r, hr, q, rfl, h⟩
      exact ⟨q, hr, h⟩
  · obtain ⟨-, rfl⟩ := (accountSendRequest_eq flag havps.short).mp hsend
    rintro ⟨q, hq, hflag, -⟩
    exact hflag (acctRequest_flag rfl hq)

/-- A request for a shell, with one AVP. -/
theorem request_roundtrip_shell :
    let t : TacacsPacket := ⟨1, 0, [], [], 0⟩
    let f : RequestFields := ⟨6, 1, 1, 1⟩
    ∃ req, authorSendRequest f (str "joe") (str "tty1") [str "service=shell"] = some req ∧
      AuthorReturned f (str "joe") (str "tty1") [str "service=shell"]
        (TacacsServerAuthorization.checkedGetRequest (t.send (fun _ => constDigest 0) req).2.hdr
          (t.send (fun _ => constDigest 0) req).2.body) := by
  intro t f
  have hshort : ∀ a ∈ [str "service=shell"], a.length ≤ 255 := by simp [str]
  have hsend : authorSendRequest f (str "joe") (str "tty1") [str "service=shell"] =
      some ⟨tacPlusVer0, .author,
        writtenBody f.bytes (str "joe") (str "tty1") [str "service=shell"]⟩ :=
    (authorSendRequest_eq hshort).mpr ⟨by decide, rfl⟩
  have hroundtrip := @request_roundtrip_iff (fun _ => constDigest 0) t rfl [] 2 f (str "joe")
    (str "tty1") ⟨by decide, by decide⟩ ⟨by decide, by decide⟩ [str "service=shell"]
    ⟨by decide, by decide⟩
  exact ⟨_, hsend, (hroundtrip.1 _ hsend).mpr
    ⟨⟨by decide, by decide, by decide, by decide⟩, by decide, by decide⟩⟩

/-- An AVP of 128 bytes: the request is refused.  A START of accounting without an AVP: the
flag that comes back is 0. -/
theorem request_roundtrip_lost :
    let t : TacacsPacket := ⟨1, 0, [], [], 0⟩
    let f : RequestFields := ⟨6, 1, 1, 1⟩
    let avp : Bytes := List.replicate 128 97
    (∃ req, authorSendRequest f (str "joe") (str "tty1") [avp] = some req ∧
      ¬ AuthorReturned f (str "joe") (str "tty1") [avp]
        (TacacsServerAuthorization.checkedGetRequest (t.send (fun _ => constDigest 0) req).2.hdr
          (t.send (fun _ => constDigest 0) req).2.body)) ∧
    ∃ req, accountSendRequest 2 f (str "joe") (str "tty1") [] = some req ∧
      ¬ AcctReturned 2 f (str "joe") (str "tty1") []
        (TacacsServerAccounting.checkedGetRequest [] (t.send (fun _ => constDigest 0) req).2.hdr
          (t.send (fun _ => constDigest 0) req).2.body) := by
  intro t f avp
  constructor
  · have hshort : ∀ a ∈ [avp], a.length ≤ 255 := by decide +kernel
    refine ⟨_, (authorSendRequest_eq hshort).mpr ⟨by decide +kernel, rfl⟩, ?_⟩
    rintro ⟨q, hq, -⟩
    have hrefused : TacacsServerAuthorization.checkedGetRequest
        (t.send (fun _ => constDigest 0) ⟨tacPlusVer0, .author, writtenBody f.bytes (str "joe")
          (str "tty1") [avp]⟩).2.hdr (writtenBody f.bytes (str "joe") (str "tty1") [avp]) =
        some none := by decide +kernel
    exact Option.some_ne_none q (Option.some.inj (hrefused.symm.trans hq)).symm
  · refine ⟨_, (accountSendRequest_eq 2 (by decide)).mpr ⟨by decide, rfl⟩, ?_⟩
    rintro ⟨q, hq, hflag, -⟩
    exact hflag (acctRequest_flag rfl hq)

end Tacppd
