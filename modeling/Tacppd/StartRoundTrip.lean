/-
# START packets there and back

`TacacsClient::authen_send_start`, read by `TacacsServerAuthentication::get_start`.  The
client announces the length of the data for every type of request, but copies them for
three of them only; for CHAP it puts an id in front that the length does not count.

The packet comes back if and only if the two names are shorter than their buffers, and
either the request is a PAP or ARAP login, or there are no data and it is no CHAP login
(`start_roundtrip_iff`).
-/
import Tacppd.Client
import Tacppd.DecoderAgree
import Tacppd.RoundTrip

namespace Tacppd

open Guarded

/-! ## The client -/

/-- `action`, `authen_type` and `service` of a request, from the `switch` of the source;
what no case sets is 0. -/
def startCodes : RequestType → UInt8 × UInt8 × UInt8
  | .enableRequest => (tacPlusAuthenLogin, 0, tacPlusAuthenSvcEnable)
  | .asciiLogin => (tacPlusAuthenLogin, tacPlusAuthenTypeAscii, tacPlusAuthenSvcLogin)
  | .papLogin => (tacPlusAuthenLogin, tacPlusAuthenTypePap, 0)
  | .papOut => (tacPlusAuthenSendauth, tacPlusAuthenTypePap, 0)
  | .chapLogin => (tacPlusAuthenLogin, tacPlusAuthenTypeChap, 0)
  | .chapOut => (tacPlusAuthenSendauth, tacPlusAuthenTypeChap, 0)
  | .mschapLogin => (tacPlusAuthenLogin, tacPlusAuthenTypeMschap, 0)
  | .mschapOut => (tacPlusAuthenSendauth, tacPlusAuthenTypeMschap, 0)
  | .arapLogin => (tacPlusAuthenLogin, tacPlusAuthenTypeArap, 0)
  | .asciiChpass => (tacPlusAuthenChpass, tacPlusAuthenTypeAscii, 0)
  | .chapPassword => (0, 0, 0)
  | .papPassword => (0, 0, 0)

/-- The types that have a case in the `switch`. -/
def RequestType.supported (type : RequestType) : Bool :=
  type != .chapPassword && type != .papPassword

def startVersion (type : RequestType) : UInt8 :=
  if type = .enableRequest ∨ type = .asciiLogin then tacPlusVer0 else tacPlusVer1

/-- What the announced length counts for the data. -/
def startDatalength (type : RequestType) (data : Bytes) : ℕ :=
  if type = .chapLogin ∨ type = .mschapLogin then 1 + data.length
  else if type = .papLogin ∨ type = .arapLogin then data.length
  else 0

def startFixed (type : RequestType) (username port data : Bytes) : Bytes :=
  [(startCodes type).1, 0, (startCodes type).2.1, (startCodes type).2.2,
    UInt8.ofNat username.length, UInt8.ofNat port.length, UInt8.ofNat ourAddr.length,
    UInt8.ofNat data.length]

/-- One of the three names. -/
def writeName (buf : Bytes) (i : ℕ) (s : Bytes) (n : ℕ) : Option Bytes :=
  if 0 < s.length then copyPadded 0 buf i s n else some buf

/-- The part of the data that is copied. -/
def writeSecret (buf : Bytes) (d : ℕ) (type : RequestType) (data : Bytes) : Option Bytes := do
  let buf ← if type = .chapLogin then
      (put buf d 1).bind fun buf => strcpy 0 buf (d + 1) data
    else some buf
  if type = .arapLogin ∨ type = .papLogin then strcpy 0 buf d data else some buf

/-- The body of the packet, made in a buffer of 256 bytes. -/
def sendStartBody (port username : Bytes) (type : RequestType) (data : Bytes) : Option Bytes := do
  let u := 8
  let p := u + username.length
  let a := p + port.length
  let d := a + ourAddr.length
  let datalength := 8 + username.length + port.length + ourAddr.length + startDatalength type data
  let buf ← write (List.replicate (256 - tacPlusHdrSize) 0) 0 (startFixed type username port data)
  let buf ← writeName buf u username (usernameLen - 1)
  let buf ← writeName buf p port (Tacppd.portLen - 1)
  let buf ← writeName buf a ourAddr (remAddrLen - 1)
  let buf ← writeSecret buf d type data
  front buf datalength

/-- `TacacsClient::authen_send_start`, before the packet is numbered.  Nothing inside when
the function returns before it has made the packet. -/
def authenSendStart (port username : Bytes) (type : RequestType) (data : Bytes) :
    Option (Option Reply) :=
  if usernameLen < (UInt8.ofNat username.length).toNat then some none
  else if Tacppd.portLen < (UInt8.ofNat port.length).toNat then some none
  else if remAddrLen < (UInt8.ofNat ourAddr.length).toNat then some none
  else (sendStartBody port username type data).map fun body =>
    some ⟨startVersion type, .authen, body⟩

/-! ## What the steps leave -/

section

variable {cap : ℕ} {done s data : Bytes} {post : Bytes → Prop} {type : RequestType}

theorem ensures_writeName {n : ℕ} (h : s.length ≤ cap - done.length) :
    Ensures (writeName (clearBehind 0 cap done) done.length s n) post ↔
      (s = [] ∨ n ≤ cap - done.length) ∧ post (clearBehind 0 cap (done ++ kept 0 n s)) := by
  rw [writeName]
  split
  · next hpos =>
    rw [ensures_copyPadded h, or_iff_right (List.ne_nil_of_length_pos hpos)]
  · next hpos =>
    obtain rfl : s = [] := List.length_eq_zero_iff.mp (by omega)
    simp [kept]

/-- What stands in the packet behind the three names. -/
def secretOf (type : RequestType) (data : Bytes) : Bytes :=
  if type = .chapLogin then 1 :: data
  else if type = .arapLogin ∨ type = .papLogin then data
  else []

theorem ensures_writeSecret :
    Ensures (writeSecret (clearBehind 0 cap done) done.length type data) post ↔
      (type = .chapLogin ∨ type = .arapLogin ∨ type = .papLogin →
        (secretOf type data).length < cap - done.length) ∧
        post (clearBehind 0 cap (done ++ secretOf type data)) := by
  rw [writeSecret, secretOf]
  by_cases hchap : type = .chapLogin
  · have hput : put (clearBehind 0 cap done) done.length 1 =
        write (clearBehind 0 cap done) done.length [1] := by simp [write]
    have hnext : done.length + 1 = (done ++ [(1 : UInt8)]).length := by simp
    have hother : ¬ (type = .arapLogin ∨ type = .papLogin) := by
      rw [hchap]
      decide
    rw [if_pos hchap, hput, ensures_do, ensures_bind, ensures_write, hnext, ensures_strcpy,
      ← and_assoc]
    simp only [hother, if_false, ensures_some]
    simp only [hchap, if_true, true_or, forall_const, List.append_assoc, List.singleton_append,
      List.length_append, List.length_cons, List.length_nil]
    refine and_congr_left fun _ => ?_
    omega
  · rw [if_neg hchap, if_neg hchap, ensures_do, ensures_some]
    by_cases hcopied : type = .arapLogin ∨ type = .papLogin
    · simp only [hcopied, if_true, ensures_strcpy, or_true, forall_const]
    · simp only [hchap, hcopied, if_false, ensures_some, or_false, false_imp_iff, true_and,
        List.append_nil]

end

/-! ## The packet -/

section

variable {type : RequestType} {user port data : Bytes} {r : Reply}

/-- A packet as far as it has been written; the announced length may end after it. -/
def startWritten (type : RequestType) (user port data : Bytes) : Bytes :=
  startFixed type user port data ++ (kept 0 (usernameLen - 1) user ++
    (kept 0 (portLen - 1) port ++ (ourAddr ++ secretOf type data)))

theorem length_secretOf_le (type : RequestType) (data : Bytes) :
    (secretOf type data).length ≤ startDatalength type data := by
  rw [secretOf, startDatalength]
  cases type <;> simp [Nat.add_comm]

theorem length_startWritten (type : RequestType) (user port data : Bytes) :
    (startWritten type user port data).length =
      8 + user.length + port.length + ourAddr.length + (secretOf type data).length := by
  have hfixed : (startFixed type user port data).length = 8 := rfl
  simp only [startWritten, List.length_append, length_kept, hfixed]
  omega

/-- What the packet holds: what was written, and zeros as far as the announced length
goes. -/
theorem sendStartBody_eq {body : Bytes} (huser : user.length ≤ usernameLen)
    (hport : port.length ≤ portLen) (h : sendStartBody port user type data = some body) :
    (startWritten type user port data).length ≤ 244 ∧
      ∃ k, body = startWritten type user port data ++ List.replicate k 0 := by
  rw [usernameLen] at huser
  rw [portLen] at hport
  have hens : Ensures (sendStartBody port user type data) (· = body) := ⟨body, h, rfl⟩
  have hfixed : (startFixed type user port data).length = 8 := rfl
  have haddr : ourAddr.length = 9 := rfl
  have hclear : List.replicate (256 - tacPlusHdrSize) 0 = clearBehind (0 : UInt8) 244 [] := rfl
  have hwrite := fun post => @ensures_write UInt8 0 244 [] (startFixed type user port data) post
  -- the three names, each with the part of the buffer before it
  have huserAt := fun post => @ensures_writeName 244 (startFixed type user port data) user post
    (usernameLen - 1) (by omega)
  have hportAt := fun post => @ensures_writeName 244 (startFixed type user port data ++
    kept 0 (usernameLen - 1) user) port post (portLen - 1)
    (by rw [List.length_append, length_kept]; omega)
  have haddrAt := fun post => @ensures_writeName 244 (startFixed type user port data ++
    kept 0 (usernameLen - 1) user ++ kept 0 (portLen - 1) port) ourAddr post (remAddrLen - 1)
    (by simp only [List.length_append, length_kept]; omega)
  have hsecretAt := fun post => @ensures_writeSecret 244 (startFixed type user port data ++
    kept 0 (usernameLen - 1) user ++ kept 0 (portLen - 1) port ++ ourAddr) data post type
  have hkept : kept 0 (remAddrLen - 1) ourAddr = ourAddr := by decide
  simp only [List.length_nil, List.nil_append] at hwrite
  simp only [List.length_append, length_kept, hfixed, hkept] at huserAt hportAt haddrAt hsecretAt
  rw [sendStartBody, hclear] at hens
  simp only [↓ensures_do, hwrite, huserAt, hportAt, haddrAt, hsecretAt] at hens
  obtain ⟨-, -, -, -, hroom, body', hfront, rfl⟩ := hens
  have hlen := length_startWritten type user port data
  have hle := length_secretOf_le type data
  have hshort : (startWritten type user port data).length ≤ 244 := by
    rw [hlen]
    by_cases hcopied : type = .chapLogin ∨ type = .arapLogin ∨ type = .papLogin
    · have hfits := hroom hcopied
      omega
    · have hnone : secretOf type data = [] := by
        rw [secretOf, if_neg fun h => hcopied (Or.inl h), if_neg fun h => hcopied (Or.inr h)]
      rw [hnone, List.length_nil]
      omega
  refine ⟨hshort, ?_⟩
  have hwritten : startFixed type user port data ++ kept 0 (usernameLen - 1) user ++
      kept 0 (portLen - 1) port ++ ourAddr ++ secretOf type data =
      startWritten type user port data := by simp only [startWritten, List.append_assoc]
  rw [hwritten, front] at hfront
  split at hfront
  · obtain rfl := Option.some.inj hfront
    rw [clearBehind, List.take_append, List.take_of_length_le (by omega), List.take_replicate]
    exact ⟨_, rfl⟩
  · simp at hfront

/-- **What `authen_send_start` makes.** -/
theorem authenSendStart_eq (huser : user.length ≤ usernameLen) (hport : port.length ≤ portLen)
    (h : authenSendStart port user type data = some (some r)) :
    r.version = startVersion type ∧ (startWritten type user port data).length ≤ 244 ∧
      ∃ k, r.body = startWritten type user port data ++ List.replicate k 0 := by
  rw [authenSendStart] at h
  split at h
  · simp at h
  split at h
  · simp at h
  split at h
  · simp at h
  obtain ⟨body, hbody, hr⟩ := Option.map_eq_some_iff.mp h
  obtain rfl := Option.some.inj hr
  exact ⟨rfl, sendStartBody_eq huser hport hbody⟩

end

/-! ## What the server finds -/

section

variable {type : RequestType} {user port data body : Bytes} {k : ℕ}

/-- Where the parts of the packet stand, and what is behind them. -/
structure StartLayout (body : Bytes) (type : RequestType) (user port data : Bytes) (k : ℕ) :
    Prop where
  fixedAt : Holds body 0 (startFixed type user port data)
  userAt : Holds body 8 (kept 0 (usernameLen - 1) user)
  portAt : Holds body (8 + user.length) (kept 0 (portLen - 1) port)
  remAddrAt : Holds body (8 + user.length + port.length) ourAddr
  dataAt : body.drop (8 + user.length + port.length + ourAddr.length) =
    secretOf type data ++ List.replicate k 0

theorem startWritten_layout (type : RequestType) (user port data : Bytes) (k : ℕ) :
    StartLayout (startWritten type user port data ++ List.replicate k 0) type user port data k := by
  have hfixed : (startFixed type user port data).length = 8 := rfl
  have h := holds_self (startWritten type user port data ++ List.replicate k 0)
  have hparts : Holds (startWritten type user port data ++ List.replicate k 0) 0
      (startFixed type user port data ++ (kept 0 (usernameLen - 1) user ++
        (kept 0 (portLen - 1) port ++ (ourAddr ++
          (secretOf type data ++ List.replicate k 0))))) := by
    simpa only [startWritten, List.append_assoc] using h
  simp only [holds_append_iff, hfixed, length_kept, Nat.zero_add] at hparts
  obtain ⟨hfixedAt, huser, hport, haddr, -⟩ := hparts
  refine ⟨hfixedAt, huser, hport, haddr, ?_⟩
  have hfront : (startFixed type user port data ++ kept 0 (usernameLen - 1) user ++
      kept 0 (portLen - 1) port ++ ourAddr).length =
      8 + user.length + port.length + ourAddr.length := by
    simp only [List.length_append, length_kept, hfixed]
  have hbody : startWritten type user port data ++ List.replicate k 0 =
      (startFixed type user port data ++ kept 0 (usernameLen - 1) user ++
        kept 0 (portLen - 1) port ++ ourAddr) ++ (secretOf type data ++ List.replicate k 0) := by
    simp only [startWritten, List.append_assoc]
  rw [hbody, ← hfront, List.drop_left]

/-- The four lengths. -/
structure StartLens (body user port data : Bytes) : Prop where
  user : byteAt body 4 = user.length
  port : byteAt body 5 = port.length
  remAddr : byteAt body 6 = ourAddr.length
  data : byteAt body 7 = (UInt8.ofNat data.length).toNat

theorem StartLayout.lens (h : StartLayout body type user port data k)
    (huser : user.length ≤ usernameLen) (hport : port.length ≤ portLen) :
    StartLens body user port data := by
  rw [usernameLen] at huser
  rw [portLen] at hport
  have hget : ∀ i, i < 8 → byteAt body i = ((startFixed type user port data).getD i 0).toNat := by
    intro i hi
    have hbyte := getD_of_holds h.fixedAt i hi
    rw [Nat.zero_add] at hbyte
    rw [byteAt, hbyte]
  exact ⟨(hget 4 (by omega)).trans (toNat_ofNat_of_le (by omega)),
    (hget 5 (by omega)).trans (toNat_ofNat_of_le (by omega)),
    (hget 6 (by omega)).trans (toNat_ofNat_of_le (by decide)), hget 7 (by omega)⟩

/-- The type of the request is read back, for every type the client supports. -/
theorem startType_startCodes (h : type.supported = true) :
    startType (startCodes type).1 (startCodes type).2.1 (startCodes type).2.2
      (startVersion type) = some type := by
  revert h
  cases type <;> decide

/-- What the server is to return: the data that were given to the client, for CHAP with
the id in front of them. -/
structure Start.Is (start : Start) (type : RequestType) (user port data : Bytes) : Prop where
  type_eq : start.type = some type
  user : start.authen.user = user
  port : start.authen.port = port
  remAddr : start.authen.remAddr = ourAddr
  data : start.data = if type = .chapLogin then 1 :: data else data

/-- Where a result for a refused field is not what is asked for. -/
theorem field_iff {cap len : ℕ} {r p q : Prop} (hr : ¬ r) :
    (if cap < len then r else (p ∧ len < cap) ∧ q) ↔ (p ∧ len < cap) ∧ q := by
  split
  · refine iff_of_false hr ?_
    omega
  · rfl

/-- The announced data are inside, shorter than their buffer, and the ones that are asked
for. -/
def DataReturned (body : Bytes) (off len : ℕ) (type : RequestType) (data : Bytes) : Prop :=
  (Guarded.Readable 0 body off len ∧ len < dataLen) ∧
    text 0 body off len = if type = .chapLogin then 1 :: data else data

/-- **What comes back of a START packet**, in terms of the data alone. -/
theorem checkedGetStart_is_iff (hlay : StartLayout body type user port data k)
    (hlens : StartLens body user port data) (hsup : type.supported = true)
    (huser : (0 : UInt8) ∉ user) (hport : (0 : UInt8) ∉ port) {a : TacacsServerAuthentication}
    {peer : Bytes} {hdr : Hdr} (hver : hdr.version = startVersion type) (hseq : hdr.seqNo = 1) :
    Ensures (checkedGetStart a peer hdr body) (·.Is type user port data) ↔
      user.length < usernameLen ∧ port.length < portLen ∧
        DataReturned body (8 + user.length + port.length + ourAddr.length)
          (UInt8.ofNat data.length).toNat type data := by
  have hrefused : ∀ a : TacacsServerAuthentication,
      ¬ (⟨a, [], none⟩ : Start).Is type user port data := fun a h => by simpa using h.type_eq
  have hnot : ¬ (hdr.version ≠ tacPlusVer0 ∧ hdr.version ≠ tacPlusVer1) := by
    rw [hver, startVersion]
    split <;> simp
  have h8 : 8 ≤ body.length := by
    have hle := hlay.fixedAt.length_le
    have hfixed : (startFixed type user port data).length = 8 := rfl
    omega
  have hget : ∀ i, i < 8 → body.getD i 0 = (startFixed type user port data).getD i 0 := by
    intro i hi
    have hbyte := getD_of_holds hlay.fixedAt i hi
    rwa [Nat.zero_add] at hbyte
  have htype : startType (body.getD 0 0) (body.getD 2 0) (body.getD 3 0) hdr.version =
      some type := by
    rw [hget 0 (by omega), hget 2 (by omega), hget 3 (by omega), hver]
    exact startType_startCodes hsup
  rw [checkedGetStart]
  simp only [↓ensures_do, ↓ensures_byte, ↓ensures_ite, ↓ensures_some, ↓ensures_checkedField,
    toNat_getD, hlens.user, hlens.port, hlens.remAddr, hlens.data, cstr_copied, htype]
  rw [and_iff_right (by omega), and_iff_right (by omega), and_iff_right (by omega), if_neg hnot,
    if_neg (not_not.mpr hseq), and_iff_right (by omega), and_iff_right (by omega),
    and_iff_right (by omega), field_iff (hrefused _), field_iff (hrefused _),
    field_iff (hrefused _), and_iff_right (show 7 < body.length by omega), field_iff (hrefused _)]
  constructor
  · rintro ⟨⟨-, hu⟩, ⟨-, hp⟩, -, hd, his⟩
    exact ⟨hu, hp, hd, his.data⟩
  · rintro ⟨hu, hp, hd, hdata⟩
    have huserAt := hlay.userAt
    have hportAt := hlay.portAt
    rw [kept_eq_self (Nat.le_sub_one_of_lt hu)] at huserAt
    rw [kept_eq_self (Nat.le_sub_one_of_lt hp)] at hportAt
    exact ⟨⟨huserAt.readable 0, hu⟩, ⟨hportAt.readable 0, hp⟩,
      ⟨hlay.remAddrAt.readable 0, by decide⟩, hd,
      ⟨rfl, huserAt.text_eq huser, hportAt.text_eq hport, hlay.remAddrAt.text_eq (by decide),
        hdata⟩⟩

/-! ## The data -/

/-- Where only zeros stand there is no text. -/
theorem text_of_drop_zeros {off : ℕ} (h : body.drop off = List.replicate k 0) (n : ℕ) :
    text 0 body off n = [] := by
  rw [text, h, List.take_replicate]
  cases min n k <;> simp [List.replicate_succ]

/-- Of the data that were announced, the server gets what was asked for if and only if
they were copied, or there are none; for CHAP the last byte is always missing. -/
theorem dataReturned_iff (hlay : StartLayout body type user port data k)
    (hdata : (0 : UInt8) ∉ data) (hshort : (startWritten type user port data).length ≤ 244) :
    DataReturned body (8 + user.length + port.length + ourAddr.length)
        (UInt8.ofNat data.length).toNat type data ↔
      type = .papLogin ∨ type = .arapLogin ∨ type ≠ .chapLogin ∧ data = [] := by
  have hat := hlay.dataAt
  rw [length_startWritten] at hshort
  rw [DataReturned]
  by_cases hchap : type = .chapLogin
  · -- the text is no longer than the data without the id
    refine iff_of_false ?_ (by simp [hchap])
    rintro ⟨-, htext⟩
    have hle := length_text_le 0 body (8 + user.length + port.length + ourAddr.length)
      (UInt8.ofNat data.length).toNat
    have hmod : (UInt8.ofNat data.length).toNat ≤ data.length := by
      rw [UInt8.toNat_ofNat']
      exact Nat.mod_le _ _
    rw [htext, if_pos hchap, List.length_cons] at hle
    omega
  · rw [if_neg hchap]
    by_cases hcopied : type = .arapLogin ∨ type = .papLogin
    · have hsecret : secretOf type data = data := by rw [secretOf, if_neg hchap, if_pos hcopied]
      rw [hsecret] at hat hshort
      have hholds : Holds body (8 + user.length + port.length + ourAddr.length) data :=
        ⟨_, hat.symm⟩
      have hlen : (UInt8.ofNat data.length).toNat = data.length :=
        toNat_ofNat_of_le (by omega)
      refine iff_of_true ⟨⟨?_, ?_⟩, ?_⟩ ?_
      · rw [hlen]
        exact hholds.readable 0
      · have haddr : ourAddr.length = 9 := rfl
        rw [hlen, dataLen]
        omega
      · rw [hlen]
        exact hholds.text_eq hdata
      · exact hcopied.elim (fun h => Or.inr (Or.inl h)) Or.inl
    · have hsecret : secretOf type data = [] := by rw [secretOf, if_neg hchap, if_neg hcopied]
      rw [hsecret, List.nil_append] at hat
      rw [text_of_drop_zeros hat]
      constructor
      · rintro ⟨-, hnone⟩
        exact Or.inr (Or.inr ⟨hchap, hnone.symm⟩)
      · rintro (hpap | harap | ⟨-, rfl⟩)
        · exact absurd (Or.inr hpap) hcopied
        · exact absurd (Or.inl harap) hcopied
        · exact ⟨⟨readable_zero 0 body _, by decide⟩, rfl⟩

end

/-! ## There and back -/

/-- For every type the client supports and every user, port and data that fit the packet,
the names no longer than `get_start` accepts, in the first packet of a session: it comes
back if and only if both names are shorter than 32 bytes and the request is a PAP or ARAP
login, or another one but a CHAP login and without data. -/
theorem start_roundtrip_iff (md5 : Bytes → Digest) {t : TacacsPacket} (hnew : t.seqNo = 0)
    (a : TacacsServerAuthentication) (peer : Bytes) {type : RequestType}
    (hsup : type.supported = true) {user port data : Bytes} (huser : (0 : UInt8) ∉ user)
    (hport : (0 : UInt8) ∉ port) (hdata : (0 : UInt8) ∉ data)
    (huserLen : user.length ≤ usernameLen) (hportLen : port.length ≤ portLen) {r : Reply}
    (hsend : authenSendStart port user type data = some (some r)) :
    (∃ start, checkedGetStart a peer (t.send md5 r).2.hdr (slack r.body 15) = some start ∧
        start.Is type user port data) ↔
      user.length < usernameLen ∧ port.length < portLen ∧
        (type = .papLogin ∨ type = .arapLogin ∨ type ≠ .chapLogin ∧ data = []) := by
  obtain ⟨hver, hshort, k, hbody⟩ := authenSendStart_eq huserLen hportLen hsend
  have hlay : StartLayout (slack r.body 15) type user port data (k + 15) := by
    rw [slack, hbody, List.append_assoc, List.replicate_append_replicate]
    exact startWritten_layout type user port data _
  have hseq := send_seqNo_first hnew md5 r
  refine Iff.trans (checkedGetStart_is_iff hlay (hlay.lens huserLen hportLen) hsup huser hport
    hver hseq) ?_
  rw [dataReturned_iff hlay hdata hshort]

/-- A PAP login. -/
theorem start_roundtrip_pap :
    let t : TacacsPacket := ⟨1, 0, str "tacacs", [], 0⟩
    ∃ r, authenSendStart (str "tty1") (str "joe") .papLogin (str "secret") = some (some r) ∧
      ∃ start, checkedGetStart TacacsServerAuthentication.new []
          (t.send (fun _ => constDigest 7) r).2.hdr (slack r.body 15) = some start ∧
        start.Is .papLogin (str "joe") (str "tty1") (str "secret") := by
  intro t
  have hsend : authenSendStart (str "tty1") (str "joe") .papLogin (str "secret") = some (some
      ⟨tacPlusVer1, .authen, startWritten .papLogin (str "joe") (str "tty1") (str "secret")⟩) := by
    decide +kernel
  have hroundtrip := @start_roundtrip_iff (fun _ => constDigest 7) t rfl
    TacacsServerAuthentication.new [] .papLogin rfl (str "joe") (str "tty1") (str "secret")
    (by decide) (by decide) (by decide) (by decide) (by decide) _ hsend
  exact ⟨_, hsend, hroundtrip.mpr ⟨by decide, by decide, Or.inl rfl⟩⟩

/-- A CHAP login with the challenge and response `abc`: the server gets the id, `a` and
`b`. -/
theorem start_roundtrip_chap :
    let t : TacacsPacket := ⟨1, 0, str "tacacs", [], 0⟩
    ∃ r, authenSendStart (str "tty1") (str "joe") .chapLogin (str "abc") = some (some r) ∧
      ((checkedGetStart TacacsServerAuthentication.new [] (t.send (fun _ => constDigest 7) r).2.hdr
        (slack r.body 15)).map (·.data) = some (1 :: str "ab")) ∧
      ¬ ∃ start, checkedGetStart TacacsServerAuthentication.new []
          (t.send (fun _ => constDigest 7) r).2.hdr (slack r.body 15) = some start ∧
        start.Is .chapLogin (str "joe") (str "tty1") (str "abc") := by
  intro t
  have hread : (checkedGetStart TacacsServerAuthentication.new []
      (t.send (fun _ => constDigest 7) ⟨tacPlusVer1, .authen,
        startWritten .chapLogin (str "joe") (str "tty1") (str "abc")⟩).2.hdr
      (slack (startWritten .chapLogin (str "joe") (str "tty1") (str "abc")) 15)).map (·.data) =
      some (1 :: str "ab") := by decide +kernel
  refine ⟨⟨tacPlusVer1, .authen, startWritten .chapLogin (str "joe") (str "tty1") (str "abc")⟩,
    by decide +kernel, hread, ?_⟩
  rintro ⟨start, hstart, his⟩
  have hdata := his.data
  rw [hstart, Option.map_some, hdata] at hread
  revert hread
  decide

end Tacppd
