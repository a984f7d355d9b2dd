/-
# The request writers of the client

`TacacsClient::author_send_request` and `TacacsClient::account_send_request`.  Both clear
a buffer, fill the fixed fields, and then move a pointer through the rest of it: one
length byte for each AVP, the three texts, the AVPs.

A write outside the buffer has no result.  `writeRequest_eq` says when there is none, and
what the packet is.
-/
import Mathlib.Algebra.Order.Ring.Nat
import Tacppd.Reply
import Tacppd.Lib.Layout

namespace Tacppd

open Guarded

/-! ## The client's own address -/

/-- `our_addr.get()`: an `ipaddr` is made with the address of the local host. -/
def ourAddr : Bytes := str "127.0.0.1"

/-! ## Filling the buffer

Each step gives the buffer and where the pointer `lens` stands in it. -/

/-- The loop that writes the lengths of the AVPs. -/
def writeLens (buf : Bytes) (lens : ℕ) : List Bytes → Option (Bytes × ℕ)
  | [] => some (buf, lens)
  | avp :: avpair =>
    (put buf lens (UInt8.ofNat avp.length)).bind fun buf => writeLens buf (lens + 1) avpair

/-- One of the three texts. -/
def writeText (buf : Bytes) (lens : ℕ) (s : Bytes) : Option (Bytes × ℕ) :=
  if 0 < s.length then strcpyNext 0 buf lens s else some (buf, lens)

/-- The loop that writes the AVPs. -/
def writeAvps (buf : Bytes) (lens : ℕ) : List Bytes → Option (Bytes × ℕ)
  | [] => some (buf, lens)
  | avp :: avpair =>
    (strcpy 0 buf lens avp).bind fun buf =>
      writeAvps buf (lens + (UInt8.ofNat avp.length).toNat) avpair

/-- The body of a request, made in a buffer of `cap` bytes behind the header; `fixed` are
its fixed fields.  The header announces `datalength` bytes, and these are sent. -/
def writeRequest (cap : ℕ) (fixed user port : Bytes) (avpair : List Bytes) : Option Bytes := do
  let arglens := (avpair.map List.length).sum
  let datalength := fixed.length + avpair.length + user.length + port.length + ourAddr.length +
    arglens
  let buf ← write (List.replicate cap 0) 0 fixed
  let (buf, lens) ← writeLens buf fixed.length avpair
  let (buf, lens) ← writeText buf lens user
  let (buf, lens) ← writeText buf lens port
  let (buf, lens) ← writeText buf lens ourAddr
  let (buf, _) ← writeAvps buf lens avpair
  front buf datalength

/-- The body of a packet with two texts, made in a buffer of `cap` bytes behind the
header. -/
def writeTwoTexts (cap : ℕ) (fixed userMsg data : Bytes) : Option Bytes := do
  let datalength := fixed.length + userMsg.length + data.length
  let buf ← write (List.replicate cap 0) 0 fixed
  let (buf, d) ← writeText buf fixed.length userMsg
  let (buf, _) ← writeText buf d data
  front buf datalength

/-! ## The two requests -/

/-- The numbers both requests begin with; each is cut to a byte. -/
structure RequestFields where
  method : ℤ
  privLvl : ℤ
  authenType : ℤ
  authenService : ℤ
  deriving DecidableEq, Repr

def RequestFields.bytes (f : RequestFields) : Bytes :=
  [UInt8.ofInt f.method, UInt8.ofInt f.privLvl, UInt8.ofInt f.authenType,
    UInt8.ofInt f.authenService]

/-- `if(strlen(avpair[i]) > 255) avpair[i][255] = 0`. -/
def cutAvps (avpair : List Bytes) : List Bytes := avpair.map (·.take 255)

/-- The lengths of the three texts and the number of the AVPs. -/
def requestLens (user port : Bytes) (avpair : List Bytes) : Bytes :=
  [UInt8.ofNat user.length, UInt8.ofNat port.length, UInt8.ofNat ourAddr.length,
    UInt8.ofNat avpair.length]

/-- `TacacsClient::author_send_request`, before the packet is numbered; the buffer has 256
bytes. -/
def authorSendRequest (f : RequestFields) (user port : Bytes) (avpair : List Bytes) :
    Option Reply :=
  (writeRequest (256 - tacPlusHdrSize) (f.bytes ++ requestLens user port avpair) user port
    (cutAvps avpair)).map fun body => ⟨tacPlusVer0, .author, body⟩

/-- `TacacsClient::account_send_request`; the buffer has 512 bytes.  The field `flags` is
in front of the others, and nothing is written to it. -/
def accountSendRequest (_flag : ℤ) (f : RequestFields) (user port : Bytes)
    (avpair : List Bytes) : Option Reply :=
  (writeRequest (512 - tacPlusHdrSize) (0 :: f.bytes ++ requestLens user port avpair) user port
    (cutAvps avpair)).map fun body => ⟨tacPlusVer0, .acct, body⟩

/-! ## What the steps leave -/

section

variable {cap : ℕ} {done s : Bytes} {avpair : List Bytes} {post : Bytes × ℕ → Prop}

theorem ensures_writeLens :
    Ensures (writeLens (clearBehind 0 cap done) done.length avpair) post ↔
      avpair.length ≤ cap - done.length ∧
        post (clearBehind 0 cap (done ++ avpair.map (UInt8.ofNat ·.length)),
          (done ++ avpair.map (UInt8.ofNat ·.length)).length) := by
  induction avpair generalizing done with
  | nil => simp [writeLens]
  | cons avp avpair ih =>
    have hput : put (clearBehind 0 cap done) done.length (UInt8.ofNat avp.length) =
        write (clearBehind 0 cap done) done.length [UInt8.ofNat avp.length] := by
      simp [write]
    have hnext : done.length + 1 = (done ++ [UInt8.ofNat avp.length]).length := by simp
    rw [writeLens, hput, ensures_bind, ensures_write, hnext, ih, ← and_assoc]
    simp only [List.length_append, List.length_cons, List.length_nil, List.append_assoc,
      List.singleton_append, List.map_cons]
    refine and_congr_left fun _ => ?_
    omega

theorem ensures_writeText :
    Ensures (writeText (clearBehind 0 cap done) done.length s) post ↔
      (s = [] ∨ s.length < cap - done.length) ∧
        post (clearBehind 0 cap (done ++ s), (done ++ s).length) := by
  rw [writeText]
  split
  · next hpos =>
    rw [ensures_strcpyNext, or_iff_right (List.ne_nil_of_length_pos hpos)]
  · next hpos =>
    obtain rfl : s = [] := List.length_eq_zero_iff.mp (by omega)
    simp

theorem writeAvps_eq {buf : Bytes} {lens : ℕ} (hshort : ∀ avp ∈ avpair, avp.length ≤ 255) :
    writeAvps buf lens avpair = strcpyAll 0 buf lens avpair := by
  induction avpair generalizing buf lens with
  | nil => rfl
  | cons avp avpair ih =>
    obtain ⟨havp, hrest⟩ := List.forall_mem_cons.mp hshort
    have hbyte : (UInt8.ofNat avp.length).toNat = avp.length := by
      rw [UInt8.toNat_ofNat']
      exact Nat.mod_eq_of_lt (by omega)
    rw [writeAvps, strcpyAll, hbyte]
    congr
    funext buf
    exact ih hrest

end

/-! ## The requests -/

/-- The body of a request: the fixed fields, the lengths of the AVPs, the texts, the
AVPs. -/
def requestBody (fixed user port : Bytes) (avpair : List Bytes) : Bytes :=
  fixed ++ (avpair.map (UInt8.ofNat ·.length) ++ (user ++ (port ++ (ourAddr ++ avpair.flatten))))

theorem length_requestBody (fixed user port : Bytes) (avpair : List Bytes) :
    (requestBody fixed user port avpair).length =
      fixed.length + avpair.length + user.length + port.length + ourAddr.length +
        (avpair.map List.length).sum := by
  simp only [requestBody, List.length_append, List.length_map, List.length_flatten]
  omega

/-- **What a request writer makes.**  It stays inside its buffer if and only if the body
and one terminator fit. -/
theorem writeRequest_eq {cap : ℕ} {fixed user port : Bytes} {avpair : List Bytes}
    (hshort : ∀ avp ∈ avpair, avp.length ≤ 255) (body : Bytes) :
    writeRequest cap fixed user port avpair = some body ↔
      (requestBody fixed user port avpair).length < cap ∧
        body = requestBody fixed user port avpair := by
  have hens : writeRequest cap fixed user port avpair = some body ↔
      Ensures (writeRequest cap fixed user port avpair) (· = body) := by simp [Ensures]
  have hclear : List.replicate cap 0 = clearBehind (0 : UInt8) cap [] := by simp [clearBehind]
  have hwrite := fun post => @ensures_write UInt8 0 cap [] fixed post
  have hbody : fixed ++ avpair.map (UInt8.ofNat ·.length) ++ user ++ port ++ ourAddr ++
      avpair.flatten = requestBody fixed user port avpair := by simp [requestBody]
  have haddr : ourAddr ≠ [] := by decide
  rw [hens, writeRequest, hclear]
  simp only [List.length_nil, List.nil_append] at hwrite
  simp only [↓ensures_do, hwrite, ↓ensures_writeLens, ↓ensures_writeText,
    writeAvps_eq hshort, ↓ensures_strcpyAll, hbody, ← length_requestBody,
    ensures_front List.prefix_rfl, or_iff_right haddr]
  simp only [List.length_append, List.length_map]
  rw [length_requestBody, ← List.length_flatten]
  constructor
  · rintro ⟨-, -, -, -, hfit, havps, rfl⟩
    refine ⟨?_, rfl⟩
    rcases havps with rfl | havps
    · simp only [List.flatten_nil, List.length_nil]
      omega
    · omega
  · rintro ⟨hfit, rfl⟩
    exact ⟨by omega, by omega, Or.inr (by omega), Or.inr (by omega), by omega, Or.inr (by omega),
      rfl⟩

/-! ## Two texts -/

/-- **What the writer of two texts makes.** -/
theorem writeTwoTexts_eq {cap : ℕ} {fixed userMsg data : Bytes} (body : Bytes) :
    writeTwoTexts cap fixed userMsg data = some body ↔
      (fixed.length ≤ cap ∧ (userMsg = [] ∨ fixed.length + userMsg.length < cap) ∧
        (data = [] ∨ fixed.length + userMsg.length + data.length < cap)) ∧
        body = fixed ++ userMsg ++ data := by
  have hens : writeTwoTexts cap fixed userMsg data = some body ↔
      Ensures (writeTwoTexts cap fixed userMsg data) (· = body) := by simp [Ensures]
  have hclear : List.replicate cap 0 = clearBehind (0 : UInt8) cap [] := by simp [clearBehind]
  have hwrite := fun post => @ensures_write UInt8 0 cap [] fixed post
  have hfront := fun post => @ensures_front UInt8 0 cap (fixed ++ userMsg ++ data) post
    (fixed ++ userMsg ++ data) List.prefix_rfl
  rw [hens, writeTwoTexts, hclear]
  simp only [List.length_nil, List.nil_append] at hwrite
  simp only [List.length_append] at hfront
  simp only [↓ensures_do, hwrite, ↓ensures_writeText, hfront]
  rw [List.length_append]
  constructor
  · rintro ⟨hfixed, hmsg, hdata, rfl⟩
    exact ⟨⟨by omega, hmsg.imp_right fun h => by omega, hdata.imp_right fun h => by omega⟩, rfl⟩
  · rintro ⟨⟨hfixed, hmsg, hdata⟩, rfl⟩
    exact ⟨by omega, hmsg.imp_right fun h => by omega, hdata.imp_right fun h => by omega, rfl⟩

end Tacppd
