/-
# The request decoders with every access checked

The four functions that take a decrypted body apart, here with each read of the body
and each write of a buffer checked: outside `none` stands for an access outside the
body or outside a buffer, inside it for a refused packet.

The models used so far read the body with the zeros behind it.
-/
import Tacppd.Authen
import Tacppd.Request
import Tacppd.Lib.Guarded

namespace Tacppd

open Guarded

/-! ## Texts -/

/-- `strncpy` into a cleared buffer of `cap` bytes: all `n` bytes are written. -/
def checkedCopy (body : Bytes) (off n cap : ℕ) : Option Bytes :=
  copyUntil 0 body (List.replicate cap 0) off 0 n

/-- The same with a terminator after the `n` bytes. -/
def checkedString (body : Bytes) (off n cap : ℕ) : Option Bytes :=
  (checkedCopy body off n cap).bind fun buf => put buf n 0

/-- `(size_t)` of an `int`. -/
def sizeT (l : ℤ) : ℕ := (l % 18446744073709551616).toNat

/-! ## Authentication -/

/-- One field of a START packet: too long a field is refused, with another one the
function goes on. -/
def checkedField {β : Type} (body : Bytes) (off len cap : ℕ) (refused : β)
    (next : Bytes → Option β) : Option β :=
  if cap < len then some refused else (checkedString body off len cap).bind next

/-- `get_start`.  The pointers to the four texts come first of all. -/
def checkedGetStart (a : TacacsServerAuthentication) (peer : Bytes) (hdr : Hdr) (body : Bytes) :
    Option Start := do
  let userLen ← body[4]?
  let portLen ← body[5]?
  let remAddrLen ← body[6]?
  if hdr.version ≠ tacPlusVer0 ∧ hdr.version ≠ tacPlusVer1 then some ⟨a, [], none⟩
  else if hdr.seqNo ≠ 1 then some ⟨{ a with cisco := peer }, [], none⟩
  else do
    let action ← body[0]?
    let service ← body[3]?
    let authenType ← body[2]?
    let a := { a with cisco := peer }
    checkedField body 8 userLen.toNat usernameLen ⟨a, [], none⟩ fun user =>
      let a := { a with user := cstr user }
      let off := 8 + userLen.toNat
      checkedField body off portLen.toNat Tacppd.portLen ⟨a, [], none⟩ fun port =>
        let a := { a with port := cstr port }
        let off := off + portLen.toNat
        checkedField body off remAddrLen.toNat Tacppd.remAddrLen ⟨a, [], none⟩ fun remAddr => do
          let a := { a with remAddr := cstr remAddr }
          let off := off + remAddrLen.toNat
          let len ← body[7]?
          checkedField body off len.toNat dataLen ⟨a, [], none⟩ fun data =>
            some ⟨a, cstr data, startType action authenType service hdr.version⟩

/-- `get_cont`; the buffer of the user message has `maxlen` bytes. -/
def checkedGetCont (hdr : Hdr) (body : Bytes) (maxlen : ℕ) : Option (Option Cont) := do
  let m1 ← body[0]?
  let m0 ← body[1]?
  let d1 ← body[2]?
  let d0 ← body[3]?
  let userMsgLen : ℕ := m1.toNat * 256 + m0.toNat
  let userDataLen : ℕ := d1.toNat * 256 + d0.toNat
  if hdr.len ≠ 5 + userMsgLen + userDataLen then some none
  else do
    let flag ← body[4]?
    if maxlen < userMsgLen then some none
    else do
      let userMsg ← checkedCopy body 5 userMsgLen maxlen
      if dataLen < userDataLen then some none
      else do
        let _data ← checkedCopy body (5 + userMsgLen) userDataLen dataLen
        some (some ⟨flag, cstr userMsg⟩)

/-! ## The length table -/

/-- The first loop over the length bytes: their sum. -/
def checkedArglens (body : Bytes) (off : ℕ) (arglens : ℤ) : ℕ → Option ℤ
  | 0 => some arglens
  | n + 1 =>
    match body[off]? with
    | none => none
    | some b => checkedArglens body (off + 1) (arglens + signedByte b) n

/-- The second loop: the length bytes go to the table `l`. -/
def checkedTable (body : Bytes) (l : List ℤ) (off i : ℕ) : ℕ → Option (List ℤ)
  | 0 => some l
  | n + 1 =>
    match body[off]? with
    | none => none
    | some b => (put l i (signedByte b)).bind fun l => checkedTable body l (off + 1) (i + 1) n

/-- `int l[255]`; what it holds before does not matter. -/
def newTable : List ℤ := List.replicate 255 0

/-! ## Authorization -/

/-- The loop over the AVPs, from the `i`-th on.  Each goes through the buffer `ss` of 255
bytes; the array gets the text, and a null pointer after it. -/
def checkedAvps (body : Bytes) (l : List ℤ) (ss : Bytes) (avpair : List (Option Bytes))
    (off i : ℕ) : ℕ → Option (List (Option Bytes))
  | 0 => some avpair
  | n + 1 => do
    let len ← l[i]?
    let ss ← copyUntil 0 body ss off 0 (sizeT len)
    let ss ← put ss (sizeT len) 0
    let avpair ← put avpair i (some (cstr ss))
    let avpair ← put avpair (i + 1) none
    checkedAvps body l ss avpair (off + sizeT len) (i + 1) n

/-- What `TacacsServerAuthorization::get_request` leaves: its numbers, buffers and the
array of AVPs. -/
structure AuthorRead where
  method : UInt8
  privLvl : UInt8
  authenType : UInt8
  authenService : UInt8
  user : Bytes
  port : Bytes
  remAddr : Bytes
  avpair : List (Option Bytes)
  deriving DecidableEq, Repr

/-- `TacacsServerAuthorization::get_request`. -/
def TacacsServerAuthorization.checkedGetRequest (hdr : Hdr) (body : Bytes) :
    Option (Option AuthorRead) :=
  if hdr.type ≠ PacketType.author.code then some none
  else if hdr.seqNo ≠ 1 then some none
  else do
    let argCnt ← body[7]?
    let arglens ← checkedArglens body 8 0 argCnt.toNat
    let userLen ← body[4]?
    let portLen ← body[5]?
    let remAddrLen ← body[6]?
    if hdr.len ≠ 8 + argCnt.toNat + userLen.toNat + portLen.toNat + remAddrLen.toNat + arglens then
      some none
    else do
      let method ← body[0]?
      let privLvl ← body[1]?
      let authenType ← body[2]?
      let service ← body[3]?
      let l ← checkedTable body newTable 8 0 argCnt.toNat
      let u := 8 + argCnt.toNat
      let user ← checkedString body u userLen.toNat usernameLen
      let p := u + userLen.toNat
      let port ← checkedString body p portLen.toNat Tacppd.portLen
      let r := p + portLen.toNat
      let remAddr ← checkedString body r remAddrLen.toNat Tacppd.remAddrLen
      let avpair ← put (List.replicate maxAvp none) 0 none
      let avpair ← checkedAvps body l (List.replicate 255 0) avpair (r + remAddrLen.toNat) 0
        argCnt.toNat
      some (some ⟨method, privLvl, authenType, service, user, port, remAddr, avpair⟩)

/-! ## Accounting -/

/-- The loop over the AVPs, from the `i`-th on.  Each goes through the cleared buffer
`str` of 128 bytes to the end of a list. -/
def checkedAvpList (body : Bytes) (l : List ℤ) (avpair : List Bytes) (off i : ℕ) :
    ℕ → Option (List Bytes)
  | 0 => some avpair
  | n + 1 => do
    let len ← l[i]?
    let s ← checkedCopy body off (sizeT len) 128
    checkedAvpList body l (avpair ++ [cstr s]) (off + sizeT len) (i + 1) n

/-- `TacacsServerAccounting::get_request`; the address of the peer is a C string. -/
def TacacsServerAccounting.checkedGetRequest (peer : Bytes) (hdr : Hdr) (body : Bytes) :
    Option (Option AcctRequest) :=
  if hdr.type ≠ PacketType.acct.code then some none
  else if hdr.seqNo ≠ 1 then some none
  else do
    let nas ← checkedCopy (peer ++ [0]) 0 ipLen ipLen
    let argCnt ← body[8]?
    let arglens ← checkedArglens body 9 0 argCnt.toNat
    let userLen ← body[5]?
    let portLen ← body[6]?
    let remAddrLen ← body[7]?
    if hdr.len ≠ 9 + argCnt.toNat + userLen.toNat + portLen.toNat + remAddrLen.toNat + arglens then
      some none
    else do
      let flags ← body[0]?
      let method ← body[1]?
      let privLvl ← body[2]?
      let authenType ← body[3]?
      let service ← body[4]?
      let l ← checkedTable body newTable 9 0 argCnt.toNat
      let u := 9 + argCnt.toNat
      let user ← checkedCopy body u userLen.toNat usernameLen
      let p := u + userLen.toNat
      let port ← checkedCopy body p portLen.toNat Tacppd.portLen
      let r := p + portLen.toNat
      let remAddr ← checkedCopy body r remAddrLen.toNat Tacppd.remAddrLen
      let avpair ← checkedAvpList body l [] (r + remAddrLen.toNat) 0 argCnt.toNat
      some (some ⟨flags, method, privLvl, authenType, service, cstr user, cstr port,
        cstr remAddr, cstr nas, avpair⟩)

end Tacppd
