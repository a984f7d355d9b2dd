/-
# Authorization and accounting requests

`TacacsServerAuthorization::get_request` and `TacacsServerAccounting::get_request`:
both packets have some fixed fields, then one length byte for each AVP, then the
texts.  The length bytes are read as `char`, so that a byte from 128 on is a negative
length.

Outside `none` stands for an access that has no meaning, inside it for the return
value of a refused packet.
-/
import Tacppd.Author

namespace Tacppd

/-! ## The variable part -/

/-- `(int)` of a `char`. -/
def signedByte (b : UInt8) : ℤ := b.toInt8.toInt

/-- The length bytes of the AVPs, which may go past the packet. -/
def argLens (pak : Bytes) (off cnt : ℕ) : Option (List ℤ) :=
  if pak.length < off + cnt then none else some (((pak.drop off).take cnt).map signedByte)

/-- The loop that sums up the lengths. -/
def arglens (lens : List ℤ) : ℤ := lens.foldl (· + ·) 0

/-- The loop that copies the AVPs.  A negative length is a huge count for `strncpy`,
which writes past its buffer. -/
def readAvps (pak : Bytes) : ℕ → List ℤ → Option (List Bytes)
  | _, [] => some []
  | off, l :: ls =>
    if l < 0 then none
    else
      match strncpy pak off l.toNat with
      | none => none
      | some s => (readAvps pak (off + l.toNat) ls).map (s :: ·)

/-- The three texts before the AVPs. -/
structure RequestTexts where
  user : Bytes
  port : Bytes
  remAddr : Bytes
  deriving DecidableEq, Repr

/-- Copy the three texts into buffers that hold up to `caps` bytes of them. -/
def readTexts (pak : Bytes) (off userLen portLen remAddrLen : ℕ) (capUser capPort capRem : ℕ) :
    Option RequestTexts :=
  if capUser < userLen ∨ capPort < portLen ∨ capRem < remAddrLen then none
  else
    match strncpy pak off userLen, strncpy pak (off + userLen) portLen,
      strncpy pak (off + userLen + portLen) remAddrLen with
    | some user, some port, some remAddr => some ⟨user, port, remAddr⟩
    | _, _, _ => none

/-! ## Authorization -/

/-- `TacacsServerAuthorization::get_request`.  Each text gets a terminator at its
length, so it must be shorter than its buffer; after the last AVP comes a null
pointer. -/
def TacacsServerAuthorization.getRequest (hdr : Hdr) (pak : Bytes) :
    Option (Option AuthorRequest) :=
  let userLen := (pak.getD 4 0).toNat
  let portLen := (pak.getD 5 0).toNat
  let remAddrLen := (pak.getD 6 0).toNat
  let argCnt := (pak.getD 7 0).toNat
  if hdr.type ≠ PacketType.author.code then some none
  else if hdr.seqNo ≠ 1 then some none
  else
    match argLens pak 8 argCnt with
    | none => none
    | some lens =>
      if hdr.len ≠ 8 + argCnt + userLen + portLen + remAddrLen + arglens lens then some none
      else
        match readTexts pak (8 + argCnt) userLen portLen remAddrLen (usernameLen - 1)
          (Tacppd.portLen - 1) (Tacppd.remAddrLen - 1) with
        | none => none
        | some texts =>
          match readAvps pak (8 + argCnt + userLen + portLen + remAddrLen) lens with
          | none => none
          | some avpair =>
            if fits : avpair.length < maxAvp then
              some (some ⟨pak.getD 0 0, pak.getD 1 0, pak.getD 2 0, pak.getD 3 0, texts.user,
                texts.port, texts.remAddr, avpair, fits⟩)
            else none

/-! ## Accounting -/

def tacPlusAcctFlagStart : UInt8 := 2
def tacPlusAcctFlagStop : UInt8 := 4

/-- An accounting request, as `get_request` leaves it; the flag is its return value. -/
structure AcctRequest where
  flag : UInt8
  method : UInt8
  privLvl : UInt8
  authenType : UInt8
  authenService : UInt8
  user : Bytes
  port : Bytes
  remAddr : Bytes
  nas : Bytes
  avpair : List Bytes
  deriving DecidableEq, Repr

/-- `TacacsServerAccounting::get_request`.  A text may fill its buffer; then it has no
terminator. -/
def TacacsServerAccounting.getRequest (peer : Bytes) (hdr : Hdr) (pak : Bytes) :
    Option (Option AcctRequest) :=
  let userLen := (pak.getD 5 0).toNat
  let portLen := (pak.getD 6 0).toNat
  let remAddrLen := (pak.getD 7 0).toNat
  let argCnt := (pak.getD 8 0).toNat
  if hdr.type ≠ PacketType.acct.code then some none
  else if hdr.seqNo ≠ 1 then some none
  else
    match argLens pak 9 argCnt with
    | none => none
    | some lens =>
      if hdr.len ≠ 9 + argCnt + userLen + portLen + remAddrLen + arglens lens then some none
      else
        match readTexts pak (9 + argCnt) userLen portLen remAddrLen usernameLen
          Tacppd.portLen Tacppd.remAddrLen with
        | none => none
        | some texts =>
          match readAvps pak (9 + argCnt + userLen + portLen + remAddrLen) lens with
          | none => none
          | some avpair =>
            some (some ⟨pak.getD 0 0, pak.getD 1 0, pak.getD 2 0, pak.getD 3 0, pak.getD 4 0,
              texts.user, texts.port, texts.remAddr, peer.take ipLen, avpair⟩)

/-- The text of the `action=` line of the log. -/
def acctAction (flag : UInt8) : Bytes :=
  if flag = tacPlusAcctFlagStart then str "START"
  else if flag = tacPlusAcctFlagStop then str "STOP"
  else str "UPDATE"

/-- One line of the log, made in a buffer of 128 bytes. -/
def logLine (name value : Bytes) : Bytes := snprintf 128 (name ++ value)

/-- The list that `process` hands to `db_accounting`; a text without terminator has no
meaning here. -/
def logavp (req : AcctRequest) : Option (List Bytes) :=
  match terminated usernameLen req.user, terminated portLen req.port,
    terminated remAddrLen req.remAddr with
  | some user, some port, some remAddr =>
    some ([logLine (str "action=") (acctAction req.flag), logLine (str "user=") user,
      logLine (str "port=") port, logLine (str "from=") remAddr, logLine (str "nas=") req.nas] ++
      req.avpair.filter fun avp =>
        decide (avp ≠ []) && !scompNum avp (str "faxrelay-start-time=") 20)
  | _, _, _ => none

end Tacppd
