/-
# The TACACS+ packet header and the protocol's constants

`Tacacs.h`: the packet header all packets share, the numbers of the protocol
that the server reads or writes, and the sizes of its fixed buffers.
-/
import Tacppd.Bytes

namespace Tacppd

/-! ## Sizes

The size macros and constants of the source, each under its own name. -/

def tacPlusHdrSize : ℕ := 12

def usernameLen : ℕ := 32

def portLen : ℕ := 32

/-- `REM_ADDR_LEN`, in `Tacacs.h` and in `Tacacs.cc`: the macro of `snmp_module.h`, which
`global.h` reads before `Tacacs.h`, hides the constant of `global.h`. -/
def remAddrLen : ℕ := 64

def dataLen : ℕ := 254

def passwordLen : ℕ := 50

def ipLen : ℕ := 16

def maxAvp : ℕ := 100

def md5Len : ℕ := 16

/-- The size of the packet buffers of the reply writers. -/
def replyBufLen : ℕ := 512

/-! ## Numbers on the wire -/

def tacPlusVer0 : UInt8 := 0xc0

def tacPlusVer1 : UInt8 := 0xc1

def tacPlusEncrypted : UInt8 := 0

def tacPlusClear : UInt8 := 1

/-- The packet types the server knows, `TacacsPacket::selector`. -/
inductive PacketType
  | authen
  | author
  | acct
  deriving DecidableEq, Repr

def PacketType.code : PacketType → UInt8
  | authen => 1
  | author => 2
  | acct => 3

/-- The packet header, `struct tac_plus_pak_hdr`.  The two integers are kept as
the numbers they stand for; on the wire they are in network order. -/
structure Hdr where
  version : UInt8
  type : UInt8
  seqNo : UInt8
  encryption : UInt8
  sessionId : UInt32
  datalength : UInt32
  deriving DecidableEq, Repr

/-- `ntohl(hdr->datalength)` stored in an `int`. -/
def Hdr.len (hdr : Hdr) : ℤ := hdr.datalength.toInt32.toInt

/-- `TacacsPacket::selector`: the type of a packet, nothing for an unknown one. -/
def selector (hdr : Hdr) : Option PacketType :=
  if hdr.type = PacketType.authen.code then some .authen
  else if hdr.type = PacketType.author.code then some .author
  else if hdr.type = PacketType.acct.code then some .acct
  else none

/-- The four bytes of a number in network order. -/
def netBytes (x : UInt32) : Bytes :=
  [(x >>> 24).toUInt8, (x >>> 16).toUInt8, (x >>> 8).toUInt8, x.toUInt8]

/-- A packet on the wire: the body has the length the header announces. -/
structure Packet where
  hdr : Hdr
  body : Bytes
  length_eq : hdr.len = body.length

@[ext] theorem Packet.ext {p q : Packet} (hh : p.hdr = q.hdr) (hb : p.body = q.body) : p = q := by
  cases p
  cases q
  simp_all

end Tacppd
