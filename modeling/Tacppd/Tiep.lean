/-
# Packets of the bundle protocol

A packet is a header and a number of entries, each entry xored with one MD5 hash of the
bundle's key and of a number that the header carries (`Tiep.cc`).  `read_dt` and `read_ut`
take one entry by its index; how many there are is what the header says.

`udp_stays_iff` collects, for these and for the NetFlow packets, which datagrams are read
inside.
-/
import Tacppd.Crypt
import Tacppd.NfPacket

namespace Tacppd

open Guarded Packed

/-! ## Structures -/

/-- The fields of `struct tiep_pak_hdr`. -/
inductive TiepHdr
  | type | varkey | entrynum | priority
deriving DecidableEq

def tiepPakHdr : List (TiepHdr × ℕ) := [(.type, 4), (.varkey, 4), (.entrynum, 4), (.priority, 4)]

/-- The fields of `struct dt_pak_entry`. -/
inductive DtPak
  | device | status | checknum
deriving DecidableEq

def dtPakEntry : List (DtPak × ℕ) := [(.device, 4), (.status, 4), (.checknum, 4)]

/-- The fields of `struct ut_pak_entry`. -/
inductive UtPak
  | username | device | userip | checknum | port | phone | status
deriving DecidableEq

def utPakEntry : List (UtPak × ℕ) :=
  [(.username, 32), (.device, 4), (.userip, 4), (.checknum, 4), (.port, 32), (.phone, 32),
    (.status, 4)]

/-! ## Encryption -/

section

variable (md5 : Bytes → Digest)

/-- `create_md5_hash` of the key and the number in the header. -/
def tiepHash (k vk : Bytes) : Digest := md5 (cstr k ++ cstr vk)

/-- `TiepPacket::encrypt`, and `decrypt`, which does the same. -/
def tiepCrypt (b : Bytes) (varkey : ℕ) (key : Bytes) : Bytes :=
  let vk := snprintf 15 (str (toString varkey))
  if !scomp key (str "none") then repeatXor (tiepHash md5 key vk) b else b

/-- What is laid over an entry. -/
def tiepPad (key : Bytes) (varkey : ℕ) : Digest :=
  if scomp key (str "none") then constDigest 0
  else tiepHash md5 key (snprintf 15 (str (toString varkey)))

theorem get_constDigest_zero (i : ℕ) : (constDigest 0).get i = 0 := by
  rw [Digest.get, constDigest, List.getD_eq_getElem?_getD, List.getElem?_replicate]
  split <;> rfl

theorem tiepCrypt_eq (b : Bytes) (varkey : ℕ) (key : Bytes) :
    tiepCrypt md5 b varkey key =
      Pad.overlay (· ^^^ ·) (fun i => (tiepPad md5 key varkey).get (i % 16)) b := by
  rw [tiepCrypt, tiepPad]
  cases scomp key (str "none") with
  | false => exact repeatXor_eq _ b
  | true =>
    apply List.ext_getElem?
    intro i
    rw [Pad.getElem?_overlay]
    simp [get_constDigest_zero]

@[simp] theorem length_tiepCrypt (b : Bytes) (varkey : ℕ) (key : Bytes) :
    (tiepCrypt md5 b varkey key).length = b.length := by
  rw [tiepCrypt_eq, Pad.length_overlay]

end

/-! ## Reading -/

section

variable (order : ByteOrder)

/-- `ntohs` of a field of the header. -/
def hdrField (buf : Bytes) (f : TiepHdr) : Option ℕ :=
  (readField order buf 0 tiepPakHdr f).map (order.ntoh 2)

def packetType (buf : Bytes) : Option ℕ := hdrField order buf .type
def packetVarkey (buf : Bytes) : Option ℕ := hdrField order buf .varkey
def packetNum (buf : Bytes) : Option ℕ := hdrField order buf .entrynum
def packetPri (buf : Bytes) : Option ℕ := hdrField order buf .priority

/-- Where entry `n` begins, with entries of `len` bytes: the loop that moves to it stops
behind the last one. -/
def entryAt (len num n : ℕ) : ℕ := size tiepPakHdr + len * min n num

theorem entryAt_of_le {len num n : ℕ} (h : n ≤ num) : entryAt len num n = 16 + len * n := by
  rw [entryAt, Nat.min_eq_left h]
  rfl

/-- The number in an entry that has been decrypted. -/
def dtChecknum (ret : Bytes) : ℕ :=
  order.decode ((ret.drop (offset dtPakEntry .checknum)).take (width dtPakEntry .checknum))

def utChecknum (ret : Bytes) : ℕ :=
  order.decode ((ret.drop (offset utPakEntry .checknum)).take (width utPakEntry .checknum))

variable (md5 : Bytes → Digest)

/-- `TipPacket::read_dt`: the bytes of the entry, or the null pointer. -/
def readDt (buf : Bytes) (n : ℕ) (key : Bytes) : Option (Option Bytes) := do
  let num ← packetNum order buf
  let varkey ← packetVarkey order buf
  if 0 < num then
    let p ← load buf (entryAt (size dtPakEntry) num n) (size dtPakEntry)
    let ret := tiepCrypt md5 p varkey key
    if dtChecknum order ret ≠ varkey then
      -- the line of the log has the number again
      let _ ← packetVarkey order buf
      some none
    else some (some ret)
  else some none

/-- `TipPacket::read_ut`. -/
def readUt (buf : Bytes) (n : ℕ) (key : Bytes) : Option (Option Bytes) := do
  let num ← packetNum order buf
  if num < n then some none
  else
    let varkey ← packetVarkey order buf
    if 0 < num then
      let p ← load buf (entryAt (size utPakEntry) num n) (size utPakEntry)
      let ret := tiepCrypt md5 p varkey key
      some (if utChecknum order ret ≠ varkey then none else some ret)
    else some none

end

/-! ## What is read -/

section

variable {order : ByteOrder} {md5 : Bytes → Digest} {dgram key : Bytes}

/-- The number of entries that a datagram announces. -/
def announcedNum (order : ByteOrder) (dgram : Bytes) : ℕ :=
  order.ntoh 2 (order.decode ((dgram.drop 8).take 4))

theorem ensures_packetNum {post : ℕ → Prop} :
    Ensures (packetNum order dgram) post ↔
      12 ≤ dgram.length ∧ post (announcedNum order dgram) := by
  rw [packetNum, hdrField, ensures_map, ensures_readField]
  rfl

/-- The header before the number of entries is inside too. -/
theorem ensures_packetVarkey (h : 12 ≤ dgram.length) {post : ℕ → Prop} :
    Ensures (packetVarkey order dgram) post ↔
      post (order.ntoh 2 (order.decode ((dgram.drop 4).take 4))) := by
  rw [packetVarkey, hdrField, ensures_map, ensures_readField]
  exact and_iff_right (show 0 + 4 + 4 ≤ dgram.length by omega)

theorem ensures_readDt {n : ℕ} (h : 12 ≤ dgram.length) (hn : n < announcedNum order dgram) :
    (Ensures (readDt order md5 dgram n key) fun _ => True) ↔ 16 + 12 * n + 12 ≤ dgram.length := by
  have hsize : size dtPakEntry = 12 := rfl
  simp only [readDt, ensures_do, ensures_packetNum, ensures_packetVarkey h, ensures_ite,
    ensures_load, ensures_some, hsize]
  rw [if_pos (by omega)]
  simp [h, entryAt_of_le hn.le]

theorem ensures_readUt {n : ℕ} (h : 12 ≤ dgram.length) (hn : n < announcedNum order dgram) :
    (Ensures (readUt order md5 dgram n key) fun _ => True) ↔
      16 + 112 * n + 112 ≤ dgram.length := by
  have hsize : size utPakEntry = 112 := rfl
  simp only [readUt, ensures_do, ensures_packetNum, ensures_packetVarkey h, ensures_ite,
    ensures_load, ensures_some, hsize]
  rw [if_neg (by omega), if_pos (by omega)]
  simp [h, entryAt_of_le hn.le]

/-- The entries below the number that is announced. -/
theorem forall_entries_iff {len num : ℕ} {l : ℕ} :
    (∀ n < num, 16 + len * n + len ≤ l) ↔ (0 < num → 16 + len * num ≤ l) := by
  constructor
  · intro h hnum
    obtain ⟨n, rfl⟩ := Nat.exists_eq_succ_of_ne_zero hnum.ne'
    -- the last entry ends where all of them do
    have hlast := h n (by omega)
    rw [Nat.mul_succ]
    omega
  · intro h n hn
    have hmono : len * (n + 1) ≤ len * num := Nat.mul_le_mul_left _ hn
    rw [Nat.mul_succ] at hmono
    have hall := h (by omega)
    omega

end

/-! ## Datagrams -/

/-- What reads a datagram. -/
inductive UdpDecoder (H : Host)
  | process (ip : Bit32 (8 * H.long))
  | packetType
  | packetNum
  | packetPri
  | readDt (key : Bytes)
  | readUt (key : Bytes)

/-- Every read is inside the datagram; of an entry for every index below the number that is
announced. -/
def StaysIn (md5 : Bytes → Digest) {H : Host} (dgram : Bytes) : UdpDecoder H → Prop
  | .process ip => (process H ip dgram).isSome
  | .packetType => (packetType H.order dgram).isSome
  | .packetNum => (packetNum H.order dgram).isSome
  | .packetPri => (packetPri H.order dgram).isSome
  | .readDt key => ∀ num, packetNum H.order dgram = some num →
      ∀ n < num, (readDt H.order md5 dgram n key).isSome
  | .readUt key => ∀ num, packetNum H.order dgram = some num →
      ∀ n < num, (readUt H.order md5 dgram n key).isSome

/-- The datagram is as long as what it announces. -/
def LongEnough {H : Host} (dgram : Bytes) : UdpDecoder H → Prop
  | .process _ => NfFits H.long dgram
  | .packetType => 4 ≤ dgram.length
  | .packetNum => 12 ≤ dgram.length
  | .packetPri => 16 ≤ dgram.length
  | .readDt _ => 12 ≤ dgram.length → 0 < announcedNum H.order dgram →
      16 + 12 * announcedNum H.order dgram ≤ dgram.length
  | .readUt _ => 12 ≤ dgram.length → 0 < announcedNum H.order dgram →
      16 + 112 * announcedNum H.order dgram ≤ dgram.length

theorem packetNum_eq_some_iff {order : ByteOrder} {dgram : Bytes} {num : ℕ} :
    packetNum order dgram = some num ↔ 12 ≤ dgram.length ∧ num = announcedNum order dgram := by
  have hensures := @ensures_packetNum order dgram (· = num)
  rw [Ensures] at hensures
  simpa [eq_comm] using hensures

/-- **Which datagrams are read inside**, by each of the decoders. -/
theorem udp_stays_iff (md5 : Bytes → Digest) {H : Host} (dgram : Bytes) (d : UdpDecoder H) :
    StaysIn md5 dgram d ↔ LongEnough dgram d := by
  cases d with
  | process ip => exact process_stays_iff
  | packetType =>
    simp only [StaysIn, LongEnough, isSome_iff_ensures, packetType, hdrField, ensures_map,
      ensures_readField, and_true]
    rfl
  | packetNum =>
    simp only [StaysIn, LongEnough, isSome_iff_ensures, ensures_packetNum, and_true]
  | packetPri =>
    simp only [StaysIn, LongEnough, isSome_iff_ensures, packetPri, hdrField, ensures_map,
      ensures_readField, and_true]
    rfl
  | readDt key =>
    simp only [StaysIn, LongEnough, packetNum_eq_some_iff, isSome_iff_ensures]
    rw [← forall_entries_iff]
    constructor
    · intro h h12 n hn
      exact (ensures_readDt h12 hn).mp (h _ ⟨h12, rfl⟩ n hn)
    · rintro h _ ⟨h12, rfl⟩ n hn
      exact (ensures_readDt h12 hn).mpr (h h12 n hn)
  | readUt key =>
    simp only [StaysIn, LongEnough, packetNum_eq_some_iff, isSome_iff_ensures]
    rw [← forall_entries_iff]
    constructor
    · intro h h12 n hn
      exact (ensures_readUt h12 hn).mp (h _ ⟨h12, rfl⟩ n hn)
    · rintro h _ ⟨h12, rfl⟩ n hn
      exact (ensures_readUt h12 hn).mpr (h h12 n hn)

/-- A datagram of four bytes, version 5, that announces one record. -/
theorem udp_leaves_datagram :
    ¬ ∀ (dgram : Bytes) (d : UdpDecoder ⟨8, .little⟩),
      StaysIn (fun _ => constDigest 0) dgram d := by
  intro h
  have hread : process ⟨8, .little⟩ 0 [0, 5, 0, 1] = none := by decide +kernel
  have hstays := h [0, 5, 0, 1] (.process 0)
  rw [StaysIn, hread] at hstays
  exact absurd hstays (by decide)

end Tacppd
