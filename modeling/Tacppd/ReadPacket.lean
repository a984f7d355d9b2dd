/-
# The length of a packet

The two `TacacsPacket::read_packet`: the one of the server, which is given a header that
has been read before, and the one of the client, which reads the header itself.  Both
compute a length from the header, make a buffer of three bytes more, and read the rest
of the packet into it.

The length is tested for being too long only.  A datalength that is negative as an `int`
passes, and so does a sum that overflows; `read_packet_iff` says that every other header
is safe, and that none of these is.
-/
import Tacppd.Session

namespace Tacppd

/-! ## Reading from the socket -/

/-- `Packet::sockread` on a connection that is open, with all the bytes that come until it
is closed: the return value and the bytes read.  For a count that is not positive the
loop is never entered. -/
def sockread (nbytes : ℤ) (stream : Bytes) : ℤ × Bytes :=
  if nbytes ≤ 0 then (0, [])
  else if nbytes ≤ stream.length then (nbytes, stream.take nbytes.toNat)
  else (-1, stream)

/-- What one call of `read_packet` comes to. -/
inductive ReadResult
  /-- The processor after it, and what is in the buffer where the data start. -/
  | packet (t : TacacsPacket) (data : Bytes)
  /-- The return value 0. -/
  | failed
  /-- An exception that is not an `int`: the handler does not catch it. -/
  | threw
  /-- Something without a meaning. -/
  | undefined
  deriving DecidableEq, Repr

/-- The size of the buffer, when one is asked for, the number of bytes read for the data,
and the result. -/
structure Reading where
  buffer : Option ℤ
  got : ℕ
  result : ReadResult
  deriving DecidableEq, Repr

section

variable (md5 : Bytes → Digest)

/-- Both functions once the buffer is there: read the data, compare the sequence number and
decrypt.  The buffer has `rest` bytes behind the data, and these are zero. -/
def TacacsPacket.readData (t : TacacsPacket) (hdr : Hdr) (stream : Bytes) (rest : ℕ) :
    ReadResult :=
  let read := sockread hdr.len stream
  if read.1 ≠ hdr.len then .failed
  else
    let t := { t with seqNo := t.seqNo + 1 }
    if t.seqNo ≠ hdr.seqNo.toNat then .failed
    else
      let clear := t.md5Xor md5 hdr read.2
      .packet clear.1 (clear.2.2 ++ List.replicate rest 0)

/-- `read_packet(h)`.  The datalength is stored in an `int` before the size of the header
is added. -/
def TacacsPacket.readPacketBody (t : TacacsPacket) (hdr : Hdr) (stream : Bytes) : Reading :=
  let datalen := hdr.len
  if intMax < tacPlusHdrSize + datalen then ⟨none, 0, .undefined⟩  -- `int` overflow
  else
    let len := tacPlusHdrSize + datalen
    if 10000 < len then ⟨none, 0, .failed⟩
    else if len + 3 < 0 then ⟨none, 0, .threw⟩  -- `new` with a negative size
    else ⟨some (len + 3), (sockread datalen stream).2.length, t.readData md5 hdr stream 15⟩

/-- `read_packet()` behind the header.  The sum is made of unsigned numbers and cut to an
`int`. -/
def TacacsPacket.readPacketWhole (t : TacacsPacket) (hdr : Hdr) (stream : Bytes) : Reading :=
  if hdr.version &&& tacPlusMajorVerMask ≠ tacPlusMajorVer then ⟨none, 0, .failed⟩
  else
    let len := (UInt32.ofNat tacPlusHdrSize + hdr.datalength).toInt32.toInt
    if 10000 < len then ⟨none, 0, .failed⟩
    else if len + 3 < 0 then ⟨none, 0, .threw⟩
    else if len + 3 < tacPlusHdrSize then ⟨some (len + 3), 0, .undefined⟩  -- copies the header
    else ⟨some (len + 3), (sockread hdr.len stream).2.length, t.readData md5 hdr stream 3⟩

/-- What a reading is to be: no buffer has a wrong size, and the packet is rejected through
the return value, or as many bytes are read as the header announces. -/
structure Reading.Sound (hdr : Hdr) (r : Reading) : Prop where
  buffer : ∀ n ∈ r.buffer, 15 ≤ n ∧ n ≤ 10003
  result : r.result = .failed ∨
    r.buffer.isSome ∧ r.got = hdr.datalength.toNat ∧ ∃ t data, r.result = .packet t data

/-- The datalength of the header as an `int`, with the size of the header added: neither
wraps. -/
def Hdr.Proper (hdr : Hdr) : Prop := 0 ≤ hdr.len ∧ hdr.len ≤ intMax - tacPlusHdrSize

instance (hdr : Hdr) : Decidable hdr.Proper := inferInstanceAs (Decidable (_ ∧ _))

end

/-! ## The lengths -/

theorem len_eq (hdr : Hdr) :
    hdr.len = if hdr.datalength.toNat < 2147483648 then (hdr.datalength.toNat : ℤ)
      else hdr.datalength.toNat - 4294967296 := by
  show hdr.datalength.toBitVec.toInt = _
  rw [BitVec.toInt_eq_toNat_cond]
  show (if 2 * hdr.datalength.toNat < 2 ^ 32 then (hdr.datalength.toNat : ℤ)
    else hdr.datalength.toNat - ((2 ^ 32 : ℕ) : ℤ)) = _
  split <;> split <;> omega

/-- The sum of the client is the one of the server, until that goes past the last
`int`. -/
theorem whole_len (hdr : Hdr) :
    (UInt32.ofNat tacPlusHdrSize + hdr.datalength).toInt32.toInt =
      if hdr.len ≤ intMax - tacPlusHdrSize then tacPlusHdrSize + hdr.len
      else tacPlusHdrSize + hdr.len - 4294967296 := by
  have hsum := len_eq { hdr with datalength := UInt32.ofNat tacPlusHdrSize + hdr.datalength }
  have hlen := len_eq hdr
  have hlt := hdr.datalength.toNat_lt
  have hnat : (UInt32.ofNat tacPlusHdrSize + hdr.datalength).toNat =
      (12 + hdr.datalength.toNat) % 4294967296 := by
    rw [UInt32.toNat_add]
    rfl
  rw [hnat] at hsum
  show Hdr.len { hdr with datalength := UInt32.ofNat tacPlusHdrSize + hdr.datalength } = _
  rw [hsum]
  by_cases hbig : hdr.len ≤ intMax - tacPlusHdrSize
  · rw [if_pos hbig]
    simp only [intMax, tacPlusHdrSize] at hbig ⊢
    split at hlen <;> split <;> omega
  · rw [if_neg hbig]
    simp only [intMax, tacPlusHdrSize] at hbig ⊢
    split at hlen <;> split <;> omega

/-! ## What is read -/

/-- The loop of `sockread` returns the count it was called with if and only if that many
bytes have been read. -/
theorem sockread_fst_eq_iff (n : ℤ) (stream : Bytes) :
    (sockread n stream).1 = n ↔ ((sockread n stream).2.length : ℤ) = n := by
  rw [sockread]
  split
  · rfl
  · split
    · next hpos hin =>
      rw [List.length_take, Nat.min_eq_left (by omega)]
      simp only [true_iff]
      omega
    · simp only
      omega

theorem sockread_eq {n : ℤ} {stream : Bytes} (h0 : 0 ≤ n) (h : (sockread n stream).1 = n) :
    (sockread n stream).2 = stream.take n.toNat ∧ n ≤ stream.length := by
  rw [sockread] at h ⊢
  split at h
  · next hneg =>
    obtain rfl : n = 0 := by omega
    simp
  · split at h
    · next hneg hin =>
      rw [if_neg hneg, if_pos hin]
      exact ⟨rfl, hin⟩
    · simp only at h
      omega

section

variable {md5 : Bytes → Digest} {t : TacacsPacket} {hdr : Hdr} {stream : Bytes} {rest : ℕ}

/-- With a buffer of the right size, the data are there whole or the packet is rejected. -/
theorem readData_cases (h0 : 0 ≤ hdr.len) :
    t.readData md5 hdr stream rest = .failed ∨
      (sockread hdr.len stream).2.length = hdr.datalength.toNat ∧
        ∃ t' data, t.readData md5 hdr stream rest = .packet t' data := by
  rw [TacacsPacket.readData]
  simp only
  split
  · exact Or.inl rfl
  · next hread =>
    split
    · exact Or.inl rfl
    · right
      obtain ⟨htake, hle⟩ := sockread_eq h0 (not_not.mp hread)
      have hlen := len_eq hdr
      have htop := hdr.datalength.toNat_lt
      have hmin : hdr.len.toNat ≤ stream.length := by omega
      refine ⟨?_, _, _, rfl⟩
      rw [htake, List.length_take, Nat.min_eq_left hmin]
      split at hlen <;> omega

theorem sound_failed : Reading.Sound hdr ⟨none, 0, .failed⟩ := ⟨by simp, Or.inl rfl⟩

/-- A packet that is not too long, in a buffer of the right size. -/
theorem sound_readData (h0 : 0 ≤ hdr.len) (hlong : tacPlusHdrSize + hdr.len ≤ 10000) :
    Reading.Sound hdr ⟨some (tacPlusHdrSize + hdr.len + 3), (sockread hdr.len stream).2.length,
      t.readData md5 hdr stream rest⟩ := by
  refine ⟨fun n hn => ?_, ?_⟩
  · obtain rfl := Option.some.inj hn
    rw [tacPlusHdrSize] at hlong ⊢
    omega
  · rcases readData_cases h0 with hfailed | ⟨hgot, hpacket⟩
    · exact Or.inl hfailed
    · exact Or.inr ⟨rfl, hgot, hpacket⟩

/-- A negative length makes too small a buffer, or none. -/
theorem not_sound_of_small {n : ℤ} {got : ℕ} {result : ReadResult} (h : n < 15) :
    ¬ Reading.Sound hdr ⟨some n, got, result⟩ := by
  intro hsound
  have hbuffer := hsound.buffer n rfl
  omega

theorem not_sound_threw : ¬ Reading.Sound hdr ⟨none, 0, .threw⟩ := by
  rintro ⟨-, hfailed | ⟨hbuffer, -⟩⟩
  · contradiction
  · contradiction

theorem not_sound_undefined : ¬ Reading.Sound hdr ⟨none, 0, .undefined⟩ := by
  rintro ⟨-, hfailed | ⟨hbuffer, -⟩⟩
  · contradiction
  · contradiction

theorem readPacketBody_sound_iff :
    (t.readPacketBody md5 hdr stream).Sound hdr ↔ hdr.Proper := by
  have hbounds := len_eq hdr
  rw [TacacsPacket.readPacketBody, Hdr.Proper]
  simp only
  split
  · next hover => exact iff_of_false not_sound_undefined fun h => by omega
  · next hover =>
    have hmax : hdr.len ≤ intMax - tacPlusHdrSize := by omega
    split
    · next hlong =>
      refine iff_of_true sound_failed ⟨?_, hmax⟩
      rw [tacPlusHdrSize] at hlong
      omega
    · next hlong =>
      split
      · next hneg =>
        refine iff_of_false not_sound_threw fun h => ?_
        rw [tacPlusHdrSize] at hneg
        omega
      · next hneg =>
        by_cases h0 : 0 ≤ hdr.len
        · exact iff_of_true (sound_readData h0 (by omega)) ⟨h0, hmax⟩
        · refine iff_of_false (not_sound_of_small ?_) fun h => h0 h.1
          rw [tacPlusHdrSize]
          omega

theorem readPacketWhole_sound_iff :
    (t.readPacketWhole md5 hdr stream).Sound hdr ↔
      hdr.version &&& tacPlusMajorVerMask ≠ tacPlusMajorVer ∨ hdr.Proper := by
  rw [TacacsPacket.readPacketWhole]
  split
  · next hver => exact iff_of_true sound_failed (Or.inl hver)
  · next hver =>
    rw [or_iff_right hver, Hdr.Proper]
    simp only
    rw [whole_len]
    by_cases hmax : hdr.len ≤ intMax - tacPlusHdrSize
    · rw [if_pos hmax]
      split
      · next hlong =>
        refine iff_of_true sound_failed ⟨?_, hmax⟩
        rw [tacPlusHdrSize] at hlong
        omega
      · next hlong =>
        by_cases h0 : 0 ≤ hdr.len
        · have hbig : ¬ (tacPlusHdrSize : ℤ) + hdr.len + 3 < tacPlusHdrSize := by omega
          have hpos : ¬ (tacPlusHdrSize : ℤ) + hdr.len + 3 < 0 := by omega
          rw [if_neg hpos, if_neg hbig]
          exact iff_of_true (sound_readData h0 (by omega)) ⟨h0, hmax⟩
        · refine iff_of_false ?_ fun h => h0 h.1
          split
          · exact not_sound_threw
          · split
            · apply not_sound_of_small
              rw [tacPlusHdrSize]
              omega
            · apply not_sound_of_small
              rw [tacPlusHdrSize]
              omega
    · -- the sum has wrapped
      have hbounds := len_eq hdr
      have htop := hdr.datalength.toNat_lt
      have hlt : hdr.len < 2147483648 := by split at hbounds <;> omega
      rw [if_neg hmax, if_neg (by rw [tacPlusHdrSize]; omega),
        if_pos (by rw [tacPlusHdrSize]; omega)]
      exact iff_of_false not_sound_threw fun h => hmax h.2

/-! ## The connection -/

/-- What the loop of the connection makes of a reading that is no packet. -/
def Stop.readResult : Stop → ReadResult
  | .closed => .failed
  | .terminated => .threw
  | .undefined => .undefined

/-- The packet a session is handed is read by `read_packet(h)` behind a header that has
passed the test of its version. -/
theorem readPacketBody_eq {i : Input}
    (hver : i.hdr.version &&& tacPlusMajorVerMask = tacPlusMajorVer)
    (hbody : i.body = (sockread i.hdr.len stream).2) :
    (t.readPacketBody md5 i.hdr stream).result =
      match t.readPacket md5 i with
      | .ok (t', data) => .packet t' data
      | .error stop => stop.readResult := by
  have hread := sockread_fst_eq_iff i.hdr.len stream
  rw [← hbody] at hread
  rw [TacacsPacket.readPacketBody, TacacsPacket.readPacket, readChecks, if_neg (not_not.mpr hver)]
  simp only
  by_cases hover : intMax < tacPlusHdrSize + i.hdr.len
  · rw [if_pos hover, if_pos hover]
    rfl
  rw [if_neg hover, if_neg hover]
  by_cases hlong : 10000 < tacPlusHdrSize + i.hdr.len
  · rw [if_pos hlong, if_pos hlong]
    rfl
  rw [if_neg hlong, if_neg hlong]
  by_cases hneg : tacPlusHdrSize + i.hdr.len + 3 < 0
  · rw [if_pos hneg, if_pos hneg]
    rfl
  rw [if_neg hneg, if_neg hneg]
  simp only [TacacsPacket.readData]
  by_cases hshort : (i.body.length : ℤ) = i.hdr.len
  · rw [if_neg (not_not.mpr hshort), if_neg (not_not.mpr (hread.mpr hshort))]
    by_cases hseq : t.seqNo + 1 = i.hdr.seqNo.toNat
    · rw [if_neg (not_not.mpr hseq), if_neg (not_not.mpr hseq), ← hbody]
    · rw [if_pos hseq, if_pos hseq]
      rfl
  · rw [if_pos hshort, if_pos fun h => hshort (hread.mp h)]
    rfl

end

/-! ## Every header -/

/-- Both functions, for every header and every sequence of bytes behind it: the reading is
sound if and only if the datalength is not negative as an `int` and still fits one with
the size of the header added.  The client rejects a wrong version before. -/
theorem read_packet_iff (md5 : Bytes → Digest) (t : TacacsPacket) (hdr : Hdr) (stream : Bytes) :
    ((t.readPacketBody md5 hdr stream).Sound hdr ↔ hdr.Proper) ∧
      ((t.readPacketWhole md5 hdr stream).Sound hdr ↔
        hdr.version &&& tacPlusMajorVerMask ≠ tacPlusMajorVer ∨ hdr.Proper) :=
  ⟨readPacketBody_sound_iff, readPacketWhole_sound_iff⟩

/-- A header that announces 0xfffffff0 bytes: `new` throws, and nobody catches it.  One
that announces 0xfffffffb bytes gets a buffer of 10 bytes, and the client copies the
header of 12 bytes into it. -/
theorem read_packet_negative :
    let hdr (datalength : UInt32) : Hdr := ⟨0xc0, 1, 1, 0, 1, datalength⟩
    let t : TacacsPacket := ⟨1, 0, [], [], 0xc0⟩
    let md5 : Bytes → Digest := fun _ => constDigest 0
    (t.readPacketBody md5 (hdr 0xfffffff0) []).result = .threw ∧
      ¬ (t.readPacketBody md5 (hdr 0xfffffff0) []).Sound (hdr 0xfffffff0) ∧
      t.readPacketWhole md5 (hdr 0xfffffffb) [] = ⟨some 10, 0, .undefined⟩ ∧
      ¬ (t.readPacketWhole md5 (hdr 0xfffffffb) []).Sound (hdr 0xfffffffb) := by
  refine ⟨by decide, ?_, by decide, ?_⟩
  · rw [readPacketBody_sound_iff]
    decide
  · rw [readPacketWhole_sound_iff]
    decide

end Tacppd
