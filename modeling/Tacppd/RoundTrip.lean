/-
# What a decoder finds in a written body

Rules for reading back what one of the writers has made, from where its parts stand: a
byte, a length table, the texts of the AVPs.

A length goes into the packet as an `unsigned char` and comes out as a `char`.  The
table is read back if and only if no AVP has 128 bytes or more
(`arglens_signedLens_eq_iff`).
-/
import Mathlib.Algebra.Order.Ring.Nat
import Tacppd.ReadPacket
import Tacppd.Reply
import Tacppd.DecoderBounds
import Tacppd.Lib.Layout

namespace Tacppd

open Guarded

/-! ## Bytes -/

theorem toNat_ofNat_of_le {n : ℕ} (h : n ≤ 255) : (UInt8.ofNat n).toNat = n := by
  rw [UInt8.toNat_ofNat']
  exact Nat.mod_eq_of_lt (by omega)

/-- A number that has been cut to a byte is itself if and only if it was one. -/
theorem toNat_ofInt_eq_iff (x : ℤ) : ((UInt8.ofInt x).toNat : ℤ) = x ↔ 0 ≤ x ∧ x < 256 := by
  have hbyte : (UInt8.ofInt x).toNat = (x % 256).toNat := by
    rw [UInt8.ofInt, UInt8.toNat_ofNat']
    omega
  rw [hbyte]
  omega

/-- A length in the packet, read as a `char`. -/
theorem signedByte_ofNat {n : ℕ} (h : n ≤ 255) :
    signedByte (UInt8.ofNat n) = if n < 128 then (n : ℤ) else n - 256 := by
  have hcond := BitVec.toInt_eq_toNat_cond (UInt8.ofNat n).toBitVec
  have hnat : (UInt8.ofNat n).toBitVec.toNat = n := toNat_ofNat_of_le h
  rw [hnat] at hcond
  show (UInt8.ofNat n).toBitVec.toInt = _
  rw [hcond]
  split <;> split <;> omega

section

variable {body s : Bytes} {off : ℕ}

/-- The bytes of a text that stands in the body. -/
theorem getD_of_holds (h : Holds body off s) (i : ℕ) (hi : i < s.length) :
    body.getD (off + i) 0 = s.getD i 0 := by
  obtain ⟨tail, htail⟩ := h
  rw [List.getD_eq_getElem?_getD, List.getD_eq_getElem?_getD, ← List.getElem?_drop, ← htail,
    List.getElem?_append_left hi]

theorem lensAt_of_holds (h : Holds body off s) : lensAt body off s.length = s.map signedByte := by
  rw [lensAt, h.take_eq]

/-- A short number as a little-endian machine reads it. -/
def hostShortAt (body : Bytes) (off : ℕ) : Option ℕ := do
  let b0 ← body[off]?
  let b1 ← body[off + 1]?
  some (b0.toNat + 256 * b1.toNat)

/-- A short number in network order. -/
def netShortAt (body : Bytes) (off : ℕ) : Option ℕ := do
  let b1 ← body[off]?
  let b0 ← body[off + 1]?
  some (b1.toNat * 256 + b0.toNat)

theorem hostShortAt_of_holds {n : ℕ} (h : Holds body off (hostShort n)) (hn : n < 65536) :
    hostShortAt body off = some n := by
  obtain ⟨h0, hrest⟩ := holds_cons_iff.mp h
  obtain ⟨h1, -⟩ := holds_cons_iff.mp hrest
  rw [hostShortAt, h0, Option.bind_eq_bind, Option.bind_some, h1, Option.bind_some,
    Option.some.injEq, UInt8.toNat_ofNat', UInt8.toNat_ofNat']
  omega

theorem htons_read {n : ℕ} (h : Holds body off (htons n)) (hn : n < 65536) :
    ∃ b1 b0, body[off]? = some b1 ∧ body[off + 1]? = some b0 ∧ b1.toNat * 256 + b0.toNat = n := by
  obtain ⟨h1, hrest⟩ := holds_cons_iff.mp h
  obtain ⟨h0, -⟩ := holds_cons_iff.mp hrest
  refine ⟨_, _, h1, h0, ?_⟩
  rw [UInt8.toNat_ofNat', UInt8.toNat_ofNat']
  omega

theorem netShortAt_of_holds {n : ℕ} (h : Holds body off (htons n)) (hn : n < 65536) :
    netShortAt body off = some n := by
  obtain ⟨b1, b0, h1, h0, hread⟩ := htons_read h hn
  rw [netShortAt, h1, Option.bind_eq_bind, Option.bind_some, h0, Option.bind_some, hread]

end

/-! ## The lengths of the AVPs -/

/-- AVPs as a request or a response may have them: C strings of at most 255 bytes. -/
structure AvpairOk (avpair : List Bytes) : Prop where
  text : ∀ avp ∈ avpair, (0 : UInt8) ∉ avp
  short : ∀ avp ∈ avpair, avp.length ≤ 255

/-- The lengths of the AVPs as a decoder reads them. -/
def signedLens (avpair : List Bytes) : List ℤ :=
  avpair.map fun avp => signedByte (UInt8.ofNat avp.length)

section

variable {avpair : List Bytes}

theorem map_signedByte_lens (avpair : List Bytes) :
    (avpair.map (UInt8.ofNat ·.length)).map signedByte = signedLens avpair := by
  rw [List.map_map]
  rfl

/-- An AVP of 128 bytes or more loses 256 of its length. -/
theorem arglens_signedLens (hshort : ∀ avp ∈ avpair, avp.length ≤ 255) :
    arglens (signedLens avpair) + 256 * (avpair.countP (128 ≤ ·.length) : ℤ) =
      (avpair.map List.length).sum := by
  induction avpair with
  | nil => rfl
  | cons avp avpair ih =>
    have hrest := ih fun a ha => hshort a (List.mem_cons_of_mem _ ha)
    have havp := hshort avp List.mem_cons_self
    rw [signedLens, List.map_cons, ← signedLens, arglens_cons, signedByte_ofNat havp,
      List.countP_cons, List.map_cons, List.sum_cons]
    simp only [decide_eq_true_eq]
    split <;> split <;> omega

/-- The sum of the lengths is read back if and only if every AVP is shorter than 128
bytes. -/
theorem arglens_signedLens_eq_iff (hshort : ∀ avp ∈ avpair, avp.length ≤ 255) :
    arglens (signedLens avpair) = (avpair.map List.length).sum ↔
      ∀ avp ∈ avpair, avp.length < 128 := by
  have hsum := arglens_signedLens hshort
  have hcount : avpair.countP (128 ≤ ·.length) = 0 ↔ ∀ avp ∈ avpair, avp.length < 128 := by
    simp
  rw [← hcount]
  omega

theorem signedLens_of_lt (h : ∀ avp ∈ avpair, avp.length < 128) :
    signedLens avpair = avpair.map fun avp => (avp.length : ℤ) := by
  apply List.map_congr_left
  intro avp havp
  have hlt := h avp havp
  rw [signedByte_ofNat (by omega), if_pos hlt]

/-! ## The texts of the AVPs -/

theorem avpsInside_of_holds {body : Bytes} {off : ℕ} (h : Holds body off avpair.flatten) :
    AvpsInside body off (avpair.map fun avp => (avp.length : ℤ)) := by
  induction avpair generalizing off with
  | nil => trivial
  | cons avp avpair ih =>
    obtain ⟨havp, hrest⟩ := holds_append_iff.mp h
    exact ⟨Int.natCast_nonneg _, havp.readable 0, ih hrest⟩

theorem avpTexts_of_holds {body : Bytes} {off : ℕ} (h : Holds body off avpair.flatten)
    (h0 : ∀ avp ∈ avpair, (0 : UInt8) ∉ avp) :
    avpTexts body off (avpair.map fun avp => (avp.length : ℤ)) = avpair := by
  induction avpair generalizing off with
  | nil => rfl
  | cons avp avpair ih =>
    obtain ⟨havp, hrest⟩ := holds_append_iff.mp h
    obtain ⟨h0avp, h0rest⟩ := List.forall_mem_cons.mp h0
    rw [List.map_cons, avpTexts, Int.toNat_natCast, havp.text_eq h0avp, ih hrest h0rest]

/-- The array up to the first null pointer. -/
theorem takeWhile_isSome_append (avpair : List Bytes) (k : ℕ) :
    (avpair.map some ++ List.replicate k none).takeWhile Option.isSome = avpair.map some := by
  rw [List.takeWhile_append_of_pos]
  · cases k <;> simp [List.replicate_succ]
  · intro avp havp
    obtain ⟨s, -, rfl⟩ := List.mem_map.mp havp
    rfl

end

/-! ## The header -/

/-- The header of a packet announces the length of its body. -/
theorem len_send (md5 : Bytes → Digest) (t : TacacsPacket) {r : Reply}
    (hsmall : r.body.length ≤ 10000) : (t.send md5 r).2.hdr.len = r.body.length := by
  have hlen := len_eq (t.send md5 r).2.hdr
  have hnat : (t.send md5 r).2.hdr.datalength.toNat = r.body.length := by
    show (UInt32.ofNat r.body.length).toNat = _
    rw [UInt32.toNat_ofNat']
    omega
  rw [hnat, if_pos (by omega)] at hlen
  exact hlen

/-- The first packet of a session. -/
theorem send_seqNo_first {t : TacacsPacket} (hnew : t.seqNo = 0) (md5 : Bytes → Digest)
    (r : Reply) : (t.send md5 r).2.hdr.seqNo = 1 := by
  show UInt8.ofNat (t.seqNo + 1) = 1
  rw [hnew]
  rfl

end Tacppd
