/-
# The encryption of packet bodies

`TacacsPacket::create_md5_hash` and `TacacsPacket::md5_xor`: the body of a packet
is xored with a stream of MD5 blocks, each block hashed from the session id, the
key, the version and the sequence number, and from the block before it.

MD5 itself is a parameter, an arbitrary function to 16 bytes.
-/
import Tacppd.Protocol
import Tacppd.Lib.Pad

namespace Tacppd

/-! ## The hash blocks -/

/-- The 16 bytes MD5 gives. -/
structure Digest where
  bytes : Bytes
  length_eq : bytes.length = md5Len

/-- Byte `i` of a digest. -/
def Digest.get (d : Digest) (i : ℕ) : UInt8 := d.bytes.getD i 0

/-- The digest of sixteen equal bytes. -/
def constDigest (b : UInt8) : Digest := ⟨List.replicate md5Len b, List.length_replicate ..⟩

/-- The state of a session's packet processor, class `TacacsPacket`: the fields
its methods read. -/
structure TacacsPacket where
  sessionId : UInt32
  /-- `seq_no_`, the number of the last packet exchanged. -/
  seqNo : ℕ
  key : Bytes
  peer : Bytes
  /-- `version_`, of the last packet read. -/
  version : UInt8
  deriving DecidableEq, Repr

section

variable (md5 : Bytes → Digest)

/-- The input of one hash: session id, key, version, sequence number and the
previous hash, when there is one. -/
def hashInput (key : Bytes) (sessId : UInt32) (v seq : UInt8) (prevHash : Option Digest) : Bytes :=
  netBytes sessId ++ key ++ [v] ++ [seq] ++ (prevHash.elim [] Digest.bytes)

/-- `create_md5_hash`: the key goes through `char k[32]` and
`snprintf(k, sizeof(k)-1, ...)`. -/
def createMd5Hash (key : Bytes) (sessId : UInt32) (v seq : UInt8) (prevHash : Option Digest) :
    Digest :=
  md5 (hashInput (snprintf 31 key) sessId v seq prevHash)

/-! ## The loops of `md5_xor` -/

/-- The inner loop of `md5_xor` with `k` rounds to go: xor byte `j` of the block
into byte `i + j`.  The flag says that the end of the data was met, where the
function returns at once. -/
def xorBlockLoop (len i : ℕ) (hash : Digest) : ℕ → ℕ → Bytes → Bytes × Bool
  | 0, _, data => (data, false)
  | k + 1, j, data =>
    if len ≤ i + j then (data, true)
    else xorBlockLoop len i hash k (j + 1) (data.modify (i + j) (· ^^^ hash.get j))

/-- The outer loop of `md5_xor` from index `i` on, with the last block made. -/
def xorLoop (createHash : Option Digest → Digest) (len i : ℕ) (prevHash : Option Digest)
    (data : Bytes) : Bytes :=
  if i < len then
    let hash := createHash prevHash
    match xorBlockLoop len i hash 16 0 data with
    | (data, true) => data
    | (data, false) => xorLoop createHash len (i + 16) (some hash) data
  else data
termination_by len - i

/-- `md5_xor`: the packet processor, the header and the data after it. -/
def TacacsPacket.md5Xor (t : TacacsPacket) (hdr : Hdr) (data : Bytes) :
    TacacsPacket × Hdr × Bytes :=
  let t := { t with version := hdr.version }
  if t.key ≠ str "none" then
    let data := xorLoop (createMd5Hash md5 t.key hdr.sessionId t.version hdr.seqNo)
      hdr.len.toNat 0 none data
    let encryption := if hdr.encryption = tacPlusClear then tacPlusEncrypted else tacPlusClear
    (t, { hdr with encryption }, data)
  else (t, { hdr with encryption := tacPlusClear }, data)

end

/-! ## What the loops compute -/

/-- The pad of a chain of digests. -/
def digestPad (createHash : Option Digest → Digest) : ℕ → UInt8 :=
  Pad.blockPad 16 Digest.get createHash

/-- The inner loop xors one window and stops early exactly at the end of the data. -/
theorem xorBlockLoop_eq (len i : ℕ) (hash : Digest) (pad : ℕ → UInt8) (k j : ℕ) (data : Bytes)
    (hpad : ∀ l, j ≤ l → l < j + k → pad (i + l) = hash.get l) (hj : i + j ≤ len) :
    xorBlockLoop len i hash k j data =
      (Pad.overlayRange (· ^^^ ·) pad (i + j) (min (i + j + k) len) data,
        decide (len < i + j + k)) := by
  induction k generalizing j data with
  | zero =>
    have hdec : decide (len < i + j + 0) = false := by
      simpa using hj
    rw [xorBlockLoop, hdec, Pad.overlayRange_of_le _ _ (by omega)]
  | succ k ih =>
    rw [xorBlockLoop]
    by_cases hend : len ≤ i + j
    · have hdec : decide (len < i + j + (k + 1)) = true := decide_eq_true (by omega)
      rw [if_pos hend, hdec, Pad.overlayRange_of_le _ _ (by omega)]
    · have hrest : ∀ l, j + 1 ≤ l → l < j + 1 + k → pad (i + l) = hash.get l :=
        fun l h1 h2 => hpad l (by omega) (by omega)
      -- one write is the window of one position, put before the rest of the block
      have hwrite : data.modify (i + j) (· ^^^ hash.get j)
          = Pad.overlayRange (· ^^^ ·) pad (i + j) (i + j + 1) data := by
        rw [Pad.overlayRange_succ_self, hpad j le_rfl (by omega)]
      rw [if_neg hend, ih (j + 1) _ hrest (by omega), hwrite, ← Nat.add_assoc,
        Pad.overlayRange_trans _ _ (by omega) (by omega)]
      have hlen : i + j + 1 + k = i + j + (k + 1) := by omega
      rw [hlen]

/-- From block `n` on the outer loop xors everything up to the length with the pad. -/
theorem xorLoop_eq (createHash : Option Digest → Digest) (len n : ℕ) (data : Bytes) :
    xorLoop createHash len (16 * n) (Pad.chainPrev createHash n) data =
      Pad.overlayRange (· ^^^ ·) (digestPad createHash) (16 * n) len data := by
  rw [xorLoop]
  by_cases hn : 16 * n < len
  · have hpad : ∀ l, 0 ≤ l → l < 0 + 16 →
        digestPad createHash (16 * n + l) = (Pad.chain createHash n).get l :=
      fun l _ hl => Pad.blockPad_add _ _ n (by omega)
    rw [if_pos hn, ← Pad.chain_eq createHash n]
    simp only
    rw [xorBlockLoop_eq len (16 * n) _ (digestPad createHash) 16 0 data hpad (by omega)]
    by_cases hend : len < 16 * n + 16
    · -- the data ends in this block, where the function returns
      have hmin : min (16 * n + 0 + 16) len = len := by omega
      simp [hend, hmin]
    · have hmin : min (16 * n + 0 + 16) len = 16 * n + 16 := by omega
      simp only [Nat.add_zero, hend, decide_false, hmin]
      have hstep := xorLoop_eq createHash len (n + 1)
        (Pad.overlayRange (· ^^^ ·) (digestPad createHash) (16 * n) (16 * n + 16) data)
      rw [Pad.chainPrev_succ, Nat.mul_add, Nat.mul_one] at hstep
      rw [hstep, Pad.overlayRange_trans _ _ (by omega) (by omega)]
  · rw [if_neg hn, Pad.overlayRange_of_le _ _ (by omega)]
termination_by len - 16 * n

/-- `md5_xor` on the body: the whole announced length is overlaid with the pad,
or nothing under the key `none`. -/
theorem TacacsPacket.md5Xor_data (md5 : Bytes → Digest) (t : TacacsPacket) (hdr : Hdr)
    (data : Bytes) :
    (t.md5Xor md5 hdr data).2.2 =
      if t.key = str "none" then data
      else Pad.overlayRange (· ^^^ ·)
        (digestPad (createMd5Hash md5 t.key hdr.sessionId hdr.version hdr.seqNo))
        0 hdr.len.toNat data := by
  by_cases hk : t.key = str "none"
  · simp [TacacsPacket.md5Xor, hk]
  · have hloop := xorLoop_eq (createMd5Hash md5 t.key hdr.sessionId hdr.version hdr.seqNo)
      hdr.len.toNat 0 data
    simp only [Nat.mul_zero] at hloop
    simp only [TacacsPacket.md5Xor, ne_eq, hk, not_false_eq_true, if_true, if_false]
    exact hloop

/-- On a packet whose body has the announced length every byte is overlaid. -/
theorem TacacsPacket.md5Xor_body (md5 : Bytes → Digest) (t : TacacsPacket) (p : Packet)
    (hk : t.key ≠ str "none") :
    (t.md5Xor md5 p.hdr p.body).2.2 = Pad.overlay (· ^^^ ·)
      (digestPad (createMd5Hash md5 t.key p.hdr.sessionId p.hdr.version p.hdr.seqNo)) p.body := by
  have hlen : p.hdr.len.toNat = p.body.length := by
    rw [p.length_eq, Int.toNat_natCast]
  rw [t.md5Xor_data, if_neg hk, hlen, Pad.overlayRange_length]

@[simp] theorem TacacsPacket.md5Xor_key (md5 : Bytes → Digest) (t : TacacsPacket) (hdr : Hdr)
    (data : Bytes) : (t.md5Xor md5 hdr data).1 = { t with version := hdr.version } := by
  simp only [TacacsPacket.md5Xor]
  split <;> rfl

/-- `md5_xor` changes nothing of the header but the encryption flag. -/
theorem TacacsPacket.md5Xor_hdr (md5 : Bytes → Digest) (t : TacacsPacket) (hdr : Hdr)
    (data : Bytes) :
    (t.md5Xor md5 hdr data).2.1 =
      { hdr with encryption :=
          if t.key = str "none" then tacPlusClear
          else if hdr.encryption = tacPlusClear then tacPlusEncrypted else tacPlusClear } := by
  by_cases hk : t.key = str "none" <;> simp [TacacsPacket.md5Xor, hk]

theorem TacacsPacket.length_md5Xor (md5 : Bytes → Digest) (t : TacacsPacket) (hdr : Hdr)
    (data : Bytes) : (t.md5Xor md5 hdr data).2.2.length = data.length := by
  rw [t.md5Xor_data]
  split <;> simp

/-- Xoring one byte with the same byte twice gives it back. -/
theorem xor_xor_cancel (a b : UInt8) : a ^^^ b ^^^ b = a := by
  rw [UInt8.xor_assoc, UInt8.xor_self, UInt8.xor_zero]

/-- **Body encryption is an involution.**  Under every key but `none`, for every
body and header, two calls of `md5_xor` give back the body, and the encryption
flag when it was one of the two flags of the protocol.  Under the key `none` one
call leaves the body alone. -/
theorem md5Xor_involution (md5 : Bytes → Digest) (t : TacacsPacket) (p : Packet) :
    (t.key ≠ str "none" →
      let once := t.md5Xor md5 p.hdr p.body
      let twice := once.1.md5Xor md5 once.2.1 once.2.2
      twice.2.2 = p.body ∧
        (p.hdr.encryption = tacPlusClear ∨ p.hdr.encryption = tacPlusEncrypted →
          twice.2.1.encryption = p.hdr.encryption)) ∧
    (t.key = str "none" → (t.md5Xor md5 p.hdr p.body).2.2 = p.body) := by
  refine ⟨fun hk => ?_, fun hk => ?_⟩
  · intro once twice
    -- the body after one call still has the length the header announces
    have hlen1 : once.2.1.len = once.2.2.length := by
      show (t.md5Xor md5 p.hdr p.body).2.1.len = ((t.md5Xor md5 p.hdr p.body).2.2.length : ℤ)
      rw [t.md5Xor_hdr, t.length_md5Xor]
      exact p.length_eq
    have hbody1 := t.md5Xor_body md5 p hk
    have hkey1 : once.1.key ≠ str "none" := by
      simpa [once] using hk
    have hbody2 := once.1.md5Xor_body md5 ⟨once.2.1, once.2.2, hlen1⟩ hkey1
    refine ⟨?_, fun henc => ?_⟩
    · have hsame : createMd5Hash md5 once.1.key once.2.1.sessionId once.2.1.version
          once.2.1.seqNo
          = createMd5Hash md5 t.key p.hdr.sessionId p.hdr.version p.hdr.seqNo := by
        simp [once, t.md5Xor_hdr]
      calc twice.2.2
          = Pad.overlay (· ^^^ ·) (digestPad (createMd5Hash md5 once.1.key once.2.1.sessionId
              once.2.1.version once.2.1.seqNo)) once.2.2 := hbody2
        _ = Pad.overlay (· ^^^ ·) (digestPad (createMd5Hash md5 t.key p.hdr.sessionId
              p.hdr.version p.hdr.seqNo)) (Pad.overlay (· ^^^ ·) (digestPad (createMd5Hash md5
              t.key p.hdr.sessionId p.hdr.version p.hdr.seqNo)) p.body) := by
            rw [hsame, ← hbody1]
        _ = p.body := Pad.overlay_overlay _ _ xor_xor_cancel p.body
    · have hflag : twice.2.1.encryption =
          if once.2.1.encryption = tacPlusClear then tacPlusEncrypted else tacPlusClear := by
        simp only [twice]
        rw [once.1.md5Xor_hdr, if_neg hkey1]
      have hflag1 : once.2.1.encryption =
          if p.hdr.encryption = tacPlusClear then tacPlusEncrypted else tacPlusClear := by
        simp only [once]
        rw [t.md5Xor_hdr, if_neg hk]
      rw [hflag, hflag1]
      rcases henc with h | h <;> rw [h] <;> decide
  · rw [t.md5Xor_data, if_pos hk]

/-- Three bytes under the key of a new device. -/
theorem md5Xor_involution_tacacs :
    let t : TacacsPacket := ⟨5, 0, str "tacacs", [], 0⟩
    let hdr : Hdr := ⟨tacPlusVer0, 1, 1, tacPlusClear, 5, 3⟩
    let once := t.md5Xor (fun _ => constDigest 7) hdr [1, 2, 3]
    let twice := once.1.md5Xor (fun _ => constDigest 7) once.2.1 once.2.2
    twice.2.2 = [1, 2, 3] ∧ twice.2.1.encryption = tacPlusClear := by
  intro t hdr once twice
  have h := (md5Xor_involution (fun _ => constDigest 7) t ⟨hdr, [1, 2, 3], by decide⟩).1
    (by decide)
  exact ⟨h.1, h.2 (.inl rfl)⟩

/-! ## One hash for all blocks -/

/-- The loops of `md5_xor` where one hash is laid over all blocks, as the database and the
bundle do it: the end of the data ends the loops here too. -/
def repeatXor (hash : Digest) (data : Bytes) : Bytes :=
  xorLoop (fun _ => hash) data.length 0 none data

theorem repeatXor_eq (hash : Digest) (data : Bytes) :
    repeatXor hash data = Pad.overlay (· ^^^ ·) (fun i => hash.get (i % 16)) data := by
  have hpad : digestPad (fun _ => hash) = fun i => hash.get (i % 16) := by
    funext i
    rw [digestPad, Pad.blockPad, Pad.chain_eq]
  have hloop := xorLoop_eq (fun _ => hash) data.length 0 data
  rw [Nat.mul_zero, hpad] at hloop
  rw [repeatXor, ← Pad.overlayRange_length]
  exact hloop

end Tacppd
