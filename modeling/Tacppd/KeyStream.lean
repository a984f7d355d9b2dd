/-
# The key stream of the protocol

The protocol computes its pad over the whole key.  `create_md5_hash` copies the
key through a buffer of 32 bytes, which keeps 30 of them, and the device table
admits keys of at most 30 bytes, so the two agree on every key a device can
have.  Beyond 30 bytes they would not.
-/
import Tacppd.Crypt

namespace Tacppd

/-! ## The protocol's pad -/

/-- Pad block `n` of the protocol, over the whole key. -/
def padBlock (md5 : Bytes → Digest) (key : Bytes) (hdr : Hdr) : ℕ → Digest
  | 0 => md5 (netBytes hdr.sessionId ++ key ++ [hdr.version] ++ [hdr.seqNo])
  | n + 1 => md5 (netBytes hdr.sessionId ++ key ++ [hdr.version] ++ [hdr.seqNo] ++
      (padBlock md5 key hdr n).bytes)

/-- The protocol's key stream: byte `i` is byte `i mod 16` of pad block `i div 16`. -/
def keyStream (md5 : Bytes → Digest) (key : Bytes) (hdr : Hdr) (i : ℕ) : UInt8 :=
  (padBlock md5 key hdr (i / 16)).get (i % 16)

/-- The blocks of the protocol are the chain of hashes over the whole key. -/
theorem chain_hashInput (md5 : Bytes → Digest) (key : Bytes) (hdr : Hdr) (n : ℕ) :
    Pad.chain (fun prev => md5 (hashInput key hdr.sessionId hdr.version hdr.seqNo prev)) n
      = padBlock md5 key hdr n := by
  induction n with
  | zero => simp [Pad.chain, padBlock, hashInput]
  | succ n ih =>
    rw [Pad.chain, ih]
    simp [padBlock, hashInput]

/-- A key that fits the buffer of `create_md5_hash` gives the protocol's stream. -/
theorem digestPad_eq_keyStream (md5 : Bytes → Digest) {key : Bytes}
    (hkey : snprintf 31 key = key) (hdr : Hdr) :
    digestPad (createMd5Hash md5 key hdr.sessionId hdr.version hdr.seqNo)
      = keyStream md5 key hdr := by
  funext i
  have hhash : createMd5Hash md5 key hdr.sessionId hdr.version hdr.seqNo
      = fun prev => md5 (hashInput key hdr.sessionId hdr.version hdr.seqNo prev) := by
    funext prev
    rw [createMd5Hash, hkey]
  rw [digestPad, Pad.blockPad, hhash, chain_hashInput, keyStream]

/-! ## The keys a device can have -/

/-- `utl::isCorrespondW` for a mask `{str:a-b}`. -/
def isCorrespondStr (a b : ℕ) (s : Bytes) : Bool :=
  decide (a ≤ s.length) && decide (s.length ≤ b)

/-- The TACACS+ key of a device entry: the constructor's `tacacs`, or what the
command `confDeviceTKey` let through, whose parameter mask in `etc/tacppd.cf.xml`
is `{str:2-30}`.  No database table holds device keys. -/
structure DeviceKey where
  bytes : Bytes
  noNul : (0 : UInt8) ∉ bytes
  accepted : bytes = str "tacacs" ∨ isCorrespondStr 2 30 bytes = true

theorem DeviceKey.length_le (k : DeviceKey) : k.bytes.length ≤ 30 := by
  rcases k.accepted with h | h
  · rw [h]
    decide
  · simp only [isCorrespondStr, Bool.and_eq_true, decide_eq_true_eq] at h
    exact h.2

/-- The packet processor of a session with a device: the connection loop copies
the key through `char key[100]`. -/
def TacacsPacket.withDeviceKey (t : TacacsPacket) (k : DeviceKey) : TacacsPacket :=
  { t with key := snprintf 100 k.bytes }

/-- No copy on the way to `md5_xor` cuts a device's key. -/
theorem TacacsPacket.withDeviceKey_key (t : TacacsPacket) (k : DeviceKey) :
    (t.withDeviceKey k).key = k.bytes := by
  have h30 := k.length_le
  exact snprintf_eq_self k.noNul (by omega)

/-- **The key stream is the protocol's.**  For every key a device entry can hold,
other than `none`, byte `i` of what `md5_xor` gives is byte `i` of the body xored
with byte `i mod 16` of pad block `i div 16`, computed over the whole key; so a
peer that lays the protocol's stream of the same key over it reads the body. -/
theorem md5Xor_keyStream (md5 : Bytes → Digest) (t : TacacsPacket) (k : DeviceKey) (p : Packet)
    (hk : k.bytes ≠ str "none") :
    let sent := ((t.withDeviceKey k).md5Xor md5 p.hdr p.body).2.2
    sent.length = p.body.length ∧
      (∀ i b, p.body[i]? = some b →
        sent[i]? = some (b ^^^ (padBlock md5 k.bytes p.hdr (i / 16)).get (i % 16))) ∧
      Pad.overlay (· ^^^ ·) (keyStream md5 k.bytes p.hdr) sent = p.body := by
  intro sent
  have hcut : snprintf 31 k.bytes = k.bytes := snprintf_eq_self k.noNul k.length_le
  have hsent : sent = Pad.overlay (· ^^^ ·) (keyStream md5 k.bytes p.hdr) p.body := by
    have hbody := (t.withDeviceKey k).md5Xor_body md5 p (by rwa [t.withDeviceKey_key])
    rw [t.withDeviceKey_key, digestPad_eq_keyStream md5 hcut] at hbody
    exact hbody
  refine ⟨?_, ?_, ?_⟩
  · rw [hsent, Pad.length_overlay]
  · intro i b hb
    rw [hsent, Pad.getElem?_overlay, hb]
    rfl
  · rw [hsent]
    exact Pad.overlay_overlay _ _ xor_xor_cancel p.body

/-- The witness runs on the key a new device has. -/
theorem md5Xor_keyStream_tacacs :
    str "tacacs" ≠ str "none" ∧
      Pad.overlay (· ^^^ ·) (keyStream (fun _ => constDigest 7) (str "tacacs") ⟨tacPlusVer0, 1, 1,
          tacPlusClear, 5, 3⟩)
        ((TacacsPacket.withDeviceKey ⟨5, 0, [], [], 0⟩ ⟨str "tacacs", by decide,
          .inl rfl⟩).md5Xor (fun _ => constDigest 7) ⟨tacPlusVer0, 1, 1, tacPlusClear, 5, 3⟩
          [1, 2, 3]).2.2 = [1, 2, 3] :=
  ⟨by decide, (md5Xor_keyStream (fun _ => constDigest 7) ⟨5, 0, [], [], 0⟩
    ⟨str "tacacs", by decide, .inl rfl⟩
    ⟨⟨tacPlusVer0, 1, 1, tacPlusClear, 5, 3⟩, [1, 2, 3], by decide⟩ (by decide)).2.2⟩

/-! ## The bound is exact -/

/-- Two keys of different lengths are told apart by some hash function already on
a body of one byte. -/
theorem exists_md5_of_length_ne {key key' : Bytes} (h : key.length ≠ key'.length) (hdr : Hdr) :
    ∃ md5 : Bytes → Digest, (padBlock md5 key hdr 0).get 0 ≠ (padBlock md5 key' hdr 0).get 0 := by
  refine ⟨fun m => if m = netBytes hdr.sessionId ++ key ++ [hdr.version] ++ [hdr.seqNo] then
    constDigest 1 else constDigest 0, ?_⟩
  have hne : netBytes hdr.sessionId ++ key' ++ [hdr.version] ++ [hdr.seqNo] ≠
      netBytes hdr.sessionId ++ key ++ [hdr.version] ++ [hdr.seqNo] := by
    intro heq
    have hlen := congrArg List.length heq
    simp only [List.length_append] at hlen
    omega
  rw [padBlock, padBlock, if_pos rfl, if_neg hne]
  decide

/-- The stream of `md5_xor` is the one of the key's first 30 bytes: it is the
protocol's, whatever MD5 computes, exactly for the keys of at most 30 bytes. -/
theorem md5Xor_whole_key_iff (t : TacacsPacket) (h0 : (0 : UInt8) ∉ t.key)
    (hk : t.key ≠ str "none") :
    (∀ (md5 : Bytes → Digest) (p : Packet), (t.md5Xor md5 p.hdr p.body).2.2 =
        Pad.overlay (· ^^^ ·) (keyStream md5 t.key p.hdr) p.body) ↔ t.key.length ≤ 30 := by
  constructor
  · -- a longer key shows already in the first byte of a body
    intro h
    by_contra hlong
    have hcut : (snprintf 31 t.key).length ≠ t.key.length := by
      rw [snprintf, cstr_eq_self h0, List.length_take]
      omega
    obtain ⟨md5, hmd5⟩ := exists_md5_of_length_ne hcut ⟨tacPlusVer0, 1, 1, tacPlusClear, 0, 1⟩
    have hone := h md5 ⟨⟨tacPlusVer0, 1, 1, tacPlusClear, 0, 1⟩, [0], by decide⟩
    rw [t.md5Xor_body md5 _ hk] at hone
    have hbyte := congrArg (·[0]?) hone
    simp only [Pad.getElem?_overlay, List.getElem?_cons_zero, Option.map_some, Option.some.injEq,
      UInt8.zero_xor] at hbyte
    refine hmd5 ?_
    simpa [digestPad, Pad.blockPad, Pad.chain, createMd5Hash, hashInput, keyStream,
      padBlock] using hbyte
  · intro hlen md5 p
    have hfit : snprintf 31 t.key = t.key := snprintf_eq_self h0 hlen
    rw [t.md5Xor_body md5 p hk, digestPad_eq_keyStream md5 hfit]

end Tacppd
