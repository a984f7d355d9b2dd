/-
# Passwords in the database

`DbModule::encrypt` and `DbModule::decrypt`: a password is xored with one MD5 hash of the
configured key and a key of the row, and kept as a base64 text.  Between the two steps the
xored bytes are handled as a C string, so that a byte of the password that is equal to the
byte of the hash at its place becomes a NUL and ends the text.

`decrypt_encrypt_iff` says that the round trip fails on exactly these passwords.
-/
import Tacppd.Base64
import Tacppd.Select

namespace Tacppd

/-- `DbModule`, as far as the encryption reads it.  The key is a C string. -/
structure DbModule where
  cryptokey : Bytes
  no_nul : (0 : UInt8) ∉ cryptokey

namespace DbModule

variable (md5 : Bytes → Digest) (m : DbModule)

/-- `create_md5_hash`, with `char cryptokey[128]`. -/
def createMd5Hash (varkey : Bytes) : Digest := md5 (snprintf 127 m.cryptokey ++ cstr varkey)

/-- `md5_xor`, with `char cryptokey[32]`. -/
def md5Xor (data varkey : Bytes) : Bytes :=
  if !scomp (snprintf 31 m.cryptokey) (str "none") then
    repeatXor (m.createMd5Hash md5 varkey) data
  else data

/-- `encrypt`; nothing where a buffer without NUL is read as a C string. -/
def encrypt (s varkey : Bytes) : Option Bytes :=
  if m.cryptokey = str "none" then terminated 64 (((cstr s).take 32).flatMap sqlByte)
  else
    (terminated 32 ((cstr s).take 32)).map fun s =>
      let s := cstr (m.md5Xor md5 s varkey)
      base64Encode (s.take 64)

/-- `decrypt`. -/
def decrypt (s varkey : Bytes) : Option Bytes :=
  if m.cryptokey = str "none" then some (cstr s)
  else
    (terminated 128 ((cstr s).take 128)).bind fun s =>
      (base64Decode s).bind fun sss =>
        let r := m.md5Xor md5 (snprintf 63 sss) varkey
        terminated 32 ((cstr r).take 32)

/-! ## The round trip -/

variable {m}

/-- The short copy of a key that is not `none` is not `none` either. -/
theorem md5Xor_eq (hm : m.cryptokey ≠ str "none") (data varkey : Bytes) :
    m.md5Xor md5 data varkey =
      Pad.overlay (· ^^^ ·) (fun i => (m.createMd5Hash md5 varkey).get (i % 16)) data := by
  have hne : ¬ snprintf 31 m.cryptokey = str "none" := by
    intro h
    rw [snprintf, cstr_eq_self m.no_nul] at h
    have hlen := congrArg List.length h
    have hnone : (str "none").length = 4 := by decide
    rw [List.length_take, hnone] at hlen
    rw [List.take_of_length_le (by omega)] at h
    exact hm h
  have hscomp : scomp (snprintf 31 m.cryptokey) (str "none") = false := by
    rw [Bool.eq_false_iff, ne_eq, scomp_iff]
    exact hne
  rw [md5Xor, hscomp, repeatXor_eq]
  rfl

theorem length_md5Xor (hm : m.cryptokey ≠ str "none") (data vk : Bytes) :
    (m.md5Xor md5 data vk).length = data.length := by
  rw [md5Xor_eq md5 hm, Pad.length_overlay]

/-- The pad on the first bytes only. -/
theorem overlay_take (pad : ℕ → UInt8) (data : Bytes) (n : ℕ) :
    Pad.overlay (· ^^^ ·) pad (data.take n) = (Pad.overlay (· ^^^ ·) pad data).take n := by
  apply List.ext_getElem?
  intro i
  rw [Pad.getElem?_overlay, List.getElem?_take, List.getElem?_take]
  split
  · rw [Pad.getElem?_overlay]
  · rfl

theorem cstr_eq_take (b : Bytes) : cstr b = b.take (cstr b).length :=
  List.prefix_iff_eq_take.mp (List.takeWhile_prefix _)

/-- What is stored for a password that fits. -/
theorem encrypt_eq (hm : m.cryptokey ≠ str "none") {p : Bytes} (h0 : (0 : UInt8) ∉ p)
    (hlen : p.length ≤ 31) (vk : Bytes) :
    m.encrypt md5 p vk = some (base64Groups (cstr (m.md5Xor md5 p vk))) := by
  have hp : (cstr p).take 32 = p := by
    rw [cstr_eq_self h0, List.take_of_length_le (by omega)]
  have hfit : terminated 32 p = some p := by
    rw [terminated, if_pos (by omega)]
  obtain ⟨x, hx⟩ : ∃ x, x = m.md5Xor md5 p vk := ⟨_, rfl⟩
  have hxlen : x.length = p.length := by
    rw [hx, length_md5Xor md5 hm]
  have hcut := length_cstr_le x
  rw [encrypt, if_neg hm, hp, hfit, Option.map_some, ← hx]
  simp only [List.take_of_length_le (show (cstr x).length ≤ 64 by omega)]
  rw [base64Encode_eq (zero_not_mem_cstr x) (by omega)]

/-- A password that does not fit is read beyond its buffer. -/
theorem encrypt_eq_none (hm : m.cryptokey ≠ str "none") {p : Bytes} (h0 : (0 : UInt8) ∉ p)
    (hlen : 32 ≤ p.length) (vk : Bytes) : m.encrypt md5 p vk = none := by
  rw [encrypt, if_neg hm, cstr_eq_self h0, terminated, if_neg, Option.map_none]
  rw [List.length_take]
  omega

/-- What a stored text is read as. -/
theorem decrypt_groups (hm : m.cryptokey ≠ str "none") {x : Bytes} (h0 : (0 : UInt8) ∉ x)
    (hlen : x.length ≤ 31) (vk : Bytes) :
    m.decrypt md5 (base64Groups x) vk = some (cstr (m.md5Xor md5 x vk)) := by
  have htext := base64Encode_eq h0 (show x.length ≤ 45 by omega)
  have htext0 := zero_not_mem_base64Groups x
  have htextlen := length_base64Groups x
  have hread : terminated 128 ((cstr (base64Groups x)).take 128) = some (base64Groups x) := by
    rw [cstr_eq_self htext0, List.take_of_length_le (by omega), terminated, if_pos (by omega)]
  have hback := length_md5Xor md5 hm x vk
  have hcut := length_cstr_le (m.md5Xor md5 x vk)
  rw [decrypt, if_neg hm, hread, Option.bind_some, ← htext, base64Decode_encode h0 (by omega),
    Option.bind_some, snprintf_eq_self h0 (by omega)]
  simp only
  rw [List.take_of_length_le (by omega), terminated, if_pos (by omega)]

/-- What comes back is the password up to the first byte that is xored to NUL. -/
theorem decrypt_encrypt (hm : m.cryptokey ≠ str "none") {p : Bytes} (h0 : (0 : UInt8) ∉ p)
    (hlen : p.length ≤ 31) (vk : Bytes) :
    (m.encrypt md5 p vk).bind (fun s => m.decrypt md5 s vk) =
      some (p.take (cstr (m.md5Xor md5 p vk)).length) := by
  obtain ⟨x, hx⟩ : ∃ x, x = m.md5Xor md5 p vk := ⟨_, rfl⟩
  have hxlen : x.length = p.length := by
    rw [hx, length_md5Xor md5 hm]
  have hcut := length_cstr_le x
  have hback : m.md5Xor md5 (cstr x) vk = p.take (cstr x).length := by
    rw [md5Xor_eq md5 hm, cstr_eq_take x, overlay_take, hx, md5Xor_eq md5 hm,
      Pad.overlay_overlay _ _ xor_xor_cancel]
    simp
  have htake0 : (0 : UInt8) ∉ p.take (cstr x).length := fun h => h0 (List.mem_of_mem_take h)
  rw [encrypt_eq md5 hm h0 hlen, Option.bind_some, ← hx,
    decrypt_groups md5 hm (zero_not_mem_cstr x) (by omega), hback, cstr_eq_self htake0]

/-- A byte of the xored text. -/
theorem getElem?_md5Xor (hm : m.cryptokey ≠ str "none") (data vk : Bytes) (i : ℕ) :
    (m.md5Xor md5 data vk)[i]? =
      data[i]?.map fun c => c ^^^ (m.createMd5Hash md5 vk).get (i % 16) := by
  rw [md5Xor_eq md5 hm, Pad.getElem?_overlay]

/-- A NUL in the xored text is a byte that is equal to the byte of the hash. -/
theorem zero_not_mem_md5Xor (hm : m.cryptokey ≠ str "none") (p vk : Bytes) :
    (0 : UInt8) ∉ m.md5Xor md5 p vk ↔
      ∀ (i : ℕ) (hi : i < p.length), p[i] ≠ (m.createMd5Hash md5 vk).get (i % 16) := by
  have hx := length_md5Xor md5 hm p vk
  have hget : ∀ (i : ℕ) (hi : i < p.length), (m.md5Xor md5 p vk)[i]? =
      some (p[i] ^^^ (m.createMd5Hash md5 vk).get (i % 16)) := by
    intro i hi
    rw [getElem?_md5Xor md5 hm, List.getElem?_eq_getElem hi]
    rfl
  constructor
  · intro hnot i hi heq
    apply hnot
    rw [List.mem_iff_getElem?]
    refine ⟨i, ?_⟩
    rw [hget i hi, heq, UInt8.xor_self]
  · intro hall hmem
    obtain ⟨i, hi⟩ := List.mem_iff_getElem?.mp hmem
    have hlt : i < p.length := by
      rw [← hx]
      exact (List.getElem?_eq_some_iff.mp hi).1
    rw [hget i hlt, Option.some.injEq, UInt8.xor_eq_zero_iff] at hi
    exact hall i hlt hi

/-- **A password comes back** exactly when none of its bytes is equal to the byte of the
hash that it is xored with. -/
theorem decrypt_encrypt_iff (hm : m.cryptokey ≠ str "none") {p : Bytes} (h0 : (0 : UInt8) ∉ p)
    (hlen : p.length ≤ 31) (vk : Bytes) :
    (m.encrypt md5 p vk).bind (fun s => m.decrypt md5 s vk) = some p ↔
      ∀ (i : ℕ) (hi : i < p.length), p[i] ≠ (m.createMd5Hash md5 vk).get (i % 16) := by
  have hx := length_md5Xor md5 hm p vk
  have hle := length_cstr_le (m.md5Xor md5 p vk)
  rw [decrypt_encrypt md5 hm h0 hlen vk, ← zero_not_mem_md5Xor md5 hm, Option.some.injEq]
  constructor
  · intro htake hmem
    have hshort := length_cstr_lt hmem
    have hlength := congrArg List.length htake
    rw [List.length_take] at hlength
    omega
  · intro hnot
    rw [cstr_eq_self hnot, hx, List.take_length]

/-- Two hashes agree on the places of a password. -/
def AgreeOn (p vk vk' : Bytes) : Prop :=
  ∀ i < p.length, (m.createMd5Hash md5 vk).get (i % 16) = (m.createMd5Hash md5 vk').get (i % 16)

instance (p vk vk' : Bytes) : Decidable (m.AgreeOn md5 p vk vk') :=
  inferInstanceAs (Decidable (∀ i < p.length,
    (m.createMd5Hash md5 vk).get (i % 16) = (m.createMd5Hash md5 vk').get (i % 16)))

/-- **A password comes back under another key** exactly when it does under its own and the two
hashes agree where it has bytes. -/
theorem decrypt_groups_iff (hm : m.cryptokey ≠ str "none") {p : Bytes} (h0 : (0 : UInt8) ∉ p)
    (hlen : p.length ≤ 31) (vk vk' : Bytes) :
    m.decrypt md5 (base64Groups (cstr (m.md5Xor md5 p vk))) vk' = some p ↔
      (∀ (i : ℕ) (hi : i < p.length), p[i] ≠ (m.createMd5Hash md5 vk).get (i % 16)) ∧
        m.AgreeOn md5 p vk vk' := by
  have hx := length_md5Xor md5 hm p vk
  have hle := length_cstr_le (m.md5Xor md5 p vk)
  rw [decrypt_groups md5 hm (zero_not_mem_cstr _) (by omega), Option.some.injEq,
    ← zero_not_mem_md5Xor md5 hm]
  obtain ⟨y, hy⟩ : ∃ y, y = m.md5Xor md5 (cstr (m.md5Xor md5 p vk)) vk' := ⟨_, rfl⟩
  have hylen : y.length = (cstr (m.md5Xor md5 p vk)).length := by
    rw [hy, length_md5Xor md5 hm]
  have hycut := length_cstr_le y
  rw [← hy]
  -- a byte that both hashes give back
  have hback : (0 : UInt8) ∉ m.md5Xor md5 p vk → (y = p ↔ m.AgreeOn md5 p vk vk') := by
    intro hnot
    have hget : ∀ (i : ℕ) (hi : i < p.length), y[i]? =
        some (p[i] ^^^ (m.createMd5Hash md5 vk).get (i % 16) ^^^
          (m.createMd5Hash md5 vk').get (i % 16)) := by
      intro i hi
      rw [hy, cstr_eq_self hnot, getElem?_md5Xor md5 hm, getElem?_md5Xor md5 hm,
        List.getElem?_eq_getElem hi]
      rfl
    constructor
    · rintro rfl i hi
      have hi' := hget i hi
      rw [List.getElem?_eq_getElem hi, Option.some.injEq, UInt8.xor_assoc] at hi'
      have hzero := congrArg (y[i] ^^^ ·) hi'
      simp only [← UInt8.xor_assoc, UInt8.xor_self, UInt8.zero_xor] at hzero
      exact UInt8.xor_eq_zero_iff.mp hzero.symm
    · intro hagree
      apply List.ext_getElem?
      intro i
      by_cases hi : i < p.length
      · rw [hget i hi, hagree i hi, UInt8.xor_assoc, UInt8.xor_self, UInt8.xor_zero,
          List.getElem?_eq_getElem hi]
      · rw [cstr_eq_self hnot, hx] at hylen
        rw [List.getElem?_eq_none (by omega), List.getElem?_eq_none (by omega)]
  constructor
  · intro hp
    -- every cut makes the text shorter than the password
    have hlength := congrArg List.length hp
    have hnot : (0 : UInt8) ∉ m.md5Xor md5 p vk := by
      intro hmem
      have hshort := length_cstr_lt hmem
      omega
    have hynot : (0 : UInt8) ∉ y := by
      intro hmem
      have hshort := length_cstr_lt hmem
      omega
    rw [cstr_eq_self hynot] at hp
    exact ⟨hnot, (hback hnot).mp hp⟩
  · rintro ⟨hnot, hagree⟩
    rw [(hback hnot).mpr hagree, cstr_eq_self h0]

/-- A key for the examples. -/
def sample : DbModule := ⟨str "key", by decide⟩

/-- A hash of sixteen bytes above ASCII. -/
theorem decrypt_encrypt_secret :
    (sample.encrypt (fun _ => constDigest 200) (str "secret") (str "usr")).bind
      (fun s => sample.decrypt (fun _ => constDigest 200) s (str "usr")) = some (str "secret") :=
  (decrypt_encrypt_iff (fun _ => constDigest 200) (by decide) (by decide) (by decide)
    (str "usr")).mpr (by decide +kernel)

/-- With the letter `c` in the hash the password is cut before it. -/
theorem decrypt_encrypt_cut :
    ¬ (∀ (md5 : Bytes → Digest) (m : DbModule), m.cryptokey ≠ str "none" → ∀ p : Bytes,
      (0 : UInt8) ∉ p → p.length ≤ 31 → ∀ vk,
        (m.encrypt md5 p vk).bind (fun s => m.decrypt md5 s vk) = some p) := by
  intro hall
  have hback := hall (fun _ => constDigest 99) sample (by decide) (str "secret") (by decide)
    (by decide) (str "usr")
  rw [decrypt_encrypt _ (by decide) (by decide) (by decide)] at hback
  revert hback
  decide +kernel

end DbModule

end Tacppd
