/-
# Numbers as bytes

A general development: a number is kept in `n` bytes, the lowest byte first or the highest
byte first.  What is read back is the number modulo `256 ^ n`, and bytes are the bytes of
the number they are read as.  A number is turned into network order by taking its bytes in
that order for the bytes of another number.
-/
import Mathlib.Data.Nat.Digits.Defs
import Mathlib.Data.Nat.Digits.Lemmas

/-- The order in which a host keeps the bytes of a number. -/
inductive ByteOrder
  | little
  | big
deriving DecidableEq

namespace ByteOrder

variable {n v : ℕ} {bs : List UInt8}

/-! ## The lowest byte first -/

/-- The `n` lowest bytes of a number. -/
def split : ℕ → ℕ → List UInt8
  | 0, _ => []
  | n + 1, v => (v % 256).toUInt8 :: split n (v / 256)

def combine (bs : List UInt8) : ℕ := Nat.ofDigits 256 (bs.map UInt8.toNat)

@[simp] theorem length_split (n v : ℕ) : (split n v).length = n := by
  induction n generalizing v with
  | zero => rfl
  | succ n ih => rw [split, List.length_cons, ih]

@[simp] theorem combine_nil : combine [] = 0 := rfl

theorem combine_cons (b : UInt8) (bs : List UInt8) :
    combine (b :: bs) = b.toNat + 256 * combine bs := by
  simp [combine, Nat.ofDigits_cons]

theorem combine_split (n v : ℕ) : combine (split n v) = v % 256 ^ n := by
  induction n generalizing v with
  | zero => simp [split, combine, Nat.mod_one]
  | succ n ih =>
    have hlow : ((v % 256).toUInt8).toNat = v % 256 := by simp
    rw [split, combine_cons, ih, hlow, Nat.pow_succ', Nat.mod_mul]

theorem combine_lt (bs : List UInt8) : combine bs < 256 ^ bs.length := by
  have hlt := @Nat.ofDigits_lt_base_pow_length 256 (bs.map UInt8.toNat) (by omega) ?_
  · rwa [List.length_map] at hlt
  · intro x hx
    obtain ⟨b, -, rfl⟩ := List.mem_map.mp hx
    exact b.toNat_lt

theorem split_combine (bs : List UInt8) : split bs.length (combine bs) = bs := by
  induction bs with
  | nil => rfl
  | cons b bs ih =>
    have hb := b.toNat_lt
    have hdiv : (b.toNat + 256 * combine bs) / 256 = combine bs := by omega
    have hmod : (b.toNat + 256 * combine bs) % 256 = b.toNat := by omega
    rw [combine_cons, List.length_cons, split, hdiv, hmod, ih]
    simp

/-! ## In the order of a host -/

/-- From the lowest byte first to the order of the host, and back. -/
def arrange : ByteOrder → List UInt8 → List UInt8
  | .little, bs => bs
  | .big, bs => bs.reverse

@[simp] theorem length_arrange (e : ByteOrder) (bs : List UInt8) :
    (e.arrange bs).length = bs.length := by
  cases e <;> simp [arrange]

@[simp] theorem arrange_arrange (e : ByteOrder) (bs : List UInt8) :
    e.arrange (e.arrange bs) = bs := by
  cases e <;> simp [arrange]

/-- The bytes of a number. -/
def encode (e : ByteOrder) (n v : ℕ) : List UInt8 := e.arrange (split n v)

/-- The number of the bytes. -/
def decode (e : ByteOrder) (bs : List UInt8) : ℕ := combine (e.arrange bs)

variable (e : ByteOrder)

@[simp] theorem length_encode (n v : ℕ) : (e.encode n v).length = n := by
  simp [encode]

@[simp] theorem decode_encode (n v : ℕ) : e.decode (e.encode n v) = v % 256 ^ n := by
  rw [decode, encode, arrange_arrange, combine_split]

theorem encode_decode (bs : List UInt8) : e.encode bs.length (e.decode bs) = bs := by
  have hsplit := split_combine (e.arrange bs)
  rw [length_arrange] at hsplit
  rw [encode, decode, hsplit, arrange_arrange]

theorem decode_lt (bs : List UInt8) : e.decode bs < 256 ^ bs.length := by
  have hlt := combine_lt (e.arrange bs)
  rwa [length_arrange] at hlt

/-- Bytes are determined by their number. -/
theorem decode_inj {bs bs' : List UInt8} (hlen : bs.length = bs'.length)
    (h : e.decode bs = e.decode bs') : bs = bs' :=
  calc bs = e.encode bs.length (e.decode bs) := (e.encode_decode bs).symm
    _ = e.encode bs'.length (e.decode bs') := by rw [hlen, h]
    _ = bs' := e.encode_decode bs'

/-! ## Network order -/

/-- The `n` lowest bytes of a host number in network order, again as a host number:
`htons` and `htonl`. -/
def hton (n v : ℕ) : ℕ := e.decode (big.encode n v)

/-- `ntohs` and `ntohl`. -/
def ntoh (n v : ℕ) : ℕ := big.decode (e.encode n v)

theorem hton_lt (n v : ℕ) : e.hton n v < 256 ^ n := by
  have hlt := e.decode_lt (big.encode n v)
  rwa [length_encode] at hlt

theorem ntoh_hton (n v : ℕ) : e.ntoh n (e.hton n v) = v % 256 ^ n := by
  have hback := e.encode_decode (big.encode n v)
  rw [length_encode] at hback
  rw [ntoh, hton, hback, decode_encode]

/-- Bytes in network order are read as they stand. -/
theorem ntoh_decode (bs : List UInt8) : e.ntoh bs.length (e.decode bs) = big.decode bs := by
  rw [ntoh, encode_decode]

end ByteOrder
