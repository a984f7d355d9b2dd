/-
# NetFlow packets

`NfAggregator::process` lays the structures of an export packet over the buffer of the
listener.  How many records it takes is what the header says; the size that was received
is not known to it.

`process_stays_iff` says for every version which datagrams are read inside: those that are
as long as the last record announced needs it.  The structures are packed, and their long
fields are `unsigned long`, so that the offsets depend on the host.
-/
import Tacppd.Lib.ByteOrder
import Tacppd.Lib.Packed
import Tacppd.NetFlow

namespace Tacppd

open Guarded Packed

/-- The size of `unsigned long`, and the byte order. -/
structure Host where
  long : ℕ
  order : ByteOrder

/-! ## Structures -/

/-- The fields of `NetFlowHeader_v1`, `v5` and `v7`. -/
inductive NfHeader
  | version | count | sysUptime | unixSecs | unixNsecs | flowSequence
  | engineType | engineId | reserved
deriving DecidableEq

/-- The fields of `NetFlow_v1`, `v5` and `v7`. -/
inductive NfField
  | srcaddr | dstaddr | nexthop | input | output | dPkts | dOctets | first | last
  | srcport | dstport | pad1 | prot | tos | tcpFlags | tcpRetxCnt | tcpRetxSecs
  | tcpMisseqCnt | reserved | dstAs | srcAs | dstMask | srcMask | pad2 | flags | routerSc
deriving DecidableEq

/-- Header, record, and the addresses of a record that are copied to texts first. -/
structure NfLayout where
  header : List (NfHeader × ℕ)
  record : List (NfField × ℕ)
  texts : List NfField

def netFlowV1 (w : ℕ) : NfLayout where
  header := [(.version, 2), (.count, 2), (.sysUptime, w), (.unixSecs, w), (.unixNsecs, w)]
  record := [(.srcaddr, w), (.dstaddr, w), (.nexthop, w), (.input, 2), (.output, 2), (.dPkts, w),
    (.dOctets, w), (.first, w), (.last, w), (.srcport, 2), (.dstport, 2), (.pad1, 2), (.prot, 1),
    (.tos, 1), (.tcpFlags, 1), (.tcpRetxCnt, 1), (.tcpRetxSecs, 1), (.tcpMisseqCnt, 1),
    (.reserved, w)]
  texts := []

def netFlowV5 (w : ℕ) : NfLayout where
  header := [(.version, 2), (.count, 2), (.sysUptime, w), (.unixSecs, w), (.unixNsecs, w),
    (.flowSequence, w), (.engineType, 1), (.engineId, 1), (.reserved, 2)]
  record := [(.srcaddr, w), (.dstaddr, w), (.nexthop, w), (.input, 2), (.output, 2), (.dPkts, w),
    (.dOctets, w), (.first, w), (.last, w), (.srcport, 2), (.dstport, 2), (.pad1, 1),
    (.tcpFlags, 1), (.prot, 1), (.tos, 1), (.dstAs, 2), (.srcAs, 2), (.dstMask, 1), (.srcMask, 1),
    (.pad2, 2)]
  texts := [.srcaddr, .dstaddr, .nexthop]

def netFlowV7 (w : ℕ) : NfLayout where
  header := [(.version, 2), (.count, 2), (.sysUptime, w), (.unixSecs, w), (.unixNsecs, w),
    (.flowSequence, w), (.reserved, w)]
  record := [(.srcaddr, w), (.dstaddr, w), (.nexthop, w), (.input, 2), (.output, 2), (.dPkts, w),
    (.dOctets, w), (.first, w), (.last, w), (.srcport, 2), (.dstport, 2), (.flags, 1),
    (.tcpFlags, 1), (.prot, 1), (.tos, 1), (.srcAs, w), (.dstAs, w), (.srcMask, 1), (.dstMask, 1),
    (.pad2, 2), (.routerSc, w)]
  texts := [.srcaddr, .dstaddr, .nexthop]

/-- The cases of the `switch`. -/
def nfLayout (w : ℕ) (version : BitVec 32) : Option NfLayout :=
  if version = 1 then some (netFlowV1 w)
  else if version = 5 then some (netFlowV5 w)
  else if version = 7 then some (netFlowV7 w)
  else none

/-! ## Reading -/

/-- The value of a field of a structure that begins at `base`, in the order of the host. -/
def readField {F : Type*} [DecidableEq F] (order : ByteOrder) (buf : Bytes) (base : ℕ)
    (s : List (F × ℕ)) (f : F) : Option ℕ :=
  (load buf (base + offset s f) (width s f)).map order.decode

theorem ensures_readField {F : Type*} [DecidableEq F] {order : ByteOrder} {buf : Bytes}
    {base : ℕ} {s : List (F × ℕ)} {f : F} {post : ℕ → Prop} :
    Ensures (readField order buf base s f) post ↔
      base + offset s f + width s f ≤ buf.length ∧
        post (order.decode ((buf.drop (base + offset s f)).take (width s f))) := by
  rw [readField, ensures_map, ensures_load]

/-- `bbb1 << 8 | bbb2`, of two signed characters. -/
def nfVersion (bbb1 bbb2 : UInt8) : BitVec 32 :=
  bbb1.toBitVec.signExtend 32 <<< 8 ||| bbb2.toBitVec.signExtend 32

/-- `ntohl` of a field, and the `unsigned int` it is. -/
def ntohl (H : Host) (v : ℕ) : BitVec 32 := BitVec.ofNat 32 (H.order.ntoh 4 v)

/-- The body of the loop for record `i`. -/
def NfLayout.readRecord (L : NfLayout) (H : Host) (ip : Bit32 (8 * H.long)) (buf : Bytes) (i : ℕ) :
    Option (NfCall (8 * H.long)) := do
  let f := size L.header + size L.record * i
  let _ ← L.texts.mapM fun t => readField H.order buf f L.record t
  let unixSecs ← readField H.order buf 0 L.header .unixSecs
  let sysUptime ← readField H.order buf 0 L.header .sysUptime
  let sut := ntohl H unixSecs - ntohl H sysUptime / 1000
  let first ← readField H.order buf f L.record .first
  let bt := sut.toNat + (ntohl H first / 1000).toNat
  let last ← readField H.order buf f L.record .last
  let et := sut.toNat + (ntohl H last / 1000).toNat
  let srcaddr ← readField H.order buf f L.record .srcaddr
  let dstaddr ← readField H.order buf f L.record .dstaddr
  let dOctets ← readField H.order buf f L.record .dOctets
  let dPkts ← readField H.order buf f L.record .dPkts
  let input ← readField H.order buf f L.record .input
  some (.add ip (.ofNat _ srcaddr) (.ofNat _ dstaddr)
    ⟨(ntohl H dOctets).setWidth _, (ntohl H dPkts).setWidth _, .ofNat 32 (H.order.ntoh 2 input),
      bt, et⟩)

/-- The loop, with `n` records to go. -/
def NfLayout.records (L : NfLayout) (H : Host) (ip : Bit32 (8 * H.long)) (buf : Bytes) :
    ℕ → ℕ → Option (List (NfCall (8 * H.long)))
  | 0, _ => some []
  | n + 1, i => do
    let c ← L.readRecord H ip buf i
    let cs ← L.records H ip buf n (i + 1)
    some (c :: cs)

/-- `NfAggregator::process`: the calls of `add` it makes. -/
def process (H : Host) (ip : Bit32 (8 * H.long)) (buf : Bytes) :
    Option (List (NfCall (8 * H.long))) := do
  let bbb1 ← buf[0]?
  let bbb2 ← buf[1]?
  match nfLayout H.long (nfVersion bbb1 bbb2) with
  | none => some []
  | some L =>
    -- the count is read again before every record, from the same place
    let count ← readField H.order buf 0 L.header .count
    L.records H ip buf (H.order.ntoh 2 count) 0

/-! ## What is read -/

/-- How far into a record the loop reads: to the end of `Last`. -/
def NfLayout.reach (L : NfLayout) : ℕ := offset L.record .last + width L.record .last

/-- The fields of a record that the loop takes. -/
def NfLayout.taken (L : NfLayout) : List NfField :=
  L.texts ++ [.first, .last, .srcaddr, .dstaddr, .dOctets, .dPkts, .input]

/-- No field that is taken ends behind `Last`. -/
def NfLayout.Ordered (L : NfLayout) : Prop :=
  ∀ t ∈ L.taken, offset L.record t + width L.record t ≤ L.reach

theorem nfLayout_cases {w : ℕ} {version : BitVec 32} {L : NfLayout}
    (h : nfLayout w version = some L) : L = netFlowV1 w ∨ L = netFlowV5 w ∨ L = netFlowV7 w := by
  rw [nfLayout] at h
  split at h
  · exact Or.inl (Option.some.inj h).symm
  · split at h
    · exact Or.inr (Or.inl (Option.some.inj h).symm)
    · split at h
      · exact Or.inr (Or.inr (Option.some.inj h).symm)
      · simp at h

theorem nfLayout_ordered {w : ℕ} {version : BitVec 32} {L : NfLayout}
    (h : nfLayout w version = some L) : L.Ordered := by
  simp only [NfLayout.Ordered, NfLayout.taken, NfLayout.reach]
  obtain rfl | rfl | rfl := nfLayout_cases h
  · simp only [netFlowV1, offset, width, List.nil_append, List.forall_mem_cons, reduceCtorEq,
      if_false, if_true, List.not_mem_nil, false_imp_iff, implies_true, and_true]
    omega
  · simp only [netFlowV5, offset, width, List.cons_append, List.nil_append, List.forall_mem_cons,
      reduceCtorEq, if_false, if_true, List.not_mem_nil, false_imp_iff, implies_true, and_true]
    omega
  · simp only [netFlowV7, offset, width, List.cons_append, List.nil_append, List.forall_mem_cons,
      reduceCtorEq, if_false, if_true, List.not_mem_nil, false_imp_iff, implies_true, and_true]
    omega

variable {H : Host} {ip : Bit32 (8 * H.long)} {buf : Bytes}

theorem ensures_readRecord {L : NfLayout} (hL : L.Ordered) {i : ℕ} :
    (Ensures (L.readRecord H ip buf i) fun _ => True) ↔
      size L.header + size L.record * i + L.reach ≤ buf.length := by
  have hheader := offset_add_width_le L.header
  simp only [NfLayout.readRecord, ensures_do, ensures_readField, ensures_some, and_true]
  rw [ensures_and, ensures_mapM]
  simp only [ensures_readField, and_true]
  have hunix := hheader .unixSecs
  have hup := hheader .sysUptime
  constructor
  · -- the field that is read furthest
    rintro ⟨-, -, -, -, hlast, -⟩
    rw [NfLayout.reach]
    omega
  · intro h
    have htake : ∀ t ∈ L.taken,
        size L.header + size L.record * i + offset L.record t + width L.record t ≤ buf.length := by
      intro t ht
      have hle := hL t ht
      omega
    refine ⟨fun t ht => htake t (by simp [NfLayout.taken, ht]), ?_⟩
    refine ⟨by omega, by omega, htake _ ?_, htake _ ?_, htake _ ?_, htake _ ?_, htake _ ?_,
      htake _ ?_, htake _ ?_⟩ <;> simp [NfLayout.taken]

theorem ensures_records {L : NfLayout} (hL : L.Ordered) {n i : ℕ} :
    (Ensures (L.records H ip buf n i) fun _ => True) ↔
      (0 < n → size L.header + size L.record * (i + n - 1) + L.reach ≤ buf.length) := by
  induction n generalizing i with
  | zero => simp [NfLayout.records]
  | succ n ih =>
    simp only [NfLayout.records, ensures_do, ensures_some]
    rw [ensures_and, ensures_readRecord hL]
    rw [ih]
    have hindex : i + 1 + n - 1 = i + (n + 1) - 1 := by omega
    rw [hindex]
    constructor
    · rintro ⟨hfirst, hrest⟩ _
      rcases Nat.eq_zero_or_pos n with rfl | hn
      · exact hfirst
      · exact hrest hn
    · intro h
      -- where the last record is inside, the records before it are
      have hlast := h (by omega)
      have hmono : size L.record * i ≤ size L.record * (i + (n + 1) - 1) :=
        Nat.mul_le_mul_left _ (by omega)
      exact ⟨by omega, fun _ => hlast⟩

/-- The version and the count that a datagram announces; of a short one, zeros. -/
def announcedVersion (dgram : Bytes) : BitVec 32 := nfVersion (dgram.getD 0 0) (dgram.getD 1 0)

def announcedCount (dgram : Bytes) : ℕ := (dgram.getD 2 0).toNat * 256 + (dgram.getD 3 0).toNat

/-- The datagram is as long as its version and its count need it: both bytes of the version;
for a version that is supported, those of the count; and with records, as many bytes as the
last one is read to. -/
def NfFits (w : ℕ) (dgram : Bytes) : Prop :=
  2 ≤ dgram.length ∧ ∀ L, nfLayout w (announcedVersion dgram) = some L →
    4 ≤ dgram.length ∧ (0 < announcedCount dgram →
      size L.header + size L.record * (announcedCount dgram - 1) + L.reach ≤ dgram.length)

/-- The count does not depend on the host. -/
theorem announcedCount_eq {order : ByteOrder} {dgram : Bytes} (h : 4 ≤ dgram.length) :
    order.ntoh 2 (order.decode ((dgram.drop 2).take 2)) = announcedCount dgram := by
  have hlen : ((dgram.drop 2).take 2).length = 2 := by
    rw [List.length_take, List.length_drop]
    omega
  have hread := order.ntoh_decode ((dgram.drop 2).take 2)
  rw [hlen] at hread
  rw [hread]
  match dgram, h with
  | _ :: _ :: b2 :: b3 :: _, _ =>
    simp [announcedCount, ByteOrder.decode, ByteOrder.arrange, ByteOrder.combine_cons,
      Nat.add_comm, Nat.mul_comm]

theorem nfLayout_count {w : ℕ} {version : BitVec 32} {L : NfLayout}
    (h : nfLayout w version = some L) : offset L.header .count = 2 ∧ width L.header .count = 2 := by
  obtain rfl | rfl | rfl := nfLayout_cases h <;> exact ⟨rfl, rfl⟩

/-- Which datagrams `process` reads inside. -/
theorem process_stays_iff {dgram : Bytes} :
    (process H ip dgram).isSome = true ↔ NfFits H.long dgram := by
  rw [isSome_iff_ensures, process, ensures_do, ensures_read 0, ensures_do, ensures_read 0, NfFits,
    announcedVersion]
  cases hlayout : nfLayout H.long (nfVersion (dgram.getD 0 0) (dgram.getD 1 0)) with
  | none =>
    simp only [ensures_some, and_true, reduceCtorEq, false_imp_iff, implies_true]
    omega
  | some L =>
    obtain ⟨hoffset, hwidth⟩ := nfLayout_count hlayout
    simp only [ensures_do, ensures_readField, ensures_records (nfLayout_ordered hlayout), hoffset,
      hwidth, Nat.zero_add]
    simp only [Option.some.injEq, forall_eq']
    constructor
    · rintro ⟨h0, h1, h4, hrecords⟩
      rw [announcedCount_eq h4] at hrecords
      exact ⟨by omega, h4, hrecords⟩
    · rintro ⟨h2, h4, hrecords⟩
      rw [announcedCount_eq h4]
      exact ⟨by omega, by omega, h4, hrecords⟩

end Tacppd
