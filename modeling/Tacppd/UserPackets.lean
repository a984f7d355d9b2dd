/-
# User entries in a bundle packet

`TipSystem::add_ut` puts an entry on a list, `send_ut` cuts the list into packets of seven
entries, each packet with a random number of its own, and the listener reads them with
`read_ut` (`Tiep.cc`, `CoreBundle.cc`).  The sender copies the key of the bundle into 32
characters, the receiver into 128.

`users_roundtrip_iff` says that the entries come back exactly when for every packet the two
copies of the key give the same pad: every residue modulo 16 is the place of a byte of an
address, of the check number or of the status of an entry.
-/
import Tacppd.Tiep

namespace Tacppd

open Guarded Packed

/-! ## Entries -/

/-- A text of at most 30 characters. -/
abbrev ShortText := { s : Bytes // (0 : UInt8) ∉ s ∧ s.length ≤ 30 }

/-- The arguments of `add_ut`. -/
structure UtUser where
  u : ShortText
  di : Bytes
  ui : Bytes
  p : ShortText
  t : ShortText
  s : Bool

/-- What a `struct ut_pak_entry` says, its texts as C strings. -/
structure UtRecord where
  username : Bytes
  device : ℕ
  userip : ℕ
  port : Bytes
  phone : Bytes
  status : ℕ
deriving DecidableEq

/-- The user as an entry, with the addresses as `inet_addr` gives them. -/
def UtUser.record (inetAddr : Bytes → BitVec 32) (x : UtUser) : UtRecord :=
  ⟨x.u, (inetAddr x.di).toNat, (inetAddr x.ui).toNat, x.p, x.t, if x.s then 1 else 0⟩

/-- The bytes of an entry, read as the structure. -/
def utRecord (order : ByteOrder) (ret : Bytes) : UtRecord where
  username := cstr (ret.drop (offset utPakEntry .username))
  device := order.decode ((ret.drop (offset utPakEntry .device)).take (width utPakEntry .device))
  userip := order.decode ((ret.drop (offset utPakEntry .userip)).take (width utPakEntry .userip))
  port := cstr (ret.drop (offset utPakEntry .port))
  phone := cstr (ret.drop (offset utPakEntry .phone))
  status := order.decode ((ret.drop (offset utPakEntry .status)).take (width utPakEntry .status))

namespace TipSystem

/-! ## Sending -/

/-- `TipSystem::add_ut`: the entry for the list, without a check number. -/
def addUt (inetAddr : Bytes → BitVec 32) (x : UtUser) : UtRecord :=
  ⟨snprintf 31 x.u, (inetAddr x.di).toNat, (inetAddr x.ui).toNat, snprintf 31 x.p,
    snprintf 31 x.t, if x.s then 1 else 0⟩

/-- `TIP_MAX_ENT` and `TIP_UT_PACKET`. -/
def maxEnt : ℕ := 7
def utPacket : ℕ := 2

section

variable (order : ByteOrder)

/-- `createhdr`, with `r` from the random numbers. -/
def createhdr (type entrynum pri : ℕ) (r : Fin 32000) : Bytes :=
  order.encode 4 (order.hton 2 type) ++ order.encode 4 (order.hton 2 (1 + r)) ++
    order.encode 4 (order.hton 2 entrynum) ++ order.encode 4 (order.hton 2 pri)

/-- The fields of `utmp` in the order in which `send_ut` writes them; a text is written with
its NUL, and the bytes behind it stay what they were. -/
def utWrites (varkey : ℕ) (tmp : UtRecord) : List (UtPak × Bytes) :=
  [(.checknum, order.encode 4 varkey), (.username, snprintf 31 tmp.username ++ [0]),
    (.device, order.encode 4 tmp.device), (.userip, order.encode 4 tmp.userip),
    (.port, snprintf 31 tmp.port ++ [0]), (.phone, snprintf 31 tmp.phone ++ [0]),
    (.status, order.encode 4 tmp.status)]

def packUt (utmp : Bytes) (varkey : ℕ) (tmp : UtRecord) : Bytes :=
  storeFields utPakEntry utmp (utWrites order varkey tmp)

variable (md5 : Bytes → Digest)

/-- The inner loop of `send_ut`, for `k` more entries: the body of the packet, `utmp`, and
the entries that are left. -/
def fillPacket (key : Bytes) (varkey : ℕ) :
    ℕ → Bytes → List UtRecord → Bytes × Bytes × List UtRecord
  | 0, utmp, pak => ([], utmp, pak)
  | _ + 1, utmp, [] => ([], utmp, [])
  | k + 1, utmp, tmp :: pak =>
    let utmp := packUt order utmp varkey tmp
    let rest := fillPacket key varkey k utmp pak
    (tiepCrypt md5 utmp varkey key ++ rest.1, rest.2)

/-- The outer loop: packet number `i` gets the random number `rs i`. -/
def sendLoop (key : Bytes) (pri : ℕ) (rs : ℕ → Fin 32000) :
    ℕ → ℕ → Bytes → List UtRecord → List Bytes
  | 0, _, _, _ => []
  | fuel + 1, i, utmp, pak =>
    if pak = [] then []
    else
      let hdr := createhdr order utPacket (if maxEnt < pak.length then maxEnt else pak.length) pri
        (rs i)
      let varkey := (packetVarkey order hdr).getD 0
      let (body, utmp, rest) := fillPacket order md5 key varkey maxEnt utmp pak
      (hdr ++ body) :: sendLoop key pri rs fuel (i + 1) utmp rest

/-- `TipSystem::send_ut` of a bundle: the packets.  `stack` is what `utmp` holds before the
first entry. -/
def sendUt (key : Bytes) (pri : ℕ) (rs : ℕ → Fin 32000) (stack : Bytes) (pak : List UtRecord) :
    List Bytes :=
  sendLoop order md5 (snprintf 31 key) pri rs pak.length 0 stack pak

/-! ## Receiving -/

/-- The loop of the listener over the entries, with `k` to go. -/
def receiveLoop (key buf : Bytes) : ℕ → ℕ → Option (List UtRecord)
  | 0, _ => some []
  | k + 1, i => do
    match ← readUt order md5 buf i key with
    | none => some []
    | some ret =>
      let rest ← receiveLoop key buf k (i + 1)
      some (utRecord order ret :: rest)

/-- The listener of the bundle, for user-track packets. -/
def receiveUt (key buf : Bytes) : Option (List UtRecord) := do
  let type ← packetType order buf
  let num ← packetNum order buf
  let _ ← packetPri order buf
  if type = utPacket then receiveLoop order md5 (snprintf 127 key) buf num 0 else some []

/-- The entries of all packets, in their order. -/
def receiveAll (key : Bytes) (packets : List Bytes) : Option (List UtRecord) :=
  (packets.mapM (receiveUt order md5 key)).map List.flatten

end

/-! ## One entry -/

section

variable {order : ByteOrder} {md5 : Bytes → Digest} {inetAddr : Bytes → BitVec 32} {v : ℕ}

theorem snprintf_short (s : ShortText) : snprintf 31 s.1 = s.1 :=
  snprintf_eq_self s.2.1 s.2.2

/-- What is put on the list says what the user is. -/
theorem addUt_eq (x : UtUser) : addUt inetAddr x = x.record inetAddr := by
  simp only [addUt, UtUser.record, snprintf_short]

theorem fitting_utWrites (x : UtUser) :
    Fitting utPakEntry (utWrites order v (x.record inetAddr)) := by
  constructor
  · have hu := x.u.2.2
    have hp := x.p.2.2
    have ht := x.t.2.2
    simp only [utWrites, UtUser.record, List.forall_mem_cons, snprintf_short, List.length_append,
      List.length_singleton, ByteOrder.length_encode, width, utPakEntry, reduceCtorEq, if_false,
      if_true, List.not_mem_nil, false_imp_iff, implies_true, and_true]
    omega
  · simp [utWrites]

/-- A text that stands in memory with its NUL. -/
theorem cstr_of_holds {mem s : Bytes} {i : ℕ} (h : Holds mem i (s ++ [0]))
    (h0 : (0 : UInt8) ∉ s) : cstr (mem.drop i) = s := by
  obtain ⟨tail, htail⟩ := h
  rw [← htail, List.append_assoc]
  exact cstr_append_zero h0 tail

/-- A number that stands in memory. -/
theorem decode_of_holds {mem : Bytes} {i n v : ℕ} (h : Holds mem i (order.encode n v))
    (hv : v < 256 ^ n) : order.decode ((mem.drop i).take n) = v := by
  have htake := h.take_eq
  rw [ByteOrder.length_encode] at htake
  rw [htake, ByteOrder.decode_encode, Nat.mod_eq_of_lt hv]

/-- The bytes of an entry with the check number `v` on it. -/
structure Image (order : ByteOrder) (v : ℕ) (r : UtRecord) (img : Bytes) : Prop where
  length : img.length = size utPakEntry
  record : utRecord order img = r
  checknum : utChecknum order img = v

theorem image_packUt {utmp : Bytes} (hutmp : utmp.length = size utPakEntry) (hv : v < 65536)
    (x : UtUser) :
    Image order v (x.record inetAddr) (packUt order utmp v (x.record inetAddr)) := by
  have hfit := @fitting_utWrites order inetAddr v x
  obtain ⟨img, himg⟩ : ∃ img, img = packUt order utmp v (x.record inetAddr) := ⟨_, rfl⟩
  have hholds : ∀ f ∈ utWrites order v (x.record inetAddr), Holds img (offset utPakEntry f.1) f.2 :=
    himg ▸ holds_storeFields hutmp hfit
  have haddr : ∀ a : BitVec 32, a.toNat < 256 ^ 4 := by
    intro a
    have hlt := a.isLt
    omega
  have hstatus : (if x.s then 1 else 0) < 256 ^ 4 := by
    split <;> decide
  rw [← himg]
  constructor
  · exact himg ▸ length_storeFields hutmp hfit.width
  · -- every field is read as it was written
    simp only [utWrites, List.forall_mem_cons] at hholds
    obtain ⟨-, hu, hdi, hui, hp, ht, hs, -⟩ := hholds
    simp only [UtUser.record, snprintf_short] at hu hdi hui hp ht hs
    simp only [utRecord, UtUser.record, UtRecord.mk.injEq]
    exact ⟨cstr_of_holds hu x.u.2.1, decode_of_holds hdi (haddr _),
      decode_of_holds hui (haddr _), cstr_of_holds hp x.p.2.1,
      cstr_of_holds ht x.t.2.1, decode_of_holds hs hstatus⟩
  · have hwidth : v < 256 ^ 4 := by omega
    exact decode_of_holds (hholds _ List.mem_cons_self) hwidth

/-! ## The pads of the two copies of the key -/

/-- What the receiver has of an entry. -/
def received (md5 : Bytes → Digest) (key key' : Bytes) (v : ℕ) (img : Bytes) : Bytes :=
  tiepCrypt md5 (tiepCrypt md5 img v key) v key'

variable {key key' img : Bytes} {r : UtRecord}

/-- With the same pad the entry comes back. -/
theorem received_of_same (h : tiepPad md5 key v = tiepPad md5 key' v) :
    received md5 key key' v img = img := by
  rw [received, tiepCrypt_eq, tiepCrypt_eq, h, Pad.overlay_overlay _ _ xor_xor_cancel]

theorem digest_ext {d d' : Digest} (h : ∀ i < 16, d.get i = d'.get i) : d = d' := by
  obtain ⟨bs, hbs⟩ := d
  obtain ⟨bs', hbs'⟩ := d'
  rw [Digest.mk.injEq]
  have hlen : md5Len = 16 := rfl
  apply List.ext_getElem (hbs.trans hbs'.symm)
  intro i hi hi'
  have hget := h i (by omega)
  simpa [Digest.get, List.getD_eq_getElem?_getD, hi, hi'] using hget

theorem eq_of_xor_xor {a b c : UInt8} (h : a ^^^ b ^^^ c = a) : b = c := by
  have hxor : a ^^^ b ^^^ c ^^^ c = a ^^^ c := congrArg (· ^^^ c) h
  rw [xor_xor_cancel] at hxor
  exact (UInt8.xor_right_inj a).mp hxor

/-- A byte that comes back has the same byte of both pads over it. -/
theorem pad_eq_of_received {i : ℕ} (hi : i < img.length)
    (h : (received md5 key key' v img)[i]? = img[i]?) :
    (tiepPad md5 key v).get (i % 16) = (tiepPad md5 key' v).get (i % 16) := by
  rw [received, tiepCrypt_eq, tiepCrypt_eq, Pad.getElem?_overlay, Pad.getElem?_overlay,
    List.getElem?_eq_getElem hi] at h
  exact eq_of_xor_xor (Option.some.inj h)

/-- The bytes of a number that comes back. -/
theorem getElem?_of_decode {ret : Bytes} {i : ℕ} (hlen : ret.length = img.length)
    (h : order.decode ((ret.drop i).take 4) = order.decode ((img.drop i).take 4)) {j : ℕ}
    (hj : j < 4) : ret[i + j]? = img[i + j]? := by
  have hbytes : (ret.drop i).take 4 = (img.drop i).take 4 := by
    apply order.decode_inj _ h
    simp only [List.length_take, List.length_drop, hlen]
  have hget := congrArg (fun l => l[j]?) hbytes
  simpa only [List.getElem?_take_of_lt hj, List.getElem?_drop] using hget

/-- **An entry comes back** only with the same pad: its numbers lie under all sixteen bytes. -/
theorem same_of_received (hlen : img.length = size utPakEntry)
    (hrecord : utRecord order (received md5 key key' v img) = utRecord order img)
    (hchecknum : utChecknum order (received md5 key key' v img) = utChecknum order img) :
    tiepPad md5 key v = tiepPad md5 key' v := by
  have hsize : size utPakEntry = 112 := rfl
  have hret : (received md5 key key' v img).length = img.length := by simp [received]
  have hword : ∀ i, i + 4 ≤ 112 →
      order.decode (((received md5 key key' v img).drop i).take 4) =
        order.decode ((img.drop i).take 4) →
      ∀ j < 4, (tiepPad md5 key v).get ((i + j) % 16) =
        (tiepPad md5 key' v).get ((i + j) % 16) := by
    intro i hi hdecode j hj
    exact pad_eq_of_received (by omega) (getElem?_of_decode hret hdecode hj)
  have hdevice := hword 32 (by omega) (congrArg UtRecord.device hrecord)
  have huserip := hword 36 (by omega) (congrArg UtRecord.userip hrecord)
  have hcheck := hword 40 (by omega) hchecknum
  have hstatus := hword 108 (by omega) (congrArg UtRecord.status hrecord)
  apply digest_ext
  intro k hk
  -- the byte of the pad that lies over byte `j` of the number at `i`
  have hplace : ∀ i j, (i + j) % 16 = k →
      (tiepPad md5 key v).get ((i + j) % 16) = (tiepPad md5 key' v).get ((i + j) % 16) →
      (tiepPad md5 key v).get k = (tiepPad md5 key' v).get k := by
    rintro i j rfl h
    exact h
  have hcases : k < 4 ∨ 4 ≤ k ∧ k < 8 ∨ 8 ≤ k ∧ k < 12 ∨ 12 ≤ k := by omega
  rcases hcases with h | h | h | h
  · exact hplace 32 k (by omega) (hdevice k h)
  · exact hplace 36 (k - 4) (by omega) (huserip (k - 4) (by omega))
  · exact hplace 40 (k - 8) (by omega) (hcheck (k - 8) (by omega))
  · exact hplace 108 (k - 12) (by omega) (hstatus (k - 12) (by omega))

/-! ## One packet -/

theorem width_tiepPakHdr (f : TiepHdr) : width tiepPakHdr f = 4 := by
  cases f <;> rfl

@[simp] theorem length_createhdr {type entrynum pri : ℕ} {r : Fin 32000} :
    (createhdr order type entrynum pri r).length = 16 := by
  simp [createhdr]

theorem hdrField_of_holds {buf : Bytes} {f : TiepHdr} {n : ℕ}
    (h : Holds buf (offset tiepPakHdr f) (order.encode 4 (order.hton 2 n)))
    (hbuf : 16 ≤ buf.length) (hn : n < 65536) : hdrField order buf f = some n := by
  have hsize := offset_add_width_le tiepPakHdr f
  rw [width_tiepPakHdr] at hsize
  have hlt := order.hton_lt 2 n
  have hload : load buf (0 + offset tiepPakHdr f) (width tiepPakHdr f) =
      some (order.encode 4 (order.hton 2 n)) := by
    rw [Nat.zero_add, width_tiepPakHdr]
    exact load_of_holds h (ByteOrder.length_encode ..) (Nat.le_trans hsize hbuf)
  rw [hdrField, readField, hload, Option.map_some, Option.map_some, ByteOrder.decode_encode,
    Nat.mod_eq_of_lt (by omega), ByteOrder.ntoh_hton, Nat.mod_eq_of_lt (by omega)]

/-- What a packet says in its header. -/
structure Announces (order : ByteOrder) (buf : Bytes) (type v num : ℕ) : Prop where
  type : packetType order buf = some type
  varkey : packetVarkey order buf = some v
  num : packetNum order buf = some num
  pri : (packetPri order buf).isSome

theorem announces_createhdr {type entrynum pri : ℕ} {r : Fin 32000} (body : Bytes)
    (htype : type < 65536) (hnum : entrynum < 65536) :
    Announces order (createhdr order type entrynum pri r ++ body) type (1 + r) entrynum := by
  have hlen : 16 ≤ (createhdr order type entrynum pri r ++ body).length := by simp
  have hholds : Holds (createhdr order type entrynum pri r ++ body) 0
      (createhdr order type entrynum pri r ++ body) := holds_self _
  have hheader := (holds_append_iff.mp hholds).1
  rw [createhdr] at hheader
  simp only [holds_append_iff, List.length_append, ByteOrder.length_encode] at hheader
  obtain ⟨⟨⟨h0, h4⟩, h8⟩, -⟩ := hheader
  have hr := r.isLt
  constructor
  · exact hdrField_of_holds h0 hlen htype
  · exact hdrField_of_holds h4 hlen (by omega)
  · exact hdrField_of_holds h8 hlen hnum
  · rw [isSome_iff_ensures, packetPri, hdrField, ensures_map, ensures_readField]
    exact ⟨hlen, trivial⟩

/-- `fillPacket` takes the first `k` entries. -/
theorem fillPacket_spec {utmp : Bytes} (hutmp : utmp.length = size utPakEntry) (hv : v < 65536)
    (k : ℕ) (users : List UtUser) :
    ∃ imgs utmp', utmp'.length = size utPakEntry ∧
      List.Forall₂ (fun img x => Image order v (UtUser.record inetAddr x) img) imgs (users.take k) ∧
      fillPacket order md5 key v k utmp (users.map (UtUser.record inetAddr)) =
        ((imgs.map fun img => tiepCrypt md5 img v key).flatten, utmp',
          (users.drop k).map (UtUser.record inetAddr)) := by
  induction k generalizing utmp users with
  | zero => exact ⟨[], utmp, hutmp, by simp, by simp [fillPacket]⟩
  | succ k ih =>
    cases users with
    | nil => exact ⟨[], utmp, hutmp, by simp, by simp [fillPacket]⟩
    | cons x users =>
      have himage := @image_packUt order inetAddr v utmp hutmp hv x
      obtain ⟨imgs, utmp', hlen, himgs, hfill⟩ := ih himage.length users
      refine ⟨packUt order utmp v (x.record inetAddr) :: imgs, utmp', hlen, ?_, ?_⟩
      · rw [List.take_succ_cons]
        exact List.Forall₂.cons himage himgs
      · rw [List.map_cons, fillPacket, hfill]
        rfl

/-- What the receiver takes of the entries of a packet: it stops at a wrong check number. -/
def taken (order : ByteOrder) (md5 : Bytes → Digest) (key key' : Bytes) (v : ℕ)
    (imgs : List Bytes) : List UtRecord :=
  ((imgs.map (received md5 key key' v)).takeWhile fun ret => utChecknum order ret = v).map
    (utRecord order)

/-- A packet as it is sent. -/
structure Sent (order : ByteOrder) (md5 : Bytes → Digest) (key : Bytes) (v : ℕ)
    (imgs : List Bytes) (buf : Bytes) : Prop where
  announces : Announces order buf utPacket v imgs.length
  entry : ∀ (i : ℕ) (hi : i < imgs.length),
    load buf (16 + 112 * i) 112 = some (tiepCrypt md5 imgs[i] v key)

variable {buf : Bytes} {imgs : List Bytes}

theorem readUt_sent (h : Sent order md5 key v imgs buf) {i : ℕ} (hi : i < imgs.length) :
    readUt order md5 buf i key' =
      some (if utChecknum order (received md5 key key' v imgs[i]) ≠ v then none
        else some (received md5 key key' v imgs[i])) := by
  have hsize : size utPakEntry = 112 := rfl
  simp only [readUt, h.announces.num, h.announces.varkey, Option.bind_eq_bind, Option.bind_some]
  rw [if_neg (by omega), if_pos (by omega), hsize, entryAt_of_le hi.le, h.entry i hi]
  rfl

theorem receiveLoop_sent (h : Sent order md5 key v imgs buf) {k i : ℕ}
    (hk : i + k = imgs.length) :
    receiveLoop order md5 key' buf k i = some (taken order md5 key key' v (imgs.drop i)) := by
  induction k generalizing i with
  | zero =>
    rw [List.drop_of_length_le (by omega)]
    rfl
  | succ k ih =>
    have hi : i < imgs.length := by omega
    rw [receiveLoop, readUt_sent h hi, List.drop_eq_getElem_cons hi, taken, List.map_cons,
      List.takeWhile_cons]
    by_cases hcheck : utChecknum order (received md5 key key' v imgs[i]) = v
    · simp only [hcheck, ne_eq, not_true_eq_false, if_false, Option.bind_eq_bind,
        Option.bind_some, ih (show i + 1 + k = imgs.length by omega), decide_true, if_true,
        List.map_cons]
      rfl
    · simp [hcheck]

theorem receiveUt_sent (h : Sent order md5 key v imgs buf) {bundleKey : Bytes} :
    receiveUt order md5 bundleKey buf =
      some (taken order md5 key (snprintf 127 bundleKey) v imgs) := by
  obtain ⟨pri, hpri⟩ := Option.isSome_iff_exists.mp h.announces.pri
  simp only [receiveUt, h.announces.type, h.announces.num, hpri, Option.bind_eq_bind,
    Option.bind_some, if_true]
  exact receiveLoop_sent h (Nat.zero_add _)

theorem length_taken_le (imgs : List Bytes) :
    (taken order md5 key key' v imgs).length ≤ imgs.length := by
  rw [taken, List.length_map]
  apply Nat.le_trans (List.takeWhile_prefix _).length_le
  rw [List.length_map]

/-- **One packet comes back** exactly with the same pad on both sides. -/
theorem taken_eq_iff {users : List UtUser} (husers : users ≠ [])
    (h : List.Forall₂ (fun img x => Image order v (UtUser.record inetAddr x) img) imgs users) :
    taken order md5 key key' v imgs = users.map (UtUser.record inetAddr) ↔
      tiepPad md5 key v = tiepPad md5 key' v := by
  constructor
  · -- the first entry is enough
    intro htaken
    cases h with
    | nil => exact absurd rfl husers
    | @cons img user imgs users himage himgs =>
      rw [taken, List.map_cons, List.takeWhile_cons] at htaken
      split at htaken
      · next hcheck =>
        rw [List.map_cons, List.map_cons, List.cons.injEq] at htaken
        have hrecord : utRecord order (received md5 key key' v img) = utRecord order img := by
          rw [htaken.1, himage.record]
        have hchecknum : utChecknum order (received md5 key key' v img) = utChecknum order img := by
          rw [of_decide_eq_true hcheck, himage.checknum]
        exact same_of_received himage.length hrecord hchecknum
      · simp at htaken
  · intro hpad
    have hback : imgs.map (received md5 key key' v) = imgs := by
      apply List.map_id''
      intro img
      exact received_of_same hpad
    rw [taken, hback]
    clear husers hback
    induction h with
    | nil => rfl
    | cons himage himgs ih =>
      rw [List.takeWhile_cons, if_pos (by simpa using himage.checknum), List.map_cons,
        List.map_cons, ih, himage.record]

/-- What is laid over entries does not change their length. -/
theorem length_of_encrypted {imgs : List Bytes}
    (himgs : ∀ img ∈ imgs, img.length = size utPakEntry) :
    ∀ c ∈ imgs.map fun img => tiepCrypt md5 img v key, c.length = size utPakEntry := by
  intro c hc
  obtain ⟨img, himg, rfl⟩ := List.mem_map.mp hc
  rw [length_tiepCrypt]
  exact himgs img himg

/-- A header with the number of the entries, and the entries behind it. -/
theorem sent_packet {r : Fin 32000} (pri : ℕ) (himgs : ∀ img ∈ imgs, img.length = size utPakEntry)
    (hnum : imgs.length ≤ maxEnt) :
    Sent order md5 key (1 + r) imgs (createhdr order utPacket imgs.length pri r ++
      (imgs.map fun img => tiepCrypt md5 img (1 + r) key).flatten) := by
  have hmax : maxEnt = 7 := rfl
  constructor
  · exact announces_createhdr _ (by decide) (by omega)
  · intro i hi
    have hload := @load_flatten _ i _ (createhdr order utPacket imgs.length pri r) _
      (@length_of_encrypted md5 (1 + r) key imgs himgs) (by simpa using hi)
    rw [length_createhdr, List.getElem_map] at hload
    exact hload

/-! ## All packets -/

theorem receiveAll_cons {bundleKey p : Bytes} {ps : List Bytes} {l : List UtRecord}
    (hp : receiveUt order md5 bundleKey p = some l) :
    receiveAll order md5 bundleKey (p :: ps) =
      (receiveAll order md5 bundleKey ps).map fun rest => l ++ rest := by
  rw [receiveAll, receiveAll, List.mapM_cons, hp]
  cases ps.mapM (receiveUt order md5 bundleKey) <;> rfl

/-- Two lists in two parts, the parts of the first one not longer. -/
theorem append_eq_append_iff_of_le {α : Type*} {a b c d : List α} (ha : a.length ≤ c.length)
    (hb : b.length ≤ d.length) : a ++ b = c ++ d ↔ a = c ∧ b = d := by
  constructor
  · intro h
    have hlen := congrArg List.length h
    rw [List.length_append, List.length_append] at hlen
    exact List.append_inj h (by omega)
  · rintro ⟨rfl, rfl⟩
    rfl

/-- The number of packets. -/
def packets (n : ℕ) : ℕ := (n + 6) / 7

/-- The two copies of the key give the same pads, for the packets from number `i` on. -/
def SamePads (md5 : Bytes → Digest) (key key' : Bytes) (rs : ℕ → Fin 32000) (i n : ℕ) : Prop :=
  ∀ j < packets n, tiepPad md5 key (1 + rs (i + j)) = tiepPad md5 key' (1 + rs (i + j))

theorem samePads_step {rs : ℕ → Fin 32000} {i n : ℕ} (hn : 0 < n) :
    SamePads md5 key key' rs i n ↔
      tiepPad md5 key (1 + rs i) = tiepPad md5 key' (1 + rs i) ∧
        SamePads md5 key key' rs (i + 1) (n - 7) := by
  have hpackets : packets n = packets (n - 7) + 1 := by
    simp only [packets]
    omega
  constructor
  · intro h
    refine ⟨h 0 (by omega), fun j hj => ?_⟩
    have hj' := h (j + 1) (by omega)
    rwa [show i + (j + 1) = i + 1 + j by omega] at hj'
  · rintro ⟨hfirst, hrest⟩ j hj
    cases j with
    | zero => exact hfirst
    | succ j =>
      rw [show i + (j + 1) = i + 1 + j by omega]
      exact hrest j (by omega)

theorem length_of_images {users : List UtUser}
    (h : List.Forall₂ (fun img x => Image order v (UtUser.record inetAddr x) img) imgs users) :
    ∀ img ∈ imgs, img.length = size utPakEntry := by
  induction h with
  | nil => simp
  | cons himage _ ih => exact List.forall_mem_cons.mpr ⟨himage.length, ih⟩

/-- The loop sends a packet with the first entries, and goes on with the others. -/
theorem sendLoop_succ {utmp : Bytes} {pri fuel i : ℕ} {rs : ℕ → Fin 32000} {users : List UtUser}
    (hutmp : utmp.length = size utPakEntry) (hne : users ≠ []) :
    ∃ imgs utmp' p, utmp'.length = size utPakEntry ∧
      List.Forall₂ (fun img x => Image order (1 + (rs i).val) (UtUser.record inetAddr x) img) imgs
        (users.take maxEnt) ∧
      Sent order md5 key (1 + (rs i).val) imgs p ∧
      p.length ≤ size tiepPakHdr + size utPakEntry * maxEnt ∧
      sendLoop order md5 key pri rs (fuel + 1) i utmp (users.map (UtUser.record inetAddr)) =
        p :: sendLoop order md5 key pri rs fuel (i + 1) utmp'
          ((users.drop maxEnt).map (UtUser.record inetAddr)) := by
  have hmax : maxEnt = 7 := rfl
  have hv : 1 + (rs i).val < 65536 := by
    have hr := (rs i).isLt
    omega
  obtain ⟨imgs, utmp', hutmp', himgs, hfill⟩ :=
    @fillPacket_spec order md5 inetAddr _ key utmp hutmp hv maxEnt users
  have hnum : imgs.length = (users.take maxEnt).length := himgs.length_eq
  have hle : imgs.length ≤ maxEnt := hnum ▸ List.length_take_le maxEnt users
  have hentrynum : (if maxEnt < users.length then maxEnt else users.length) = imgs.length := by
    rw [hnum, List.length_take]
    split <;> omega
  have hvarkey : packetVarkey order (createhdr order utPacket imgs.length pri (rs i)) =
      some (1 + (rs i).val) := by
    have hheader := @announces_createhdr order utPacket imgs.length pri (rs i) [] (by decide)
      (by omega)
    rw [List.append_nil] at hheader
    exact hheader.varkey
  refine ⟨imgs, utmp', _, hutmp', himgs, sent_packet pri (length_of_images himgs) hle, ?_,
    ?_⟩
  · rw [List.length_append, length_createhdr,
      length_flatten_eq (length_of_encrypted (length_of_images himgs)), List.length_map]
    exact Nat.add_le_add_left (Nat.mul_le_mul_left _ hle) _
  · rw [sendLoop, if_neg (by simpa using hne), List.length_map, hentrynum]
    simp only [hvarkey, Option.getD_some, hfill]

theorem receiveAll_sendLoop {bundleKey utmp : Bytes} {pri fuel i : ℕ} {rs : ℕ → Fin 32000}
    {users : List UtUser} (hutmp : utmp.length = size utPakEntry) (hfuel : users.length ≤ fuel) :
    ∃ l, receiveAll order md5 bundleKey (sendLoop order md5 key pri rs fuel i utmp
        (users.map (UtUser.record inetAddr))) = some l ∧ l.length ≤ users.length ∧
      (l = users.map (UtUser.record inetAddr) ↔
        SamePads md5 key (snprintf 127 bundleKey) rs i users.length) := by
  induction fuel generalizing i utmp users with
  | zero =>
    obtain rfl := List.length_eq_zero_iff.mp (Nat.le_zero.mp hfuel)
    exact ⟨[], rfl, le_rfl, by simp [SamePads, packets]⟩
  | succ fuel ih =>
    by_cases hne : users = []
    · subst hne
      exact ⟨[], rfl, le_rfl, by simp [SamePads, packets]⟩
    · have hmax : maxEnt = 7 := rfl
      have hpos := List.length_pos_of_ne_nil hne
      have hdrop : (users.drop maxEnt).length = users.length - 7 := List.length_drop
      obtain ⟨imgs, utmp', p, hutmp', himgs, hsent, -, hloop⟩ :=
        @sendLoop_succ order md5 inetAddr key utmp pri fuel i rs users hutmp hne
      obtain ⟨rest, hrest, hle, hiff⟩ :=
        @ih utmp' (i + 1) (users.drop maxEnt) hutmp' (by omega)
      have htaken := @length_taken_le order md5 (1 + (rs i).val) key (snprintf 127 bundleKey) imgs
      have hnum : imgs.length = (users.take maxEnt).length := himgs.length_eq
      have hsplit : users.map (UtUser.record inetAddr) =
          (users.take maxEnt).map (UtUser.record inetAddr) ++
            (users.drop maxEnt).map (UtUser.record inetAddr) := by
        rw [← List.map_append, List.take_append_drop]
      have hfirst : users.take maxEnt ≠ [] := by
        rw [ne_eq, List.take_eq_nil_iff]
        simp [hmax, hne]
      -- neither part is longer than what was sent, so that both come back or the whole does not
      refine ⟨taken order md5 key (snprintf 127 bundleKey) (1 + (rs i).val) imgs ++ rest,
        ?_, ?_, ?_⟩
      · rw [hloop, receiveAll_cons (receiveUt_sent hsent), hrest, Option.map_some]
      · rw [List.length_append]
        rw [List.length_take] at hnum
        omega
      · rw [hsplit, append_eq_append_iff_of_le (by rwa [List.length_map, ← hnum])
          (by rwa [List.length_map]), taken_eq_iff hfirst himgs, hiff, hdrop, samePads_step hpos]

/-- A packet fits the buffer of the listener. -/
theorem length_sendLoop_le {utmp : Bytes} {pri fuel i : ℕ} {rs : ℕ → Fin 32000}
    {users : List UtUser} (hutmp : utmp.length = size utPakEntry) :
    ∀ p ∈ sendLoop order md5 key pri rs fuel i utmp (users.map (UtUser.record inetAddr)),
      p.length ≤ size tiepPakHdr + size utPakEntry * maxEnt := by
  induction fuel generalizing i utmp users with
  | zero => simp [sendLoop]
  | succ fuel ih =>
    by_cases hne : users = []
    · subst hne
      simp [sendLoop]
    · obtain ⟨imgs, utmp', p, hutmp', -, -, hle, hloop⟩ :=
        @sendLoop_succ order md5 inetAddr key utmp pri fuel i rs users hutmp hne
      rw [hloop, List.forall_mem_cons]
      exact ⟨hle, ih hutmp'⟩

end

/-- What `send_ut` sends of the users comes back as it was, in packets of at most 800
bytes. -/
structure RoundTrip (order : ByteOrder) (md5 : Bytes → Digest) (inetAddr : Bytes → BitVec 32)
    (key : Bytes) (pri : ℕ) (rs : ℕ → Fin 32000) (stack : Bytes) (users : List UtUser) :
    Prop where
  bounded : ∀ p ∈ sendUt order md5 key pri rs stack (users.map (addUt inetAddr)), p.length ≤ 800
  same : receiveAll order md5 key (sendUt order md5 key pri rs stack (users.map (addUt inetAddr))) =
    some (users.map (UtUser.record inetAddr))

/-- **Users in bundle packets**: they come back exactly when the sender's 30 characters of the
key and the receiver's 126 characters give the same pad with the number of every packet. -/
theorem users_roundtrip_iff (order : ByteOrder) (md5 : Bytes → Digest)
    (inetAddr : Bytes → BitVec 32) (key : Bytes) (pri : ℕ) (rs : ℕ → Fin 32000)
    (stack : { s : Bytes // s.length = size utPakEntry }) (users : List UtUser) :
    RoundTrip order md5 inetAddr key pri rs stack users ↔
      SamePads md5 (snprintf 31 key) (snprintf 127 key) rs 0 users.length := by
  have hadd : users.map (addUt inetAddr) = users.map (UtUser.record inetAddr) :=
    List.map_congr_left fun x _ => addUt_eq x
  obtain ⟨l, hl, -, hiff⟩ := @receiveAll_sendLoop order md5 inetAddr (snprintf 31 key) key stack.1
    pri users.length 0 rs users stack.2 le_rfl
  rw [← hiff]
  constructor
  · intro h
    have hsame := h.same
    rw [hadd, sendUt, List.length_map, hl] at hsame
    exact Option.some.inj hsame
  · intro h
    constructor
    · rw [hadd, sendUt]
      exact length_sendLoop_le stack.2
    · rw [hadd, sendUt, List.length_map, hl, h]

/-- A key of at most 30 characters is the same on both sides. -/
theorem samePads_of_short {md5 : Bytes → Digest} {key : Bytes} (hkey : (cstr key).length ≤ 30)
    (rs : ℕ → Fin 32000) (n : ℕ) :
    SamePads md5 (snprintf 31 key) (snprintf 127 key) rs 0 n := by
  have hcopy : snprintf 31 key = snprintf 127 key := by
    rw [snprintf, snprintf, List.take_of_length_le hkey, List.take_of_length_le (by omega)]
  rw [hcopy]
  exact fun j _ => rfl

/-- A key of 31 characters, and MD5 of its two copies with the number 1. -/
def longKey : Bytes := List.replicate 31 97

def longKeyMd5 (s : Bytes) : Digest :=
  if s = List.replicate 30 97 ++ str "1" then
    ⟨[253, 210, 105, 121, 237, 119, 205, 242, 174, 138, 119, 97, 221, 115, 255, 90], rfl⟩
  else ⟨[213, 212, 75, 60, 11, 65, 146, 71, 192, 245, 211, 200, 184, 249, 68, 32], rfl⟩

/-- One user, with the long key. -/
theorem users_lost :
    ¬ ∀ (key : Bytes) (users : List UtUser),
      RoundTrip .little longKeyMd5 (fun _ => 16777226) key 1 (fun _ => 0) (List.replicate 112 0)
        users := by
  intro h
  have hsame := (h longKey [⟨⟨str "oneil", by decide⟩, str "10.0.0.1", str "10.0.0.1",
    ⟨str "tty1", by decide⟩, ⟨str "555", by decide⟩, true⟩]).same
  revert hsame
  decide +kernel

end TipSystem

end Tacppd
