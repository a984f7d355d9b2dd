/-
# What the checked decoders come to

Rules for the steps of the checked decoders: when a copy, a loop over the length bytes
or a loop over the AVPs stays inside, and what it leaves.  From them follows what the
two `get_request` come to as a whole (`ensures_authorGetRequest`,
`ensures_acctGetRequest`).
-/
import Tacppd.Decoders

namespace Tacppd

open Guarded

/-! ## Copies -/

theorem checkedCopy_eq_some_iff {body buf : Bytes} {off n cap : ℕ} :
    checkedCopy body off n cap = some buf ↔
      (Readable 0 body off n ∧ n ≤ cap) ∧
        buf = copied 0 body off n ++ List.replicate (cap - n) 0 := by
  rw [checkedCopy, copyUntil_zero_eq_some_iff, List.length_replicate, List.drop_replicate]

theorem checkedString_eq_some_iff {body buf : Bytes} {off n cap : ℕ} :
    checkedString body off n cap = some buf ↔
      (Readable 0 body off n ∧ n < cap) ∧
        buf = copied 0 body off n ++ List.replicate (cap - n) 0 := by
  rw [checkedString, Option.bind_eq_some_iff]
  simp only [checkedCopy_eq_some_iff, put_eq_some_iff]
  constructor
  · rintro ⟨buf', ⟨⟨hread, hle⟩, rfl⟩, hput, rfl⟩
    have hlt : n < cap := by
      rw [List.length_append, length_copied, List.length_replicate] at hput
      omega
    refine ⟨⟨hread, hlt⟩, ?_⟩
    rw [List.set_append_right _ _ (by rw [length_copied]), List.set_replicate_self]
  · rintro ⟨⟨hread, hlt⟩, rfl⟩
    refine ⟨_, ⟨⟨hread, hlt.le⟩, rfl⟩, ?_, ?_⟩
    · rw [List.length_append, length_copied, List.length_replicate]
      omega
    · rw [List.set_append_right _ _ (by rw [length_copied]), List.set_replicate_self]

theorem ensures_checkedCopy {body : Bytes} {off n cap : ℕ} {post : Bytes → Prop} :
    Ensures (checkedCopy body off n cap) post ↔
      (Readable 0 body off n ∧ n ≤ cap) ∧
        post (copied 0 body off n ++ List.replicate (cap - n) 0) :=
  ensures_of_iff fun _ => checkedCopy_eq_some_iff

theorem ensures_checkedString {body : Bytes} {off n cap : ℕ} {post : Bytes → Prop} :
    Ensures (checkedString body off n cap) post ↔
      (Readable 0 body off n ∧ n < cap) ∧
        post (copied 0 body off n ++ List.replicate (cap - n) 0) :=
  ensures_of_iff fun _ => checkedString_eq_some_iff

theorem ensures_checkedField {β : Type} {body : Bytes} {off len cap : ℕ} {refused : β}
    {next : Bytes → Option β} {post : β → Prop} :
    Ensures (checkedField body off len cap refused next) post ↔
      if cap < len then post refused
      else (Readable 0 body off len ∧ len < cap) ∧
        Ensures (next (copied 0 body off len ++ List.replicate (cap - len) 0)) post := by
  rw [checkedField, ensures_ite, ensures_some, ensures_bind, ensures_checkedString]

/-- A read of a byte of a body. -/
theorem ensures_byte {body : Bytes} {i : ℕ} {post : UInt8 → Prop} :
    Ensures body[i]? post ↔ i < body.length ∧ post (body.getD i 0) := ensures_read 0

/-! ## The lengths in a body -/

/-- A byte of a body as a number. -/
def byteAt (body : Bytes) (i : ℕ) : ℕ := (body.getD i 0).toNat

theorem toNat_getD (body : Bytes) (i : ℕ) : (body.getD i 0).toNat = byteAt body i := rfl

/-! ## The length table -/

/-- The length bytes as the code reads them. -/
def lensAt (body : Bytes) (off n : ℕ) : List ℤ := ((body.drop off).take n).map signedByte

theorem lensAt_succ {body : Bytes} {off : ℕ} (n : ℕ) {b : UInt8} (h : body[off]? = some b) :
    lensAt body off (n + 1) = signedByte b :: lensAt body (off + 1) n := by
  obtain ⟨hoff, rfl⟩ := List.getElem?_eq_some_iff.mp h
  rw [lensAt, List.drop_eq_getElem_cons hoff, List.take_succ_cons, List.map_cons, lensAt]

theorem length_lensAt {body : Bytes} {off n : ℕ} (h : off + n ≤ body.length) :
    (lensAt body off n).length = n := by
  rw [lensAt, List.length_map, List.length_take, List.length_drop]
  omega

/-- A `char` is a number of seven bits and a sign. -/
theorem signedByte_bounds (b : UInt8) : -128 ≤ signedByte b ∧ signedByte b ≤ 127 := by
  have hlt := b.toInt8.toInt_lt
  have hge := b.toInt8.le_toInt
  rw [signedByte]
  omega

theorem ensures_checkedArglens {body : Bytes} {off n : ℕ} (arglens : ℤ) {post : ℤ → Prop}
    (hoff : off ≤ body.length) :
    Ensures (checkedArglens body off arglens n) post ↔
      off + n ≤ body.length ∧ post ((lensAt body off n).foldl (· + ·) arglens) := by
  induction n generalizing off arglens with
  | zero => simp [checkedArglens, lensAt, hoff]
  | succ n ih =>
    rw [checkedArglens]
    cases hb : body[off]? with
    | none =>
      have hout := List.getElem?_eq_none_iff.mp hb
      refine iff_of_false (ensures_none _).mp fun h => ?_
      omega
    | some b =>
      obtain ⟨hin, -⟩ := List.getElem?_eq_some_iff.mp hb
      have hsucc : off + (n + 1) = off + 1 + n := by omega
      rw [lensAt_succ n hb, List.foldl_cons, hsucc]
      exact ih _ hin

theorem ensures_checkedTable {body : Bytes} {off n : ℕ} {pre rest : List ℤ}
    {post : List ℤ → Prop} (hoff : off ≤ body.length) (hn : n ≤ rest.length) :
    Ensures (checkedTable body (pre ++ rest) off pre.length n) post ↔
      off + n ≤ body.length ∧ post (pre ++ lensAt body off n ++ rest.drop n) := by
  induction n generalizing off pre rest with
  | zero => simp [checkedTable, lensAt, hoff]
  | succ n ih =>
    rw [checkedTable]
    cases hb : body[off]? with
    | none =>
      have hout := List.getElem?_eq_none_iff.mp hb
      refine iff_of_false (ensures_none _).mp fun h => ?_
      omega
    | some b =>
      obtain ⟨hin, -⟩ := List.getElem?_eq_some_iff.mp hb
      cases rest with
      | nil => exact absurd hn (by simp)
      | cons c rest =>
        have hsucc : off + (n + 1) = off + 1 + n := by omega
        have hpre : pre.length + 1 = (pre ++ [signedByte b]).length := by simp
        simp only
        rw [put_append_cons, Option.bind_some, hpre, ih hin (Nat.le_of_succ_le_succ hn),
          lensAt_succ n hb, hsucc]
        simp

/-! ## The loops over the AVPs -/

/-- The AVPs of these lengths, from a position on: no length is negative, and each text
is inside. -/
def AvpsInside (body : Bytes) : ℕ → List ℤ → Prop
  | _, [] => True
  | off, len :: lens =>
    0 ≤ len ∧ Readable 0 body off len.toNat ∧ AvpsInside body (off + len.toNat) lens

/-- The texts of the AVPs. -/
def avpTexts (body : Bytes) : ℕ → List ℤ → List Bytes
  | _, [] => []
  | off, len :: lens => text 0 body off len.toNat :: avpTexts body (off + len.toNat) lens

/-- As a count for `strncpy` a length of a `char` is itself, or more than any buffer
holds. -/
theorem sizeT_of_nonneg {l : ℤ} (h0 : 0 ≤ l) (h : l ≤ 127) : sizeT l = l.toNat := by
  rw [sizeT]
  omega

theorem sizeT_of_neg {l : ℤ} (h0 : l < 0) (h : -128 ≤ l) : 255 < sizeT l := by
  rw [sizeT]
  omega

/-- The text in a buffer that it was copied to. -/
theorem cstr_copied (body : Bytes) (off n k : ℕ) :
    cstr (copied 0 body off n ++ List.replicate k 0) = text 0 body off n := by
  apply takeWhile_copied_append
  cases k <;> simp [List.replicate_succ]

theorem ensures_checkedAvpList {body : Bytes} {off : ℕ} {pre lens tail : List ℤ}
    {avpair : List Bytes} {post : List Bytes → Prop}
    (hlens : ∀ l ∈ lens, -128 ≤ l ∧ l ≤ 127) :
    Ensures (checkedAvpList body (pre ++ lens ++ tail) avpair off pre.length lens.length) post ↔
      AvpsInside body off lens ∧ post (avpair ++ avpTexts body off lens) := by
  induction lens generalizing off pre avpair with
  | nil => simp [checkedAvpList, AvpsInside, avpTexts]
  | cons len lens ih =>
    obtain ⟨hge, hle⟩ := hlens len List.mem_cons_self
    have hget : (pre ++ len :: lens ++ tail)[pre.length]? = some len := by simp
    have hpre : pre.length + 1 = (pre ++ [len]).length := by simp
    have happ : pre ++ len :: lens ++ tail = pre ++ [len] ++ lens ++ tail := by simp
    simp only [checkedAvpList, Option.bind_eq_bind, hget, Option.bind_some, List.length_cons,
      ensures_bind, ensures_checkedCopy, AvpsInside, avpTexts]
    by_cases hneg : len < 0
    · have hbig := sizeT_of_neg hneg hge
      refine iff_of_false ?_ ?_ <;> intro h <;> omega
    · have hnonneg : 0 ≤ len := by omega
      rw [sizeT_of_nonneg hnonneg hle, hpre, happ,
        ih fun l hl => hlens l (List.mem_cons_of_mem _ hl), cstr_copied, List.append_assoc,
        List.singleton_append]
      constructor
      · rintro ⟨⟨hread, -⟩, hrest, hpost⟩
        exact ⟨⟨hnonneg, hread, hrest⟩, hpost⟩
      · rintro ⟨⟨-, hread, hrest⟩, hpost⟩
        exact ⟨⟨hread, by omega⟩, hrest, hpost⟩

/-- One AVP in the array, with the null pointer after it. -/
theorem put_avp {avps : List Bytes} {rest : List (Option Bytes)} {s : Bytes}
    {post : List (Option Bytes) → Prop} :
    (Ensures (put (avps.map some ++ none :: rest) avps.length (some s)) fun avpair =>
        Ensures (put avpair (avps.length + 1) none) post) ↔
      1 ≤ rest.length ∧ post ((avps ++ [s]).map some ++ none :: rest.drop 1) := by
  have hmap : avps.length = (avps.map some).length := by simp
  have hmap' : avps.length + 1 = (avps.map some ++ [some s]).length := by simp
  rw [hmap, put_append_cons, ensures_some, ← hmap, hmap']
  cases rest with
  | nil =>
    rw [List.append_nil, put_length]
    exact iff_of_false (ensures_none _).mp (by simp)
  | cons c rest =>
    rw [put_append_cons, ensures_some]
    simp

/-- One text in the buffer `ss`, with its terminator. -/
theorem ensures_ss {body ss : Bytes} {off n : ℕ} {post : Bytes → Prop} (hss : ss.length = 255)
    (hn : n ≤ 127) :
    (Ensures (copyUntil 0 body ss off 0 n) fun ss => Ensures (put ss n 0) post) ↔
      Readable 0 body off n ∧ post (copied 0 body off n ++ 0 :: ss.drop (n + 1)) := by
  have hdrop : ss.drop n = ss[n] :: ss.drop (n + 1) := List.drop_eq_getElem_cons (by omega)
  have hput := put_append_cons (copied 0 body off n) (ss.drop (n + 1)) ss[n] 0
  rw [length_copied] at hput
  rw [ensures_of_iff fun _ => copyUntil_zero_eq_some_iff 0 body, hdrop, hput, ensures_some,
    and_iff_left (show n ≤ ss.length by omega), List.append_assoc, List.singleton_append]

theorem ensures_checkedAvps {body : Bytes} {off : ℕ} {pre lens tail : List ℤ} {ss : Bytes}
    {avps : List Bytes} {rest : List (Option Bytes)} {post : List (Option Bytes) → Prop}
    (hss : ss.length = 255) (hpre : avps.length = pre.length)
    (hlens : ∀ l ∈ lens, -128 ≤ l ∧ l ≤ 127) :
    Ensures (checkedAvps body (pre ++ lens ++ tail) ss (avps.map some ++ none :: rest) off
        pre.length lens.length) post ↔
      (AvpsInside body off lens ∧ lens.length ≤ rest.length) ∧
        post ((avps ++ avpTexts body off lens).map some ++ none :: rest.drop lens.length) := by
  induction lens generalizing off pre ss avps rest with
  | nil => simp [checkedAvps, AvpsInside, avpTexts]
  | cons len lens ih =>
    obtain ⟨hge, hle⟩ := hlens len List.mem_cons_self
    have hget : (pre ++ len :: lens ++ tail)[pre.length]? = some len := by simp
    have happ : pre ++ len :: lens ++ tail = pre ++ [len] ++ lens ++ tail := by simp
    simp only [checkedAvps, Option.bind_eq_bind, hget, Option.bind_some, List.length_cons,
      ensures_bind, AvpsInside, avpTexts]
    by_cases hneg : len < 0
    · have hbig := sizeT_of_neg hneg hge
      rw [ensures_of_iff fun _ => copyUntil_zero_eq_some_iff 0 body]
      refine iff_of_false ?_ ?_ <;> intro h <;> omega
    · have hnonneg : 0 ≤ len := by omega
      have hcstr : cstr (copied 0 body off len.toNat ++ 0 :: ss.drop (len.toNat + 1)) =
          text 0 body off len.toNat := takeWhile_copied_append 0 body off len.toNat (by simp)
      have hlen : (copied 0 body off len.toNat ++ 0 :: ss.drop (len.toNat + 1)).length = 255 := by
        rw [List.length_append, length_copied, List.length_cons, List.length_drop]
        omega
      have hpre' : pre.length + 1 = (pre ++ [len]).length := by simp
      rw [sizeT_of_nonneg hnonneg hle, ensures_ss hss (by omega), hcstr, ← hpre, put_avp, hpre,
        happ, hpre', ih hlen (by simp [hpre]) fun l hl => hlens l (List.mem_cons_of_mem _ hl)]
      rw [List.append_assoc, List.singleton_append, List.length_drop, List.drop_drop,
        Nat.add_comm 1 lens.length]
      constructor
      · rintro ⟨hread, hroom, ⟨hrest, hrooms⟩, hpost⟩
        exact ⟨⟨⟨hnonneg, hread, hrest⟩, by omega⟩, hpost⟩
      · rintro ⟨⟨⟨-, hread, hrest⟩, hrooms⟩, hpost⟩
        exact ⟨hread, by omega, ⟨hrest, by omega⟩, hpost⟩

theorem ensures_authorAvps {body : Bytes} {off n : ℕ} {lens tail : List ℤ}
    {post : List (Option Bytes) → Prop} (hn : lens.length = n)
    (hlens : ∀ l ∈ lens, -128 ≤ l ∧ l ≤ 127) :
    Ensures (checkedAvps body (lens ++ tail) (List.replicate 255 0)
        (none :: List.replicate (maxAvp - 1) none) off 0 n) post ↔
      (AvpsInside body off lens ∧ n < maxAvp) ∧
        post ((avpTexts body off lens).map some ++ List.replicate (maxAvp - n) none) := by
  subst hn
  have h := @ensures_checkedAvps body off [] lens tail (List.replicate 255 0) []
    (List.replicate (maxAvp - 1) none) post List.length_replicate rfl hlens
  have hroom : lens.length ≤ (List.replicate (maxAvp - 1) (none : Option Bytes)).length ↔
      lens.length < maxAvp := by
    rw [List.length_replicate, maxAvp]
    omega
  rw [hroom] at h
  refine h.trans (and_congr_right fun hlt => ?_)
  have htail : (none : Option Bytes) :: (List.replicate (maxAvp - 1) none).drop lens.length =
      List.replicate (maxAvp - lens.length) none := by
    rw [List.drop_replicate, ← List.replicate_succ]
    congr 1
    have hlt' := hlt.2
    rw [maxAvp] at hlt' ⊢
    omega
  rw [List.nil_append, htail]

/-- The table after the second loop. -/
theorem ensures_newTable {body : Bytes} {off n : ℕ} {post : List ℤ → Prop}
    (hoff : off ≤ body.length) (hn : n ≤ 255) :
    Ensures (checkedTable body newTable off 0 n) post ↔
      off + n ≤ body.length ∧ post (lensAt body off n ++ newTable.drop n) :=
  @ensures_checkedTable body off n [] newTable post hoff
    (by rwa [newTable, List.length_replicate])

theorem lensAt_bounds {body : Bytes} {off n : ℕ} : ∀ l ∈ lensAt body off n, -128 ≤ l ∧ l ≤ 127 := by
  intro l hl
  obtain ⟨b, -, rfl⟩ := List.mem_map.mp hl
  exact signedByte_bounds b

/-! ## Authorization -/

/-- The declared lengths of an authorization request, as the code adds them up. -/
def authorTotal (body : Bytes) : ℤ :=
  8 + byteAt body 7 + byteAt body 4 + byteAt body 5 + byteAt body 6 +
    arglens (lensAt body 8 (byteAt body 7))

/-- Where the AVPs of an authorization request begin. -/
def authorAvpOff (body : Bytes) : ℕ :=
  8 + byteAt body 7 + byteAt body 4 + byteAt body 5 + byteAt body 6

/-- The accesses of the second half of `get_request` are inside. -/
structure AuthorInside (body : Bytes) : Prop where
  user : Readable 0 body (8 + byteAt body 7) (byteAt body 4) ∧ byteAt body 4 < usernameLen
  port : Readable 0 body (8 + byteAt body 7 + byteAt body 4) (byteAt body 5) ∧
    byteAt body 5 < portLen
  remAddr : Readable 0 body (8 + byteAt body 7 + byteAt body 4 + byteAt body 5) (byteAt body 6) ∧
    byteAt body 6 < remAddrLen
  avps : AvpsInside body (authorAvpOff body) (lensAt body 8 (byteAt body 7)) ∧
    byteAt body 7 < maxAvp

/-- What is read then. -/
def authorRead (body : Bytes) : AuthorRead where
  method := body.getD 0 0
  privLvl := body.getD 1 0
  authenType := body.getD 2 0
  authenService := body.getD 3 0
  user := copied 0 body (8 + byteAt body 7) (byteAt body 4) ++
    List.replicate (usernameLen - byteAt body 4) 0
  port := copied 0 body (8 + byteAt body 7 + byteAt body 4) (byteAt body 5) ++
    List.replicate (portLen - byteAt body 5) 0
  remAddr := copied 0 body (8 + byteAt body 7 + byteAt body 4 + byteAt body 5) (byteAt body 6) ++
    List.replicate (remAddrLen - byteAt body 6) 0
  avpair := (avpTexts body (authorAvpOff body) (lensAt body 8 (byteAt body 7))).map some ++
    List.replicate (maxAvp - byteAt body 7) none

theorem byteAt_le (body : Bytes) (i : ℕ) : byteAt body i ≤ 255 :=
  Nat.le_of_lt_succ (body.getD i 0).toNat_lt

/-- Two functions that refuse on the same condition, compared where they do not. -/
theorem refused_congr {c r p p' : Prop} [Decidable c] (h : p ↔ p') :
    (if c then r else p) ↔ (if c then r else p') := by
  split
  · rfl
  · exact h

/-- **What `TacacsServerAuthorization::get_request` comes to.** -/
theorem ensures_authorGetRequest {hdr : Hdr} {body : Bytes} {post : Option AuthorRead → Prop} :
    Ensures (TacacsServerAuthorization.checkedGetRequest hdr body) post ↔
      if hdr.type ≠ PacketType.author.code then post none
      else if hdr.seqNo ≠ 1 then post none
      else 8 + byteAt body 7 ≤ body.length ∧
        if hdr.len ≠ authorTotal body then post none
        else AuthorInside body ∧ post (some (authorRead body)) := by
  have harray : put (List.replicate maxAvp (none : Option Bytes)) 0 none =
      some (none :: List.replicate (maxAvp - 1) none) := rfl
  rw [TacacsServerAuthorization.checkedGetRequest]
  -- outermost first: a rule that fires inside first would have its result simplified anew
  simp only [↓ensures_do, ↓ensures_byte, ↓ensures_ite, ↓ensures_some, ↓ensures_checkedString,
    harray, toNat_getD]
  refine refused_congr (refused_congr ?_)
  by_cases h8 : 8 ≤ body.length
  · rw [and_iff_right (show 7 < body.length by omega), ensures_checkedArglens 0 h8,
      and_iff_right (show 4 < body.length by omega), and_iff_right (show 5 < body.length by omega),
      and_iff_right (show 6 < body.length by omega)]
    refine and_congr_right fun hcnt => refused_congr ?_
    rw [and_iff_right (show 0 < body.length by omega),
      and_iff_right (show 1 < body.length by omega),
      and_iff_right (show 2 < body.length by omega), and_iff_right (show 3 < body.length by omega),
      ensures_newTable h8 (byteAt_le body 7), and_iff_right hcnt,
      ensures_authorAvps (length_lensAt hcnt) lensAt_bounds]
    constructor
    · rintro ⟨huser, hport, hrem, havps, hpost⟩
      exact ⟨⟨huser, hport, hrem, havps⟩, hpost⟩
    · rintro ⟨⟨huser, hport, hrem, havps⟩, hpost⟩
      exact ⟨huser, hport, hrem, havps, hpost⟩
  · refine iff_of_false (fun h => h8 h.1) ?_
    rintro ⟨hcnt, -⟩
    omega

/-! ## Accounting -/

theorem ensures_acctAvps {body : Bytes} {off n : ℕ} {lens tail : List ℤ}
    {post : List Bytes → Prop} (hn : lens.length = n) (hlens : ∀ l ∈ lens, -128 ≤ l ∧ l ≤ 127) :
    Ensures (checkedAvpList body (lens ++ tail) [] off 0 n) post ↔
      AvpsInside body off lens ∧ post (avpTexts body off lens) := by
  subst hn
  exact @ensures_checkedAvpList body off [] lens tail [] post hlens

/-- The declared lengths of an accounting request, as the code adds them up. -/
def acctTotal (body : Bytes) : ℤ :=
  9 + byteAt body 8 + byteAt body 5 + byteAt body 6 + byteAt body 7 +
    arglens (lensAt body 9 (byteAt body 8))

/-- Where the AVPs of an accounting request begin. -/
def acctAvpOff (body : Bytes) : ℕ :=
  9 + byteAt body 8 + byteAt body 5 + byteAt body 6 + byteAt body 7

/-- The accesses of the second half of `get_request` are inside. -/
structure AcctInside (body : Bytes) : Prop where
  user : Readable 0 body (9 + byteAt body 8) (byteAt body 5) ∧ byteAt body 5 ≤ usernameLen
  port : Readable 0 body (9 + byteAt body 8 + byteAt body 5) (byteAt body 6) ∧
    byteAt body 6 ≤ portLen
  remAddr : Readable 0 body (9 + byteAt body 8 + byteAt body 5 + byteAt body 6) (byteAt body 7) ∧
    byteAt body 7 ≤ remAddrLen
  avps : AvpsInside body (acctAvpOff body) (lensAt body 9 (byteAt body 8))

/-- What is read then. -/
def acctRead (peer body : Bytes) : AcctRequest where
  flag := body.getD 0 0
  method := body.getD 1 0
  privLvl := body.getD 2 0
  authenType := body.getD 3 0
  authenService := body.getD 4 0
  user := text 0 body (9 + byteAt body 8) (byteAt body 5)
  port := text 0 body (9 + byteAt body 8 + byteAt body 5) (byteAt body 6)
  remAddr := text 0 body (9 + byteAt body 8 + byteAt body 5 + byteAt body 6) (byteAt body 7)
  nas := text 0 (peer ++ [0]) 0 ipLen
  avpair := avpTexts body (acctAvpOff body) (lensAt body 9 (byteAt body 8))

/-- A C string can be copied whatever the count is. -/
theorem readable_terminated (s : Bytes) (n : ℕ) : Readable 0 (s ++ [0]) 0 n := by
  intro j _
  rcases Nat.lt_or_ge s.length j with hj | hj
  · exact Or.inr ⟨s.length, hj, by simp⟩
  · left
    rw [List.length_append, List.length_singleton]
    omega

/-- **What `TacacsServerAccounting::get_request` comes to.** -/
theorem ensures_acctGetRequest {peer : Bytes} {hdr : Hdr} {body : Bytes}
    {post : Option AcctRequest → Prop} :
    Ensures (TacacsServerAccounting.checkedGetRequest peer hdr body) post ↔
      if hdr.type ≠ PacketType.acct.code then post none
      else if hdr.seqNo ≠ 1 then post none
      else 9 + byteAt body 8 ≤ body.length ∧
        if hdr.len ≠ acctTotal body then post none
        else AcctInside body ∧ post (some (acctRead peer body)) := by
  rw [TacacsServerAccounting.checkedGetRequest]
  simp only [↓ensures_do, ↓ensures_byte, ↓ensures_ite, ↓ensures_some, ↓ensures_checkedCopy,
    toNat_getD, cstr_copied]
  refine refused_congr (refused_congr ?_)
  rw [and_iff_right ⟨readable_terminated peer ipLen, le_rfl⟩]
  by_cases h9 : 9 ≤ body.length
  · rw [and_iff_right (show 8 < body.length by omega), ensures_checkedArglens 0 h9,
      and_iff_right (show 5 < body.length by omega), and_iff_right (show 6 < body.length by omega),
      and_iff_right (show 7 < body.length by omega)]
    refine and_congr_right fun hcnt => refused_congr ?_
    rw [and_iff_right (show 0 < body.length by omega),
      and_iff_right (show 1 < body.length by omega),
      and_iff_right (show 2 < body.length by omega), and_iff_right (show 3 < body.length by omega),
      and_iff_right (show 4 < body.length by omega), ensures_newTable h9 (byteAt_le body 8),
      and_iff_right hcnt, ensures_acctAvps (length_lensAt hcnt) lensAt_bounds]
    constructor
    · rintro ⟨huser, hport, hrem, havps, hpost⟩
      exact ⟨⟨huser, hport, hrem, havps⟩, hpost⟩
    · rintro ⟨⟨huser, hport, hrem, havps⟩, hpost⟩
      exact ⟨huser, hport, hrem, havps, hpost⟩
  · refine iff_of_false (fun h => h9 h.1) ?_
    rintro ⟨hcnt, -⟩
    omega

end Tacppd
