/-
# Which bodies the decoders stay inside of

A decoder is contained on a body when none of its accesses is outside the body or
outside a buffer, and when it accepts the body only if the declared lengths fit.  For
each of the four decoders `Decoder.Sound` says on which bodies that is so, in the
lengths and the count of the body (`decoder_contained_iff`).
-/
import Tacppd.DecoderRules

namespace Tacppd

open Guarded

/-! ## START -/

/-- The texts of a START packet one after the other, each with the size of its buffer:
the first one that is too long is refused, and up to there all are inside.  With none
refused `rest` holds. -/
def FieldsSound (body : Bytes) (rest : Prop) : ℕ → List (ℕ × ℕ) → Prop
  | _, [] => rest
  | off, (len, cap) :: fields =>
    if cap < len then True
    else (Readable 0 body off len ∧ len < cap) ∧ FieldsSound body rest (off + len) fields

/-- Where the text after the first three texts of a START packet begins. -/
def startDataOff (body : Bytes) : ℕ := 8 + byteAt body 4 + byteAt body 5 + byteAt body 6

/-- The declared lengths of a START packet fit the body and, with a terminator each, the
buffers. -/
def StartFits (body : Bytes) : Prop :=
  startDataOff body + byteAt body 7 ≤ body.length ∧ byteAt body 4 < usernameLen ∧
    byteAt body 5 < portLen ∧ byteAt body 6 < remAddrLen ∧ byteAt body 7 < dataLen

/-- On which START packets `get_start` is contained. -/
def StartSound (hdr : Hdr) (body : Bytes) : Prop :=
  7 ≤ body.length ∧
    ((hdr.version = tacPlusVer0 ∨ hdr.version = tacPlusVer1) → hdr.seqNo = 1 →
      FieldsSound body
        (8 ≤ body.length ∧
          FieldsSound body
            (startType (body.getD 0 0) (body.getD 2 0) (body.getD 3 0) hdr.version ≠ none →
              startDataOff body + byteAt body 7 ≤ body.length)
            (startDataOff body) [(byteAt body 7, dataLen)])
        8 [(byteAt body 4, usernameLen), (byteAt body 5, portLen), (byteAt body 6, remAddrLen)])

/-- One field: refused on both sides, or inside and the rest compared. -/
theorem field_congr {c r p q q' : Prop} [Decidable c] (hr : r) (h : p → (q ↔ q')) :
    (if c then r else p ∧ q) ↔ (if c then True else p ∧ q') := by
  split
  · exact iff_of_true hr trivial
  · exact and_congr_right h

theorem getStart_contained_iff (a : TacacsServerAuthentication) (peer : Bytes) (hdr : Hdr)
    (body : Bytes) :
    (Ensures (checkedGetStart a peer hdr body) fun start =>
        start.type ≠ none → StartFits body) ↔ StartSound hdr body := by
  have href : (none : Option RequestType) ≠ none → StartFits body := fun h => absurd rfl h
  rw [checkedGetStart]
  simp only [↓ensures_do, ↓ensures_byte, ↓ensures_ite, ↓ensures_some, ↓ensures_checkedField,
    StartSound, FieldsSound]
  by_cases hlen : 7 ≤ body.length
  · rw [and_iff_right (by omega), and_iff_right (by omega), and_iff_right (by omega),
      and_iff_right hlen]
    by_cases hver : hdr.version ≠ tacPlusVer0 ∧ hdr.version ≠ tacPlusVer1
    · rw [if_pos hver]
      exact iff_of_true href fun h => (h.elim hver.1 hver.2).elim
    · have hver' : hdr.version = tacPlusVer0 ∨ hdr.version = tacPlusVer1 := by tauto
      rw [if_neg hver, imp_iff_right hver']
      by_cases hseq : hdr.seqNo = 1
      · rw [if_neg (not_not_intro hseq), imp_iff_right hseq, and_iff_right (by omega),
          and_iff_right (by omega), and_iff_right (by omega)]
        refine field_congr href fun huser => field_congr href fun hport =>
          field_congr href fun hrem => and_congr_right fun _ => field_congr href fun hdata => ?_
        refine imp_congr_right fun _ => ?_
        exact ⟨fun h => h.1, fun h => ⟨h, huser.2, hport.2, hrem.2, hdata.2⟩⟩
      · rw [if_pos hseq]
        exact iff_of_true href fun h => absurd h hseq
  · refine iff_of_false ?_ fun h => hlen h.1
    rintro ⟨-, -, h6, -⟩
    exact hlen h6

/-! ## CONTINUE -/

/-- The two lengths of a CONTINUE packet. -/
def userMsgLen (body : Bytes) : ℕ := byteAt body 0 * 256 + byteAt body 1

def userDataLen (body : Bytes) : ℕ := byteAt body 2 * 256 + byteAt body 3

/-- They fit the body and the two buffers. -/
def ContFits (maxlen : ℕ) (body : Bytes) : Prop :=
  5 + userMsgLen body + userDataLen body ≤ body.length ∧ userMsgLen body ≤ maxlen ∧
    userDataLen body ≤ dataLen

theorem getCont_contained_iff {hdr : Hdr} {body : Bytes} (hlen : hdr.len = body.length)
    (maxlen : ℕ) :
    (Ensures (checkedGetCont hdr body maxlen) fun r => r ≠ none → ContFits maxlen body) ↔
      4 ≤ body.length := by
  have href : (none : Option Cont) ≠ none → ContFits maxlen body := fun h => absurd rfl h
  rw [checkedGetCont]
  simp only [↓ensures_do, ↓ensures_byte, ↓ensures_ite, ↓ensures_some, ↓ensures_checkedCopy]
  constructor
  · rintro ⟨-, -, -, h3, -⟩
    exact h3
  · intro h4
    refine ⟨by omega, by omega, by omega, h4, ?_⟩
    split
    · exact href
    · rename_i htotal
      have hsum : 5 + userMsgLen body + userDataLen body = body.length := by
        rw [hlen, not_not] at htotal
        simp only [userMsgLen, userDataLen, byteAt]
        omega
      refine ⟨by omega, ?_⟩
      split
      · exact href
      · rename_i hmsg
        refine ⟨⟨readable_of_le 0 body (by simp only [userMsgLen, byteAt] at hsum; omega),
          by omega⟩, ?_⟩
        split
        · exact href
        · rename_i hdata
          refine ⟨⟨readable_of_le 0 body ?_, by omega⟩, fun _ => ⟨hsum.le, ?_, ?_⟩⟩
          · simp only [userMsgLen, userDataLen, byteAt] at hsum
            omega
          · simp only [userMsgLen, byteAt]
            omega
          · simp only [userDataLen, byteAt]
            omega

/-! ## The sums of the length bytes -/

theorem foldl_add_init (lens : List ℤ) (s : ℤ) :
    lens.foldl (· + ·) s = s + lens.foldl (· + ·) 0 := by
  induction lens generalizing s with
  | nil => simp
  | cons l lens ih =>
    rw [List.foldl_cons, ih (s + l), List.foldl_cons, ih (0 + l)]
    omega

theorem arglens_cons (l : ℤ) (lens : List ℤ) : arglens (l :: lens) = l + arglens lens := by
  rw [arglens, List.foldl_cons, foldl_add_init, arglens]
  omega

theorem arglens_nonneg {lens : List ℤ} (h : ∀ l ∈ lens, 0 ≤ l) : 0 ≤ arglens lens := by
  induction lens with
  | nil => simp [arglens]
  | cons l lens ih =>
    have hrest := ih fun l' hl' => h l' (List.mem_cons_of_mem _ hl')
    have hl := h l List.mem_cons_self
    rw [arglens_cons]
    omega

theorem avpsInside_nonneg {body : Bytes} {off : ℕ} {lens : List ℤ}
    (h : AvpsInside body off lens) : ∀ l ∈ lens, 0 ≤ l := by
  induction lens generalizing off with
  | nil => simp
  | cons l lens ih =>
    obtain ⟨hl, -, hrest⟩ := h
    exact List.forall_mem_cons.mpr ⟨hl, ih hrest⟩

/-- Inside a body that is long enough for all of them, the AVPs only need lengths that
are not negative. -/
theorem avpsInside_of_total {body : Bytes} {off : ℕ} {lens : List ℤ} (h : ∀ l ∈ lens, 0 ≤ l)
    (hlen : off + arglens lens ≤ body.length) : AvpsInside body off lens := by
  induction lens generalizing off with
  | nil => trivial
  | cons l lens ih =>
    obtain ⟨hl, hrest⟩ := List.forall_mem_cons.mp h
    have hsum := arglens_nonneg hrest
    rw [arglens_cons] at hlen
    refine ⟨hl, readable_of_le 0 body (by omega), ih hrest ?_⟩
    push_cast
    omega

/-- The sum of length bytes, as they are declared. -/
def declared : Bytes → ℕ
  | [] => 0
  | b :: lens => b.toNat + declared lens

/-- A length byte that is not negative as a `char` is itself. -/
theorem signedByte_of_nonneg {b : UInt8} (h : 0 ≤ signedByte b) :
    signedByte b = b.toNat ∧ b.toNat < 128 := by
  have hint : signedByte b = b.toBitVec.toInt := rfl
  have hnat : b.toBitVec.toNat = b.toNat := rfl
  have hcond := BitVec.toInt_eq_toNat_cond b.toBitVec
  have hlt := b.toNat_lt
  rw [hint] at h ⊢
  split at hcond <;> omega

theorem arglens_map_signedByte {lens : Bytes} (h : ∀ l ∈ lens.map signedByte, 0 ≤ l) :
    arglens (lens.map signedByte) = declared lens := by
  induction lens with
  | nil => rfl
  | cons b lens ih =>
    rw [List.map_cons, List.forall_mem_cons] at h
    rw [List.map_cons, arglens_cons, ih h.2, (signedByte_of_nonneg h.1).1, declared]
    push_cast
    rfl

/-- The length bytes of the AVPs. -/
def argBytes (body : Bytes) (off n : ℕ) : Bytes := (body.drop off).take n

/-- With no negative length, each text of an AVP is shorter than 128 bytes. -/
theorem argBytes_lt {body : Bytes} {off n : ℕ} (h : ∀ l ∈ lensAt body off n, 0 ≤ l) :
    ∀ b ∈ argBytes body off n, b.toNat < 128 :=
  fun _ hb => (signedByte_of_nonneg (h _ (List.mem_map_of_mem hb))).2

/-! ## Authorization -/

/-- The declared lengths fit the body and, with a terminator each, the buffers; the array
has room for the AVPs and a null pointer. -/
def AuthorFits (body : Bytes) : Prop :=
  authorAvpOff body + declared (argBytes body 8 (byteAt body 7)) ≤ body.length ∧
    byteAt body 4 < usernameLen ∧ byteAt body 5 < portLen ∧ byteAt body 6 < remAddrLen ∧
    byteAt body 7 < maxAvp ∧ ∀ b ∈ argBytes body 8 (byteAt body 7), b.toNat < 255

/-- On which requests `TacacsServerAuthorization::get_request` is contained. -/
def AuthorSound (hdr : Hdr) (body : Bytes) : Prop :=
  hdr.type = PacketType.author.code → hdr.seqNo = 1 →
    8 + byteAt body 7 ≤ body.length ∧
      (hdr.len = authorTotal body →
        (byteAt body 4 < usernameLen ∧ byteAt body 5 < portLen ∧
          byteAt body 6 < remAddrLen ∧ byteAt body 7 < maxAvp) ∧
        ∀ l ∈ lensAt body 8 (byteAt body 7), 0 ≤ l)

/-- A function that refuses with a result that is as asked for. -/
theorem refused_iff {c r p q : Prop} [Decidable c] (hr : r) (h : c → (p ↔ q)) :
    (if ¬c then r else p) ↔ (c → q) := by
  by_cases hc : c
  · rw [if_neg (not_not_intro hc), imp_iff_right hc]
    exact h hc
  · rw [if_pos hc]
    exact iff_of_true hr fun hc' => absurd hc' hc

theorem authorInside_iff {body : Bytes} (hlen : (body.length : ℤ) = authorTotal body) :
    (AuthorInside body ∧ AuthorFits body) ↔
      (byteAt body 4 < usernameLen ∧ byteAt body 5 < portLen ∧
          byteAt body 6 < remAddrLen ∧ byteAt body 7 < maxAvp) ∧
        ∀ l ∈ lensAt body 8 (byteAt body 7), 0 ≤ l := by
  constructor
  · rintro ⟨⟨huser, hport, hrem, havps⟩, -⟩
    exact ⟨⟨huser.2, hport.2, hrem.2, havps.2⟩, avpsInside_nonneg havps.1⟩
  · rintro ⟨⟨huser, hport, hrem, hcnt⟩, hlens⟩
    have hsum := arglens_nonneg hlens
    have hoff : (authorAvpOff body : ℤ) + arglens (lensAt body 8 (byteAt body 7)) ≤
        body.length := by
      rw [hlen, authorTotal, authorAvpOff]
      push_cast
      omega
    have hdeclared : arglens (lensAt body 8 (byteAt body 7)) =
        declared (argBytes body 8 (byteAt body 7)) := arglens_map_signedByte hlens
    have hle : authorAvpOff body ≤ body.length := by omega
    rw [authorAvpOff] at hle
    refine ⟨⟨⟨readable_of_le 0 body (by omega), huser⟩, ⟨readable_of_le 0 body (by omega), hport⟩,
      ⟨readable_of_le 0 body (by omega), hrem⟩, avpsInside_of_total hlens hoff, hcnt⟩, ?_⟩
    refine ⟨by omega, huser, hport, hrem, hcnt, fun b hb => ?_⟩
    exact (argBytes_lt hlens b hb).trans (by decide)

theorem authorGetRequest_contained_iff {hdr : Hdr} {body : Bytes}
    (hlen : hdr.len = body.length) :
    (Ensures (TacacsServerAuthorization.checkedGetRequest hdr body) fun r =>
        r ≠ none → AuthorFits body) ↔ AuthorSound hdr body := by
  have href : (none : Option AuthorRead) ≠ none → AuthorFits body := fun h => absurd rfl h
  rw [ensures_authorGetRequest, AuthorSound]
  refine refused_iff href fun _ => refused_iff href fun _ => and_congr_right fun _ =>
    refused_iff href fun htotal => ?_
  rw [← authorInside_iff (hlen ▸ htotal)]
  exact and_congr_right fun _ => imp_iff_right (Option.some_ne_none _)

/-! ## Accounting -/

/-- The declared lengths fit the body and the buffers. -/
def AcctFits (body : Bytes) : Prop :=
  acctAvpOff body + declared (argBytes body 9 (byteAt body 8)) ≤ body.length ∧
    byteAt body 5 ≤ usernameLen ∧ byteAt body 6 ≤ portLen ∧ byteAt body 7 ≤ remAddrLen ∧
    ∀ b ∈ argBytes body 9 (byteAt body 8), b.toNat ≤ 128

/-- On which requests `TacacsServerAccounting::get_request` is contained. -/
def AcctSound (hdr : Hdr) (body : Bytes) : Prop :=
  hdr.type = PacketType.acct.code → hdr.seqNo = 1 →
    9 + byteAt body 8 ≤ body.length ∧
      (hdr.len = acctTotal body →
        (byteAt body 5 ≤ usernameLen ∧ byteAt body 6 ≤ portLen ∧ byteAt body 7 ≤ remAddrLen) ∧
        ∀ l ∈ lensAt body 9 (byteAt body 8), 0 ≤ l)

theorem acctInside_iff {body : Bytes} (hlen : (body.length : ℤ) = acctTotal body) :
    (AcctInside body ∧ AcctFits body) ↔
      (byteAt body 5 ≤ usernameLen ∧ byteAt body 6 ≤ portLen ∧ byteAt body 7 ≤ remAddrLen) ∧
        ∀ l ∈ lensAt body 9 (byteAt body 8), 0 ≤ l := by
  constructor
  · rintro ⟨⟨huser, hport, hrem, havps⟩, -⟩
    exact ⟨⟨huser.2, hport.2, hrem.2⟩, avpsInside_nonneg havps⟩
  · rintro ⟨⟨huser, hport, hrem⟩, hlens⟩
    have hsum := arglens_nonneg hlens
    have hoff : (acctAvpOff body : ℤ) + arglens (lensAt body 9 (byteAt body 8)) ≤
        body.length := by
      rw [hlen, acctTotal, acctAvpOff]
      push_cast
      omega
    have hdeclared : arglens (lensAt body 9 (byteAt body 8)) =
        declared (argBytes body 9 (byteAt body 8)) := arglens_map_signedByte hlens
    have hle : acctAvpOff body ≤ body.length := by omega
    rw [acctAvpOff] at hle
    refine ⟨⟨⟨readable_of_le 0 body (by omega), huser⟩, ⟨readable_of_le 0 body (by omega), hport⟩,
      ⟨readable_of_le 0 body (by omega), hrem⟩, avpsInside_of_total hlens hoff⟩, ?_⟩
    refine ⟨by omega, huser, hport, hrem, fun b hb => ?_⟩
    exact (argBytes_lt hlens b hb).le

theorem acctGetRequest_contained_iff {hdr : Hdr} {body : Bytes} (peer : Bytes)
    (hlen : hdr.len = body.length) :
    (Ensures (TacacsServerAccounting.checkedGetRequest peer hdr body) fun r =>
        r ≠ none → AcctFits body) ↔ AcctSound hdr body := by
  have href : (none : Option AcctRequest) ≠ none → AcctFits body := fun h => absurd rfl h
  rw [ensures_acctGetRequest, AcctSound]
  refine refused_iff href fun _ => refused_iff href fun _ => and_congr_right fun _ =>
    refused_iff href fun htotal => ?_
  rw [← acctInside_iff (hlen ▸ htotal)]
  exact and_congr_right fun _ => imp_iff_right (Option.some_ne_none _)

/-! ## The four decoders -/

/-- The decoders; `get_cont` is called with the size of the buffer for the message. -/
inductive Decoder
  | start (a : TacacsServerAuthentication)
  | cont (maxlen : ℕ)
  | author
  | acct
  deriving DecidableEq, Repr

namespace Decoder

/-- Whether a decoder accepts a body, nothing after an access outside. -/
def accepts (d : Decoder) (peer : Bytes) (hdr : Hdr) (body : Bytes) : Option Bool :=
  match d with
  | start a => (checkedGetStart a peer hdr body).map fun start => start.type.isSome
  | cont maxlen => (checkedGetCont hdr body maxlen).map Option.isSome
  | author => (TacacsServerAuthorization.checkedGetRequest hdr body).map Option.isSome
  | acct => (TacacsServerAccounting.checkedGetRequest peer hdr body).map Option.isSome

/-- The declared lengths fit the body and the buffers. -/
def Fits (d : Decoder) (body : Bytes) : Prop :=
  match d with
  | start _ => StartFits body
  | cont maxlen => ContFits maxlen body
  | author => AuthorFits body
  | acct => AcctFits body

/-- **Every access is inside, and a body is accepted only if its lengths fit.** -/
def Contained (d : Decoder) (peer : Bytes) (hdr : Hdr) (body : Bytes) : Prop :=
  Ensures (d.accepts peer hdr body) fun ok => ok = true → d.Fits body

/-- The bodies on which a decoder is contained. -/
def Sound (d : Decoder) (hdr : Hdr) (body : Bytes) : Prop :=
  match d with
  | start _ => StartSound hdr body
  | cont _ => 4 ≤ body.length
  | author => AuthorSound hdr body
  | acct => AcctSound hdr body

end Decoder

/-- **On which bodies the decoders stay in bounds.** -/
theorem decoder_contained_iff (d : Decoder) (peer : Bytes) {hdr : Hdr} {body : Bytes}
    (hlen : hdr.len = body.length) : d.Contained peer hdr body ↔ d.Sound hdr body := by
  cases d with
  | start a =>
    simp only [Decoder.Contained, Decoder.accepts, ensures_map, Option.isSome_iff_ne_none]
    exact getStart_contained_iff a peer hdr body
  | cont maxlen =>
    simp only [Decoder.Contained, Decoder.accepts, ensures_map, Option.isSome_iff_ne_none]
    exact getCont_contained_iff hlen maxlen
  | author =>
    simp only [Decoder.Contained, Decoder.accepts, ensures_map, Option.isSome_iff_ne_none]
    exact authorGetRequest_contained_iff hlen
  | acct =>
    simp only [Decoder.Contained, Decoder.accepts, ensures_map, Option.isSome_iff_ne_none]
    exact acctGetRequest_contained_iff peer hlen

/-- A CONTINUE packet with a password of three bytes. -/
theorem decoder_contained_cont :
    (Decoder.cont 50).Contained [] ⟨192, 1, 3, 0, 7, 8⟩ [0, 3, 0, 0, 0, 97, 98, 99] ↔
      (Decoder.cont 50).Sound ⟨192, 1, 3, 0, 7, 8⟩ [0, 3, 0, 0, 0, 97, 98, 99] :=
  decoder_contained_iff (Decoder.cont 50) [] (by decide)

/-- A START packet whose user name has 32 bytes: it is not refused, and its terminator
goes past the buffer of 32 bytes. -/
theorem decoder_user_of_32 :
    ¬ (Decoder.start .new).Contained [] ⟨192, 1, 1, 0, 7, 40⟩
      ([1, 0, 1, 1, 32, 0, 0, 0] ++ List.replicate 32 97) := by
  have hnone : (Decoder.start .new).accepts [] ⟨192, 1, 1, 0, 7, 40⟩
      ([1, 0, 1, 1, 32, 0, 0, 0] ++ List.replicate 32 97) = none := by decide +kernel
  rw [Decoder.Contained, hnone, ensures_none]
  exact not_false

end Tacppd
