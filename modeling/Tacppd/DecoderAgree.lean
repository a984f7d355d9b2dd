/-
# The checked decoders and the plain ones

The plain decoders read a body with zeros behind it and look at no buffer but for its
size.  Where the checked one has a result, the plain one has the same, however many
zeros there are.
-/
import Tacppd.DecoderRules

namespace Tacppd

open Guarded

/-- A body with zeros behind it. -/
def slack (body : Bytes) (k : ℕ) : Bytes := body ++ List.replicate k 0

/-! ## Reads -/

theorem getD_slack (body : Bytes) (k i : ℕ) : (slack body k).getD i 0 = body.getD i 0 := by
  simp only [slack, List.getD_eq_getElem?_getD]
  rcases Nat.lt_or_ge i body.length with hi | hi
  · rw [List.getElem?_append_left hi]
  · rw [List.getElem?_append_right hi, List.getElem?_eq_none hi, List.getElem?_replicate]
    split <;> rfl

theorem strncpy_slack {body : Bytes} (k : ℕ) {off n : ℕ} (h : Readable 0 body off n) :
    strncpy (slack body k) off n = some (text 0 body off n) := by
  induction n generalizing off with
  | zero => simp [strncpy, text]
  | succ n ih =>
    obtain ⟨hoff, hrest⟩ := (readable_succ_iff 0 body).mp h
    have hget : body[off]? = some body[off] := List.getElem?_eq_getElem hoff
    rw [strncpy, slack, List.getElem?_append_left hoff, hget]
    simp only
    by_cases hz : body[off] = 0
    · rw [if_pos hz, text_succ_of_stop 0 body n (by rw [hget, hz])]
    · have hread : Readable 0 body (off + 1) n := by
        refine hrest.resolve_left fun hstop => hz ?_
        rw [hget] at hstop
        exact Option.some.inj hstop
      rw [if_neg hz, ← slack, ih hread, text_succ 0 body n hget hz]
      rfl

/-! ## START -/

theorem startField_slack {β : Type} {body : Bytes} (k : ℕ) {off len cap : ℕ} {refused : β}
    {next : Bytes → Option β} {post : β → Prop}
    (h : Ensures (checkedField body off len cap refused next) post) :
    (startField (slack body k) off len cap = some none ∧ post refused) ∨
      (startField (slack body k) off len cap = some (some (text 0 body off len)) ∧
        Ensures (next (copied 0 body off len ++ List.replicate (cap - len) 0)) post) := by
  rw [ensures_checkedField] at h
  rw [startField]
  split at h
  next hcap =>
    left
    rw [if_pos hcap]
    exact ⟨rfl, h⟩
  next hcap =>
    right
    obtain ⟨⟨hread, hlt⟩, hnext⟩ := h
    rw [if_neg hcap, if_neg hlt.ne, strncpy_slack k hread]
    exact ⟨rfl, hnext⟩

theorem getStart_of_checked {a : TacacsServerAuthentication} {peer : Bytes} {hdr : Hdr}
    {body : Bytes} (k : ℕ) {start : Start} (h : checkedGetStart a peer hdr body = some start) :
    getStart a peer hdr (slack body k) = some start := by
  have hens : Ensures (checkedGetStart a peer hdr body) (· = start) := ⟨start, h, rfl⟩
  rw [checkedGetStart] at hens
  simp only [↓ensures_do, ↓ensures_byte, ↓ensures_ite, ↓ensures_some, toNat_getD] at hens
  obtain ⟨-, -, -, hens⟩ := hens
  simp only [getStart, getD_slack, toNat_getD]
  split at hens
  next hver => rw [if_pos hver, hens]
  next hver =>
    rw [if_neg hver]
    split at hens
    next hseq => rw [if_pos hseq, hens]
    next hseq =>
      rw [if_neg hseq]
      obtain ⟨-, -, -, hens⟩ := hens
      rcases startField_slack k hens with ⟨huser, hres⟩ | ⟨huser, hens⟩
      · rw [huser, ← hres]
      rcases startField_slack k hens with ⟨hport, hres⟩ | ⟨hport, hens⟩
      · rw [huser, hport, ← hres, cstr_copied]
      rcases startField_slack k hens with ⟨hrem, hres⟩ | ⟨hrem, hens⟩
      · rw [huser, hport, hrem, ← hres, cstr_copied, cstr_copied]
      rw [ensures_do, ensures_byte, toNat_getD] at hens
      rcases startField_slack k hens.2 with ⟨hdata, hres⟩ | ⟨hdata, hens⟩
      · rw [huser, hport, hrem, hdata, ← hres, cstr_copied, cstr_copied, cstr_copied]
      · rw [ensures_some] at hens
        rw [huser, hport, hrem, hdata, ← hens]
        simp only [cstr_copied]

/-! ## CONTINUE -/

theorem getCont_of_checked {hdr : Hdr} {body : Bytes} {maxlen : ℕ} (k : ℕ) {r : Option Cont}
    (h : checkedGetCont hdr body maxlen = some r) :
    getCont hdr (slack body k) maxlen = some r := by
  have hens : Ensures (checkedGetCont hdr body maxlen) (· = r) := ⟨r, h, rfl⟩
  rw [checkedGetCont] at hens
  simp only [↓ensures_do, ↓ensures_byte, ↓ensures_ite, ↓ensures_some, ↓ensures_checkedCopy,
    cstr_copied] at hens
  obtain ⟨-, -, -, -, hens⟩ := hens
  simp only [getCont, ntohs, getD_slack]
  split at hens
  next htotal => rw [if_pos htotal, hens]
  next htotal =>
    rw [if_neg htotal]
    obtain ⟨-, hens⟩ := hens
    split at hens
    next hmsg => rw [if_pos hmsg, hens]
    next hmsg =>
      obtain ⟨⟨hread, -⟩, hens⟩ := hens
      rw [if_neg hmsg, strncpy_slack k hread]
      simp only
      split at hens
      next hdata => rw [if_pos hdata, hens]
      next hdata => rw [if_neg hdata, strncpy_slack k hens.1.1, ← hens.2]

/-! ## The AVPs -/

theorem argLens_slack {body : Bytes} (k : ℕ) {off n : ℕ} (h : off + n ≤ body.length) :
    argLens (slack body k) off n = some (lensAt body off n) := by
  have hnot : ¬ (slack body k).length < off + n := by
    rw [slack, List.length_append]
    omega
  rw [argLens, if_neg hnot, lensAt, slack, List.drop_append_of_le_length (by omega),
    List.take_append_of_le_length (by rw [List.length_drop]; omega)]

theorem readAvps_slack {body : Bytes} (k : ℕ) {off : ℕ} {lens : List ℤ}
    (h : AvpsInside body off lens) :
    readAvps (slack body k) off lens = some (avpTexts body off lens) := by
  induction lens generalizing off with
  | nil => rfl
  | cons l lens ih =>
    obtain ⟨hl, hread, hrest⟩ := h
    rw [readAvps, if_neg (Int.not_lt.mpr hl), strncpy_slack k hread, ih hrest, avpTexts]
    rfl

theorem length_avpTexts (body : Bytes) (off : ℕ) (lens : List ℤ) :
    (avpTexts body off lens).length = lens.length := by
  induction lens generalizing off with
  | nil => rfl
  | cons l lens ih => rw [avpTexts, List.length_cons, ih, List.length_cons]

theorem readTexts_slack {body : Bytes} (k : ℕ) {off ul pl rl cu cp cr : ℕ}
    (hu : Readable 0 body off ul ∧ ul ≤ cu) (hp : Readable 0 body (off + ul) pl ∧ pl ≤ cp)
    (hr : Readable 0 body (off + ul + pl) rl ∧ rl ≤ cr) :
    readTexts (slack body k) off ul pl rl cu cp cr =
      some ⟨text 0 body off ul, text 0 body (off + ul) pl, text 0 body (off + ul + pl) rl⟩ := by
  rw [readTexts, if_neg (by omega), strncpy_slack k hu.1, strncpy_slack k hp.1,
    strncpy_slack k hr.1]

/-! ## Authorization -/

/-- The request that buffers and array hold. -/
structure AuthorRead.Holds (r : AuthorRead) (req : AuthorRequest) : Prop where
  numbers : r.method = req.method ∧ r.privLvl = req.privLvl ∧ r.authenType = req.authenType ∧
    r.authenService = req.authenService
  texts : cstr r.user = req.user ∧ cstr r.port = req.port ∧ cstr r.remAddr = req.remAddr
  avpair : r.avpair =
    req.avpair.map some ++ List.replicate (maxAvp - req.avpair.length) none

theorem authorGetRequest_of_checked {hdr : Hdr} {body : Bytes} (k : ℕ) {r : Option AuthorRead}
    (h : TacacsServerAuthorization.checkedGetRequest hdr body = some r) :
    ∃ req, TacacsServerAuthorization.getRequest hdr (slack body k) = some req ∧
      Option.Rel AuthorRead.Holds r req := by
  have hens : Ensures (TacacsServerAuthorization.checkedGetRequest hdr body) (· = r) := ⟨r, h, rfl⟩
  rw [ensures_authorGetRequest] at hens
  simp only [TacacsServerAuthorization.getRequest, getD_slack, toNat_getD]
  split at hens
  next htype => exact ⟨none, if_pos htype, hens ▸ Option.Rel.none⟩
  next htype =>
    rw [if_neg htype]
    split at hens
    next hseq => exact ⟨none, if_pos hseq, hens ▸ Option.Rel.none⟩
    next hseq =>
      obtain ⟨hcnt, hens⟩ := hens
      rw [if_neg hseq, argLens_slack k hcnt]
      simp only
      rw [← authorTotal]
      split at hens
      next htotal => exact ⟨none, if_pos htotal, hens ▸ Option.Rel.none⟩
      next htotal =>
        obtain ⟨⟨huser, hport, hrem, havps, hroom⟩, rfl⟩ := hens
        have hlen : (avpTexts body (authorAvpOff body) (lensAt body 8 (byteAt body 7))).length =
            byteAt body 7 := (length_avpTexts _ _ _).trans (length_lensAt hcnt)
        rw [if_neg htotal, readTexts_slack k ⟨huser.1, Nat.le_sub_one_of_lt huser.2⟩
          ⟨hport.1, Nat.le_sub_one_of_lt hport.2⟩ ⟨hrem.1, Nat.le_sub_one_of_lt hrem.2⟩,
          ← authorAvpOff, readAvps_slack k havps]
        simp only
        rw [dif_pos (by rwa [hlen])]
        refine ⟨_, rfl, Option.Rel.some ⟨⟨rfl, rfl, rfl, rfl⟩, ⟨?_, ?_, ?_⟩, ?_⟩⟩
        · exact cstr_copied _ _ _ _
        · exact cstr_copied _ _ _ _
        · exact cstr_copied _ _ _ _
        · simp only [authorRead, hlen]

/-! ## Accounting -/

/-- The address of the peer in its buffer. -/
theorem text_peer {peer : Bytes} (h : (0 : UInt8) ∉ peer) (n : ℕ) :
    text 0 (peer ++ [0]) 0 n = peer.take n := by
  have hne := forall_ne h
  rw [text, List.drop_zero]
  rcases Nat.lt_or_ge peer.length n with hn | hn
  · have hlen : (peer ++ [0]).length ≤ n := by
      rw [List.length_append, List.length_singleton]
      omega
    rw [List.take_of_length_le hlen, List.takeWhile_append_of_pos hne,
      List.take_of_length_le hn.le]
    simp
  · rw [List.take_append_of_le_length hn, List.takeWhile_eq_self_iff]
    exact fun b hb => hne b (List.mem_of_mem_take hb)

theorem acctGetRequest_of_checked {peer : Bytes} (hpeer : (0 : UInt8) ∉ peer) {hdr : Hdr}
    {body : Bytes} (k : ℕ) {r : Option AcctRequest}
    (h : TacacsServerAccounting.checkedGetRequest peer hdr body = some r) :
    TacacsServerAccounting.getRequest peer hdr (slack body k) = some r := by
  have hens : Ensures (TacacsServerAccounting.checkedGetRequest peer hdr body) (· = r) :=
    ⟨r, h, rfl⟩
  rw [ensures_acctGetRequest] at hens
  simp only [TacacsServerAccounting.getRequest, getD_slack, toNat_getD]
  split at hens
  next htype => rw [if_pos htype, hens]
  next htype =>
    rw [if_neg htype]
    split at hens
    next hseq => rw [if_pos hseq, hens]
    next hseq =>
      obtain ⟨hcnt, hens⟩ := hens
      rw [if_neg hseq, argLens_slack k hcnt]
      simp only
      rw [← acctTotal]
      split at hens
      next htotal => rw [if_pos htotal, hens]
      next htotal =>
        obtain ⟨⟨huser, hport, hrem, havps⟩, rfl⟩ := hens
        rw [if_neg htotal, readTexts_slack k huser hport hrem, ← acctAvpOff,
          readAvps_slack k havps, acctRead, text_peer hpeer]

end Tacppd
