/-
# The sequence numbers of a session

The counter of a session counts the packets exchanged.  It is compared with the byte in
a header as an `int`, so that it never wraps: after 256 packets no further packet can
have the right number.  The invariant is `Numbered`.
-/
import Mathlib.Data.List.Nodup
import Tacppd.Session

namespace Tacppd

/-! ## What is counted -/

/-- The sequence bytes of one step: the packet's, then those of the replies. -/
def stepNumbers (x : Input × Processed) : List UInt8 :=
  x.1.hdr.seqNo :: x.2.replies.map (·.wireHdr.seqNo)

/-- The sequence bytes of the recorded steps, in the order of the packets. -/
def numbers (h : List (Input × Processed)) : List UInt8 := h.flatMap stepNumbers

/-- The number of packets exchanged: those accepted and those sent. -/
def exchanged (h : List (Input × Processed)) : ℕ := h.length + (h.flatMap (·.2.replies)).length

@[simp] theorem numbers_append_singleton (h : List (Input × Processed)) (x : Input × Processed) :
    numbers (h ++ [x]) = numbers h ++ stepNumbers x := by
  simp [numbers]

@[simp] theorem exchanged_append_singleton (h : List (Input × Processed))
    (x : Input × Processed) : exchanged (h ++ [x]) = exchanged h + 1 + x.2.replies.length := by
  simp only [exchanged, List.length_append, List.flatMap_append, List.flatMap_singleton,
    List.length_singleton]
  omega

/-- A session without packets exchanged has no recorded step. -/
theorem exchanged_eq_zero {h : List (Input × Processed)} (h0 : exchanged h = 0) : h = [] := by
  apply List.eq_nil_of_length_eq_zero
  unfold exchanged at h0
  omega

/-- The numbers up to 256, cut to a byte, are different. -/
theorem nodup_bytes {n : ℕ} (hn : n ≤ 256) : ((List.range' 1 n).map UInt8.ofNat).Nodup := by
  apply List.Nodup.map_on _ List.nodup_range'
  intro a ha b hb hab
  have hmod := congrArg UInt8.toNat hab
  rw [UInt8.toNat_ofNat', UInt8.toNat_ofNat'] at hmod
  rw [List.mem_range'_1] at ha hb
  omega

/-! ## The invariant -/

/-- The recorded steps and the counter of the session after them. -/
structure Numbered (h : List (Input × Processed)) (s : TacacsSessionContainer) : Prop where
  count : s.tac.seqNo = exchanged h
  bound : exchanged h ≤ 256
  numbers : numbers h = (List.range' 1 (exchanged h)).map UInt8.ofNat
  below : ∀ x ∈ h, x.1.hdr.seqNo.toNat ≤ exchanged h
  increasing : (h.map (·.1.hdr.seqNo)).Pairwise (· < ·)

section

variable {md5 : Bytes → Digest} {cfg : SessionConfig} {h : List (Input × Processed)}
  {s s' : TacacsSessionContainer} {i : Input} {o : Processed} {r : Reaction}

theorem numbered_init : Numbered [] cfg.new where
  count := rfl
  bound := by simp [exchanged]
  numbers := rfl
  below := by simp
  increasing := List.Pairwise.nil

/-- An accepted packet has the next number. -/
theorem Numbered.next (inv : Numbered h s) (hs : Received md5 cfg s i s' o r) :
    i.hdr.seqNo.toNat = exchanged h + 1 := by
  rw [hs.readable.number, inv.count]

/-- The bytes of a step are the numbers that follow. -/
theorem Numbered.stepNumbers (inv : Numbered h s) (hs : Received md5 cfg s i s' o r) :
    stepNumbers (i, o) =
      (List.range' (exchanged h + 1) (1 + o.replies.length)).map UInt8.ofNat := by
  have hbyte : i.hdr.seqNo = UInt8.ofNat (exchanged h + 1) := by
    rw [← inv.next hs, UInt8.ofNat_toNat]
  rw [Tacppd.stepNumbers, hs.numbers, inv.count, Nat.add_comm 1, List.range'_succ, List.map_cons,
    ← hbyte]

/-- **Every step keeps the numbering.** -/
theorem Numbered.step (inv : Numbered h s) (hs : Received md5 cfg s i s' o r) :
    Numbered (h ++ [(i, o)]) s' := by
  have hnext := inv.next hs
  have hbyte : i.hdr.seqNo.toNat < 256 := i.hdr.seqNo.toNat_lt
  have hreplies := hs.replies
  refine ⟨?_, ?_, ?_, ?_, ?_⟩
  · rw [hs.seqNo, inv.count, exchanged_append_singleton]
  · -- the packet's number is a byte, so that at most the reply is number 256
    rw [exchanged_append_singleton]
    show exchanged h + 1 + o.replies.length ≤ 256
    omega
  · rw [numbers_append_singleton, exchanged_append_singleton, inv.numbers, inv.stepNumbers hs,
      ← List.map_append, Nat.add_comm (exchanged h) 1, List.range'_append_1]
    show _ = (List.range' 1 (1 + exchanged h + o.replies.length)).map UInt8.ofNat
    congr 2
    omega
  · intro x hx
    rw [exchanged_append_singleton]
    rcases List.mem_append.mp hx with hold | hnew
    · have hle := inv.below x hold
      omega
    · obtain rfl := List.mem_singleton.mp hnew
      show i.hdr.seqNo.toNat ≤ exchanged h + 1 + o.replies.length
      omega
  · rw [List.map_append, List.pairwise_append]
    refine ⟨inv.increasing, List.pairwise_singleton .., ?_⟩
    -- what was accepted before was at most the count, and this packet is one above it
    intro a ha b hb
    obtain ⟨x, hx, rfl⟩ := List.mem_map.mp ha
    obtain rfl := List.mem_singleton.mp hb
    have hle := inv.below x hx
    rw [UInt8.lt_iff_toNat_lt]
    show x.1.hdr.seqNo.toNat < i.hdr.seqNo.toNat
    omega

/-- Every run is numbered. -/
theorem numbered (hr : (session md5 cfg).Reaches h s) : Numbered h s := by
  refine hr.invariant _ numbered_init ?_
  intro h s i s' o _ inv hstep
  obtain ⟨r, hs⟩ := receive_ok hstep
  exact inv.step hs

/-! ## The results -/

/-- An authorization request can only be the first packet of a session, so that its
handler is a new one. -/
theorem request_first {pak : Bytes} {req : AuthorRequest} (hr : (session md5 cfg).Reaches h s)
    (hnum : Readable (s.tac.seqNo + 1) i)
    (hreq : TacacsServerAuthorization.getRequest i.hdr pak = some (some req)) :
    s = cfg.new := by
  -- the request is read in packet 1 only, and before that nothing was exchanged
  have hone : i.hdr.seqNo = 1 := by
    by_contra hne
    unfold TacacsServerAuthorization.getRequest at hreq
    simp only [hne, not_false_eq_true, ne_eq, if_true] at hreq
    split at hreq <;> simp at hreq
  have hseq : s.tac.seqNo = 0 := by
    have hnumber := hnum.number
    rw [hone] at hnumber
    exact (Nat.succ.inj hnumber).symm
  have hcount := (numbered hr).count
  rw [hseq] at hcount
  obtain rfl := exchanged_eq_zero hcount.symm
  exact hr.eq_init

end

/-- **Sequence numbers.**  In every run of a session, whatever the peer sends: an
accepted packet carries the number of packets exchanged before it plus one and is
answered at most once, the accepted numbers strictly increase, and no two packets of
the session, accepted or sent, carry the same byte. -/
theorem session_numbers (md5 : Bytes → Digest) (cfg : SessionConfig) (as : List Input) :
    let h := (session md5 cfg).history as
    (∀ pre x post, h = pre ++ x :: post →
      x.1.hdr.seqNo.toNat = exchanged pre + 1 ∧ x.2.replies.length ≤ 1) ∧
    (h.map (·.1.hdr.seqNo)).Pairwise (· < ·) ∧ (numbers h).Nodup := by
  intro h
  have hr : (session md5 cfg).Reaches h _ := Machine.reaches_history _ as
  have inv := numbered hr
  refine ⟨?_, inv.increasing, ?_⟩
  · intro pre x post hh
    rw [hh] at hr
    obtain ⟨s₁, s₂, hpre, hstep⟩ := hr.of_append
    obtain ⟨r, hs⟩ := receive_ok hstep
    exact ⟨(numbered hpre).next hs, hs.replies⟩
  · rw [inv.numbers]
    exact nodup_bytes inv.bound

/-- The login of one user: packet 1 is answered by packet 2. -/
theorem session_numbers_bob :
    (bobLogin.hdr.seqNo.toNat = 0 + 1 ∧ bobPassed.replies.length ≤ 1) ∧
      (numbers [(bobLogin, bobPassed)]).Nodup := by
  have h := session_numbers (fun _ => constDigest 0) clearSession [bobLogin]
  rw [history_bobLogin] at h
  exact ⟨h.1 [] (bobLogin, bobPassed) [] rfl, h.2.2⟩

end Tacppd
