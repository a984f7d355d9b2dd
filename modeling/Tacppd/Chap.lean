/-
# CHAP through C strings

A CHAP login sends an id byte, a challenge and a response of 16 bytes, and `cpass` hashes
the id, the stored secret and the challenge.  These are bytes of any value, but `get_start`
and `process` copy them with `strncpy`, and `cpass` copies them and the secret with
`snprintf` into buffers of 50 bytes.

The verdict is right for every hash function if and only if these copies change nothing:
no zero byte and at most 49 bytes in both strings (`cpass_chap_iff`).  What a login hands
over is cut at a zero byte already, and `chap_login_iff` says the same of it.
-/
import Mathlib.Logic.Function.Basic
import Tacppd.Authen
import Tacppd.Secret

namespace Tacppd

/-! ## What CHAP asks for -/

/-- What the NAS sends as the data of its START packet. -/
def chapString (id : UInt8) (challenge : Bytes) (response : Digest) : Bytes :=
  id :: challenge ++ response.bytes

/-- What the response is the hash of. -/
def chapInput (id : UInt8) (secret challenge : Bytes) : Bytes := id :: secret ++ challenge

/-- The right verdict on a CHAP response: yes to the hash of id, secret and challenge, and
no to any other response, unless the NAS sends the secret itself. -/
structure ChapRight (md5 : Bytes → Digest) (secret : Bytes) (id : UInt8) (challenge : Bytes)
    (response : Digest) (verdict : Bool) : Prop where
  accepts : response = md5 (chapInput id secret challenge) → verdict = true
  rejects : response ≠ md5 (chapInput id secret challenge) →
    chapString id challenge response ≠ secret → verdict = false

/-- A string that the buffers of `cpass` hold whole. -/
structure FitsPassword (s : Bytes) : Prop where
  ne_nil : s ≠ []
  noNul : (0 : UInt8) ∉ s
  short : s.length < passwordLen

/-! ## What `cpass` compares -/

/-- The input of the hash, from what the two buffers hold. -/
def hashedChap (pwduser pwdnas : Bytes) : Bytes :=
  pwdnas.take 1 ++ pwduser ++ (pwdnas.drop 1).take (pwdnas.length - 1 - md5Len)

/-- The bytes that are compared with the hash: the last 16 in the buffer. -/
def comparedChap (pwdnas : Bytes) : Bytes :=
  (pwdnas.drop (1 + (pwdnas.length - 1 - md5Len))).take md5Len

theorem cpass_eq_true_iff (md5 : Bytes → Digest) (pwdu pwdn : Bytes) :
    cpass md5 pwdu pwdn = true ↔ pwdu ≠ [] ∧ pwdn ≠ [] ∧
      (pwdu = pwdn ∨ 1 + md5Len ≤ (snprintf passwordLen pwdn).length ∧
        (md5 (hashedChap (snprintf passwordLen pwdu) (snprintf passwordLen pwdn))).bytes =
          comparedChap (snprintf passwordLen pwdn)) := by
  rw [cpass]
  by_cases hempty : pwdu = [] ∨ pwdn = []
  · rw [if_pos hempty]
    rcases hempty with hu | hn
    · simp [hu]
    · simp [hn]
  · obtain ⟨hu, hn⟩ := not_or.mp hempty
    rw [if_neg hempty]
    by_cases heq : pwdu = pwdn
    · simp [heq, hn]
    · rw [if_neg heq]
      by_cases hshort : (snprintf passwordLen pwdn).length < 1 + md5Len
      · rw [if_pos hshort]
        simp [hu, hn, heq, not_le.mpr hshort]
      · rw [if_neg hshort]
        simp only [beq_iff_eq, ne_eq, hu, hn, heq, not_false_eq_true, true_and, false_or,
          not_lt.mp hshort, hashedChap, comparedChap]

section

variable {secret challenge : Bytes} {id : UInt8} {response : Digest}

theorem length_chapString :
    (chapString id challenge response).length = 1 + challenge.length + md5Len := by
  rw [chapString, List.length_append, List.length_cons, response.length_eq]
  omega

theorem snprintf_of_fits {s : Bytes} (h : FitsPassword s) : snprintf passwordLen s = s :=
  snprintf_eq_self h.noNul (Nat.le_sub_one_of_lt h.short)

/-- A string of which the buffer holds every byte fits. -/
theorem fits_of_length_snprintf {s : Bytes} (hne : s ≠ [])
    (h : (snprintf passwordLen s).length = s.length) : FitsPassword s := by
  have hkept : snprintf passwordLen s = s := (isPrefix_snprintf _ s).eq_of_length h
  refine ⟨hne, ?_, ?_⟩
  · intro h0
    rw [← hkept] at h0
    exact zero_not_mem_cstr s (List.mem_of_mem_take h0)
  · rw [← h, snprintf, List.length_take, passwordLen]
    omega

theorem digest_eq_of_bytes {d d' : Digest} (h : d.bytes = d'.bytes) : d = d' := by
  cases d
  cases d'
  congr

/-! ## Strings that fit -/

/-- In a buffer that holds the whole string, the hash is over what CHAP asks for. -/
theorem hashedChap_chapString (pwduser : Bytes) :
    hashedChap pwduser (chapString id challenge response) = chapInput id pwduser challenge := by
  have hlen : (chapString id challenge response).length - 1 - md5Len = challenge.length := by
    rw [length_chapString]
    omega
  rw [hashedChap, hlen, chapString, chapInput]
  simp

theorem comparedChap_chapString :
    comparedChap (chapString id challenge response) = response.bytes := by
  have hlen : 1 + ((chapString id challenge response).length - 1 - md5Len) =
      (id :: challenge).length := by
    rw [length_chapString, List.length_cons]
    omega
  rw [comparedChap, hlen, chapString, List.drop_left, ← response.length_eq, List.take_length]

theorem chapRight_of_fits (md5 : Bytes → Digest) (hsecret : FitsPassword secret)
    (hstring : FitsPassword (chapString id challenge response)) :
    ChapRight md5 secret id challenge response
      (cpass md5 secret (chapString id challenge response)) := by
  have hiff : cpass md5 secret (chapString id challenge response) = true ↔
      secret = chapString id challenge response ∨
        (md5 (chapInput id secret challenge)).bytes = response.bytes := by
    rw [cpass_eq_true_iff, snprintf_of_fits hsecret, snprintf_of_fits hstring,
      hashedChap_chapString, comparedChap_chapString, length_chapString]
    have hlen : 1 + md5Len ≤ 1 + challenge.length + md5Len := by omega
    simp only [ne_eq, hsecret.ne_nil, hstring.ne_nil, not_false_eq_true, hlen, true_and]
  constructor
  · intro hright
    exact hiff.mpr (.inr (congrArg Digest.bytes hright).symm)
  · intro hwrong hne
    rw [Bool.eq_false_iff]
    intro htrue
    rcases hiff.mp htrue with heq | hbytes
    · exact hne heq.symm
    · exact hwrong (digest_eq_of_bytes hbytes).symm

/-! ## Strings that do not -/

/-- Where the hash is over what CHAP asks for, both strings have come whole. -/
theorem fits_of_hashedChap {p : Bytes} (hne : secret ≠ [])
    (hlong : 1 + md5Len ≤ (snprintf passwordLen p).length)
    (hcopy : snprintf passwordLen p = snprintf passwordLen (chapString id challenge response))
    (h : hashedChap (snprintf passwordLen secret) (snprintf passwordLen p) =
      chapInput id secret challenge) :
    FitsPassword secret ∧ FitsPassword (chapString id challenge response) := by
  rw [hcopy] at h hlong
  have hsecret := (isPrefix_snprintf passwordLen secret).length_le
  have hstring := (isPrefix_snprintf passwordLen (chapString id challenge response)).length_le
  -- each copy is at most as long as what is copied, and their lengths add up
  have hlens := congrArg List.length h
  simp only [hashedChap, chapInput, List.length_append, List.length_take, List.length_drop,
    List.length_cons] at hlens
  rw [length_chapString] at hstring
  have hchap : chapString id challenge response ≠ [] := by simp [chapString]
  constructor
  · exact fits_of_length_snprintf hne (by omega)
  · exact fits_of_length_snprintf hchap (by rw [length_chapString]; omega)

/-- A digest other than given bytes. -/
theorem exists_digest_ne (b : Bytes) : ∃ d : Digest, d.bytes ≠ b := by
  by_cases h : (constDigest 0).bytes = b
  · exact ⟨constDigest 1, by rw [← h]; decide⟩
  · exact ⟨constDigest 0, h⟩

/-- With a hash function that tells the input of CHAP from every other one, the right
response comes out only if the strings fit. -/
theorem fits_of_right {p : Bytes}
    (hcopy : snprintf passwordLen p = snprintf passwordLen (chapString id challenge response))
    (h : ∀ md5, ChapRight md5 secret id challenge response (cpass md5 secret p)) :
    p = secret ∨ FitsPassword secret ∧ FitsPassword (chapString id challenge response) := by
  obtain ⟨other, hother⟩ := exists_digest_ne (comparedChap (snprintf passwordLen p))
  let md5 : Bytes → Digest :=
    Function.update (fun _ => other) (chapInput id secret challenge) response
  have hresponse : md5 (chapInput id secret challenge) = response := Function.update_self ..
  have htrue := (h md5).accepts hresponse.symm
  obtain ⟨hne, -, heq | ⟨hlong, hbytes⟩⟩ := (cpass_eq_true_iff ..).mp htrue
  · exact .inl heq.symm
  · right
    apply fits_of_hashedChap hne hlong hcopy
    by_contra hdiff
    have hhash : md5 (hashedChap (snprintf passwordLen secret) (snprintf passwordLen p)) = other :=
      Function.update_of_ne hdiff ..
    apply hother
    rw [← hbytes, hhash]

end

/-! ## The verdict of `cpass` -/

/-- **CHAP verification**: the verdict of `cpass` on id, challenge and response is right,
whatever the hash function, if and only if the buffers hold both strings whole, or the NAS
sends the secret itself. -/
theorem cpass_chap_iff (secret : Bytes) (id : UInt8) (challenge : Bytes) (response : Digest) :
    (∀ md5, ChapRight md5 secret id challenge response
      (cpass md5 secret (chapString id challenge response))) ↔
      chapString id challenge response = secret ∨
        FitsPassword secret ∧ FitsPassword (chapString id challenge response) := by
  constructor
  · exact fits_of_right rfl
  · rintro (heq | ⟨hsecret, hstring⟩) md5
    · have hne : chapString id challenge response ≠ [] := by simp [chapString]
      refine ⟨fun _ => ?_, fun _ h => absurd heq h⟩
      rw [← heq]
      exact cpass_self md5 hne
    · exact chapRight_of_fits md5 hsecret hstring

/-- The id of the first request of a NAS that counts from 0 ends the string before it has
begun. -/
theorem cpass_chap_zero :
    ¬ ∀ (md5 : Bytes → Digest) (secret : Bytes) (id : UInt8) (challenge : Bytes)
      (response : Digest), ChapRight md5 secret id challenge response
        (cpass md5 secret (chapString id challenge response)) := by
  intro h
  have hright := (h (fun _ => constDigest 7) (str "secret") 0 (str "0123456789abcdef")
    (constDigest 7)).accepts rfl
  revert hright
  decide

/-! ## A CHAP login -/

section

variable {md5 : Bytes → Digest} {env : Env} {loginstring pwdstring peer pak : Bytes}
  {a : TacacsServerAuthentication} {hdr : Hdr} {o : AuthenOutcome}

/-- What a CHAP login hands to `db_authentication` is the C string of the data in its
START packet. -/
theorem processStart_chap
    (h : processStart md5 env loginstring pwdstring a peer hdr pak = some o)
    (htype : startType (pak.getD 0 0) (pak.getD 2 0) (pak.getD 3 0) hdr.version =
      some .chapLogin) {call : AuthenCall} {result : Bool} (hcall : o.call = some (call, result)) :
    call.password = startData pak := by
  unfold processStart at h
  split at h
  · contradiction
  · next start hstart =>
    split at h
    · obtain rfl := Option.some.inj h
      contradiction
    · next type hstarted =>
      have hread := getStart_read hstart hstarted
      obtain rfl : type = .chapLogin := Option.some.inj (hread.type_eq.symm.trans htype)
      simp only [reduceCtorEq, or_self, if_false, or_true, true_and] at h
      have hshort := hread.short
      rw [hread.data] at h hshort
      rw [List.take_of_length_le (by rw [dataLen] at hshort; omega)] at h
      split at h
      · obtain rfl := Option.some.inj h
        obtain rfl := congrArg Prod.fst (Option.some.inj hcall)
        rfl
      · obtain rfl := Option.some.inj h
        contradiction

end

/-- The same condition decides what comes of a string that has been cut at its first zero
byte on the way; a stored secret has no zero byte. -/
theorem chap_login_iff {secret : Bytes} (hsecret : (0 : UInt8) ∉ secret) (id : UInt8)
    (challenge : Bytes) (response : Digest) :
    (∀ md5, ChapRight md5 secret id challenge response
      (cpass md5 secret (cstr (chapString id challenge response)))) ↔
      chapString id challenge response = secret ∨
        FitsPassword secret ∧ FitsPassword (chapString id challenge response) := by
  constructor
  · intro h
    have hcopy : snprintf passwordLen (cstr (chapString id challenge response)) =
        snprintf passwordLen (chapString id challenge response) := by
      rw [snprintf, snprintf, cstr_eq_self (zero_not_mem_cstr _)]
    rcases fits_of_right hcopy h with hcut | hfits
    · left
      by_contra hne
      -- the cut string is the secret, so every response is accepted
      obtain ⟨other, hother⟩ := exists_digest_ne response.bytes
      have hfalse := (h fun _ => other).rejects (fun heq => hother (by rw [heq])) hne
      have htrue := (h fun _ => response).accepts rfl
      rw [hcut] at hfalse htrue
      have hnil := eq_nil_of_cpass_eq_false rfl hfalse
      rw [hnil, cpass_nil_left] at htrue
      contradiction
    · exact .inr hfits
  · rintro (heq | ⟨hfits, hstring⟩) md5
    · have hne : secret ≠ [] := by
        rw [← heq]
        simp [chapString]
      refine ⟨fun _ => ?_, fun _ h => absurd heq h⟩
      rw [heq, cstr_eq_self hsecret]
      exact cpass_self md5 hne
    · rw [cstr_eq_self hstring.noNul]
      exact chapRight_of_fits md5 hfits hstring

end Tacppd
