/-
# The secret check of `db_authentication`

A user comes in only with a verified secret, or without one where the record says
`nopwd`: this is what the chain over `authsrc` is for.  Two of its branches miss
it.  The cryptocard branches are empty, so they let everybody in, and the branch
of clear text passwords compares with `!=` where `cpass` first refuses the empty
string, so that two empty enable strings count as a right secret.

`secretSound_iff` says on which records and calls this shows.
-/
import Tacppd.Aaa

namespace Tacppd

/-! ## What a secret check is for -/

/-- The supplied password or the supplied enable string verifies against the
stored one: equal, or a right CHAP response, and none of the two empty. -/
def Verified (md5 : Bytes → Digest) (data : DbUser) (call : AuthenCall) : Prop :=
  cpass md5 data.password call.password = true ∨ cpass md5 data.enable call.enable = true

/-- The call is the nopassword probe. -/
def AuthenCall.IsProbe (call : AuthenCall) : Prop :=
  call.password = nullPassword ∧ call.enable = []

/-- What a right verdict on a secret is: a verified secret or a `nopwd` record; the
probe for `nopwd` records only; and with both enable strings empty a clear text
password must be the stored one. -/
structure SecretSound (md5 : Bytes → Digest) (data : DbUser) (call : AuthenCall)
    (verdict : Bool) : Prop where
  verified : verdict = true → scompNum data.authsrc (str "nopwd") 5 = true ∨
    Verified md5 data call
  probe : verdict = true → call.IsProbe → scompNum data.authsrc (str "nopwd") 5 = true
  clearText : verdict = true → scompNum data.authsrc (str "cpwd") 4 = true →
    data.enable = [] → call.enable = [] → call.password = data.password

/-- The records and calls on which the chain over `authsrc` misses it. -/
inductive SecretHole (md5 : Bytes → Digest) (data : DbUser) (call : AuthenCall) : Prop
  /-- No check at all for the cryptocard sources. -/
  | cryptocard : scompNum data.authsrc (str "ccf") 3 = true ∨
      scompNum data.authsrc (str "ccd") 3 = true →
      ¬ Verified md5 data call ∨ call.IsProbe → SecretHole md5 data call
  /-- Two empty enable strings pass for a right secret. -/
  | enables : scompNum data.authsrc (str "cpwd") 4 = true → data.enable = [] →
      call.enable = [] → data.password ≠ call.password → SecretHole md5 data call
  /-- And so do two empty passwords. -/
  | passwords : scompNum data.authsrc (str "cpwd") 4 = true → data.password = [] →
      call.password = [] → cpass md5 data.enable call.enable = false → SecretHole md5 data call
  /-- The text of the probe is the stored password. -/
  | probe : scompNum data.authsrc (str "cpwd") 4 = true → call.IsProbe →
      data.password = nullPassword → SecretHole md5 data call

/-! ## The sources exclude each other -/

/-- A string does not start with two texts that differ where both have a byte. -/
theorem scompNum_clash {s t t' : Bytes} {n n' : ℕ} (h : scompNum s t n = true)
    (hne : t.take (min n n') ≠ t'.take (min n n')) : scompNum s t' n' = false := by
  rw [Bool.eq_false_iff]
  intro h'
  simp only [scompNum, Bool.and_eq_true, beq_iff_eq] at h h'
  refine hne ?_
  calc t.take (min n n')
      = (t.take n).take n' := by rw [List.take_take, Nat.min_comm]
    _ = (s.take n).take n' := by rw [h.2]
    _ = (s.take n').take n := by rw [List.take_take, List.take_take, Nat.min_comm]
    _ = (t'.take n').take n := by rw [h'.2]
    _ = t'.take (min n n') := by rw [List.take_take]

/-! ## The comparisons -/

theorem cpass_self (md5 : Bytes → Digest) {p : Bytes} (h : p ≠ []) : cpass md5 p p = true := by
  simp [cpass, h]

theorem eq_nil_of_cpass_eq_false {md5 : Bytes → Digest} {p q : Bytes} (heq : p = q)
    (h : cpass md5 p q = false) : q = [] := by
  by_contra hne
  rw [heq, cpass_self md5 hne] at h
  contradiction

theorem cpass_nil_left (md5 : Bytes → Digest) (p : Bytes) : cpass md5 [] p = false := by
  simp [cpass]

/-! ## The branches of the chain -/

section

variable {md5 : Bytes → Digest} {data : DbUser} {call : AuthenCall}

/-- The branch of the source `db` is sound as it stands. -/
theorem secretSound_db (hsrc : scompNum data.authsrc (str "db") 2 = true) :
    SecretSound md5 data call (secretAccepted md5 data call) ∧ ¬ SecretHole md5 data call := by
  have hcpwd : scompNum data.authsrc (str "cpwd") 4 = false := scompNum_clash hsrc (by decide)
  have hccf : scompNum data.authsrc (str "ccf") 3 = false := scompNum_clash hsrc (by decide)
  have hccd : scompNum data.authsrc (str "ccd") 3 = false := scompNum_clash hsrc (by decide)
  have hacc : secretAccepted md5 data call = true →
      call.password ≠ nullPassword ∧ Verified md5 data call := by
    intro h
    rw [secretAccepted, if_pos hsrc] at h
    by_cases hnull : call.password = nullPassword
    · simp [hnull] at h
    · refine ⟨hnull, ?_⟩
      rw [if_neg hnull] at h
      rw [Verified, ← Bool.or_eq_true]
      simpa using h
  refine ⟨⟨fun h => .inr (hacc h).2, fun h hp => absurd hp.1 (hacc h).1, fun _ h => ?_⟩, ?_⟩
  · rw [hcpwd] at h
    contradiction
  · rintro (⟨h | h, -⟩ | ⟨h, -, -, -⟩ | ⟨h, -, -, -⟩ | ⟨h, -, -⟩) <;> simp_all

/-- The clear text branch lets in whoever repeats one of the two stored strings,
the empty one included. -/
theorem secretAccepted_cpwd (hsrc : scompNum data.authsrc (str "cpwd") 4 = true) :
    secretAccepted md5 data call = true ↔
      data.password = call.password ∨ data.enable = call.enable := by
  have hdb : scompNum data.authsrc (str "db") 2 = false := scompNum_clash hsrc (by decide)
  rw [secretAccepted, hdb, if_neg (by decide), if_pos hsrc]
  simp only [ne_eq, Bool.not_eq_true', Bool.and_eq_false_iff, decide_eq_false_iff_not,
    Decidable.not_not]

/-- What is let in by an equal string and does not verify is one of the holes: equal
strings that do not verify are empty. -/
theorem secretHole_of_equal (hsrc : scompNum data.authsrc (str "cpwd") 4 = true)
    (hacc : data.password = call.password ∨ data.enable = call.enable)
    (hver : ¬ Verified md5 data call) : SecretHole md5 data call := by
  rw [Verified, not_or, Bool.not_eq_true, Bool.not_eq_true] at hver
  by_cases hpw : data.password = call.password
  · have hnil := eq_nil_of_cpass_eq_false hpw hver.1
    exact .passwords hsrc (hpw.trans hnil) hnil hver.2
  · have hen := hacc.resolve_left hpw
    have hnil := eq_nil_of_cpass_eq_false hen hver.2
    exact .enables hsrc (hen.trans hnil) hnil hpw

/-- The clear text branch is sound exactly outside its three holes. -/
theorem secretSound_cpwd_iff (hsrc : scompNum data.authsrc (str "cpwd") 4 = true) :
    SecretSound md5 data call (secretAccepted md5 data call) ↔ ¬ SecretHole md5 data call := by
  have hccf : scompNum data.authsrc (str "ccf") 3 = false := scompNum_clash hsrc (by decide)
  have hccd : scompNum data.authsrc (str "ccd") 3 = false := scompNum_clash hsrc (by decide)
  have hnop : scompNum data.authsrc (str "nopwd") 5 = false := scompNum_clash hsrc (by decide)
  have hacc : secretAccepted md5 data call = true ↔
      data.password = call.password ∨ data.enable = call.enable := secretAccepted_cpwd hsrc
  constructor
  · rintro ⟨hver, hprobe, hclear⟩ hhole
    rcases hhole with ⟨h | h, -⟩ | ⟨-, hden, hcen, hpw⟩ | ⟨-, hdp, hcp, hen⟩ | ⟨-, hp, hdp⟩
    · simp_all
    · simp_all
    · exact hpw (hclear (hacc.mpr (.inr (hden.trans hcen.symm))) hsrc hden hcen).symm
    · rcases hver (hacc.mpr (.inl (hdp.trans hcp.symm))) with h | h | h
      · simp_all
      · rw [hdp, cpass_nil_left] at h
        contradiction
      · simp_all
    · have h := hprobe (hacc.mpr (.inl (hdp.trans hp.1.symm))) hp
      simp_all
  · intro hhole
    refine ⟨fun h => .inr ?_, fun h hp => ?_, fun h _ hden hcen => ?_⟩
    · by_contra hver
      exact hhole (secretHole_of_equal hsrc (hacc.mp h) hver)
    · exfalso
      by_cases hpw : data.password = call.password
      · exact hhole (.probe hsrc hp (hpw.trans hp.1))
      · have hen := (hacc.mp h).resolve_left hpw
        exact hhole (.enables hsrc (hen.trans hp.2) hp.2 hpw)
    · by_contra hpw
      exact hhole (.enables hsrc hden hcen fun heq => hpw heq.symm)

/-- The cryptocard branches let everybody in. -/
theorem secretSound_cryptocard_iff (hsrc : scompNum data.authsrc (str "ccf") 3 = true ∨
    scompNum data.authsrc (str "ccd") 3 = true) :
    SecretSound md5 data call (secretAccepted md5 data call) ↔ ¬ SecretHole md5 data call := by
  have hdb : scompNum data.authsrc (str "db") 2 = false :=
    hsrc.elim (scompNum_clash · (by decide)) (scompNum_clash · (by decide))
  have hcpwd : scompNum data.authsrc (str "cpwd") 4 = false :=
    hsrc.elim (scompNum_clash · (by decide)) (scompNum_clash · (by decide))
  have hnop : scompNum data.authsrc (str "nopwd") 5 = false :=
    hsrc.elim (scompNum_clash · (by decide)) (scompNum_clash · (by decide))
  have hacc : secretAccepted md5 data call = true := by
    rw [secretAccepted, hdb, hcpwd]
    rcases hsrc with h | h <;> simp [h]
  constructor
  · rintro ⟨hver, hprobe, -⟩ hhole
    rcases hhole with ⟨-, h | h⟩ | ⟨h, -, -, -⟩ | ⟨h, -, -, -⟩ | ⟨h, -, -⟩
    · rcases hver hacc with hn | hv
      · simp_all
      · exact h hv
    · have hn := hprobe hacc h
      simp_all
    all_goals simp_all
  · intro hhole
    refine ⟨fun _ => .inr ?_, fun _ hp => absurd (.cryptocard hsrc (.inr hp)) hhole,
      fun _ h => ?_⟩
    · by_contra hv
      exact hhole (.cryptocard hsrc (.inl hv))
    · simp_all

/-- The other sources are sound: `nopwd` needs no secret, and an unknown source is
refused. -/
theorem secretSound_other (hdb : scompNum data.authsrc (str "db") 2 = false)
    (hcpwd : scompNum data.authsrc (str "cpwd") 4 = false)
    (hccf : scompNum data.authsrc (str "ccf") 3 = false)
    (hccd : scompNum data.authsrc (str "ccd") 3 = false) :
    SecretSound md5 data call (secretAccepted md5 data call) ∧ ¬ SecretHole md5 data call := by
  have hacc : secretAccepted md5 data call = scompNum data.authsrc (str "nopwd") 5 := by
    simp [secretAccepted, hdb, hcpwd, hccf, hccd]
  refine ⟨⟨fun h => .inl (hacc ▸ h), fun h _ => hacc ▸ h, fun _ h => ?_⟩, ?_⟩
  · rw [hcpwd] at h
    contradiction
  · rintro (⟨h | h, -⟩ | ⟨h, -, -, -⟩ | ⟨h, -, -, -⟩ | ⟨h, -, -⟩) <;> simp_all

/-- The chain over `authsrc` is sound exactly outside the holes. -/
theorem secretSound_iff :
    SecretSound md5 data call (secretAccepted md5 data call) ↔ ¬ SecretHole md5 data call := by
  -- along the chain, which the sources' texts keep apart
  by_cases hdb : scompNum data.authsrc (str "db") 2 = true
  · exact iff_of_true (secretSound_db hdb).1 (secretSound_db hdb).2
  by_cases hcpwd : scompNum data.authsrc (str "cpwd") 4 = true
  · exact secretSound_cpwd_iff hcpwd
  by_cases hccf : scompNum data.authsrc (str "ccf") 3 = true
  · exact secretSound_cryptocard_iff (.inl hccf)
  by_cases hccd : scompNum data.authsrc (str "ccd") 3 = true
  · exact secretSound_cryptocard_iff (.inr hccd)
  rw [Bool.not_eq_true] at hdb hcpwd hccf hccd
  exact iff_of_true (secretSound_other hdb hcpwd hccf hccd).1
    (secretSound_other hdb hcpwd hccf hccd).2

end

/-! ## The verdict of `db_authentication` -/

/-- Everything but the secret lets the caller in. -/
def LetIn (env : Env) (data : DbUser) (call : AuthenCall) : Prop :=
  MayTry env data call ∧ (data.acc = [] ∨ columnsMet env call data.acc)

/-- **Password soundness, exactly.**  For every record, call and server state the
verdict of `db_authentication` is sound if and only if it is not the case that
everything but the secret lets the caller in and the secret check has a hole
there. -/
theorem dbAuthentication_secretSound_iff (md5 : Bytes → Digest) (env : Env) (data : DbUser)
    (call : AuthenCall) :
    SecretSound md5 data call (dbAuthentication md5 (env.withRecord data) call) ↔
      ¬ (LetIn env data call ∧ SecretHole md5 data call) := by
  have hdec := dbAuthentication_eq_true_iff md5 env data call
  by_cases hin : LetIn env data call
  · -- here the verdict is the one of the secret check
    have hverdict : dbAuthentication md5 (env.withRecord data) call
        = secretAccepted md5 data call := by
      rw [Bool.eq_iff_iff, hdec]
      exact ⟨fun h => h.2.1, fun h => ⟨hin.1, h, hin.2⟩⟩
    rw [hverdict, secretSound_iff]
    simp [hin]
  · have hverdict : dbAuthentication md5 (env.withRecord data) call = false := by
      rw [Bool.eq_false_iff, ne_eq, hdec]
      exact fun h => hin ⟨h.1, h.2.2⟩
    rw [hverdict]
    refine iff_of_true ⟨?_, ?_, ?_⟩ fun h => hin h.1 <;> simp

/-- A record with a clear text password, no enable string and no access rows. -/
def clearTextUser : DbUser where
  authsrc := str "cpwd"
  password := str "secret"
  enable := []
  openTime := 0
  closeTime := 0
  maxsess := 0
  avp := []
  cmd := []
  acc := []
  result := true

/-- A wrong password comes in against a clear text record without an enable
string. -/
theorem dbAuthentication_wrong_clearText :
    let md5 := fun _ => constDigest 0
    let call : AuthenCall :=
      ⟨str "joe", str "wrong", str "5551234", str "10.0.0.1", str "tty1", []⟩
    dbAuthentication md5 (quietEnv clearTextUser) call = true ∧
      ¬ Verified md5 clearTextUser call ∧
      ¬ SecretSound md5 clearTextUser call
        (dbAuthentication md5 (quietEnv clearTextUser) call) := by
  intro md5 call
  have hpass : dbAuthentication md5 (quietEnv clearTextUser) call = true := by decide
  have hver : ¬ Verified md5 clearTextUser call := by
    rw [Verified]
    decide
  refine ⟨hpass, hver, fun h => ?_⟩
  rcases h.verified hpass with hnop | h
  · exact absurd hnop (by decide)
  · exact hver h

end Tacppd
