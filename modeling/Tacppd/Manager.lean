/-
# The passwords of the managers

`CoreManager::modify` stores the base64 text of an MD5 hash of the name and the password,
and `User_data::check` compares 15 characters of it with the text for the password that is
entered.  The hash goes into the encoder as a C string, so that a hash with a NUL among
its first ten bytes has a text that is too short to match, and of a longer one the text
shows no more than eleven bytes and two bits.

`check_modify_iff` says for which names and passwords the check is the comparison of the
hashes.
-/
import Tacppd.Base64
import Tacppd.Crypt
import Tacppd.Lib.Keyed

namespace Tacppd

/-! ## The managers -/

/-- `User_data` of the managers. -/
structure ManagerUser where
  username : Bytes
  password : Bytes
  acl : ℤ
  type : Bytes
  deriving DecidableEq, Repr

namespace ManagerUser

variable (md5 : Bytes → Digest)

/-- `create_md5_hash`, with `char username[32]`. -/
def createMd5Hash (x : ManagerUser) (varkey : Bytes) : Digest :=
  md5 (snprintf 31 x.username ++ cstr varkey)

def setPassword (d : Bytes) (x : ManagerUser) : ManagerUser := { x with password := d }

/-- `check`: the two texts agree on `MD5_LEN - 1` characters. -/
def check (x : ManagerUser) (p : Bytes) : Bool :=
  let hash := x.createMd5Hash md5 p
  let ppp := snprintf 63 x.password
  let www := snprintf 63 (base64Encode hash.bytes)
  scompNum ppp www (md5Len - 1)

end ManagerUser

/-- `CoreManager`. -/
structure CoreManager where
  usr : List ManagerUser
  deriving DecidableEq, Repr

namespace CoreManager

variable (md5 : Bytes → Digest)

/-- The user that a loop over the list stops at. -/
def user (c : CoreManager) (u : Bytes) : Option ManagerUser :=
  Keyed.look ManagerUser.username c.usr (cstr u)

def add (u : Bytes) (c : CoreManager) : CoreManager :=
  if (c.user u).isSome then c
  else ⟨c.usr ++ [⟨cstr u, str "nopassword", 0, str "terminal"⟩]⟩

/-- `modify(u, p)`: a user that is not there is added, and the function starts again. -/
def modifyLoop (u p : Bytes) : ℕ → CoreManager → Option CoreManager
  | 0, _ => none
  | fuel + 1, c =>
    if (c.user u).isSome then
      some ⟨Keyed.alter ManagerUser.username (cstr u)
        (fun tmp => tmp.setPassword (base64Encode (tmp.createMd5Hash md5 p).bytes)) c.usr⟩
    else modifyLoop u p fuel (c.add u)

/-- It starts again once at most (`exists_modify`). -/
def modify (u p : Bytes) (c : CoreManager) : Option CoreManager := c.modifyLoop md5 u p 2

/-- After `modify` the user is there, with the text of the hash. -/
theorem exists_modify (u p : Bytes) (c : CoreManager) :
    ∃ c' x, c.modify md5 u p = some c' ∧ c'.user u = some x ∧ x.username = cstr u ∧
      x.password = base64Encode (x.createMd5Hash md5 p).bytes := by
  have hround : ∀ fuel (c : CoreManager), (c.user u).isSome = true →
      ∃ c' x, c.modifyLoop md5 u p (fuel + 1) = some c' ∧ c'.user u = some x ∧
        x.username = cstr u ∧ x.password = base64Encode (x.createMd5Hash md5 p).bytes := by
    intro fuel c hc
    obtain ⟨x, hx⟩ := Option.isSome_iff_exists.mp hc
    rw [modifyLoop, if_pos hc]
    have hname : x.username = cstr u := Keyed.key_of_look hx
    refine ⟨_, x.setPassword (base64Encode (x.createMd5Hash md5 p).bytes), rfl, ?_, hname, rfl⟩
    have hkeep : ∀ tmp : ManagerUser,
        (tmp.setPassword (base64Encode (tmp.createMd5Hash md5 p).bytes)).username =
          tmp.username := fun _ => rfl
    rw [user, Keyed.look_alter hkeep, if_pos rfl, ← user, hx]
    rfl
  -- the second round finds the user that the first one has added
  by_cases hc : (c.user u).isSome = true
  · exact hround 1 c hc
  · have hnew : ((c.add u).user u).isSome = true := by
      rw [add, if_neg hc, user, Keyed.look_concat, if_pos rfl]
      cases Keyed.look ManagerUser.username c.usr (cstr u) <;> rfl
    rw [modify, modifyLoop, if_neg hc]
    exact hround 0 (c.add u) hnew

end CoreManager

/-! ## The text of a hash -/

/-- The hashes as C strings have ten bytes at least and agree on eleven bytes and on two bits
of the next one. -/
def SameText (s s' : Bytes) : Prop :=
  10 ≤ s.length ∧ 10 ≤ s'.length ∧ s.take 11 = s'.take 11 ∧
    s.getD 11 0 >>> 6 = s'.getD 11 0 >>> 6

instance (s s' : Bytes) : Decidable (SameText s s') := inferInstanceAs (Decidable (_ ∧ _))

section

variable {s s' r r' : Bytes} {a a' b b' c c' : UInt8}

/-! ### The bytes behind the characters -/

theorem byte₁_of_chars (h1 : base64Tbl (Sextet.first a) = base64Tbl (Sextet.first a'))
    (h2 : base64Tbl (Sextet.second a b) = base64Tbl (Sextet.second a' b')) : a = a' := by
  rw [base64Tbl_inj (Sextet.first_lt a) (Sextet.first_lt a')] at h1
  rw [base64Tbl_inj (Sextet.second_lt a b) (Sextet.second_lt a' b')] at h2
  rw [← Sextet.byte₁_groups a b, h1, h2, Sextet.byte₁_groups]

theorem byte₂_of_chars (h2 : base64Tbl (Sextet.second a b) = base64Tbl (Sextet.second a' b'))
    (h3 : base64Tbl (Sextet.third b c) = base64Tbl (Sextet.third b' c')) : b = b' := by
  rw [base64Tbl_inj (Sextet.second_lt a b) (Sextet.second_lt a' b')] at h2
  rw [base64Tbl_inj (Sextet.third_lt b c) (Sextet.third_lt b' c')] at h3
  rw [← Sextet.byte₂_groups a b c, h2, h3, Sextet.byte₂_groups]

theorem byte₃_of_chars (h3 : base64Tbl (Sextet.third b c) = base64Tbl (Sextet.third b' c'))
    (h4 : base64Tbl (Sextet.fourth c) = base64Tbl (Sextet.fourth c')) : c = c' := by
  rw [base64Tbl_inj (Sextet.third_lt b c) (Sextet.third_lt b' c')] at h3
  rw [base64Tbl_inj (Sextet.fourth_lt c) (Sextet.fourth_lt c')] at h4
  rw [← Sextet.byte₃_groups b c, h3, h4, Sextet.byte₃_groups]

/-- The third character has two bits of the third byte. -/
theorem bits_of_chars (h3 : base64Tbl (Sextet.third b c) = base64Tbl (Sextet.third b' c')) :
    c >>> 6 = c' >>> 6 := by
  rw [base64Tbl_inj (Sextet.third_lt b c) (Sextet.third_lt b' c')] at h3
  rw [← Sextet.third_and b, h3, Sextet.third_and]

/-! ### The characters -/

/-- Whole groups of the text. -/
theorem drop_base64Groups {k : ℕ} (h : 3 * k ≤ s.length) :
    (base64Groups s).drop (4 * k) = base64Groups (s.drop (3 * k)) := by
  induction k generalizing s with
  | zero => rfl
  | succ k ih =>
    match s, h with
    | a :: b :: c :: s, h =>
      simp only [List.length_cons] at h
      rw [base64Groups, Nat.mul_succ, Nat.mul_succ]
      exact ih (by omega)

theorem take_base64Groups_iff {k : ℕ} (h : 3 * k ≤ s.length) (h' : 3 * k ≤ s'.length) :
    (base64Groups s).take (4 * k) = (base64Groups s').take (4 * k) ↔
      s.take (3 * k) = s'.take (3 * k) := by
  induction k generalizing s s' with
  | zero => simp
  | succ k ih =>
    match s, s', h, h' with
    | a :: b :: c :: s, a' :: b' :: c' :: s', h, h' =>
      simp only [List.length_cons] at h h'
      have hrest := @ih s s' (by omega) (by omega)
      rw [base64Groups, base64Groups, Nat.mul_succ, Nat.mul_succ]
      simp only [List.take_succ_cons, List.cons.injEq, hrest]
      constructor
      · rintro ⟨h1, h2, h3, h4, htake⟩
        obtain rfl := byte₁_of_chars h1 h2
        obtain rfl := byte₂_of_chars h2 h3
        obtain rfl := byte₃_of_chars h3 h4
        exact ⟨rfl, rfl, rfl, htake⟩
      · rintro ⟨rfl, rfl, rfl, htake⟩
        exact ⟨rfl, rfl, rfl, rfl, htake⟩

/-- Three characters of the group after them. -/
theorem take_base64Groups_tail :
    (base64Groups (a :: r)).take 3 = (base64Groups (a' :: r')).take 3 ↔
      a = a' ∧ r.take 1 = r'.take 1 ∧ r.getD 1 0 >>> 6 = r'.getD 1 0 >>> 6 := by
  have hpad : ∀ {x : UInt8}, x.toNat < 64 → base64Tbl x ≠ base64Pad :=
    fun hx => (base64Tbl_spec hx).2.2.1
  have hthree : ∀ (a b : UInt8) (r : Bytes), (base64Groups (a :: b :: r)).take 3 =
      [base64Tbl (Sextet.first a), base64Tbl (Sextet.second a b),
        base64Tbl (Sextet.third b (r.getD 0 0))] := by
    intro a b r
    cases r <;> rfl
  have htwo : ∀ a : UInt8, (base64Groups [a]).take 3 =
      [base64Tbl (Sextet.first a), base64Tbl (Sextet.second a 0), base64Pad] := fun _ => rfl
  -- a pad stands for the second byte only where there is none
  rcases r with _ | ⟨b, r⟩
  · rcases r' with _ | ⟨b', r'⟩
    · rw [htwo, htwo]
      constructor
      · intro h
        simp only [List.cons.injEq] at h
        exact ⟨byte₁_of_chars h.1 h.2.1, rfl, rfl⟩
      · rintro ⟨rfl, -, -⟩
        rfl
    · have hne := hpad (Sextet.third_lt b' (r'.getD 0 0))
      rw [htwo, hthree]
      refine iff_of_false (fun h => ?_) fun h => absurd h.2.1 (by simp)
      simp only [List.cons.injEq] at h
      exact hne h.2.2.1.symm
  · rcases r' with _ | ⟨b', r'⟩
    · have hne := hpad (Sextet.third_lt b (r.getD 0 0))
      rw [htwo, hthree]
      refine iff_of_false (fun h => ?_) fun h => absurd h.2.1 (by simp)
      simp only [List.cons.injEq] at h
      exact hne h.2.2.1
    · rw [hthree, hthree]
      constructor
      · intro h
        simp only [List.cons.injEq, and_true] at h
        obtain ⟨h1, h2, h3⟩ := h
        obtain rfl := byte₁_of_chars h1 h2
        obtain rfl := byte₂_of_chars h2 h3
        refine ⟨rfl, rfl, ?_⟩
        rw [List.getD_cons_succ, List.getD_cons_succ]
        exact bits_of_chars h3
      · rintro ⟨rfl, hb, hbits⟩
        obtain rfl : b = b' := by simpa using hb
        rw [List.getD_cons_succ, List.getD_cons_succ] at hbits
        simp only [Sextet.third, hbits]

/-- Two beginnings are equal when they are part by part. -/
theorem take_add_inj {i : ℕ} (j : ℕ) (h : i ≤ s.length) (h' : i ≤ s'.length) :
    s.take (i + j) = s'.take (i + j) ↔
      s.take i = s'.take i ∧ (s.drop i).take j = (s'.drop i).take j := by
  have hlen : (s.take i).length = (s'.take i).length := by
    rw [List.length_take, List.length_take]
    omega
  rw [List.take_add, List.take_add]
  constructor
  · exact fun heq => List.append_inj heq hlen
  · rintro ⟨h1, h2⟩
    rw [h1, h2]

/-- **What the comparison of two texts shows.** -/
theorem scompNum_base64Groups :
    scompNum (base64Groups s) (base64Groups s') 15 = true ↔ SameText s s' := by
  have hlen := length_base64Groups s
  have hlen' := length_base64Groups s'
  simp only [scompNum, Bool.and_eq_true, Bool.not_eq_true', Bool.or_eq_false_iff,
    decide_eq_false_iff_not, beq_iff_eq, SameText]
  by_cases hs : 10 ≤ s.length
  · by_cases hs' : 10 ≤ s'.length
    · have htail : ∀ t : Bytes, 10 ≤ t.length → ∃ a r, t.drop 9 = a :: r ∧
          t.getD 11 0 = r.getD 1 0 := by
        intro t ht
        obtain ⟨a, r, har⟩ := List.exists_cons_of_length_pos (show 0 < (t.drop 9).length by
          rw [List.length_drop]; omega)
        refine ⟨a, r, har, ?_⟩
        have hdrop : (t.drop 9).getD 2 0 = t.getD 11 0 := by
          simp [List.getD_eq_getElem?_getD, List.getElem?_drop]
        rw [← hdrop, har, List.getD_cons_succ]
      obtain ⟨a, r, har, hbyte⟩ := htail s hs
      obtain ⟨a', r', har', hbyte'⟩ := htail s' hs'
      -- three whole groups, and three characters of the next one
      have htext : (base64Groups s).take 15 = (base64Groups s').take 15 ↔
          s.take 9 = s'.take 9 ∧ a = a' ∧ r.take 1 = r'.take 1 ∧
            r.getD 1 0 >>> 6 = r'.getD 1 0 >>> 6 := by
        have hsplit := @take_add_inj (base64Groups s) (base64Groups s') 12 3 (by omega) (by omega)
        have hgroups := @take_base64Groups_iff s s' 3 (by omega) (by omega)
        have hdrop := @drop_base64Groups s 3 (by omega)
        have hdrop' := @drop_base64Groups s' 3 (by omega)
        rw [← take_base64Groups_tail, ← har, ← har', ← hdrop, ← hdrop', ← hgroups]
        exact hsplit
      have hbytes : s.take 11 = s'.take 11 ↔
          s.take 9 = s'.take 9 ∧ a = a' ∧ r.take 1 = r'.take 1 := by
        have hsplit := @take_add_inj s s' 9 2 (by omega) (by omega)
        rw [har, har', List.take_succ_cons, List.take_succ_cons, List.cons.injEq] at hsplit
        exact hsplit
      rw [htext, hbytes, hbyte, hbyte']
      constructor
      · rintro ⟨-, h9, ha, hr, hbits⟩
        exact ⟨hs, hs', ⟨h9, ha, hr⟩, hbits⟩
      · rintro ⟨-, -, ⟨h9, ha, hr⟩, hbits⟩
        exact ⟨⟨by omega, by omega⟩, h9, ha, hr, hbits⟩
    · exact iff_of_false (fun h => by omega) fun h => hs' h.2.1
  · exact iff_of_false (fun h => by omega) fun h => hs h.1

end

/-! ## The check -/

section

variable (md5 : Bytes → Digest)

/-- The hash that the code takes for a name and a password, with the name cut to 30
bytes. -/
def managerHash (u p : Bytes) : Bytes := cstr (md5 (snprintf 31 (cstr u) ++ cstr p)).bytes

/-- **The check after a password is stored**: the texts of the hashes are compared. -/
theorem check_modify (u p q : Bytes) (c : CoreManager) :
    ∃ c' x, c.modify md5 u p = some c' ∧ c'.user u = some x ∧
      (x.check md5 q = true ↔ SameText (managerHash md5 u p) (managerHash md5 u q)) := by
  obtain ⟨c', x, hc', hx, hname, hpassword⟩ := c.exists_modify md5 u p
  refine ⟨c', x, hc', hx, ?_⟩
  have htext : ∀ r, snprintf 63 (base64Encode (x.createMd5Hash md5 r).bytes) =
      base64Groups (managerHash md5 u r) := by
    intro r
    have hhash : cstr (x.createMd5Hash md5 r).bytes = managerHash md5 u r := by
      rw [ManagerUser.createMd5Hash, hname, managerHash]
    have h0 := zero_not_mem_cstr (x.createMd5Hash md5 r).bytes
    have hle := length_cstr_le (x.createMd5Hash md5 r).bytes
    rw [(x.createMd5Hash md5 r).length_eq, md5Len] at hle
    have hcstr : base64Encode (x.createMd5Hash md5 r).bytes =
        base64Encode (cstr (x.createMd5Hash md5 r).bytes) := by
      rw [base64Encode, base64Encode, snprintf, snprintf, cstr_eq_self h0]
    have hlen := length_base64Groups (cstr (x.createMd5Hash md5 r).bytes)
    rw [hcstr, base64Encode_eq h0 (by omega),
      snprintf_eq_self (zero_not_mem_base64Groups _) (by omega), hhash]
  rw [ManagerUser.check, hpassword, htext, htext]
  exact scompNum_base64Groups

/-- The names, passwords and entered texts for which the check compares the hashes of the
whole name: where these are equal the texts show it, and where they are not the texts
differ. -/
def PasswordOk (u p q : Bytes) : Prop :=
  if (md5 (cstr u ++ cstr q)).bytes = (md5 (cstr u ++ cstr p)).bytes then
    SameText (managerHash md5 u p) (managerHash md5 u q)
  else ¬ SameText (managerHash md5 u p) (managerHash md5 u q)

/-- **The check compares the hashes** exactly for these; and the password that was stored
passes exactly when its hash has no NUL among its first ten bytes. -/
theorem check_modify_iff (u p q : Bytes) (c : CoreManager) :
    ∃ c' x, c.modify md5 u p = some c' ∧ c'.user u = some x ∧
      ((x.check md5 q = true ↔
        (md5 (cstr u ++ cstr q)).bytes = (md5 (cstr u ++ cstr p)).bytes) ↔
          PasswordOk md5 u p q) ∧
      (x.check md5 p = true ↔ 10 ≤ (managerHash md5 u p).length) := by
  obtain ⟨c', x, hc', hx, hq⟩ := check_modify md5 u p q c
  obtain ⟨c'', x', hc'', hx', hp⟩ := check_modify md5 u p p c
  obtain rfl := Option.some.inj (hc'.symm.trans hc'')
  obtain rfl := Option.some.inj (hx.symm.trans hx')
  refine ⟨c', x, hc', hx, ?_, ?_⟩
  · rw [hq, PasswordOk]
    split
    · next heq => simp [heq]
    · next hne => simp [hne]
  · rw [hp, SameText]
    exact ⟨fun h => h.1, fun h => ⟨h, h, rfl, rfl⟩⟩

end

/-- A manager whose hash begins with a NUL is locked out. -/
theorem check_modify_locked :
    ¬ (∀ (md5 : Bytes → Digest) (u p q : Bytes) (c c' : CoreManager) (x : ManagerUser), p ≠ [] →
      c.modify md5 u p = some c' → c'.user u = some x →
        (x.check md5 q = true ↔
          (md5 (cstr u ++ cstr q)).bytes = (md5 (cstr u ++ cstr p)).bytes)) := by
  intro hall
  obtain ⟨c', x, hc', hx, -, hp⟩ :=
    check_modify_iff (fun _ => constDigest 0) (str "root") (str "secret") [] ⟨[]⟩
  have hpass := (hall _ _ _ (str "secret") _ c' x (by decide) hc' hx).mpr rfl
  rw [hp] at hpass
  revert hpass
  decide +kernel

end Tacppd
