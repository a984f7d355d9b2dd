/-
# The access rows of a user

An access row is one place a user may come from: a phone, a NAS, a port and a
time that belong together.  The loop of `db_authentication` sets its flags to
false once, before the first row, so a flag that one row has set counts for all
later rows, and rows are mixed.

`dbAuthentication_rows_iff` says that the verdict is the one of the rows exactly
when no mixture of rows is met that no single row meets.
-/
import Tacppd.Aaa

namespace Tacppd

/-- What a right verdict on the access rows is: some single row permits, and the
order of the rows does not matter. -/
structure RowsSound (md5 : Bytes → Digest) (env : Env) (data : DbUser) (call : AuthenCall) :
    Prop where
  row : dbAuthentication md5 (env.withRecord data) call = true ↔
    ∃ acc ∈ data.acc, acc.permits env call
  order : ∀ rows, rows.Perm data.acc →
    dbAuthentication md5 (env.withRecord { data with acc := rows }) call =
      dbAuthentication md5 (env.withRecord data) call

/-- Once the secret check has passed, a non-empty list of rows is judged by its
columns. -/
theorem dbAuthentication_eq_columnsMet {md5 : Bytes → Digest} {env : Env} {data : DbUser}
    {call : AuthenCall} (hmay : MayTry env data call)
    (hsec : secretAccepted md5 data call = true) (hne : data.acc ≠ []) :
    dbAuthentication md5 (env.withRecord data) call = true ↔ columnsMet env call data.acc := by
  rw [dbAuthentication_eq_true_iff]
  constructor
  · rintro ⟨-, -, hnil | hcol⟩
    · exact absurd hnil hne
    · exact hcol
  · exact fun hcol => ⟨hmay, hsec, .inr hcol⟩

/-- The verdict of the code does not depend on the order of the rows. -/
theorem dbAuthentication_perm (md5 : Bytes → Digest) (env : Env) (data : DbUser)
    (call : AuthenCall) {rows : List DbUserAcc} (h : rows.Perm data.acc) :
    dbAuthentication md5 (env.withRecord { data with acc := rows }) call =
      dbAuthentication md5 (env.withRecord data) call := by
  have hmay : MayTry env { data with acc := rows } call ↔ MayTry env data call :=
    ⟨fun ⟨h1, h2, h3, h4⟩ => ⟨h1, h2, h3, h4⟩, fun ⟨h1, h2, h3, h4⟩ => ⟨h1, h2, h3, h4⟩⟩
  have hsec : secretAccepted md5 { data with acc := rows } call = secretAccepted md5 data call :=
    rfl
  have hnil : rows = [] ↔ data.acc = [] := by
    constructor
    · rintro rfl
      exact h.nil_eq.symm
    · intro hacc
      exact (hacc ▸ h).eq_nil
  rw [Bool.eq_iff_iff, dbAuthentication_eq_true_iff, dbAuthentication_eq_true_iff, hmay, hsec,
    hnil, columnsMet_perm h]

/-- **Access rows, exactly.**  For every user whose secret check passed and every
non-empty list of rows, the verdict is that of a single row, in every order of the
rows, if and only if some row permits whenever every column is met by some row. -/
theorem dbAuthentication_rows_iff (md5 : Bytes → Digest) (env : Env) (data : DbUser)
    (call : AuthenCall) (hmay : MayTry env data call)
    (hsec : secretAccepted md5 data call = true) (hne : data.acc ≠ []) :
    RowsSound md5 env data call ↔
      (columnsMet env call data.acc → ∃ acc ∈ data.acc, acc.permits env call) := by
  have hcol := dbAuthentication_eq_columnsMet hmay hsec hne
  constructor
  · intro h hmet
    exact h.row.mp (hcol.mpr hmet)
  · intro h
    refine ⟨hcol.trans ⟨h, columnsMet_of_permits⟩, fun rows hperm => ?_⟩
    exact dbAuthentication_perm md5 env data call hperm

/-- A call from the phone `home` through the NAS `office`. -/
def homeOffice : AuthenCall := ⟨str "joe", [], str "home", str "office", [], []⟩

/-- Two rows, and one of them is for the place that the call comes from: the verdict is that of
this row. -/
theorem dbAuthentication_rows_two :
    let data := openUser [] []
      [⟨str "mobile", str "lab", [], []⟩, ⟨str "home", str "office", [], []⟩]
    RowsSound (fun _ => constDigest 0) (searchEnv data) data homeOffice := by
  intro data
  have hmay : MayTry (searchEnv data) data homeOffice :=
    ⟨rfl, by decide, by decide, by decide⟩
  refine (dbAuthentication_rows_iff (fun _ => constDigest 0) (searchEnv data) data homeOffice hmay
    (by decide) (by decide)).mpr fun _ => ?_
  exact ⟨⟨str "home", str "office", [], []⟩, List.mem_cons_of_mem _ (List.mem_singleton.mpr rfl),
    by decide, by decide, by decide, by decide⟩

/-- Two rows, one for the phone and one for the NAS of the call: each place alone
is closed, and the call comes in. -/
theorem dbAuthentication_mixes_rows :
    let data := openUser [] []
      [⟨str "home", str "lab", [], []⟩, ⟨str "mobile", str "office", [], []⟩]
    MayTry (searchEnv data) data homeOffice ∧
      secretAccepted (fun _ => constDigest 0) data homeOffice = true ∧
      ¬ RowsSound (fun _ => constDigest 0) (searchEnv data) data homeOffice := by
  intro data
  have hpass : dbAuthentication (fun _ => constDigest 0) ((searchEnv data).withRecord data)
      homeOffice = true := by decide
  refine ⟨⟨rfl, by decide, by decide, by decide⟩, by decide, fun h => ?_⟩
  obtain ⟨acc, hmem, hphone, hnas, -⟩ := h.row.mp hpass
  rcases List.mem_cons.mp hmem with rfl | hmem
  · exact absurd hnas (by decide)
  · rw [List.mem_singleton] at hmem
    subst hmem
    exact absurd hphone (by decide)

end Tacppd
