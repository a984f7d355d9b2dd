/-
# Admission and periodic disconnection

The time policy of a user is written twice: `db_authentication` asks it when the user
comes in, and `match_time` asks it of every tracked entry from time to time, to drop the
users whose time is over.  Here is exactly when a user who has just been let in is not
dropped.
-/
import Tacppd.Track

namespace Tacppd

/-! ## The functions of the source -/

/-- `utl::check_time`: a short entry fits any time. -/
def World.fitsTime (w : World) (entry : Bytes) : Bool :=
  decide (entry.length < 3) || w.checkTime entry

/-- `DeviceUser_data::match_time(t)` of an entry of this user; the record is looked up in
the billing store. -/
def UserTrack.matchTime (s : UserTrack) (w : World) (t : ℤ) (username : Bytes) : Bool :=
  let ddata := (s.billing.getUd username).data
  if !ddata.result then true
  else if t < ddata.openTime ∨ (ddata.closeTime < t ∧ 100 < ddata.closeTime) then false
  else ddata.acc.any fun acc => w.fitsTime acc.time

/-! ## The record behind both -/

namespace UserTrack

variable {s : UserTrack} {w : World} {u nas p t : Bytes}

/-- A record found by a look-up goes by the name that was asked for. -/
theorem lookUp_username (h : (s.lookUp w u).1.data.result = true) :
    (s.lookUp w u).1.username = u := by
  unfold lookUp at h ⊢
  simp only at h ⊢
  split at h
  · next hp =>
    rw [if_pos hp]
    simp only [dbcGet] at h ⊢
    cases hfind : (dbcPresent w.now u s.dbec).2.find?
        (fun x => decide (x.entry.username = u)) with
    | none =>
      rw [hfind] at h
      contradiction
    | some x =>
      have hname := List.find?_some hfind
      exact of_decide_eq_true hname
  · next hp =>
    rw [if_neg hp]
    simp only [World.get] at h ⊢
    by_cases hu : u = []
    · rw [if_pos hu] at h
      contradiction
    · rw [if_neg hu] at h ⊢
      by_cases hres : (w.db u).result = true
      · rw [if_pos hres]
      · rw [if_neg hres] at h
        exact absurd h hres

/-- The destructors make no record appear. -/
theorem getUd_foldl_delUd {b : CoreBilling} (h : (b.getUd u).data.result = false)
    (gone : List DeviceUserData) :
    ((gone.foldl (fun b e => b.delUd e.username) b).getUd u).data.result = false := by
  induction gone generalizing b with
  | nil => exact h
  | cons e gone ih =>
    apply ih
    rcases b.getUd_delUd e.username u with hsame | hnew
    · rw [hsame]
      exact h
    · rw [hnew]
      rfl

/-- **The record that is stored is the one that was found**: after a successful look-up
the billing store has this record for the user, or none that counts. -/
theorem get2add_getUd (hfound : (s.get2add w u nas p t).1.data.result = true)
    (hstored : ((s.get2add w u nas p t).2.billing.getUd u).data.result = true) :
    (s.get2add w u nas p t).2.billing.getUd u = (s.get2add w u nas p t).1 := by
  rcases s.get2add_cases w u nas p t with ⟨hres, hget⟩ | ⟨-, hno, hget⟩ | ⟨hres, hyes, hget⟩
  · -- the store had the record, and it only counts it
    rw [hget]
    show (s.usrAdd w.now nas u p t (s.billing.getUd u)).billing.getUd u = s.billing.getUd u
    unfold usrAdd
    split
    · rfl
    · show (s.billing.addUd (s.billing.getUd u)).getUd u = _
      rw [CoreBilling.getUd_addUd, if_neg]
      rw [s.billing.find_isSome_of_result hres]
      simp
  · rw [hget, hno] at hfound
    contradiction
  · rw [hget] at hstored ⊢
    have hname := lookUp_username hyes
    -- nothing that counts was stored before the new entry
    have hbefore : ((UserTrack.usrDel { s with dbec := (s.lookUp w u).2 } nas p).2.billing.getUd
        u).data.result = false := getUd_foldl_delUd hres _
    unfold usrAdd at hstored ⊢
    simp only at hstored ⊢
    split at hstored
    · rw [hbefore] at hstored
      contradiction
    · next hadd =>
      rw [if_neg hadd]
      simp only [CoreBilling.getUd_addUd] at hstored ⊢
      split at hstored
      · next hnew => rw [if_pos hnew]
      · rw [hbefore] at hstored
        contradiction

end UserTrack

/-! ## The two policies -/

/-- **Admission and disconnection.**  For every state of the tracking system and every
call: if the call is let in, `match_time` of the user's entry is true at this time, unless
the user has no access rows at all, everything else lets the call in, and the look-up has
left the record in the billing store. -/
theorem track_admission_iff (md5 : Bytes → Digest) (s : UserTrack) (w : World)
    (call : AuthenCall) :
    let found := s.get2add w call.user call.nas call.port call.remAddr
    let after := s.run md5 w (.authenticate call)
    (after.1 = true → after.2.matchTime w w.now call.user = true) ↔
      ¬ (found.1.data.acc = [] ∧ MayTry (s.env w call) found.1.data call ∧
        secretAccepted md5 found.1.data call = true ∧
        (found.2.billing.getUd call.user).data.result = true) := by
  intro found after
  have hdecide : after.1 = true ↔ MayTry (s.env w call) found.1.data call ∧
      secretAccepted md5 found.1.data call = true ∧
      (found.1.data.acc = [] ∨ columnsMet (s.env w call) call found.1.data.acc) := by
    show dbAuthentication md5 (s.env w call) call = true ↔ _
    rw [← dbAuthentication_withRecord]
    exact dbAuthentication_eq_true_iff md5 (s.env w call) found.1.data call
  cases hstored : (found.2.billing.getUd call.user).data.result with
  | false =>
    -- without a record the entry fits
    refine iff_of_true (fun _ => ?_) (by simp)
    show UserTrack.matchTime found.2 w w.now call.user = true
    simp [UserTrack.matchTime, hstored]
  | true =>
    have hmatch : ∀ hmay : MayTry (s.env w call) found.1.data call,
        after.2.matchTime w w.now call.user =
          found.1.data.acc.any fun acc => w.fitsTime acc.time := by
      intro hmay
      have hrecord : found.2.billing.getUd call.user = found.1 :=
        UserTrack.get2add_getUd hmay.found hstored
      have hopen : ¬ (w.now < found.1.data.openTime ∨
          (found.1.data.closeTime < w.now ∧ 100 < found.1.data.closeTime)) := by
        have hopened : found.1.data.openTime ≤ w.now := hmay.opened
        have hclosed : w.now ≤ found.1.data.closeTime ∨ found.1.data.closeTime ≤ 100 :=
          hmay.notClosed
        omega
      show UserTrack.matchTime found.2 w w.now call.user = _
      rw [UserTrack.matchTime, hrecord, hmay.found, if_neg (by simp), if_neg hopen]
    constructor
    · rintro hfits ⟨hnil, hmay, hsec, -⟩
      have htrue := hfits (hdecide.mpr ⟨hmay, hsec, .inl hnil⟩)
      rw [hmatch hmay, hnil] at htrue
      contradiction
    · intro hnot haccepted
      obtain ⟨hmay, hsec, hrows⟩ := hdecide.mp haccepted
      rw [hmatch hmay]
      rcases hrows with hnil | ⟨-, -, -, acc, hacc, htime⟩
      · exact absurd ⟨hnil, hmay, hsec, rfl⟩ hnot
      · -- the row that met the time column fits here as well
        rw [List.any_eq_true]
        refine ⟨acc, hacc, ?_⟩
        rw [DbUserAcc.timeOk, Bool.or_eq_true] at htime
        rw [World.fitsTime, Bool.or_eq_true]
        rcases htime with hempty | hcheck
        · left
          rw [of_decide_eq_true hempty]
          rfl
        · exact .inr hcheck

/-- A user without access rows is let in and would be dropped at once. -/
theorem track_admission_no_rows :
    ¬ ∀ (md5 : Bytes → Digest) (h : List ((World × TrackOp) × Bool)) (s : UserTrack) (w : World)
      (call : AuthenCall), (tracking md5).Reaches h s →
        (s.run md5 w (.authenticate call)).1 = true →
          (s.run md5 w (.authenticate call)).2.matchTime w w.now call.user = true := by
  intro hclaim
  have htrue := hclaim (fun _ => constDigest 0) _ _ openWorld
    ⟨str "ann", nullPassword, [], str "10.0.0.1", str "As1", []⟩
    (Machine.reaches_history _ (openRun [.device (str "10.0.0.1")])) (by decide)
  exact absurd htrue (by decide)

end Tacppd
