/-
# What `add` leaves on a port

`UserTrack::add` on a server where the billing store and the cache have what the database
says (`Agrees`), and where nobody shares a port.  The first entry on a port is then the only
one, and what `add` leaves there is said port by port (`firstOn_add`): the entry of the
user, active when it was there before or when the user can be added, and nothing when the
database does not know the user.
-/
import Tacppd.TrackLimit
import Tacppd.TrackPort
import Tacppd.TrackTime

namespace Tacppd

/-! ## The first entry on a port -/

section

variable {p q u t ua : Bytes} {now : ℤ} {e e' : DeviceUserData} {l l' cusr : List DeviceUserData}

/-- The entries on another port do not count. -/
theorem firstOn_replace (he : e.port ≠ q) (he' : e'.port ≠ q) :
    firstOn q (l ++ e' :: l') = firstOn q (l ++ e :: l') := by
  simp only [firstOn, List.find?_append, List.find?_cons]
  simp [he, he']

theorem firstOn_erase (he : e.port ≠ q) : firstOn q (l ++ l') = firstOn q (l ++ e :: l') := by
  simp only [firstOn, List.find?_append, List.find?_cons]
  simp [he]

theorem firstOn_concat (l : List DeviceUserData) (e : DeviceUserData) :
    firstOn q (l ++ [e]) = (firstOn q l).or (if e.port = q then some e else none) := by
  simp only [firstOn, List.find?_append, List.find?_singleton]
  simp

theorem notOn_of_firstOn (h : firstOn p cusr = none) : NotOn p cusr := by
  intro e he hep
  rw [firstOn, List.find?_eq_none] at h
  exact h e he (decide_eq_true hep)

/-- Where nobody shares a port, an entry is the first on its port. -/
theorem firstOn_eq_some_iff (h : (ports cusr).Nodup) :
    firstOn q cusr = some e ↔ e ∈ cusr ∧ e.port = q := by
  constructor
  · intro hfirst
    rw [firstOn] at hfirst
    exact ⟨List.mem_of_find?_eq_some hfirst, by simpa using List.find?_some hfirst⟩
  · rintro ⟨he, hep⟩
    obtain ⟨l, l', rfl⟩ := List.append_of_mem he
    apply firstOn_append _ hep
    intro x hx hxp
    exact notOn_of_nodup h hep x (List.mem_append_left _ hx) hxp

/-- What `usr_activate` leaves on the ports. -/
theorem firstOn_usrActivate (h : (ports cusr).Nodup) :
    firstOn q (usrActivate now u p t ua cusr).cusr =
      if q = p then
        (firstOn p cusr).bind fun e =>
          if e.username = u then some (e.update now p t ua).setActive else none
      else firstOn q cusr := by
  rcases usrActivate_cases now u p t ua cusr with
    ⟨hnot, hact⟩ | ⟨l, e, l', rfl, hnot, he, hu, hact⟩ | ⟨l, e, l', rfl, hnot, he, hu, hact⟩
  · rw [hact]
    by_cases hq : q = p
    · rw [if_pos hq, hq, firstOn_of_notOn hnot]
      rfl
    · rw [if_neg hq]
  · rw [hact]
    by_cases hq : q = p
    · rw [if_pos hq, hq, firstOn_append hnot he, firstOn_append hnot rfl, Option.bind_some,
        if_pos hu]
    · rw [if_neg hq]
      exact firstOn_replace (fun heq => hq (heq.symm.trans he)) (Ne.symm hq)
  · rw [hact]
    by_cases hq : q = p
    · rw [if_pos hq, hq, firstOn_append hnot he, Option.bind_some, if_neg hu]
      exact firstOn_of_notOn (notOn_of_nodup h he)
    · rw [if_neg hq]
      exact firstOn_erase fun heq => hq (heq.symm.trans he)

/-- Where nobody is on the port, `usr_del` does nothing. -/
theorem usrDel_of_notOn (h : NotOn p cusr) : usrDel p cusr = ⟨false, cusr, []⟩ := by
  rcases usrDel_cases p cusr with ⟨-, hdel⟩ | ⟨l, e, l', rfl, -, he, -⟩
  · exact hdel
  · exact absurd he (h e (by simp))

end

/-! ## A server that has what the database says -/

/-- The cache and the billing store have the answers of the database. -/
structure UserTrack.Agrees (s : UserTrack) (w : World) : Prop where
  cached : ∀ x ∈ s.dbec, ∃ v, x.entry = w.get v
  stored : ∀ u, (s.billing.getUd u).data.result = true → s.billing.getUd u = w.get u

/-- Two moments with the same database. -/
theorem World.get_congr {w w' : World} (h : w.db = w'.db) : w.get = w'.get := by
  funext u
  rw [World.get, World.get, h]

theorem UserTrack.Agrees.congr {s : UserTrack} {w w' : World} (h : s.Agrees w)
    (hdb : w.db = w'.db) : s.Agrees w' := by
  have hget := World.get_congr hdb
  exact ⟨by rw [← hget]; exact h.cached, by rw [← hget]; exact h.stored⟩

/-- A record of the database goes by the name it was asked for. -/
theorem World.get_username {w : World} {u : Bytes} (h : (w.get u).data.result = true) :
    (w.get u).username = u := by
  rw [World.get] at h ⊢
  by_cases hu : u = []
  · rw [if_pos hu] at h
    contradiction
  · rw [if_neg hu] at h ⊢
    by_cases hres : (w.db u).result = true
    · rw [if_pos hres]
    · rw [if_neg hres] at h
      exact absurd h hres

/-- And when there is none, by no name. -/
theorem World.get_username_of_not {w : World} {u : Bytes}
    (h : ¬ (w.get u).data.result = true) : (w.get u).username = [] := by
  rw [World.get] at h ⊢
  by_cases hu : u = []
  · rw [if_pos hu]
    rfl
  · rw [if_neg hu] at h ⊢
    by_cases hres : (w.db u).result = true
    · rw [if_pos hres] at h
      exact absurd hres h
    · rw [if_neg hres]

theorem World.result_nil (w : World) : (w.get []).data.result = false := by
  rw [World.get, if_pos rfl]
  rfl

theorem mem_of_mem_dbcPresent {now : ℤ} {u : Bytes} {dbec : List DbcEntry} {x : DbcEntry}
    (hx : x ∈ (dbcPresent now u dbec).2) : x ∈ dbec := by
  induction dbec with
  | nil => exact hx
  | cons y dbec ih =>
    rw [dbcPresent] at hx
    split at hx
    · exact List.mem_cons_of_mem _ (ih hx)
    · split at hx
      · exact hx
      · rcases List.mem_cons.mp hx with rfl | hx
        · exact List.mem_cons_self ..
        · exact List.mem_cons_of_mem _ (ih hx)

/-- A name that is present is the name of an entry. -/
theorem exists_of_dbcPresent {now : ℤ} {u : Bytes} {dbec : List DbcEntry}
    (h : (dbcPresent now u dbec).1 = true) :
    ∃ x ∈ (dbcPresent now u dbec).2, x.entry.username = u := by
  induction dbec with
  | nil => contradiction
  | cons y dbec ih =>
    rw [dbcPresent] at h ⊢
    split at h
    · next hold =>
      rw [if_pos hold]
      exact ih h
    · next hold =>
      rw [if_neg hold]
      by_cases hy : y.entry.username = u
      · rw [if_pos hy]
        exact ⟨y, List.mem_cons_self .., hy⟩
      · rw [if_neg hy] at h ⊢
        obtain ⟨x, hx, hxu⟩ := ih h
        exact ⟨x, List.mem_cons_of_mem _ hx, hxu⟩

namespace UserTrack

variable {s : UserTrack} {w : World} {u v n c p q t ua : Bytes} {now : ℤ}

/-- What a look-up finds is what the database says, as far as it counts. -/
theorem Agrees.lookUp (h : s.Agrees w) :
    ((s.lookUp w u).1.data.result = true ↔ (w.get u).data.result = true) ∧
      ((s.lookUp w u).1.data.result = true → (s.lookUp w u).1 = w.get u) := by
  unfold UserTrack.lookUp
  simp only
  split
  · -- the cache has an entry that goes by this name
    rw [dbcGet]
    rcases hfind : (dbcPresent w.now u s.dbec).2.find? (fun x => decide (x.entry.username = u))
      with _ | x
    · next hp =>
      exfalso
      obtain ⟨x, hx, hxu⟩ := exists_of_dbcPresent hp
      rw [List.find?_eq_none] at hfind
      exact hfind x hx (decide_eq_true hxu)
    · have hname : x.entry.username = u := by simpa using List.find?_some hfind
      obtain ⟨v, hv⟩ := h.cached x (mem_of_mem_dbcPresent (List.mem_of_find?_eq_some hfind))
      rw [hfind, Option.map_some, Option.getD_some]
      rw [hv] at hname ⊢
      by_cases hres : (w.get v).data.result = true
      · rw [World.get_username hres] at hname
        subst hname
        exact ⟨Iff.rfl, fun _ => rfl⟩
      · rw [World.get_username_of_not hres] at hname
        subst hname
        rw [World.result_nil]
        exact ⟨iff_of_false hres (by simp), fun h => absurd h hres⟩
  · exact ⟨Iff.rfl, fun _ => rfl⟩

/-! ## What stays -/

theorem Agrees.usrAdd (h : s.Agrees w) {d : UserRecord} (hd : d.data.result = true → d = w.get u)
    (hname : d.data.result = true → d.username = u) (hdata : d.data.result = true) :
    (s.usrAdd now n v p t d).Agrees w := by
  unfold UserTrack.usrAdd
  split
  · exact h
  · refine ⟨h.cached, fun x hx => ?_⟩
    show (s.billing.addUd d).getUd x = w.get x
    have hx' : ((s.billing.addUd d).getUd x).data.result = true := hx
    rw [CoreBilling.getUd_addUd] at hx' ⊢
    split at hx'
    · next hnew => rw [if_pos hnew, hd hdata, hnew.2, hname hdata]
    · next hold =>
      rw [if_neg hold]
      exact h.stored x hx'

theorem Agrees.sweep (h : s.Agrees w) (f : List DeviceUserData → Swept) :
    (s.sweep n f).2.Agrees w := by
  refine ⟨h.cached, ?_⟩
  show ∀ u, (((f (s.cusr n)).gone.foldl (fun b e => b.delUd e.username) s.billing).getUd
    u).data.result = true → _
  have hall : ∀ (gone : List DeviceUserData) (b : CoreBilling),
      (∀ u, (b.getUd u).data.result = true → b.getUd u = w.get u) →
      ∀ u, ((gone.foldl (fun b e => b.delUd e.username) b).getUd u).data.result = true →
        (gone.foldl (fun b e => b.delUd e.username) b).getUd u = w.get u := by
    intro gone
    induction gone with
    | nil => exact fun b hb => hb
    | cons e gone ih =>
      intro b hb
      apply ih
      intro u hu
      rcases b.getUd_delUd e.username u with hsame | hnew
      · rw [hsame] at hu ⊢
        exact hb u hu
      · rw [hnew] at hu
        contradiction
  exact hall _ _ h.stored

theorem Agrees.lookedUp (h : s.Agrees w) : Agrees { s with dbec := (s.lookUp w u).2 } w := by
  refine ⟨fun x hx => ?_, h.stored⟩
  have hx' : x ∈ (s.lookUp w u).2 := hx
  unfold UserTrack.lookUp at hx'
  simp only at hx'
  split at hx'
  · exact h.cached x (mem_of_mem_dbcPresent hx')
  · rcases List.mem_append.mp hx' with hx | hx
    · exact h.cached x (mem_of_mem_dbcPresent hx)
    · rw [List.mem_singleton.mp hx]
      exact ⟨u, rfl⟩

theorem Agrees.get2add (h : s.Agrees w) : (s.get2add w u n p t).2.Agrees w := by
  rcases s.get2add_cases w u n p t with ⟨hres, hget⟩ | ⟨-, -, hget⟩ | ⟨-, hres, hget⟩
  · rw [hget]
    have hstored := h.stored u hres
    refine h.usrAdd (u := u) (fun _ => hstored) (fun _ => ?_) hres
    rw [hstored] at hres ⊢
    exact World.get_username hres
  · rw [hget]
    exact h.lookedUp
  · rw [hget]
    have hfound := h.lookUp.2 hres
    refine (h.lookedUp.sweep (Tacppd.usrDel p)).usrAdd (u := u) (fun _ => hfound)
      (fun _ => ?_) hres
    rw [hfound] at hres ⊢
    exact World.get_username hres

theorem Agrees.add (h : s.Agrees w) : (s.add w u n p t ua).2.Agrees w := by
  have hfirst : (s.usrActivate w.now n u p t ua).2.Agrees w := h.sweep _
  have hfound : (s.addFound w u n p t ua).2.Agrees w := hfirst.get2add
  rcases s.add_cases w u n p t ua with ⟨-, hadd⟩ | ⟨-, -, hadd⟩ | ⟨-, -, hadd⟩
  · rw [hadd]
    exact hfirst
  · rw [hadd]
    exact hfound.sweep _
  · rw [hadd]
    exact hfound

theorem known_sweep (s : UserTrack) (n m : Bytes) (f : List DeviceUserData → Swept) :
    (s.sweep n f).2.device.known m = s.device.known m := s.device.known_set n m _

theorem known_add (m : Bytes) :
    (s.add w u n p t ua).2.device.known m = s.device.known m := by
  have hfirst := s.known_sweep n m (Tacppd.usrActivate w.now u p t ua)
  have hfound : (s.addFound w u n p t ua).2.device.known m = s.device.known m :=
    (known_get2add _ w u n p t m).trans hfirst
  rcases s.add_cases w u n p t ua with ⟨-, hadd⟩ | ⟨-, -, hadd⟩ | ⟨-, -, hadd⟩
  · rw [hadd]
    exact hfirst
  · rw [hadd]
    exact (known_sweep _ n m _).trans hfound
  · rw [hadd]
    exact hfound

/-! ## What `add` leaves -/

/-- The entry that `get2add` makes. -/
def newEntry (w : World) (u n p t : Bytes) : DeviceUserData :=
  ⟨u, p, t, false, w.now, n, unknownIp⟩

/-- A look-up on a port where nobody is: it adds an entry for a user in the database. -/
theorem get2add_of_agrees (h : s.Agrees w) (hknown : s.device.known n = true)
    (hnot : NotOn p (s.cusr n)) :
    ((w.get u).data.result = true ∧ (s.get2add w u n p t).1 = w.get u ∧
      ∀ m, (s.get2add w u n p t).2.cusr m =
        if m = n then s.cusr n ++ [newEntry w u n p t] else s.cusr m) ∨
    ((w.get u).data.result = false ∧ (s.get2add w u n p t).1.data.result = false ∧
      ∀ m, (s.get2add w u n p t).2.cusr m = s.cusr m) := by
  have habsent : isPresent u p (s.cusr n) = false := by
    rw [isPresent, List.any_eq_false]
    intro e he
    simp [hnot e he]
  have hnew : ∀ (s' : UserTrack) (d : UserRecord), s'.device.known n = true →
      (∀ m, s'.cusr m = s.cusr m) → ∀ m, (s'.usrAdd w.now n u p t d).cusr m =
        if m = n then s.cusr n ++ [newEntry w u n p t] else s.cusr m := by
    intro s' d hknown' hsame m
    rw [usrAdd_cusr, hsame n, hsame m]
    by_cases hm : m = n
    · rw [if_pos ⟨hm, hknown', habsent⟩, if_pos hm]
      rfl
    · rw [if_neg (fun h => hm h.1), if_neg hm]
  rcases s.get2add_cases w u n p t with ⟨hres, hget⟩ | ⟨-, hres, hget⟩ | ⟨-, hres, hget⟩
  · have hstored := h.stored u hres
    left
    rw [hget]
    rw [hstored] at hres
    exact ⟨hres, hstored, hnew s _ hknown fun _ => rfl⟩
  · right
    rw [hget]
    refine ⟨Bool.eq_false_iff.mpr fun htrue => ?_, hres, fun _ => rfl⟩
    rw [h.lookUp.1.mpr htrue] at hres
    contradiction
  · left
    rw [hget]
    refine ⟨h.lookUp.1.mp hres, h.lookUp.2 hres, hnew _ _ ?_ fun m => ?_⟩
    · exact (known_sweep _ n n _).trans hknown
    · show (sweep _ n _).2.cusr m = _
      rw [sweep_cusr _ n rfl]
      by_cases hm : m = n
      · rw [if_pos hm, hm]
        show (Tacppd.usrDel p (s.cusr n)).cusr = s.cusr n
        rw [usrDel_of_notOn hnot]
      · rw [if_neg hm]
        rfl

/-- What comes on a port in the place of whoever is first on it. -/
def placed (w : World) (u n p t ua : Bytes) (on : Option DeviceUserData) :
    Option DeviceUserData :=
  match on.bind fun e => if e.username = u then some e else none with
  | some e => some (e.update w.now p t ua).setActive
  | none =>
    if (w.get u).data.result then
      if (w.get u).data.openTime ≠ 0 then
        some ((newEntry w u n p t).update w.now p t ua).setActive
      else some (newEntry w u n p t)
    else none

/-- The ports behind a look-up that has added an entry. -/
theorem firstOn_found {s' : UserTrack} (hnot : NotOn p (s.cusr n))
    (hcusr : ∀ m, s'.cusr m = if m = n then s.cusr n ++ [newEntry w u n p t] else s.cusr m)
    (m q : Bytes) :
    firstOn q (s'.cusr m) =
      if m = n ∧ q = p then some (newEntry w u n p t) else firstOn q (s.cusr m) := by
  rw [hcusr]
  by_cases hm : m = n
  · rw [if_pos hm, firstOn_concat]
    by_cases hq : q = p
    · have hport : (newEntry w u n p t).port = q := hq.symm
      rw [if_pos hport, if_pos ⟨hm, hq⟩, hq, firstOn_of_notOn hnot, Option.none_or]
    · have hport : (newEntry w u n p t).port ≠ q := Ne.symm hq
      rw [if_neg hport, if_neg (fun h => hq h.2), Option.or_none, hm]
  · rw [if_neg hm, if_neg fun h => hm h.1]

/-- What `usr_activate` leaves on the ports of all devices. -/
theorem firstOn_activate (hs : s.OnePerPort) (m q : Bytes) :
    firstOn q ((s.usrActivate now n u p t ua).2.cusr m) =
      if m = n ∧ q = p then
        (firstOn p (s.cusr n)).bind fun e =>
          if e.username = u then some (e.update now p t ua).setActive else none
      else firstOn q (s.cusr m) := by
  rw [UserTrack.usrActivate, sweep_cusr _ n rfl]
  by_cases hm : m = n
  · rw [if_pos hm, firstOn_usrActivate (hs n), hm]
    by_cases hq : q = p
    · rw [if_pos hq, if_pos ⟨rfl, hq⟩]
    · rw [if_neg hq, if_neg fun h => hq h.2]
  · rw [if_neg hm, if_neg fun h => hm h.1]

/-- Behind a `usr_activate` without success nobody is on the port. -/
theorem notOn_of_not_activated (hs : s.OnePerPort)
    (hfalse : (s.usrActivate now n u p t ua).1 = false) :
    ((firstOn p (s.cusr n)).bind fun e => if e.username = u then some e else none) = none ∧
      NotOn p ((s.usrActivate now n u p t ua).2.cusr n) := by
  have hnone : ∀ {β : Type} (g : DeviceUserData → β), ((firstOn p (s.cusr n)).bind fun e =>
      if e.username = u then some (g e) else none) = none := by
    intro β g
    rw [Option.bind_eq_none_iff]
    intro e he
    apply if_neg
    intro heu
    have hres : (s.usrActivate now n u p t ua).1 = true := usrActivate_res.mpr ⟨e, he, heu⟩
    rw [hres] at hfalse
    contradiction
  refine ⟨hnone id, notOn_of_firstOn ?_⟩
  rw [firstOn_activate hs, if_pos ⟨rfl, rfl⟩]
  exact hnone _

/-- What `add` leaves on the ports of a server that knows the device. -/
theorem firstOn_add_of_known (hs : s.OnePerPort) (h : s.Agrees w)
    (hknown : s.device.known n = true) (m q : Bytes) :
    firstOn q ((s.add w u n p t ua).2.cusr m) =
      if m = n ∧ q = p then placed w u n p t ua (firstOn p (s.cusr n))
      else firstOn q (s.cusr m) := by
  have hs' := hs.usrActivate w.now n u p t ua
  have h' : (s.usrActivate w.now n u p t ua).2.Agrees w := h.sweep _
  have hknown' : (s.usrActivate w.now n u p t ua).2.device.known n = true :=
    (known_sweep _ n n _).trans hknown
  have helse : ∀ m q, ¬ (m = n ∧ q = p) →
      firstOn q ((s.usrActivate w.now n u p t ua).2.cusr m) = firstOn q (s.cusr m) := by
    intro m q hmq
    rw [firstOn_activate hs, if_neg hmq]
  rcases s.add_cases w u n p t ua with ⟨htrue, hadd⟩ | ⟨hfalse, haddable, hadd⟩ |
    ⟨hfalse, haddable, hadd⟩
  · -- the user is on the port
    obtain ⟨e, he, heu⟩ := usrActivate_res.mp htrue
    rw [hadd, firstOn_activate hs, he]
    simp [placed, heu]
  · obtain ⟨hnone, hnot⟩ := notOn_of_not_activated hs hfalse
    rcases get2add_of_agrees (t := t) h' hknown' hnot with ⟨hfound, heq, hcusr⟩ | ⟨-, hno, -⟩
    · have hs₂ : (s.addFound w u n p t ua).2.OnePerPort :=
        hs'.get2add_iff.mpr fun _ e he hep => absurd hep (hnot e he)
      rw [addFound, heq] at haddable
      have hnew := firstOn_found hnot hcusr n p
      rw [if_pos ⟨rfl, rfl⟩] at hnew
      rw [hadd, firstOn_activate hs₂, addFound, hnew]
      by_cases hmq : m = n ∧ q = p
      · have hname : (newEntry w u n p t).username = u := rfl
        rw [if_pos hmq, if_pos hmq, placed, hnone, Option.bind_some, if_pos hname]
        simp only [hfound, haddable.2, if_true, ne_eq, not_false_eq_true]
      · rw [if_neg hmq, if_neg hmq, firstOn_found hnot hcusr, if_neg hmq, helse m q hmq]
    · exact absurd haddable.1 (by rw [addFound, hno]; simp)
  · obtain ⟨hnone, hnot⟩ := notOn_of_not_activated hs hfalse
    rw [hadd, addFound]
    rcases get2add_of_agrees (t := t) h' hknown' hnot with ⟨hfound, heq, hcusr⟩ | ⟨hfound, -, hcusr⟩
    · rw [addFound, heq] at haddable
      rw [firstOn_found hnot hcusr]
      by_cases hmq : m = n ∧ q = p
      · have hclosed : ¬ (w.get u).data.openTime ≠ 0 := fun h => haddable ⟨hfound, h⟩
        rw [if_pos hmq, if_pos hmq, placed, hnone, if_pos hfound, if_neg hclosed]
      · rw [if_neg hmq, if_neg hmq, helse m q hmq]
    · rw [hcusr]
      by_cases hmq : m = n ∧ q = p
      · rw [if_pos hmq, placed, hnone, hfound, hmq.1, hmq.2, firstOn_of_notOn hnot]
        rfl
      · rw [if_neg hmq, helse m q hmq]

theorem sweep_of_not_known (hunknown : s.device.known n = false)
    {f : List DeviceUserData → Swept} (hf : (f []).cusr = []) (m : Bytes) :
    (s.sweep n f).2.cusr m = s.cusr m := by
  have hnil : s.cusr n = [] := s.device.cusr_of_not_known n hunknown
  rw [sweep_cusr s n hf]
  by_cases hm : m = n
  · rw [if_pos hm, hm, hnil, hf]
  · rw [if_neg hm]

/-- On a device that is not known nobody is added. -/
theorem add_of_not_known (hunknown : s.device.known n = false) (m : Bytes) :
    (s.add w u n p t ua).2.cusr m = s.cusr m := by
  have hactivate : ∀ s' : UserTrack, s'.device.known n = false → ∀ m,
      (s'.usrActivate w.now n u p t ua).2.cusr m = s'.cusr m :=
    fun s' h => s'.sweep_of_not_known h rfl
  have husrAdd : ∀ (s' : UserTrack) (d : UserRecord), s'.device.known n = false → ∀ m,
      (s'.usrAdd w.now n u p t d).cusr m = s'.cusr m := by
    intro s' d h m
    rw [usrAdd_cusr]
    apply if_neg
    rintro ⟨-, hknown, -⟩
    rw [h] at hknown
    contradiction
  have hget2add : ∀ s' : UserTrack, s'.device.known n = false → ∀ m,
      (s'.get2add w u n p t).2.cusr m = s'.cusr m := by
    intro s' h m
    rcases s'.get2add_cases w u n p t with ⟨-, hget⟩ | ⟨-, -, hget⟩ | ⟨-, -, hget⟩
    · rw [hget]
      exact husrAdd s' _ h m
    · rw [hget]
      rfl
    · rw [hget, husrAdd]
      · exact sweep_of_not_known (s := { s' with dbec := (s'.lookUp w u).2 }) h rfl m
      · exact (known_sweep { s' with dbec := (s'.lookUp w u).2 } n n _).trans h
  have hknown' := (s.known_sweep n n (Tacppd.usrActivate w.now u p t ua)).trans hunknown
  have hfound : (s.addFound w u n p t ua).2.cusr m = s.cusr m :=
    (hget2add _ hknown' m).trans (hactivate s hunknown m)
  rcases s.add_cases w u n p t ua with ⟨-, hadd⟩ | ⟨-, -, hadd⟩ | ⟨-, -, hadd⟩
  · rw [hadd]
    exact hactivate s hunknown m
  · rw [hadd]
    exact (hactivate _ ((known_get2add _ w u n p t n).trans hknown') m).trans hfound
  · rw [hadd]
    exact hfound

/-- **What `add` leaves on the ports** of a device that is known. -/
theorem firstOn_add (hs : s.OnePerPort) (h : s.Agrees w) {m : Bytes}
    (hm : s.device.known m = true) (q : Bytes) :
    firstOn q ((s.add w u n p t ua).2.cusr m) =
      if m = n ∧ q = p then placed w u n p t ua (firstOn p (s.cusr n))
      else firstOn q (s.cusr m) := by
  cases hknown : s.device.known n with
  | true => exact firstOn_add_of_known hs h hknown m q
  | false =>
    have hne : m ≠ n := by
      rintro rfl
      rw [hm] at hknown
      contradiction
    rw [if_neg fun heq => hne heq.1, add_of_not_known hknown]

end UserTrack

end Tacppd
