/-
# What an SNMP answer does to the tracked users

The periodic polling of `CoreDevice.cc`: the answer of a device lists its users with their
ports.  A first loop hands every one of them to `UserTrack::add`.  A second one goes through
the users that are tracked on the device and deletes those that are not in the answer; both
put what they do into a user-track packet.

Here is the code, and what the first loop does to the users and their ports: it adds some
pairs of the answer, and it takes a user out exactly when another one is first on a port that
the answer names.
-/
import Tacppd.Accounting
import Tacppd.Lib.Restart
import Tacppd.Resync
import Tacppd.TrackStart

namespace Tacppd

/-- One row of an answer, class `SnmpOut`; the counters are read for the traffic only. -/
structure SnmpOut where
  user : Bytes
  port : Bytes
  deriving DecidableEq, Repr

/-- A call of `TipSystem::add_ut`. -/
structure UtCall where
  u : Bytes
  di : Bytes
  ui : Bytes
  p : Bytes
  t : Bytes
  s : Bool
  deriving DecidableEq, Repr

/-! ## The two loops -/

/-- The search of a tracked user in the answer. -/
def snmpPresent (sd : List SnmpOut) (dutmp : DeviceUserData) : Bool :=
  sd.any fun stmp => decide (stmp.user ≠ []) &&
    (decide (dutmp.username = stmp.user) && decide (dutmp.port = portConvert stmp.port))

/-- The announcement of a user who has been deleted. -/
def delCall (nasip : Bytes) (dutmp : DeviceUserData) : UtCall :=
  ⟨dutmp.username, nasip, dutmp.useraddr, dutmp.port, dutmp.phone, false⟩

namespace UserTrack

/-- The first loop, over the answer. -/
def snmpAddLoop (w : World) (nasip : Bytes) : List SnmpOut → UserTrack → UserTrack × List UtCall
  | [], s => (s, [])
  | stmp :: sd, s =>
    if stmp.user = [] then snmpAddLoop w nasip sd s
    else
      let pr := portConvert stmp.port
      let r := s.add w stmp.user nasip pr [] unknownIp
      let rest := snmpAddLoop w nasip sd r.2
      (rest.1,
        if r.1 then ⟨stmp.user, nasip, unknownIp, pr, [], true⟩ :: rest.2 else rest.2)

/-- The second loop, over the users of the device by index. -/
def snmpDelLoop (nasip : Bytes) (sd : List SnmpOut) :
    ℕ → ℕ → UserTrack → Option (UserTrack × List UtCall)
  | 0, _, _ => none
  | rounds + 1, iii, s =>
    match s.device.getuser nasip iii with
    | none => some (s, [])
    | some dutmp =>
      if nasip = dutmp.nasaddr ∧ snmpPresent sd dutmp = false then
        -- the index is set to 0, and goes up all the same
        (snmpDelLoop nasip sd rounds 1 (s.del dutmp.username nasip dutmp.port).2).map
          fun r => (r.1, delCall nasip dutmp :: r.2)
      else snmpDelLoop nasip sd rounds (iii + 1) s

/-- What is done with the answer of a device, with what goes into the packet. -/
def snmpPoll (w : World) (nasip : Bytes) (sd : List SnmpOut) (rounds : ℕ) (s : UserTrack) :
    Option (UserTrack × List UtCall) :=
  let first := snmpAddLoop w nasip sd s
  (snmpDelLoop nasip sd rounds 0 first.1).map fun second => (second.1, first.2 ++ second.2)

end UserTrack

/-! ## Users and ports -/

/-- The users of an answer with their ports in canonical form. -/
def snmpPairs (sd : List SnmpOut) : List (Bytes × Bytes) :=
  (sd.filter fun stmp => decide (stmp.user ≠ [])).map fun stmp => (stmp.user, portConvert stmp.port)

/-- Who is tracked where on a device. -/
def DeviceUserData.key (e : DeviceUserData) : Bytes × Bytes := (e.username, e.port)

theorem snmpPresent_iff {sd : List SnmpOut} {e : DeviceUserData} :
    snmpPresent sd e = true ↔ e.key ∈ snmpPairs sd := by
  simp only [snmpPresent, List.any_eq_true, Bool.and_eq_true, decide_eq_true_eq, snmpPairs,
    List.mem_map, List.mem_filter, DeviceUserData.key, Prod.mk.injEq]
  constructor
  · rintro ⟨stmp, hmem, hne, hu, hp⟩
    exact ⟨stmp, ⟨hmem, hne⟩, hu.symm, hp.symm⟩
  · rintro ⟨stmp, ⟨hmem, hne⟩, hu, hp⟩
    exact ⟨stmp, hmem, hne, hu.symm, hp.symm⟩

theorem ne_nil_of_mem_snmpPairs {sd : List SnmpOut} {x : Bytes × Bytes} (hx : x ∈ snmpPairs sd) :
    x.1 ≠ [] := by
  simp only [snmpPairs, List.mem_map, List.mem_filter, decide_eq_true_eq] at hx
  obtain ⟨stmp, ⟨_, hne⟩, rfl⟩ := hx
  exact hne

/-- The pairs of a list of entries. -/
def keys (l : List DeviceUserData) : List (Bytes × Bytes) := l.map DeviceUserData.key

theorem mem_keys {l : List DeviceUserData} {x : Bytes × Bytes} :
    x ∈ keys l ↔ ∃ e ∈ l, e.key = x := List.mem_map

/-- Who is first on a port. -/
def owner (p : Bytes) (ks : List (Bytes × Bytes)) : Option Bytes :=
  (ks.find? fun k => decide (k.2 = p)).map Prod.fst

theorem owner_keys (p : Bytes) (l : List DeviceUserData) :
    owner p (keys l) = (firstOn p l).map DeviceUserData.username := by
  rw [owner, keys, List.find?_map, Option.map_map, firstOn]
  rfl

theorem owner_eq_none_iff {p : Bytes} {l : List DeviceUserData} :
    owner p (keys l) = none ↔ NotOn p l := by
  rw [owner_keys, Option.map_eq_none_iff]
  exact ⟨notOn_of_firstOn, firstOn_of_notOn⟩

/-- A port with one user more. -/
theorem owner_concat (p : Bytes) (ks : List (Bytes × Bytes)) (x : Bytes × Bytes) :
    owner p (ks ++ [x]) = (owner p ks).or (if x.2 = p then some x.1 else none) := by
  rw [owner, owner, List.find?_append, List.find?_singleton]
  cases hfind : ks.find? fun k => decide (k.2 = p) with
  | some k => rfl
  | none =>
    rw [Option.none_or, Option.map_none, Option.none_or]
    split <;> simp_all

/-- Nobody is twice on a port. -/
theorem keys_kept : KeptOnDevices fun _ l => (keys l).Nodup where
  nil := List.nodup_nil
  sublist hsub h := h.sublist (hsub.map _)
  concat := by
    intro n l e h _ _ hpresent
    rw [keys, List.map_append, List.nodup_append]
    refine ⟨h, List.nodup_singleton _, ?_⟩
    rintro _ ha _ hb rfl
    obtain ⟨x, hx, hkey⟩ := List.mem_map.mp ha
    rw [List.mem_singleton.mp hb] at hkey
    obtain ⟨hu, hp⟩ := Prod.mk.inj hkey
    rw [isPresent, List.any_eq_false] at hpresent
    exact hpresent x hx (by simp [hu, hp])
  activate := by
    intro n l e l' e' h _ hport huser _
    have hkey : e'.key = e.key := by rw [DeviceUserData.key, hport, huser, DeviceUserData.key]
    rw [keys, List.map_append, List.map_cons, hkey]
    rwa [keys, List.map_append, List.map_cons] at h

/-- An entry has the address of its device. -/
theorem nasaddr_kept : KeptOnDevices fun n l => ∀ e ∈ l, e.nasaddr = n where
  nil := by simp
  sublist hsub h e he := h e (hsub.subset he)
  concat := by
    intro n l e h _ hnas _ x hx
    rcases List.mem_append.mp hx with hx | hx
    · exact h x hx
    · rwa [List.mem_singleton.mp hx]
  activate := by
    intro n l e l' e' h _ _ _ hnas x hx
    rcases List.mem_append.mp hx with hx | hx
    · exact h x (List.mem_append_left _ hx)
    · rcases List.mem_cons.mp hx with rfl | hx
      · rw [hnas]
        exact h e (by simp)
      · exact h x (by simp [hx])


/-! ## Whether a user is found -/

section Cache

variable {now : ℤ} {u v : Bytes} {dbec : List DbcEntry}

/-- The cached answers that are not too old. -/
def live (now : ℤ) (dbec : List DbcEntry) : List DbcEntry :=
  dbec.filter fun x => !decide (31 < now - x.date)

theorem live_cons_old {x : DbcEntry} (hx : 31 < now - x.date) :
    live now (x :: dbec) = live now dbec := by
  have hold : ¬ (!decide (31 < now - x.date)) = true := by
    rw [decide_eq_true hx]
    decide
  exact List.filter_cons_of_neg hold

theorem live_cons_new {x : DbcEntry} (hx : ¬ 31 < now - x.date) :
    live now (x :: dbec) = x :: live now dbec := by
  have hnew : (!decide (31 < now - x.date)) = true := by
    rw [decide_eq_false hx]
    rfl
  exact List.filter_cons_of_pos hnew

/-- A search in the cache only drops what is too old. -/
theorem live_dbcPresent : live now (dbcPresent now v dbec).2 = live now dbec := by
  induction dbec with
  | nil => rfl
  | cons x dbec ih =>
    rw [dbcPresent]
    by_cases hx : 31 < now - x.date
    · rw [if_pos hx, live_cons_old hx, ih]
    · rw [if_neg hx]
      split
      · rfl
      · rw [live_cons_new hx, live_cons_new hx, ih]

/-- It stops at the first live answer with the name. -/
theorem dbcPresent_cases :
    ((dbcPresent now u dbec).1 = false ∧
      (live now dbec).find? (fun x => decide (x.entry.username = u)) = none) ∨
    ((dbcPresent now u dbec).1 = true ∧
      ((dbcPresent now u dbec).2.find? fun x => decide (x.entry.username = u)) =
        (live now dbec).find? fun x => decide (x.entry.username = u)) := by
  induction dbec with
  | nil => exact .inl ⟨rfl, rfl⟩
  | cons x dbec ih =>
    rw [dbcPresent]
    by_cases hx : 31 < now - x.date
    · rw [if_pos hx, live_cons_old hx]
      exact ih
    · rw [if_neg hx, live_cons_new hx]
      by_cases hu : x.entry.username = u
      · rw [if_pos hu]
        refine .inr ⟨rfl, ?_⟩
        rw [List.find?_cons_of_pos (by simpa using hu), List.find?_cons_of_pos (by simpa using hu)]
      · rw [if_neg hu, List.find?_cons_of_neg (by simpa using hu)]
        rcases ih with ⟨hpresent, hfind⟩ | ⟨hpresent, hfind⟩
        · exact .inl ⟨hpresent, hfind⟩
        · exact .inr ⟨hpresent, by rw [List.find?_cons_of_neg (by simpa using hu), hfind]⟩

end Cache

namespace UserTrack

variable {s : UserTrack} {w : World} {u v n c p t ua : Bytes}

/-- **What a look-up finds**: the first live answer for the name, else what the database
says. -/
theorem lookUp_fst (s : UserTrack) (w : World) (u : Bytes) :
    (s.lookUp w u).1 = (((live w.now s.dbec).find? fun x => decide (x.entry.username = u)).map
      DbcEntry.entry).getD (w.get u) := by
  rw [lookUp]
  rcases @dbcPresent_cases w.now u s.dbec with ⟨hpresent, hfind⟩ | ⟨hpresent, hfind⟩
  · simp [hpresent, hfind]
  · have hsome : ((dbcPresent w.now u s.dbec).2.find?
        fun x => decide (x.entry.username = u)).isSome = true := by
      obtain ⟨x, hx, hxu⟩ := exists_of_dbcPresent hpresent
      exact List.find?_isSome.mpr ⟨x, hx, decide_eq_true hxu⟩
    obtain ⟨x, hx⟩ := Option.isSome_iff_exists.mp hsome
    rw [hx] at hfind
    simp [hpresent, dbcGet, hx, ← hfind]

/-- A look-up changes no other one. -/
theorem lookUp_lookUp (hu : u ≠ []) :
    (UserTrack.lookUp { s with dbec := (s.lookUp w v).2 } w u).1 = (s.lookUp w u).1 := by
  rw [lookUp_fst, lookUp_fst]
  have hcases : live w.now (s.lookUp w v).2 = live w.now s.dbec ∨
      live w.now (s.lookUp w v).2 = live w.now s.dbec ++ [⟨w.get v, w.now⟩] := by
    rw [lookUp]
    split
    · exact .inl live_dbcPresent
    · refine .inr ?_
      have hdrop := @live_dbcPresent w.now v s.dbec
      rw [live, List.filter_append, ← live, hdrop]
      simp
  rcases hcases with h | h
  · rw [h]
  · rw [h, List.find?_append]
    cases hfind : (live w.now s.dbec).find? fun x => decide (x.entry.username = u) with
    | some x => rfl
    | none =>
      rw [Option.none_or, List.find?_singleton]
      by_cases hname : (w.get v).username = u
      · -- the record that the database has for this name
        have hv : v = u := by
          by_contra hne
          rw [World.get] at hname
          split at hname
          · exact hu (hname ▸ rfl)
          · split at hname
            · exact hne hname
            · exact hu (hname ▸ rfl)
        rw [hv, if_pos (by simpa [hv] using hname)]
        rfl
      · rw [if_neg (by simpa using hname)]

/-- The record of the user counts. -/
def Found (s : UserTrack) (w : World) (u : Bytes) : Prop := (s.recordFor w u).data.result = true

theorem found_iff : s.Found w u ↔
    (s.billing.getUd u).data.result = true ∨ (s.lookUp w u).1.data.result = true := by
  rw [Found, recordFor]
  cases hres : (s.billing.getUd u).data.result with
  | true => simp [hres]
  | false => simp

end UserTrack

/-! ## One call of `add` -/

section Lists

variable {now : ℤ} {u p t ua : Bytes} {e : DeviceUserData} {l : List DeviceUserData}

theorem exists_of_firstOn (h : firstOn p l = some e) :
    ∃ l₁ l₂, l = l₁ ++ e :: l₂ ∧ NotOn p l₁ ∧ e.port = p := by
  rw [firstOn] at h
  obtain ⟨hp, l₁, l₂, rfl, hnot⟩ := List.find?_eq_some_iff_append.mp h
  exact ⟨l₁, l₂, rfl, fun x hx => by simpa using hnot x hx, of_decide_eq_true hp⟩

/-- The user who is first on the port is activated there. -/
theorem usrActivate_own (h : firstOn p l = some e) (hu : e.username = u) :
    (usrActivate now u p t ua l).res = true ∧ (usrActivate now u p t ua l).gone = [] ∧
      keys (usrActivate now u p t ua l).cusr = keys l := by
  obtain ⟨l₁, l₂, rfl, hnot, hp⟩ := exists_of_firstOn h
  rcases usrActivate_cases now u p t ua (l₁ ++ e :: l₂) with
    ⟨hnone, _⟩ | ⟨l, x, l', hl, hnotl, hx, hxu, hact⟩ | ⟨l, x, l', hl, hnotl, hx, hxu, _⟩
  · exact absurd hp (hnone e (by simp))
  · rw [hact]
    refine ⟨rfl, rfl, ?_⟩
    have hkey : (x.update now p t ua).setActive.key = x.key := by
      rw [DeviceUserData.key, DeviceUserData.key, hx]
      rfl
    rw [hl, keys, List.map_append, List.map_cons, hkey, keys, List.map_append, List.map_cons]
  · rw [hl, firstOn_append hnotl hx] at h
    rw [Option.some.inj h] at hxu
    exact absurd hu hxu

/-- Another user who is first there is deleted. -/
theorem usrActivate_other (h : firstOn p l = some e) (hu : e.username ≠ u) :
    (usrActivate now u p t ua l).res = false ∧
      ∃ l₁ l₂, l = l₁ ++ e :: l₂ ∧ (usrActivate now u p t ua l).cusr = l₁ ++ l₂ := by
  rcases usrActivate_cases now u p t ua l with
    ⟨hnone, _⟩ | ⟨l₁, x, l₂, rfl, hnot, hx, hxu, _⟩ | ⟨l₁, x, l₂, rfl, hnot, hx, hxu, hact⟩
  · rw [firstOn_of_notOn hnone] at h
    contradiction
  · rw [firstOn_append hnot hx] at h
    rw [Option.some.inj h] at hxu
    exact absurd hxu hu
  · rw [firstOn_append hnot hx] at h
    obtain rfl := Option.some.inj h
    exact ⟨by rw [hact], l₁, l₂, rfl, by rw [hact]⟩

theorem usrActivate_free (h : NotOn p l) : usrActivate now u p t ua l = ⟨false, l, []⟩ := by
  rcases usrActivate_cases now u p t ua l with ⟨_, hact⟩ | ⟨l₁, x, l₂, rfl, _, hx, _⟩ |
    ⟨l₁, x, l₂, rfl, _, hx, _⟩
  · exact hact
  · exact absurd hx (h x (by simp))
  · exact absurd hx (h x (by simp))

/-- No attempt brings somebody in. -/
theorem keys_usrActivate_subset : keys (usrActivate now u p t ua l).cusr ⊆ keys l := by
  rcases usrActivate_cases now u p t ua l with ⟨_, hact⟩ | ⟨l₁, x, l₂, rfl, _, hx, _, hact⟩ |
    ⟨l₁, x, l₂, rfl, _, _, _, hact⟩
  · rw [hact]
    exact List.Subset.refl _
  · have hkey : (x.update now p t ua).setActive.key = x.key := by
      rw [DeviceUserData.key, DeviceUserData.key, hx]
      rfl
    rw [hact, keys, keys, List.map_append, List.map_append, List.map_cons, List.map_cons, hkey]
    exact List.Subset.refl _
  · rw [hact]
    exact (((List.Sublist.refl l₁).append (List.sublist_cons_self x l₂)).map _).subset

theorem keys_usrDel_subset : keys (usrDel p l).cusr ⊆ keys l := by
  rcases usrDel_cases p l with ⟨_, hdel⟩ | ⟨l₁, x, l₂, rfl, _, _, hdel⟩
  · rw [hdel]
    exact List.Subset.refl _
  · rw [hdel]
    exact (((List.Sublist.refl l₁).append (List.sublist_cons_self x l₂)).map _).subset

end Lists

namespace UserTrack

variable {s : UserTrack} {w : World} {u v c p t ua : Bytes} {e : DeviceUserData}

theorem keys_usrAdd_subset (s : UserTrack) (now : ℤ) (c u p t : Bytes) (d : UserRecord) :
    keys ((s.usrAdd now c u p t d).cusr c) ⊆ keys (s.cusr c) ++ [(u, p)] := by
  rw [s.usrAdd_cusr]
  split
  · rw [keys, List.map_append]
    exact List.Subset.refl _
  · exact List.subset_append_left _ _

/-- `add` brings in nobody but the user it is called for. -/
theorem keys_add_subset :
    keys ((s.add w u c p t ua).2.cusr c) ⊆
      keys (Tacppd.usrActivate w.now u p t ua (s.cusr c)).cusr ++ [(u, p)] := by
  have hfound : keys ((s.addFound w u c p t ua).2.cusr c) ⊆
      keys (Tacppd.usrActivate w.now u p t ua (s.cusr c)).cusr ++ [(u, p)] := by
    rw [addFound]
    rcases (s.usrActivate w.now c u p t ua).2.get2add_cases w u c p t with
      ⟨_, hget⟩ | ⟨_, _, hget⟩ | ⟨_, _, hget⟩
    · rw [hget, ← cusr_usrActivate]
      exact keys_usrAdd_subset ..
    · rw [hget, ← cusr_usrActivate]
      exact List.subset_append_left _ _
    · rw [hget, ← cusr_usrActivate]
      refine List.Subset.trans (keys_usrAdd_subset ..) (List.append_subset.mpr ⟨?_, ?_⟩)
      · rw [UserTrack.usrDel, UserTrack.sweep_cusr _ c rfl, if_pos rfl]
        exact List.Subset.trans keys_usrDel_subset (List.subset_append_left _ _)
      · exact List.subset_append_right _ _
  rcases s.add_cases w u c p t ua with ⟨_, hadd⟩ | ⟨_, _, hadd⟩ | ⟨_, _, hadd⟩
  · rw [hadd, ← cusr_usrActivate]
    exact List.subset_append_left _ _
  · rw [hadd]
    simp only
    rw [cusr_usrActivate]
    exact List.Subset.trans keys_usrActivate_subset hfound
  · rw [hadd]
    exact hfound

/-- **Another user who is first on the port is taken out.** -/
theorem not_mem_keys_add (hnodup : (keys (s.cusr c)).Nodup) (hfirst : firstOn p (s.cusr c) = some e)
    (hu : e.username ≠ u) : e.key ∉ keys ((s.add w u c p t ua).2.cusr c) := by
  obtain ⟨_, l₁, l₂, hl, hact⟩ := @usrActivate_other w.now u p t ua e _ hfirst hu
  intro hmem
  rcases List.mem_append.mp (keys_add_subset hmem) with hmem | hmem
  · rw [hl, keys, List.map_append, List.map_cons] at hnodup
    rw [hact, keys, List.map_append] at hmem
    exact (List.nodup_cons.mp (List.nodup_middle.mp hnodup)).1 hmem
  · exact hu (congrArg Prod.fst (List.mem_singleton.mp hmem))

/-- The state after a first attempt that deletes nobody. -/
theorem found_usrActivate {now : ℤ}
    (hgone : (Tacppd.usrActivate now u p t ua (s.cusr c)).gone = []) :
    (s.usrActivate now c u p t ua).2.Found w v ↔ s.Found w v := by
  have hbilling : (s.usrActivate now c u p t ua).2.billing = s.billing := by
    rw [UserTrack.usrActivate, UserTrack.sweep, hgone]
    rfl
  have hlook : ((s.usrActivate now c u p t ua).2.lookUp w v).1 = (s.lookUp w v).1 := rfl
  rw [found_iff, found_iff, hbilling, hlook]

/-- **A user who is first on the port stays there.** -/
theorem add_of_own (hfirst : firstOn p (s.cusr c) = some e) (hu : e.username = u) :
    keys ((s.add w u c p t ua).2.cusr c) = keys (s.cusr c) ∧
      ∀ v, (s.add w u c p t ua).2.Found w v ↔ s.Found w v := by
  obtain ⟨hres, hgone, hkeys⟩ := @usrActivate_own w.now u p t ua e _ hfirst hu
  rcases s.add_cases w u c p t ua with ⟨_, hadd⟩ | ⟨hres', _⟩ | ⟨hres', _⟩
  · rw [hadd, ← hkeys, ← cusr_usrActivate]
    exact ⟨rfl, fun v => found_usrActivate hgone⟩
  · rw [show (s.usrActivate w.now c u p t ua).1 = true from hres] at hres'
    contradiction
  · rw [show (s.usrActivate w.now c u p t ua).1 = true from hres] at hres'
    contradiction

/-- A new entry, and what it does to the billing store. -/
theorem usrAdd_of_free (hnot : NotOn p (s.cusr c)) (hknown : s.device.known c = true)
    (d : UserRecord) :
    (s.usrAdd w.now c u p t d).cusr c = s.cusr c ++ [newEntry w u c p t] ∧
      (s.usrAdd w.now c u p t d).billing = s.billing.addUd d := by
  have hpresent : isPresent u p (s.cusr c) = false := by
    rw [isPresent, List.any_eq_false]
    intro x hx
    simp [hnot x hx]
  refine ⟨by rw [s.usrAdd_cusr, if_pos ⟨rfl, hknown, hpresent⟩]; rfl, ?_⟩
  rw [UserTrack.usrAdd, hknown, hpresent]
  rfl

/-- A new entry is nothing to the cache. -/
theorem lookUp_usrAdd (s : UserTrack) (w : World) (now : ℤ) (c u p t : Bytes) (d : UserRecord)
    (v : Bytes) : (s.usrAdd now c u p t d).lookUp w v = s.lookUp w v := by
  have hdbec : (s.usrAdd now c u p t d).dbec = s.dbec := by
    rw [UserTrack.usrAdd]
    split <;> rfl
  rw [lookUp, lookUp, hdbec]

/-- A look-up on a free port: the user is put there when he is found. -/
theorem get2add_of_free (hnot : NotOn p (s.cusr c)) (hknown : s.device.known c = true) :
    ((s.Found w u ∧ (s.get2add w u c p t).2.cusr c = s.cusr c ++ [newEntry w u c p t]) ∨
      (¬ s.Found w u ∧ (s.get2add w u c p t).2.cusr c = s.cusr c)) ∧
    ∀ v, v ≠ [] → ((s.get2add w u c p t).2.Found w v ↔ s.Found w v) := by
  rcases s.get2add_cases w u c p t with ⟨hres, hget⟩ | ⟨hres, hnone, hget⟩ | ⟨hres, hsome, hget⟩
  · -- his record is in the billing store
    obtain ⟨hcusr, hbilling⟩ := @usrAdd_of_free s w u c p t hnot hknown (s.billing.getUd u)
    refine ⟨.inl ⟨found_iff.mpr (.inl hres), by rw [hget]; exact hcusr⟩, fun v hv => ?_⟩
    have hlook : ((s.get2add w u c p t).2.lookUp w v).1 = (s.lookUp w v).1 := by
      rw [hget, lookUp_usrAdd]
    have hsame : (s.get2add w u c p t).2.billing.getUd v = s.billing.getUd v := by
      rw [hget]
      simp only
      rw [hbilling, CoreBilling.getUd_addUd, if_neg]
      rintro ⟨hfind, rfl⟩
      rw [CoreBilling.getUd_username, CoreBilling.find_isSome_of_result _ hres, if_pos rfl] at hfind
      rw [CoreBilling.find_isSome_of_result _ hres] at hfind
      contradiction
    rw [found_iff, found_iff, hlook, hsame]
  · refine ⟨.inr ⟨?_, by rw [hget]; rfl⟩, fun v hv => ?_⟩
    · rw [found_iff, hres, hnone]
      simp
    · rw [hget, found_iff, found_iff]
      simp only
      rw [lookUp_lookUp hv]
  · -- his record comes from the cache or the database
    have hnot' : NotOn p (UserTrack.cusr { s with dbec := (s.lookUp w u).2 } c) := hnot
    have hdel : (UserTrack.usrDel { s with dbec := (s.lookUp w u).2 } c p).2.cusr c = s.cusr c := by
      rw [UserTrack.usrDel, UserTrack.sweep_cusr _ c rfl, if_pos rfl, usrDel_of_notOn hnot']
      rfl
    have hstill : (UserTrack.usrDel { s with dbec := (s.lookUp w u).2 } c p).2.device.known c =
        true := (known_sweep _ c c _).trans hknown
    obtain ⟨hcusr, hbilling⟩ := @usrAdd_of_free _ w u c p t (by rwa [hdel]) hstill (s.lookUp w u).1
    have hbefore : (UserTrack.usrDel { s with dbec := (s.lookUp w u).2 } c p).2.billing =
        s.billing := by
      rw [UserTrack.usrDel, UserTrack.sweep, usrDel_of_notOn hnot']
      rfl
    refine ⟨.inl ⟨found_iff.mpr (.inr hsome), by rw [hget]; simp only; rw [hcusr, hdel]⟩, ?_⟩
    intro v hv
    have hlook : ((s.get2add w u c p t).2.lookUp w v).1 = (s.lookUp w v).1 := by
      rw [hget, lookUp_usrAdd]
      exact lookUp_lookUp hv
    rw [found_iff, found_iff, hlook, hget]
    simp only
    rw [hbilling, hbefore, CoreBilling.getUd_addUd]
    split
    · next h =>
      rw [h.2, lookUp_username hsome]
      simp [hsome]
    · rfl

/-- **What `add` does on a free port.** -/
theorem add_of_free (hnot : NotOn p (s.cusr c)) (hknown : s.device.known c = true) :
    ((s.Found w u ∧ keys ((s.add w u c p t ua).2.cusr c) = keys (s.cusr c) ++ [(u, p)]) ∨
      (¬ s.Found w u ∧ keys ((s.add w u c p t ua).2.cusr c) = keys (s.cusr c))) ∧
    ∀ v, v ≠ [] → ((s.add w u c p t ua).2.Found w v ↔ s.Found w v) := by
  have hfree := @usrActivate_free w.now u p t ua _ hnot
  have hcusr : (s.usrActivate w.now c u p t ua).2.cusr c = s.cusr c := by
    rw [cusr_usrActivate, hfree]
  have hgone : (Tacppd.usrActivate w.now u p t ua (s.cusr c)).gone = [] := by rw [hfree]
  have hres : (s.usrActivate w.now c u p t ua).1 = false := by
    rw [UserTrack.usrActivate, UserTrack.sweep, hfree]
  obtain ⟨hlist, hfound⟩ := @get2add_of_free (s.usrActivate w.now c u p t ua).2 w u c p t
    (by rwa [hcusr]) ((known_sweep s c c _).trans hknown)
  rw [found_usrActivate hgone, hcusr] at hlist
  have hfound' : ∀ v, v ≠ [] → ((s.addFound w u c p t ua).2.Found w v ↔ s.Found w v) :=
    fun v hv => (hfound v hv).trans (found_usrActivate hgone)
  rcases s.add_cases w u c p t ua with ⟨hres', _⟩ | ⟨_, haddable, hadd⟩ | ⟨_, _, hadd⟩
  · rw [hres] at hres'
    contradiction
  · -- the second attempt finds the new entry
    rcases hlist with ⟨hyes, hnew⟩ | ⟨hno, hsame⟩
    · have hfirst : firstOn p ((s.addFound w u c p t ua).2.cusr c) = some (newEntry w u c p t) := by
        rw [addFound, hnew]
        exact firstOn_append hnot rfl
      obtain ⟨_, hgone', hkeys⟩ := @usrActivate_own w.now u p t ua _ _ hfirst rfl
      rw [hadd]
      refine ⟨.inl ⟨hyes, ?_⟩, fun v hv => (found_usrActivate hgone').trans (hfound' v hv)⟩
      rw [cusr_usrActivate, hkeys, addFound, hnew, keys, List.map_append]
      rfl
    · have hnot' : NotOn p ((s.addFound w u c p t ua).2.cusr c) := by rwa [addFound, hsame]
      have hfree' := @usrActivate_free w.now u p t ua _ hnot'
      rw [hadd]
      refine ⟨.inr ⟨hno, ?_⟩, fun v hv => (found_usrActivate (by rw [hfree'])).trans (hfound' v hv)⟩
      rw [cusr_usrActivate, hfree', addFound, hsame]
  · rw [hadd]
    refine ⟨?_, hfound'⟩
    rcases hlist with ⟨hyes, hnew⟩ | ⟨hno, hsame⟩
    · refine .inl ⟨hyes, ?_⟩
      rw [addFound, hnew, keys, List.map_append]
      rfl
    · exact .inr ⟨hno, by rw [addFound, hsame]⟩

end UserTrack

/-! ## The first loop -/

/-- The entries of a list that are not in another one. -/
def lost (l l' : List DeviceUserData) : List DeviceUserData :=
  l.filter fun e => decide (e.key ∉ keys l')

theorem mem_lost {l l' : List DeviceUserData} {e : DeviceUserData} :
    e ∈ lost l l' ↔ e ∈ l ∧ e.key ∉ keys l' := by
  simp [lost]

theorem lost_eq_nil_iff {l l' : List DeviceUserData} : lost l l' = [] ↔ keys l ⊆ keys l' := by
  rw [lost, List.filter_eq_nil_iff]
  constructor
  · intro h x hx
    obtain ⟨e, he, rfl⟩ := mem_keys.mp hx
    simpa using h e he
  · intro h e he
    simpa using h (mem_keys.mpr ⟨e, he, rfl⟩)

/-- The answer names no second user for a port: who is first there is the one that the answer
names, and who has just come there too. -/
def OwnersFit (found : Bytes → Prop) (ks xs : List (Bytes × Bytes)) : Prop :=
  (∀ x ∈ xs, ∀ v, owner x.2 ks = some v → v = x.1) ∧
    xs.Pairwise fun x y => x.2 = y.2 → owner x.2 ks = none → found x.1 → y.1 = x.1

section OwnersFit

variable {found found' : Bytes → Prop} {ks xs : List (Bytes × Bytes)} {x : Bytes × Bytes}

theorem ownersFit_congr (h : ∀ x ∈ xs, found x.1 ↔ found' x.1) :
    OwnersFit found ks xs ↔ OwnersFit found' ks xs := by
  refine and_congr_right fun _ => List.Pairwise.iff_of_mem ?_
  intro x y hx _
  rw [h x hx]

/-- A pair that brings nobody in. -/
theorem ownersFit_cons_same (h : owner x.2 ks = none → ¬ found x.1) :
    OwnersFit found ks (x :: xs) ↔
      (∀ v, owner x.2 ks = some v → v = x.1) ∧ OwnersFit found ks xs := by
  rw [OwnersFit, OwnersFit, List.forall_mem_cons, List.pairwise_cons, and_assoc]
  refine and_congr_right fun _ => and_congr_right fun _ => and_iff_right ?_
  exact fun y _ _ hnone hfound => absurd hfound (h hnone)

/-- A pair that brings somebody in. -/
theorem ownersFit_cons_new (hnone : owner x.2 ks = none) (hfound : found x.1) :
    OwnersFit found ks (x :: xs) ↔ OwnersFit found (ks ++ [x]) xs := by
  have howner : ∀ p, owner p (ks ++ [x]) = if x.2 = p then some x.1 else owner p ks := by
    intro p
    rw [owner_concat]
    split
    · next hp => rw [← hp, hnone, Option.none_or]
    · rw [Option.or_none]
  rw [OwnersFit, OwnersFit, List.forall_mem_cons, List.pairwise_cons]
  constructor
  · rintro ⟨⟨_, hfirst⟩, hnew, hpair⟩
    refine ⟨fun y hy v hv => ?_, ?_⟩
    · rw [howner] at hv
      split at hv
      · next hp => exact (Option.some.inj hv) ▸ (hnew y hy hp hnone hfound).symm
      · exact hfirst y hy v hv
    · refine hpair.imp fun {y z} hyz hp hno hyes => ?_
      rw [howner] at hno
      split at hno
      · contradiction
      · exact hyz hp hno hyes
  · rintro ⟨hfirst, hpair⟩
    refine ⟨⟨fun v hv => by rw [hnone] at hv; contradiction, fun y hy v hv => ?_⟩, ?_, ?_⟩
    · refine hfirst y hy v ?_
      rw [howner, if_neg]
      · exact hv
      · intro hp
        rw [← hp, hnone] at hv
        contradiction
    · intro y hy hp _ _
      have hx := hfirst y hy x.1
      rw [howner, if_pos hp] at hx
      exact (hx rfl).symm
    · refine hpair.imp_of_mem fun {y z} hy hz hyz hp hno hyes => ?_
      by_cases hport : x.2 = y.2
      · have hxy := hfirst y hy x.1
        have hxz := hfirst z hz x.1
        rw [howner, if_pos hport] at hxy
        rw [howner, if_pos (hport.trans hp)] at hxz
        rw [← hxy rfl, ← hxz rfl]
      · exact hyz hp (by rwa [howner, if_neg hport]) hyes

end OwnersFit

namespace UserTrack

variable {s : UserTrack} {w : World} {n : Bytes} {xs : List (Bytes × Bytes)} {e : DeviceUserData}

/-- The call of `add` for a pair of the answer. -/
def addPair (w : World) (n : Bytes) (s : UserTrack) (x : Bytes × Bytes) : UserTrack :=
  (s.add w x.1 n x.2 [] unknownIp).2

/-- The users that the calls for some pairs take out. -/
def addLost (w : World) (n : Bytes) : List (Bytes × Bytes) → UserTrack → List DeviceUserData
  | [], _ => []
  | x :: xs, s => lost (s.cusr n) ((s.addPair w n x).cusr n) ++ addLost w n xs (s.addPair w n x)

/-- **What the first loop does**, and nothing that it announces is a removal. -/
theorem snmpAddLoop_spec (w : World) (n : Bytes) (sd : List SnmpOut) (s : UserTrack) :
    (snmpAddLoop w n sd s).1 = (snmpPairs sd).foldl (addPair w n) s ∧
      ∀ c ∈ (snmpAddLoop w n sd s).2, c.s = true := by
  induction sd generalizing s with
  | nil => exact ⟨rfl, by simp [snmpAddLoop]⟩
  | cons stmp sd ih =>
    rw [snmpAddLoop]
    by_cases hu : stmp.user = []
    · have hpairs : snmpPairs (stmp :: sd) = snmpPairs sd := by simp [snmpPairs, hu]
      rw [if_pos hu, hpairs]
      exact ih s
    · have hpairs : snmpPairs (stmp :: sd) =
          (stmp.user, portConvert stmp.port) :: snmpPairs sd := by
        simp [snmpPairs, hu]
      obtain ⟨hstate, hcalls⟩ := ih (s.add w stmp.user n (portConvert stmp.port) [] unknownIp).2
      rw [if_neg hu, hpairs, List.foldl_cons]
      refine ⟨hstate, fun c hc => ?_⟩
      simp only at hc
      split at hc
      · rcases List.mem_cons.mp hc with rfl | hc
        · rfl
        · exact hcalls c hc
      · exact hcalls c hc

/-- Only users of the answer come in. -/
theorem keys_foldl_subset (xs : List (Bytes × Bytes)) (s : UserTrack) :
    keys ((xs.foldl (addPair w n) s).cusr n) ⊆ keys (s.cusr n) ++ xs := by
  induction xs generalizing s with
  | nil => simp
  | cons x xs ih =>
    rw [List.foldl_cons]
    intro k hk
    rcases List.mem_append.mp (ih _ hk) with hk | hk
    · have hadd := List.mem_append.mp (keys_add_subset hk)
      rcases hadd with hk | hk
      · exact List.mem_append_left _ (keys_usrActivate_subset hk)
      · exact List.mem_append_right _ (List.mem_cons.mpr (.inl (List.mem_singleton.mp hk)))
    · exact List.mem_append_right _ (List.mem_cons_of_mem x hk)

/-- Who is taken out and is not in the answer does not come back. -/
theorem not_mem_keys_of_addLost (he : e ∈ addLost w n xs s) (hxs : e.key ∉ xs) :
    e.key ∉ keys ((xs.foldl (addPair w n) s).cusr n) := by
  induction xs generalizing s with
  | nil => simp [addLost] at he
  | cons x xs ih =>
    have hxs' : e.key ∉ xs := fun h => hxs (List.mem_cons_of_mem x h)
    rw [List.foldl_cons]
    rcases List.mem_append.mp he with he | he
    · intro hmem
      rcases List.mem_append.mp (keys_foldl_subset xs _ hmem) with hmem | hmem
      · exact (mem_lost.mp he).2 hmem
      · exact hxs' hmem
    · exact ih he hxs'

/-- **When the first loop takes nobody out**: exactly when the answer fits who is there. -/
theorem addLost_eq_nil_iff (hnodup : ∀ m, (keys (s.cusr m)).Nodup)
    (hknown : s.device.known n = true) (hne : ∀ x ∈ xs, x.1 ≠ []) :
    addLost w n xs s = [] ↔ OwnersFit (s.Found w) (keys (s.cusr n)) xs := by
  induction xs generalizing s with
  | nil => exact iff_of_true rfl ⟨by simp, .nil⟩
  | cons x xs ih =>
    have hne' : ∀ y ∈ xs, y.1 ≠ [] := fun y hy => hne y (List.mem_cons_of_mem x hy)
    have hkept : ∀ m, (keys ((s.addPair w n x).cusr m)).Nodup :=
      keys_kept.add hnodup x.1 n x.2 [] unknownIp
    have hstill : (s.addPair w n x).device.known n = true := (known_add n).trans hknown
    rw [addLost, List.append_eq_nil_iff, lost_eq_nil_iff, ih hkept hstill hne']
    cases hfirst : firstOn x.2 (s.cusr n) with
    | some e =>
      have howner : owner x.2 (keys (s.cusr n)) = some e.username := by
        rw [owner_keys, hfirst]
        rfl
      rw [ownersFit_cons_same (by simp [howner])]
      by_cases hu : e.username = x.1
      · obtain ⟨hkeys, hfound⟩ := @add_of_own s w x.1 n x.2 [] unknownIp e hfirst hu
        rw [addPair, hkeys, ownersFit_congr fun y _ => hfound y.1]
        refine and_congr_left fun _ => iff_of_true (List.Subset.refl _) ?_
        intro v hv
        rw [← Option.some.inj (howner.symm.trans hv), hu]
      · refine iff_of_false (fun h => ?_) fun h => hu (h.1 _ howner)
        obtain ⟨l₁, l₂, hl, -, -⟩ := exists_of_firstOn hfirst
        refine not_mem_keys_add (hnodup n) hfirst hu (h.1 (mem_keys.mpr ⟨e, ?_, rfl⟩))
        simp [hl]
    | none =>
      have hnot : NotOn x.2 (s.cusr n) := notOn_of_firstOn hfirst
      have hnone : owner x.2 (keys (s.cusr n)) = none := owner_eq_none_iff.mpr hnot
      obtain ⟨hkeys, hfound⟩ := @add_of_free s w x.1 n x.2 [] unknownIp hnot hknown
      rcases hkeys with ⟨hyes, hkeys⟩ | ⟨hno, hkeys⟩
      · rw [ownersFit_cons_new hnone hyes, addPair, hkeys,
          ownersFit_congr fun y hy => hfound y.1 (hne' y hy)]
        exact and_iff_right (List.subset_append_left _ _)
      · rw [ownersFit_cons_same fun _ => hno, addPair, hkeys,
          ownersFit_congr fun y hy => hfound y.1 (hne' y hy)]
        refine and_congr_left fun _ => iff_of_true (List.Subset.refl _) ?_
        intro v hv
        rw [hnone] at hv
        contradiction

/-- Then everybody stays in his place, and the new ones follow. -/
theorem keys_of_ownersFit (hknown : s.device.known n = true) (hne : ∀ x ∈ xs, x.1 ≠ [])
    (hfits : OwnersFit (s.Found w) (keys (s.cusr n)) xs) :
    ∃ new, keys ((xs.foldl (addPair w n) s).cusr n) = keys (s.cusr n) ++ new ∧ new ⊆ xs := by
  induction xs generalizing s with
  | nil => exact ⟨[], by simp, by simp⟩
  | cons x xs ih =>
    have hne' : ∀ y ∈ xs, y.1 ≠ [] := fun y hy => hne y (List.mem_cons_of_mem x hy)
    have hstill : (s.addPair w n x).device.known n = true := (known_add n).trans hknown
    rw [List.foldl_cons]
    cases hfirst : firstOn x.2 (s.cusr n) with
    | some e =>
      have howner : owner x.2 (keys (s.cusr n)) = some e.username := by
        rw [owner_keys, hfirst]
        rfl
      rw [ownersFit_cons_same (by simp [howner])] at hfits
      obtain ⟨hkeys, hfound⟩ := @add_of_own s w x.1 n x.2 [] unknownIp e hfirst
        (hfits.1 _ howner)
      rw [← ownersFit_congr fun y _ => hfound y.1, ← hkeys] at hfits
      obtain ⟨new, hnew, hsub⟩ := ih hstill hne' hfits.2
      exact ⟨new, hnew.trans (congrArg (· ++ new) hkeys),
        fun k hk => List.mem_cons_of_mem x (hsub hk)⟩
    | none =>
      have hnot : NotOn x.2 (s.cusr n) := notOn_of_firstOn hfirst
      have hnone : owner x.2 (keys (s.cusr n)) = none := owner_eq_none_iff.mpr hnot
      obtain ⟨hkeys, hfound⟩ := @add_of_free s w x.1 n x.2 [] unknownIp hnot hknown
      rcases hkeys with ⟨hyes, hkeys⟩ | ⟨hno, hkeys⟩
      · rw [ownersFit_cons_new hnone hyes, ← hkeys,
          ← ownersFit_congr fun y hy => hfound y.1 (hne' y hy)] at hfits
        obtain ⟨new, hnew, hsub⟩ := ih hstill hne' hfits
        refine ⟨x :: new, ?_, List.cons_subset_cons x hsub⟩
        rw [hnew, addPair, hkeys, List.append_assoc, List.singleton_append]
      · rw [ownersFit_cons_same fun _ => hno,
          ← ownersFit_congr fun y hy => hfound y.1 (hne' y hy), ← hkeys] at hfits
        obtain ⟨new, hnew, hsub⟩ := ih hstill hne' hfits.2
        exact ⟨new, hnew.trans (congrArg (· ++ new) hkeys),
          fun k hk => List.mem_cons_of_mem x (hsub hk)⟩

end UserTrack

end Tacppd
