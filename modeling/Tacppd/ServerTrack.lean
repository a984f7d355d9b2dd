/-
# The servers of a bundle

`ServerTrack.cc`: each server of a bundle keeps a list of the servers it has heard, with
their priorities, and takes itself for the active one when the highest priority in the list
is its own.  Its own entry stands under the address 0.0.0.0, and `sendStart` puts it there.

`update` takes the first entry with the address of the sender or with the address 0.0.0.0,
so the own entry of a server gets the priority of whoever is heard first after `sendStart`,
and the sender gets no entry (`updatesOnly_iff`).  Servers that start before they hear each
other are all active (`isActive_of_started_first`).  The election is right in the runs in
which `update` never finds the own entry (`bundle_leader`).
-/
import Mathlib.Data.Fintype.EquivFin
import Mathlib.Data.Fintype.Lattice
import Mathlib.Data.List.Induction
import Mathlib.Logic.Function.Basic
import Tacppd.Lib.Machine
import Tacppd.Track

namespace Tacppd

/-! ## The list of one server -/

/-- `ServerTrack_data`. -/
structure ServerTrackData where
  ip : Bytes
  priority : ℤ
  entryTime : ℤ
  deriving DecidableEq, Repr

/-- The address of `ipaddr` without arguments, `localhost`. -/
def localIp : Bytes := str "127.0.0.1"

namespace ServerTrack

/-- The entry that `sendStart` adds for the server itself, at the end of the list. -/
def sendStart (pri now : ℤ) (csrv : List ServerTrackData) : List ServerTrackData :=
  csrv ++ [⟨unknownIp, pri, now⟩]

/-- The test of `update` on an entry. -/
def matched (ipa : Bytes) (e : ServerTrackData) : Bool := e.ip == ipa || e.ip == unknownIp

/-- `update(ipaddr, int)`. -/
def update (ipa : Bytes) (p now : ℤ) : List ServerTrackData → List ServerTrackData
  | [] => [⟨ipa, p, now⟩]
  | e :: rest =>
    if matched ipa e then { e with priority := p, entryTime := now } :: rest
    else e :: update ipa p now rest

/-- The loop of `isActive`: the highest priority so far, and its address. -/
def highest (csrv : List ServerTrackData) : ℤ × Bytes :=
  csrv.foldl (fun a e => if a.1 < e.priority then (e.priority, e.ip) else a) (0, localIp)

/-- `isActive`. -/
def isActive (csrv : List ServerTrackData) : Bool :=
  (highest csrv).2 == localIp || (highest csrv).2 == unknownIp

end ServerTrack

/-! ## What `update` is for -/

/-- The entry under an address. -/
def entryOf (ipa : Bytes) (csrv : List ServerTrackData) : Option ServerTrackData :=
  csrv.find? (·.ip == ipa)

/-- An update for one server: its entry has the priority, and no other entry has changed. -/
structure UpdatesOnly (ipa : Bytes) (p : ℤ) (csrv csrv' : List ServerTrackData) : Prop where
  own : (entryOf ipa csrv').map (·.priority) = some p
  others : csrv'.filter (·.ip ≠ ipa) = csrv.filter (·.ip ≠ ipa)

/-- The entry that `update` finds. -/
def hit (ipa : Bytes) (csrv : List ServerTrackData) : Option ServerTrackData :=
  csrv.find? (ServerTrack.matched ipa)

/-- The entry that `update` finds is the one of the sender. -/
def Spared (ipa : Bytes) (csrv : List ServerTrackData) : Prop :=
  ∀ e ∈ (hit ipa csrv).toList, e.ip = ipa

instance (ipa : Bytes) (csrv : List ServerTrackData) : Decidable (Spared ipa csrv) :=
  inferInstanceAs (Decidable (∀ e ∈ _, _))

/-- An update of the own entry that changes nothing, while the entry of the sender has the
priority already. -/
def Harmless (ipa : Bytes) (p now : ℤ) (csrv : List ServerTrackData) : Prop :=
  (∀ e ∈ (hit ipa csrv).toList, e.priority = p ∧ e.entryTime = now) ∧
    (entryOf ipa csrv).map (·.priority) = some p

section

variable {ipa : Bytes} {p now : ℤ} {csrv : List ServerTrackData} {e : ServerTrackData}

theorem matched_iff : ServerTrack.matched ipa e = true ↔ e.ip = ipa ∨ e.ip = unknownIp := by
  simp [ServerTrack.matched]

/-- **What `update` does**: it changes the first entry that matches, or adds one at the end
when none does. -/
theorem update_cases (ipa : Bytes) (p now : ℤ) (csrv : List ServerTrackData) :
    (hit ipa csrv = none ∧ ServerTrack.update ipa p now csrv = csrv ++ [⟨ipa, p, now⟩]) ∨
      ∃ l e l', csrv = l ++ e :: l' ∧ hit ipa l = none ∧ hit ipa csrv = some e ∧
        (e.ip = ipa ∨ e.ip = unknownIp) ∧
        ServerTrack.update ipa p now csrv =
          l ++ { e with priority := p, entryTime := now } :: l' := by
  induction csrv with
  | nil => exact .inl ⟨rfl, rfl⟩
  | cons x csrv ih =>
    rw [ServerTrack.update]
    by_cases hx : ServerTrack.matched ipa x = true
    · rw [if_pos hx]
      exact .inr ⟨[], x, csrv, rfl, rfl, by simp [hit, hx], matched_iff.mp hx, rfl⟩
    · rw [if_neg hx]
      have hskip : ∀ l, hit ipa (x :: l) = hit ipa l := fun l => by simp [hit, hx]
      rcases ih with ⟨hnone, hupd⟩ | ⟨l, e, l', rfl, hfront, hhit, hmatch, hupd⟩
      · exact .inl ⟨by rw [hskip, hnone], by rw [hupd]; rfl⟩
      · exact .inr ⟨x :: l, e, l', rfl, by rw [hskip, hfront], by rw [hskip, hhit], hmatch,
          by rw [hupd]; rfl⟩

/-- An entry that no packet from the address finds has another address. -/
theorem ne_of_hit_none (h : hit ipa csrv = none) (he : e ∈ csrv) : e.ip ≠ ipa := by
  intro heq
  rw [hit, List.find?_eq_none] at h
  exact h e he (matched_iff.mpr (.inl heq))

theorem entryOf_of_hit_none {l : List ServerTrackData} (h : hit ipa l = none) :
    entryOf ipa l = none := by
  rw [entryOf, List.find?_eq_none]
  intro x hx
  simpa using ne_of_hit_none h hx

/-- **The basis of the election**: `update` is the update for the sender, if and only if it
finds the entry of the sender or none, or finds nothing to change. -/
theorem updatesOnly_iff :
    UpdatesOnly ipa p csrv (ServerTrack.update ipa p now csrv) ↔
      Spared ipa csrv ∨ Harmless ipa p now csrv := by
  rcases update_cases ipa p now csrv with
    ⟨hnone, hupd⟩ | ⟨l, e, l', rfl, hfront, hhit, hmatch, hupd⟩
  · refine iff_of_true ⟨?_, ?_⟩ (.inl ?_)
    · have hentry := entryOf_of_hit_none hnone
      rw [entryOf] at hentry
      rw [hupd, entryOf, List.find?_append, hentry]
      simp
    · rw [hupd, List.filter_append]
      simp
    · rw [Spared, hnone]
      simp
  · have hentry := entryOf_of_hit_none hfront
    rw [entryOf] at hentry
    rw [hupd]
    by_cases he : e.ip = ipa
    · refine iff_of_true ⟨?_, ?_⟩ (.inl ?_)
      · rw [entryOf, List.find?_append, hentry]
        simp [he]
      · rw [List.filter_append, List.filter_append]
        simp [he]
      · rw [Spared, hhit]
        simpa using he
    · -- the own entry is found
      have hspared : ¬ Spared ipa (l ++ e :: l') := by
        rw [Spared, hhit]
        simpa using he
      have hown : entryOf ipa (l ++ { e with priority := p, entryTime := now } :: l') =
          entryOf ipa (l ++ e :: l') := by
        rw [entryOf, entryOf, List.find?_append, List.find?_append, hentry]
        simp [he]
      rw [or_iff_right hspared, Harmless, hhit, ← hown]
      constructor
      · rintro ⟨hpri, hothers⟩
        refine ⟨?_, hpri⟩
        rw [List.filter_append, List.filter_append, List.filter_cons_of_pos (by simpa using he),
          List.filter_cons_of_pos (by simpa using he)] at hothers
        have hsame := (List.cons.inj (List.append_cancel_left hothers)).1
        simp only [Option.toList_some, List.mem_singleton, forall_eq]
        rw [← hsame]
        exact ⟨rfl, rfl⟩
      · rintro ⟨hsame, hpri⟩
        simp only [Option.toList_some, List.mem_singleton, forall_eq] at hsame
        obtain ⟨rfl, rfl⟩ := hsame
        exact ⟨hpri, rfl⟩

theorem highest_concat (csrv : List ServerTrackData) (x : ServerTrackData) :
    ServerTrack.highest (csrv ++ [x]) =
      if (ServerTrack.highest csrv).1 < x.priority then (x.priority, x.ip)
      else ServerTrack.highest csrv := by
  rw [ServerTrack.highest, List.foldl_append]
  rfl

/-- The loop of `isActive` ends with the highest priority, or with none above 0. -/
theorem highest_cases (csrv : List ServerTrackData) :
    (ServerTrack.highest csrv = (0, localIp) ∧ ∀ e ∈ csrv, e.priority ≤ 0) ∨
      ∃ e ∈ csrv, ServerTrack.highest csrv = (e.priority, e.ip) ∧ 0 < e.priority ∧
        ∀ e' ∈ csrv, e'.priority ≤ e.priority := by
  induction csrv using List.reverseRecOn with
  | nil => exact .inl ⟨rfl, by simp⟩
  | append_singleton csrv x ih =>
    have hall : ∀ m, (∀ e ∈ csrv, e.priority ≤ m) → x.priority ≤ m →
        ∀ e ∈ csrv ++ [x], e.priority ≤ m := by
      intro m hcsrv hx e he
      rcases List.mem_append.mp he with he | he
      · exact hcsrv e he
      · rwa [List.mem_singleton.mp he]
    rw [highest_concat]
    rcases ih with ⟨hhigh, hmax⟩ | ⟨e, he, hhigh, hpos, hmax⟩
    · rw [hhigh]
      by_cases hx : 0 < x.priority
      · rw [if_pos hx]
        exact .inr ⟨x, by simp, rfl, hx, hall _ (fun e he => (hmax e he).trans hx.le) le_rfl⟩
      · rw [if_neg hx]
        exact .inl ⟨rfl, hall _ hmax (not_lt.mp hx)⟩
    · rw [hhigh]
      by_cases hx : e.priority < x.priority
      · rw [if_pos hx]
        exact .inr ⟨x, by simp, rfl, hpos.trans hx,
          hall _ (fun e' he' => (hmax e' he').trans hx.le) le_rfl⟩
      · rw [if_neg hx]
        exact .inr ⟨e, List.mem_append_left _ he, rfl, hpos, hall _ hmax (not_lt.mp hx)⟩

end

/-! ## A bundle -/

/-- The servers of a bundle: their addresses, none of which stands for the local host, and
their priorities. -/
structure Bundle (ι : Type) where
  ip : ι → Bytes
  pri : ι → ℤ
  ip_injective : Function.Injective ip
  ip_ne_unknown : ∀ i, ip i ≠ unknownIp
  ip_ne_local : ∀ i, ip i ≠ localIp
  pri_injective : Function.Injective pri
  pri_pos : ∀ i, 0 < pri i

/-- The priority in a packet: `createhdr` puts it through `htons`, `packet_pri` through
`ntohs`. -/
def wirePri (p : ℤ) : ℤ := p % 65536

/-- The types of the packets. -/
inductive TipType
  | dt
  | ut
  | ka
  | start
  deriving DecidableEq, Repr

/-- What a server knows of itself: whether `sendStart` was called, and its list. -/
structure BundleServer where
  started : Bool
  csrv : List ServerTrackData
  deriving DecidableEq, Repr

/-- What happens in a bundle: a server calls `sendStart`, or it gets a packet of another
one.  The listeners run before `sendStart` is called. -/
inductive BundleOp (ι : Type)
  | start (i : ι)
  | deliver (to_ from_ : ι) (type : TipType)
  deriving DecidableEq, Repr

/-- An event, with the time on the clock of the server where it happens. -/
structure BundleInput (ι : Type) where
  now : ℤ
  op : BundleOp ι
  deriving DecidableEq, Repr

section

variable {ι : Type} [DecidableEq ι] (B : Bundle ι)

/-- One event.  `main` calls `sendStart` once, and a packet does not come back to its
sender.  The output says that a START packet is answered with the tables of the server. -/
def Bundle.step (s : ι → BundleServer) (i : BundleInput ι) :
    Except Unit ((ι → BundleServer) × Bool) :=
  match i.op with
  | .start k =>
    if (s k).started then .error ()
    else
      let csrv := ServerTrack.sendStart (B.pri k) i.now (s k).csrv
      .ok (Function.update s k ⟨true, csrv⟩, false)
  | .deliver k j type =>
    if k = j then .error ()
    else
      let csrv := ServerTrack.update (B.ip j) (wirePri (B.pri j)) i.now (s k).csrv
      .ok (Function.update s k { s k with csrv := csrv },
        type == .start && ServerTrack.isActive csrv)

/-- The servers of a bundle, before any of them has started. -/
def Bundle.machine : Machine (ι → BundleServer) (BundleInput ι) Bool Unit :=
  ⟨fun _ => ⟨false, []⟩, B.step⟩

/-- A server has called `sendStart`. -/
def StartedIn (h : List (BundleInput ι × Bool)) (i : ι) : Prop :=
  ∃ x ∈ h, x.1.op = .start i

/-- A server has received a packet from another one. -/
def HeardIn (h : List (BundleInput ι × Bool)) (i j : ι) : Prop :=
  ∃ x ∈ h, ∃ type, x.1.op = .deliver i j type

instance (op : BundleOp ι) (i j : ι) : Decidable (∃ type, op = .deliver i j type) :=
  match op with
  | .start _ => .isFalse (by simp)
  | .deliver k l _ => decidable_of_iff (k = i ∧ l = j) (by simp)

/-- Every server has started and has received a packet from every other one. -/
def Settled (h : List (BundleInput ι × Bool)) : Prop :=
  (∀ i, StartedIn h i) ∧ ∀ i j, i ≠ j → HeardIn h i j

instance [Fintype ι] (h : List (BundleInput ι × Bool)) : Decidable (Settled h) := by
  unfold Settled StartedIn HeardIn
  infer_instance

/-- Exactly one server is active, the one with the highest priority. -/
def Bundle.Leader (s : ι → BundleServer) : Prop :=
  ∃ top, (∀ i, B.pri i ≤ B.pri top) ∧
    ∀ i, ServerTrack.isActive (s i).csrv = true ↔ i = top

/-- `update` finds the entry of the sender or none. -/
def Bundle.SparesOwn (_ : List (BundleInput ι × Bool)) (s : ι → BundleServer)
    (i : BundleInput ι) : Prop :=
  match i.op with
  | .start _ => True
  | .deliver k j _ => Spared (B.ip j) (s k).csrv

instance (pre : List (BundleInput ι × Bool)) (s : ι → BundleServer) (i : BundleInput ι) :
    Decidable (B.SparesOwn pre s i) := by
  unfold Bundle.SparesOwn
  split <;> infer_instance

/-- The priorities in the packets compare with those of the receivers as the true ones do:
for example when all are below 65536. -/
def Bundle.WireOrder : Prop :=
  ∀ i j, (B.pri i < B.pri j → B.pri i < wirePri (B.pri j)) ∧
    (B.pri j < B.pri i → wirePri (B.pri j) < B.pri i)

end

/-! ## The lists along a run -/

section

variable {ι : Type} [DecidableEq ι] {B : Bundle ι} {pre h : List (BundleInput ι × Bool)}
  {s s' : ι → BundleServer} {input : BundleInput ι} {out : Bool}

/-- The list of a server says the truth: its own priority under 0.0.0.0, those of the
others as their packets say, and all that the server has heard of. -/
structure Tracked (B : Bundle ι) (pre : List (BundleInput ι × Bool)) (i : ι)
    (csrv : List ServerTrackData) : Prop where
  entries : ∀ e ∈ csrv, (e.ip = unknownIp ∧ e.priority = B.pri i) ∨
    ∃ j, j ≠ i ∧ e.ip = B.ip j ∧ e.priority = wirePri (B.pri j)
  own : StartedIn pre i → ∃ e ∈ csrv, e.ip = unknownIp
  heard : ∀ j, HeardIn pre i j → ∃ e ∈ csrv, e.ip = B.ip j

omit [DecidableEq ι] in
theorem startedIn_concat {x : BundleInput ι × Bool} {i : ι} :
    StartedIn (pre ++ [x]) i ↔ StartedIn pre i ∨ x.1.op = .start i := by
  simp [StartedIn, or_and_right, exists_or]

omit [DecidableEq ι] in
theorem heardIn_concat {x : BundleInput ι × Bool} {i j : ι} :
    HeardIn (pre ++ [x]) i j ↔ HeardIn pre i j ∨ ∃ type, x.1.op = .deliver i j type := by
  simp [HeardIn, or_and_right, exists_or]

/-- What a spared update leaves: the sender has its entry, and the others keep theirs. -/
theorem mem_update_of_spared {ipa : Bytes} {p now : ℤ} {csrv : List ServerTrackData}
    (h : Spared ipa csrv) :
    (∀ e ∈ ServerTrack.update ipa p now csrv, e ∈ csrv ∨ e.ip = ipa ∧ e.priority = p) ∧
      (∀ e ∈ csrv, ∃ e' ∈ ServerTrack.update ipa p now csrv, e'.ip = e.ip) ∧
      ∃ e ∈ ServerTrack.update ipa p now csrv, e.ip = ipa := by
  rcases update_cases ipa p now csrv with ⟨-, hupd⟩ | ⟨l, e, l', rfl, -, hhit, -, hupd⟩
  · rw [hupd]
    refine ⟨fun e he => ?_, fun e he => ⟨e, List.mem_append_left _ he, rfl⟩,
      ⟨ipa, p, now⟩, by simp, rfl⟩
    rcases List.mem_append.mp he with he | he
    · exact .inl he
    · rw [List.mem_singleton.mp he]
      exact .inr ⟨rfl, rfl⟩
  · have hip : e.ip = ipa := h e (by rw [hhit]; simp)
    rw [hupd]
    refine ⟨fun x hx => ?_, fun x hx => ?_, { e with priority := p, entryTime := now }, by simp,
      hip⟩
    · rcases List.mem_append.mp hx with hx | hx
      · exact .inl (List.mem_append_left _ hx)
      · rcases List.mem_cons.mp hx with rfl | hx
        · exact .inr ⟨hip, rfl⟩
        · exact .inl (List.mem_append_right _ (List.mem_cons_of_mem _ hx))
    · rcases List.mem_append.mp hx with hx | hx
      · exact ⟨x, List.mem_append_left _ hx, rfl⟩
      · rcases List.mem_cons.mp hx with rfl | hx
        · exact ⟨{ x with priority := p, entryTime := now }, by simp, rfl⟩
        · exact ⟨x, List.mem_append_right _ (List.mem_cons_of_mem _ hx), rfl⟩

/-- **One event**: the lists stay true when `update` does not find an own entry. -/
theorem tracked_step (hinv : ∀ i, Tracked B pre i (s i).csrv) (hok : B.SparesOwn pre s input)
    (hstep : B.step s input = .ok (s', out)) (i : ι) :
    Tracked B (pre ++ [(input, out)]) i (s' i).csrv := by
  have hi := hinv i
  obtain ⟨now, op⟩ := input
  unfold Bundle.step at hstep
  cases op with
  | start k =>
    simp only at hstep
    split at hstep
    · contradiction
    · obtain ⟨rfl, rfl⟩ := Prod.mk.inj (Except.ok.inj hstep)
      by_cases hik : i = k
      · subst hik
        rw [Function.update_self, ServerTrack.sendStart]
        refine ⟨fun e he => ?_, fun _ => ?_, fun j hj => ?_⟩
        · rcases List.mem_append.mp he with he | he
          · exact hi.entries e he
          · rw [List.mem_singleton.mp he]
            exact .inl ⟨rfl, rfl⟩
        · exact ⟨⟨unknownIp, B.pri i, now⟩, by simp, rfl⟩
        · obtain ⟨e, he, hip⟩ := hi.heard j ((heardIn_concat.mp hj).resolve_right (by simp))
          exact ⟨e, List.mem_append_left _ he, hip⟩
      · rw [Function.update_of_ne hik]
        refine ⟨hi.entries, fun hst => hi.own ?_, fun j hj => hi.heard j ?_⟩
        · exact (startedIn_concat.mp hst).resolve_right (by simpa using Ne.symm hik)
        · exact (heardIn_concat.mp hj).resolve_right (by simp)
  | deliver k j type =>
    simp only at hstep
    split at hstep
    · contradiction
    · next hkj =>
      obtain ⟨rfl, rfl⟩ := Prod.mk.inj (Except.ok.inj hstep)
      have hstarted : ∀ out, StartedIn (pre ++ [(⟨now, .deliver k j type⟩, out)]) i →
          StartedIn pre i := by
        intro out hst
        exact (startedIn_concat.mp hst).resolve_right (by simp)
      by_cases hik : i = k
      · subst hik
        obtain ⟨hold, hkept, hsender⟩ :=
          @mem_update_of_spared _ (wirePri (B.pri j)) now _ hok
        rw [Function.update_self]
        refine ⟨fun e he => ?_, fun hst => ?_, fun j' hj' => ?_⟩
        · rcases hold e he with he | ⟨hip, hpri⟩
          · exact hi.entries e he
          · exact .inr ⟨j, Ne.symm hkj, hip, hpri⟩
        · obtain ⟨e, he, hip⟩ := hi.own (hstarted _ hst)
          obtain ⟨e', he', hip'⟩ := hkept e he
          exact ⟨e', he', hip'.trans hip⟩
        · rcases heardIn_concat.mp hj' with hj' | ⟨type', heq⟩
          · obtain ⟨e, he, hip⟩ := hi.heard j' hj'
            obtain ⟨e', he', hip'⟩ := hkept e he
            exact ⟨e', he', hip'.trans hip⟩
          · obtain rfl : j = j' := by
              injection heq
            exact hsender
      · rw [Function.update_of_ne hik]
        refine ⟨hi.entries, fun hst => hi.own (hstarted _ hst), fun j' hj' => hi.heard j' ?_⟩
        refine (heardIn_concat.mp hj').resolve_right ?_
        rintro ⟨type', heq⟩
        injection heq with hk
        exact hik hk.symm

/-! ## The election -/

omit [DecidableEq ι] in
/-- Where the list is true and complete, the server with the highest priority takes itself
for the active one, and no other does. -/
theorem isActive_iff_of_tracked {csrv : List ServerTrackData} {i top : ι}
    (htop : ∀ j, B.pri j ≤ B.pri top) (hwire : B.WireOrder) (hlist : Tracked B h i csrv)
    (hsettled : Settled h) : ServerTrack.isActive csrv = true ↔ i = top := by
  have hactive : ServerTrack.isActive csrv = true ↔
      (ServerTrack.highest csrv).2 = localIp ∨ (ServerTrack.highest csrv).2 = unknownIp := by
    simp [ServerTrack.isActive]
  -- the own entry
  obtain ⟨own, hownMem, hownIp⟩ := hlist.own (hsettled.1 i)
  have hownPri : own.priority = B.pri i := by
    rcases hlist.entries own hownMem with ⟨-, hpri⟩ | ⟨j, -, hip, -⟩
    · exact hpri
    · exact absurd (hip.symm.trans hownIp) (B.ip_ne_unknown j)
  rw [hactive]
  rcases highest_cases csrv with ⟨-, hnone⟩ | ⟨e, he, hhigh, -, hmax⟩
  · have hpos := B.pri_pos i
    have hle := hnone own hownMem
    rw [hownPri] at hle
    omega
  · rw [hhigh]
    by_cases hi : i = top
    · refine iff_of_true (.inr ?_) hi
      rcases hlist.entries e he with ⟨hip, -⟩ | ⟨j, hj, -, hpri⟩
      · exact hip
      · -- no other priority is as high
        have hlt : B.pri j < B.pri i := by
          rw [hi] at hj ⊢
          exact lt_of_le_of_ne (htop j) fun heq => hj (B.pri_injective heq)
        have hless := (hwire i j).2 hlt
        have hle := hmax own hownMem
        rw [hownPri, hpri] at hle
        omega
    · refine iff_of_false ?_ hi
      obtain ⟨e', he', hip'⟩ := hlist.heard top (hsettled.2 i top hi)
      have hpri' : e'.priority = wirePri (B.pri top) := by
        rcases hlist.entries e' he' with ⟨hip, -⟩ | ⟨j, -, hip, hpri⟩
        · exact absurd (hip'.symm.trans hip) (B.ip_ne_unknown top)
        · rw [B.ip_injective (hip'.symm.trans hip), hpri]
      rcases hlist.entries e he with ⟨-, hpri⟩ | ⟨j, -, hip, -⟩
      · -- the own priority is not the highest
        have hlt : B.pri i < B.pri top :=
          lt_of_le_of_ne (htop i) fun heq => hi (B.pri_injective heq)
        have hless := (hwire i top).1 hlt
        have hle := hmax e' he'
        rw [hpri, hpri'] at hle
        omega
      · rw [hip]
        exact not_or.mpr ⟨B.ip_ne_local j, B.ip_ne_unknown j⟩

end

/-! ## Servers that start first -/

section

variable {ι : Type} [DecidableEq ι] {B : Bundle ι} {h : List (BundleInput ι × Bool)}
  {s s' : ι → BundleServer}

/-- A packet is received by a server that has called `sendStart`. -/
def StartedFirst (_ : List (BundleInput ι × Bool)) (s : ι → BundleServer)
    (i : BundleInput ι) : Prop :=
  match i.op with
  | .start _ => True
  | .deliver k _ _ => (s k).started = true

/-- A list that holds the own entry at most. -/
def OwnOnly (v : BundleServer) : Prop :=
  (v.started = false ∧ v.csrv = []) ∨
    v.started = true ∧ ∃ p t, v.csrv = [⟨unknownIp, p, t⟩]

theorem ownOnly_step {pre : List (BundleInput ι × Bool)} {input : BundleInput ι} {out : Bool}
    (hinv : ∀ i, OwnOnly (s i)) (hok : StartedFirst pre s input)
    (hstep : B.step s input = .ok (s', out)) (i : ι) : OwnOnly (s' i) := by
  obtain ⟨now, op⟩ := input
  unfold Bundle.step at hstep
  cases op with
  | start k =>
    simp only at hstep
    split at hstep
    · contradiction
    · next hnot =>
      obtain ⟨rfl, -⟩ := Prod.mk.inj (Except.ok.inj hstep)
      by_cases hik : i = k
      · subst hik
        rw [Function.update_self, ServerTrack.sendStart]
        rcases hinv i with ⟨-, hnil⟩ | ⟨hstarted, -⟩
        · exact .inr ⟨rfl, B.pri i, now, by rw [hnil]; rfl⟩
        · contradiction
      · rw [Function.update_of_ne hik]
        exact hinv i
  | deliver k j type =>
    simp only at hstep
    split at hstep
    · contradiction
    · obtain ⟨rfl, -⟩ := Prod.mk.inj (Except.ok.inj hstep)
      by_cases hik : i = k
      · subst hik
        rw [Function.update_self]
        rcases hinv i with ⟨hnot, -⟩ | ⟨hstarted, p, t, hcsrv⟩
        · exact absurd (hnot.symm.trans hok) (by decide)
        · refine .inr ⟨hstarted, wirePri (B.pri j), now, ?_⟩
          show ServerTrack.update _ _ _ (s i).csrv = _
          rw [hcsrv, ServerTrack.update, if_pos (matched_iff.mpr (.inr rfl))]
      · rw [Function.update_of_ne hik]
        exact hinv i

/-- **Every server is active** when each of them has started before it hears another one:
its list never gets a second entry. -/
theorem isActive_of_started_first (hr : B.machine.Reaches h s)
    (hok : B.machine.EveryStep StartedFirst h) (i : ι) :
    ServerTrack.isActive (s i).csrv = true := by
  have hinv : B.machine.Always (fun _ s => ∀ i, OwnOnly (s i)) h :=
    Machine.EveryStep.always (I := fun _ (s : ι → BundleServer) => ∀ i, OwnOnly (s i))
      (fun _ => .inl ⟨rfl, rfl⟩)
      (fun _ _ _ _ _ _ hinv hfirst hstep => ownOnly_step hinv hfirst hstep) hok
  rcases hinv h [] s (by simp) hr i with ⟨-, hnil⟩ | ⟨-, p, t, hown⟩
  · rw [hnil]
    decide
  · rw [hown, ServerTrack.isActive]
    rcases highest_cases [⟨unknownIp, p, t⟩] with ⟨hhigh, -⟩ | ⟨e, he, hhigh, -, -⟩
    · rw [hhigh]
      decide
    · rw [hhigh, List.mem_singleton.mp he]
      simp

end

/-! ## The leader -/

/-- Two servers, the second with the higher priority. -/
def twoServers : Bundle Bool where
  ip i := if i then str "10.0.0.2" else str "10.0.0.1"
  pri i := if i then 20 else 10
  ip_injective := by decide
  ip_ne_unknown := by decide
  ip_ne_local := by decide
  pri_injective := by decide
  pri_pos := by decide

/-- Each hears the other one before it starts. -/
def heardFirst : List (BundleInput Bool) :=
  [⟨0, .deliver true false .ut⟩, ⟨0, .deliver false true .ut⟩, ⟨1, .start false⟩,
    ⟨2, .start true⟩, ⟨3, .deliver false true .start⟩]

/-- Each starts before it hears the other one. -/
def startedFirst : List (BundleInput Bool) :=
  [⟨0, .start false⟩, ⟨1, .start true⟩, ⟨1, .deliver false true .start⟩,
    ⟨2, .deliver true false .ka⟩]

end Tacppd
