/-
# The life time of the shared user data

`DeviceUser_data` objects come and go: the tracked entries are made with the record of
their user and deleted one by one, and the getters make, assign and destroy temporaries
all the time.  The six-argument constructor and the assignment call `addUd`, the
destructor calls `delUd`, the other constructors call nothing.  Here every run of them
is a run of the machine `objects`.

The record of a user should be in the store exactly while the user is tracked.  The
counter starts at 0 and copies are not counted, so this is lost quickly; the condition
under which a step keeps it is exact (`step_shared_iff`).
-/
import Tacppd.Lib.Machine
import Tacppd.UserData

namespace Tacppd

/-! ## The objects -/

/-- The objects that are alive, by the name of their user: the tracked entries, which
stand in the lists `cusr_`, and the temporaries. -/
structure Objects where
  billing : CoreBilling
  cusr : List Bytes
  temps : List Bytes

/-- An object: the tracked entry or the temporary at a place. -/
inductive ObjRef
  | entry (i : ℕ)
  | temp (j : ℕ)
  deriving DecidableEq, Repr

/-- What can happen to the objects.  Tracked entries are made by `usr_add` and deleted,
and never assigned to. -/
inductive ObjOp
  /-- `usr_add` makes an entry with a record and puts it on a list. -/
  | add (d : UserRecord)
  /-- The constructor without arguments. -/
  | construct
  /-- The copy constructor, for a parameter or a return value. -/
  | copy (from_ : ObjRef)
  /-- A temporary is assigned an object. -/
  | assign (j : ℕ) (from_ : ObjRef)
  /-- An object is destroyed; a tracked entry is taken from its list. -/
  | destroy (ref : ObjRef)
  deriving DecidableEq, Repr

namespace Objects

def new : Objects := ⟨CoreBilling.empty, [], []⟩

/-- The user name in an object, nothing when there is no such object. -/
def username (s : Objects) : ObjRef → Option Bytes
  | .entry i => s.cusr[i]?
  | .temp j => s.temps[j]?

/-- Take an object away. -/
def erase (s : Objects) : ObjRef → Objects
  | .entry i => { s with cusr := s.cusr.eraseIdx i }
  | .temp j => { s with temps := s.temps.eraseIdx j }

/-- One step; nothing happens to objects that do not exist. -/
def step (s : Objects) : ObjOp → Except Unit (Objects × Unit)
  | .add d => .ok ({ s with billing := s.billing.addUd d, cusr := s.cusr ++ [d.username] }, ())
  | .construct => .ok ({ s with temps := s.temps ++ [[]] }, ())
  | .copy ref =>
    match s.username ref with
    | none => .error ()
    | some u => .ok ({ s with temps := s.temps ++ [u] }, ())
  | .assign j ref =>
    match s.temps[j]?, s.username ref with
    | some _, some u =>
      -- the parameter is a copy, which is destroyed at the end
      let billing := (s.billing.addUd (s.billing.getUd u)).delUd u
      .ok ({ s with billing := billing, temps := s.temps.set j u }, ())
    | _, _ => .error ()
  | .destroy ref =>
    match s.username ref with
    | none => .error ()
    | some u => .ok ({ s.erase ref with billing := s.billing.delUd u }, ())

/-- The objects as a machine. -/
def machine : Machine Objects ObjOp Unit Unit := ⟨new, step⟩

/-! ## The shared records -/

/-- The record of a user is found exactly when an entry of the user is tracked. -/
def Shared (s : Objects) : Prop := ∀ u, (s.billing.find u).isSome = true ↔ u ∈ s.cusr

/-- The counter of a user is there and is at least `n`. -/
def Counts (s : Objects) (n : ℕ) (u : Bytes) : Prop := ∃ x, s.billing.find u = some x ∧ n ≤ x.numptr

/-- The condition for a step.  Where an object is destroyed, the counter must be above 1
exactly when a tracked entry of this user remains.  Where one is assigned, the counter of
its user must not be 0; without a record a new one with an empty name is stored, which
does no harm when the name is empty or an entry with the empty name is tracked. -/
def Keeps (s : Objects) : ObjOp → Prop
  | .add _ | .construct | .copy _ => True
  | .assign _ ref => ∀ u, s.username ref = some u →
      s.Counts 1 u ∨ s.billing.find u = none ∧ (u = [] ∨ [] ∈ s.cusr)
  | .destroy ref => ∀ u, s.username ref = some u → (s.Counts 2 u ↔ u ∈ (s.erase ref).cusr)

theorem shared_new : new.Shared := by
  intro u
  simp [new]

/-! ## What a step does to the store -/

/-- A record is found after `delUd` when the counter of its name was above 1. -/
theorem isSome_find_delUd (b : CoreBilling) (u v : Bytes) :
    ((b.delUd u).find v).isSome = true ↔
      if v = u then ∃ x, b.find u = some x ∧ 2 ≤ x.numptr else (b.find v).isSome = true := by
  rw [b.find_delUd]
  by_cases hv : v = u
  · rw [if_pos hv, if_pos hv]
    cases h : b.find u with
    | none => simp
    | some x =>
      rw [Option.bind_some, UserData.release]
      by_cases hx : x.numptr ≤ 1
      · rw [if_pos hx]
        refine iff_of_false (by simp) ?_
        rintro ⟨y, hy, hy2⟩
        obtain rfl := Option.some.inj hy
        omega
      · rw [if_neg hx]
        refine iff_of_true rfl ⟨x, rfl, by omega⟩
  · rw [if_neg hv, if_neg hv]

/-- An assignment keeps the record of a user whose counter is not 0; without a record it
stores one with an empty name. -/
theorem isSome_find_assign (b : CoreBilling) (u v : Bytes) :
    (((b.addUd (b.getUd u)).delUd u).find v).isSome = true ↔
      if v = u then ∃ x, b.find u = some x ∧ 1 ≤ x.numptr
      else (b.find v).isSome = true ∨ v = [] ∧ b.find u = none := by
  rw [isSome_find_delUd, b.find_addUd, b.find_addUd, b.getUd_username]
  by_cases hv : v = u
  · subst hv
    rw [if_pos rfl, if_pos rfl]
    cases hfind : b.find v with
    | none =>
      refine iff_of_false ?_ (by simp)
      rintro ⟨y, hy, hy2⟩
      rw [Option.isSome_none, if_neg Bool.false_ne_true] at hy
      split at hy
      · obtain rfl := Option.some.inj hy
        simp at hy2
      · contradiction
    | some x =>
      rw [Option.isSome_some, if_pos rfl, if_pos rfl]
      constructor
      · rintro ⟨y, hy, hy2⟩
        obtain rfl := Option.some.inj hy
        simp only at hy2
        exact ⟨x, rfl, by omega⟩
      · rintro ⟨y, hy, hy1⟩
        obtain rfl := Option.some.inj hy
        exact ⟨_, rfl, by simp only; omega⟩
  · rw [if_neg hv, if_neg hv]
    cases hfind : b.find u with
    | none =>
      rw [Option.isSome_none, if_neg Bool.false_ne_true]
      by_cases hnil : v = []
      · rw [if_pos hnil]
        exact iff_of_true rfl (.inr ⟨hnil, rfl⟩)
      · rw [if_neg hnil]
        simp [hnil]
    | some x =>
      rw [Option.isSome_some, if_pos rfl, if_neg hv]
      simp

/-! ## One step -/

theorem mem_entry {s : Objects} {ref : ObjRef} {u v : Bytes} (hu : s.username ref = some u)
    (hv : v ≠ u) : v ∈ (s.erase ref).cusr ↔ v ∈ s.cusr := by
  cases ref with
  | temp j => rfl
  | entry i =>
    show v ∈ s.cusr.eraseIdx i ↔ v ∈ s.cusr
    refine ⟨fun h => List.mem_of_mem_eraseIdx h, fun h => ?_⟩
    rw [List.mem_eraseIdx_iff_getElem?]
    obtain ⟨k, hk⟩ := List.mem_iff_getElem?.mp h
    refine ⟨k, ?_, hk⟩
    rintro rfl
    have hi : s.cusr[k]? = some u := hu
    rw [hi] at hk
    exact hv (Option.some.inj hk).symm

/-- An assignment of an object with the name `u`. -/
theorem shared_assign_iff {s : Objects} (hs : s.Shared) (u : Bytes) (temps : List Bytes) :
    Shared { s with billing := (s.billing.addUd (s.billing.getUd u)).delUd u, temps := temps } ↔
      s.Counts 1 u ∨ s.billing.find u = none ∧ (u = [] ∨ [] ∈ s.cusr) := by
  have hstored := isSome_find_assign s.billing u
  constructor
  · intro hs'
    cases hfind : s.billing.find u with
    | none =>
      -- there is a record with the empty name now, unless it is this name
      right
      refine ⟨rfl, ?_⟩
      by_cases hnil : u = []
      · exact .inl hnil
      · right
        have hempty := hs' []
        rw [hstored, if_neg (Ne.symm hnil)] at hempty
        exact hempty.mp (.inr ⟨rfl, hfind⟩)
    | some x =>
      left
      have hu := hs' u
      rw [hstored, if_pos rfl] at hu
      have htracked := (hs u).mp (by rw [hfind]; rfl)
      exact hu.mpr htracked
  · intro hkeep v
    rw [hstored]
    show _ ↔ v ∈ s.cusr
    rcases hkeep with ⟨x, hx, hone⟩ | ⟨hnone, hempty⟩
    · by_cases hv : v = u
      · subst hv
        rw [if_pos rfl]
        exact iff_of_true ⟨x, hx, hone⟩ ((hs v).mp (by rw [hx]; rfl))
      · rw [if_neg hv, hx, ← hs v]
        simp
    · by_cases hv : v = u
      · subst hv
        rw [if_pos rfl, ← hs v, hnone]
        simp
      · rw [if_neg hv, hs v]
        refine ⟨fun h => ?_, .inl⟩
        rcases h with h | ⟨rfl, -⟩
        · exact h
        · exact hempty.resolve_left (Ne.symm hv)

/-- The end of an object with the name `u`. -/
theorem shared_destroy_iff {s : Objects} (hs : s.Shared) {ref : ObjRef} {u : Bytes}
    (hu : s.username ref = some u) :
    Shared { s.erase ref with billing := s.billing.delUd u } ↔
      (s.Counts 2 u ↔ u ∈ (s.erase ref).cusr) := by
  have hstored := isSome_find_delUd s.billing u
  have hother : ∀ v, v ≠ u → (((s.billing.delUd u).find v).isSome = true ↔
      v ∈ (s.erase ref).cusr) := by
    intro v hv
    rw [hstored, if_neg hv, mem_entry hu hv]
    exact hs v
  have hown : ((s.billing.delUd u).find u).isSome = true ↔ s.Counts 2 u := by
    rw [hstored, if_pos rfl]
    rfl
  constructor
  · intro hs'
    exact hown.symm.trans (hs' u)
  · intro hkeep v
    by_cases hv : v = u
    · subst hv
      exact hown.trans hkeep
    · exact hother v hv

/-- **The exact condition.**  A step from a state with shared records ends in such a
state if and only if it meets the condition. -/
theorem step_shared_iff {s s' : Objects} {op : ObjOp} {e : Unit} (hs : s.Shared)
    (h : s.step op = .ok (s', e)) : s'.Shared ↔ s.Keeps op := by
  cases op with
  | add d =>
    obtain ⟨rfl, -⟩ := Prod.mk.inj (Except.ok.inj h)
    refine iff_of_true (fun v => ?_) trivial
    show ((s.billing.addUd d).find v).isSome = true ↔ v ∈ s.cusr ++ [d.username]
    rw [s.billing.find_addUd, List.mem_append, List.mem_singleton]
    by_cases hv : v = d.username
    · rw [if_pos hv]
      exact iff_of_true rfl (.inr hv)
    · rw [if_neg hv, hs v]
      exact ⟨.inl, fun h => h.resolve_right hv⟩
  | construct =>
    obtain ⟨rfl, -⟩ := Prod.mk.inj (Except.ok.inj h)
    exact iff_of_true hs trivial
  | copy ref =>
    simp only [step] at h
    split at h
    · contradiction
    · obtain ⟨rfl, -⟩ := Prod.mk.inj (Except.ok.inj h)
      exact iff_of_true hs trivial
  | assign j ref =>
    simp only [step] at h
    split at h
    · next u htemp hu =>
      obtain ⟨rfl, -⟩ := Prod.mk.inj (Except.ok.inj h)
      rw [shared_assign_iff hs u, Keeps, hu]
      simp only [Option.some.injEq, forall_eq']
    · contradiction
  | destroy ref =>
    simp only [step] at h
    split at h
    · contradiction
    · next u hu =>
      obtain ⟨rfl, -⟩ := Prod.mk.inj (Except.ok.inj h)
      rw [shared_destroy_iff hs hu, Keeps, hu]
      simp only [Option.some.injEq, forall_eq']

end Objects

/-! ## Runs -/

/-- **The life time of the records.**  In every run the record of each user is found
exactly while an entry of the user is tracked, in all states of the run, if and only if
every step of the run meets the condition. -/
theorem userData_lifetime_iff (as : List ObjOp) :
    Objects.machine.Always (fun _ s => s.Shared) (Objects.machine.history as) ↔
      Objects.machine.EveryStep (fun _ s op => s.Keeps op) (Objects.machine.history as) := by
  refine (Machine.reaches_history _ as).always_iff_everyStep Objects.shared_new ?_
  intro _ s op s' e _ hs h
  exact Objects.step_shared_iff hs h

/-- The record of a tracked user. -/
def annRecord : UserRecord := ⟨str "ann", ⟨[], [], [], 0, 0, 0, [], [], [], true⟩⟩

/-- `ann` is tracked, and `Device_data::gets` makes a temporary and assigns it the
entry. -/
def annListed : List ObjOp := [.add annRecord, .construct, .assign 0 (.entry 0)]

/-- The assignment in the getter removes the record of a user who is still tracked. -/
theorem userData_lifetime_ann :
    ¬ ∀ as, Objects.machine.Always (fun _ s => s.Shared) (Objects.machine.history as) := by
  intro hclaim
  have hshared := hclaim annListed (Objects.machine.history annListed) [] _
    (List.append_nil _).symm (Machine.reaches_history _ annListed)
  have hfound := (hshared annRecord.username).mpr (List.mem_singleton.mpr rfl)
  exact absurd hfound (by decide)

end Tacppd
