/-
# The command that clears a user

`Terminal::cmdClearUsr` goes through the devices by index, and through the users of each
device by an index of its own, up to the first copy that is not present.  The second index is
not moved, so the command asks for the first user of a device again and again: it ends only
if there is no user on any device.

The table does not change while the command runs; the requests go to the SNMP subsystem.
-/
import Tacppd.Track

namespace Tacppd

/-- A request to drop a port: `::snmpSystem.drop(nas, port)`. -/
structure DropCall where
  nas : Bytes
  port : Bytes
  deriving DecidableEq, Repr

/-- `strncpy(usrnam, name, 99)` in an array of 100 bytes; a name of 99 bytes or more is not
terminated, and what lies behind it belongs to the name. -/
def clearName (behind name : Bytes) : Bytes :=
  if (cstr name).length < 99 then cstr name else (cstr name).take 99 ++ cstr behind

/-- `Device_data::gets(n)`; nothing where the copy is not present. -/
def Device.gets (d : Device) (n : ℕ) : Option DeviceUserData := d.cusr[n]?

/-- The loop over the users of a device.  Its index `j` stays what it is. -/
def clearLoop (usrnam : Bytes) (d : Device) (j : ℕ) : ℕ → Option (List DropCall)
  | 0 => none
  | rounds + 1 =>
    match d.gets j with
    | none => some []
    | some utmp =>
      (clearLoop usrnam d j rounds).map fun calls =>
        if utmp.username = usrnam then ⟨d.hostaddr, utmp.port⟩ :: calls else calls

/-- `Terminal::cmdClearUsr`, with the requests it makes; `none` when it has not ended in so
many rounds of a loop over users. -/
def cmdClearUsr (behind name : Bytes) (rounds : ℕ) : List Device → Option (List DropCall)
  | [] => some []
  | d :: nas => do
    let calls ← clearLoop (clearName behind name) d 0 rounds
    let rest ← cmdClearUsr behind name rounds nas
    return calls ++ rest

/-- The entries of a user, on all devices. -/
def entriesOf (name : Bytes) (nas : List Device) : List DropCall :=
  nas.flatMap fun d => (d.cusr.filter fun e => decide (e.username = name)).map
    fun e => ⟨d.hostaddr, e.port⟩

/-- What the command is for: it ends, and it has asked once for each entry of the user. -/
def ClearsUser (behind name : Bytes) (nas : List Device) : Prop :=
  ∃ rounds calls, cmdClearUsr behind name rounds nas = some calls ∧
    calls.Perm (entriesOf name nas)

variable {behind name usrnam : Bytes} {nas : List Device} {d : Device} {rounds : ℕ}

/-- With a user on the device the loop has no end. -/
theorem clearLoop_eq_none (hd : d.cusr ≠ []) : clearLoop usrnam d 0 rounds = none := by
  obtain ⟨e, l, he⟩ := List.exists_cons_of_ne_nil hd
  have hget : d.gets 0 = some e := by
    rw [Device.gets, he]
    rfl
  induction rounds with
  | zero => rfl
  | succ rounds ih =>
    rw [clearLoop, hget, ih]
    rfl

/-- Without one it ends at once. -/
theorem clearLoop_nil (hd : d.cusr = []) : clearLoop usrnam d 0 (rounds + 1) = some [] := by
  have hget : d.gets 0 = none := by
    rw [Device.gets, hd]
    rfl
  rw [clearLoop, hget]

theorem cmdClearUsr_of_no_users (h : ∀ d ∈ nas, d.cusr = []) :
    cmdClearUsr behind name (rounds + 1) nas = some [] := by
  induction nas with
  | nil => rfl
  | cons d nas ih =>
    obtain ⟨hd, hnas⟩ := List.forall_mem_cons.mp h
    rw [cmdClearUsr, clearLoop_nil hd, ih hnas]
    rfl

theorem no_users_of_cmdClearUsr {calls : List DropCall}
    (h : cmdClearUsr behind name rounds nas = some calls) : ∀ d ∈ nas, d.cusr = [] := by
  induction nas generalizing calls with
  | nil => exact fun d hd => absurd hd List.not_mem_nil
  | cons d nas ih =>
    rw [cmdClearUsr] at h
    obtain ⟨_, hloop, h⟩ := Option.bind_eq_some_iff.mp h
    obtain ⟨_, hrest, _⟩ := Option.bind_eq_some_iff.mp h
    refine List.forall_mem_cons.mpr ⟨?_, ih hrest⟩
    by_contra hd
    rw [clearLoop_eq_none hd] at hloop
    contradiction

theorem entriesOf_of_no_users (h : ∀ d ∈ nas, d.cusr = []) : entriesOf name nas = [] := by
  rw [entriesOf, List.flatMap_eq_nil_iff]
  intro d hd
  rw [h d hd]
  rfl

/-- **When the command does what it is for**: exactly when no device has a user. -/
theorem clearsUser_iff (behind name : Bytes) (nas : List Device) :
    ClearsUser behind name nas ↔ ∀ d ∈ nas, d.cusr = [] := by
  constructor
  · rintro ⟨rounds, calls, hrun, _⟩
    exact no_users_of_cmdClearUsr hrun
  · intro h
    refine ⟨1, [], cmdClearUsr_of_no_users h, ?_⟩
    rw [entriesOf_of_no_users h]

/-- One device with one user. -/
def oneUserTable : List Device :=
  [⟨str "10.0.0.1", [⟨str "ann", str "tty1", [], true, 0, str "10.0.0.1", []⟩]⟩]

theorem clearUsr_not_ends :
    ¬ ∀ (behind name : Bytes) (nas : List Device), ClearsUser behind name nas := by
  intro h
  obtain ⟨rounds, calls, hrun, _⟩ := h [] (str "ann") oneUserTable
  have hnil := no_users_of_cmdClearUsr hrun _ (List.mem_singleton.mpr rfl)
  contradiction

end Tacppd
