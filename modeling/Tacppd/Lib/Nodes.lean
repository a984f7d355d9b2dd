/-
# Records that are nodes

A general development on top of `Records`: a record is written as a line that opens its node, a line
for each of its fields, and a line that closes the node.  The machine that reads the lines makes a
record when a node is opened, unless it has one with the key, and changes it at every other line.

A first line that cannot be read stops the machine, or opens a node in which no record is made.
`Reader.readsBack_iff` says that a list of such records is read back if and only if every record is
and no key comes twice, and `Reader.ofKeyed` makes a reader of a machine which keeps the records in
a list.
-/
import Tacppd.Lib.Keyed
import Tacppd.Lib.Records

namespace Records

/-! ## Nodes -/

/-- One of the lines in a node: how it is written for a record, what is read of it, and what this
changes. -/
structure Field (ρ τ β : Type*) where
  line : ρ → τ
  read : ρ → Option β
  set : β → ρ → ρ

/-- How records are written as nodes, and what their lines are read as. -/
structure Node (ρ κ τ υ β : Type*) where
  key : ρ → κ
  head : ρ → τ
  readHead : ρ → Option υ
  new : υ → ρ
  fields : ρ → List (Field ρ τ β)
  exit : τ

variable {ρ κ τ υ β ω σ : Type*}

/-- What some fields of a record make of another one. -/
def setFields (a : ρ) (fs : List (Field ρ τ β)) (x : ρ) : Option ρ :=
  fs.foldlM (fun x f => (f.read a).map fun p => f.set p x) x

theorem setFields_nil (a x : ρ) : setFields a ([] : List (Field ρ τ β)) x = some x := rfl

theorem setFields_cons (a x : ρ) (f : Field ρ τ β) (fs : List (Field ρ τ β)) :
    setFields a (f :: fs) x = (f.read a).bind fun p => setFields a fs (f.set p x) := by
  unfold setFields
  rw [List.foldlM_cons]
  cases f.read a <;> rfl

/-- As many records are read as there are texts. -/
theorem length_of_mapM {l : List ρ} {read : ρ → Option β} {ps : List β}
    (h : l.mapM read = some ps) : ps.length = l.length := by
  induction l generalizing ps with
  | nil =>
    rw [← Option.some.inj h]
    rfl
  | cons a l ih =>
    rw [List.mapM_cons] at h
    obtain ⟨p, -, h⟩ := Option.bind_eq_some_iff.mp h
    obtain ⟨ps', hps, h⟩ := Option.bind_eq_some_iff.mp h
    rw [← Option.some.inj h, List.length_cons, List.length_cons, ih hps]

/-- A run stops at the first step that does. -/
theorem foldlM_eq_none_iff {step : σ → τ → Option σ} {ls : List τ} {s : σ} :
    ls.foldlM step s = none ↔ ∃ pre l post s', ls = pre ++ l :: post ∧
      pre.foldlM step s = some s' ∧ step s' l = none := by
  constructor
  · intro h
    induction ls generalizing s with
    | nil => contradiction
    | cons l ls ih =>
      rw [List.foldlM_cons] at h
      cases hstep : step s l with
      | none => exact ⟨[], l, ls, s, rfl, rfl, hstep⟩
      | some s₁ =>
        rw [hstep] at h
        obtain ⟨pre, l', post, s', rfl, hpre, hl'⟩ := ih h
        refine ⟨l :: pre, l', post, s', rfl, ?_, hl'⟩
        rw [List.foldlM_cons, hstep]
        exact hpre
  · rintro ⟨pre, l, post, s', rfl, hpre, hl⟩
    rw [List.foldlM_append, hpre]
    show (l :: post).foldlM step s' = none
    rw [List.foldlM_cons, hl]
    rfl

namespace Node

variable (N : Node ρ κ τ υ β)

/-- The lines of a record. -/
def write (a : ρ) : List τ := N.head a :: (N.fields a).map (fun f => f.line a) ++ [N.exit]

/-- The record that the lines of a record make. -/
def read (a : ρ) : Option ρ := (N.readHead a).bind fun u => setFields a (N.fields a) (N.new u)

/-- The key that the first line asks for. -/
def want (a : ρ) : Option κ := (N.readHead a).map fun u => N.key (N.new u)

/-- A machine that reads the nodes: outside of them, or in the node that a line has opened, of
which it keeps what `mode` says.  Only the lines of records that are `ok` count, and states that are
`good`, as the lines leave them. -/
structure Reader (ok : ρ → Prop) (good : σ → Prop) (mode : υ → ω)
    (step : Option ω × σ → τ → Option (Option ω × σ)) (rows : σ → List ρ) : Prop where
  key_set : ∀ a, ok a → ∀ f ∈ N.fields a, ∀ p x, N.key (f.set p x) = N.key x
  enter_none : ∀ a s z, ok a → good s → N.readHead a = none →
    (N.write a).foldlM step (none, s) = some z →
      ∃ s', z = (none, s') ∧ good s' ∧ (rows s').length ≤ (rows s).length
  enter : ∀ a s u, ok a → good s → N.readHead a = some u → ∃ s',
    step (none, s) (N.head a) = some (some (mode u), s') ∧ good s' ∧
      N.key (N.new u) ∈ (rows s').map N.key ∧
      (N.key (N.new u) ∉ (rows s).map N.key → rows s' = rows s ++ [N.new u]) ∧
      (N.key (N.new u) ∈ (rows s).map N.key → (rows s').length ≤ (rows s).length)
  field_none : ∀ a u s, ok a → good s → N.key (N.new u) ∈ (rows s).map N.key →
    ∀ f ∈ N.fields a, f.read a = none → step (some (mode u), s) (f.line a) = none
  field : ∀ a u s, ok a → good s → N.key (N.new u) ∈ (rows s).map N.key →
    ∀ f ∈ N.fields a, ∀ p, f.read a = some p →
      ∃ s', step (some (mode u), s) (f.line a) = some (some (mode u), s') ∧ good s' ∧
        N.key (N.new u) ∈ (rows s').map N.key ∧ (rows s').length ≤ (rows s).length ∧
        ∀ rs x, rows s = rs ++ [x] → N.key x = N.key (N.new u) → N.key x ∉ rs.map N.key →
          rows s' = rs ++ [f.set p x]
  leave : ∀ u s, step (some (mode u), s) N.exit = some (none, s)

variable {N} {ok : ρ → Prop} {good : σ → Prop} {mode : υ → ω}
  {step : Option ω × σ → τ → Option (Option ω × σ)} {rows : σ → List ρ}
  {a a' x y : ρ} {fs : List (Field ρ τ β)} {rs l : List ρ} {u : υ} {s : σ}

/-! ## The lines of one record -/

theorem key_setFields (hkey : ∀ f ∈ fs, ∀ p x, N.key (f.set p x) = N.key x)
    (h : setFields a fs x = some y) : N.key y = N.key x := by
  apply @foldlM_invariant _ _ _ (fun y => N.key y = N.key x) fs _ x y rfl h
  intro y y' f hf hy hy'
  obtain ⟨p, -, rfl⟩ := Option.map_eq_some_iff.mp hy'
  rw [hkey f hf, hy]

namespace Reader

variable (h : N.Reader ok good mode step rows)

include h

theorem want_of_read (ha : ok a) (hread : N.read a = some a') : N.want a = some (N.key a') := by
  obtain ⟨u, hu, hfields⟩ := Option.bind_eq_some_iff.mp hread
  rw [want, hu, Option.map_some, key_setFields (h.key_set a ha) hfields]

/-- The lines of the fields change the record at the end, as on its own. -/
theorem run_fields (ha : ok a) (hgood : good s) (hfs : ∀ f ∈ fs, f ∈ N.fields a)
    (hs : rows s = rs ++ [x]) (hx : N.key x = N.key (N.new u)) (hrs : N.key x ∉ rs.map N.key) :
    (setFields a fs x = none → (fs.map fun f => f.line a).foldlM step (some (mode u), s) = none) ∧
      ∀ y, setFields a fs x = some y →
        ∃ s', (fs.map fun f => f.line a).foldlM step (some (mode u), s) = some (some (mode u), s') ∧
          good s' ∧ rows s' = rs ++ [y] := by
  induction fs generalizing x s with
  | nil =>
    refine ⟨nofun, fun y hy => ?_⟩
    rw [← Option.some.inj hy]
    exact ⟨s, rfl, hgood, hs⟩
  | cons f fs ih =>
    rw [List.forall_mem_cons] at hfs
    have hmem : N.key (N.new u) ∈ (rows s).map N.key := by simp [hs, hx]
    rw [setFields, List.foldlM_cons, List.map_cons, List.foldlM_cons]
    cases hread : f.read a with
    | none =>
      rw [h.field_none a u s ha hgood hmem f hfs.1 hread]
      exact ⟨fun _ => rfl, nofun⟩
    | some p =>
      obtain ⟨s', hstep, hgood', -, -, hlast⟩ := h.field a u s ha hgood hmem f hfs.1 p hread
      have hkey := h.key_set a ha f hfs.1 p x
      rw [hstep]
      apply ih hgood' hfs.2 (hlast rs x hs hx hrs)
      · rw [hkey, hx]
      · rwa [hkey]

/-- They make no record. -/
theorem run_fields_le (ha : ok a) (hgood : good s) (hfs : ∀ f ∈ fs, f ∈ N.fields a)
    (hmem : N.key (N.new u) ∈ (rows s).map N.key) {z : Option ω × σ}
    (hrun : (fs.map fun f => f.line a).foldlM step (some (mode u), s) = some z) :
    ∃ s', z = (some (mode u), s') ∧ good s' ∧ (rows s').length ≤ (rows s).length := by
  induction fs generalizing s with
  | nil => exact ⟨s, (Option.some.inj hrun).symm, hgood, Nat.le_refl _⟩
  | cons f fs ih =>
    rw [List.forall_mem_cons] at hfs
    rw [List.map_cons, List.foldlM_cons] at hrun
    cases hread : f.read a with
    | none =>
      rw [h.field_none a u s ha hgood hmem f hfs.1 hread] at hrun
      contradiction
    | some p =>
      obtain ⟨s', hstep, hgood', hmem', hle, -⟩ := h.field a u s ha hgood hmem f hfs.1 p hread
      rw [hstep] at hrun
      obtain ⟨s'', hz, hgood'', hle'⟩ := ih hgood' hfs.2 hmem' hrun
      exact ⟨s'', hz, hgood'', Nat.le_trans hle' hle⟩

/-- A record whose key is new. -/
theorem run_new (ha : ok a) (hgood : good s)
    (hwant : N.want a ∉ (rows s).map fun x => some (N.key x)) :
    (N.read a = none → ∀ z, (N.write a).foldlM step (none, s) = some z →
      ∃ s', z = (none, s') ∧ good s' ∧ (rows s').length ≤ (rows s).length) ∧
      ∀ a', N.read a = some a' →
        ∃ s', (N.write a).foldlM step (none, s) = some (none, s') ∧ good s' ∧
          rows s' = rows s ++ [a'] := by
  rw [read]
  cases hread : N.readHead a with
  | none => exact ⟨fun _ z hz => h.enter_none a s z ha hgood hread hz, nofun⟩
  | some u =>
    rw [write, List.cons_append, List.foldlM_cons]
    have hnew : N.key (N.new u) ∉ (rows s).map N.key := by
      rw [want, hread] at hwant
      intro hmem
      obtain ⟨x, hx, heq⟩ := List.mem_map.mp hmem
      exact hwant (List.mem_map.mpr ⟨x, hx, congrArg some heq⟩)
    obtain ⟨s', hstep, hgood', -, hrows, -⟩ := h.enter a s u ha hgood hread
    have hall : ∀ f ∈ N.fields a, f ∈ N.fields a := fun _ hf => hf
    obtain ⟨hnone, hsome⟩ := h.run_fields ha hgood' hall (hrows hnew) rfl hnew
    simp only [hstep, Option.bind_eq_bind, Option.bind_some, List.foldlM_append]
    constructor
    · intro hread' z hz
      rw [hnone hread'] at hz
      contradiction
    · intro a' ha'
      obtain ⟨s'', hrun, hgood'', hrows'⟩ := hsome a' ha'
      refine ⟨s'', ?_, hgood'', hrows'⟩
      rw [hrun, Option.bind_some, List.foldlM_cons, h.leave]
      rfl

/-- A record whose key is there. -/
theorem run_old (ha : ok a) (hgood : good s)
    (hwant : N.want a ∈ (rows s).map fun x => some (N.key x)) {z : Option ω × σ}
    (hrun : (N.write a).foldlM step (none, s) = some z) :
    ∃ s', z = (none, s') ∧ good s' ∧ (rows s').length ≤ (rows s).length := by
  obtain ⟨x, hx, hwant⟩ := List.mem_map.mp hwant
  obtain ⟨u, hread, hkey⟩ := Option.map_eq_some_iff.mp hwant.symm
  obtain ⟨s', hstep, hgood', hmem, -, hle⟩ := h.enter a s u ha hgood hread
  rw [write, List.cons_append, List.foldlM_cons, hstep] at hrun
  change ((N.fields a).map _ ++ [N.exit]).foldlM step (some (mode u), s') = some z at hrun
  rw [List.foldlM_append] at hrun
  obtain ⟨z', hfields, hexit⟩ := Option.bind_eq_some_iff.mp hrun
  have hall : ∀ f ∈ N.fields a, f ∈ N.fields a := fun _ hf => hf
  obtain ⟨s'', rfl, hgood'', hle'⟩ := h.run_fields_le ha hgood' hall hmem hfields
  rw [List.foldlM_cons, h.leave] at hexit
  exact ⟨s'', (Option.some.inj hexit).symm, hgood'',
    Nat.le_trans hle' (hle (List.mem_map.mpr ⟨x, hx, hkey.symm⟩))⟩

/-! ## Many records -/

/-- A run ends with as many records as were written only when every key was new. -/
theorem of_run (hl : ∀ a ∈ l, ok a) (hgood : good s) {z : Option ω × σ}
    (hrun : (l.flatMap N.write).foldlM step (none, s) = some z) :
    ∃ s', z = (none, s') ∧ (rows s').length ≤ (rows s).length + l.length ∧
      ((rows s').length = (rows s).length + l.length → ∃ l', l.mapM N.read = some l' ∧
        rows s' = rows s ++ l' ∧
          (((rows s).map N.key).Nodup → ((rows s').map N.key).Nodup)) := by
  induction l generalizing s with
  | nil =>
    exact ⟨s, (Option.some.inj hrun).symm, Nat.le_refl _,
      fun _ => ⟨[], rfl, (List.append_nil _).symm, id⟩⟩
  | cons a l ih =>
    rw [List.forall_mem_cons] at hl
    rw [List.flatMap_cons, List.foldlM_append] at hrun
    obtain ⟨z', hone, hrun⟩ := Option.bind_eq_some_iff.mp hrun
    rw [List.length_cons]
    by_cases hwant : N.want a ∈ (rows s).map fun x => some (N.key x)
    · obtain ⟨s', rfl, hgood', hle⟩ := h.run_old hl.1 hgood hwant hone
      obtain ⟨s'', hz, hle', -⟩ := ih hl.2 hgood' hrun
      exact ⟨s'', hz, by omega, fun heq => absurd heq (by omega)⟩
    · obtain ⟨hnone, hsome⟩ := h.run_new hl.1 hgood hwant
      cases hread : N.read a with
      | none =>
        obtain ⟨s', rfl, hgood', hle⟩ := hnone hread z' hone
        obtain ⟨s'', hz, hle', -⟩ := ih hl.2 hgood' hrun
        exact ⟨s'', hz, by omega, fun heq => absurd heq (by omega)⟩
      | some a' =>
        obtain ⟨s', hrun', hgood', hrows⟩ := hsome a' hread
        obtain rfl := Option.some.inj (hrun'.symm.trans hone)
        obtain ⟨s'', hz, hle, hall⟩ := ih hl.2 hgood' hrun
        rw [hrows, List.length_append, List.length_singleton] at hle hall
        refine ⟨s'', hz, by omega, fun heq => ?_⟩
        obtain ⟨l', hl', hrl, hnodup⟩ := hall (by omega)
        refine ⟨a' :: l', ?_, by simpa using hrl, fun hrs => hnodup ?_⟩
        · rw [List.mapM_cons, hread, hl']
          rfl
        · rw [List.map_append, List.nodup_append]
          refine ⟨hrs, List.nodup_singleton _, ?_⟩
          rintro k hk _ hk' rfl
          rw [List.map_singleton, List.mem_singleton] at hk'
          obtain ⟨x, hx, rfl⟩ := List.mem_map.mp hk
          apply hwant
          rw [h.want_of_read hl.1 hread]
          exact List.mem_map.mpr ⟨x, hx, congrArg some hk'⟩

/-- Records with keys of their own that are read as they are. -/
theorem run_self (hok : ∀ a ∈ l, ok a) (hgood : good s) (hl : ((rows s ++ l).map N.key).Nodup)
    (hread : ∀ a ∈ l, N.read a = some a) :
    ∃ s', (l.flatMap N.write).foldlM step (none, s) = some (none, s') ∧ rows s' = rows s ++ l := by
  induction l generalizing s with
  | nil => exact ⟨s, rfl, (List.append_nil _).symm⟩
  | cons a l ih =>
    rw [List.forall_mem_cons] at hok hread
    have hwant : N.want a ∉ (rows s).map fun x => some (N.key x) := by
      rw [List.map_append, List.map_cons] at hl
      rw [h.want_of_read hok.1 hread.1]
      intro hmem
      obtain ⟨x, hx, heq⟩ := List.mem_map.mp hmem
      exact List.disjoint_of_nodup_append hl
        (List.mem_map.mpr ⟨x, hx, Option.some.inj heq⟩) List.mem_cons_self
    obtain ⟨s', hrun, hgood', hrows⟩ := (h.run_new hok.1 hgood hwant).2 a hread.1
    have hl' : ((rows s' ++ l).map N.key).Nodup := by
      rwa [hrows, List.append_assoc, List.singleton_append]
    obtain ⟨s'', hrun', hrows'⟩ := ih hok.2 hgood' hl' hread.2
    rw [List.flatMap_cons, List.foldlM_append, hrun]
    refine ⟨s'', hrun', ?_⟩
    rw [hrows', hrows, List.append_assoc, List.singleton_append]

/-- **Nodes are read back** if and only if each of them is and no key comes twice. -/
theorem readsBack_iff (hok : ∀ a ∈ l, ok a) (hgood : good s) (hs : rows s = []) :
    (∃ s', (l.flatMap N.write).foldlM step (none, s) = some (none, s') ∧ rows s' = l) ↔
      (l.map N.key).Nodup ∧ ∀ a ∈ l, N.read a = some a := by
  constructor
  · rintro ⟨s', hrun, hrows⟩
    obtain ⟨s'', heq, -, hall⟩ := h.of_run hok hgood hrun
    obtain rfl := (Prod.mk.inj heq).2
    rw [hs, hrows] at hall
    obtain ⟨l', hl', hrl, hnodup⟩ := hall (by simp)
    rw [List.nil_append] at hrl
    rw [← hrl] at hl'
    exact ⟨hnodup List.nodup_nil, mapM_eq_some_self_iff.mp hl'⟩
  · rintro ⟨hl, hread⟩
    have hl' : ((rows s ++ l).map N.key).Nodup := by rwa [hs]
    obtain ⟨s', hrun, hrows⟩ := h.run_self hok hgood hl' hread
    rw [hs] at hrows
    exact ⟨s', hrun, hrows⟩

omit h

/-- A first line that stops the machine. -/
theorem enter_none_of_step (hstep : step (none, s) (N.head a) = none) {z : Option ω × σ}
    (hz : (N.write a).foldlM step (none, s) = some z) :
    ∃ s', z = (none, s') ∧ good s' ∧ (rows s').length ≤ (rows s).length := by
  rw [write, List.cons_append, List.foldlM_cons, hstep] at hz
  contradiction

/-! ## Records in a list -/

/-- **A machine that keeps the records in a list**: the first line adds a record whose key is new,
and every other line changes the record with the key. -/
theorem ofKeyed [DecidableEq κ] (add : ρ → σ → σ) (alter : κ → (ρ → ρ) → σ → σ)
    (hadd : ∀ u s, good s → good (add (N.new u) s) ∧ rows (add (N.new u) s) =
      if (Keyed.look N.key (rows s) (N.key (N.new u))).isSome = true then rows s
      else rows s ++ [N.new u])
    (halter : ∀ a, ok a → ∀ f ∈ N.fields a, ∀ k p s, f.read a = some p → good s →
      good (alter k (f.set p) s) ∧
        rows (alter k (f.set p) s) = Keyed.alter N.key k (f.set p) (rows s))
    (hkey : ∀ a, ok a → ∀ f ∈ N.fields a, ∀ p x, N.key (f.set p x) = N.key x)
    (henter_none : ∀ a s z, ok a → good s → N.readHead a = none →
      (N.write a).foldlM step (none, s) = some z →
        ∃ s', z = (none, s') ∧ good s' ∧ (rows s').length ≤ (rows s).length)
    (henter : ∀ a s u, ok a → good s → N.readHead a = some u →
      step (none, s) (N.head a) = some (some (mode u), add (N.new u) s))
    (hfield : ∀ a u s, ok a → good s → ∀ f ∈ N.fields a,
      (Keyed.look N.key (rows s) (N.key (N.new u))).isSome → step (some (mode u), s) (f.line a) =
        (f.read a).map fun p => (some (mode u), alter (N.key (N.new u)) (f.set p) s))
    (hleave : ∀ u s, step (some (mode u), s) N.exit = some (none, s)) :
    N.Reader ok good mode step rows := by
  have hlook : ∀ k s, (Keyed.look N.key (rows s) k).isSome = true ↔ k ∈ (rows s).map N.key := by
    intro k s
    rw [Keyed.look_isSome_iff, List.mem_map]
  refine ⟨hkey, henter_none, ?_, ?_, ?_, hleave⟩
  · intro a s u ha hgood hread
    obtain ⟨hgood', hrows⟩ := hadd u s hgood
    rw [henter a s u ha hgood hread]
    refine ⟨_, rfl, hgood', ?_, fun hnot => ?_, fun hmem => ?_⟩
    · rw [hrows]
      split
      · next hsome => exact (hlook _ s).mp hsome
      · simp
    · rw [hrows, if_neg fun hsome => hnot ((hlook _ s).mp hsome)]
    · rw [if_pos ((hlook _ s).mpr hmem)] at hrows
      exact Nat.le_of_eq (congrArg List.length hrows)
  · intro a u s ha hgood hmem f hf hread
    rw [hfield a u s ha hgood f hf ((hlook _ s).mpr hmem), hread]
    rfl
  · intro a u s ha hgood hmem f hf p hread
    obtain ⟨hgood', hrows⟩ := halter a ha f hf (N.key (N.new u)) p s hread hgood
    rw [hfield a u s ha hgood f hf ((hlook _ s).mpr hmem), hread]
    refine ⟨_, rfl, hgood', ?_, ?_, fun rs x hs hx hrs => ?_⟩
    · rwa [hrows, Keyed.map_key_alter (hkey a ha f hf p)]
    · rw [hrows]
      exact Nat.le_of_eq Keyed.length_alter
    · have hnot : Keyed.look N.key rs (N.key (N.new u)) = none :=
        Keyed.look_eq_none_iff.mpr fun y hy heq =>
          hrs (List.mem_map.mpr ⟨y, hy, heq.trans hx.symm⟩)
      rw [hrows, hs]
      exact Keyed.alter_concat hnot hx _

end Reader

end Node

end Records
