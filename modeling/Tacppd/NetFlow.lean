/-
# The NetFlow aggregator

`NfAggregator::add` keeps one leaf for every device, source and destination in a map of
maps of maps, and the loop of `NfAggregator::expire` takes expired leaves out of it: to the
database, or to a log file while the database can not be opened.

`nf_conservation` says that on every run of the two what has been added under a key is
what has been passed on under it and what its leaf still holds, modulo the width of the
counters.  `flow_order_iff` says of which lists of records the leaf has the right times,
whatever the order in which they come.
-/
import Tacppd.Bytes
import Tacppd.Lib.Machine
import Tacppd.Lib.Nested
import Mathlib.Algebra.BigOperators.Group.List.Basic
import Mathlib.Algebra.Group.Pi.Lemmas
import Mathlib.Algebra.Group.Prod
import Mathlib.Algebra.Order.Ring.Int
import Mathlib.Data.BitVec

namespace Tacppd

open Nested

variable {w : ℕ}

/-! ## A leaf -/

/-- `Bit32` is an `unsigned long`, of 32 or of 64 bits. -/
abbrev Bit32 (w : ℕ) := BitVec w

/-- What one flow record says: octets, packets, input interface, start and stop. -/
structure Flow (w : ℕ) where
  o : BitVec w
  pk : BitVec w
  ii : BitVec 32
  bt : ℤ
  et : ℤ
deriving DecidableEq

structure NfData (w : ℕ) where
  octets : BitVec w
  packets : BitVec w
  ifin : BitVec 32
  startt : ℤ
  stopt : ℤ
deriving DecidableEq

/-- The constructor. -/
def Flow.data (f : Flow w) : NfData w := ⟨f.o, f.pk, f.ii, f.bt, f.et⟩

def NfData.add (n : NfData w) (r p : BitVec w) (t : ℤ) : NfData w :=
  { n with octets := n.octets + r, stopt := t, packets := n.packets + p }

/-! ## The buffer -/

/-- `nfb_`: device, source, destination. -/
abbrev Nfb (w : ℕ) := Map (Bit32 w) (Map (Bit32 w) (Map (Bit32 w) (NfData w)))

/-- A device, a source and a destination. -/
abbrev FlowKey (w : ℕ) := Bit32 w × Bit32 w × Bit32 w

structure NfAggregator (w : ℕ) where
  nfb : Nfb w
  bufSize : ℤ

/-- `NfAggregator::add`, with the record as one argument. -/
def NfAggregator.add (g : NfAggregator w) (d sa da : Bit32 w) (f : Flow w) : NfAggregator w :=
  match g.nfb.lookup d with
  | none =>
    { nfb := g.nfb.insert d (AList.singleton sa (AList.singleton da f.data))
      bufSize := g.bufSize + 1 }
  | some p1 =>
    match p1.lookup sa with
    | none =>
      { nfb := g.nfb.replace d (p1.insert sa (AList.singleton da f.data))
        bufSize := g.bufSize + 1 }
    | some p2 =>
      match p2.lookup da with
      | none =>
        { nfb := g.nfb.replace d (p1.replace sa (p2.insert da f.data))
          bufSize := g.bufSize + 1 }
      | some p3 =>
        { g with nfb := g.nfb.replace d (p1.replace sa (p2.replace da (p3.add f.o f.pk f.et))) }

/-- The leaf of a key. -/
def leafOf (nfb : Nfb w) : FlowKey w → Option (NfData w)
  | (d, sa, da) => ((nfb.lookup d).bind fun p1 => p1.lookup sa).bind fun p2 => p2.lookup da

/-- The leaves below one source, below one device, and all of them. -/
def sourceLeaves (d sa : Bit32 w) (p2 : Map (Bit32 w) (NfData w)) :
    List (FlowKey w × NfData w) :=
  items (fun da x => [((d, sa, da), x)]) p2

def deviceLeaves (d : Bit32 w) (p1 : Map (Bit32 w) (Map (Bit32 w) (NfData w))) :
    List (FlowKey w × NfData w) :=
  items (sourceLeaves d) p1

def leaves (nfb : Nfb w) : List (FlowKey w × NfData w) := items deviceLeaves nfb

/-! ## The leaves and the map -/

theorem fst_of_mem_sourceLeaves {d sa : Bit32 w} {p2 : Map (Bit32 w) (NfData w)}
    {x : FlowKey w × NfData w} (hx : x ∈ sourceLeaves d sa p2) : x.1.1 = d ∧ x.1.2.1 = sa := by
  obtain ⟨da, y, -, hy⟩ := mem_items_iff.mp hx
  rw [List.mem_singleton.mp hy]
  exact ⟨rfl, rfl⟩

theorem fst_of_mem_deviceLeaves {d : Bit32 w} {p1 : Map (Bit32 w) (Map (Bit32 w) (NfData w))}
    {x : FlowKey w × NfData w} (hx : x ∈ deviceLeaves d p1) : x.1.1 = d := by
  obtain ⟨sa, p2, -, hx⟩ := mem_items_iff.mp hx
  exact (fst_of_mem_sourceLeaves hx).1

/-- No two leaves have one key. -/
theorem leaves_nodup (nfb : Nfb w) : ((leaves nfb).map Prod.fst).Nodup := by
  rw [List.nodup_iff_pairwise_ne, List.pairwise_map]
  apply items_pairwise
  · intro d p1
    apply items_pairwise
    · intro sa p2
      apply items_pairwise
      · intro da x
        exact List.pairwise_singleton _ _
      · intro da _ da' _ hne x hx y hy heq
        rw [List.mem_singleton.mp hx, List.mem_singleton.mp hy] at heq
        exact hne (congrArg (fun k => k.2.2) heq)
    · intro sa _ sa' _ hne x hx y hy heq
      have hx := (fst_of_mem_sourceLeaves hx).2
      have hy := (fst_of_mem_sourceLeaves hy).2
      exact hne (hx.symm.trans ((congrArg (fun k => k.2.1) heq).trans hy))
  · intro d _ d' _ hne x hx y hy heq
    have hx := fst_of_mem_deviceLeaves hx
    have hy := fst_of_mem_deviceLeaves hy
    exact hne (hx.symm.trans ((congrArg Prod.fst heq).trans hy))

/-! ## What `add` does -/

/-- The leaf of the key, after the record. -/
def merged (f : Flow w) : Option (NfData w) → NfData w
  | none => f.data
  | some x => x.add f.o f.pk f.et

theorem leafOf_add (g : NfAggregator w) (d sa da : Bit32 w) (f : Flow w) :
    leafOf (g.add d sa da f).nfb (d, sa, da) = some (merged f (leafOf g.nfb (d, sa, da))) := by
  cases h1 : g.nfb.lookup d with
  | none => simp [NfAggregator.add, leafOf, h1, merged]
  | some p1 =>
    cases h2 : p1.lookup sa with
    | none =>
      simp [NfAggregator.add, leafOf, h1, h2, lookup_replace h1, merged]
    | some p2 =>
      cases h3 : p2.lookup da with
      | none =>
        simp [NfAggregator.add, leafOf, h1, h2, h3, lookup_replace h1, lookup_replace h2, merged]
      | some p3 =>
        simp [NfAggregator.add, leafOf, h1, h2, h3, lookup_replace h1, lookup_replace h2,
          lookup_replace h3, merged]

/-- A new leaf or a changed one; the other leaves stay. -/
theorem leaves_add (g : NfAggregator w) (d sa da : Bit32 w) (f : Flow w) :
    (leafOf g.nfb (d, sa, da) = none ∧ (g.add d sa da f).bufSize = g.bufSize + 1 ∧
      (leaves (g.add d sa da f).nfb).Perm (((d, sa, da), f.data) :: leaves g.nfb)) ∨
    ∃ x l, leafOf g.nfb (d, sa, da) = some x ∧ (g.add d sa da f).bufSize = g.bufSize ∧
      (leaves g.nfb).Perm (((d, sa, da), x) :: l) ∧
      (leaves (g.add d sa da f).nfb).Perm (((d, sa, da), x.add f.o f.pk f.et) :: l) := by
  cases h1 : g.nfb.lookup d with
  | none =>
    -- a new device
    left
    simp [leafOf, h1, NfAggregator.add, leaves, items_insert h1, deviceLeaves, sourceLeaves]
  | some p1 =>
    cases h2 : p1.lookup sa with
    | none =>
      -- a new source below it
      left
      simp only [leafOf, h1, Option.bind_some, Option.bind_none, h2, NfAggregator.add, leaves,
        true_and]
      apply items_replace_come h1
      rw [deviceLeaves, items_insert h2, sourceLeaves, items_singleton]
      exact List.Perm.refl _
    | some p2 =>
      cases h3 : p2.lookup da with
      | none =>
        -- a new destination
        left
        simp only [leafOf, h1, Option.bind_some, h2, h3, NfAggregator.add, leaves, true_and]
        apply items_replace_come h1
        apply items_replace_come h2
        rw [sourceLeaves, items_insert h3]
        exact List.Perm.refl _
      | some p3 =>
        -- the other leaves are those that are left when this one is erased
        right
        simp only [leafOf, h1, Option.bind_some, h2, h3, NfAggregator.add, leaves, true_and]
        refine ⟨p3, items deviceLeaves (g.nfb.replace d (p1.replace sa (p2.erase da))), rfl,
          items_replace_go h1 (items_replace_go h2 (items_perm h3)),
          items_replace_cons h1 (items_replace_cons h2 (items_replace h3))⟩

/-! ## What `expire` takes out -/

/-- What is passed on of a leaf: the arguments of `add_nf`, and the fields of a line of the
log file. -/
structure FlowRow (w : ℕ) where
  deva : Bit32 w
  srca : Bit32 w
  dsta : Bit32 w
  startt : ℤ
  stopt : ℤ
  octets : BitVec w
  packets : BitVec w
  ifin : BitVec 32
deriving DecidableEq

def NfData.row (x : NfData w) : FlowKey w → FlowRow w
  | (d, sa, da) => ⟨d, sa, da, x.startt, x.stopt, x.octets, x.packets, x.ifin⟩

/-- `(p2->second).erase(tmp3)`: the leaf goes, its source and its device stay. -/
def eraseLeaf (nfb : Nfb w) : FlowKey w → Option (NfData w × Nfb w)
  | (d, sa, da) =>
    (nfb.lookup d).bind fun p1 => (p1.lookup sa).bind fun p2 => (p2.lookup da).map fun tmp =>
      (tmp, nfb.replace d (p1.replace sa (p2.erase da)))

theorem leaves_eraseLeaf {nfb nfb' : Nfb w} {k : FlowKey w} {x : NfData w}
    (h : eraseLeaf nfb k = some (x, nfb')) : (leaves nfb).Perm ((k, x) :: leaves nfb') := by
  obtain ⟨d, sa, da⟩ := k
  simp only [eraseLeaf, Option.bind_eq_some_iff, Option.map_eq_some_iff, Prod.mk.injEq] at h
  obtain ⟨p1, h1, p2, h2, tmp, h3, rfl, rfl⟩ := h
  exact items_replace_go h1 (items_replace_go h2 (items_perm h3))

/-- `nfb_.erase(p1)`, of a device without sources. -/
def eraseDevice (nfb : Nfb w) (d : Bit32 w) : Option (Nfb w) :=
  (nfb.lookup d).bind fun p1 => if p1.entries.length = 0 then some (nfb.erase d) else none

theorem leaves_eraseDevice {nfb nfb' : Nfb w} {d : Bit32 w} (h : eraseDevice nfb d = some nfb') :
    (leaves nfb).Perm (leaves nfb') := by
  simp only [eraseDevice, Option.bind_eq_some_iff, Option.ite_none_right_eq_some,
    List.length_eq_zero_iff, Option.some.injEq] at h
  obtain ⟨p1, h1, hempty, rfl⟩ := h
  have hnil : deviceLeaves d p1 = [] := by rw [deviceLeaves, items, hempty, List.flatMap_nil]
  exact items_erase h1 hnil

/-- `(p1->second).erase(p2)`, of a source without leaves. -/
def eraseSource (nfb : Nfb w) (d sa : Bit32 w) : Option (Nfb w) :=
  (nfb.lookup d).bind fun p1 => (p1.lookup sa).bind fun p2 =>
    if p2.entries.length = 0 then some (nfb.replace d (p1.erase sa)) else none

theorem leaves_eraseSource {nfb nfb' : Nfb w} {d sa : Bit32 w}
    (h : eraseSource nfb d sa = some nfb') : (leaves nfb).Perm (leaves nfb') := by
  simp only [eraseSource, Option.bind_eq_some_iff, Option.ite_none_right_eq_some,
    List.length_eq_zero_iff, Option.some.injEq] at h
  obtain ⟨p1, h1, p2, h2, hempty, rfl⟩ := h
  have hnil : sourceLeaves d sa p2 = [] := by rw [sourceLeaves, items, hempty, List.flatMap_nil]
  have herase : (deviceLeaves d p1).Perm (deviceLeaves d (p1.erase sa)) := items_erase h2 hnil
  exact (items_replace_same h1 herase.symm).symm

/-! ## Where it goes -/

/-- The local variables of `expire` that live on from one leaf to the next. -/
structure Sweep where
  logn : Bytes
  lognfd : ℤ
  closer : ℤ
  cid : ℤ
  dbOpened : Bool

def Sweep.start : Sweep := ⟨[], -1, 0, 0, false⟩

/-- The answers it gets for a leaf: of `open_nf`, the name of the file for today, and of
`open`. -/
structure SweepEnv where
  cid : ℤ
  name : Bytes
  fd : ℤ

/-- Calls to the database, and lines written to a log file. -/
inductive NfOut (w : ℕ)
  | addNf (cid : ℤ) (row : FlowRow w)
  | closeNf (cid : ℤ)
  | logLine (logn : Bytes) (row : FlowRow w)

/-- The row that goes to the database or to the file. -/
def NfOut.row : NfOut w → Option (FlowRow w)
  | .addNf _ row => some row
  | .logLine _ row => some row
  | .closeNf _ => none

/-- The log file of today: an older one is closed, and it is opened if it is not open. -/
def Sweep.openLog (s : Sweep) (env : SweepEnv) : Sweep :=
  let logn := snprintf 254 env.name
  if snprintf 99 s.logn ≠ logn then { s with logn, lognfd := env.fd, closer := 0 }
  else { s with logn, lognfd := if s.lognfd < 0 then env.fd else s.lognfd }

/-- One row, to the database if it is open or can be opened. -/
def Sweep.write (s : Sweep) (env : SweepEnv) (row : FlowRow w) : Sweep × List (NfOut w) :=
  if s.dbOpened then (s, [.addNf s.cid row])
  else if env.cid = 0 then
    let s := { s with cid := 0 }.openLog env
    (s, if 0 ≤ s.lognfd then [.logLine s.logn row] else [])
  else ({ s with cid := env.cid, dbOpened := true }, [.addNf env.cid row])

/-- After 2000 rows the files and the database are closed. -/
def Sweep.count (s : Sweep) : Sweep × List (NfOut w) :=
  if 2000 < s.closer + 1 then
    ({ s with cid := 0, dbOpened := false, lognfd := -1, closer := 0 },
      if s.dbOpened then [.closeNf s.cid] else [])
  else ({ s with closer := s.closer + 1 }, [])

/-- The rows of a list of outputs. -/
def rows (out : List (NfOut w)) : List (FlowRow w) := out.filterMap NfOut.row

theorem rows_append (out out' : List (NfOut w)) : rows (out ++ out') = rows out ++ rows out' :=
  List.filterMap_append

theorem rows_count (s : Sweep) : rows (s.count (w := w)).2 = [] := by
  rw [Sweep.count]
  split
  · dsimp only
    split <;> rfl
  · rfl

/-- Where the log can be opened the row is passed on, once. -/
theorem rows_write (s : Sweep) {env : SweepEnv} (henv : 0 ≤ env.fd) (row : FlowRow w) :
    rows (s.write env row).2 = [row] := by
  have hfd : 0 ≤ ({ s with cid := 0 }.openLog env).lognfd := by
    rw [Sweep.openLog]
    dsimp only
    split
    · exact henv
    · dsimp only
      split
      · exact henv
      · omega
  rw [Sweep.write]
  split
  · rfl
  · split
    · dsimp only
      rw [if_pos hfd]
      rfl
    · rfl

/-! ## The two together -/

/-- The aggregator with the loop of `expire`. -/
structure NetFlow (w : ℕ) where
  agg : NfAggregator w
  sweep : Sweep

inductive NfCall (w : ℕ)
  | add (d sa da : Bit32 w) (f : Flow w)
  /-- A leaf is taken out; the loop asks for expired ones, here it may be any. -/
  | expire (k : FlowKey w) (env : SweepEnv)
  | eraseDevice (d : Bit32 w)
  | eraseSource (d sa : Bit32 w)

/-- There is nothing to take out. -/
inductive NoNode
  | noNode

/-- The body of `if(expa_)`. -/
def NetFlow.expire (s : NetFlow w) (k : FlowKey w) (env : SweepEnv) :
    Except NoNode (NetFlow w × List (NfOut w)) :=
  match eraseLeaf s.agg.nfb k with
  | none => .error .noNode
  | some (tmp, nfb) =>
    let (sweep, out) := s.sweep.write env (tmp.row k)
    let (sweep, out') := sweep.count
    .ok (⟨⟨nfb, s.agg.bufSize - 1⟩, sweep⟩, out ++ out')

/-- A node without entries is erased. -/
def NetFlow.prune (s : NetFlow w) : Option (Nfb w) → Except NoNode (NetFlow w × List (NfOut w))
  | none => .error .noNode
  | some nfb => .ok ({ s with agg := { s.agg with nfb } }, [])

def netFlow (w : ℕ) : Machine (NetFlow w) (NfCall w) (List (NfOut w)) NoNode where
  init := ⟨⟨∅, 0⟩, Sweep.start⟩
  step
    | s, .add d sa da f => .ok ({ s with agg := s.agg.add d sa da f }, [])
    | s, .expire k env => s.expire k env
    | s, .eraseDevice d => s.prune (eraseDevice s.agg.nfb d)
    | s, .eraseSource d sa => s.prune (eraseSource s.agg.nfb d sa)

/-- The log file of the day, where one is needed, can be opened for writing. -/
def NfCall.Writable : NfCall w → Prop
  | .expire _ env => 0 ≤ env.fd
  | _ => True

instance (c : NfCall w) : Decidable c.Writable := by
  cases c <;> unfold NfCall.Writable <;> infer_instance

/-! ## Octets and packets under a key -/

/-- Octets and packets. -/
abbrev Charge (w : ℕ) := BitVec w × BitVec w

/-- The sums under every key. -/
def totals (l : List (FlowKey w × Charge w)) : FlowKey w → Charge w :=
  (l.map fun x => Pi.single x.1 x.2).sum

@[simp] theorem totals_nil : totals ([] : List (FlowKey w × Charge w)) = 0 := rfl

@[simp] theorem totals_cons (x : FlowKey w × Charge w) (l : List (FlowKey w × Charge w)) :
    totals (x :: l) = Pi.single x.1 x.2 + totals l := rfl

@[simp] theorem totals_append (l l' : List (FlowKey w × Charge w)) :
    totals (l ++ l') = totals l + totals l' := by
  rw [totals, List.map_append, List.sum_append, totals, totals]

theorem totals_perm {l l' : List (FlowKey w × Charge w)} (h : l.Perm l') : totals l = totals l' :=
  (h.map _).sum_eq

/-- A record as it is added. -/
def NfCall.charge : NfCall w → Option (FlowKey w × Charge w)
  | .add d sa da f => some ((d, sa, da), (f.o, f.pk))
  | _ => none

def FlowRow.charge (row : FlowRow w) : FlowKey w × Charge w :=
  ((row.deva, row.srca, row.dsta), (row.octets, row.packets))

def leafCharge (x : FlowKey w × NfData w) : FlowKey w × Charge w :=
  (x.1, (x.2.octets, x.2.packets))

/-- What has been added, what has been passed on, and what the leaves hold. -/
def added (h : List (NfCall w × List (NfOut w))) : List (FlowKey w × Charge w) :=
  h.filterMap fun x => x.1.charge

def emitted (h : List (NfCall w × List (NfOut w))) : List (FlowKey w × Charge w) :=
  h.flatMap fun x => (rows x.2).map FlowRow.charge

def buffered (s : NetFlow w) : List (FlowKey w × Charge w) := (leaves s.agg.nfb).map leafCharge

/-! ## Nothing is lost and nothing is counted twice -/

/-- What one step keeps: the sums under every key, and the count of the leaves. -/
structure Keeps (c : NfCall w) (out : List (NfOut w)) (s s' : NetFlow w) : Prop where
  charges : totals ((rows out).map FlowRow.charge) + totals (buffered s') =
    totals (buffered s) + totals c.charge.toList
  size : s'.agg.bufSize - (leaves s'.agg.nfb).length = s.agg.bufSize - (leaves s.agg.nfb).length

theorem buffered_perm {s s' : NetFlow w} (h : (leaves s'.agg.nfb).Perm (leaves s.agg.nfb)) :
    totals (buffered s') = totals (buffered s) := totals_perm (h.map _)

theorem buffered_cons {s : NetFlow w} {x : FlowKey w × NfData w}
    {l : List (FlowKey w × NfData w)} (h : (leaves s.agg.nfb).Perm (x :: l)) :
    totals (buffered s) =
      Pi.single x.1 (x.2.octets, x.2.packets) + totals (l.map leafCharge) := by
  rw [buffered, totals_perm (h.map _), List.map_cons, totals_cons]
  rfl

/-- A record comes. -/
theorem keeps_add (s : NetFlow w) (d sa da : Bit32 w) (f : Flow w) :
    Keeps (.add d sa da f) [] s { s with agg := s.agg.add d sa da f } := by
  obtain ⟨-, hsize, hperm⟩ | ⟨x, l, -, hsize, hold, hnew⟩ := leaves_add s.agg d sa da f
  · constructor
    · -- a new leaf with what the record says
      rw [buffered_cons hperm, ← buffered]
      simp [rows, NfCall.charge, Flow.data, add_comm]
    · have hlen := hperm.length_eq
      rw [List.length_cons] at hlen
      simp only [hsize, hlen]
      omega
  · constructor
    · -- the leaf of the key grows by what the record says
      rw [buffered_cons hnew, buffered_cons hold]
      have hsum : ((x.octets + f.o, x.packets + f.pk) : Charge w)
          = (x.octets, x.packets) + (f.o, f.pk) := rfl
      simp only [rows, NfCall.charge, NfData.add, List.filterMap_nil, List.map_nil, totals_nil,
        zero_add, Option.toList_some, totals_cons, add_zero, hsum, Pi.single_add]
      exact add_right_comm _ _ _
    · have hlen := hnew.length_eq.trans hold.length_eq.symm
      simp only [hsize, hlen]

/-- A leaf goes. -/
theorem keeps_expire {s s' : NetFlow w} {k : FlowKey w} {env : SweepEnv} {out : List (NfOut w)}
    (henv : 0 ≤ env.fd) (h : s.expire k env = .ok (s', out)) :
    Keeps (.expire k env) out s s' := by
  rw [NetFlow.expire] at h
  split at h
  · simp at h
  · next tmp nfb hleaf =>
    have hperm := leaves_eraseLeaf hleaf
    simp only [Except.ok.injEq, Prod.mk.injEq] at h
    obtain ⟨rfl, rfl⟩ := h
    constructor
    · rw [rows_append, rows_write _ henv, rows_count, buffered_cons hperm]
      simp [NfCall.charge, FlowRow.charge, NfData.row, buffered]
    · have hlen := hperm.length_eq
      rw [List.length_cons] at hlen
      simp only [hlen]
      omega

/-- A node without leaves goes. -/
theorem keeps_prune {s s' : NetFlow w} {c : NfCall w} {nfb : Option (Nfb w)}
    {out : List (NfOut w)} (hc : c.charge = none)
    (hnfb : ∀ n, nfb = some n → (leaves s.agg.nfb).Perm (leaves n))
    (h : s.prune nfb = .ok (s', out)) : Keeps c out s s' := by
  cases nfb with
  | none => simp [NetFlow.prune] at h
  | some nfb =>
    simp only [NetFlow.prune, Except.ok.injEq, Prod.mk.injEq] at h
    obtain ⟨rfl, rfl⟩ := h
    have hperm := hnfb nfb rfl
    constructor
    · rw [buffered_perm hperm.symm, hc]
      simp [rows]
    · simp only [hperm.length_eq]

theorem keeps_step {s s' : NetFlow w} {c : NfCall w} {out : List (NfOut w)} (hc : c.Writable)
    (h : (netFlow w).step s c = .ok (s', out)) : Keeps c out s s' := by
  cases c with
  | add d sa da f =>
    simp only [netFlow, Except.ok.injEq, Prod.mk.injEq] at h
    obtain ⟨rfl, rfl⟩ := h
    exact keeps_add s d sa da f
  | expire k env => exact keeps_expire hc h
  | eraseDevice d => exact keeps_prune rfl (fun _ hn => leaves_eraseDevice hn) h
  | eraseSource d sa => exact keeps_prune rfl (fun _ hn => leaves_eraseSource hn) h

/-- **NetFlow conservation**, for any order of records and of leaves that expire. -/
theorem nf_conservation {h : List (NfCall w × List (NfOut w))} {s : NetFlow w}
    (hr : (netFlow w).Reaches h s) (hw : ∀ x ∈ h, x.1.Writable) :
    (∀ k, totals (emitted h) k + totals (buffered s) k = totals (added h) k) ∧
      ((leaves s.agg.nfb).map Prod.fst).Nodup ∧ s.agg.bufSize = (leaves s.agg.nfb).length := by
  have hrun : (∀ x ∈ h, x.1.Writable) →
      totals (emitted h) + totals (buffered s) = totals (added h) ∧
        s.agg.bufSize = (leaves s.agg.nfb).length := by
    refine Machine.Reaches.invariant _ (I := fun h s => (∀ x ∈ h, x.1.Writable) →
      totals (emitted h) + totals (buffered s) = totals (added h) ∧
        s.agg.bufSize = (leaves s.agg.nfb).length) ?_ ?_ hr
    · intro _
      exact ⟨rfl, rfl⟩
    · intro h s c s' out _ ih hs hw
      -- the step is added to both sides of the sum before it
      obtain ⟨hcharges, hsize⟩ := ih fun x hx => hw x (by simp [hx])
      have hkeeps := keeps_step (hw (c, out) (by simp)) hs
      constructor
      · have hadded : added (h ++ [(c, out)]) = added h ++ c.charge.toList := by
          cases hc : c.charge <;> simp [added, hc]
        rw [hadded, totals_append, ← hcharges, emitted, List.flatMap_append, totals_append,
          List.flatMap_singleton, ← emitted, add_assoc, hkeeps.charges, ← add_assoc]
      · have hkept := hkeeps.size
        omega
  obtain ⟨hcharges, hsize⟩ := hrun hw
  exact ⟨fun k => congrFun hcharges k, leaves_nodup _, hsize⟩

/-- Two records under one key and one under another; the first leaf goes to the log file,
then the second one to the database, and the empty source is erased. -/
def nfRun : List (NfCall 32) :=
  [.add 1 2 3 ⟨10, 1, 7, 100, 200⟩, .add 1 2 4 ⟨20, 2, 7, 100, 200⟩,
    .add 1 2 3 ⟨4294967295, 3, 7, 150, 300⟩, .expire (1, 2, 3) ⟨0, str "log/nf20070101.log", 5⟩,
    .expire (1, 2, 4) ⟨9, str "log/nf20070101.log", 5⟩, .eraseSource 1 2]

theorem nf_conservation_run :
    (((netFlow 32).history nfRun).length = 6) ∧
      (∀ k, totals (emitted ((netFlow 32).history nfRun)) k +
          totals (buffered ((netFlow 32).final nfRun)) k =
        totals (added ((netFlow 32).history nfRun)) k) ∧
      ((leaves ((netFlow 32).final nfRun).agg.nfb).map Prod.fst).Nodup ∧
      ((netFlow 32).final nfRun).agg.bufSize =
        (leaves ((netFlow 32).final nfRun).agg.nfb).length :=
  ⟨by decide +kernel, nf_conservation ((netFlow 32).reaches_history nfRun) (by decide +kernel)⟩

/-! ## The records of one key in any order -/

/-- The records one after the other. -/
def NfAggregator.addAll (g : NfAggregator w) (d sa da : Bit32 w) (rs : List (Flow w)) :
    NfAggregator w :=
  rs.foldl (fun g f => g.add d sa da f) g

theorem leafOf_addAll {g : NfAggregator w} {d sa da : Bit32 w} {x : NfData w}
    (h : leafOf g.nfb (d, sa, da) = some x) (rs : List (Flow w)) :
    leafOf (g.addAll d sa da rs).nfb (d, sa, da) =
      some (rs.foldl (fun x f => x.add f.o f.pk f.et) x) := by
  induction rs generalizing g x with
  | nil => exact h
  | cons f rs ih =>
    rw [NfAggregator.addAll, List.foldl_cons, ← NfAggregator.addAll, List.foldl_cons]
    apply ih
    rw [leafOf_add, h]
    rfl

/-- What the leaf holds after the first record and the others. -/
theorem foldl_add (x : NfData w) (rs : List (Flow w)) :
    rs.foldl (fun x f => x.add f.o f.pk f.et) x =
      { x with
        octets := x.octets + (rs.map Flow.o).sum
        packets := x.packets + (rs.map Flow.pk).sum
        stopt := ((rs.map Flow.et).getLast?).getD x.stopt } := by
  induction rs generalizing x with
  | nil => simp
  | cons f rs ih =>
    rw [List.foldl_cons, ih, NfData.add]
    simp only [List.map_cons, List.sum_cons, add_assoc, NfData.mk.injEq, true_and]
    cases rs with
    | nil => rfl
    | cons r rs => simp [List.getLast?_cons]

/-- Sums, and the times of the first and the last record. -/
theorem leafOf_addAll_new {g : NfAggregator w} {d sa da : Bit32 w} {rs : List (Flow w)}
    (hnew : leafOf g.nfb (d, sa, da) = none) (hrs : rs ≠ []) :
    leafOf (g.addAll d sa da rs).nfb (d, sa, da) =
      some ⟨(rs.map Flow.o).sum, (rs.map Flow.pk).sum, (rs.head hrs).ii, (rs.head hrs).bt,
        (rs.getLast hrs).et⟩ := by
  cases rs with
  | nil => exact absurd rfl hrs
  | cons f rs =>
    have hfirst : leafOf (g.add d sa da f).nfb (d, sa, da) = some f.data := by
      rw [leafOf_add, hnew]
      rfl
    rw [NfAggregator.addAll, List.foldl_cons, ← NfAggregator.addAll, leafOf_addAll hfirst,
      foldl_add]
    simp only [Flow.data, List.map_cons, List.sum_cons, List.head_cons, Option.some.injEq,
      NfData.mk.injEq, true_and]
    cases rs with
    | nil => rfl
    | cons r rs =>
      rw [List.getLast?_map, List.getLast?_eq_some_getLast (List.cons_ne_nil r rs),
        List.getLast_cons (List.cons_ne_nil r rs)]
      rfl

/-- The leaf of new records starts with the first flow and stops with the last one, and it is
the same leaf whatever their order; the input interface is not asked for. -/
def FlowOrder (g : NfAggregator w) (d sa da : Bit32 w) (rs : List (Flow w)) : Prop :=
  ∃ x, leafOf (g.addAll d sa da rs).nfb (d, sa, da) = some x ∧
    (∀ r ∈ rs, x.startt ≤ r.bt ∧ r.et ≤ x.stopt) ∧
    ∀ rs', rs'.Perm rs → ∃ x', leafOf (g.addAll d sa da rs').nfb (d, sa, da) = some x' ∧
      x'.octets = x.octets ∧ x'.packets = x.packets ∧ x'.startt = x.startt ∧ x'.stopt = x.stopt

/-- The start is that of the record that came first, the stop that of the record that came
last: they are right in every order when they are the same in all records. -/
theorem flow_order_iff {g : NfAggregator w} {d sa da : Bit32 w} {rs : List (Flow w)}
    (hnew : leafOf g.nfb (d, sa, da) = none) (hrs : rs ≠ []) :
    FlowOrder g d sa da rs ↔ ∀ r ∈ rs, ∀ r' ∈ rs, r.bt = r'.bt ∧ r.et = r'.et := by
  constructor
  · rintro ⟨x, -, -, hperm⟩
    have hstart : ∀ r ∈ rs, r.bt = x.startt := by
      intro r hr
      obtain ⟨l, l', rfl⟩ := List.append_of_mem hr
      -- the record comes first
      obtain ⟨x', hx', -, -, hstartt, -⟩ := hperm (r :: (l ++ l')) List.perm_middle.symm
      rw [leafOf_addAll_new hnew (List.cons_ne_nil _ _)] at hx'
      obtain rfl := Option.some.inj hx'
      exact hstartt
    have hstop : ∀ r ∈ rs, r.et = x.stopt := by
      intro r hr
      obtain ⟨l, l', rfl⟩ := List.append_of_mem hr
      -- the record comes last
      have hlast : (l ++ l' ++ [r]).Perm (l ++ r :: l') :=
        (List.perm_append_singleton r _).trans List.perm_middle.symm
      obtain ⟨x', hx', -, -, -, hstopt⟩ := hperm _ hlast
      rw [leafOf_addAll_new hnew (by simp)] at hx'
      obtain rfl := Option.some.inj hx'
      simpa using hstopt
    intro r hr r' hr'
    exact ⟨(hstart r hr).trans (hstart r' hr').symm, (hstop r hr).trans (hstop r' hr').symm⟩
  · intro hsame
    refine ⟨_, leafOf_addAll_new hnew hrs, ?_, ?_⟩
    · intro r hr
      exact ⟨(hsame _ (List.head_mem hrs) r hr).1.le, (hsame r hr _ (List.getLast_mem hrs)).2.le⟩
    · intro rs' hperm
      have hrs' : rs' ≠ [] := fun hnil => hrs (List.nil_perm.mp (hnil ▸ hperm))
      refine ⟨_, leafOf_addAll_new hnew hrs', (hperm.map _).sum_eq, (hperm.map _).sum_eq, ?_, ?_⟩
      · exact (hsame _ (hperm.subset (List.head_mem hrs')) _ (List.head_mem hrs)).1
      · exact (hsame _ (hperm.subset (List.getLast_mem hrs')) _ (List.getLast_mem hrs)).2

/-- Two flows at one time. -/
theorem flow_order_two :
    FlowOrder (w := 32) ⟨∅, 0⟩ 1 2 3 [⟨10, 1, 7, 100, 200⟩, ⟨20, 2, 7, 100, 200⟩] :=
  (flow_order_iff rfl (by decide)).mpr (by decide)

/-- The record of the earlier flow comes second. -/
theorem flow_order_late :
    ¬ ∀ rs : List (Flow 32), rs ≠ [] → FlowOrder ⟨∅, 0⟩ 1 2 3 rs := by
  intro h
  obtain ⟨x, hx, htimes, -⟩ := h [⟨10, 1, 7, 100, 200⟩, ⟨20, 2, 7, 50, 150⟩] (by decide)
  have hleaf : leafOf (NfAggregator.addAll ⟨∅, 0⟩ 1 2 3
      [⟨10, 1, 7, 100, 200⟩, ⟨20, 2, 7, 50, 150⟩]).nfb (1, 2, 3) =
        some (⟨30, 3, 7, 100, 150⟩ : NfData 32) := by
    decide +kernel
  obtain rfl := Option.some.inj (hx.symm.trans hleaf)
  exact absurd (htimes ⟨20, 2, 7, 50, 150⟩ (by simp)).1 (by decide)

end Tacppd
