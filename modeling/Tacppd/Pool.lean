/-
# Address pools

`CorePool.cc`: a pool is a numbered list of addresses, each with a tag that says that it is
free.  `get` hands out the first free address of a pool, `ret` makes an address free in all
of them, and the configuration adds and deletes addresses.  All calls are made under one
lock, so a run is a sequence of calls.

The tag belongs to the entry of one pool.  An address that is in two pools, or that is
deleted and added again while it is in use, has a free entry all the same, and is handed
out twice.  As long as `add` brings in no address that is in another pool or in use, this
does not happen (`get_exclusive`); the condition is exact for the invariant behind it
(`always_sound_iff`).
-/
import Tacppd.Lib.Lease
import Tacppd.PoolAddr

namespace Tacppd

/-! ## One pool -/

/-- `Addrpool_entry`; the tag says that the address is free. -/
structure AddrpoolEntry where
  address : Bytes
  tag : Bool
  deriving DecidableEq, Repr

namespace Addrpool

/-- `Addrpool_data::add`. -/
def add (ae : List AddrpoolEntry) (ip : Bytes) : List AddrpoolEntry :=
  if ae.any (·.address == ip) then ae else ae ++ [⟨ip, true⟩]

/-- `Addrpool_data::del`. -/
def del (ip : Bytes) : List AddrpoolEntry → List AddrpoolEntry
  | [] => []
  | e :: rest => if e.address = ip then rest else e :: del ip rest

/-- `Addrpool_data::get`: the address, empty when none is free, and the entries. -/
def get : List AddrpoolEntry → Bytes × List AddrpoolEntry
  | [] => ([], [])
  | e :: rest =>
    if e.tag then (e.address, { e with tag := false } :: rest)
    else ((get rest).1, e :: (get rest).2)

/-- `Addrpool_data::ret`. -/
def ret (ip : Bytes) : List AddrpoolEntry → List AddrpoolEntry
  | [] => []
  | e :: rest => if e.address = ip then { e with tag := true } :: rest else e :: ret ip rest

end Addrpool

/-! ## The pools -/

/-- `Addrpool_data`. -/
structure AddrpoolData where
  pool : ℤ
  ae : List AddrpoolEntry
  deriving DecidableEq, Repr

/-- `CorePool`, its list `ap_`. -/
abbrev CorePool := List AddrpoolData

namespace CorePool

/-- The loop at the start of `add` looks for the pool, and makes one at the end of the list
when there is none; the change is made to the pool found. -/
def withPool (p : ℤ) (f : List AddrpoolEntry → List AddrpoolEntry) : CorePool → CorePool
  | [] => [⟨p, f []⟩]
  | d :: rest => if d.pool = p then { d with ae := f d.ae } :: rest else d :: withPool p f rest

/-- `add(int, const char*)`, for the addresses of the text. -/
def add (p : ℤ) (ips : List Bytes) (s : CorePool) : CorePool :=
  s.withPool p fun ae => ips.foldl Addrpool.add ae

/-- `del(int)`. -/
def delPool (p : ℤ) (s : CorePool) : CorePool := s.filter fun d => d.pool ≠ p

/-- `del(int, const char*)`. -/
def del (p : ℤ) (ips : List Bytes) (s : CorePool) : CorePool :=
  ips.foldl (fun s ip =>
    s.map fun d => if d.pool = p then { d with ae := Addrpool.del ip d.ae } else d) s

/-- `get(int)`: from the first pool with this number. -/
def get (p : ℤ) : CorePool → Bytes × CorePool
  | [] => ([], [])
  | d :: rest =>
    if d.pool = p then ((Addrpool.get d.ae).1, { d with ae := (Addrpool.get d.ae).2 } :: rest)
    else ((get p rest).1, d :: (get p rest).2)

/-- `ret(ipaddr)`: in every pool. -/
def ret (ip : Bytes) (s : CorePool) : CorePool :=
  s.map fun d => { d with ae := Addrpool.ret ip d.ae }

/-- All entries of all pools. -/
def entries (s : CorePool) : List AddrpoolEntry := s.flatMap (·.ae)

/-- The entries of the pool that `add` finds. -/
def poolEntries (p : ℤ) (s : CorePool) : List AddrpoolEntry :=
  ((s.find? (·.pool == p)).map (·.ae)).getD []

end CorePool

/-! ## Runs -/

/-- A call of one of the methods. -/
inductive PoolCall
  | add (p : ℤ) (a : Bytes)
  | delPool (p : ℤ)
  | del (p : ℤ) (a : Bytes)
  | get (p : ℤ)
  | ret (ip : Bytes)
  deriving DecidableEq, Repr

/-- A call, with the names as they are resolved when it is made. -/
structure PoolInput where
  env : AcctEnv
  call : PoolCall

/-- What a call leaves, and the text it returns. -/
def CorePool.step [LongWidth] (s : CorePool) (i : PoolInput) : Except Unit (CorePool × Bytes) :=
  match i.call with
  | .add p a =>
    match addresses i.env a with
    | none => .error ()
    | some ips => .ok (s.add p ips, [])
  | .delPool p => .ok (s.delPool p, [])
  | .del p a =>
    match addresses i.env a with
    | none => .error ()
    | some ips => .ok (s.del p ips, [])
  | .get p => .ok ((s.get p).2, (s.get p).1)
  | .ret ip => .ok (s.ret ip, [])

/-- The pools, called from anywhere in any order; a call that leaves a buffer stops them. -/
def corePool [LongWidth] : Machine CorePool PoolInput Bytes Unit := ⟨[], CorePool.step⟩

/-- The address that a call has handed out. -/
def handedOut (x : PoolInput × Bytes) : Option Bytes :=
  match x.1.call with
  | .get _ => if x.2 = [] then none else some x.2
  | _ => none

/-- The address that a call has given back. -/
def givenBack (x : PoolInput × Bytes) : Option Bytes :=
  match x.1.call with
  | .ret ip => some ip
  | _ => none

/-- The addresses in use: handed out and not given back since. -/
def inUse (pre : List (PoolInput × Bytes)) : List Bytes := Lease.held handedOut givenBack pre

/-- What `add` brings into a pool is in no other pool and not in use. -/
def AddsFresh [LongWidth] (pre : List (PoolInput × Bytes)) (s : CorePool) (i : PoolInput) : Prop :=
  match i.call with
  | .add p a => ∀ ip ∈ (addresses i.env a).getD [],
      ip ∈ (s.poolEntries p).map (·.address) ∨
        ip ∉ s.entries.map (·.address) ∧ ip ∉ inUse pre
  | _ => True

instance [LongWidth] (pre : List (PoolInput × Bytes)) (s : CorePool) (i : PoolInput) :
    Decidable (AddsFresh pre s i) := by
  unfold AddsFresh
  split <;> infer_instance

/-- The invariant: no address is in two entries, and no free one is in use. -/
structure CorePool.Sound (used : List Bytes) (s : CorePool) : Prop where
  distinct : (s.entries.map (·.address)).Nodup
  free : ∀ e ∈ s.entries, e.tag = true → e.address ∉ used

/-! ## What the calls do to the entries -/

theorem Addrpool.del_sublist (ip : Bytes) (ae : List AddrpoolEntry) :
    List.Sublist (Addrpool.del ip ae) ae := by
  induction ae with
  | nil => exact List.Sublist.refl _
  | cons e ae ih =>
    rw [Addrpool.del]
    split
    · exact List.sublist_cons_self e ae
    · exact ih.cons_cons e

/-- `get` hands out nothing and changes nothing, or it takes a free entry. -/
theorem Addrpool.get_cases (ae : List AddrpoolEntry) :
    Addrpool.get ae = ([], ae) ∨
      ∃ l e l', ae = l ++ e :: l' ∧ e.tag = true ∧
        Addrpool.get ae = (e.address, l ++ { e with tag := false } :: l') := by
  induction ae with
  | nil => exact .inl rfl
  | cons e ae ih =>
    rw [Addrpool.get]
    by_cases he : e.tag = true
    · rw [if_pos he]
      exact .inr ⟨[], e, ae, rfl, he, rfl⟩
    · rw [if_neg he]
      rcases ih with hget | ⟨l, e', l', rfl, htag, hget⟩
      · exact .inl (by rw [hget])
      · exact .inr ⟨e :: l, e', l', rfl, htag, by rw [hget]; rfl⟩

theorem Addrpool.map_address_ret (ip : Bytes) (ae : List AddrpoolEntry) :
    (Addrpool.ret ip ae).map (·.address) = ae.map (·.address) := by
  induction ae with
  | nil => rfl
  | cons e ae ih =>
    rw [Addrpool.ret]
    split
    · rfl
    · rw [List.map_cons, List.map_cons, ih]

/-- `ret` makes nothing free but the address given back. -/
theorem Addrpool.free_ret {ip : Bytes} {ae : List AddrpoolEntry} {e : AddrpoolEntry}
    (he : e ∈ Addrpool.ret ip ae) (htag : e.tag = true) : e.address = ip ∨ e ∈ ae := by
  induction ae with
  | nil => contradiction
  | cons x ae ih =>
    rw [Addrpool.ret] at he
    split at he
    · next hx =>
      rcases List.mem_cons.mp he with rfl | he
      · exact .inl hx
      · exact .inr (List.mem_cons_of_mem x he)
    · rcases List.mem_cons.mp he with rfl | he
      · exact .inr (List.mem_cons_self ..)
      · exact (ih he).imp_right (List.mem_cons_of_mem x)

/-- Adding a list of addresses: those that are not there yet come in behind, each once. -/
theorem Addrpool.foldl_add (ips : List Bytes) (ae : List AddrpoolEntry) :
    ∃ news : List Bytes, ips.foldl Addrpool.add ae = ae ++ news.map (⟨·, true⟩) ∧
      news.Nodup ∧ ∀ ip, ip ∈ news ↔ ip ∈ ips ∧ ip ∉ ae.map (·.address) := by
  induction ips generalizing ae with
  | nil => exact ⟨[], by simp, List.nodup_nil, by simp⟩
  | cons ip ips ih =>
    rw [List.foldl_cons, Addrpool.add]
    have hany : ae.any (·.address == ip) = true ↔ ip ∈ ae.map (·.address) := by
      simp only [List.any_eq_true, beq_iff_eq, List.mem_map]
    by_cases hip : ip ∈ ae.map (·.address)
    · rw [if_pos (hany.mpr hip)]
      obtain ⟨news, hfold, hnodup, hmem⟩ := ih ae
      refine ⟨news, hfold, hnodup, fun x => ?_⟩
      rw [hmem, List.mem_cons]
      constructor
      · rintro ⟨hx, hnot⟩
        exact ⟨.inr hx, hnot⟩
      · rintro ⟨rfl | hx, hnot⟩
        · contradiction
        · exact ⟨hx, hnot⟩
    · rw [if_neg (fun h => hip (hany.mp h))]
      obtain ⟨news, hfold, hnodup, hmem⟩ := ih (ae ++ [⟨ip, true⟩])
      have hmem' : ∀ x, x ∈ news ↔ x ∈ ips ∧ x ∉ ae.map (·.address) ∧ x ≠ ip := by
        intro x
        rw [hmem]
        simp
      refine ⟨ip :: news, by rw [hfold]; simp, ?_, fun x => ?_⟩
      · exact List.nodup_cons.mpr ⟨fun h => ((hmem' ip).mp h).2.2 rfl, hnodup⟩
      · rw [List.mem_cons, List.mem_cons, hmem']
        constructor
        · rintro (rfl | ⟨hx, hnot, -⟩)
          · exact ⟨.inl rfl, hip⟩
          · exact ⟨.inr hx, hnot⟩
        · rintro ⟨rfl | hx, hnot⟩
          · exact .inl rfl
          · by_cases hxip : x = ip
            · exact .inl hxip
            · exact .inr ⟨hx, hnot, hxip⟩

namespace CorePool

/-- The entries in front of a pool and behind it. -/
theorem entries_withPool (p : ℤ) (s : CorePool) :
    ∃ l l', s.entries = l ++ s.poolEntries p ++ l' ∧
      ∀ f, (s.withPool p f).entries = l ++ f (s.poolEntries p) ++ l' := by
  induction s with
  | nil => exact ⟨[], [], rfl, fun f => by simp [withPool, entries, poolEntries]⟩
  | cons d s ih =>
    by_cases hd : d.pool = p
    · have hpool : poolEntries p (d :: s) = d.ae := by simp [poolEntries, hd]
      refine ⟨[], entries s, by rw [hpool]; rfl, fun f => ?_⟩
      rw [hpool, withPool, if_pos hd]
      rfl
    · have hpool : poolEntries p (d :: s) = poolEntries p s := by
        simp [poolEntries, hd]
      obtain ⟨l, l', heq, hwith⟩ := ih
      refine ⟨d.ae ++ l, l', ?_, fun f => ?_⟩
      · rw [hpool, List.append_assoc, List.append_assoc, ← List.append_assoc l, ← heq]
        rfl
      · rw [hpool, withPool, if_neg hd, List.append_assoc, List.append_assoc,
          ← List.append_assoc l, ← hwith]
        rfl

theorem entries_delPool (p : ℤ) (s : CorePool) :
    List.Sublist (s.delPool p).entries s.entries := by
  induction s with
  | nil => exact List.Sublist.refl _
  | cons d s ih =>
    rw [delPool, List.filter_cons]
    split
    · exact (List.Sublist.refl d.ae).append ih
    · exact ih.trans (List.sublist_append_right _ _)

theorem entries_del (p : ℤ) (ips : List Bytes) (s : CorePool) :
    List.Sublist (s.del p ips).entries s.entries := by
  have hone : ∀ (ip : Bytes) (s : CorePool), List.Sublist (entries (s.map fun d =>
      if d.pool = p then { d with ae := Addrpool.del ip d.ae } else d)) s.entries := by
    intro ip s
    induction s with
    | nil => exact List.Sublist.refl _
    | cons d s ih =>
      refine List.Sublist.append ?_ ih
      show List.Sublist (AddrpoolData.ae (if d.pool = p then _ else d)) d.ae
      split
      · exact Addrpool.del_sublist ip d.ae
      · exact List.Sublist.refl _
  induction ips generalizing s with
  | nil => exact List.Sublist.refl _
  | cons ip ips ih => exact (ih _).trans (hone ip s)

/-- `get` hands out nothing and changes no entry, or it takes a free entry. -/
theorem get_cases (p : ℤ) (s : CorePool) :
    ((s.get p).1 = [] ∧ (s.get p).2.entries = s.entries) ∨
      ∃ l e l', s.entries = l ++ e :: l' ∧ e.tag = true ∧ (s.get p).1 = e.address ∧
        (s.get p).2.entries = l ++ { e with tag := false } :: l' := by
  induction s with
  | nil => exact .inl ⟨rfl, rfl⟩
  | cons d s ih =>
    rw [get]
    split
    · rcases Addrpool.get_cases d.ae with hget | ⟨l, e, l', hae, htag, hget⟩
      · exact .inl ⟨by rw [hget], by rw [hget]⟩
      · refine .inr ⟨l, e, l' ++ entries s, ?_, htag, by rw [hget], ?_⟩
        · show d.ae ++ entries s = _
          rw [hae, List.append_assoc, List.cons_append]
        · show (Addrpool.get d.ae).2 ++ entries s = _
          rw [hget, List.append_assoc, List.cons_append]
    · rcases ih with ⟨hnone, hsame⟩ | ⟨l, e, l', hs, htag, haddr, hget⟩
      · refine .inl ⟨hnone, ?_⟩
        show d.ae ++ entries (get p s).2 = d.ae ++ entries s
        rw [hsame]
      · refine .inr ⟨d.ae ++ l, e, l', ?_, htag, haddr, ?_⟩
        · show d.ae ++ entries s = _
          rw [hs, List.append_assoc]
        · show d.ae ++ entries (get p s).2 = _
          rw [hget, List.append_assoc]

theorem map_address_ret (ip : Bytes) (s : CorePool) :
    (s.ret ip).entries.map (·.address) = s.entries.map (·.address) := by
  induction s with
  | nil => rfl
  | cons d s ih =>
    show (Addrpool.ret ip d.ae ++ entries (ret ip s)).map (·.address) =
      (d.ae ++ entries s).map (·.address)
    rw [List.map_append, List.map_append, Addrpool.map_address_ret, ih]

theorem free_ret {ip : Bytes} {s : CorePool} {e : AddrpoolEntry} (he : e ∈ (s.ret ip).entries)
    (htag : e.tag = true) : e.address = ip ∨ e ∈ s.entries := by
  obtain ⟨d', hd', he⟩ := List.mem_flatMap.mp he
  obtain ⟨d, hd, rfl⟩ := List.mem_map.mp hd'
  exact (Addrpool.free_ret he htag).imp_right fun h => List.mem_flatMap.mpr ⟨d, hd, h⟩

/-! ## The invariant -/

section

variable {used used' : List Bytes} {s : CorePool}

theorem sound_nil (used : List Bytes) : Sound used [] :=
  ⟨List.nodup_nil, by simp [entries]⟩

theorem Sound.of_sublist {s' : CorePool} (h : s.Sound used)
    (hsub : List.Sublist s'.entries s.entries) : s'.Sound used :=
  ⟨(hsub.map _).nodup h.distinct, fun e he => h.free e (hsub.subset he)⟩

/-- `add` keeps the invariant if and only if all it brings in is fresh. -/
theorem sound_add_iff {p : ℤ} {ips : List Bytes} (h : s.Sound used) :
    (s.add p ips).Sound used ↔
      ∀ ip ∈ ips, ip ∈ (s.poolEntries p).map (·.address) ∨
        ip ∉ s.entries.map (·.address) ∧ ip ∉ used := by
  obtain ⟨l, l', hentries, hwith⟩ := entries_withPool p s
  obtain ⟨news, hfold, hnodup, hmem⟩ := Addrpool.foldl_add ips (s.poolEntries p)
  have hadded : (s.add p ips).entries =
      l ++ (s.poolEntries p ++ news.map (⟨·, true⟩)) ++ l' := by
    rw [add, hwith, hfold]
  -- up to its place in the list, what comes in stands behind the rest
  have hperm : (s.add p ips).entries.Perm (s.entries ++ news.map (⟨·, true⟩)) := by
    rw [hadded, hentries]
    simp only [List.append_assoc]
    exact (List.perm_append_comm.append_left _).append_left _
  have hnews : (news.map fun ip => (⟨ip, true⟩ : AddrpoolEntry)).map (·.address) = news := by
    rw [List.map_map]
    exact List.map_id news
  have hdistinct : ((s.add p ips).entries.map (·.address)).Nodup ↔
      ∀ ip ∈ news, ip ∉ s.entries.map (·.address) := by
    rw [(hperm.map _).nodup_iff, List.map_append, hnews, List.nodup_append]
    constructor
    · rintro ⟨-, -, hdis⟩ ip hip hs
      exact hdis ip hs ip hip rfl
    · intro hdis
      exact ⟨h.distinct, hnodup, fun a ha b hb hab => hdis b hb (hab ▸ ha)⟩
  have hfree : (∀ e ∈ (s.add p ips).entries, e.tag = true → e.address ∉ used) ↔
      ∀ ip ∈ news, ip ∉ used := by
    constructor
    · intro hall ip hip
      refine hall ⟨ip, true⟩ (hperm.mem_iff.mpr (List.mem_append_right _ ?_)) rfl
      exact List.mem_map.mpr ⟨ip, hip, rfl⟩
    · intro hall e he htag
      rcases List.mem_append.mp (hperm.mem_iff.mp he) with he | he
      · exact h.free e he htag
      · obtain ⟨ip, hip, rfl⟩ := List.mem_map.mp he
        exact hall ip hip
  constructor
  · intro hs ip hip
    by_cases hpool : ip ∈ (s.poolEntries p).map (·.address)
    · exact .inl hpool
    · have hnew := (hmem ip).mpr ⟨hip, hpool⟩
      exact .inr ⟨hdistinct.mp hs.distinct ip hnew, hfree.mp hs.free ip hnew⟩
  · intro hall
    have hfresh : ∀ ip ∈ news, ip ∉ s.entries.map (·.address) ∧ ip ∉ used := by
      intro ip hip
      obtain ⟨hips, hpool⟩ := (hmem ip).mp hip
      exact (hall ip hips).resolve_left hpool
    exact ⟨hdistinct.mpr fun ip hip => (hfresh ip hip).1,
      hfree.mpr fun ip hip => (hfresh ip hip).2⟩

/-- What `get` hands out is not in use, and it is not free any more. -/
theorem Sound.get {p : ℤ} (h : s.Sound used) :
    ((s.get p).1 ≠ [] → (s.get p).1 ∉ used) ∧
      ((∀ a, a ∈ used' → a ∈ used ∨ a = (s.get p).1 ∧ a ≠ []) → (s.get p).2.Sound used') := by
  rcases get_cases p s with ⟨hnone, hsame⟩ | ⟨l, e, l', hs, htag, haddr, hget⟩
  · refine ⟨fun hne => absurd hnone hne, fun hused => ⟨hsame ▸ h.distinct, ?_⟩⟩
    intro e he htag hin
    rw [hsame] at he
    rcases hused _ hin with hin | ⟨heq, hne⟩
    · exact h.free e he htag hin
    · exact hne (heq.trans hnone)
  · have he : e ∈ s.entries := by
      rw [hs]
      simp
    have hdis := h.distinct
    rw [hs, List.map_append, List.map_cons, List.nodup_middle] at hdis
    refine ⟨fun _ => by rw [haddr]; exact h.free e he htag, fun hused => ⟨?_, ?_⟩⟩
    · rw [hget, List.map_append, List.map_cons, List.nodup_middle]
      exact hdis
    · intro x hx hxtag hin
      rw [hget] at hx
      have hother : x ∈ l ++ l' := by
        rcases List.mem_append.mp hx with hx | hx
        · exact List.mem_append_left _ hx
        · rcases List.mem_cons.mp hx with rfl | hx
          · contradiction
          · exact List.mem_append_right _ hx
      have hxs : x ∈ s.entries := by
        rw [hs]
        rcases List.mem_append.mp hother with hx | hx <;> simp [hx]
      rcases hused _ hin with hin | ⟨heq, -⟩
      · exact h.free x hxs hxtag hin
      · -- another entry has another address
        apply (List.nodup_cons.mp hdis).1
        rw [haddr] at heq
        rw [← heq, ← List.map_append]
        exact List.mem_map.mpr ⟨x, hother, rfl⟩

/-- What `ret` makes free is not in use any more. -/
theorem Sound.ret {ip : Bytes} (h : s.Sound used) (hused : ∀ a, a ∈ used' → a ∈ used ∧ a ≠ ip) :
    (s.ret ip).Sound used' := by
  refine ⟨by rw [map_address_ret]; exact h.distinct, ?_⟩
  intro e he htag hin
  obtain ⟨hin, hne⟩ := hused _ hin
  rcases free_ret he htag with heq | he
  · exact hne heq
  · exact h.free e he htag hin

end

end CorePool

/-! ## Steps -/

section

variable {pre : List (PoolInput × Bytes)} {s s' : CorePool} {i : PoolInput} {out : Bytes}

theorem mem_inUse_concat {x : PoolInput × Bytes} {a : Bytes} :
    a ∈ inUse (pre ++ [x]) ↔ handedOut x = some a ∨ a ∈ inUse pre ∧ givenBack x ≠ some a :=
  Lease.mem_held_concat

/-- A call that is neither `get` nor `ret` changes nothing in what is in use. -/
theorem sound_inUse_concat {x : PoolInput × Bytes} (hout : handedOut x = none)
    (hback : givenBack x = none) : s.Sound (inUse (pre ++ [x])) ↔ s.Sound (inUse pre) := by
  have hmem : ∀ a, a ∈ inUse (pre ++ [x]) ↔ a ∈ inUse pre := by
    intro a
    rw [mem_inUse_concat, hout, hback]
    simp
  constructor
  · exact fun h => ⟨h.distinct, fun e he ht hin => h.free e he ht ((hmem _).mpr hin)⟩
  · exact fun h => ⟨h.distinct, fun e he ht hin => h.free e he ht ((hmem _).mp hin)⟩

/-- **One step**: it keeps the invariant if and only if it adds fresh addresses only. -/
theorem sound_step_iff [LongWidth] (h : s.Sound (inUse pre)) (hstep : s.step i = .ok (s', out)) :
    s'.Sound (inUse (pre ++ [(i, out)])) ↔ AddsFresh pre s i := by
  obtain ⟨env, call⟩ := i
  unfold CorePool.step at hstep
  unfold AddsFresh
  cases call with
  | add p a =>
    simp only at hstep ⊢
    split at hstep
    · contradiction
    · next ips hips =>
      obtain ⟨rfl, rfl⟩ := Prod.mk.inj (Except.ok.inj hstep)
      rw [sound_inUse_concat rfl rfl, CorePool.sound_add_iff h, hips, Option.getD_some]
  | delPool p =>
    obtain ⟨rfl, rfl⟩ := Prod.mk.inj (Except.ok.inj hstep)
    rw [sound_inUse_concat rfl rfl]
    exact iff_of_true (h.of_sublist (CorePool.entries_delPool p s)) trivial
  | del p a =>
    simp only at hstep ⊢
    split at hstep
    · contradiction
    · next ips hips =>
      obtain ⟨rfl, rfl⟩ := Prod.mk.inj (Except.ok.inj hstep)
      rw [sound_inUse_concat rfl rfl]
      exact iff_of_true (h.of_sublist (CorePool.entries_del p ips s)) trivial
  | get p =>
    obtain ⟨rfl, rfl⟩ := Prod.mk.inj (Except.ok.inj hstep)
    refine iff_of_true (h.get.2 fun a ha => ?_) trivial
    rcases mem_inUse_concat.mp ha with hout | ⟨hin, -⟩
    · right
      simp only [handedOut] at hout
      split at hout
      · contradiction
      · next hne =>
        obtain rfl := Option.some.inj hout
        exact ⟨rfl, hne⟩
    · exact .inl hin
  | ret ip =>
    obtain ⟨rfl, rfl⟩ := Prod.mk.inj (Except.ok.inj hstep)
    refine iff_of_true (h.ret fun a ha => ?_) trivial
    rcases mem_inUse_concat.mp ha with hout | ⟨hin, hback⟩
    · contradiction
    · exact ⟨hin, fun heq => hback (by rw [heq]; rfl)⟩

/-- What a step hands out is not in use. -/
theorem handedOut_not_inUse [LongWidth] (h : s.Sound (inUse pre)) (hstep : s.step i = .ok (s', out))
    {a : Bytes} (hout : handedOut (i, out) = some a) : a ∉ inUse pre := by
  obtain ⟨env, call⟩ := i
  cases call with
  | get p =>
    obtain ⟨-, rfl⟩ := Prod.mk.inj (Except.ok.inj hstep)
    simp only [handedOut] at hout
    split at hout
    · contradiction
    · next hne =>
      obtain rfl := Option.some.inj hout
      exact (@CorePool.Sound.get (inUse pre) [] s p h).1 hne
  | add p a => contradiction
  | delPool p => contradiction
  | del p a => contradiction
  | ret ip => contradiction

end

/-! ## Runs -/

section

variable {h : List (PoolInput × Bytes)} {s : CorePool}

/-- The invariant holds along a run if and only if every `add` brings in fresh addresses
only. -/
theorem always_sound_iff [LongWidth] (hr : corePool.Reaches h s) :
    corePool.Always (fun pre s => s.Sound (inUse pre)) h ↔ corePool.EveryStep AddsFresh h :=
  hr.always_iff_everyStep (CorePool.sound_nil _) fun _ _ _ _ _ _ hs hstep =>
    sound_step_iff hs hstep

/-- **No address is handed out twice**: in a run whose `add` calls bring in no address that
is in another pool or in use, an address that `get` has returned is not returned again, by
any pool, until `ret` has been called for it. -/
theorem get_exclusive [LongWidth] (hr : corePool.Reaches h s)
    (hok : corePool.EveryStep AddsFresh h) : Lease.Exclusive handedOut givenBack h := by
  have hinv : corePool.Always (fun pre s =>
      s.Sound (inUse pre) ∧ Lease.Exclusive handedOut givenBack pre) h := by
    refine hok.always ⟨CorePool.sound_nil _, Lease.exclusive_nil⟩ ?_
    rintro pre s i s' out - ⟨hs, hex⟩ hfresh hstep
    refine ⟨(sound_step_iff hs hstep).mpr hfresh, Lease.exclusive_concat.mpr ⟨hex, ?_⟩⟩
    intro a hout
    exact handedOut_not_inUse hs hstep hout
  exact (hinv h [] s (by simp) hr).2

end

/-- Two pools with an address each, both given out, one returned and given out again. -/
def twoPoolsRun : List PoolInput :=
  [.add 1 (str "10.0.0.1"), .add 2 (str "10.0.0.2"), .get 1, .get 2, .ret (str "10.0.0.1"),
    .get 1].map (⟨numericEnv, ·⟩)

theorem get_exclusive_twoPools :
    Lease.Exclusive handedOut givenBack (corePool.history twoPoolsRun) :=
  get_exclusive (corePool.reaches_history twoPoolsRun) (corePool.everyStep_history (by
    decide +kernel))

/-- The same address in two pools. -/
def samePoolsRun : List PoolInput :=
  [.add 1 (str "10.0.0.1"), .add 2 (str "10.0.0.1"), .get 1, .get 2].map (⟨numericEnv, ·⟩)

/-- Each pool hands it out, and it is not given back in between. -/
theorem get_not_exclusive :
    ¬ ∀ (h : List (PoolInput × Bytes)) (s : CorePool), corePool.Reaches h s →
      Lease.Exclusive handedOut givenBack h := by
  intro hall
  exact absurd (hall _ _ (corePool.reaches_history samePoolsRun)) (by decide +kernel)

end Tacppd
