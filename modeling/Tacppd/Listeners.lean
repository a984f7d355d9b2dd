/-
# The table of listeners

`CoreListener` keeps one listener for a port.  To give a listener another type it is taken out
of the table, and a new one with the same settings is added.  `add` makes no listener for a
name that it does not know, so a listener is lost that is retyped to such a name
(`retype_iff`).

The table is used under one lock.  That the port is free when the new listener is added
follows from the table having one listener for a port, which `add` keeps.
-/
import Tacppd.Bytes
import Mathlib.Data.List.Nodup

namespace Tacppd

/-- `servertype_`. -/
inductive ServerType
  | tcp
  | udp
  | udpMulticast
  | xmlrpc
  deriving DecidableEq, Repr

/-- The functions that serve a connection. -/
inductive ServerFunction
  | tacacs
  | radius
  | radacct
  | http
  | xmlrpc
  | terminal
  | netflow
  | bundle
  | peer
  | tci
  deriving DecidableEq, Repr

/-- `Listener_data`, apart from its locks. -/
structure ListenerData where
  port : ℕ
  servertype : ServerType
  maxconnect : ℤ
  /-- `UsersFunction`; a listener of type `null` has none. -/
  usersFunction : Option ServerFunction
  acl : ℤ
  servname : Bytes
  created : Bool
  qDescrNum : ℤ
  deriving DecidableEq, Repr

/-- The chain of comparisons in `add`: the type and the function for a name.  The name `xmlrpc`
is there when the server is built `WITH_XMLRPC`. -/
def typeOfName (withXmlrpc : Bool) (s : Bytes) : Option (ServerType × Option ServerFunction) :=
  if scomp s (str "null") then some (.tcp, none)
  else if scomp s (str "tacacs") then some (.tcp, some .tacacs)
  else if scomp s (str "radius") then some (.udp, some .radius)
  else if scomp s (str "radacct") then some (.udp, some .radacct)
  else if scomp s (str "http") then some (.tcp, some .http)
  else if withXmlrpc && scomp s (str "xmlrpc") then some (.xmlrpc, some .xmlrpc)
  else if scomp s (str "terminal") then some (.tcp, some .terminal)
  else if scomp s (str "netflow") then some (.udp, some .netflow)
  else if scomp s (str "bundle") then some (.udpMulticast, some .bundle)
  else if scomp s (str "peer") then some (.tcp, some .peer)
  else if scomp s (str "tci") then some (.tcp, some .tci)
  else none

/-- The constructor, with `setServname`. -/
def ListenerData.new (p : ℕ) (m : ℤ) (s : Bytes) (a : ℤ)
    (t : ServerType × Option ServerFunction) : ListenerData :=
  ⟨p, t.1, m, t.2, a, s, true, 0⟩

/-- The list `srv_`, with one listener for a port. -/
structure CoreListener where
  srv : List ListenerData
  nodup : (srv.map ListenerData.port).Nodup

namespace CoreListener

variable (withXmlrpc : Bool)

/-- `add(p, m, s, a)`: nothing is added on a port that is in use, or under a name that is not
known. -/
def add (c : CoreListener) (p : ℕ) (m : ℤ) (s : Bytes) (a : ℤ) : CoreListener :=
  if hport : p ∈ c.srv.map ListenerData.port then c
  else
    match typeOfName withXmlrpc s with
    | none => c
    | some t =>
      { srv := c.srv ++ [.new p m s a t]
        nodup := by
          rw [List.map_append]
          refine c.nodup.append (List.nodup_singleton _) fun x hx hp => hport ?_
          have hxp : x = p := List.mem_singleton.mp hp
          rw [← hxp]
          exact hx }

/-- `srv_.erase(i)` for the first listener on the port. -/
def erase (c : CoreListener) (p : ℕ) : CoreListener where
  srv := c.srv.eraseP fun tmp => decide (tmp.port = p)
  nodup := (List.eraseP_sublist.map _).nodup c.nodup

/-- `modify1(p, s)`. -/
def modify1 (c : CoreListener) (p : ℕ) (s : Bytes) : CoreListener :=
  match c.srv.find? fun tmp => decide (tmp.port = p) with
  | some tmp => (c.erase p).add withXmlrpc p tmp.maxconnect s tmp.acl
  | none => c.add withXmlrpc p 0 s 0

end CoreListener

/-- The listener `l` has been given another type, and nothing else in the table is changed. -/
structure Retyped (c c' : CoreListener) (l : ListenerData) (s : Bytes)
    (t : ServerType × Option ServerFunction) : Prop where
  listener : ∃ l' ∈ c'.srv, l'.port = l.port ∧ (l'.servertype, l'.usersFunction) = t ∧
    l'.servname = s ∧ l'.maxconnect = l.maxconnect ∧ l'.acl = l.acl
  others : ∀ x, x.port ≠ l.port → (x ∈ c'.srv ↔ x ∈ c.srv)

/-- What a change of type is for: it is made, or nothing is changed. -/
structure RetypesOrKeeps (withXmlrpc : Bool) (c : CoreListener) (l : ListenerData) (s : Bytes) :
    Prop where
  supported : ∀ t, typeOfName withXmlrpc s = some t →
    Retyped c (c.modify1 withXmlrpc l.port s) l s t
  unsupported : typeOfName withXmlrpc s = none → c.modify1 withXmlrpc l.port s = c

variable {withXmlrpc : Bool} {c : CoreListener} {l : ListenerData} {s : Bytes}

namespace CoreListener

/-- The listener on a port is the first one that the loop comes to. -/
theorem find_eq (hl : l ∈ c.srv) :
    c.srv.find? (fun tmp => decide (tmp.port = l.port)) = some l := by
  obtain ⟨srv, hnodup⟩ := c
  change l ∈ srv at hl
  show srv.find? _ = some l
  induction srv with
  | nil => contradiction
  | cons x srv ih =>
    rw [List.map_cons, List.nodup_cons] at hnodup
    rw [List.find?_cons]
    by_cases hx : x.port = l.port
    · rw [decide_eq_true hx]
      rcases List.mem_cons.mp hl with rfl | hl
      · rfl
      · exact absurd (hx ▸ List.mem_map_of_mem hl) hnodup.1
    · rw [decide_eq_false hx]
      rcases List.mem_cons.mp hl with rfl | hl
      · exact absurd rfl hx
      · exact ih hnodup.2 hl

theorem mem_erase_iff (hl : l ∈ c.srv) {x : ListenerData} :
    x ∈ (c.erase l.port).srv ↔ x ∈ c.srv ∧ x.port ≠ l.port := by
  obtain ⟨l₁, l₂, hsrv, hl₁⟩ : ∃ l₁ l₂, c.srv = l₁ ++ l :: l₂ ∧ ∀ y ∈ l₁, y.port ≠ l.port := by
    obtain ⟨_, l₁, l₂, hsrv, hl₁⟩ := List.find?_eq_some_iff_append.mp (c.find_eq hl)
    exact ⟨l₁, l₂, hsrv, fun y hy => by simpa using hl₁ y hy⟩
  have hl₂ : ∀ y ∈ l₂, y.port ≠ l.port := by
    have hnodup := c.nodup
    rw [hsrv, List.map_append, List.map_cons] at hnodup
    intro y hy heq
    have hnot := (List.nodup_cons.mp (List.nodup_append.mp hnodup).2.1).1
    exact hnot (heq ▸ List.mem_map_of_mem hy)
  have herase : (c.erase l.port).srv = l₁ ++ l₂ := by
    show c.srv.eraseP _ = l₁ ++ l₂
    rw [hsrv, List.eraseP_append_right _ (fun y hy => by simpa using hl₁ y hy),
      List.eraseP_cons_of_pos (by simp)]
  rw [herase, hsrv, List.mem_append, List.mem_append, List.mem_cons]
  constructor
  · rintro (hx | hx)
    · exact ⟨.inl hx, hl₁ x hx⟩
    · exact ⟨.inr (.inr hx), hl₂ x hx⟩
  · rintro ⟨hx | rfl | hx, hne⟩
    · exact .inl hx
    · exact absurd rfl hne
    · exact .inr hx

/-- The port is free when the old listener is gone. -/
theorem port_free (hl : l ∈ c.srv) : l.port ∉ (c.erase l.port).srv.map ListenerData.port := by
  intro hmem
  obtain ⟨x, hx, hport⟩ := List.mem_map.mp hmem
  exact ((mem_erase_iff hl).mp hx).2 hport

theorem modify1_eq (hl : l ∈ c.srv) :
    c.modify1 withXmlrpc l.port s =
      (c.erase l.port).add withXmlrpc l.port l.maxconnect s l.acl := by
  rw [modify1, find_eq hl]

/-- A name that is not known. -/
theorem modify1_of_none (hl : l ∈ c.srv) (hs : typeOfName withXmlrpc s = none) :
    c.modify1 withXmlrpc l.port s = c.erase l.port := by
  rw [modify1_eq hl, add, dif_neg (port_free hl), hs]

/-- A name that is known. -/
theorem mem_modify1_iff (hl : l ∈ c.srv) {t : ServerType × Option ServerFunction}
    (hs : typeOfName withXmlrpc s = some t) {x : ListenerData} :
    x ∈ (c.modify1 withXmlrpc l.port s).srv ↔
      (x ∈ c.srv ∧ x.port ≠ l.port) ∨ x = .new l.port l.maxconnect s l.acl t := by
  rw [modify1_eq hl, add, dif_neg (port_free hl), hs]
  show x ∈ (c.erase l.port).srv ++ [_] ↔ _
  rw [List.mem_append, List.mem_singleton, mem_erase_iff hl]

end CoreListener

/-- **When a change of type keeps the listener**: exactly for the names that `add` knows. -/
theorem retype_iff (hl : l ∈ c.srv) :
    RetypesOrKeeps withXmlrpc c l s ↔ (typeOfName withXmlrpc s).isSome = true := by
  constructor
  · intro h
    by_contra hnone
    have hs : typeOfName withXmlrpc s = none := by simpa using hnone
    -- the listener is gone
    have hkeep := h.unsupported hs
    rw [CoreListener.modify1_of_none hl hs] at hkeep
    have hmem : l ∈ (c.erase l.port).srv := by
      rw [hkeep]
      exact hl
    exact ((CoreListener.mem_erase_iff hl).mp hmem).2 rfl
  · intro hsome
    refine ⟨fun t ht => ⟨⟨_, (CoreListener.mem_modify1_iff hl ht).mpr (.inr rfl), rfl, rfl, rfl,
      rfl, rfl⟩, fun x hx => ?_⟩, fun hs => ?_⟩
    · rw [CoreListener.mem_modify1_iff hl ht]
      constructor
      · rintro (⟨hmem, _⟩ | rfl)
        · exact hmem
        · exact absurd rfl hx
      · exact fun hmem => .inl ⟨hmem, hx⟩
    · rw [hs] at hsome
      contradiction

/-- A listener for TACACS+ on its port. -/
def tacacsListener : ListenerData := .new 49 100 (str "tacacs") 1 (.tcp, some .tacacs)

def oneListener : CoreListener := ⟨[tacacsListener], List.nodup_singleton _⟩

theorem retype_http : RetypesOrKeeps false oneListener tacacsListener (str "http") :=
  (retype_iff (List.mem_singleton.mpr rfl)).mpr (by decide)

/-- The command tree offers the type `TRaps`. -/
theorem retype_traps_lost :
    ¬ ∀ (withXmlrpc : Bool) (c : CoreListener) (l : ListenerData) (s : Bytes), l ∈ c.srv →
      RetypesOrKeeps withXmlrpc c l s := by
  intro h
  have hkeep := (h false oneListener tacacsListener (str "traps") (List.mem_singleton.mpr rfl)).2
    (by decide)
  have hsrv := congrArg CoreListener.srv hkeep
  revert hsrv
  decide

end Tacppd
