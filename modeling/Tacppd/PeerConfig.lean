/-
# Roaming peers in the configuration file

A peer is named by a host and a port, `host:port`, and saved with its description, its key and one
line for every mask.  The name is cut again by `utl::splitId`, which also knows a name in front of
a host (`name@host:port`), so a host with an at sign is not the same host when it is read.
`peersReadBack_iff` says which peers are read back.
-/
import Tacppd.NodeNames

namespace Tacppd

/-! ## Peers -/

/-- `Peer_data`.  The masks are texts of regular expressions. -/
structure PeerData where
  peerhost : IpAddr
  port : ℕ
  descr : Bytes
  key : Bytes
  mask : List Bytes

namespace PeerData

/-- `Peer_data::Peer_data(peer, p)`. -/
def new (peer : IpAddr) (p : ℕ) : PeerData := ⟨peer, p, str "none", str "none", []⟩

/-- What `CorePeer` compares: the address and the port. -/
def id (x : PeerData) : Bytes × ℕ := (x.peerhost.ipa, x.port)

/-- `Peer_data::add_mask`. -/
def addMask (s : Bytes) (x : PeerData) : PeerData := { x with mask := Keyed.addNew x.mask s }

/-- `Peer_data::del_mask`. -/
def delMask (s : Bytes) (x : PeerData) : PeerData := { x with mask := x.mask.erase s }

/-- `Peer_data::buildcfstr`. -/
def buildcfstr (x : PeerData) : Bytes :=
  str " peer " ++ x.peerhost.hname ++ [58] ++ decimal x.port ++ [10] ++
    str "  description '" ++ x.descr ++ [39, 10] ++
    str "  cryptokey " ++ x.key ++ [10] ++
    x.mask.flatMap (fun tmp => str "  mask " ++ tmp ++ [10]) ++
    str "  exit"

end PeerData

/-- The texts of all peers. -/
def peerText (pd : List PeerData) : Bytes := pd.flatMap fun x => x.buildcfstr ++ [10]

/-! ## The commands -/

/-- The commands by their `cmdID`. -/
inductive PeerCmd
  | confPeerNo
  | confPeerNode
  | confPeerDescr
  | confPeerMask
  | confPeerNoMask
  | confPeerCrypto
  deriving DecidableEq

/-- The commands for peers in the node `config`. -/
def peerConfig : List (List MaskWord × Option PeerCmd) :=
  [([.key (str "Exit")], none),
    ([.key (str "NO"), .key (str "PEer"), .param (.str 2 (some 255))], some .confPeerNo),
    ([.key (str "PEer"), .param (.str 2 (some 255))], some .confPeerNode)]

/-- The commands in the node of a peer. -/
def peerInner : List (List MaskWord × Option PeerCmd) :=
  [([.key (str "Exit")], none),
    ([.key (str "DEscription"), .param (.str 0 (some 255))], some .confPeerDescr),
    ([.key (str "MAsk"), .param (.str 0 (some 255))], some .confPeerMask),
    ([.key (str "No"), .key (str "MAsk"), .param (.str 0 (some 255))], some .confPeerNoMask),
    ([.key (str "CRyptokey"), .param (.str 0 (some 255))], some .confPeerCrypto)]

section

variable (env : AcctEnv)

/-- `peer` and `port` in `CorePeer::applycf`. -/
def peerOf [LongWidth] (s : Bytes) : IpAddr × ℕ :=
  (IpAddr.make env (splitId s 1), atoiUnsigned (splitId s 2))

/-- `CorePeer::add`. -/
def addPeer (x : PeerData) (pd : List PeerData) : List PeerData :=
  if (Keyed.look PeerData.id pd x.id).isSome = true then pd else pd ++ [x]

/-- The peer with the address and the port is changed. -/
def modifyPeer [LongWidth] (u : Bytes) (f : PeerData → PeerData) (pd : List PeerData) :
    List PeerData :=
  Keyed.alter PeerData.id ((peerOf env u).1.ipa, (peerOf env u).2) f pd

/-- `CorePeer::del`. -/
def delPeer [LongWidth] (u : Bytes) (pd : List PeerData) : List PeerData :=
  pd.eraseP fun tmp => decide (tmp.id = ((peerOf env u).1.ipa, (peerOf env u).2))

/-- `CorePeer::applycf`.  The parameters come as C strings. -/
def applyPeer [LongWidth] (cmdname : PeerCmd) (paramList up : List Bytes) (pd : List PeerData) :
    Option (List PeerData) :=
  match cmdname with
  | .confPeerNo => paramList.head?.map fun p => delPeer env (cstr p) pd
  | .confPeerNode => paramList.head?.map fun p =>
    addPeer (.new (peerOf env (cstr p)).1 (peerOf env (cstr p)).2) pd
  | .confPeerDescr => paramList.head?.bind fun p => up.head?.map fun u =>
    modifyPeer env (cstr u) (fun tmp => { tmp with descr := cstr p }) pd
  | .confPeerCrypto => paramList.head?.bind fun p => up.head?.map fun u =>
    modifyPeer env (cstr u) (fun tmp => { tmp with key := cstr p }) pd
  | .confPeerMask => paramList.head?.bind fun p => up.head?.map fun u =>
    modifyPeer env (cstr u) (·.addMask (cstr p)) pd
  | .confPeerNoMask => paramList.head?.bind fun p => up.head?.map fun u =>
    modifyPeer env (cstr u) (·.delMask (cstr p)) pd

def peerSection [LongWidth] : ConfSection (List PeerData) PeerCmd where
  config := peerConfig
  node := .confPeerNode
  inner := peerInner
  applycf := applyPeer env

/-- The text of the peers gives the same peers, from none. -/
def PeersReadBack [LongWidth] (pd : List PeerData) : Prop :=
  (peerSection env).replay (peerText pd) [] = some (none, pd)

/-! ## The lines of a peer -/

namespace PeerData

def descrLine : ParamLine PeerData PeerCmd where
  word := str "description"
  key := str "DEscription"
  mask := .str 0 (some 255)
  cmd := .confPeerDescr
  value x := 39 :: x.descr ++ [39]
  set p x := { x with descr := p }

def cryptokeyLine : ParamLine PeerData PeerCmd where
  word := str "cryptokey"
  key := str "CRyptokey"
  mask := .str 0 (some 255)
  cmd := .confPeerCrypto
  value x := x.key
  set p x := { x with key := p }

/-- The line of one mask. -/
def maskLine (tmp : Bytes) : ParamLine PeerData PeerCmd where
  word := str "mask"
  key := str "MAsk"
  mask := .str 0 (some 255)
  cmd := .confPeerMask
  value _ := tmp
  set p x := x.addMask p

/-- `getn()`, a colon and the port. -/
def name (x : PeerData) : Bytes := x.peerhost.hname ++ 58 :: decimal x.port

/-- The lines between the first one and the last one. -/
def fields [LongWidth] (x : PeerData) : List (Records.Field PeerData Bytes Bytes) :=
  descrLine.field :: cryptokeyLine.field :: x.mask.map fun tmp => (maskLine tmp).field

end PeerData

/-- A peer as a node. -/
def peerNode [LongWidth] : Records.Node PeerData (Bytes × ℕ) Bytes Bytes Bytes where
  key := PeerData.id
  head x := keyLine 1 (str "peer") x.name
  readHead x := lineParam (.str 2 (some 255)) (1 + (str "peer").length + 1) x.name
  new u := .new (peerOf env (cstr u)).1 (peerOf env (cstr u)).2
  fields := PeerData.fields
  exit := exitLine

end

section

variable {env : AcctEnv} {pd pd' : List PeerData} {u p s t : Bytes} {x : PeerData}

theorem PeerData.buildcfstr_eq_write [LongWidth] (x : PeerData) :
    x.buildcfstr ++ [10] = ((peerNode env).write x).flatMap (· ++ [10]) := by
  have hwords : str " peer " = 32 :: str "peer" ++ [32] ∧
      str "  description '" = 32 :: 32 :: str "description" ++ [32, 39] ∧
      str "  cryptokey " = 32 :: 32 :: str "cryptokey" ++ [32] ∧
      str "  mask " = 32 :: 32 :: str "mask" ++ [32] := by decide +kernel
  unfold buildcfstr Records.Node.write peerNode
  simp [hwords, ParamLine.field, fields, descrLine, cryptokeyLine, maskLine, name, keyLine,
    exitLine, List.flatMap_map, Function.comp_def]

/-! ## The lines as commands -/

theorem descrLine_in : PeerData.descrLine.In peerInner :=
  ⟨⟨peerInner.take 1, peerInner.drop 2, rfl, by decide +kernel⟩, by decide +kernel,
    by decide +kernel⟩

theorem cryptokeyLine_in : PeerData.cryptokeyLine.In peerInner :=
  ⟨⟨peerInner.take 4, [], rfl, by decide +kernel⟩, by decide +kernel, by decide +kernel⟩

theorem maskLine_in (tmp : Bytes) : (PeerData.maskLine tmp).In peerInner := by
  have hrefuse : (peerInner.take 2 ++ peerInner.drop 3).all
      (fun c => refuses (str "mask" ++ [32]) c.1) = true := by decide +kernel
  have hkeyword : Keyword (str "mask") := by decide +kernel
  have hkey : matchNstrict (str "mask" ++ [32]) (str "MAsk") = true := by decide +kernel
  exact ⟨⟨peerInner.take 2, peerInner.drop 3, rfl, hrefuse⟩, hkeyword, hkey⟩

theorem step_peer [LongWidth] (x : PeerData) (pd : List PeerData) :
    (peerSection env).step (none, pd) ((peerNode env).head x) =
      ((peerNode env).readHead x).map fun u => (some [u], addPeer ((peerNode env).new u) pd) := by
  dsimp only [peerNode]
  exact @ConfSection.step_enter_map _ _ _ (peerSection env) pd (str "peer")
    (str "PEer") (.str 2 (some 255)) (peerConfig.take 2) [] _ rfl (by decide +kernel)
    (by decide +kernel) (by decide +kernel) x.name _ fun _ => rfl

/-- The commands that the lines of a peer are. -/
theorem step_peerField [LongWidth] (x : PeerData) (u : Bytes) (pd : List PeerData)
    {f : Records.Field PeerData Bytes Bytes} (hf : f ∈ x.fields) :
    (peerSection env).step (some [u], pd) (f.line x) =
      (f.read x).map fun p => (some [u], modifyPeer env (cstr u) (f.set p) pd) := by
  rcases List.mem_cons.mp hf with rfl | hf
  · apply ParamLine.step descrLine_in PeerCmd.noConfusion
    intro p hp
    show some (modifyPeer env (cstr u) (fun tmp => { tmp with descr := cstr p }) pd) = _
    rw [cstr_eq_self hp]
    rfl
  rcases List.mem_cons.mp hf with rfl | hf
  · apply ParamLine.step cryptokeyLine_in PeerCmd.noConfusion
    intro p hp
    show some (modifyPeer env (cstr u) (fun tmp => { tmp with key := cstr p }) pd) = _
    rw [cstr_eq_self hp]
    rfl
  obtain ⟨tmp, -, rfl⟩ := List.mem_map.mp hf
  apply ParamLine.step (maskLine_in tmp) PeerCmd.noConfusion
  intro p hp
  show some (modifyPeer env (cstr u) (·.addMask (cstr p)) pd) = _
  rw [cstr_eq_self hp]
  rfl

/-! ## What a peer is read as -/

/-- A peer that the file can hold. -/
structure PeerData.Storable [LongWidth] (env : AcctEnv) (x : PeerData) : Prop where
  name : PlainText 2 255 x.name
  host : (64 : UInt8) ∉ x.peerhost.hname ∧ (58 : UInt8) ∉ x.peerhost.hname
  address : fill env x.peerhost.hname = x.peerhost.ipa
  port : UnsignedNumber x.port
  descr : QuotedText 0 255 x.descr
  key : PlainText 0 255 x.key
  mask : ∀ m ∈ x.mask, PlainText 0 255 m
  nodup : x.mask.Nodup

/-- The texts of a peer have no newline, the host no colon, and the port is an `unsigned int`. -/
structure PeerData.OneLine (x : PeerData) : Prop where
  host : (10 : UInt8) ∉ x.peerhost.hname ∧ (58 : UInt8) ∉ x.peerhost.hname
  port : x.port < 4294967296
  descr : (10 : UInt8) ∉ x.descr
  key : (10 : UInt8) ∉ x.key
  mask : ∀ m ∈ x.mask, (10 : UInt8) ∉ m

theorem PeerData.OneLine.name (h : x.OneLine) : (10 : UInt8) ∉ x.name := by
  have hdecimal := ten_not_mem_decimal x.port
  simp [PeerData.name, h.host.1, hdecimal]

/-- The host and the port come back. -/
theorem readPeerName_iff [LongWidth] (hx : x.OneLine) :
    (∃ u, lineParam (.str 2 (some 255)) (1 + (str "peer").length + 1) x.name = some u ∧
      peerOf env (cstr u) = (x.peerhost, x.port)) ↔
    PlainText 2 255 x.name ∧ (64 : UInt8) ∉ x.peerhost.hname ∧
      fill env x.peerhost.hname = x.peerhost.ipa ∧ UnsignedNumber x.port := by
  have hplain : lineParam (.str 2 (some 255)) (1 + (str "peer").length + 1) x.name = some x.name ↔
      PlainText 2 255 x.name := lineParam_plainText_iff (by decide) hx.name
  have hlen := x.peerhost.length_hname
  have hword : (str "peer").length = 4 := by decide +kernel
  constructor
  · rintro ⟨u, hu, hof⟩
    rw [cstr_eq_self (of_lineParam hu).1] at hof
    obtain ⟨hname, hipa⟩ := IpAddr.ext_iff.mp (Prod.mk.inj hof).1
    have hport := (Prod.mk.inj hof).2
    change atoiUnsigned (splitId u 2) = x.port at hport
    change snprintf 99 (splitId u 1) = x.peerhost.hname at hname
    change fill env (splitId u 1) = x.peerhost.ipa at hipa
    by_cases hcolon : (58 : UInt8) ∈ u
    · have hp : x.port < 10 ^ 10 := Nat.lt_of_lt_of_le hx.port (by decide)
      obtain ⟨u₁, rfl, hsuffix⟩ := exists_of_lineParam_name x.peerhost.zero_not_mem hx.host.2 hp
        (by omega) hu hcolon
      have hu₁ : (58 : UInt8) ∉ u₁ := fun h => hx.host.2 (hsuffix.subset h)
      have hle : x.peerhost.hname.length ≤ (splitId (u₁ ++ 58 :: decimal x.port) 1).length := by
        rw [← hname]
        exact (isPrefix_snprintf _ _).length_le
      have hat : (64 : UInt8) ∉ u₁ := by
        intro hat
        have hlt := @length_splitId_lt (decimal x.port) u₁ hat hu₁
        have hsub := hsuffix.length_le
        omega
      have hdecimal : (64 : UInt8) ∉ decimal x.port := not_mem_decimal (by simp)
      obtain ⟨hfirst, hsecond⟩ := @splitId_host (decimal x.port) u₁ (by simp [hat, hdecimal]) hu₁
      rw [hfirst] at hle hipa
      rw [hsecond] at hport
      obtain rfl := hsuffix.eq_of_length_le hle
      exact ⟨hplain.mp hu, hat, hipa, atoiUnsigned_decimal_iff.mp hport⟩
    · -- without a colon the host is empty and the port is 0, but these are written with one
      rw [(splitId_of_colon hcolon).1] at hname
      have hzero : x.port = 0 := by
        rw [← hport, (splitId_of_colon hcolon).2, atoiUnsigned, atoi_nil]
        rfl
      have htext : x.name = [58, 48] := by
        rw [PeerData.name, ← hname, hzero]
        decide +kernel
      have hself : lineParam (.str 2 (some 255)) (1 + (str "peer").length + 1) [58, 48] =
          some [58, 48] :=
        (lineParam_plainText_iff (by decide) (by decide)).mpr
          ⟨by decide +kernel, by decide +kernel, by decide, by decide⟩
      rw [htext, hself] at hu
      exact absurd (Option.some.inj hu ▸ List.mem_cons_self) hcolon
  · rintro ⟨hname, hat, hipa, hunsigned⟩
    refine ⟨x.name, hplain.mpr hname, ?_⟩
    have hdecimal : (64 : UInt8) ∉ decimal x.port := not_mem_decimal (by simp)
    obtain ⟨hhost, hport⟩ := @splitId_host (decimal x.port) x.peerhost.hname
      (by simp [hat, hdecimal]) hx.host.2
    rw [cstr_eq_self hname.clean.1, peerOf, PeerData.name, hhost, hport,
      atoiUnsigned_decimal_iff.mpr hunsigned]
    exact Prod.ext (IpAddr.ext_iff.mpr ⟨x.peerhost.fits, hipa⟩) rfl

/-- The lines of the masks. -/
theorem setFields_masks [LongWidth] (x y : PeerData) (l : List Bytes) :
    Records.setFields x (l.map fun tmp => (PeerData.maskLine tmp).field) y =
      (l.mapM fun tmp => (PeerData.maskLine tmp).read x).map fun ps =>
        { y with mask := ps.foldl Keyed.addNew y.mask } := by
  induction l generalizing y with
  | nil => rfl
  | cons tmp l ih =>
    rw [List.map_cons, Records.setFields_cons, List.mapM_cons]
    show ((PeerData.maskLine tmp).read x).bind _ = _
    cases hread : (PeerData.maskLine tmp).read x with
    | none => rfl
    | some p =>
      rw [Option.bind_some, ih]
      cases (l.mapM fun tmp => (PeerData.maskLine tmp).read x) <;> rfl

/-- The masks come back. -/
theorem readMasks_iff [LongWidth] (hx : ∀ m ∈ x.mask, (10 : UInt8) ∉ m) :
    (∃ ps, (x.mask.mapM fun tmp => (PeerData.maskLine tmp).read x) = some ps ∧
      ps.foldl Keyed.addNew [] = x.mask) ↔
    (∀ m ∈ x.mask, PlainText 0 255 m) ∧ x.mask.Nodup := by
  have hfit : 255 + (2 + (str "mask").length + 1) ≤ 298 := by decide +kernel
  have hone : ∀ m ∈ x.mask, (PeerData.maskLine m).read x = some m ↔ PlainText 0 255 m :=
    fun m hm => lineParam_plainText_iff hfit (hx m hm)
  rw [← forall₂_congr hone, ← Records.mapM_eq_some_self_iff]
  constructor
  · rintro ⟨ps, hps, hfold⟩
    obtain ⟨rfl, hnodup⟩ := (Keyed.foldl_addNew_eq_iff (Records.length_of_mapM hps)).mp hfold
    exact ⟨hps, hnodup⟩
  · rintro ⟨hps, hnodup⟩
    exact ⟨x.mask, hps, (Keyed.foldl_addNew_eq_iff rfl).mpr ⟨rfl, hnodup⟩⟩

theorem readPeer_iff [LongWidth] (x : PeerData) : (peerNode env).read x = some x ↔
    (∃ u, lineParam (.str 2 (some 255)) (1 + (str "peer").length + 1) x.name = some u ∧
      peerOf env (cstr u) = (x.peerhost, x.port)) ∧
    PeerData.descrLine.read x = some x.descr ∧ PeerData.cryptokeyLine.read x = some x.key ∧
    ∃ ps, (x.mask.mapM fun tmp => (PeerData.maskLine tmp).read x) = some ps ∧
      ps.foldl Keyed.addNew [] = x.mask := by
  unfold Records.Node.read peerNode PeerData.fields
  simp only [Records.setFields_cons, setFields_masks, Option.bind_eq_some_iff,
    Option.map_eq_some_iff]
  constructor
  · rintro ⟨u, hu, d, hd, k, hk, ps, hps, rfl⟩
    exact ⟨⟨u, hu, rfl⟩, hd, hk, ps, hps, rfl⟩
  · rintro ⟨⟨u, hu, hof⟩, hd, hk, ps, hps, hmask⟩
    refine ⟨u, hu, _, hd, _, hk, ps, hps, ?_⟩
    show (⟨(peerOf env (cstr u)).1, (peerOf env (cstr u)).2, x.descr, x.key,
      ps.foldl Keyed.addNew []⟩ : PeerData) = x
    rw [hof, hmask]

theorem readPeer_eq_self_iff [LongWidth] (hx : x.OneLine) :
    (peerNode env).read x = some x ↔ x.Storable env := by
  have hdescr : PeerData.descrLine.read x = some x.descr ↔ QuotedText 0 255 x.descr :=
    lineParam_quotedText_iff (by decide) hx.descr
  have hkey : PeerData.cryptokeyLine.read x = some x.key ↔ PlainText 0 255 x.key :=
    lineParam_plainText_iff (by decide) hx.key
  rw [readPeer_iff, readPeerName_iff hx, hdescr, hkey, readMasks_iff hx.mask]
  constructor
  · rintro ⟨⟨hname, hat, hipa, hport⟩, hdescr, hkey, hmask, hnodup⟩
    exact ⟨hname, ⟨hat, hx.host.2⟩, hipa, hport, hdescr, hkey, hmask, hnodup⟩
  · intro h
    exact ⟨⟨h.name, h.host.1, h.address, h.port⟩, h.descr, h.key, h.mask, h.nodup⟩

theorem PeerData.Storable.oneLine [LongWidth] (h : x.Storable env) : x.OneLine where
  host := ⟨fun h10 => h.name.clean.2 (List.mem_append_left _ h10), h.host.2⟩
  port := h.port.1
  descr := h.descr.clean.2
  key := h.key.clean.2
  mask m hm := (h.mask m hm).clean.2

/-! ## The whole text -/

theorem peerNode_reader [LongWidth] : (peerNode env).Reader PeerData.OneLine (fun _ => True)
    (fun u => [u]) (peerSection env).step (fun pd => pd) := by
  apply Records.Node.Reader.ofKeyed addPeer (Keyed.alter PeerData.id)
  · exact fun _ _ _ => ⟨trivial, rfl⟩
  · exact fun _ _ _ _ _ _ _ _ _ => ⟨trivial, rfl⟩
  · intro x _ f hf p y
    simp only [peerNode, PeerData.fields, List.mem_cons] at hf
    rcases hf with rfl | rfl | hf
    · rfl
    · rfl
    · obtain ⟨tmp, -, rfl⟩ := List.mem_map.mp hf
      rfl
  · intro x pd z _ _ hread hz
    apply Records.Node.Reader.enter_none_of_step _ hz
    rw [step_peer, hread]
    rfl
  · intro x pd u _ _ hread
    rw [step_peer, hread]
    rfl
  · exact fun x u pd _ _ f hf _ => step_peerField x u pd hf
  · exact fun u pd => ConfSection.step_exit rfl

theorem oneLine_newPeer [LongWidth] (hu : Clean u) :
    (PeerData.new (peerOf env u).1 (peerOf env u).2).OneLine where
  host := by
    have hsub : ∀ c ∈ snprintf 99 (splitId u 1), c ∈ splitId u 1 :=
      (isPrefix_snprintf _ _).subset
    exact ⟨fun h10 => hu.2 (mem_of_mem_splitId (hsub 10 h10)),
      fun hcolon => colon_not_mem_splitId (hsub 58 hcolon)⟩
  port := by
    show (atoi (splitId u 2) % 4294967296).toNat < 4294967296
    omega
  descr := by
    show (10 : UInt8) ∉ str "none"
    decide +kernel
  key := by
    show (10 : UInt8) ∉ str "none"
    decide +kernel
  mask := nofun

/-- One command leaves the texts so. -/
theorem oneLine_applyPeer [LongWidth] {cmdname : PeerCmd} {params up : List Bytes}
    (hparams : ∀ t ∈ params, Clean t) (hpd : ∀ x ∈ pd, x.OneLine)
    (h : applyPeer env cmdname params up pd = some pd') : ∀ x ∈ pd', x.OneLine := by
  have hcstr : ∀ p ∈ params.head?, Clean (cstr p) := fun p hp =>
    have hclean := hparams p (List.mem_of_head? hp)
    (cstr_eq_self hclean.1).symm ▸ hclean
  have hchange : ∀ g : Bytes → PeerData → PeerData,
      (∀ p, Clean p → ∀ x : PeerData, x.OneLine → (g p x).OneLine) →
      (params.head?.bind fun p => up.head?.map fun u =>
        modifyPeer env (cstr u) (g (cstr p)) pd) = some pd' → ∀ x ∈ pd', x.OneLine := by
    intro g hg h
    obtain ⟨p, hp, h⟩ := Option.bind_eq_some_iff.mp h
    obtain ⟨u, -, rfl⟩ := Option.map_eq_some_iff.mp h
    exact Keyed.forall_mem_alter (hg _ (hcstr p hp)) hpd
  cases cmdname with
  | confPeerNo =>
    obtain ⟨p, -, rfl⟩ := Option.map_eq_some_iff.mp h
    exact fun x hx => hpd x (List.mem_of_mem_eraseP hx)
  | confPeerNode =>
    obtain ⟨p, hp, rfl⟩ := Option.map_eq_some_iff.mp h
    unfold addPeer
    split
    · exact hpd
    · intro x hx
      rcases List.mem_append.mp hx with hx | hx
      · exact hpd x hx
      · rw [List.mem_singleton.mp hx]
        exact oneLine_newPeer (hcstr p hp)
  | confPeerDescr =>
    exact hchange (fun p tmp => { tmp with descr := p })
      (fun p hp x hx => { hx with descr := hp.2 }) h
  | confPeerCrypto =>
    exact hchange (fun p tmp => { tmp with key := p })
      (fun p hp x hx => { hx with key := hp.2 }) h
  | confPeerMask =>
    refine hchange PeerData.addMask (fun p hp x hx => { hx with mask := fun m hm => ?_ }) h
    change m ∈ Keyed.addNew x.mask p at hm
    unfold Keyed.addNew at hm
    split at hm
    · exact hx.mask m hm
    · rcases List.mem_append.mp hm with hm | hm
      · exact hx.mask m hm
      · rw [List.mem_singleton.mp hm]
        exact hp.2
  | confPeerNoMask =>
    exact hchange PeerData.delMask
      (fun p _ x hx => { hx with mask := fun m hm => hx.mask m (List.mem_of_mem_erase hm) }) h

theorem peerSection_writes [LongWidth] : (peerSection env).Writes (peerNode env) (fun u => [u])
    (fun pd => pd) (fun _ => True) PeerData.buildcfstr PeerData.OneLine where
  reader := peerNode_reader
  text := PeerData.buildcfstr_eq_write
  lines x hx := by
    have hquoted : (10 : UInt8) ∉ 39 :: x.descr ++ [39] := by simpa using hx.descr
    have hmask : (10 : UInt8) ∉ str "mask" := by decide +kernel
    apply ten_not_mem_nodeLines (by decide +kernel) hx.name
    intro l hl
    simp only [peerNode, PeerData.fields, List.map_cons, List.map_map, List.mem_cons] at hl
    rcases hl with rfl | rfl | hl
    · exact ten_not_mem_keyLine (by decide +kernel) hquoted 2
    · exact ten_not_mem_keyLine (by decide +kernel) hx.key 2
    · obtain ⟨tmp, htmp, rfl⟩ := List.mem_map.mp hl
      exact ten_not_mem_keyLine hmask (hx.mask tmp htmp) 2
  keeps _ _ _ _ _ hparams _ hpd h := oneLine_applyPeer hparams hpd h
  config := List.cons_ne_nil _ _
  inner := List.cons_ne_nil _ _

/-- **Peers in the file**: they are read back if and only if no address and port come twice and the
file can hold each of them. -/
theorem peersReadBack_iff [LongWidth] : PeersReadBack env pd ↔
    (pd.map PeerData.id).Nodup ∧ ∀ x ∈ pd, x.Storable env := by
  have hback := (@peerSection_writes env _).readsBack_iff (fun x => readPeer_eq_self_iff)
    (fun x => PeerData.Storable.oneLine) (s := []) trivial rfl pd
  rw [← show (peerNode env).key = PeerData.id from rfl, ← hback]
  unfold PeersReadBack
  constructor
  · exact fun h => ⟨pd, h, rfl⟩
  · rintro ⟨_, h, rfl⟩
    exact h

end

end Tacppd
