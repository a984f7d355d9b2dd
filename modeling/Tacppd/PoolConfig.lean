/-
# Pools in the configuration file

`Addrpool_data::buildcfstr` writes a pool as a node with its number and one line for each address,
and `CorePool::applycf` takes the two in each other's place: it adds the number of the node, read
as an address, to the pool whose number the address begins with.

`poolsReadBack_iff` says what is left: no pools at all come back, and through `applycf` alone one
pool more, whose number and address are both zero.
-/
import Tacppd.ConfSection
import Tacppd.PoolLists

namespace Tacppd

/-! ## Writing and reading -/

/-- `Addrpool_data::buildcfstr`. -/
def AddrpoolData.buildcfstr (d : AddrpoolData) : Bytes :=
  str " pool " ++ decimal d.pool ++ [10] ++
    d.ae.flatMap (fun tmp => str "  addr " ++ tmp.address ++ [10]) ++
    str "  exit"

/-- The texts of all pools, each with its newline. -/
def CorePool.configText (s : CorePool) : Bytes := s.flatMap fun d => d.buildcfstr ++ [10]

/-- The commands by their `cmdID`. -/
inductive PoolCmd
  | confPoolNo
  | confPoolNode
  | confPoolAddr
  | confPoolNoAddr
  deriving DecidableEq

/-- `CorePool::applycf`; nothing where `getAddr` leaves its buffers. -/
def CorePool.applycf [LongWidth] (env : AcctEnv) (cmdname : PoolCmd) (paramList up : List Bytes)
    (s : CorePool) : Option CorePool :=
  match cmdname with
  | .confPoolNo => paramList.head?.map fun p => s.delPool (atoi p)
  | .confPoolNode => some s
  | .confPoolAddr =>
    paramList.head?.bind fun p => up.head?.bind fun u =>
      (addresses env (cstr u)).map fun ips => s.add (atoi p) ips
  | .confPoolNoAddr =>
    paramList.head?.bind fun p => up.head?.bind fun u =>
      (addresses env (cstr p)).map fun ips => s.del (atoi u) ips

/-- The commands for pools in the node `config` of `etc/tacppd.cf.xml`. -/
def poolConfig : List (List MaskWord × Option PoolCmd) :=
  [([.key (str "Exit")], none),
    ([.key (str "NO"), .key (str "POol"), .param (.int 1 none)], some .confPoolNo),
    ([.key (str "POol"), .param (.int 0 none)], some .confPoolNode)]

/-- The commands in the node of a pool. -/
def poolInner : List (List MaskWord × Option PoolCmd) :=
  [([.key (str "Exit")], none),
    ([.key (str "ADdr"), .param .ip], some .confPoolAddr),
    ([.key (str "NO"), .key (str "ADdr"), .param .ip], some .confPoolNoAddr)]

/-- The commands for pools. -/
def poolSection [LongWidth] (env : AcctEnv) : ConfSection CorePool PoolCmd where
  config := poolConfig
  node := .confPoolNode
  inner := poolInner
  applycf := CorePool.applycf env

/-- The lines of a pool as `applycf` gets them: command, parameters and those of the node. -/
def AddrpoolData.commands (d : AddrpoolData) : List (PoolCmd × List Bytes × List Bytes) :=
  (.confPoolNode, [decimal d.pool], []) ::
    d.ae.map fun e => (.confPoolAddr, [e.address], [decimal d.pool])

/-- The commands of all lines, one after the other, from no pools. -/
def CorePool.replay [LongWidth] (env : AcctEnv) (s : CorePool) : Option CorePool :=
  (s.flatMap AddrpoolData.commands).foldlM (fun c x => c.applycf env x.1 x.2.1 x.2.2) []

/-- The numbers and the addresses in their order. -/
def CorePool.shape (s : CorePool) : List (ℤ × List Bytes) :=
  s.map fun d => (d.pool, d.ae.map (·.address))

/-- `applycf` gives the same pools. -/
def CorePool.ReadsBack [LongWidth] (env : AcctEnv) (s : CorePool) : Prop :=
  ∃ r, s.replay env = some r ∧ r.shape = s.shape

/-- The text gives the same pools, through the splitter and the masks of the commands. -/
def CorePool.TextReadsBack [LongWidth] (env : AcctEnv) (s : CorePool) : Prop :=
  ∃ r, (poolSection env).replay s.configText [] = some (none, r) ∧ r.shape = s.shape

/-! ## Numbers as addresses -/

/-- An octet can be 0. -/
local instance neZeroOctet : NeZero 256 := ⟨by decide⟩

/-- The address with one octet only, the last. -/
def lastOctet (n : Fin 256) : Dotted := ⟨0, 0, 0, n⟩

/-- What the resolver does with addresses and with numbers: `inet_ntoa` writes four octets, and
`inet_addr` takes a number below 256 for the last one; `gethostbyname_r` does the same with it, or
has no name for it. -/
structure OctetEnv (env : AcctEnv) : Prop where
  dotted : ∀ t, ∃ x : Dotted, env.inetAddr t = x.text
  name : ∀ n, env.gethostbyname (octetDecimal n) = none ∨
    env.gethostbyname (octetDecimal n) = some (lastOctet n).text
  number : ∀ n, env.inetAddr (octetDecimal n) = (lastOctet n).text
  address : ∀ n, env.inetAddr (lastOctet n).text = (lastOctet n).text

section

variable {env : AcctEnv} {s r c : CorePool} {d : AddrpoolData} {p : ℤ} {ips : List Bytes}
  {ds t : Bytes} {n : Fin 256}

theorem readDigits_dot (hds : ∀ c ∈ ds, isDigit c = true) (k : ℕ) (rest : Bytes) :
    readDigits k (ds ++ 46 :: rest) = readDigits k ds := by
  induction ds generalizing k with
  | nil =>
    show (if (48 : UInt8) ≤ 46 ∧ (46 : UInt8) ≤ 57 then _ else k) = k
    exact if_neg (by decide)
  | cons c ds ih =>
    rw [List.forall_mem_cons] at hds
    have hc : 48 ≤ c ∧ c ≤ 57 := by simpa [isDigit] using hds.1
    rw [List.cons_append, readDigits, readDigits, if_pos hc, if_pos hc, ih hds.2]

/-- `atoi` stops at the first dot. -/
theorem Dotted.atoi_text [LongWidth] (x : Dotted) : atoi x.text = x.a.val := by
  have hds := octetDigits x.a
  rw [← atoi_octetDecimal x.a, x.text_eq]
  obtain ⟨c, ds, heq⟩ := List.exists_cons_of_ne_nil hds.ne
  rw [heq] at hds ⊢
  have hc : 48 ≤ c ∧ c ≤ 57 := by simpa [isDigit] using hds.digit c List.mem_cons_self
  apply atoi_congr
  rw [List.cons_append, leadingNumber_cons hc.1, leadingNumber_cons hc.1, ← List.cons_append,
    readDigits_dot hds.digit]

theorem OctetEnv.fill_octet (henv : OctetEnv env) (n : Fin 256) :
    fill env (octetDecimal n) = (lastOctet n).text := by
  have hds := octetDigits n
  have hnot : ∀ b : UInt8, isDigit b = false → b ∉ octetDecimal n := by
    intro b hb hmem
    rw [hds.digit b hmem] at hb
    contradiction
  have hlocal : octetDecimal n ≠ str "localhost" := fun h =>
    hnot 108 (by decide) (by rw [h]; decide)
  have hunknown : octetDecimal n ≠ unknownIp := fun h =>
    hnot 46 (by decide) (by rw [h]; decide)
  have hfits : ∀ k, 4 ≤ k → snprintf k (octetDecimal n) = octetDecimal n := by
    intro k hk
    have hlen := hds.len
    exact snprintf_eq_self (hnot 0 (by decide)) (by omega)
  unfold fill getipfromname
  rw [if_neg hds.ne, if_neg hlocal, if_neg hunknown]
  rcases henv.name n with h | h
  · simp only [h]
    rw [hfits 63 (by decide), hfits 99 (by decide), henv.number]
  · simp only [h]
    rw [Dotted.snprintf_text (by decide), Dotted.snprintf_text (by decide), henv.address]

theorem takeWhile_addrByte (hds : ∀ c ∈ t, isDigit c = true) : t.takeWhile addrByte = t := by
  rw [List.takeWhile_eq_self_iff]
  intro c hc
  have hother := ne_of_isDigit (hds c hc)
  simp [addrByte, hother.2.2.2.1, hother.2.2.2.2]

/-- A dotted address is a word of a line. -/
theorem Dotted.plainWord (x : Dotted) : PlainWord x.text := by
  apply plainWord_of_not_mem x.text_ne_nil
  intro c hc hmem
  have hother : ∀ c ∈ ([32, 39, 34, 33, 35, 59, 92] : Bytes), isDigit c = false ∧ c ≠ 46 := by
    simp [isDigit]
  obtain ⟨hdigit, hdot⟩ := hother c hmem
  rcases x.mem_text hc with h | h
  · rw [hdigit] at h
    exact Bool.false_ne_true h
  · exact hdot h

/-- A text of digits is an address of its own, which `getAddr` finds once. -/
theorem getAddr_digits [LongWidth] (hds : ∀ c ∈ t, isDigit c = true) (hne : t ≠ [])
    (hlen : t.length < 16) (k : ℕ) : getAddr env t k = some (if k = 0 then t else []) := by
  have htake := takeWhile_addrByte hds
  rw [getAddr, getAddrLoop, if_neg hne]
  simp only [htake]
  rw [if_neg (by omega), List.drop_length]
  cases k with
  | zero => rfl
  | succ k => rfl

theorem addresses_digits [LongWidth] (hds : ∀ c ∈ t, isDigit c = true) (hne : t ≠ [])
    (hlen : t.length < 16) : addresses env t = some [fill env t, fill env t] := by
  have hget := @getAddr_digits env t _ hds hne hlen
  have hzero : (0 : UInt8) ∉ t := fun h0 => (ne_of_isDigit (hds 0 h0)).2.2.1 rfl
  have hfits : snprintf 16 t = t := snprintf_eq_self hzero (by omega)
  have hfrom : ∀ fuel, addrTextsFrom env t (fuel + 2) 0 = some [t] := by
    intro fuel
    rw [addrTextsFrom, hget]
    dsimp only
    rw [if_pos rfl, hfits, if_neg hne, addrTextsFrom, hget]
    rfl
  rw [addresses, addrTexts, hget]
  dsimp only
  rw [if_pos rfl, hfits, if_neg hne, hfrom]
  rfl

/-- A number with a sign is not read as an address. -/
theorem addresses_minus [LongWidth] (hds : ∀ c ∈ t, isDigit c = true) (hlen : t.length < 16) :
    addresses env (45 :: t) = some [] := by
  have htake := takeWhile_addrByte hds
  have hfirst : (45 :: t).takeWhile addrByte = [] := rfl
  have hget : getAddr env (45 :: t) 0 = some [] := by
    rw [getAddr, getAddrLoop, if_neg (List.cons_ne_nil _ _)]
    simp only [hfirst, List.length_nil, List.drop_zero]
    rw [if_neg (by omega), if_neg (by decide)]
    simp only [htake]
    rw [if_neg (by omega), if_neg (by simp), if_pos trivial]
    rfl
  rw [addresses, addrTexts, hget]
  rfl

/-- The addresses that the number of a pool is read as. -/
def numberAddrs (env : AcctEnv) (p : ℤ) : List Bytes :=
  if 0 ≤ p then [fill env (decimal p), fill env (decimal p)] else []

theorem addresses_decimal [LongWidth] (hp : IntNumber p) :
    addresses env (cstr (decimal p)) = some (numberAddrs env p) := by
  have htext := decimalText hp
  have hzero : (0 : UInt8) ∉ decimal p := by
    intro h0
    rcases htext.byte 0 h0 with h | h
    · exact absurd h (by decide)
    · exact absurd h (by decide)
  rw [cstr_eq_self hzero, numberAddrs]
  have hlen := htext.len
  cases p with
  | ofNat k =>
    rw [if_pos (show 0 ≤ Int.ofNat k from Int.natCast_nonneg k)]
    exact addresses_digits (fun c hc => isDigit_of_mem_decimal hc) htext.ne (by omega)
  | negSucc k =>
    rw [decimal_negSucc] at hlen ⊢
    rw [if_neg (by omega)]
    rw [List.length_cons] at hlen
    exact addresses_minus (fun c hc => isDigit_of_mem_decimal hc) (by omega)

/-! ## What `applycf` makes of the lines -/

namespace CorePool

/-- A pool is read into pools that are there. -/
def readPool [LongWidth] (env : AcctEnv) (c : CorePool) (d : AddrpoolData) : CorePool :=
  d.ae.foldl (fun c e => c.add (atoi e.address) (numberAddrs env d.pool)) c

theorem foldlM_commands [LongWidth] (hd : IntNumber d.pool) (c : CorePool) :
    d.commands.foldlM (fun c x => applycf env x.1 x.2.1 x.2.2 c) c = some (readPool env c d) := by
  show (d.ae.map fun e => (PoolCmd.confPoolAddr, [e.address], [decimal d.pool])).foldlM
    (fun c x => applycf env x.1 x.2.1 x.2.2 c) c = _
  rw [readPool]
  induction d.ae generalizing c with
  | nil => rfl
  | cons e ae ih =>
    have hadd : applycf env .confPoolAddr [e.address] [decimal d.pool] c =
        some (c.add (atoi e.address) (numberAddrs env d.pool)) := by
      show ((addresses env (cstr (decimal d.pool))).map fun ips => c.add (atoi e.address) ips) = _
      rw [addresses_decimal hd]
      rfl
    rw [List.map_cons, List.foldlM_cons, hadd, List.foldl_cons]
    exact ih _

theorem replay_eq [LongWidth] (hs : ∀ d ∈ s, IntNumber d.pool) :
    s.replay env = some (s.foldl (readPool env) []) := by
  have hrun : ∀ c, (s.flatMap AddrpoolData.commands).foldlM
      (fun c x => applycf env x.1 x.2.1 x.2.2 c) c = some (s.foldl (readPool env) c) := by
    induction s with
    | nil => exact fun c => rfl
    | cons d s ih =>
      rw [List.forall_mem_cons] at hs
      intro c
      rw [List.flatMap_cons, List.foldlM_append, foldlM_commands hs.1, List.foldl_cons]
      exact ih hs.2 _
  exact hrun []

/-- What `add` leaves of a pool. -/
theorem mem_withPool {f : List AddrpoolEntry → List AddrpoolEntry} (h : d ∈ c.withPool p f) :
    d ∈ c ∨ d.pool = p ∧ ∃ ae, d.ae = f ae ∧ (ae = [] ∨ ∃ d' ∈ c, d'.ae = ae) := by
  induction c with
  | nil =>
    rw [List.mem_singleton.mp h]
    exact .inr ⟨rfl, [], rfl, .inl rfl⟩
  | cons d' c ih =>
    rw [withPool] at h
    split at h
    · next hd' =>
      rcases List.mem_cons.mp h with rfl | h
      · exact .inr ⟨hd', _, rfl, .inr ⟨d', List.mem_cons_self, rfl⟩⟩
      · exact .inl (List.mem_cons_of_mem d' h)
    · rcases List.mem_cons.mp h with rfl | h
      · exact .inl List.mem_cons_self
      · rcases ih h with h | ⟨hp, ae, hae, hfrom⟩
        · exact .inl (List.mem_cons_of_mem d' h)
        · refine .inr ⟨hp, ae, hae, hfrom.imp_right ?_⟩
          rintro ⟨d₀, hd₀, rfl⟩
          exact ⟨d₀, List.mem_cons_of_mem d' hd₀, rfl⟩

theorem nodup_withPool {f : List AddrpoolEntry → List AddrpoolEntry}
    (h : (c.map AddrpoolData.pool).Nodup) : ((c.withPool p f).map AddrpoolData.pool).Nodup := by
  induction c with
  | nil => exact List.nodup_singleton p
  | cons d c ih =>
    rw [List.map_cons, List.nodup_cons] at h
    rw [withPool]
    split
    · rw [List.map_cons, List.nodup_cons]
      exact h
    · next hd =>
      rw [List.map_cons, List.nodup_cons]
      refine ⟨fun hmem => ?_, ih h.2⟩
      obtain ⟨d', hd', heq⟩ := List.mem_map.mp hmem
      rcases mem_withPool hd' with hc | ⟨hp, -⟩
      · exact h.1 (heq ▸ List.mem_map_of_mem hc)
      · exact hd (heq.symm.trans hp)

/-- Pools that were read from others: the numbers of the one are the addresses of the other. -/
structure ReadFrom [LongWidth] (env : AcctEnv) (s c : CorePool) : Prop where
  address : ∀ d ∈ c, ∀ e ∈ d.ae, ∃ d' ∈ s, e.address = fill env (decimal d'.pool)
  number : ∀ d ∈ c, ∃ d' ∈ s, ∃ e ∈ d'.ae, d.pool = atoi e.address
  numbers : (c.map AddrpoolData.pool).Nodup
  distinct : c.Distinct

theorem ReadFrom.nil [LongWidth] : ReadFrom env s [] where
  address := by simp
  number := by simp
  numbers := List.nodup_nil
  distinct := fun d hd => absurd hd List.not_mem_nil

theorem mem_numberAddrs {a : Bytes} (ha : a ∈ numberAddrs env p) : a = fill env (decimal p) := by
  unfold numberAddrs at ha
  split at ha
  · simpa using ha
  · contradiction

/-- One line keeps that. -/
theorem ReadFrom.add [LongWidth] {e : AddrpoolEntry} (h : ReadFrom env s c) (hd : d ∈ s)
    (he : e ∈ d.ae) : ReadFrom env s (c.add (atoi e.address) (numberAddrs env d.pool)) where
  address := by
    intro d₁ hd₁ e₁ he₁
    rcases mem_withPool hd₁ with hc | ⟨-, ae, hae, hfrom⟩
    · exact h.address d₁ hc e₁ he₁
    · obtain ⟨news, hfold, -, hnews⟩ := Addrpool.foldl_add (numberAddrs env d.pool) ae
      rw [hae, hfold] at he₁
      rcases List.mem_append.mp he₁ with hold | hnew
      · rcases hfrom with rfl | ⟨d₀, hd₀, rfl⟩
        · contradiction
        · exact h.address d₀ hd₀ e₁ hold
      · obtain ⟨a, ha, rfl⟩ := List.mem_map.mp hnew
        exact ⟨d, hd, mem_numberAddrs ((hnews a).mp ha).1⟩
  number := by
    intro d₁ hd₁
    rcases mem_withPool hd₁ with hc | ⟨hp, -⟩
    · exact h.number d₁ hc
    · exact ⟨d, hd, e, he, hp⟩
  numbers := nodup_withPool h.numbers
  distinct := distinct_withPool (fun _ => Addrpool.foldl_add_nodup) h.distinct

theorem ReadFrom.readPool [LongWidth] (h : ReadFrom env s c) (hd : d ∈ s) :
    ReadFrom env s (readPool env c d) :=
  List.foldlRecOn d.ae _ h fun _ hc _ he => hc.add hd he

/-- **What is read** has numbers for addresses and addresses for numbers. -/
theorem readFrom_foldl [LongWidth] (env : AcctEnv) (s : CorePool) :
    ReadFrom env s (s.foldl (CorePool.readPool env) []) :=
  List.foldlRecOn s _ ReadFrom.nil fun _ hc _ hd => hc.readPool hd

/-! ## Which pools come back -/

theorem exists_of_shape (hshape : c.shape = s.shape) (hd : d ∈ s) :
    ∃ d' ∈ c, d'.pool = d.pool ∧ d'.ae.map (·.address) = d.ae.map (·.address) := by
  have hd' : (d.pool, d.ae.map (·.address)) ∈ c.shape := by
    rw [hshape]
    exact List.mem_map_of_mem hd
  obtain ⟨d', hd', heq⟩ := List.mem_map.mp hd'
  exact ⟨d', hd', congrArg Prod.fst heq, congrArg Prod.snd heq⟩

theorem exists_address (hshape : c.shape = s.shape) (hd : d ∈ s) {e : AddrpoolEntry}
    (he : e ∈ d.ae) : ∃ d' ∈ c, ∃ e' ∈ d'.ae, e'.address = e.address := by
  obtain ⟨d', hd', -, haddr⟩ := exists_of_shape hshape hd
  have he' : e.address ∈ d'.ae.map (·.address) := by
    rw [haddr]
    exact List.mem_map_of_mem he
  obtain ⟨e', he', heq⟩ := List.mem_map.mp he'
  exact ⟨d', hd', e', he', heq⟩

/-- What is the same in both is read from the same pools. -/
theorem ReadFrom.of_shape [LongWidth] (h : ReadFrom env s c) (hshape : c.shape = s.shape) :
    ReadFrom env s s := by
  refine ⟨?_, ?_, ?_, ?_⟩
  · intro d hd e he
    obtain ⟨d', hd', e', he', heq⟩ := exists_address hshape hd he
    rw [← heq]
    exact h.address d' hd' e' he'
  · intro d hd
    obtain ⟨d', hd', hpool, -⟩ := exists_of_shape hshape hd
    rw [← hpool]
    exact h.number d' hd'
  · have hnumbers : c.map AddrpoolData.pool = s.map AddrpoolData.pool := by
      have hfst := congrArg (List.map Prod.fst) hshape
      simpa [shape, Function.comp_def] using hfst
    rw [← hnumbers]
    exact h.numbers
  · intro d hd
    obtain ⟨d', hd', -, haddr⟩ := exists_of_shape hshape hd
    rw [← haddr]
    exact h.distinct d' hd'

theorem eq_nil_or_singleton {α : Type} {l : List α} {a : α} (hl : l.Nodup) (ha : ∀ b ∈ l, b = a) :
    l = [] ∨ l = [a] := by
  have hrep := List.eq_replicate_of_mem ha
  rw [hrep, List.nodup_replicate] at hl
  have hlen : l.length = 0 ∨ l.length = 1 := by omega
  rcases hlen with h | h
  · exact .inl (List.length_eq_zero_iff.mp h)
  · rw [h] at hrep
    exact .inr hrep

/-- Numbers for addresses and addresses for numbers: all are zero. -/
theorem ReadFrom.zero [LongWidth] (henv : OctetEnv env) (h : ReadFrom env s s) :
    (∀ d ∈ s, d.pool = 0) ∧ ∀ d ∈ s, ∀ e ∈ d.ae, e.address = str "0.0.0.0" := by
  have hoctet : ∀ d ∈ s, ∃ n : Fin 256, d.pool = n.val := by
    intro d hd
    obtain ⟨d', hd', e, he, hpool⟩ := h.number d hd
    obtain ⟨d'', -, haddr⟩ := h.address d' hd' e he
    obtain ⟨x, hx⟩ := henv.dotted (snprintf 99 (getipfromname env (decimal d''.pool)))
    refine ⟨x.a, ?_⟩
    rw [hpool, haddr, fill, hx, x.atoi_text]
  have haddr : ∀ d ∈ s, ∀ e ∈ d.ae, ∃ d' ∈ s, ∃ n : Fin 256, d'.pool = n.val ∧
      e.address = (lastOctet n).text := by
    intro d hd e he
    obtain ⟨d', hd', heq⟩ := h.address d hd e he
    obtain ⟨n, hn⟩ := hoctet d' hd'
    refine ⟨d', hd', n, hn, ?_⟩
    rw [heq, hn]
    exact henv.fill_octet n
  have hzero : ∀ d ∈ s, d.pool = 0 := by
    intro d hd
    obtain ⟨d', hd', e, he, hpool⟩ := h.number d hd
    obtain ⟨-, -, n, -, heq⟩ := haddr d' hd' e he
    rw [hpool, heq, Dotted.atoi_text]
    rfl
  refine ⟨hzero, fun d hd e he => ?_⟩
  obtain ⟨d', hd', n, hn, heq⟩ := haddr d hd e he
  rw [hzero d' hd'] at hn
  have hval : n.val = 0 := by exact_mod_cast hn.symm
  have hn0 : n = 0 := Fin.ext hval
  rw [heq, hn0]
  decide +kernel

/-- The pools that are read back by `applycf`. -/
def Zero (s : CorePool) : Prop := s.shape = [] ∨ s.shape = [(0, [str "0.0.0.0"])]

theorem foldl_shape_iff [LongWidth] (henv : OctetEnv env) :
    shape (s.foldl (readPool env) []) = s.shape ↔ s.Zero := by
  constructor
  · intro hshape
    have hself := (readFrom_foldl env s).of_shape hshape
    obtain ⟨hzero, haddr⟩ := hself.zero henv
    have hpools : s.map AddrpoolData.pool = [] ∨ s.map AddrpoolData.pool = [0] := by
      apply eq_nil_or_singleton hself.numbers
      intro p hp
      obtain ⟨d, hd, rfl⟩ := List.mem_map.mp hp
      exact hzero d hd
    match s, hpools with
    | [], _ => exact .inl rfl
    | [d], _ =>
      have hd := List.mem_singleton_self d
      have hae : d.ae.map (·.address) = [] ∨ d.ae.map (·.address) = [str "0.0.0.0"] := by
        apply eq_nil_or_singleton (hself.distinct d hd)
        intro a ha
        obtain ⟨e, he, rfl⟩ := List.mem_map.mp ha
        exact haddr d hd e he
      rcases hae with hae | hae
      · -- a pool without addresses leaves no line to be made of
        rw [List.map_eq_nil_iff] at hae
        rw [List.foldl_cons, readPool, hae] at hshape
        contradiction
      · right
        rw [shape, List.map_singleton, hzero d hd, hae]
    | _ :: _ :: _, hpools => simp at hpools
  · rintro (hnil | hone)
    · rw [shape, List.map_eq_nil_iff] at hnil
      rw [hnil]
      rfl
    · rw [hone]
      obtain ⟨d, rfl, hd⟩ := List.map_eq_singleton_iff.mp hone
      obtain ⟨hpool, hae⟩ := Prod.mk.inj hd
      obtain ⟨e, he, haddr⟩ := List.map_eq_singleton_iff.mp hae
      have hnumber : leadingNumber (str "0.0.0.0") = 0 := by decide +kernel
      have hatoi : atoi (str "0.0.0.0") = 0 := by
        rw [atoi_eq ⟨by omega, by omega⟩, hnumber]
      have hfill : fill env (decimal 0) = str "0.0.0.0" := by
        have htext : (lastOctet 0).text = str "0.0.0.0" := by decide +kernel
        exact (henv.fill_octet 0).trans htext
      rw [List.foldl_cons, List.foldl_nil, readPool, he, List.foldl_cons, List.foldl_nil, haddr,
        hatoi, hpool, numberAddrs, if_pos (Int.le_refl 0), hfill]
      rfl

/-- **Through `applycf`** only a pool 0 with the address 0.0.0.0 comes back. -/
theorem readsBack_iff [LongWidth] (henv : OctetEnv env) (hs : ∀ d ∈ s, IntNumber d.pool) :
    s.ReadsBack env ↔ s.Zero := by
  rw [ReadsBack, replay_eq hs, ← foldl_shape_iff henv]
  simp

/-! ## Through the splitter and the masks -/

/-- The lines of a pool. -/
def lines (d : AddrpoolData) : List Bytes :=
  keyLine 1 (str "pool") (decimal d.pool) ::
    d.ae.map (fun e => keyLine 2 (str "addr") e.address) ++ [exitLine]

theorem buildcfstr_eq_lines (d : AddrpoolData) :
    d.buildcfstr ++ [10] = (lines d).flatMap (· ++ [10]) := by
  have hpool : str " pool " = 32 :: str "pool" ++ [32] := by simp [str]
  have haddr : str "  addr " = 32 :: 32 :: str "addr" ++ [32] := by simp [str]
  have hentries : d.ae.flatMap (fun tmp => str "  addr " ++ tmp.address ++ [10]) =
      (d.ae.map fun e => keyLine 2 (str "addr") e.address).flatMap (· ++ [10]) := by
    rw [List.flatMap_map]
    apply List.flatMap_congr
    intro e _
    simp [keyLine, haddr]
  unfold AddrpoolData.buildcfstr lines
  rw [hentries, hpool]
  simp [keyLine, exitLine]

/-- Every address is one of the resolver's. -/
def Resolved (env : AcctEnv) (s : CorePool) : Prop :=
  ∀ e ∈ s.entries, ∃ t, e.address = env.inetAddr t

theorem mem_addresses [LongWidth] {a t : Bytes} (h : addresses env t = some ips) (ha : a ∈ ips) :
    ∃ t, a = env.inetAddr t := by
  obtain ⟨texts, -, rfl⟩ := Option.map_eq_some_iff.mp h
  obtain ⟨t, -, rfl⟩ := List.mem_map.mp ha
  exact ⟨_, rfl⟩

theorem Resolved.add (h : Resolved env c) (hips : ∀ a ∈ ips, ∃ t, a = env.inetAddr t) :
    Resolved env (c.add p ips) := by
  obtain ⟨l, l', heq, hwith⟩ := entries_withPool p c
  obtain ⟨news, hfold, -, hnews⟩ := Addrpool.foldl_add ips (c.poolEntries p)
  intro e he
  rw [CorePool.add, hwith, hfold] at he
  simp only [List.mem_append, List.mem_map] at he
  rcases he with (he | he | ⟨a, ha, rfl⟩) | he
  · exact h e (by rw [heq]; simp [he])
  · exact h e (by rw [heq]; simp [he])
  · exact hips a ((hnews a).mp ha).1
  · exact h e (by rw [heq]; simp [he])

/-- One command adds addresses of the resolver only. -/
theorem Resolved.applycf [LongWidth] {cmdname : PoolCmd} {params up : List Bytes}
    (h : Resolved env c) (hc : applycf env cmdname params up c = some r) : Resolved env r := by
  cases cmdname with
  | confPoolNo =>
    obtain ⟨p, -, rfl⟩ := Option.map_eq_some_iff.mp hc
    exact fun e he => h e ((entries_delPool _ c).subset he)
  | confPoolNode =>
    rw [← Option.some.inj hc]
    exact h
  | confPoolAddr =>
    obtain ⟨p, -, hc⟩ := Option.bind_eq_some_iff.mp hc
    obtain ⟨u, -, hc⟩ := Option.bind_eq_some_iff.mp hc
    obtain ⟨ips, hips, rfl⟩ := Option.map_eq_some_iff.mp hc
    exact h.add fun a ha => mem_addresses hips ha
  | confPoolNoAddr =>
    obtain ⟨p, -, hc⟩ := Option.bind_eq_some_iff.mp hc
    obtain ⟨u, -, hc⟩ := Option.bind_eq_some_iff.mp hc
    obtain ⟨ips, -, rfl⟩ := Option.map_eq_some_iff.mp hc
    exact fun e he => h e ((entries_del _ ips c).subset he)

theorem resolved_of_replay [LongWidth] {text : Bytes} {up : Option (List Bytes)}
    (h : (poolSection env).replay text [] = some (up, r)) : Resolved env r :=
  @ConfSection.replay_invariant _ _ _ (poolSection env) [] r _ (Resolved env)
    (fun _ _ _ _ _ _ _ hc h => hc.applycf h) text up (fun _ he => absurd he List.not_mem_nil) h

/-- A pool whose lines pass the masks. -/
def Passes [LongWidth] (d : AddrpoolData) : Prop :=
  0 ≤ d.pool ∧ ∀ e ∈ d.ae, isIp e.address = some true

theorem step_pool [LongWidth] (hd : IntNumber d.pool) {x : Option (List Bytes) × CorePool}
    (h : (poolSection env).step (none, c) (keyLine 1 (str "pool") (decimal d.pool)) = some x) :
    0 ≤ d.pool ∧ x = (some [decimal d.pool], c) := by
  have hstep := @ConfSection.step_enter _ _ _ (poolSection env) c (str "pool") (str "POol")
    (.int 0 none) (poolConfig.take 2) [] _ rfl (by decide +kernel) (by decide +kernel)
    (by decide +kernel) (decimal d.pool)
  have hparam := lineParam_decimal hd 0 none (show 1 + (str "pool").length + 1 ≤ 200 by decide)
  rw [hstep, hparam] at h
  split at h
  · next hpos =>
    exact ⟨hpos.1, (Option.some.inj h).symm⟩
  · contradiction

theorem step_addr [LongWidth] (hd : IntNumber d.pool) (x : Dotted)
    {y : Option (List Bytes) × CorePool}
    (h : (poolSection env).step (some [decimal d.pool], c) (keyLine 2 (str "addr") x.text) =
      some y) :
    isIp x.text = some true ∧
      y = (some [decimal d.pool], c.add (atoi x.text) (numberAddrs env d.pool)) := by
  have hstep := @ConfSection.step_inner _ _ _ (poolSection env) c .confPoolAddr [decimal d.pool]
    (str "addr") (str "ADdr") .ip (poolInner.take 1) (poolInner.drop 2) _ rfl
    (show PoolCmd.confPoolAddr ≠ PoolCmd.confPoolNode by decide) (by decide +kernel)
    (by decide +kernel) (by decide +kernel) x.text
  rw [hstep] at h
  obtain ⟨p, hp, h⟩ := Option.bind_eq_some_iff.mp h
  obtain ⟨hwords, hisIp⟩ := oneParam_eq_some_iff.mp hp
  have hfits : snprintf (299 - (2 + (str "addr").length + 1)) x.text = x.text :=
    x.snprintf_text (by decide +kernel)
  rw [hfits, (words_eq_self_iff x.text).mpr x.plainWord] at hwords
  obtain rfl := (List.cons.inj hwords).1
  have happly : (poolSection env).applycf .confPoolAddr [x.text] [decimal d.pool] c =
      some (c.add (atoi x.text) (numberAddrs env d.pool)) := by
    show ((addresses env (cstr (decimal d.pool))).map fun ips => c.add (atoi x.text) ips) = _
    rw [addresses_decimal hd]
    rfl
  rw [happly] at h
  exact ⟨hisIp, (Option.some.inj h).symm⟩

theorem run_addrs [LongWidth] (hd : IntNumber d.pool) {ae : List AddrpoolEntry}
    (hae : ∀ e ∈ ae, ∃ x : Dotted, e.address = x.text) {x : Option (List Bytes) × CorePool}
    (h : (ae.map fun e => keyLine 2 (str "addr") e.address).foldlM (poolSection env).step
      (some [decimal d.pool], c) = some x) :
    (∀ e ∈ ae, isIp e.address = some true) ∧ x = (some [decimal d.pool],
      ae.foldl (fun c e => c.add (atoi e.address) (numberAddrs env d.pool)) c) := by
  induction ae generalizing c with
  | nil => exact ⟨by simp, (Option.some.inj h).symm⟩
  | cons e ae ih =>
    rw [List.forall_mem_cons] at hae
    obtain ⟨⟨y, hy⟩, hae⟩ := hae
    rw [List.map_cons, List.foldlM_cons] at h
    obtain ⟨x₁, h₁, h⟩ := Option.bind_eq_some_iff.mp h
    rw [hy] at h₁
    obtain ⟨hisIp, rfl⟩ := step_addr hd y h₁
    obtain ⟨hall, hx⟩ := ih hae h
    rw [List.forall_mem_cons, List.foldl_cons, hy]
    exact ⟨⟨hisIp, hall⟩, hx⟩

/-- **The lines of a pool** in a file that is read. -/
theorem run_lines [LongWidth] (hd : IntNumber d.pool)
    (hae : ∀ e ∈ d.ae, ∃ x : Dotted, e.address = x.text) {x : Option (List Bytes) × CorePool}
    (h : (lines d).foldlM (poolSection env).step (none, c) = some x) :
    Passes d ∧ x = (none, readPool env c d) := by
  rw [lines, List.cons_append, List.foldlM_cons] at h
  obtain ⟨x₁, h₁, h⟩ := Option.bind_eq_some_iff.mp h
  obtain ⟨hpos, rfl⟩ := step_pool hd h₁
  rw [List.foldlM_append] at h
  obtain ⟨x₂, h₂, h⟩ := Option.bind_eq_some_iff.mp h
  obtain ⟨hall, rfl⟩ := run_addrs hd hae h₂
  rw [List.foldlM_cons, ConfSection.step_exit rfl] at h
  exact ⟨⟨hpos, hall⟩, (Option.some.inj h).symm⟩

theorem run_pools [LongWidth] (hs : ∀ d ∈ s, IntNumber d.pool)
    (haddr : ∀ d ∈ s, ∀ e ∈ d.ae, ∃ x : Dotted, e.address = x.text)
    {x : Option (List Bytes) × CorePool}
    (h : (s.flatMap lines).foldlM (poolSection env).step (none, c) = some x) :
    (∀ d ∈ s, Passes d) ∧ x = (none, s.foldl (readPool env) c) := by
  induction s generalizing c with
  | nil => exact ⟨by simp, (Option.some.inj h).symm⟩
  | cons d s ih =>
    rw [List.forall_mem_cons] at hs haddr
    rw [List.flatMap_cons, List.foldlM_append] at h
    obtain ⟨x₁, h₁, h⟩ := Option.bind_eq_some_iff.mp h
    obtain ⟨hd, rfl⟩ := run_lines hs.1 haddr.1 h₁
    obtain ⟨hall, hx⟩ := ih hs.2 haddr.2 h
    rw [List.forall_mem_cons]
    exact ⟨⟨hd, hall⟩, hx⟩

theorem configText_lines (haddr : ∀ d ∈ s, ∀ e ∈ d.ae, ∃ x : Dotted, e.address = x.text) :
    Records.lines 10 s.configText = s.flatMap lines ++ [[]] := by
  apply Records.lines_records fun d _ => buildcfstr_eq_lines d
  intro d hd
  apply ten_not_mem_nodeLines (by simp [str]) (ten_not_mem_decimal d.pool)
  intro l hl
  obtain ⟨e, he, rfl⟩ := List.mem_map.mp hl
  obtain ⟨x, hx⟩ := haddr d hd e he
  rw [hx]
  apply ten_not_mem_keyLine (by simp [str])
  intro h10
  rcases x.mem_text h10 with h | h
  · exact absurd h (by decide)
  · exact absurd h (by decide)

/-- `0.0.0.0` is no address for the mask. -/
theorem isIp_zero [LongWidth] : isIp (str "0.0.0.0") ≠ some true := by
  have hrows : isIpRows 4 (str "0.0.0.0") = some (some [[48], [48], [48], [48]]) := by
    decide +kernel
  have hnumber : atoi [48] = 0 := atoi_eq (s := [48]) ⟨by decide, by decide⟩
  have hlen : ¬ (str "0.0.0.0").length < 7 := by decide +kernel
  rw [isIp, if_neg hlen, hrows]
  simp [hnumber]

/-- **Through the text** only no pools at all come back. -/
theorem textReadsBack_iff [LongWidth] (henv : OctetEnv env) (hs : ∀ d ∈ s, IntNumber d.pool) :
    s.TextReadsBack env ↔ s = [] := by
  constructor
  · rintro ⟨r, hreplay, hshape⟩
    have hresolved := resolved_of_replay hreplay
    have haddr : ∀ d ∈ s, ∀ e ∈ d.ae, ∃ x : Dotted, e.address = x.text := by
      intro d hd e he
      obtain ⟨d', hd', e', he', heq⟩ := exists_address hshape hd he
      obtain ⟨t, ht⟩ := hresolved e' (List.mem_flatMap.mpr ⟨d', hd', he'⟩)
      obtain ⟨x, hx⟩ := henv.dotted t
      exact ⟨x, by rw [← heq, ht, hx]⟩
    rw [(poolSection env).replay_lines (List.cons_ne_nil _ _) (List.cons_ne_nil _ _)
      (configText_lines haddr)] at hreplay
    obtain ⟨hall, hr⟩ := run_pools hs haddr hreplay
    obtain rfl := (Prod.mk.inj hr).2
    rcases (foldl_shape_iff henv).mp hshape with hnil | hone
    · rwa [shape, List.map_eq_nil_iff] at hnil
    · obtain ⟨d, rfl, hd⟩ := List.map_eq_singleton_iff.mp hone
      obtain ⟨e, he, hzero⟩ := List.map_eq_singleton_iff.mp (Prod.mk.inj hd).2
      have hisIp := (hall d (List.mem_singleton_self d)).2 e (he ▸ List.mem_singleton_self e)
      rw [hzero] at hisIp
      exact absurd hisIp isIp_zero
  · rintro rfl
    refine ⟨[], ?_, rfl⟩
    exact (poolSection env).replay_lines (List.cons_ne_nil _ _) (List.cons_ne_nil _ _)
      (configText_lines (by simp)) []

end CorePool

/-- **Pools in the file, exactly.** -/
theorem poolsReadBack_iff [LongWidth] (henv : OctetEnv env) (hs : ∀ d ∈ s, IntNumber d.pool) :
    (s.ReadsBack env ↔ s.Zero) ∧ (s.TextReadsBack env ↔ s = []) :=
  ⟨CorePool.readsBack_iff henv hs, CorePool.textReadsBack_iff henv hs⟩

end

/-! ## A resolver -/

/-- The four numbers of a text. -/
def Dotted.ofText [LongWidth] (t : Bytes) : Dotted :=
  ⟨Fin.ofNat 256 (octet t 0).toNat, Fin.ofNat 256 (octet t 1).toNat,
    Fin.ofNat 256 (octet t 2).toNat, Fin.ofNat 256 (octet t 3).toNat⟩

/-- Numbers are read as the last octet, and what is no address as 255.255.255.255. -/
def octetInet [LongWidth] (t : Bytes) : Bytes :=
  if t.all isDigit then (lastOctet (Fin.ofNat 256 (atoi t).toNat)).text
  else if (Dotted.ofText t).text = t then t
  else (Dotted.mk 255 255 255 255).text

/-- A resolver without names. -/
def octetEnv [LongWidth] : AcctEnv := ⟨fun _ => none, octetInet, fun _ => 0⟩

theorem Dotted.ofText_text [LongWidth] (x : Dotted) : Dotted.ofText x.text = x := by
  have hnat : ∀ n : Fin 256, Fin.ofNat 256 ((n.val : ℤ)).toNat = n := by
    intro n
    apply Fin.ext
    simp
  obtain ⟨ha, hb, hc, hd⟩ := x.octet_text
  rw [Dotted.ofText, ha, hb, hc, hd, hnat, hnat, hnat, hnat]

theorem Dotted.not_all_isDigit (x : Dotted) : ¬ x.text.all isDigit = true := by
  intro h
  have hdot : (46 : UInt8) ∈ x.text := by
    rw [x.text_eq]
    exact List.mem_append_right _ List.mem_cons_self
  exact absurd (List.all_eq_true.mp h 46 hdot) (by decide)

theorem octetInet_dotted [LongWidth] (t : Bytes) : ∃ x : Dotted, octetInet t = x.text := by
  unfold octetInet
  split
  · exact ⟨_, rfl⟩
  · split
    · next h => exact ⟨_, h.symm⟩
    · exact ⟨_, rfl⟩

theorem octetInet_text [LongWidth] (x : Dotted) : octetInet x.text = x.text := by
  rw [octetInet, if_neg x.not_all_isDigit, if_pos (congrArg Dotted.text x.ofText_text)]

theorem octetInet_number [LongWidth] (n : Fin 256) :
    octetInet (octetDecimal n) = (lastOctet n).text := by
  have hall : (octetDecimal n).all isDigit = true := List.all_eq_true.mpr (octetDigits n).digit
  have hn : Fin.ofNat 256 (atoi (octetDecimal n)).toNat = n := by
    apply Fin.ext
    simp [atoi_octetDecimal]
  rw [octetInet, if_pos hall, hn]

theorem octetEnv_octet [LongWidth] : OctetEnv octetEnv := by
  have hinet : octetEnv.inetAddr = octetInet := rfl
  refine ⟨?_, fun _ => .inl rfl, ?_, ?_⟩
  · rw [hinet]
    exact octetInet_dotted
  · rw [hinet]
    exact octetInet_number
  · rw [hinet]
    exact fun n => octetInet_text (lastOctet n)

/-- Pool 0 with the address 0.0.0.0. -/
def zeroPool : CorePool := CorePool.add 0 [str "0.0.0.0"] []

theorem poolsReadBack_zero :
    zeroPool.ReadsBack octetEnv ∧ ¬ zeroPool.TextReadsBack octetEnv := by
  have hzero : zeroPool = [⟨0, [⟨str "0.0.0.0", true⟩]⟩] := by decide +kernel
  have hback := poolsReadBack_iff octetEnv_octet (s := zeroPool) (by
    rw [hzero]
    simp [IntNumber])
  constructor
  · apply hback.1.mpr
    right
    rw [hzero]
    rfl
  · rw [hback.2, hzero]
    exact List.cons_ne_nil _ _

/-- Pool 7 with the address 10.0.0.1. -/
def sevenPool : CorePool := CorePool.add 7 [str "10.0.0.1"] []

/-- It comes back as pool 10 with the address 0.0.0.7. -/
theorem pool_swapped : sevenPool.replay octetEnv = some [⟨10, [⟨str "0.0.0.7", true⟩]⟩] ∧
    (poolSection octetEnv).replay sevenPool.configText [] =
      some (none, [⟨10, [⟨str "0.0.0.7", true⟩]⟩]) ∧
    ¬ sevenPool.ReadsBack octetEnv ∧ ¬ sevenPool.TextReadsBack octetEnv := by
  have hreplay : sevenPool.replay octetEnv = some [⟨10, [⟨str "0.0.0.7", true⟩]⟩] := by
    decide +kernel
  have htext : (poolSection octetEnv).replay sevenPool.configText [] =
      some (none, [⟨10, [⟨str "0.0.0.7", true⟩]⟩]) := by decide +kernel
  have hshape : CorePool.shape [⟨10, [⟨str "0.0.0.7", true⟩]⟩] ≠ sevenPool.shape := by
    decide +kernel
  refine ⟨hreplay, htext, ?_, ?_⟩
  · rintro ⟨r, hr, heq⟩
    obtain rfl := Option.some.inj (hreplay.symm.trans hr)
    exact hshape heq
  · rintro ⟨r, hr, heq⟩
    obtain rfl := (Prod.mk.inj (Option.some.inj (htext.symm.trans hr))).2
    exact hshape heq

end Tacppd
