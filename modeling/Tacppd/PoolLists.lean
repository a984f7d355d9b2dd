/-
# Lists of addresses and ranges

What `CorePool::getAddr` makes of a list of dotted addresses and ranges with commas between
them.  It does not step over a comma: in a list of two items or more it finds an empty text
where the second item starts.  A list of one item is translated as it should be, but for a
range with an address that `utl::isIp` does not accept (`poolList_iff`).

What the code asks of the resolver is a parameter.  That it takes a dotted address for the
address it stands for is the documented behaviour of `gethostbyname_r` and `inet_addr`.
-/
import Mathlib.Data.List.OfFn
import Tacppd.Pool

namespace Tacppd

/-! ## Dotted addresses -/

/-- Four octets. -/
structure Dotted where
  a : Fin 256
  b : Fin 256
  c : Fin 256
  d : Fin 256
  deriving DecidableEq, Repr

/-- The octet as a text. -/
def octetDecimal (n : Fin 256) : Bytes := decimal (n.val : ℤ)

def Dotted.text (x : Dotted) : Bytes :=
  octetDecimal x.a ++ str "." ++ octetDecimal x.b ++ str "." ++ octetDecimal x.c ++ str "." ++
    octetDecimal x.d

/-- The resolver takes a dotted address for itself: it has no name for it or finds the address,
and `inet_addr` reads it. -/
structure DottedEnv (env : AcctEnv) : Prop where
  name : ∀ x : Dotted, env.gethostbyname x.text = none ∨ env.gethostbyname x.text = some x.text
  inet : ∀ x : Dotted, env.inetAddr x.text = x.text

/-- One to three digits. -/
structure OctetDigits (ds : Bytes) : Prop where
  ne : ds ≠ []
  len : ds.length ≤ 3
  digit : ∀ c ∈ ds, isDigit c = true

theorem octetDigits (n : Fin 256) : OctetDigits (octetDecimal n) := by
  have hall : ∀ n : Fin 256, octetDecimal n ≠ [] ∧ (octetDecimal n).length ≤ 3 ∧
      (octetDecimal n).all isDigit = true := by decide +kernel
  exact ⟨(hall n).1, (hall n).2.1, List.all_eq_true.mp (hall n).2.2⟩

theorem atoi_octetDecimal [LongWidth] (n : Fin 256) : atoi (octetDecimal n) = n.val :=
  atoi_toString ⟨by omega, by omega⟩

variable {ds rest : Bytes} {x : Dotted} {env : AcctEnv}

theorem ne_of_isDigit {c : UInt8} (hc : isDigit c = true) :
    c ≠ 46 ∧ c ≠ 32 ∧ c ≠ 0 ∧ c ≠ 44 ∧ c ≠ 45 := by
  have hall : ∀ x ∈ ([46, 32, 0, 44, 45] : Bytes), isDigit x = false := by simp [isDigit]
  refine ⟨?_, ?_, ?_, ?_, ?_⟩ <;>
  · rintro rfl
    rw [hall _ (by simp)] at hc
    exact Bool.false_ne_true hc

/-- The bytes of a dotted address are digits and dots. -/
theorem Dotted.mem_text {c : UInt8} (hc : c ∈ x.text) : isDigit c = true ∨ c = 46 := by
  have hdot : str "." = [46] := rfl
  simp only [Dotted.text, hdot, List.mem_append, List.mem_singleton] at hc
  rcases hc with (((((hc | hc) | hc) | hc) | hc) | hc) | hc
  · exact .inl ((octetDigits _).digit c hc)
  · exact .inr hc
  · exact .inl ((octetDigits _).digit c hc)
  · exact .inr hc
  · exact .inl ((octetDigits _).digit c hc)
  · exact .inr hc
  · exact .inl ((octetDigits _).digit c hc)

theorem Dotted.length_text : 7 ≤ x.text.length ∧ x.text.length ≤ 15 := by
  have hlen : ∀ n, 1 ≤ (octetDecimal n).length ∧ (octetDecimal n).length ≤ 3 := fun n =>
    ⟨List.length_pos_iff.mpr (octetDigits n).ne, (octetDigits n).len⟩
  have ha := hlen x.a
  have hb := hlen x.b
  have hc := hlen x.c
  have hd := hlen x.d
  have hdot : (str ".").length = 1 := rfl
  simp only [Dotted.text, List.length_append, hdot]
  omega

theorem Dotted.text_ne_nil : x.text ≠ [] := by
  intro h
  have hlen := x.length_text.1
  rw [h] at hlen
  exact absurd hlen (by decide)

theorem Dotted.zero_not_mem : 0 ∉ x.text := by
  intro h
  rcases x.mem_text h with hc | hc
  · exact (ne_of_isDigit hc).2.2.1 rfl
  · exact absurd hc (by decide)

theorem Dotted.snprintf_text {n : ℕ} (hn : 16 ≤ n) : snprintf n x.text = x.text := by
  have hlen := x.length_text.2
  exact snprintf_eq_self x.zero_not_mem (by omega)

/-- **A dotted address is resolved to itself.** -/
theorem DottedEnv.fill_text (henv : DottedEnv env) (x : Dotted) : fill env x.text = x.text := by
  have hlocal : x.text ≠ str "localhost" := by
    intro h
    have hl : (108 : UInt8) ∈ x.text := by
      rw [h]
      decide
    rcases x.mem_text hl with hc | hc
    · exact absurd hc (by decide)
    · exact absurd hc (by decide)
  have hname : getipfromname env x.text = x.text := by
    unfold getipfromname
    rw [if_neg x.text_ne_nil, if_neg hlocal]
    split
    · next h => exact h.symm
    · rcases henv.name x with h | h
      · simp only [h]
        exact x.snprintf_text (by decide)
      · simp only [h]
        exact x.snprintf_text (by decide)
  unfold fill
  rw [hname, x.snprintf_text (by decide), henv.inet]

/-! ## Octets -/

theorem takeWhile_digits {p : UInt8 → Bool} {c : UInt8} (hds : OctetDigits ds)
    (hp : ∀ c, isDigit c = true → p c = true) (hc : p c = false) :
    (ds ++ c :: rest).takeWhile p = ds ∧ ds.takeWhile p = ds := by
  have hall : ∀ c ∈ ds, p c = true := fun c hmem => hp c (hds.digit c hmem)
  have hself : ds.takeWhile p = ds := List.takeWhile_eq_self_iff.mpr hall
  refine ⟨?_, hself⟩
  rw [List.takeWhile_append_of_pos hall, List.takeWhile_cons_of_neg (by rw [hc]; decide),
    List.append_nil]

theorem octetText_digits (hds : OctetDigits ds) (last : Bool) :
    octetText last (ds ++ 46 :: rest) = ds ∧ octetText last ds = ds := by
  have hp : ∀ c, isDigit c = true →
      (decide (c ≠ 46) && !(last && c == 32)) = true := by
    intro c hc
    obtain ⟨hdot, hblank, _⟩ := ne_of_isDigit hc
    simp [hdot, hblank]
  obtain ⟨hfirst, hlast⟩ := @takeWhile_digits ds rest _ 46 hds hp (by simp)
  unfold octetText
  rw [hfirst, hlast, List.take_of_length_le hds.len]
  exact ⟨rfl, rfl⟩

theorem afterOctet_digits (hds : OctetDigits ds) : afterOctet (ds ++ 46 :: rest) = rest := by
  unfold afterOctet
  rw [(octetText_digits hds false).1]
  simp

theorem Dotted.text_eq (x : Dotted) : x.text = octetDecimal x.a ++ 46 ::
    (octetDecimal x.b ++ 46 :: (octetDecimal x.c ++ 46 :: octetDecimal x.d)) := by
  have hdot : str "." = [46] := rfl
  simp [Dotted.text, hdot]

/-- **The octets of a dotted address.** -/
theorem Dotted.octet_text [LongWidth] (x : Dotted) :
    octet x.text 0 = x.a ∧ octet x.text 1 = x.b ∧ octet x.text 2 = x.c ∧ octet x.text 3 = x.d := by
  unfold octet
  simp only [x.snprintf_text (show 16 ≤ 99 by decide)]
  rw [x.text_eq]
  simp only [Function.iterate_succ_apply, Function.iterate_zero, id_eq,
    afterOctet_digits (octetDigits _), (octetText_digits (octetDigits _) _).1,
    (@octetText_digits _ [] (octetDigits _) _).2, atoi_octetDecimal]
  simp

/-- `utl::isIp` accepts it: the first octet is not 0, and the last one is neither 0 nor 255. -/
def Dotted.Accepted (x : Dotted) : Prop := 0 < x.a.val ∧ 0 < x.d.val ∧ x.d.val < 255

instance (x : Dotted) : Decidable x.Accepted :=
  inferInstanceAs (Decidable (0 < x.a.val ∧ 0 < x.d.val ∧ x.d.val < 255))

/-- One row of `isIp`, with a dot behind it or at the end. -/
theorem isIpRows_digits (hds : OctetDigits ds) (j : ℕ) :
    isIpRows (j + 1) (ds ++ 46 :: rest) = (isIpRows j rest).map (fun rows => rows.map (ds :: ·)) ∧
      isIpRows 1 ds = some (some [ds]) := by
  obtain ⟨hpart, hself⟩ := @takeWhile_digits ds rest (· ≠ (46 : UInt8)) 46 hds
    (fun c hc => by simpa using (ne_of_isDigit hc).1) (by simp)
  have hdigits : ds.takeWhile isDigit = ds := List.takeWhile_eq_self_iff.mpr hds.digit
  have hlen := hds.len
  constructor
  · rw [isIpRows, if_neg (List.append_ne_nil_of_left_ne_nil hds.ne _)]
    simp only [hpart, hdigits]
    rw [if_neg (by omega), if_neg (Nat.lt_irrefl _), if_neg (by omega)]
    have hdrop : (ds ++ 46 :: rest).drop (ds.length + 1) = rest := by
      rw [List.drop_append]
      simp
    rw [hdrop]
  · rw [isIpRows, if_neg hds.ne]
    simp only [hself, hdigits]
    rw [if_neg (by omega), if_neg (Nat.lt_irrefl _), if_neg (by omega),
      List.drop_eq_nil_of_le (Nat.le_succ _)]
    rfl

/-- **Which dotted addresses `isIp` accepts.** -/
theorem Dotted.isIp_text [LongWidth] (x : Dotted) : isIp x.text = some (decide x.Accepted) := by
  have hlen := x.length_text.1
  have hrows : isIpRows 4 x.text =
      some (some [octetDecimal x.a, octetDecimal x.b, octetDecimal x.c, octetDecimal x.d]) := by
    rw [x.text_eq, (isIpRows_digits (octetDigits _) _).1, (isIpRows_digits (octetDigits _) _).1,
      (isIpRows_digits (octetDigits _) _).1, (@isIpRows_digits _ [] (octetDigits _) 0).2]
    rfl
  unfold isIp
  rw [if_neg (by omega), hrows]
  simp only [Option.map_some, List.getD_cons_zero, List.getD_cons_succ, atoi_octetDecimal]
  refine congrArg some (Bool.eq_iff_iff.mpr ?_)
  simp only [Bool.and_eq_true, decide_eq_true_eq]
  have ha : ((x.a.val : ℕ) : ℤ) < 256 := by exact_mod_cast x.a.isLt
  have hb : ((x.b.val : ℕ) : ℤ) < 256 := by exact_mod_cast x.b.isLt
  have hc : ((x.c.val : ℕ) : ℤ) < 256 := by exact_mod_cast x.c.isLt
  constructor
  · rintro ⟨⟨⟨⟨ha0, -⟩, -⟩, -⟩, hd0, hd⟩
    exact ⟨by exact_mod_cast ha0, by exact_mod_cast hd0, by exact_mod_cast hd⟩
  · rintro ⟨ha0, hd0, hd⟩
    refine ⟨⟨⟨⟨by exact_mod_cast ha0, by omega⟩, by omega, by omega⟩, by omega, by omega⟩, ?_, ?_⟩
    · exact_mod_cast hd0
    · exact_mod_cast hd

/-! ## Lists -/

/-- An address, or a range of them in one network of 256. -/
inductive PoolItem
  | single (x : Dotted)
  | range (a b c lo hi : Fin 256) (h : lo ≤ hi)

namespace PoolItem

/-- The two ends of a range. -/
def text : PoolItem → Bytes
  | single x => x.text
  | range a b c lo hi _ => (⟨a, b, c, lo⟩ : Dotted).text ++ 45 :: (⟨a, b, c, hi⟩ : Dotted).text

/-- The addresses that are meant. -/
def addrs : PoolItem → List Dotted
  | single x => [x]
  | range a b c lo hi _ => List.ofFn fun i : Fin (hi.val + 1 - lo.val) =>
      ⟨a, b, c, ⟨lo.val + i.val, by omega⟩⟩

/-- All addresses of a range are accepted by `isIp`; a single one is not checked. -/
def Translates : PoolItem → Prop
  | single _ => True
  | range a _ _ lo hi _ => 0 < a.val ∧ 0 < lo.val ∧ hi.val < 255

end PoolItem

/-- The text of a list. -/
def poolList (items : List PoolItem) : Bytes := [44].intercalate (items.map PoolItem.text)

/-- The addresses of all items, in order. -/
def poolAddrs (items : List PoolItem) : List Dotted := items.flatMap PoolItem.addrs

theorem takeWhile_text (x : Dotted) {c : UInt8} (hc : addrByte c = false) :
    (x.text ++ c :: rest).takeWhile addrByte = x.text ∧ x.text.takeWhile addrByte = x.text := by
  have hall : ∀ y ∈ x.text, addrByte y = true := by
    intro y hy
    rcases x.mem_text hy with hd | hd
    · obtain ⟨_, _, _, hcomma, hdash⟩ := ne_of_isDigit hd
      simp [addrByte, hcomma, hdash]
    · rw [hd]
      decide
  have hself : x.text.takeWhile addrByte = x.text := List.takeWhile_eq_self_iff.mpr hall
  refine ⟨?_, hself⟩
  rw [List.takeWhile_append_of_pos hall, List.takeWhile_cons_of_neg (by rw [hc]; decide),
    List.append_nil]

/-- An address at the end of the list. -/
theorem getAddrLoop_last [LongWidth] (x : Dotted) (turns n : ℕ) :
    getAddrLoop env (turns + 1) n x.text = if n = 1 then some x.text else some [] := by
  have hlen := x.length_text.2
  rw [getAddrLoop, if_neg x.text_ne_nil]
  simp only [(@takeWhile_text [] x 44 rfl).2, List.drop_length]
  rw [if_neg (by omega)]

/-- An address with a comma behind it: the loop stays at the comma. -/
theorem getAddrLoop_comma [LongWidth] (x : Dotted) (turns n : ℕ) :
    getAddrLoop env (turns + 1) n (x.text ++ 44 :: rest) =
      if n = 1 then some x.text else some [] := by
  have hlen := x.length_text.2
  rw [getAddrLoop, if_neg (List.append_ne_nil_of_left_ne_nil x.text_ne_nil _)]
  simp only [(@takeWhile_text rest x 44 rfl).1, List.drop_left]
  rw [if_neg (by omega), if_pos trivial]

/-- Nothing but the comma. -/
theorem getAddrLoop_at_comma [LongWidth] (turns n : ℕ) :
    getAddrLoop env (turns + 1) n (44 :: rest) = some [] := by
  rw [getAddrLoop, if_neg (List.cons_ne_nil _ _)]
  simp [addrByte]

theorem getAddrLoop_nil [LongWidth] (turns n : ℕ) : getAddrLoop env turns n [] = some [] := by
  cases turns with
  | zero => rfl
  | succ turns => rw [getAddrLoop, if_pos rfl]

/-- Behind a range stands nothing or a comma. -/
def AtComma (rest : Bytes) : Prop := rest = [] ∨ ∃ more, rest = 44 :: more

theorem takeWhile_atComma (hrest : AtComma rest) (x : Dotted) :
    (x.text ++ rest).takeWhile addrByte = x.text := by
  rcases hrest with rfl | ⟨more, rfl⟩
  · rw [List.append_nil]
    exact (@takeWhile_text [] x 44 rfl).2
  · exact (takeWhile_text x rfl).1

/-- One turn at a range, up to the loop over its addresses. -/
theorem getAddrLoop_range [LongWidth] (henv : DottedEnv env) (hrest : AtComma rest)
    {a b c lo hi : Fin 256} (h : lo ≤ hi) (turns n : ℕ) :
    getAddrLoop env (turns + 1) n ((PoolItem.range a b c lo hi h).text ++ rest) =
      if n ≤ ((hi.val : ℤ) + 1 - lo.val).toNat then
        ifIp (decimal a.val ++ str "." ++ decimal b.val ++ str "." ++ decimal c.val ++ str "." ++
          decimal ((lo.val : ℤ) + n - 1))
      else getAddrLoop env turns (n - ((hi.val : ℤ) + 1 - lo.val).toNat) rest := by
  have hleft := (⟨a, b, c, lo⟩ : Dotted).length_text.2
  have hright := (⟨a, b, c, hi⟩ : Dotted).length_text.2
  rw [PoolItem.text, List.append_assoc, List.cons_append, getAddrLoop,
    if_neg (List.append_ne_nil_of_left_ne_nil Dotted.text_ne_nil _)]
  simp only [(@takeWhile_text _ (⟨a, b, c, lo⟩ : Dotted) 45 rfl).1, List.drop_left]
  rw [if_neg (by omega), if_neg (by decide)]
  simp only [takeWhile_atComma hrest, List.drop_left]
  rw [if_neg (by omega), if_pos ⟨Dotted.text_ne_nil, Dotted.text_ne_nil⟩]
  simp only [henv.fill_text, (Dotted.octet_text _).1, (Dotted.octet_text _).2.1,
    (Dotted.octet_text _).2.2.1, (Dotted.octet_text _).2.2.2]

theorem ifIp_text [LongWidth] (x : Dotted) :
    ifIp x.text = some (if x.Accepted then x.text else []) := by
  unfold ifIp
  rw [x.isIp_text, Option.map_some]
  by_cases hx : x.Accepted
  · rw [if_pos hx, if_pos (decide_eq_true hx)]
  · rw [if_neg hx, if_neg (by rw [decide_eq_true_eq]; exact hx)]

/-- **The addresses of a range**: the one with number `k` is found when it is accepted. -/
theorem getAddrLoop_range_inside [LongWidth] (henv : DottedEnv env) (hrest : AtComma rest)
    {a b c lo hi : Fin 256} (h : lo ≤ hi) (turns : ℕ) {k : ℕ} (hk : lo.val + k ≤ hi.val) :
    getAddrLoop env (turns + 1) (k + 1) ((PoolItem.range a b c lo hi h).text ++ rest) =
      ifIp (⟨a, b, c, ⟨lo.val + k, by omega⟩⟩ : Dotted).text := by
  rw [getAddrLoop_range henv hrest h, if_pos (by omega)]
  have hlast : (lo.val : ℤ) + ((k + 1 : ℕ) : ℤ) - 1 = ((lo.val + k : ℕ) : ℤ) := by
    push_cast
    omega
  rw [hlast]
  simp only [Dotted.text, octetDecimal]

/-- Behind its last address the loop goes on with the rest. -/
theorem getAddrLoop_range_after [LongWidth] (henv : DottedEnv env) (hrest : AtComma rest)
    {a b c lo hi : Fin 256} (h : lo ≤ hi) (turns : ℕ) {k : ℕ} (hk : hi.val < lo.val + k) :
    getAddrLoop env (turns + 1) (k + 1) ((PoolItem.range a b c lo hi h).text ++ rest) =
      getAddrLoop env turns (k + 1 - (hi.val + 1 - lo.val)) rest := by
  have hcount : ((hi.val : ℤ) + 1 - lo.val).toNat = hi.val + 1 - lo.val := by omega
  rw [getAddrLoop_range henv hrest h, hcount, if_neg (by omega)]

namespace PoolItem

/-- An address of a range is checked, a single one is not. -/
def Passes : PoolItem → Dotted → Prop
  | single _, _ => True
  | range .., x => x.Accepted

instance (i : PoolItem) (x : Dotted) : Decidable (i.Passes x) := by
  cases i with
  | single => exact inferInstanceAs (Decidable True)
  | range => exact inferInstanceAs (Decidable x.Accepted)

/-- **One item**: its addresses are found, but for those that do not pass, and nothing
behind it. -/
theorem getAddrLoop_item [LongWidth] (henv : DottedEnv env) (hrest : AtComma rest) (i : PoolItem)
    (turns k : ℕ) :
    getAddrLoop env (turns + 2) (k + 1) (i.text ++ rest) =
      some ((i.addrs[k]?.map fun x => if i.Passes x then x.text else []).getD []) := by
  cases i with
  | single x =>
    have hloop : getAddrLoop env (turns + 2) (k + 1) (x.text ++ rest) =
        if k + 1 = 1 then some x.text else some [] := by
      rcases hrest with rfl | ⟨more, rfl⟩
      · rw [List.append_nil, getAddrLoop_last]
      · exact getAddrLoop_comma x (turns + 1) (k + 1)
    show getAddrLoop env (turns + 2) (k + 1) (x.text ++ rest) = _
    rw [hloop]
    cases k with
    | zero => rfl
    | succ k => rfl
  | range a b c lo hi h =>
    have hle : lo.val ≤ hi.val := h
    by_cases hk : lo.val + k ≤ hi.val
    · have hget : (range a b c lo hi h).addrs[k]? = some ⟨a, b, c, ⟨lo.val + k, by omega⟩⟩ := by
        unfold addrs
        rw [List.getElem?_ofFn, dif_pos (by omega)]
      rw [getAddrLoop_range_inside henv hrest h _ hk, hget, ifIp_text]
      rfl
    · have hget : (range a b c lo hi h).addrs[k]? = none := by
        unfold addrs
        rw [List.getElem?_ofFn, dif_neg (by omega)]
      rw [getAddrLoop_range_after henv hrest h _ (by omega), hget]
      rcases hrest with rfl | ⟨more, rfl⟩
      · exact getAddrLoop_nil _ _
      · exact getAddrLoop_at_comma _ _

theorem addrs_ne_nil (i : PoolItem) : i.addrs ≠ [] := by
  cases i with
  | single x => exact List.cons_ne_nil _ _
  | range a b c lo hi h =>
    have hle : lo.val ≤ hi.val := h
    unfold addrs
    rw [Ne, List.ofFn_eq_nil_iff]
    omega

theorem translates_iff (i : PoolItem) : i.Translates ↔ ∀ x ∈ i.addrs, i.Passes x := by
  cases i with
  | single x => exact iff_of_true trivial fun _ _ => trivial
  | range a b c lo hi h =>
    have hle : lo.val ≤ hi.val := h
    constructor
    · rintro ⟨ha, hlo, hhi⟩ x hx
      obtain ⟨k, rfl⟩ := List.mem_ofFn.mp hx
      refine ⟨ha, ?_, ?_⟩
      · show 0 < lo.val + k.val
        omega
      · show lo.val + k.val < 255
        omega
    · intro hall
      have hmem : ∀ k (hk : k < hi.val + 1 - lo.val),
          (⟨a, b, c, ⟨lo.val + k, by omega⟩⟩ : Dotted).Accepted := fun k hk =>
        hall _ (List.mem_ofFn.mpr ⟨⟨k, hk⟩, rfl⟩)
      obtain ⟨ha, hlo, -⟩ := hmem 0 (by omega)
      obtain ⟨-, -, hhi⟩ := hmem (hi.val - lo.val) (by omega)
      have hlast : lo.val + (hi.val - lo.val) < 255 := hhi
      exact ⟨ha, hlo, by omega⟩

theorem length_text (i : PoolItem) : 7 ≤ i.text.length := by
  cases i with
  | single x => exact x.length_text.1
  | range a b c lo hi h =>
    have hleft := (⟨a, b, c, lo⟩ : Dotted).length_text.1
    rw [text, List.length_append]
    omega

end PoolItem

/-- `getAddr` finds the addresses of the list, and nothing behind them. -/
def TextsRight [LongWidth] (env : AcctEnv) (s : Bytes) (xs : List Dotted) : Prop :=
  ∀ n, getAddr env s n = some ((xs[n]?.map Dotted.text).getD [])

/-- The text of an item and what stands behind it. -/
theorem poolList_cons (i : PoolItem) (items : List PoolItem) :
    ∃ rest, poolList (i :: items) = i.text ++ rest ∧ AtComma rest ∧ (items = [] → rest = []) := by
  cases items with
  | nil => exact ⟨[], by simp [poolList], .inl rfl, fun _ => rfl⟩
  | cons j items =>
    refine ⟨44 :: poolList (j :: items), ?_, .inr ⟨_, rfl⟩, fun h => by contradiction⟩
    show [44].intercalate (i.text :: j.text :: items.map PoolItem.text) = _
    rw [List.intercalate_cons_cons]
    simp [poolList]

/-- **What `getAddr` finds in a list**: the addresses of the first item that pass. -/
theorem getAddr_poolList [LongWidth] (henv : DottedEnv env) (i : PoolItem) (items : List PoolItem)
    (n : ℕ) :
    getAddr env (poolList (i :: items)) n =
      some ((i.addrs[n]?.map fun x => if i.Passes x then x.text else []).getD []) := by
  obtain ⟨rest, htext, hcomma, -⟩ := poolList_cons i items
  have hlen := i.length_text
  unfold getAddr
  rw [htext]
  obtain ⟨turns, hturns⟩ : ∃ turns, (i.text ++ rest).length + 1 = turns + 2 :=
    ⟨(i.text ++ rest).length - 1, by rw [List.length_append]; omega⟩
  rw [hturns, PoolItem.getAddrLoop_item henv hcomma]

/-- **Two items**: where the second one starts, the list has an address and `getAddr` finds
nothing. -/
theorem not_textsRight [LongWidth] (henv : DottedEnv env) (i j : PoolItem) (items : List PoolItem) :
    ¬ TextsRight env (poolList (i :: j :: items)) (poolAddrs (i :: j :: items)) := by
  intro htexts
  obtain ⟨y, ys, hj⟩ := List.exists_cons_of_ne_nil j.addrs_ne_nil
  have hat : (poolAddrs (i :: j :: items))[i.addrs.length]? = some y := by
    show (i.addrs ++ (j.addrs ++ poolAddrs items))[i.addrs.length]? = some y
    rw [List.getElem?_append_right (Nat.le_refl _), Nat.sub_self, hj]
    rfl
  have hfound := htexts i.addrs.length
  rw [getAddr_poolList henv, hat, List.getElem?_eq_none (Nat.le_refl _)] at hfound
  exact y.text_ne_nil (Option.some.inj hfound).symm

/-- **One item**: all its addresses must pass. -/
theorem textsRight_item_iff [LongWidth] (henv : DottedEnv env) (i : PoolItem) :
    TextsRight env (poolList [i]) (poolAddrs [i]) ↔ i.Translates := by
  have haddrs : poolAddrs [i] = i.addrs := List.flatMap_singleton PoolItem.addrs i
  rw [haddrs, i.translates_iff]
  constructor
  · intro htexts x hx
    obtain ⟨n, hn⟩ := List.getElem?_of_mem hx
    have hfound := htexts n
    rw [getAddr_poolList henv, hn] at hfound
    by_contra hpass
    simp only [Option.map_some, Option.getD_some, if_neg hpass] at hfound
    exact x.text_ne_nil (Option.some.inj hfound).symm
  · intro hall n
    rw [getAddr_poolList henv]
    cases hn : i.addrs[n]? with
    | none => simp only [Option.map_none]
    | some x =>
      have hpass := hall x (List.mem_of_getElem? hn)
      simp only [Option.map_some, Option.getD_some, if_pos hpass]

theorem textsRight_iff [LongWidth] (henv : DottedEnv env) (items : List PoolItem) :
    TextsRight env (poolList items) (poolAddrs items) ↔
      items.length ≤ 1 ∧ ∀ i ∈ items, i.Translates := by
  match items with
  | [] => exact iff_of_true (fun n => rfl) ⟨Nat.zero_le 1, by simp⟩
  | [i] =>
    rw [textsRight_item_iff henv]
    simp
  | i :: j :: items =>
    refine iff_of_false (not_textsRight henv i j items) ?_
    rintro ⟨hlen, -⟩
    simp only [List.length_cons] at hlen
    omega

/-! ## `add` and `del` -/

section

variable {s : Bytes} {xs : List Dotted}

theorem TextsRight.length_le [LongWidth] (h : TextsRight env s xs) :
    xs.length ≤ addrBound s + 1 := by
  by_contra hlen
  have hget : xs[addrBound s + 1]? = some xs[addrBound s + 1] :=
    List.getElem?_eq_getElem (by omega)
  have hfound := h (addrBound s + 1)
  rw [hget] at hfound
  exact Dotted.text_ne_nil (getAddr_end (Nat.lt_succ_self _) hfound)

theorem TextsRight.addrTextsFrom [LongWidth] (h : TextsRight env s xs) {fuel n : ℕ}
    (hfuel : xs.length < n + fuel) (hn : n ≤ xs.length) :
    addrTextsFrom env s fuel n = some ((xs.drop n).map Dotted.text) := by
  induction fuel generalizing n with
  | zero => omega
  | succ fuel ih =>
    rw [Tacppd.addrTextsFrom, h n]
    by_cases hlt : n < xs.length
    · rw [List.getElem?_eq_getElem hlt]
      simp only [Option.map_some, Option.getD_some, Dotted.snprintf_text (Nat.le_refl 16)]
      rw [if_neg Dotted.text_ne_nil, ih (by omega) hlt, List.drop_eq_getElem_cons hlt]
      rfl
    · rw [List.getElem?_eq_none (by omega), List.drop_eq_nil_of_le (by omega)]
      rfl

/-- What `add` and `del` go through: all addresses, the first one twice. -/
theorem TextsRight.addresses [LongWidth] (henv : DottedEnv env) (h : TextsRight env s xs) :
    addresses env s = some ((xs.take 1 ++ xs).map Dotted.text) := by
  have hfill : ∀ l : List Dotted, (l.map Dotted.text).map (fill env) = l.map Dotted.text := by
    intro l
    rw [List.map_map]
    exact List.map_congr_left fun x _ => henv.fill_text x
  have htexts : addrTexts env s = some ((xs.take 1 ++ xs).map Dotted.text) := by
    rw [addrTexts, h 0]
    cases hxs : xs with
    | nil => rfl
    | cons x rest =>
      have hlen := h.length_le
      have hfrom := @TextsRight.addrTextsFrom env s xs _ h (addrBound s + 2) 0 (by omega)
        (Nat.zero_le _)
      simp only [List.getElem?_cons_zero, Option.map_some, Option.getD_some,
        Dotted.snprintf_text (Nat.le_refl 16)]
      rw [if_neg Dotted.text_ne_nil, hfrom, hxs]
      rfl
  rw [Tacppd.addresses, htexts, Option.map_some, hfill]

end

/-! ## What a pool holds -/

/-- No pool has an address twice. -/
def CorePool.Distinct (s : CorePool) : Prop := ∀ d ∈ s, (d.ae.map (·.address)).Nodup

section

variable {p : ℤ} {ip : Bytes} {ips : List Bytes} {ae : List AddrpoolEntry} {s s' : CorePool}

theorem Addrpool.get_address (ae : List AddrpoolEntry) :
    (Addrpool.get ae).2.map (·.address) = ae.map (·.address) := by
  rcases Addrpool.get_cases ae with hget | ⟨l, e, l', rfl, -, hget⟩
  · rw [hget]
  · rw [hget, List.map_append, List.map_append]
    rfl

/-- `del` takes the address out of a pool that has it once. -/
theorem Addrpool.del_not_mem (h : (ae.map (·.address)).Nodup) :
    ip ∉ (Addrpool.del ip ae).map (·.address) := by
  induction ae with
  | nil => exact List.not_mem_nil
  | cons e ae ih =>
    obtain ⟨he, hrest⟩ := List.nodup_cons.mp h
    unfold Addrpool.del
    split
    · next heq => exact heq ▸ he
    · next hne =>
      rw [List.map_cons, List.mem_cons]
      rintro (heq | hin)
      · exact hne heq.symm
      · exact ih hrest hin

theorem Addrpool.foldl_add_nodup (h : (ae.map (·.address)).Nodup) :
    ((ips.foldl Addrpool.add ae).map (·.address)).Nodup := by
  obtain ⟨news, hfold, hnodup, hmem⟩ := Addrpool.foldl_add ips ae
  have hnews : (news.map fun ip => (⟨ip, true⟩ : AddrpoolEntry)).map (·.address) = news := by
    rw [List.map_map]
    exact List.map_id news
  rw [hfold, List.map_append, hnews, List.nodup_append]
  refine ⟨h, hnodup, ?_⟩
  rintro x hx y hy rfl
  exact ((hmem x).mp hy).2 hx

namespace CorePool

theorem distinct_withPool {f : List AddrpoolEntry → List AddrpoolEntry}
    (hf : ∀ ae, (ae.map (·.address)).Nodup → ((f ae).map (·.address)).Nodup)
    (h : s.Distinct) : (s.withPool p f).Distinct := by
  induction s with
  | nil =>
    intro d hd
    obtain rfl := List.mem_singleton.mp hd
    exact hf [] List.nodup_nil
  | cons d s ih =>
    have hhead := h d List.mem_cons_self
    have htail : CorePool.Distinct s := fun d' hd' => h d' (List.mem_cons_of_mem d hd')
    rw [withPool]
    split
    · intro d' hd'
      rcases List.mem_cons.mp hd' with rfl | hd'
      · exact hf _ hhead
      · exact htail d' hd'
    · intro d' hd'
      rcases List.mem_cons.mp hd' with rfl | hd'
      · exact hhead
      · exact ih htail d' hd'

/-- What changes each pool on its own. -/
theorem distinct_map {f : AddrpoolData → AddrpoolData}
    (hf : ∀ d, List.Sublist ((f d).ae.map (·.address)) (d.ae.map (·.address)))
    (h : s.Distinct) : Distinct (s.map f) := by
  intro d' hd'
  obtain ⟨d, hd, rfl⟩ := List.mem_map.mp hd'
  exact (hf d).nodup (h d hd)

theorem distinct_get (h : s.Distinct) : Distinct (s.get p).2 := by
  induction s with
  | nil => exact h
  | cons d s ih =>
    have hhead := h d List.mem_cons_self
    have htail : CorePool.Distinct s := fun d' hd' => h d' (List.mem_cons_of_mem d hd')
    rw [get]
    split
    · intro d' hd'
      rcases List.mem_cons.mp hd' with rfl | hd'
      · show ((Addrpool.get d.ae).2.map (·.address)).Nodup
        rw [Addrpool.get_address]
        exact hhead
      · exact htail d' hd'
    · intro d' hd'
      rcases List.mem_cons.mp hd' with rfl | hd'
      · exact hhead
      · exact ih htail d' hd'

/-- One address taken out of the pools with a number. -/
def delOne (p : ℤ) (s : CorePool) (ip : Bytes) : CorePool :=
  s.map fun d => if d.pool = p then { d with ae := Addrpool.del ip d.ae } else d

theorem delOne_sublist (p : ℤ) (ip : Bytes) (d : AddrpoolData) :
    List.Sublist ((if d.pool = p then { d with ae := Addrpool.del ip d.ae } else d).ae.map
      (·.address)) (d.ae.map (·.address)) := by
  split
  · exact (Addrpool.del_sublist ip d.ae).map _
  · exact List.Sublist.refl _

theorem distinct_del (h : s.Distinct) : Distinct (s.del p ips) := by
  induction ips generalizing s with
  | nil => exact h
  | cons ip ips ih => exact ih (distinct_map (delOne_sublist p ip) h)

/-- **One call** keeps the addresses of each pool apart. -/
theorem Distinct.step [LongWidth] {i : PoolInput} {out : Bytes} (h : s.Distinct)
    (hstep : s.step i = .ok (s', out)) : s'.Distinct := by
  obtain ⟨env, call⟩ := i
  unfold CorePool.step at hstep
  cases call with
  | add p a =>
    simp only at hstep
    split at hstep
    · contradiction
    · obtain ⟨rfl, -⟩ := Prod.mk.inj (Except.ok.inj hstep)
      exact distinct_withPool (fun _ => Addrpool.foldl_add_nodup) h
  | delPool p =>
    obtain ⟨rfl, -⟩ := Prod.mk.inj (Except.ok.inj hstep)
    exact fun d hd => h d (List.mem_of_mem_filter hd)
  | del p a =>
    simp only at hstep
    split at hstep
    · contradiction
    · obtain ⟨rfl, -⟩ := Prod.mk.inj (Except.ok.inj hstep)
      exact distinct_del h
  | get p =>
    obtain ⟨rfl, -⟩ := Prod.mk.inj (Except.ok.inj hstep)
    exact distinct_get h
  | ret ip =>
    obtain ⟨rfl, -⟩ := Prod.mk.inj (Except.ok.inj hstep)
    refine distinct_map (fun d => ?_) h
    show List.Sublist ((Addrpool.ret ip d.ae).map (·.address)) _
    rw [Addrpool.map_address_ret]

theorem distinct_of_reaches [LongWidth] {h : List (PoolInput × Bytes)} (hr : corePool.Reaches h s) :
    s.Distinct :=
  @Machine.Reaches.invariant _ _ _ _ corePool (fun _ s => s.Distinct) (by simp [Distinct, corePool])
    (fun _ _ _ _ _ _ hs hstep => hs.step hstep) h s hr

theorem step_addresses [LongWidth] {a : Bytes} (h : addresses env a = some ips) :
    s.step ⟨env, .add p a⟩ = .ok (s.add p ips, []) ∧
      s.step ⟨env, .del p a⟩ = .ok (s.del p ips, []) := by
  unfold step
  simp only [h]
  exact ⟨trivial, trivial⟩

theorem poolEntries_withPool (f : List AddrpoolEntry → List AddrpoolEntry) :
    (s.withPool p f).poolEntries p = f (s.poolEntries p) := by
  induction s with
  | nil => simp [withPool, poolEntries]
  | cons d s ih =>
    rw [withPool]
    split
    · next hd => simp [poolEntries, hd]
    · next hd => simpa [poolEntries, hd] using ih

/-- What is added is there. -/
theorem mem_add (hip : ip ∈ ips) : ip ∈ ((s.add p ips).poolEntries p).map (·.address) := by
  obtain ⟨news, hfold, -, hmem⟩ := Addrpool.foldl_add ips (s.poolEntries p)
  rw [add, poolEntries_withPool, hfold, List.map_append, List.mem_append]
  by_cases hold : ip ∈ (s.poolEntries p).map (·.address)
  · exact .inl hold
  · refine .inr ?_
    rw [List.map_map]
    exact List.mem_map.mpr ⟨ip, (hmem ip).mpr ⟨hip, hold⟩, rfl⟩

/-- No pool with this number has the address. -/
def Lacks (s : CorePool) (p : ℤ) (ip : Bytes) : Prop :=
  ∀ d ∈ s, d.pool = p → ip ∉ d.ae.map (·.address)

theorem Lacks.delOne (h : s.Lacks p ip) (other : Bytes) : (delOne p s other).Lacks p ip := by
  intro d' hd' hp hin
  obtain ⟨d, hd, rfl⟩ := List.mem_map.mp hd'
  refine h d hd ?_ ((delOne_sublist p other d).subset hin)
  split at hp <;> exact hp

theorem lacks_delOne (h : s.Distinct) (ip : Bytes) : (delOne p s ip).Lacks p ip := by
  intro d' hd' hp
  obtain ⟨d, hd, rfl⟩ := List.mem_map.mp hd'
  split at hp
  · next heq =>
    rw [if_pos heq]
    exact Addrpool.del_not_mem (h d hd)
  · contradiction

/-- **What is deleted is not there any more.** -/
theorem lacks_del (h : s.Distinct) (hip : ip ∈ ips) : (s.del p ips).Lacks p ip := by
  have hkeep : ∀ (ips : List Bytes) (s : CorePool), s.Lacks p ip → (s.del p ips).Lacks p ip := by
    intro ips
    induction ips with
    | nil => exact fun _ h => h
    | cons other ips ih => exact fun s h => ih (delOne p s other) (h.delOne other)
  induction ips generalizing s with
  | nil => contradiction
  | cons first ips ih =>
    rcases List.mem_cons.mp hip with rfl | hip
    · exact hkeep ips (delOne p s ip) (lacks_delOne h ip)
    · exact ih (distinct_map (delOne_sublist p first) h) hip

end CorePool

end

/-! ## What is asked of a list -/

/-- `getAddr` finds the addresses of the list one after the other, `add` brings all of them
into the pool, and `del` takes all of them out of it, after any calls. -/
structure ListRight [LongWidth] (env : AcctEnv) (items : List PoolItem) : Prop where
  texts : TextsRight env (poolList items) (poolAddrs items)
  adds : ∀ (s : CorePool) (p : ℤ), ∃ s', s.step ⟨env, .add p (poolList items)⟩ = .ok (s', []) ∧
    ∀ x ∈ poolAddrs items, x.text ∈ (s'.poolEntries p).map (·.address)
  dels : ∀ h s (p : ℤ), corePool.Reaches h s →
    ∃ s', s.step ⟨env, .del p (poolList items)⟩ = .ok (s', []) ∧
      ∀ x ∈ poolAddrs items, s'.Lacks p x.text

/-- **Lists of addresses**: they are translated, added and deleted as they should be if and only
if there is one item at most, and each address of a range is accepted by `isIp`. -/
theorem poolList_iff [LongWidth] (henv : DottedEnv env) (items : List PoolItem) :
    ListRight env items ↔ items.length ≤ 1 ∧ ∀ i ∈ items, i.Translates := by
  rw [← textsRight_iff henv]
  refine ⟨ListRight.texts, fun htexts => ?_⟩
  have haddresses := htexts.addresses henv
  have hmem : ∀ x ∈ poolAddrs items, x.text ∈
      ((poolAddrs items).take 1 ++ poolAddrs items).map Dotted.text := fun x hx =>
    List.mem_map_of_mem (List.mem_append_right _ hx)
  refine ⟨htexts, fun s p => ?_, fun h s p hr => ?_⟩
  · exact ⟨_, (CorePool.step_addresses haddresses).1, fun x hx => CorePool.mem_add (hmem x hx)⟩
  · refine ⟨_, (CorePool.step_addresses haddresses).2, fun x hx => ?_⟩
    exact CorePool.lacks_del (CorePool.distinct_of_reaches hr) (hmem x hx)

theorem numericEnv_dotted : DottedEnv numericEnv := ⟨fun _ => .inr rfl, fun _ => rfl⟩

/-- The range from 10.0.0.1 to 10.0.0.3. -/
def threeAddresses : PoolItem := .range 10 0 0 1 3 (by decide)

theorem poolList_three : ListRight numericEnv [threeAddresses] :=
  (poolList_iff numericEnv_dotted [threeAddresses]).mpr
    ⟨Nat.le_refl 1, fun i hi => by
      obtain rfl := List.mem_singleton.mp hi
      exact ⟨by decide, by decide, by decide⟩⟩

/-- The list `10.0.0.1,10.0.0.2`. -/
def twoAddresses : List PoolItem := [.single ⟨10, 0, 0, 1⟩, .single ⟨10, 0, 0, 2⟩]

/-- The second of the two is not found. -/
theorem getAddr_stays_at_comma : poolList twoAddresses = str "10.0.0.1,10.0.0.2" ∧
    getAddr numericEnv (poolList twoAddresses) 1 = some [] ∧
    ¬ ListRight numericEnv twoAddresses := by
  have hget : getAddr numericEnv (poolList twoAddresses) 1 = some [] := by decide +kernel
  refine ⟨by decide +kernel, hget, fun hright => ?_⟩
  have hfound := hright.texts 1
  rw [hget] at hfound
  exact absurd hfound (by decide +kernel)

end Tacppd
