/-
# Address lists of a pool

`CorePool::getAddr` translates a text such as `192.168.10.1-192.168.10.11` to single
addresses: called with a number it finds the text of that address, and `add` and `del` call
it with growing numbers until it finds nothing.  A text, or a part of one, that does not fit
the arrays of these functions makes them leave their buffers.

The texts come to an end (`addrTexts_eq_none`), so the loop of `add` and `del` does too.
-/
import Mathlib.Algebra.Order.Ring.Nat
import Tacppd.Accounting

namespace Tacppd

/-! ## Octets -/

/-- The digits that `ipaddr::get(int)` copies for one number: three at most, up to a dot,
and up to a blank too for the last one. -/
def octetText (last : Bool) (s : Bytes) : Bytes :=
  (s.takeWhile fun c => c ≠ 46 && !(last && c == 32)).take 3

/-- What is left of the text, behind the dot. -/
def afterOctet (s : Bytes) : Bytes :=
  let rest := s.drop (octetText false s).length
  if rest.head? = some 46 then rest.drop 1 else rest

/-- `ipaddr::get(n)`: number `n` of the four in the text of an address. -/
def octet [LongWidth] (s : Bytes) (n : ℕ) : ℤ :=
  if n < 4 then atoi (octetText (n == 3) (afterOctet^[n] (snprintf 99 s))) else 0

/-- `isdigit`. -/
def isDigit (c : UInt8) : Bool := decide (48 ≤ c) && decide (c ≤ 57)

/-- The first loop of `isIp`, with `j` rows of `char s[4][4]` to fill: the rows, and nothing
inside where a byte is no digit.  The rows that are not filled have no value, and a row has
no room for a fourth digit and the byte behind it. -/
def isIpRows : ℕ → Bytes → Option (Option (List Bytes))
  | 0, _ => some (some [])
  | j + 1, s =>
    if s = [] then none
    else
      let part := s.takeWhile (· ≠ 46)
      let digits := part.takeWhile isDigit
      if 4 < digits.length then none
      else if digits.length < part.length then some none
      else if 3 < part.length then none
      else (isIpRows j (s.drop (part.length + 1))).map fun rows => rows.map (part :: ·)

/-- `utl::isIp`. -/
def isIp [LongWidth] (s : Bytes) : Option Bool :=
  if s.length < 7 then some false
  else
    (isIpRows 4 s).map fun rows =>
      match rows with
      | none => false
      | some rows =>
        let d i := atoi (rows.getD i [])
        decide (0 < d 0 ∧ d 0 ≤ 255) && decide (0 ≤ d 1 ∧ d 1 ≤ 255) &&
          decide (0 ≤ d 2 ∧ d 2 ≤ 255) && decide (0 < d 3 ∧ d 3 < 255)

/-! ## `getAddr` -/

/-- A byte of an address in the list: no comma, no hyphen. -/
def addrByte (c : UInt8) : Bool := c ≠ 44 && c ≠ 45

/-- The text of a number in decimal, `utl::toString`. -/
def decimal (n : ℤ) : Bytes := str (toString n)

/-- The text that is returned when it is an address. -/
def ifIp [LongWidth] (ret : Bytes) : Option Bytes := (isIp ret).map fun ok => if ok then ret else []

section

variable (env : AcctEnv)

/-- The loop of `getAddr`: the rest of the text, and how many addresses are still to be
counted, the one asked for included.  The first argument bounds the turns; each one takes a
byte at least, but for those at a comma, where the loop stays and counts up with an empty
text. -/
def getAddrLoop [LongWidth] : ℕ → ℕ → Bytes → Option Bytes
  | 0, _, _ => some []
  | turns + 1, n, s =>
    if s = [] then some []
    else
      let s1 := s.takeWhile addrByte
      if 100 ≤ s1.length then none
      else
        match s.drop s1.length with
        | [] => if n = 1 then some s1 else some []
        | c :: rest =>
          if c = 44 then if n = 1 then some s1 else some []
          else
            let s2 := rest.takeWhile addrByte
            let rest := rest.drop s2.length
            if 100 ≤ s2.length then none
            else if s1 ≠ [] ∧ s2 ≠ [] then
              let ip1 := fill env s1
              let left := octet ip1 3
              let right := octet (fill env s2) 3
              -- the addresses between the two, both included
              let between := (right + 1 - left).toNat
              if n ≤ between then
                ifIp (decimal (octet ip1 0) ++ str "." ++ decimal (octet ip1 1) ++ str "." ++
                  decimal (octet ip1 2) ++ str "." ++ decimal (left + n - 1))
              else getAddrLoop turns (n - between) rest
            else if n = 1 then ifIp s1
            else getAddrLoop turns (n - 1) rest

/-- `CorePool::getAddr(str, n)`. -/
def getAddr [LongWidth] (s : Bytes) (n : ℕ) : Option Bytes :=
  getAddrLoop env (s.length + 1) (n + 1) s

/-- The texts that the loop of `add` and `del` goes through from number `n` on, up to the
first empty one, each cut to the buffer `r`. -/
def addrTextsFrom [LongWidth] (s : Bytes) : ℕ → ℕ → Option (List Bytes)
  | 0, _ => none
  | fuel + 1, n =>
    match getAddr env s n with
    | none => none
    | some text =>
      if snprintf 16 text = [] then some []
      else (addrTextsFrom s fuel (n + 1)).map (snprintf 16 text :: ·)

/-- More addresses than a text of this length can stand for. -/
def addrBound (s : Bytes) : ℕ := 2000 * (s.length + 1)

/-- The loop of `add` and `del`: the text with number 0 is read before the loop and once
more in it. -/
def addrTexts [LongWidth] (s : Bytes) : Option (List Bytes) :=
  match getAddr env s 0 with
  | none => none
  | some text =>
    if snprintf 16 text = [] then some []
    else (addrTextsFrom env s (addrBound s + 2) 0).map (snprintf 16 text :: ·)

/-- The addresses themselves. -/
def addresses [LongWidth] (s : Bytes) : Option (List Bytes) :=
  (addrTexts env s).map (List.map (fill env))

end

/-! ## The end of the texts -/

/-- Three bytes make a number below 1000. -/
theorem atoi_bounds [LongWidth] {s : Bytes} (h : s.length ≤ 3) :
    -1000 < atoi s ∧ atoi s < 1000 := by
  obtain ⟨hlow, hhigh⟩ := leadingNumber_bounds s
  have hpow : (10 : ℤ) ^ s.length ≤ 10 ^ 3 := pow_le_pow_right₀ (by omega) h
  rw [atoi_eq (intNumber_of_length_le (by omega))]
  exact ⟨by omega, by omega⟩

theorem octet_bounds [LongWidth] (s : Bytes) (n : ℕ) : -1000 < octet s n ∧ octet s n < 1000 := by
  rw [octet]
  split
  · exact atoi_bounds (List.length_take_le ..)
  · omega

/-- Each turn of the loop counts fewer than 2000 addresses. -/
theorem getAddrLoop_end [LongWidth] {env : AcctEnv} {turns n : ℕ} {s r : Bytes}
    (hn : 2000 * turns + 1 < n) (h : getAddrLoop env turns n s = some r) : r = [] := by
  induction turns generalizing n s with
  | zero => exact (Option.some.inj h).symm
  | succ turns ih =>
    rw [getAddrLoop] at h
    simp only [if_neg (show ¬ n = 1 by omega)] at h
    split at h
    · exact (Option.some.inj h).symm
    · split at h
      · contradiction
      · split at h
        · exact (Option.some.inj h).symm
        · next c rest hrest =>
          split at h
          · exact (Option.some.inj h).symm
          · split at h
            · contradiction
            · split at h
              · have hleft := octet_bounds (fill env (s.takeWhile addrByte)) 3
                have hright := octet_bounds (fill env (rest.takeWhile addrByte)) 3
                rw [if_neg (by omega)] at h
                exact ih (by omega) h
              · exact ih (by omega) h

theorem getAddr_end [LongWidth] {env : AcctEnv} {s r : Bytes} {n : ℕ} (hn : addrBound s < n)
    (h : getAddr env s n = some r) : r = [] :=
  getAddrLoop_end (by rw [addrBound] at hn; omega) h

/-- Where `getAddr` has found nothing yet, there is fuel left for the next turn. -/
theorem addrTextsFrom_eq_none [LongWidth] {env : AcctEnv} {s : Bytes} {fuel n : ℕ}
    (hn : n ≤ addrBound s + 1) (hfuel : addrBound s + 2 ≤ n + fuel)
    (h : addrTextsFrom env s fuel n = none) : ∃ k, getAddr env s k = none := by
  induction fuel generalizing n with
  | zero => omega
  | succ fuel ih =>
    rw [addrTextsFrom] at h
    split at h
    · next hget => exact ⟨n, hget⟩
    · next text hget =>
      split at h
      · contradiction
      · next hne =>
        have hle : n ≤ addrBound s := by
          by_contra hlt
          apply hne
          rw [getAddr_end (not_le.mp hlt) hget]
          rfl
        exact ih (by omega) (by omega) (Option.map_eq_none_iff.mp h)

/-- **The loop over the addresses ends**: it has no result only where `getAddr` leaves a
buffer. -/
theorem addrTexts_eq_none [LongWidth] {env : AcctEnv} {s : Bytes} (h : addrTexts env s = none) :
    ∃ n, getAddr env s n = none := by
  rw [addrTexts] at h
  split at h
  · next hget => exact ⟨0, hget⟩
  · split at h
    · contradiction
    · exact addrTextsFrom_eq_none (by omega) (by omega) (Option.map_eq_none_iff.mp h)

end Tacppd
