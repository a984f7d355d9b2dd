/-
# Nodes that are named by a host and a port

The parameter of a peer, a database or a bundle is `host:port` or `name@host:port`, and
`utl::splitId` cuts it.  The program saves the parts, so a part with an at sign in it is cut
differently when the text is read.
-/
import Tacppd.ConfNodes

namespace Tacppd

/-- The text in front of a byte, if the byte is there. -/
def beforeSep (c : UInt8) (s : Bytes) : Bytes := if c ∈ s then s.takeWhile (· ≠ c) else []

/-- The text behind the first place of a byte. -/
def afterSep (c : UInt8) (s : Bytes) : Bytes := (s.dropWhile (· ≠ c)).tail

/-- `utl::splitId`, of a text that is shorter than its array of 256 bytes: the name, the host and
the port of `name@host:port`, and no text for a part that is not there.  The port is what stands
behind the first colon of the whole text. -/
def splitId (s : Bytes) : ℕ → Bytes
  | 0 => beforeSep 64 s
  | 1 => beforeSep 58 (if 64 ∈ s then afterSep 64 s else s)
  | 2 => afterSep 58 s
  | _ => []

section

variable {s h u : Bytes} {n p : ℕ} {b c : UInt8} {m : ParamMask}

/-! ## The parts of a name -/

theorem mem_of_mem_beforeSep (hb : b ∈ beforeSep c s) : b ∈ s := by
  unfold beforeSep at hb
  split at hb
  · exact (List.takeWhile_sublist _).subset hb
  · contradiction

theorem mem_of_mem_afterSep (hb : b ∈ afterSep c s) : b ∈ s :=
  (List.dropWhile_sublist _).subset (List.mem_of_mem_tail hb)

theorem not_mem_beforeSep : c ∉ beforeSep c s := by
  unfold beforeSep
  split
  · exact fun h => absurd (List.mem_takeWhile_imp h) (by simp)
  · exact List.not_mem_nil

theorem beforeSep_append (hs : c ∉ s) (t : Bytes) : beforeSep c (s ++ c :: t) = s := by
  rw [beforeSep, if_pos (by simp), takeWhile_until hs]

theorem afterSep_append (hs : c ∉ s) (t : Bytes) : afterSep c (s ++ c :: t) = t := by
  rw [afterSep, dropWhile_until hs, List.tail_cons]

/-- What stands behind any place of the byte stands behind the first one too. -/
theorem suffix_afterSep (s t : Bytes) : t <:+ afterSep c (s ++ c :: t) := by
  by_cases hs : c ∈ s
  · obtain ⟨a, b, rfl, ha⟩ := List.eq_append_cons_of_mem hs
    rw [List.append_assoc, List.cons_append, afterSep_append ha]
    exact ⟨b ++ [c], by simp⟩
  · rw [afterSep_append hs]

theorem beforeSep_of_not_mem (hs : c ∉ s) : beforeSep c s = [] := by
  rw [beforeSep, if_neg hs]

theorem afterSep_of_not_mem (hs : c ∉ s) : afterSep c s = [] := by
  have hdrop : s.dropWhile (· ≠ c) = [] := by
    rw [List.dropWhile_eq_nil_iff]
    exact fun b hb => decide_eq_true fun heq => hs (heq ▸ hb)
  rw [afterSep, hdrop, List.tail_nil]

/-- The parts are made of the bytes of the text. -/
theorem mem_of_mem_splitId (hb : b ∈ splitId s n) : b ∈ s := by
  unfold splitId at hb
  split at hb
  · exact mem_of_mem_beforeSep hb
  · have hb := mem_of_mem_beforeSep hb
    split at hb
    · exact mem_of_mem_afterSep hb
    · exact hb
  · exact mem_of_mem_afterSep hb
  · contradiction

theorem colon_not_mem_splitId : (58 : UInt8) ∉ splitId s 1 := not_mem_beforeSep

/-- Without a colon there is no host and no port. -/
theorem splitId_of_colon (hs : (58 : UInt8) ∉ s) : splitId s 1 = [] ∧ splitId s 2 = [] := by
  refine ⟨beforeSep_of_not_mem ?_, afterSep_of_not_mem hs⟩
  split
  · exact fun h => hs (mem_of_mem_afterSep h)
  · exact hs

/-- The parts of `host:port`. -/
theorem splitId_host (hat : (64 : UInt8) ∉ h ++ 58 :: s) (hcolon : (58 : UInt8) ∉ h) :
    splitId (h ++ 58 :: s) 1 = h ∧ splitId (h ++ 58 :: s) 2 = s := by
  refine ⟨?_, afterSep_append hcolon s⟩
  rw [splitId, if_neg hat, beforeSep_append hcolon]

/-- The host of `name@host:port` is what stands behind the at sign. -/
theorem splitId_at {t : Bytes} (hat : (64 : UInt8) ∉ t) (hcolon : (58 : UInt8) ∉ h) :
    splitId (t ++ 64 :: (h ++ 58 :: s)) 1 = h := by
  rw [splitId, if_pos (by simp), afterSep_append hat, beforeSep_append hcolon]

/-- With an at sign the host is shorter than what is in front of the colon. -/
theorem length_splitId_lt (hat : (64 : UInt8) ∈ h) (hcolon : (58 : UInt8) ∉ h) :
    (splitId (h ++ 58 :: s) 1).length < h.length := by
  obtain ⟨a, t, rfl, ha⟩ := List.eq_append_cons_of_mem hat
  rw [List.append_assoc, List.cons_append, splitId_at ha (fun ht => hcolon (by simp [ht])),
    List.length_append, List.length_cons]
  omega

/-! ## Names as they are saved -/

/-- The bytes that end a part of a name, a text or a parameter are not in a number. -/
theorem not_mem_decimal {z : ℤ} (hc : c ∈ ([64, 58, 0, 32, 39, 34] : Bytes)) :
    c ∉ decimal z := by
  have hall : ∀ c ∈ ([64, 58, 0, 32, 39, 34] : Bytes), isDigit c = false ∧ c ≠ 45 := by
    simp [isDigit]
  intro hmem
  rcases byte_of_mem_decimal hmem with h | h
  · rw [(hall c hc).1] at h
    exact Bool.false_ne_true h
  · exact (hall c hc).2 h

/-- **A name as it is saved**: what is read of it goes on to its end, if it has a colon. -/
theorem exists_of_lineParam_name [LongWidth] (h0 : (0 : UInt8) ∉ h) (hcolon : (58 : UInt8) ∉ h)
    (hp : p < 10 ^ 10) (hlen : h.length + n ≤ 280)
    (hu : lineParam m n (h ++ 58 :: decimal p) = some u) (hmem : (58 : UInt8) ∈ u) :
    ∃ u₁, u = u₁ ++ 58 :: decimal p ∧ u₁ <:+ h := by
  have hzero : (0 : UInt8) ∉ decimal p := not_mem_decimal (by simp)
  have hsep : (58 : UInt8) ∉ decimal p := not_mem_decimal (by simp)
  have hport : (decimal (p : ℤ)).length ≤ 10 := length_decimal_le hp
  obtain ⟨pre, post, heq, hends⟩ := exists_of_lineParam
    (by simpa using ⟨h0, hzero⟩)
    (by
      rw [List.length_append, List.length_cons]
      omega) hu
  obtain ⟨u₁, u₂, rfl, hu₁⟩ := List.eq_append_cons_of_mem hmem
  -- the colon of the text is the one of the parameter
  have hpre : (58 : UInt8) ∉ pre := by
    intro hpre
    have hcount := congrArg (List.count 58) heq
    have hpos := List.count_pos_iff.mpr hpre
    simp only [List.count_append, List.count_cons_self, List.count_eq_zero_of_not_mem hcolon,
      List.count_eq_zero_of_not_mem hsep] at hcount
    omega
  have hassoc : pre ++ (u₁ ++ 58 :: u₂ ++ post) = (pre ++ u₁) ++ 58 :: (u₂ ++ post) := by simp
  rw [hassoc] at heq
  have hfront : h = pre ++ u₁ := by
    rw [← takeWhile_until hcolon, heq, takeWhile_until (by simp [hpre, hu₁])]
  rw [hfront] at heq
  have hback : decimal p = u₂ ++ post := (List.cons.inj (List.append_cancel_left heq)).2
  -- behind it there is a digit or nothing
  have hend : post = [] := by
    cases post with
    | nil => rfl
    | cons c post =>
      have hmem : c ∈ decimal p := by simp [hback]
      exact absurd hmem (not_mem_decimal (List.mem_append_right [64, 58, 0] (hends c rfl)))
  rw [hend, List.append_nil] at hback
  exact ⟨u₁, by rw [hback], pre, hfront.symm⟩

/-- The port as it is saved. -/
theorem atoiUnsigned_decimal_iff [LongWidth] : atoiUnsigned (decimal p) = p ↔ UnsignedNumber p :=
  atoiUnsigned_toString_iff

end

end Tacppd
