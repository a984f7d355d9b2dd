/-
# Abbreviated words

Commands, options and columns are named by masks: what must be typed of a name stands in capitals,
and the rest may be left out.  `utl::match` and `utl::matchNstrict` compare a word with such a
mask in two loops each.  The first does not ask for all capitals and the second does not ask where
the word ends, so that each of them takes words which the other refuses (`abbrev_iff`).
-/
import Tacppd.Command

namespace Tacppd

def isLower (c : UInt8) : Bool := decide (97 ≤ c) && decide (c ≤ 122)

/-- A mask: capitals, and small letters behind them. -/
structure AbbrevMask where
  capitals : Bytes
  small : Bytes
  upper : ∀ c ∈ capitals, isUpper c = true
  lower : ∀ c ∈ small, isLower c = true

def AbbrevMask.text (m : AbbrevMask) : Bytes := m.capitals ++ m.small

/-- A text in small letters. -/
def lowered (t : Bytes) : Bytes := t.map toLower

/-- The word is the mask up to some place, which is behind the capitals. -/
def Abbreviates (w : Bytes) (m : AbbrevMask) : Prop :=
  lowered w <+: lowered m.text ∧ m.capitals.length ≤ w.length

variable {c : UInt8} {m : AbbrevMask} {w mask caps small : Bytes}

theorem not_isUpper_of_isLower (hc : isLower c = true) : ¬ isUpper c = true := by
  intro h
  simp only [isLower, isUpper, Bool.and_eq_true, decide_eq_true_eq, UInt8.le_iff_toNat_le] at hc h
  have h90 : (90 : UInt8).toNat = 90 := rfl
  have h97 : (97 : UInt8).toNat = 97 := rfl
  omega

theorem toLower_of_isLower (hc : isLower c = true) : toLower c = c := by
  rw [toLower, if_neg (not_isUpper_of_isLower hc)]

/-! ## The second loops -/

theorem matchRest_iff (hsmall : ∀ c ∈ small, isLower c = true) (hw : (32 : UInt8) ∉ w) :
    matchRest small w = true ↔ lowered w <+: lowered small := by
  induction small generalizing w with
  | nil =>
    cases w with
    | nil => simp [matchRest, lowered]
    | cons c w =>
      rw [List.mem_cons, not_or] at hw
      simp [matchRest, lowered, Ne.symm hw.1]
  | cons a small ih =>
    cases w with
    | nil => simp [matchRest, lowered]
    | cons c w =>
      rw [List.mem_cons, not_or] at hw
      have ha : toLower a = a := toLower_of_isLower (hsmall a List.mem_cons_self)
      have hrest := ih (fun b hb => hsmall b (List.mem_cons_of_mem a hb)) hw.2
      unfold lowered at hrest ⊢
      rw [matchRest, List.map_cons, List.map_cons, List.cons_prefix_cons, Bool.and_eq_true,
        beq_iff_eq, hrest, ha]
      exact and_congr_left' eq_comm

theorem matchNstrictRest_iff (hsmall : ∀ c ∈ small, isLower c = true) (hw : (32 : UInt8) ∉ w) :
    matchNstrictRest small w = true ↔
      lowered w <+: lowered small ∨ lowered small <+: lowered w := by
  induction small generalizing w with
  | nil => simp [matchNstrictRest, lowered]
  | cons a small ih =>
    cases w with
    | nil => simp [matchNstrictRest, lowered]
    | cons c w =>
      rw [List.mem_cons, not_or] at hw
      have ha : toLower a = a := toLower_of_isLower (hsmall a List.mem_cons_self)
      have hrest := ih (fun b hb => hsmall b (List.mem_cons_of_mem a hb)) hw.2
      unfold lowered at hrest ⊢
      rw [matchNstrictRest, if_neg (Ne.symm hw.1), List.map_cons, List.map_cons,
        List.cons_prefix_cons, List.cons_prefix_cons, ha]
      split
      · next hne =>
        refine iff_of_false Bool.false_ne_true ?_
        rintro (⟨heq, -⟩ | ⟨heq, -⟩)
        · exact hne heq.symm
        · exact hne heq
      · next heq =>
        rw [not_not] at heq
        rw [hrest, heq]
        simp

/-! ## Both loops -/

/-- `match` asks that one text is the front of the other, and that the word ends first. -/
theorem matchHead_iff (hcaps : ∀ c ∈ caps, isUpper c = true)
    (hsmall : ∀ c ∈ small, isLower c = true) (hw : (32 : UInt8) ∉ w) :
    matchHead (caps ++ small) w = true ↔ lowered w <+: lowered (caps ++ small) := by
  induction caps generalizing w with
  | nil =>
    have hrest := matchRest_iff hsmall hw
    cases small with
    | nil => exact hrest
    | cons a small =>
      cases w with
      | nil => exact hrest
      | cons c w =>
        rw [List.nil_append, matchHead,
          if_neg (not_isUpper_of_isLower (hsmall a List.mem_cons_self))]
        exact hrest
  | cons a caps ih =>
    cases w with
    | nil => simp [matchHead, matchRest, lowered]
    | cons c w =>
      rw [List.mem_cons, not_or] at hw
      have hrest := ih (fun b hb => hcaps b (List.mem_cons_of_mem a hb)) hw.2
      unfold lowered at hrest ⊢
      rw [List.cons_append, matchHead, if_pos (hcaps a List.mem_cons_self), Bool.and_eq_true,
        hrest, beq_iff_eq, List.map_cons, List.map_cons, List.cons_prefix_cons]
      exact and_congr_left' eq_comm

/-- `matchNstrict` asks for all capitals, and that one text is the front of the other. -/
theorem matchNstrictHead_iff (hcaps : ∀ c ∈ caps, isUpper c = true)
    (hsmall : ∀ c ∈ small, isLower c = true) (hw : (32 : UInt8) ∉ w) :
    matchNstrictHead (caps ++ small) w = true ↔ caps.length ≤ w.length ∧
      (lowered w <+: lowered (caps ++ small) ∨ lowered (caps ++ small) <+: lowered w) := by
  induction caps generalizing w with
  | nil =>
    have hrest := matchNstrictRest_iff hsmall hw
    cases small with
    | nil => simp [matchNstrictHead, lowered]
    | cons a small =>
      have ha := not_isUpper_of_isLower (hsmall a List.mem_cons_self)
      cases w with
      | nil => simp [matchNstrictHead, lowered, ha]
      | cons c w =>
        rw [List.nil_append, matchNstrictHead, if_neg ha, hrest]
        simp
  | cons a caps ih =>
    have ha := hcaps a List.mem_cons_self
    cases w with
    | nil => simp [matchNstrictHead, ha]
    | cons c w =>
      rw [List.mem_cons, not_or] at hw
      have hrest := ih (fun b hb => hcaps b (List.mem_cons_of_mem a hb)) hw.2
      unfold lowered at hrest ⊢
      rw [List.cons_append, matchNstrictHead, if_pos ha, List.map_cons, List.map_cons,
        List.cons_prefix_cons, List.cons_prefix_cons, List.length_cons, List.length_cons,
        Nat.succ_le_succ_iff]
      split
      · next hne =>
        refine iff_of_false Bool.false_ne_true ?_
        rintro ⟨-, ⟨heq, -⟩ | ⟨heq, -⟩⟩
        · exact hne heq.symm
        · exact hne heq
      · next heq =>
        rw [not_not] at heq
        rw [hrest, heq]
        simp

/-! ## The two functions -/

theorem utlMatch_iff (h0 : (0 : UInt8) ∉ w) (hw : (32 : UInt8) ∉ w) :
    utlMatch w m.text = true ↔ w ≠ [] ∧ m.text ≠ [] ∧ lowered w <+: lowered m.text := by
  rw [utlMatch, cstr_eq_self h0, Bool.and_eq_true, Bool.and_eq_true, AbbrevMask.text,
    matchHead_iff m.upper m.lower hw, and_assoc]
  simp

theorem matchNstrict_iff (hw : (32 : UInt8) ∉ w) :
    matchNstrict w m.text = true ↔ w ≠ [] ∧ m.capitals.length ≤ w.length ∧
      (lowered w <+: lowered m.text ∨ lowered m.text <+: lowered w) := by
  rw [matchNstrict, Bool.and_eq_true, AbbrevMask.text, matchNstrictHead_iff m.upper m.lower hw]
  simp

/-- Both functions take exactly the abbreviations of the mask. -/
def MatchesRight (w : Bytes) (m : AbbrevMask) : Prop :=
  (utlMatch w m.text = true ↔ Abbreviates w m) ∧ (matchNstrict w m.text = true ↔ Abbreviates w m)

/-- **Which words both functions get right**: all but the empty word where nothing must be typed,
the front of the capitals, and what goes on behind the whole mask. -/
theorem abbrev_iff (m : AbbrevMask) (w : Bytes) (h0 : (0 : UInt8) ∉ w) (hw : (32 : UInt8) ∉ w) :
    MatchesRight w m ↔
      ¬ (w = [] ∧ m.capitals = []) ∧
      ¬ (w ≠ [] ∧ w.length < m.capitals.length ∧ lowered w <+: lowered m.capitals) ∧
      ¬ (m.text.length < w.length ∧ lowered m.text <+: lowered w) := by
  have htext : m.text.length = m.capitals.length + m.small.length := List.length_append
  have hfront : w.length < m.capitals.length →
      (lowered w <+: lowered m.text ↔ lowered w <+: lowered m.capitals) := by
    intro hlt
    unfold lowered AbbrevMask.text
    rw [List.map_append]
    exact List.isPrefix_append_of_length (by simpa using hlt.le)
  have hle : lowered w <+: lowered m.text → w.length ≤ m.text.length := by
    intro h
    simpa [lowered] using h.length_le
  have hback : lowered m.text <+: lowered w → w.length ≤ m.text.length →
      lowered w <+: lowered m.text := by
    intro h hlen
    rw [h.eq_of_length_le (by simpa [lowered] using hlen)]
  have hnil : w = [] → lowered w <+: lowered m.text := by
    rintro rfl
    exact List.nil_prefix
  rw [MatchesRight, utlMatch_iff h0 hw, matchNstrict_iff hw, Abbreviates]
  rw [← List.length_eq_zero_iff] at hnil
  simp only [ne_eq, ← List.length_eq_zero_iff]
  constructor
  · rintro ⟨hmatch, hnstrict⟩
    refine ⟨?_, ?_, ?_⟩
    · rintro ⟨hw0, hcaps0⟩
      exact (hmatch.mpr ⟨hnil hw0, by omega⟩).1 hw0
    · rintro ⟨hw0, hlt, hpre⟩
      have hshort := hmatch.mp ⟨hw0, by omega, (hfront hlt).mpr hpre⟩
      omega
    · rintro ⟨hlt, hpre⟩
      have hlong := hle (hnstrict.mp ⟨by omega, by omega, .inr hpre⟩).1
      omega
  · rintro ⟨hempty, hshort, hlong⟩
    refine ⟨⟨?_, ?_⟩, ⟨?_, ?_⟩⟩
    · rintro ⟨hw0, -, hpre⟩
      refine ⟨hpre, ?_⟩
      by_contra hlt
      exact hshort ⟨hw0, by omega, (hfront (by omega)).mp hpre⟩
    · rintro ⟨hpre, hcaps⟩
      have hlen := hle hpre
      refine ⟨fun hw0 => hempty ⟨hw0, by omega⟩, ?_, hpre⟩
      intro htext0
      exact hempty ⟨by omega, by omega⟩
    · rintro ⟨-, hcaps, hpre | hpre⟩
      · exact ⟨hpre, hcaps⟩
      · refine ⟨hback hpre ?_, hcaps⟩
        by_contra hlt
        exact hlong ⟨by omega, hpre⟩
    · rintro ⟨hpre, hcaps⟩
      exact ⟨fun hw0 => hempty ⟨hw0, by omega⟩, hcaps, .inl hpre⟩

/-- `SHow`. -/
def showMask : AbbrevMask := ⟨str "SH", str "ow", by simp [str, isUpper], by simp [str, isLower]⟩

theorem abbrev_sho : utlMatch (str "sho") showMask.text = true ∧
    matchNstrict (str "sho") showMask.text = true := by
  have hright := (abbrev_iff showMask (str "sho") (by decide +kernel) (by decide +kernel)).mpr
    ⟨by decide +kernel, by decide +kernel, by decide +kernel⟩
  have habbrev : Abbreviates (str "sho") showMask := ⟨by decide +kernel, by decide +kernel⟩
  exact ⟨hright.1.mpr habbrev, hright.2.mpr habbrev⟩

/-- A word that is too short, and one that is too long. -/
theorem abbrev_differ :
    ¬ MatchesRight (str "s") showMask ∧ ¬ MatchesRight (str "showx") showMask ∧
      utlMatch (str "s") showMask.text ≠ matchNstrict (str "s") showMask.text ∧
      utlMatch (str "showx") showMask.text ≠ matchNstrict (str "showx") showMask.text := by
  refine ⟨fun h => ?_, fun h => ?_, by decide +kernel, by decide +kernel⟩
  · exact absurd (h.1.mp (by decide +kernel)).2 (by decide +kernel)
  · exact absurd (h.2.mp (by decide +kernel)).1 (by decide +kernel)

end Tacppd
