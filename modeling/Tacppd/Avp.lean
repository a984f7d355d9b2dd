/-
# Attribute-value pairs

An AVP is a text `attribute=value` or `attribute*value`.  `Tacacs.cc` looks at it
through five small functions of `TacacsServerAuthorization`; here they are, and
what `match_attr` decides: both texts have a separator and the same attribute
before it (`matchAttr_iff`).
-/
import Tacppd.Bytes

namespace Tacppd

/-- The two separators, `=` and `*`. -/
def isSep (c : UInt8) : Bool := c == 61 || c == 42

/-- `optional`: there is a `*` in the text. -/
def optional (s : Bytes) : Bool := s.any (· == 42)

/-- `mandatory`: there is a `=` in the text. -/
def mandatory (s : Bytes) : Bool := s.any (· == 61)

/-- `match_attr`: walk through both texts up to a separator in both. -/
def matchAttr : Bytes → Bytes → Bool
  | c1 :: str1, c2 :: str2 =>
    if isSep c1 && isSep c2 then true
    else if c1 ≠ c2 then false
    else matchAttr str1 str2
  | _, _ => false

/-- `match_value`: compare from the first separator on. -/
def matchValue (str1 str2 : Bytes) : Bool :=
  scomp (str1.dropWhile (!isSep ·)) (str2.dropWhile (!isSep ·))

/-- `get_value`: what follows the first separator. -/
def getValue (s : Bytes) : Bytes := (s.dropWhile (!isSep ·)).tail

/-! ## The attribute of a text -/

/-- The text before the first separator, nothing without a separator. -/
def attrOf : Bytes → Option Bytes
  | [] => none
  | c :: s => if isSep c then some [] else (attrOf s).map (c :: ·)

@[simp] theorem attrOf_nil : attrOf [] = none := rfl

theorem attrOf_cons_sep {c : UInt8} {s : Bytes} (h : isSep c = true) :
    attrOf (c :: s) = some [] := by
  rw [attrOf, if_pos h]

theorem attrOf_cons_of_not_sep {c : UInt8} {s : Bytes} (h : isSep c = false) :
    attrOf (c :: s) = (attrOf s).map (c :: ·) := by
  rw [attrOf, h, if_neg Bool.false_ne_true]

/-- `match_attr` holds of two texts with one attribute. -/
theorem matchAttr_iff (s t : Bytes) :
    matchAttr s t = true ↔ ∃ a, attrOf s = some a ∧ attrOf t = some a := by
  induction s generalizing t with
  | nil => simp [matchAttr]
  | cons c1 s ih =>
    cases t with
    | nil => simp [matchAttr]
    | cons c2 t =>
      rw [matchAttr]
      cases h1 : isSep c1 <;> cases h2 : isSep c2
      · -- no separator yet: the bytes must agree and the rest decides
        rw [attrOf_cons_of_not_sep h1, attrOf_cons_of_not_sep h2]
        by_cases hc : c1 = c2
        · subst hc
          simp [ih]
        · refine iff_of_false (by simp [hc]) ?_
          rintro ⟨a, hs, ht⟩
          obtain ⟨b, -, rfl⟩ := Option.map_eq_some_iff.mp hs
          obtain ⟨b', -, heq⟩ := Option.map_eq_some_iff.mp ht
          exact hc (List.head_eq_of_cons_eq heq).symm
      · have hne : c1 ≠ c2 := by
          rintro rfl
          simp_all
        rw [attrOf_cons_of_not_sep h1, attrOf_cons_sep h2]
        simp [hne]
      · have hne : c1 ≠ c2 := by
          rintro rfl
          simp_all
        rw [attrOf_cons_sep h1, attrOf_cons_of_not_sep h2]
        simp [hne]
      · rw [attrOf_cons_sep h1, attrOf_cons_sep h2]
        simp

theorem matchAttr_comm (s t : Bytes) : matchAttr s t = matchAttr t s := by
  rw [Bool.eq_iff_iff, matchAttr_iff, matchAttr_iff]
  simp only [and_comm]

theorem matchAttr_trans {s t u : Bytes} (h1 : matchAttr s t = true) (h2 : matchAttr t u = true) :
    matchAttr s u = true := by
  obtain ⟨a, hs, ht⟩ := (matchAttr_iff s t).mp h1
  obtain ⟨b, ht', hu⟩ := (matchAttr_iff t u).mp h2
  rw [ht] at ht'
  exact (matchAttr_iff s u).mpr ⟨a, hs, by rw [hu, ht']⟩

/-- A text with a `=` has an attribute. -/
theorem attrOf_isSome_of_mandatory {s : Bytes} (h : mandatory s = true) :
    (attrOf s).isSome = true := by
  induction s with
  | nil => simp [mandatory] at h
  | cons c s ih =>
    cases hc : isSep c with
    | true => simp [attrOf_cons_sep hc]
    | false =>
      rw [attrOf_cons_of_not_sep hc, Option.isSome_map]
      refine ih ?_
      simp only [mandatory, List.any_cons, Bool.or_eq_true] at h ⊢
      rcases h with h | h
      · simp_all [isSep]
      · exact h

/-- A text with a `=` matches itself. -/
theorem matchAttr_self {s : Bytes} (h : mandatory s = true) : matchAttr s s = true := by
  obtain ⟨a, ha⟩ := Option.isSome_iff_exists.mp (attrOf_isSome_of_mandatory h)
  exact (matchAttr_iff s s).mpr ⟨a, ha, ha⟩

/-! ## The first separator -/

def firstSep (s : Bytes) : Option UInt8 := s.find? isSep

theorem mandatory_iff {s : Bytes} : mandatory s = true ↔ (61 : UInt8) ∈ s := by
  simp [mandatory]

theorem optional_iff {s : Bytes} : optional s = true ↔ (42 : UInt8) ∈ s := by
  simp [optional]

theorem isSep_iff {c : UInt8} : isSep c = true ↔ c = 61 ∨ c = 42 := by
  simp [isSep]

/-- The first separator is one that stands in the text. -/
theorem of_firstSep {s : Bytes} {c : UInt8} (h : firstSep s = some c) :
    c ∈ s ∧ (c = 61 ∨ c = 42) :=
  ⟨List.mem_of_find?_eq_some h, isSep_iff.mp (List.find?_some h)⟩

/-- Where one of the two stands alone it is the first. -/
theorem firstSep_of_mem {s : Bytes} {c d : UInt8} (hsep : ∀ x, isSep x = true ↔ x = c ∨ x = d)
    (hc : c ∈ s) (hd : d ∉ s) : firstSep s = some c := by
  have hsome : (firstSep s).isSome = true :=
    List.find?_isSome.mpr ⟨c, hc, (hsep c).mpr (.inl rfl)⟩
  obtain ⟨x, hx⟩ := Option.isSome_iff_exists.mp hsome
  rcases (hsep x).mp (List.find?_some hx) with rfl | rfl
  · exact hx
  · exact absurd (List.mem_of_find?_eq_some hx) hd

/-- What the three predicates are to say of a text: which of the two separators is its first, and
of two texts whether they have one and the same attribute. -/
structure Classified (s : Bytes) : Prop where
  apart : ¬ (mandatory s = true ∧ optional s = true)
  mandatory : mandatory s = true ↔ firstSep s = some 61
  optional : optional s = true ↔ firstSep s = some 42
  attr : ∀ t, matchAttr s t = true ↔ ∃ a, attrOf s = some a ∧ attrOf t = some a

theorem mandatory_right_iff (s : Bytes) :
    (mandatory s = true ↔ firstSep s = some 61) ↔ ¬ (firstSep s = some 42 ∧ (61 : UInt8) ∈ s) := by
  rw [mandatory_iff]
  constructor
  · rintro h ⟨hfirst, hmem⟩
    rw [h.mp hmem] at hfirst
    exact absurd (Option.some.inj hfirst) (by decide)
  · intro h
    refine ⟨fun hmem => ?_, fun hfirst => (of_firstSep hfirst).1⟩
    obtain ⟨x, hx⟩ : ∃ x, firstSep s = some x := Option.isSome_iff_exists.mp
      (List.find?_isSome.mpr ⟨61, hmem, rfl⟩)
    rcases (of_firstSep hx).2 with rfl | rfl
    · exact hx
    · exact absurd ⟨hx, hmem⟩ h

/-- **The classification**: it is right exactly for the texts without one of the two separators.
`mandatory` alone also is for those with a `*` behind the first `=`, and `match_attr` for all. -/
theorem avp_classified_iff (s : Bytes) :
    (Classified s ↔ ¬ ((61 : UInt8) ∈ s ∧ (42 : UInt8) ∈ s)) ∧
    ((mandatory s = true ↔ firstSep s = some 61) ↔
      ¬ (firstSep s = some 42 ∧ (61 : UInt8) ∈ s)) ∧
    ∀ t, matchAttr s t = true ↔ ∃ a, attrOf s = some a ∧ attrOf t = some a := by
  refine ⟨⟨?_, ?_⟩, mandatory_right_iff s, matchAttr_iff s⟩
  · rintro h ⟨heq, hstar⟩
    exact h.apart ⟨mandatory_iff.mpr heq, optional_iff.mpr hstar⟩
  · intro h
    constructor
    · exact fun hboth => h ⟨mandatory_iff.mp hboth.1, optional_iff.mp hboth.2⟩
    · rw [mandatory_right_iff]
      exact fun hfirst => h ⟨hfirst.2, (of_firstSep hfirst.1).1⟩
    · rw [optional_iff]
      refine ⟨fun hstar => ?_, fun hfirst => (of_firstSep hfirst).1⟩
      apply firstSep_of_mem ?_ hstar fun heq => h ⟨heq, hstar⟩
      intro x
      rw [isSep_iff, or_comm]
    · exact matchAttr_iff s

/-- A mandatory value with a star, and an optional one with a sign of equality. -/
theorem avp_misclassified :
    ¬ Classified (str "route=*") ∧ ¬ Classified (str "addr*a=b") := by
  constructor
  · exact fun h => h.apart (by decide +kernel)
  · exact fun h => absurd (h.mandatory.mp (by decide +kernel)) (by decide +kernel)

end Tacppd
