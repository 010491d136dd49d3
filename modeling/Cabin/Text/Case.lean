import Cabin.Text.Labels

/-!
# Case

Lower case, for ASCII letters only and as `str.lower` has it.  One letter beyond ASCII, the Kelvin sign,
has an ASCII letter as its lower case; so a text whose lower case is ASCII is one of ASCII and Kelvin
signs.

* `lower_eq_iff`: what has an ASCII text as its lower case;
* `SameDigits`: a change of characters that no number and no separator can tell.
-/

namespace Cabin

namespace Str

/-- The lower case of an ASCII letter. -/
def asciiLowerChar (c : ℕ) : ℕ := if 0x41 ≤ c ∧ c ≤ 0x5A then c + 0x20 else c

/-- ASCII letters in lower case. -/
def asciiLower (s : Str) : Str := s.map asciiLowerChar

/-- The Kelvin sign. -/
def kelvin : ℕ := 0x212A

/-- The lower case of an ASCII letter or a Kelvin sign. -/
def kelvinLowerChar (c : ℕ) : ℕ := if c = kelvin then 0x6B else asciiLowerChar c

/-- ASCII letters and Kelvin signs in lower case. -/
def kelvinLower (s : Str) : Str := s.map kelvinLowerChar

variable {s v : Str}

theorem kelvinLower_of_notMem (h : kelvin ∉ s) : kelvinLower s = asciiLower s := by
  refine List.map_congr_left fun c hc => ?_
  rw [kelvinLowerChar, if_neg]
  rintro rfl
  exact h hc

/-- A Kelvin sign stays where only ASCII letters are changed. -/
theorem isAscii_asciiLower (h : kelvin ∈ s) : (asciiLower s).isAscii = false := by
  have hmem : kelvin ∈ asciiLower s := List.mem_map.2 ⟨kelvin, h, rfl⟩
  exact List.all_eq_false.2 ⟨kelvin, hmem, by decide⟩

theorem lowerChar_eq {c : ℕ} (h : c ≠ 0x130) : lowerChar c = [kelvinLowerChar c] := by
  unfold lowerChar kelvinLowerChar asciiLowerChar kelvin
  split_ifs <;> first | rfl | omega

/-- **What has an ASCII text as its lower case.**  The lower case of the dotted capital I is not ASCII. -/
theorem lower_eq_iff (hv : v.isAscii = true) : lower s = v ↔ kelvinLower s = v := by
  induction s generalizing v with
  | nil => exact Iff.rfl
  | cons c s ih =>
    have hcons : lower (c :: s) = lowerChar c ++ lower s := rfl
    have hcons' : kelvinLower (c :: s) = kelvinLowerChar c :: kelvinLower s := rfl
    rw [hcons, hcons']
    by_cases hc : c = 0x130
    · subst hc
      constructor
      · rintro rfl
        simp [isAscii, lowerChar] at hv
      · rintro rfl
        simp [isAscii, kelvinLowerChar, asciiLowerChar, kelvin] at hv
    · rw [lowerChar_eq hc]
      cases v with
      | nil => simp
      | cons x v =>
        have hv' : isAscii v = true := by
          unfold isAscii at hv ⊢
          rw [List.all_cons, Bool.and_eq_true] at hv
          exact hv.2
        simp only [List.singleton_append, List.cons.injEq]
        exact and_congr_right fun _ => ih hv'

/-- Lower case twice is lower case. -/
theorem asciiLower_lower (s : Str) : asciiLower (lower s) = lower s := by
  refine (List.map_congr_left fun x hx => ?_).trans (List.map_id _)
  obtain ⟨c, hc, hx⟩ := mem_lower.1 hx
  have hnot : ¬ (0x41 ≤ x ∧ x ≤ 0x5A) := by
    unfold lowerChar at hx
    split_ifs at hx <;> simp at hx <;> omega
  rw [asciiLowerChar, if_neg hnot, id]

theorem asciiLower_isAscii (h : s.isAscii = true) : (asciiLower s).isAscii = true := by
  refine List.all_eq_true.2 fun x hx => decide_eq_true ?_
  obtain ⟨c, hc, rfl⟩ := List.mem_map.1 hx
  have hlt : c < 128 := of_decide_eq_true (List.all_eq_true.1 h c hc)
  unfold asciiLowerChar
  split_ifs <;> omega

/-- In an ASCII text there is nothing else to change. -/
theorem lower_of_isAscii (h : s.isAscii = true) : lower s = asciiLower s := by
  refine (lower_eq_iff (asciiLower_isAscii h)).2 (kelvinLower_of_notMem fun hmem => ?_)
  have hlt : kelvin < 128 := of_decide_eq_true (List.all_eq_true.1 h _ hmem)
  revert hlt
  decide

theorem lower_lower_of_isAscii (h : s.isAscii = true) : lower (lower s) = lower s := by
  rw [lower_of_isAscii h, lower_of_isAscii (asciiLower_isAscii h), ← lower_of_isAscii h, asciiLower_lower]

/-! ### Numbers and separators -/

/-- The change leaves digits and separators alone, makes none, and keeps the value of every hexadecimal
digit. -/
structure SameDigits (f : ℕ → ℕ) : Prop where
  digit : ∀ c, isDigit c = true → f c = c
  isDigit : ∀ c, isDigit (f c) = isDigit c
  hexValue : ∀ c, hexValue? (f c) = hexValue? c
  separator : ∀ sep ∈ of ".:%/", ∀ c, f c = sep ↔ c = sep

theorem sameDigits_asciiLowerChar : SameDigits asciiLowerChar where
  digit c h := by
    simp only [Str.isDigit, Bool.and_eq_true, decide_eq_true_eq] at h
    rw [asciiLowerChar, if_neg (by omega)]
  isDigit c := by
    unfold asciiLowerChar
    split_ifs with h
    · rw [Bool.eq_iff_iff]
      simp only [Str.isDigit, Bool.and_eq_true, decide_eq_true_eq]
      omega
    · rfl
  hexValue c := by
    unfold asciiLowerChar hexValue? Str.isDigit
    simp only [Bool.and_eq_true, decide_eq_true_eq]
    split_ifs <;> first | rfl | omega
  separator sep hsep c := by
    unfold asciiLowerChar
    have hlt : sep < 0x41 := by revert sep; decide
    split_ifs <;> omega

theorem sameDigits_kelvinLowerChar : SameDigits kelvinLowerChar where
  digit c h := by
    have hne : c ≠ kelvin := by rintro rfl; cases h
    rw [kelvinLowerChar, if_neg hne, sameDigits_asciiLowerChar.digit c h]
  isDigit c := by
    unfold kelvinLowerChar
    split_ifs with h
    · subst h
      rfl
    · exact sameDigits_asciiLowerChar.isDigit c
  hexValue c := by
    unfold kelvinLowerChar
    split_ifs with h
    · subst h
      rfl
    · exact sameDigits_asciiLowerChar.hexValue c
  separator sep hsep c := by
    unfold kelvinLowerChar
    split_ifs with h
    · subst h
      revert sep
      decide
    · exact sameDigits_asciiLowerChar.separator sep hsep c

theorem splitAt_map {f : ℕ → ℕ} {sep : ℕ} (h : ∀ c, f c = sep ↔ c = sep) (s : Str) :
    splitAt sep (s.map f) = (splitAt sep s).map (List.map f) := by
  induction s with
  | nil => rfl
  | cons c s ih =>
    rw [List.map_cons]
    unfold splitAt
    by_cases hc : c = sep
    · rw [if_pos ((h c).2 hc), if_pos hc, ih, List.map_cons, List.map_nil]
    · obtain ⟨p, ps, hp⟩ := exists_splitAt_eq_cons sep s
      rw [if_neg (mt (h c).1 hc), if_neg hc, ih, hp]
      rfl

theorem mem_map_iff {f : ℕ → ℕ} {sep : ℕ} (h : ∀ c, f c = sep ↔ c = sep) : sep ∈ s.map f ↔ sep ∈ s := by
  simp [h]

end Str

end Cabin
