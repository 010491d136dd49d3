import Cabin.Text.Case

/-!
# The tables of Unicode

Lower case and normal form KC of texts beyond ASCII.  The tables come from the standard, so they are
parameters, `Unicode`, and what is relied on is said in `Unicode.Lawful`.

A character goes to lower case by itself, but for the capital sigma, which has two lower cases: `Lowered`
says that each character of a text has become one of its lower cases.
-/

namespace Cabin

/-- The tables of the standard. -/
structure Unicode where
  /-- The lower cases of a character. -/
  lowerings : ℕ → List Str
  /-- `str.lower`. -/
  lower : Str → Str
  /-- `unicodedata.normalize` to the form KC. -/
  nfkc : Str → Str

namespace Unicode

/-- The characters that tell the parts of a URL apart. -/
def delimiters : Str := Str.of "/?#@:"

variable (U : Unicode)

/-- Each character of a text has become one of its lower cases. -/
inductive Lowered : Str → Str → Prop
  | nil : Lowered [] []
  | cons {c : ℕ} {p s t : Str} : p ∈ U.lowerings c → Lowered s t → Lowered (c :: s) (p ++ t)

/-- What the standard says of the tables. -/
structure Lawful : Prop where
  lowered : ∀ s, U.Lowered s (U.lower s)
  lower_lower : ∀ s, U.lower (U.lower s) = U.lower s
  ascii : ∀ c < 128, U.lowerings c = [[Str.asciiLowerChar c]]
  /-- No other character becomes anything in ASCII but lower case letters. -/
  other : ∀ c, 128 ≤ c → ∀ p ∈ U.lowerings c, p ≠ [] ∧ ∀ x ∈ p, 128 ≤ x ∨ (0x61 ≤ x ∧ x ≤ 0x7A)
  space : ∀ c, ∀ p ∈ U.lowerings c, ∀ x ∈ p, Str.isSpace x = true → Str.isSpace c = true
  /-- Delimiters are not composed with anything. -/
  nfkc_mem : ∀ d ∈ delimiters, ∀ s, d ∈ U.nfkc s ↔ ∃ c ∈ s, d ∈ U.nfkc [c]
  nfkc_ascii : ∀ c < 128, U.nfkc [c] = [c]
  nfkc_lowering : ∀ d ∈ delimiters, ∀ c, ∀ p ∈ U.lowerings c, ∀ x ∈ p, d ∈ U.nfkc [x] → d ∈ U.nfkc [c]

variable {U} {s t : Str}

/-- The tables as far as ASCII texts need them. -/
def ascii : Unicode where
  lowerings c := [[Str.asciiLowerChar c]]
  lower := Str.asciiLower
  nfkc := id

theorem lowered_asciiLower (s : Str) : ascii.Lowered s (Str.asciiLower s) := by
  induction s with
  | nil => exact .nil
  | cons c s ih => exact .cons (List.mem_singleton_self _) ih

theorem asciiLowerChar_idem (c : ℕ) :
    Str.asciiLowerChar (Str.asciiLowerChar c) = Str.asciiLowerChar c := by
  unfold Str.asciiLowerChar
  split_ifs <;> omega

/-- A change of case makes no delimiter and no white space. -/
theorem eq_of_asciiLowerChar {c d : ℕ} (h : Str.asciiLowerChar c = d) (hd : ¬ (0x61 ≤ d ∧ d ≤ 0x7A)) :
    c = d := by
  unfold Str.asciiLowerChar at h
  split_ifs at h <;> omega

theorem not_letter_of_isSpace {d : ℕ} (h : Str.isSpace d = true) : ¬ (0x61 ≤ d ∧ d ≤ 0x7A) := by
  simp only [Str.isSpace, Bool.or_eq_true, Bool.and_eq_true, decide_eq_true_eq, beq_iff_eq] at h
  omega

theorem not_letter_of_delimiter {d : ℕ} (h : d ∈ delimiters) : ¬ (0x61 ≤ d ∧ d ≤ 0x7A) := by
  revert d
  decide

theorem lawful_ascii : ascii.Lawful where
  lowered := lowered_asciiLower
  lower_lower s := by
    simp only [ascii, Str.asciiLower, List.map_map]
    exact List.map_congr_left fun c _ => asciiLowerChar_idem c
  ascii _ _ := rfl
  other c hc p hp := by
    obtain rfl := List.mem_singleton.1 hp
    refine ⟨List.cons_ne_nil _ _, fun x hx => ?_⟩
    obtain rfl := List.mem_singleton.1 hx
    unfold Str.asciiLowerChar
    split_ifs <;> omega
  space c p hp x hx hspace := by
    obtain rfl := List.mem_singleton.1 hp
    obtain rfl := List.mem_singleton.1 hx
    rwa [eq_of_asciiLowerChar rfl (not_letter_of_isSpace hspace)]
  nfkc_mem d _ s := by simp [ascii]
  nfkc_ascii _ _ := rfl
  nfkc_lowering d hd c p hp x hx hmem := by
    obtain rfl := List.mem_singleton.1 hp
    obtain rfl := List.mem_singleton.1 hx
    obtain rfl := List.mem_singleton.1 hmem
    exact List.mem_singleton.2 (eq_of_asciiLowerChar rfl (not_letter_of_delimiter hd)).symm

/-! ### What a change of case keeps -/

/-- An ASCII character that is no letter is in the lower case only where it is in the text. -/
theorem Lowered.mem_iff (hU : U.Lawful) (h : U.Lowered s t) {d : ℕ} (hd : d < 128)
    (hletter : ¬ (0x41 ≤ d ∧ d ≤ 0x5A)) (hlower : ¬ (0x61 ≤ d ∧ d ≤ 0x7A)) : d ∈ t ↔ d ∈ s := by
  induction h with
  | nil => exact Iff.rfl
  | @cons c p s t hp _ ih =>
    rw [List.mem_append, List.mem_cons, ih]
    refine or_congr_left ?_
    by_cases hc : c < 128
    · rw [hU.ascii c hc, List.mem_singleton] at hp
      subst hp
      rw [List.mem_singleton]
      unfold Str.asciiLowerChar
      split_ifs <;> omega
    · obtain ⟨-, hother⟩ := hU.other c (not_lt.1 hc) p hp
      refine iff_of_false (fun hmem => ?_) (by omega)
      rcases hother d hmem with h | h <;> omega

theorem Lowered.isSpace (hU : U.Lawful) (h : U.Lowered s t) (hs : ∀ c ∈ s, Str.isSpace c = false) :
    ∀ x ∈ t, Str.isSpace x = false := by
  induction h with
  | nil => exact hs
  | @cons c p s t hp _ ih =>
    intro x hx
    rcases List.mem_append.1 hx with hx | hx
    · rw [← Bool.not_eq_true]
      intro hspace
      have hc := hU.space c p hp x hx hspace
      rw [hs c List.mem_cons_self] at hc
      cases hc
    · exact ih (fun c hc => hs c (List.mem_cons_of_mem _ hc)) x hx

theorem Lowered.eq_nil_iff (hU : U.Lawful) (h : U.Lowered s t) : t = [] ↔ s = [] := by
  cases h with
  | nil => exact Iff.rfl
  | @cons c p s t hp _ =>
    refine iff_of_false (fun hnil => ?_) (List.cons_ne_nil _ _)
    obtain ⟨rfl, -⟩ := List.append_eq_nil_iff.1 hnil
    by_cases hc : c < 128
    · rw [hU.ascii c hc] at hp
      cases List.mem_singleton.1 hp
    · exact (hU.other c (not_lt.1 hc) [] hp).1 rfl

/-- An ASCII text has only one lower case. -/
theorem Lowered.eq_of_isAscii (hU : U.Lawful) (h : U.Lowered s t) (hs : ∀ c ∈ s, c < 128) :
    t = Str.asciiLower s := by
  induction h with
  | nil => rfl
  | @cons c p s t hp _ ih =>
    rw [hU.ascii c (hs c List.mem_cons_self), List.mem_singleton] at hp
    rw [hp, ih fun c hc => hs c (List.mem_cons_of_mem _ hc)]
    rfl

/-- ASCII letters are in lower case there. -/
theorem Lowered.asciiLower_eq (hU : U.Lawful) (h : U.Lowered s t) : Str.asciiLower t = t := by
  refine (List.map_congr_left fun x hx => ?_).trans (List.map_id _)
  induction h with
  | nil => cases hx
  | @cons c p s t hp _ ih =>
    rcases List.mem_append.1 hx with hx | hx
    · by_cases hc : c < 128
      · rw [hU.ascii c hc, List.mem_singleton] at hp
        subst hp
        rw [List.mem_singleton.1 hx]
        exact asciiLowerChar_idem c
      · have hother := (hU.other c (not_lt.1 hc) p hp).2 x hx
        rw [Str.asciiLowerChar, if_neg (by omega), id]
    · exact ih hx

theorem Lowered.length_le (hU : U.Lawful) (h : U.Lowered s t) : s.length ≤ t.length := by
  induction h with
  | nil => exact Nat.le_refl _
  | @cons c p s t hp _ ih =>
    have hpos : 0 < p.length := by
      rw [List.length_pos_iff]
      by_cases hc : c < 128
      · rw [hU.ascii c hc, List.mem_singleton] at hp
        rw [hp]
        exact List.cons_ne_nil _ _
      · exact (hU.other c (not_lt.1 hc) p hp).1
    simp only [List.length_cons, List.length_append]
    omega

/-- A lower case in ASCII without letters is the text. -/
theorem Lowered.eq_of_other (hU : U.Lawful) (h : U.Lowered s t)
    (ht : ∀ x ∈ t, x < 128 ∧ ¬ (0x61 ≤ x ∧ x ≤ 0x7A)) : s = t := by
  induction h with
  | nil => rfl
  | @cons c p s t hp _ ih =>
    have hsame := ih fun x hx => ht x (List.mem_append_right p hx)
    by_cases hc : c < 128
    · rw [hU.ascii c hc, List.mem_singleton] at hp
      subst hp
      have hx := ht _ (List.mem_append_left t (List.mem_singleton_self _))
      have heq : Str.asciiLowerChar c = c := by
        unfold Str.asciiLowerChar at hx ⊢
        split_ifs at hx ⊢ <;> omega
      rw [heq, hsame]
      rfl
    · obtain ⟨hne, hother⟩ := hU.other c (not_lt.1 hc) p hp
      obtain ⟨x, hx⟩ := List.exists_mem_of_ne_nil p hne
      have hletter := ht x (List.mem_append_left t hx)
      have hrange := hother x hx
      omega

/-- The lower case of two texts in a row. -/
theorem Lowered.append_inv {a b : Str} (h : U.Lowered (a ++ b) t) :
    ∃ a' b', U.Lowered a a' ∧ U.Lowered b b' ∧ t = a' ++ b' := by
  induction a generalizing t with
  | nil => exact ⟨[], t, .nil, h, rfl⟩
  | cons c a ih =>
    cases h with
    | cons hp h =>
      obtain ⟨a', b', ha, hb, rfl⟩ := ih h
      exact ⟨_, b', .cons hp ha, hb, (List.append_assoc _ _ _).symm⟩

/-- A character that is no letter stays where it is. -/
theorem Lowered.cons_inv (hU : U.Lawful) {d : ℕ} (hd : d < 128) (hletter : ¬ (0x41 ≤ d ∧ d ≤ 0x5A))
    (h : U.Lowered (d :: s) t) : ∃ t', U.Lowered s t' ∧ t = d :: t' := by
  cases h with
  | cons hp h =>
    rw [hU.ascii d hd, List.mem_singleton] at hp
    subst hp
    refine ⟨_, h, ?_⟩
    rw [Str.asciiLowerChar, if_neg hletter]
    rfl

/-- No delimiter comes out of the normal form of a lower case that does not come out of the text's. -/
theorem Lowered.nfkc (hU : U.Lawful) (h : U.Lowered s t) {d : ℕ} (hd : d ∈ delimiters) {x : ℕ} (hx : x ∈ t)
    (hlarge : 128 ≤ x) (hmem : d ∈ U.nfkc [x]) : ∃ c ∈ s, 128 ≤ c ∧ d ∈ U.nfkc [c] := by
  induction h with
  | nil => cases hx
  | @cons c p s t hp _ ih =>
    rcases List.mem_append.1 hx with hx | hx
    · refine ⟨c, List.mem_cons_self, not_lt.1 fun hc => ?_, hU.nfkc_lowering d hd c p hp x hx hmem⟩
      rw [hU.ascii c hc, List.mem_singleton] at hp
      subst hp
      rw [List.mem_singleton] at hx
      unfold Str.asciiLowerChar at hx
      split_ifs at hx <;> omega
    · obtain ⟨c', hc', hlarge', hmem'⟩ := ih hx
      exact ⟨c', List.mem_cons_of_mem _ hc', hlarge', hmem'⟩

end Unicode

end Cabin
