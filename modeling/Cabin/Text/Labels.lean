import Mathlib.Data.List.Infix
import Cabin.Text.Basic

/-!
# Labels

A text is cut at a separator into its labels, and is nothing but its labels with the separator between
them.  So a text ends in the separator and another text exactly if the labels of the one end in those
of the other (`splitAt_isSuffix`).
-/

namespace Cabin

namespace Str

variable {sep : ℕ} {s t p q : Str}

theorem splitAt_ne_nil : splitAt sep s ≠ [] := by
  cases s with
  | nil => simp [splitAt]
  | cons x xs =>
    unfold splitAt
    split_ifs
    · simp
    · split <;> simp

theorem exists_splitAt_eq_cons (sep : ℕ) (s : Str) : ∃ p ps, splitAt sep s = p :: ps :=
  List.exists_cons_of_ne_nil splitAt_ne_nil

theorem splitAt_cons_of_ne {x : ℕ} {ps : List Str} (hx : x ≠ sep) (h : splitAt sep s = p :: ps) :
    splitAt sep (x :: s) = (x :: p) :: ps := by
  rw [splitAt, if_neg hx, h]

/-- What stands before the first separator belongs to the first label. -/
theorem splitAt_append_of_notMem {ps : List Str} (hq : sep ∉ q) (h : splitAt sep s = p :: ps) :
    splitAt sep (q ++ s) = (q ++ p) :: ps := by
  induction q with
  | nil => exact h
  | cons x q ih =>
    rw [List.mem_cons, not_or] at hq
    exact splitAt_cons_of_ne (Ne.symm hq.1) (ih hq.2)

theorem splitAt_of_notMem (h : sep ∉ s) : splitAt sep s = [s] := by
  have hnil : splitAt sep [] = [[]] := rfl
  simpa using splitAt_append_of_notMem h hnil

/-- The labels on both sides of a separator. -/
theorem splitAt_append : splitAt sep (s ++ sep :: t) = splitAt sep s ++ splitAt sep t := by
  induction s with
  | nil => simp [splitAt]
  | cons x s ih =>
    by_cases hx : x = sep
    · simp [splitAt, hx, ih]
    · obtain ⟨p, ps, hp⟩ := exists_splitAt_eq_cons sep s
      have hrest : splitAt sep (s ++ sep :: t) = p :: (ps ++ splitAt sep t) := by
        rw [ih, hp, List.cons_append]
      rw [List.cons_append, splitAt_cons_of_ne hx hp, splitAt_cons_of_ne hx hrest, List.cons_append]

/-- A further character belongs to the last label. -/
theorem splitAt_concat {x : ℕ} (hx : x ≠ sep) (s : Str) : ∃ ps p,
    splitAt sep s = ps ++ [p] ∧ splitAt sep (s ++ [x]) = ps ++ [p ++ [x]] := by
  induction s with
  | nil => exact ⟨[], [], rfl, by simp [splitAt, hx]⟩
  | cons y s ih =>
    obtain ⟨ps, p, hs, hsx⟩ := ih
    by_cases hy : y = sep
    · exact ⟨[] :: ps, p, by simp [splitAt, hy, hs], by simp [splitAt, hy, hsx]⟩
    · cases ps with
      | nil => exact ⟨[], y :: p, splitAt_cons_of_ne hy hs, splitAt_cons_of_ne hy hsx⟩
      | cons q qs => exact ⟨(y :: q) :: qs, p, splitAt_cons_of_ne hy hs, splitAt_cons_of_ne hy hsx⟩

/-- A text is its labels with the separator between them. -/
theorem intercalate_splitAt (sep : ℕ) (s : Str) : [sep].intercalate (splitAt sep s) = s := by
  induction s with
  | nil => simp [splitAt]
  | cons x s ih =>
    obtain ⟨p, ps, hp⟩ := exists_splitAt_eq_cons sep s
    rw [hp] at ih
    by_cases hx : x = sep
    · rw [splitAt, if_pos hx, hp, List.intercalate_cons_cons, ih, hx]
      rfl
    · rw [splitAt_cons_of_ne hx hp]
      cases ps with
      | nil => simpa using ih
      | cons r rs =>
        rw [List.intercalate_cons_cons] at ih ⊢
        rw [List.cons_append, List.cons_append, ih]

theorem splitAt_injective (sep : ℕ) {s t : Str} (h : splitAt sep s = splitAt sep t) : s = t := by
  rw [← intercalate_splitAt sep s, h, intercalate_splitAt]

/-- **A text ends in the separator and `t`, or is `t`, exactly if its labels end in those of `t`.** -/
theorem splitAt_isSuffix : splitAt sep t <:+ splitAt sep s ↔ s = t ∨ sep :: t <:+ s := by
  constructor
  · intro h
    induction s with
    | nil =>
      left
      refine splitAt_injective sep (h.eq_of_length ?_).symm
      have hle := h.length_le
      have hpos : 0 < (splitAt sep t).length := List.length_pos_iff.2 splitAt_ne_nil
      simp only [splitAt, List.length_singleton] at hle ⊢
      omega
    | cons x s ih =>
      by_cases hx : x = sep
      · rw [splitAt, if_pos hx, List.suffix_cons_iff] at h
        rcases h with h | h
        · left
          refine splitAt_injective sep ?_
          rw [splitAt, if_pos hx, h]
        · right
          rcases ih h with rfl | hs
          · rw [hx]
          · exact hs.trans (List.suffix_cons x s)
      · obtain ⟨p, ps, hp⟩ := exists_splitAt_eq_cons sep s
        rw [splitAt_cons_of_ne hx hp, List.suffix_cons_iff] at h
        rcases h with h | h
        · left
          refine splitAt_injective sep ?_
          rw [splitAt_cons_of_ne hx hp, h]
        · right
          rcases ih (hp ▸ h.trans (List.suffix_cons p ps)) with rfl | hs
          · -- The labels of `t` would be fewer than they are.
            have hle := h.length_le
            rw [hp, List.length_cons] at hle
            omega
          · exact hs.trans (List.suffix_cons x s)
  · rintro (rfl | ⟨u, rfl⟩)
    · exact List.suffix_rfl
    · rw [splitAt_append]
      exact List.suffix_append _ _

/-- A character has a full stop in its lower case if it is one. -/
theorem dot_notMem_lowerChar {c : ℕ} (h : c ≠ 0x2E) : 0x2E ∉ lowerChar c := by
  intro hmem
  rcases eq_or_of_mem_lowerChar hmem with hc | hc | hc
  · exact h hc.symm
  · omega
  · omega

/-- The labels of the lower case of a name. -/
theorem splitAt_lower (s : Str) : splitAt 0x2E (lower s) = (splitAt 0x2E s).map lower := by
  induction s with
  | nil => rfl
  | cons x s ih =>
    have hlower : lower (x :: s) = lowerChar x ++ lower s := by simp [lower]
    by_cases hx : x = 0x2E
    · subst hx
      rw [hlower, splitAt, if_pos rfl, List.map_cons, ← ih]
      simp [lowerChar, splitAt, lower]
    · obtain ⟨p, ps, hp⟩ := exists_splitAt_eq_cons 0x2E s
      rw [hp, List.map_cons] at ih
      rw [hlower, splitAt_append_of_notMem (dot_notMem_lowerChar hx) ih, splitAt_cons_of_ne hx hp]
      simp [lower]

end Str

end Cabin
