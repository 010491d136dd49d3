import Cabin.Text.Basic

/-!
# Lines

What `str.splitlines` and a join with line feeds do to each other.

* `isLineBreak_of_mem_splitLines` : no line has a line break in it;
* `splitLines_intercalate` : lines that are joined are the lines of the text.
-/

namespace Cabin

namespace Str

variable {line s : Str}

theorem splitLinesFrom_cons {c : ℕ} (h : isLineBreak c = false) (rest : Str) :
    splitLinesFrom line (c :: rest) = splitLinesFrom (line ++ [c]) rest := by
  have hreturn : c ≠ 0x0D := by
    rintro rfl
    exact absurd h (by decide)
  rw [splitLinesFrom.eq_3 line c rest fun _ hc => absurd hc hreturn, h, if_neg Bool.false_ne_true]

/-- What has no line break belongs to the line that has begun. -/
theorem splitLinesFrom_append (h : ∀ c ∈ s, isLineBreak c = false) (rest : Str) :
    splitLinesFrom line (s ++ rest) = splitLinesFrom (line ++ s) rest := by
  induction s generalizing line with
  | nil => rw [List.nil_append, List.append_nil]
  | cons c s ih =>
    rw [List.cons_append, splitLinesFrom_cons (h c List.mem_cons_self),
      ih fun x hx => h x (List.mem_cons_of_mem c hx), List.append_assoc, List.singleton_append]

theorem splitLinesFrom_lineFeed (rest : Str) :
    splitLinesFrom line (0x0A :: rest) = line :: splitLinesFrom [] rest := by
  rw [splitLinesFrom.eq_def]
  rfl

/-- **Lines that are joined are the lines of the text**, if none is empty and none has a line break. -/
theorem splitLines_intercalate {ls : List Str} (hne : ∀ l ∈ ls, l ≠ [])
    (h : ∀ l ∈ ls, ∀ c ∈ l, isLineBreak c = false) : splitLines ([0x0A].intercalate ls) = ls := by
  induction ls with
  | nil => rfl
  | cons l ls ih =>
    have hl := h l List.mem_cons_self
    cases ls with
    | nil =>
      rw [List.intercalate_singleton, splitLines, ← List.append_nil l, splitLinesFrom_append hl, splitLinesFrom,
        List.nil_append, List.append_nil, if_neg (hne l List.mem_cons_self)]
    | cons l' ls =>
      have hrest := ih (fun x hx => hne x (List.mem_cons_of_mem l hx)) fun x hx => h x (List.mem_cons_of_mem l hx)
      rw [List.intercalate_cons_cons, splitLines, List.append_assoc, splitLinesFrom_append hl, List.singleton_append,
        splitLinesFrom_lineFeed, List.nil_append]
      exact congrArg (l :: ·) hrest

theorem isLineBreak_of_mem_splitLinesFrom (hline : ∀ c ∈ line, isLineBreak c = false) :
    ∀ l ∈ splitLinesFrom line s, ∀ c ∈ l, isLineBreak c = false := by
  induction line, s using splitLinesFrom.induct with
  | case1 => simp [splitLinesFrom]
  | case2 line hne =>
    rw [splitLinesFrom, if_neg hne]
    exact List.forall_mem_singleton.2 hline
  | case3 line rest ih =>
    rw [splitLinesFrom]
    exact List.forall_mem_cons.2 ⟨hline, ih fun _ hc => absurd hc List.not_mem_nil⟩
  | case4 line c rest hpair hbreak ih =>
    rw [splitLinesFrom.eq_3 line c rest hpair, if_pos hbreak]
    exact List.forall_mem_cons.2 ⟨hline, ih fun _ hc => absurd hc List.not_mem_nil⟩
  | case5 line c rest hpair hbreak ih =>
    rw [splitLinesFrom.eq_3 line c rest hpair, if_neg hbreak]
    refine ih fun x hx => ?_
    rcases List.mem_append.1 hx with hx | hx
    · exact hline x hx
    · exact List.mem_singleton.1 hx ▸ Bool.eq_false_iff.2 hbreak

/-- No line has a line break in it. -/
theorem isLineBreak_of_mem_splitLines {l : Str} (hl : l ∈ splitLines s) : ∀ c ∈ l, isLineBreak c = false :=
  isLineBreak_of_mem_splitLinesFrom (fun _ hc => absurd hc List.not_mem_nil) l hl

end Str

end Cabin
