import Mathlib.Data.List.Infix
import Mathlib.Data.List.TakeWhile

/-!
# Texts within texts

Where a list stands within another.  A map `f` writes each element as a list; most are written as
themselves, `f a = [a]`, and the others are the marks of a list.

* `infix_flatMap_of_padded` : between lists without marks, a list with a mark is found only in what is
  written of it;
* `exists_page` : each element is on some page.
-/

namespace Cabin

variable {α : Type*} {f : α → List α} {m w y : List α}

/-- All that stands within a list. -/
theorem mem_infixes : m ∈ w.tails.flatMap List.inits ↔ m <:+: w := by
  simp only [List.mem_flatMap, List.mem_tails, List.mem_inits, List.infix_iff_prefix_suffix]
  exact exists_congr fun _ => And.comm

/-! ### Marks -/

/-- Elements written as themselves. -/
theorem flatMap_eq_self (h : ∀ a ∈ m, f a = [a]) : m.flatMap f = m := by
  induction m with
  | nil => rfl
  | cons a m ih =>
    rw [List.flatMap_cons, h a List.mem_cons_self, ih fun b hb => h b (List.mem_cons_of_mem a hb)]
    rfl

section marks

variable [DecidableEq α]

variable (f) in
/-- What stands in front of the first mark. -/
def lead (m : List α) : List α := m.takeWhile fun a => f a = [a]

theorem mem_lead {a : α} (h : a ∈ lead f m) : f a = [a] := by
  simpa using List.mem_takeWhile_imp h

/-- Nothing is written in front of that. -/
theorem lead_prefix_flatMap (m : List α) : lead f m <+: m.flatMap f := by
  induction m with
  | nil => exact List.nil_prefix
  | cons a m ih =>
    unfold lead at ih ⊢
    rw [List.takeWhile_cons]
    split_ifs with ha
    · rw [List.flatMap_cons, of_decide_eq_true ha]
      exact List.cons_prefix_cons.2 ⟨rfl, ih⟩
    · exact List.nil_prefix

/-- A list that begins with one that has a mark begins with the same. -/
theorem lead_eq_of_prefix (hmark : ∃ a ∈ m, f a ≠ [a]) (h : m <+: w) : lead f w = lead f m := by
  obtain ⟨rest, rfl⟩ := h
  unfold lead
  rw [List.takeWhile_append, if_neg]
  intro hlength
  obtain ⟨a, ha, hne⟩ := hmark
  have hall : m.takeWhile (fun a => decide (f a = [a])) = m :=
    (List.takeWhile_prefix _).eq_of_length hlength
  rw [← hall] at ha
  exact hne (mem_lead ha)

/-- In front of a text, nothing without marks helps to find a list with a mark. -/
theorem infix_of_append_left {front : List α} (hfront : ∀ a ∈ front, f a = [a])
    (hmark : ∃ a ∈ m, f a ≠ [a]) (hlead : lead f m <+: y) (h : m <:+: front ++ y) : m <:+: y := by
  induction front with
  | nil => exact h
  | cons a front ih =>
    rw [List.cons_append, List.infix_cons_iff] at h
    rcases h with hprefix | hsub
    · exfalso
      -- The mark comes sooner in the list than behind the front.
      have hlong : lead f m = a :: front ++ lead f y := by
        rw [← lead_eq_of_prefix hmark hprefix, ← List.cons_append]
        exact List.takeWhile_append_of_pos fun b hb => decide_eq_true (hfront b hb)
      obtain ⟨rest, rfl⟩ := hlead
      have hshort : lead f (lead f m ++ rest) = lead f m ++ lead f rest :=
        List.takeWhile_append_of_pos fun b hb => decide_eq_true (mem_lead hb)
      rw [hshort] at hlong
      have hlength := congrArg List.length hlong
      simp only [List.length_append, List.length_cons] at hlength
      omega
    · exact ih (fun b hb => hfront b (List.mem_cons_of_mem a hb)) hsub

/-- The same behind a text. -/
theorem infix_of_append_right {back : List α} (hback : ∀ a ∈ back, f a = [a])
    (hmark : ∃ a ∈ m, f a ≠ [a]) (hlead : lead f m.reverse <+: y.reverse) (h : m <:+: y ++ back) :
    m <:+: y := by
  rw [← List.reverse_infix] at h ⊢
  rw [List.reverse_append] at h
  refine infix_of_append_left (fun a ha => hback a (List.mem_reverse.1 ha)) ?_ hlead h
  obtain ⟨a, ha, hne⟩ := hmark
  exact ⟨a, List.mem_reverse.2 ha, hne⟩

/-- **Between lists without marks**, a list with a mark is found only in what is written of it. -/
theorem infix_flatMap_of_padded {front back : List α} (hfront : ∀ a ∈ front, f a = [a])
    (hback : ∀ a ∈ back, f a = [a]) (hmark : ∃ a ∈ m, f a ≠ [a])
    (h : m <:+: front ++ m.flatMap f ++ back) : m <:+: m.flatMap f := by
  rw [List.append_assoc] at h
  have hright := infix_of_append_left hfront hmark ((lead_prefix_flatMap m).trans (List.prefix_append _ back)) h
  refine infix_of_append_right hback hmark ?_ hright
  have hreverse : (m.flatMap f).reverse = m.reverse.flatMap fun a => (f a).reverse := List.reverse_flatMap
  have hsame : lead f m.reverse = lead (fun a => (f a).reverse) m.reverse := by
    unfold lead
    congr 1
    funext a
    rw [decide_eq_decide]
    constructor
    · exact fun ha => congrArg List.reverse ha
    · exact fun ha => List.reverse_injective ha
  rw [hreverse, hsame]
  exact lead_prefix_flatMap m.reverse

end marks

/-! ### Pages -/

/-- Each element is on one of the pages. -/
theorem exists_page {a : α} {l : List α} (ha : a ∈ l) {pages size : ℕ} (hl : l.length ≤ pages * size) :
    ∃ k < pages, a ∈ (l.drop (k * size)).take size := by
  obtain ⟨i, hi, rfl⟩ := List.getElem_of_mem ha
  have hlt : i < size * pages := by
    rw [Nat.mul_comm]
    exact hi.trans_le hl
  have hsize : 0 < size := Nat.pos_of_ne_zero fun hzero => by simp [hzero] at hlt
  have hrest := Nat.mod_lt i hsize
  have hsplit := Nat.div_add_mod' i size
  refine ⟨i / size, Nat.div_lt_of_lt_mul hlt, List.mem_iff_getElem.2 ⟨i % size, ?_, ?_⟩⟩
  · simp only [List.length_take, List.length_drop]
    omega
  · simp only [List.getElem_take, List.getElem_drop, hsplit]

end Cabin
