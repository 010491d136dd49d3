import Mathlib.Algebra.Order.Ring.Int
import Mathlib.Data.List.Pairwise
import Mathlib.Tactic.Tauto

/-!
# Tables with a primary key

A `Table ρ` is the content of a database table whose rows `ρ` have a primary key: the rows in the
order of their keys, which is the order `ORDER BY id` returns them in.  That the keys are strictly
increasing is a field of the table, so no two rows of a table share a key.

* `get?` is the lookup by key, `select` a query with a `WHERE` clause;
* `upsert` stores a row under its key, `insert?` is an `INSERT`: it refuses a key that is taken;
* `update` is an `UPDATE … WHERE`: it rewrites the rows a predicate selects and keeps their keys;
* `delete` is a `DELETE … WHERE`;
* `nextId` is the key an auto-increment column hands out next.
-/

namespace Cabin

/-- Rows with a primary key. -/
class Keyed (ρ : Type*) (κ : outParam (Type*)) where
  /-- The primary key of a row. -/
  key : ρ → κ

export Keyed (key)

/-- A table: its rows in the order of their keys. -/
structure Table (ρ : Type*) {κ : Type*} [LinearOrder κ] [Keyed ρ κ] where
  /-- The rows. -/
  rows : List ρ
  /-- The keys are strictly increasing. -/
  sorted : rows.Pairwise fun a b => key a < key b

namespace Table

variable {ρ κ : Type*} [LinearOrder κ] [Keyed ρ κ]

instance : Membership ρ (Table ρ) := ⟨fun t a => a ∈ t.rows⟩

instance [DecidableEq ρ] : DecidableEq (Table ρ) := fun s t =>
  decidable_of_iff (s.rows = t.rows) (by cases s; cases t; simp)

instance (t : Table ρ) (p : ρ → Prop) [DecidablePred p] : Decidable (∃ a ∈ t, p a) :=
  inferInstanceAs (Decidable (∃ a ∈ t.rows, p a))

instance (t : Table ρ) (p : ρ → Prop) [DecidablePred p] : Decidable (∀ a ∈ t, p a) :=
  inferInstanceAs (Decidable (∀ a ∈ t.rows, p a))

/-- The table without rows. -/
def empty : Table ρ := ⟨[], .nil⟩

instance : Inhabited (Table ρ) := ⟨empty⟩

/-- The row with key `k`. -/
def get? (t : Table ρ) (k : κ) : Option ρ := t.rows.find? fun a => key a = k

/-- The rows `p` selects, in key order. -/
def select (t : Table ρ) (p : ρ → Bool) : List ρ := t.rows.filter p

/-- Store `a` under its key. -/
def upsert (t : Table ρ) (a : ρ) : Table ρ where
  rows := (t.rows.filter fun b => key b < key a) ++ a :: t.rows.filter fun b => key a < key b
  sorted := by
    have hl := t.sorted.filter fun b => decide (key b < key a)
    have hr := t.sorted.filter fun b => decide (key a < key b)
    rw [List.pairwise_append, List.pairwise_cons]
    refine ⟨hl, ⟨fun b hb => by simpa using (List.mem_filter.1 hb).2, hr⟩, fun b hb c hc => ?_⟩
    have hb : key b < key a := by simpa using (List.mem_filter.1 hb).2
    rcases List.mem_cons.1 hc with rfl | hc
    · exact hb
    · exact hb.trans (by simpa using (List.mem_filter.1 hc).2)

/-- Store `a` under its key, which must be free. -/
def insert? (t : Table ρ) (a : ρ) : Option (Table ρ) :=
  if (t.get? (key a)).isSome then none else some (t.upsert a)

/-- Rewrite the rows `p` selects by `f`, which keeps their keys. -/
def update (t : Table ρ) (p : ρ → Bool) (f : ρ → ρ) (hf : ∀ a, key (f a) = key a) : Table ρ where
  rows := t.rows.map fun a => if p a then f a else a
  sorted := by
    have hkey : ∀ a, key (if p a then f a else a) = key a := fun a => by split <;> simp [hf]
    rw [List.pairwise_map]
    simpa only [hkey] using t.sorted

/-- Remove the rows `p` selects. -/
def delete (t : Table ρ) (p : ρ → Bool) : Table ρ where
  rows := t.rows.filter fun a => !p a
  sorted := t.sorted.filter _

/-- The next value of an auto-increment key. -/
def nextId {ρ : Type*} [Keyed ρ ℕ] (t : Table ρ) : ℕ := ((t.rows.map key).foldr max 0) + 1

@[ext] theorem ext {s t : Table ρ} (h : s.rows = t.rows) : s = t := by
  cases s; cases t; cases h; rfl

@[simp] theorem mem_rows {t : Table ρ} {a : ρ} : a ∈ t.rows ↔ a ∈ t := Iff.rfl

@[simp] theorem not_mem_empty {a : ρ} : a ∉ (empty : Table ρ) := List.not_mem_nil

theorem eq_of_key {t : Table ρ} {a b : ρ} (ha : a ∈ t) (hb : b ∈ t) (h : key a = key b) :
    a = b := by
  by_contra hab
  have hp : t.rows.Pairwise fun a b => key a ≠ key b := t.sorted.imp fun h => h.ne
  have : Std.Symm fun a b : ρ => key a ≠ key b := ⟨fun _ _ h => h.symm⟩
  exact hp.forall ha hb hab h

theorem get?_eq_some {t : Table ρ} {k : κ} {a : ρ} :
    t.get? k = some a ↔ a ∈ t ∧ key a = k := by
  constructor
  · intro h
    exact ⟨List.mem_of_find?_eq_some h, by simpa using List.find?_some h⟩
  · rintro ⟨ha, rfl⟩
    obtain ⟨b, hb⟩ : ∃ b, t.get? (key a) = some b := by
      rw [← Option.isSome_iff_exists, get?, List.find?_isSome]
      exact ⟨a, ha, by simp⟩
    have hba := List.find?_some hb
    rw [hb, eq_of_key (List.mem_of_find?_eq_some hb) ha (by simpa using hba)]

theorem get?_key {t : Table ρ} {a : ρ} (h : a ∈ t) : t.get? (key a) = some a :=
  get?_eq_some.2 ⟨h, rfl⟩

theorem get?_eq_none {t : Table ρ} {k : κ} : t.get? k = none ↔ ∀ a ∈ t, key a ≠ k := by
  simp [get?]

@[simp] theorem mem_select {t : Table ρ} {p : ρ → Bool} {a : ρ} :
    a ∈ t.select p ↔ a ∈ t ∧ p a = true := List.mem_filter

theorem select_sorted (t : Table ρ) (p : ρ → Bool) :
    (t.select p).Pairwise fun a b => key a < key b := t.sorted.filter p

@[simp] theorem mem_upsert {t : Table ρ} {a b : ρ} :
    b ∈ t.upsert a ↔ b = a ∨ b ∈ t ∧ key b ≠ key a := by
  have h : b ∈ t.upsert a ↔ (b ∈ t ∧ key b < key a) ∨ b = a ∨ b ∈ t ∧ key a < key b := by
    change b ∈ (t.upsert a).rows ↔ _
    simp [upsert]
  rw [h, ne_iff_lt_or_gt]
  tauto

/-- A column stays unique with a row whose value is new. -/
theorem unique_upsert {β : Type*} {column : ρ → β} {t : Table ρ} {a : ρ}
    (h : ∀ x ∈ t, ∀ y ∈ t, column x = column y → x = y) (hnew : ∀ x ∈ t, column x ≠ column a) :
    ∀ x ∈ t.upsert a, ∀ y ∈ t.upsert a, column x = column y → x = y := by
  intro x hx' y hy' hxy
  rcases mem_upsert.1 hx' with rfl | ⟨hx, -⟩
  · rcases mem_upsert.1 hy' with rfl | ⟨hy, -⟩
    · rfl
    · exact absurd hxy.symm (hnew y hy)
  · rcases mem_upsert.1 hy' with rfl | ⟨hy, -⟩
    · exact absurd hxy (hnew x hx)
    · exact h x hx y hy hxy

theorem insert?_eq_some {t t' : Table ρ} {a : ρ} :
    t.insert? a = some t' ↔ (∀ b ∈ t, key b ≠ key a) ∧ t' = t.upsert a := by
  unfold insert?
  split_ifs with h
  · obtain ⟨b, hb⟩ := Option.isSome_iff_exists.1 h
    obtain ⟨hmem, hkey⟩ := get?_eq_some.1 hb
    exact ⟨(nomatch ·), fun ⟨hfree, _⟩ => absurd hkey (hfree b hmem)⟩
  · have hnone : t.get? (key a) = none := by simpa using h
    exact ⟨fun he => ⟨get?_eq_none.1 hnone, (Option.some.inj he).symm⟩, fun ⟨_, he⟩ => by rw [he]⟩

theorem mem_insert? {t t' : Table ρ} {a b : ρ} (h : t.insert? a = some t') :
    b ∈ t' ↔ b = a ∨ b ∈ t := by
  obtain ⟨hfree, rfl⟩ := insert?_eq_some.1 h
  rw [mem_upsert]
  exact or_congr_right ⟨And.left, fun hb => ⟨hb, hfree b hb⟩⟩

theorem get?_upsert {t : Table ρ} {a : ρ} {k : κ} :
    (t.upsert a).get? k = if k = key a then some a else t.get? k := by
  split_ifs with hk
  · subst hk
    exact get?_eq_some.2 ⟨by simp, rfl⟩
  · cases h : t.get? k with
    | none =>
      rw [get?_eq_none] at h ⊢
      intro b hb
      rcases mem_upsert.1 hb with rfl | ⟨hb, -⟩
      · exact fun he => hk he.symm
      · exact h b hb
    | some b =>
      obtain ⟨hb, rfl⟩ := get?_eq_some.1 h
      exact get?_eq_some.2 ⟨mem_upsert.2 (.inr ⟨hb, hk⟩), rfl⟩

@[simp] theorem mem_update {t : Table ρ} {p : ρ → Bool} {f : ρ → ρ}
    {hf : ∀ a, key (f a) = key a} {b : ρ} :
    b ∈ t.update p f hf ↔ ∃ a ∈ t, (if p a then f a else a) = b := List.mem_map

@[simp] theorem mem_delete {t : Table ρ} {p : ρ → Bool} {a : ρ} :
    a ∈ t.delete p ↔ a ∈ t ∧ p a = false := by
  change a ∈ (t.delete p).rows ↔ _
  simp [delete]

theorem delete_eq_self {t : Table ρ} {p : ρ → Bool} (h : ∀ a ∈ t, p a = false) : t.delete p = t :=
  Table.ext (List.filter_eq_self.2 fun a ha => by simp [h a ha])

theorem get?_delete {t : Table ρ} {p : ρ → Bool} {k : κ} {a : ρ} (h : t.get? k = some a)
    (hp : p a = false) : (t.delete p).get? k = some a := by
  obtain ⟨ha, hk⟩ := get?_eq_some.1 h
  exact get?_eq_some.2 ⟨mem_delete.2 ⟨ha, hp⟩, hk⟩

/-- What a query finds if none of it has been deleted. -/
theorem select_delete {t : Table ρ} {p q : ρ → Bool} (h : ∀ a ∈ t, q a = true → p a = false) :
    (t.delete p).select q = t.select q := by
  simp only [select, delete, List.filter_filter]
  refine List.filter_congr fun a ha => ?_
  cases hq : q a with
  | false => rfl
  | true => simp [h a ha hq]

/-- The first row a query finds, if it has not been deleted. -/
theorem head?_select_delete {t : Table ρ} {p q : ρ → Bool} {a : ρ} (h : (t.select q).head? = some a)
    (hp : p a = false) : ((t.delete p).select q).head? = some a := by
  obtain ⟨rest, hrest⟩ := List.head?_eq_some_iff.1 h
  have hselect : (t.delete p).select q = (t.select q).filter fun a => !p a := by
    simp only [select, delete, List.filter_filter]
    exact List.filter_congr fun a _ => Bool.and_comm _ _
  rw [hselect, hrest, List.filter_cons_of_pos (by simp [hp])]
  rfl

theorem get?_update {t : Table ρ} {p : ρ → Bool} {f : ρ → ρ} {hf : ∀ a, key (f a) = key a}
    {k : κ} :
    (t.update p f hf).get? k = (t.get? k).map fun a => if p a then f a else a := by
  have hkey : ∀ a, key (if p a then f a else a) = key a := fun a => by split <;> simp [hf]
  cases h : t.get? k with
  | none =>
    rw [Option.map_none, get?_eq_none]
    rintro b hb
    obtain ⟨a, ha, rfl⟩ := mem_update.1 hb
    rw [hkey]
    exact get?_eq_none.1 h a ha
  | some a =>
    obtain ⟨ha, rfl⟩ := get?_eq_some.1 h
    exact get?_eq_some.2 ⟨mem_update.2 ⟨a, ha, rfl⟩, hkey a⟩

/-- What a query finds after an update that leaves its condition alone. -/
theorem select_update {t : Table ρ} {p q : ρ → Bool} {f : ρ → ρ} {hf : ∀ a, key (f a) = key a}
    (hq : ∀ a, q (f a) = q a) :
    (t.update p f hf).select q = (t.select q).map fun a => if p a then f a else a := by
  have hcomp : (q ∘ fun a => if p a then f a else a) = q := by
    funext a
    simp only [Function.comp_apply]
    split_ifs
    · exact hq a
    · rfl
  simp [update, select, List.filter_map, hcomp]

/-- Whether a statement on one row counts the row. -/
theorem length_select_eq_one {t : Table ρ} {p : ρ → Bool}
    (hp : ∀ a b, p a = true → p b = true → key a = key b) :
    (t.select p).length = 1 ↔ ∃ a ∈ t, p a = true := by
  constructor
  · intro h
    obtain ⟨a, ha⟩ := List.length_eq_one_iff.1 h
    have hmem : a ∈ t.select p := ha ▸ List.mem_cons_self
    exact ⟨a, mem_select.1 hmem⟩
  · rintro ⟨a, ha, hpa⟩
    have hmem : a ∈ t.select p := mem_select.2 ⟨ha, hpa⟩
    have hsorted := t.select_sorted p
    rcases hl : t.select p with _ | ⟨b, _ | ⟨c, rest⟩⟩
    · rw [hl] at hmem
      cases hmem
    · rfl
    · -- Two rows would have two keys.
      have hb : b ∈ t.select p := hl ▸ List.mem_cons_self
      have hc : c ∈ t.select p := hl ▸ List.mem_cons_of_mem _ List.mem_cons_self
      rw [hl, List.pairwise_cons] at hsorted
      have hlt := hsorted.1 c List.mem_cons_self
      have heq := hp b c (mem_select.1 hb).2 (mem_select.1 hc).2
      exact absurd heq hlt.ne

/-- A statement that finds no row changes nothing. -/
theorem update_eq_self {t : Table ρ} {p : ρ → Bool} {f : ρ → ρ} {hf : ∀ a, key (f a) = key a}
    (h : ∀ a ∈ t, p a = false) : t.update p f hf = t := by
  have hid : ∀ a ∈ t.rows, (if p a then f a else a) = id a := fun a ha => by simp [h a ha]
  exact Table.ext ((List.map_congr_left hid).trans (List.map_id _))

theorem lt_nextId {ρ : Type*} [Keyed ρ ℕ] {t : Table ρ} {a : ρ} (h : a ∈ t) :
    key a < t.nextId := by
  have : ∀ l : List ℕ, key a ∈ l → key a ≤ l.foldr max 0 := by
    intro l hl
    induction l with
    | nil => cases hl
    | cons x xs ih =>
      rcases List.mem_cons.1 hl with rfl | hl
      · exact le_max_left _ _
      · exact (ih hl).trans (le_max_right _ _)
  exact Nat.lt_succ_of_le (this _ (List.mem_map_of_mem h))

/-- A row with the next key goes to the end. -/
theorem rows_upsert_nextId {ρ : Type*} [Keyed ρ ℕ] {t : Table ρ} {a : ρ} (h : key a = t.nextId) :
    (t.upsert a).rows = t.rows ++ [a] := by
  have hlt : ∀ b ∈ t.rows, key b < key a := fun b hb => h ▸ lt_nextId hb
  have hl : (t.rows.filter fun b => key b < key a) = t.rows :=
    List.filter_eq_self.2 fun b hb => by simpa using hlt b hb
  have hr : (t.rows.filter fun b => key a < key b) = [] :=
    List.filter_eq_nil_iff.2 fun b hb => by simpa using (hlt b hb).le
  simp only [upsert, hl, hr]

end Table

end Cabin
