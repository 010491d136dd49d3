import Mathlib.Data.List.Sort
import Cabin.Text.Dumps

/-!
# Sorted keys

`json.dumps(…, sort_keys=True)` writes the members of every object in the order of their names.  The text is the
same for values that are equal, and for no others: it is read back as a value with the same members.

* `Json.sortKeys` is the value that is written;
* `Json.sortKeys_eq_iff` : it is the same for two values if and only if they are equal;
* `Json.dumps_sortKeys_inj` : so is its text.
-/

namespace Cabin

namespace Json

mutual

/-- The value with the members of all its objects in the order of their names. -/
def sortKeys : Json → Json
  | null => null
  | bool b => bool b
  | num text => num text
  | str s => str s
  | arr items => arr (sortItems items)
  | obj members => obj ((sortMembers members).mergeSort fun m n => m.1 ≤ n.1)

/-- The same of the items of an array. -/
def sortItems : List Json → List Json
  | [] => []
  | v :: vs => v.sortKeys :: sortItems vs

/-- The same of the values of members. -/
def sortMembers : List (Str × Json) → List (Str × Json)
  | [] => []
  | (name, v) :: rest => (name, v.sortKeys) :: sortMembers rest

end

section written

variable {depth : ℕ} {items : List Json} {members ms ns : List (Str × Json)}

theorem sortMembers_eq_map (members : List (Str × Json)) :
    sortMembers members = members.map fun m => (m.1, m.2.sortKeys) := by
  induction members with
  | nil => rfl
  | cons m ms ih => rw [sortMembers, ih, List.map_cons]

theorem names_sortMembers (members : List (Str × Json)) :
    (sortMembers members).map Prod.fst = members.map Prod.fst := by
  rw [sortMembers_eq_map, List.map_map]
  rfl

theorem writtenMembers_iff : WrittenMembers depth members ↔ ∀ m ∈ members, IsText m.1 ∧ Written depth m.2 := by
  induction members with
  | nil => simp [WrittenMembers]
  | cons m ms ih =>
    unfold WrittenMembers
    rw [ih, List.forall_mem_cons, and_assoc]

theorem writtenItems_iff : WrittenItems depth items ↔ ∀ v ∈ items, Written depth v := by
  induction items with
  | nil => simp [WrittenItems]
  | cons v vs ih =>
    unfold WrittenItems
    rw [ih, List.forall_mem_cons]

theorem WrittenMembers.perm (h : WrittenMembers depth ms) (hperm : ns.Perm ms) : WrittenMembers depth ns :=
  writtenMembers_iff.2 fun m hm => writtenMembers_iff.1 h m (hperm.mem_iff.1 hm)

mutual

/-- Sorting the names leaves a value one that is read back. -/
theorem written_sortKeys : ∀ {v : Json} {depth : ℕ}, Written depth v → Written depth v.sortKeys
  | null, _, h => h
  | bool _, _, h => h
  | num _, _, h => h
  | str _, _, h => h
  | arr items, depth, h => by
    unfold Written at h
    rw [sortKeys]
    unfold Written
    exact ⟨h.1, written_sortItems h.2⟩
  | obj members, depth, h => by
    unfold Written at h
    have hperm := List.mergeSort_perm (sortMembers members) fun m n => m.1 ≤ n.1
    rw [sortKeys]
    unfold Written
    refine ⟨h.1, ?_, (written_sortMembers h.2.2).perm hperm⟩
    rw [(hperm.map _).nodup_iff, names_sortMembers]
    exact h.2.1

theorem written_sortItems : ∀ {items : List Json} {depth : ℕ}, WrittenItems depth items →
    WrittenItems depth (sortItems items)
  | [], _, h => h
  | v :: vs, depth, h => by
    unfold WrittenItems at h
    rw [sortItems]
    unfold WrittenItems
    exact ⟨written_sortKeys h.1, written_sortItems h.2⟩

theorem written_sortMembers : ∀ {members : List (Str × Json)} {depth : ℕ}, WrittenMembers depth members →
    WrittenMembers depth (sortMembers members)
  | [], _, h => h
  | (name, v) :: rest, depth, h => by
    unfold WrittenMembers at h
    rw [sortMembers]
    unfold WrittenMembers
    exact ⟨h.1, written_sortKeys h.2.1, written_sortMembers h.2.2⟩

end

end written

/-! ### Equal values -/

section same

variable {depth : ℕ} {members ms ns : List (Str × Json)}

/-- In the order of their names, members with distinct names are determined by which they are. -/
theorem mergeSort_eq_iff (hms : (ms.map Prod.fst).Nodup) :
    (ms.mergeSort fun m n => m.1 ≤ n.1) = (ns.mergeSort fun m n => m.1 ≤ n.1) ↔ ms.Perm ns := by
  have hperm := List.mergeSort_perm ms fun m n => m.1 ≤ n.1
  have hperm' := List.mergeSort_perm ns fun m n => m.1 ≤ n.1
  refine ⟨fun h => hperm.symm.trans (h ▸ hperm'), fun h => ?_⟩
  have hsorted : ∀ l : List (Str × Json), (l.mergeSort fun m n => m.1 ≤ n.1).Pairwise fun m n => m.1 ≤ n.1 := by
    intro l
    have htrans : ∀ a b c : Str × Json, decide (a.1 ≤ b.1) = true → decide (b.1 ≤ c.1) = true →
        decide (a.1 ≤ c.1) = true := fun a b c hab hbc =>
      decide_eq_true ((of_decide_eq_true hab).trans (of_decide_eq_true hbc))
    have htotal : ∀ a b : Str × Json, (decide (a.1 ≤ b.1) || decide (b.1 ≤ a.1)) = true := fun a b => by
      simpa using le_total a.1 b.1
    exact (List.pairwise_mergeSort htrans htotal l).imp of_decide_eq_true
  refine (hperm.trans (h.trans hperm'.symm)).eq_of_pairwise (fun m n hm hn hle hge => ?_) (hsorted ms) (hsorted ns)
  exact List.inj_on_of_nodup_map hms (hperm.mem_iff.1 hm) (h.mem_iff.2 (hperm'.mem_iff.1 hn)) (le_antisymm hle hge)

theorem lookup_eq_some_iff (h : (members.map Prod.fst).Nodup) {name : Str} {v : Json} :
    members.lookup name = some v ↔ (name, v) ∈ members := by
  induction members with
  | nil => simp
  | cons m ms ih =>
    obtain ⟨name', v'⟩ := m
    rw [List.map_cons, List.nodup_cons] at h
    rw [List.lookup_cons, List.mem_cons]
    by_cases hname : name = name'
    · subst hname
      have hnot : (name, v) ∉ ms := fun hmem => h.1 (List.mem_map.2 ⟨_, hmem, rfl⟩)
      simp [hnot, eq_comm]
    · have hbeq : (name == name') = false := beq_eq_false_iff_ne.2 hname
      rw [hbeq, ih h.2]
      simp [hname]

mutual

/-- **Two values are equal if and only if they are the same with their names sorted.** -/
theorem sortKeys_eq_iff : ∀ {v w : Json} {depth : ℕ}, Written depth v → Written depth w →
    (v.sortKeys = w.sortKeys ↔ v.same w = true)
  | null, w, _, _, _ => by cases w <;> simp [sortKeys, same]
  | bool b, w, _, _, _ => by cases w <;> simp [sortKeys, same]
  | num t, w, _, _, _ => by cases w <;> simp [sortKeys, same]
  | str s, w, _, _, _ => by cases w <;> simp [sortKeys, same]
  | arr xs, w, depth, hv, hw => by
    cases w with
    | arr ys =>
      unfold Written at hv hw
      rw [sortKeys, sortKeys, arr.injEq, same]
      exact sortItems_eq_iff hv.2 hw.2
    | null | bool | num | str | obj => simp [sortKeys, same]
  | obj ms, w, depth, hv, hw => by
    cases w with
    | obj ns =>
      unfold Written at hv hw
      have hms : ((sortMembers ms).map Prod.fst).Nodup := by
        rw [names_sortMembers]
        exact hv.2.1
      have hlength : ∀ l : List (Str × Json), (sortMembers l).length = l.length := fun l => by
        rw [sortMembers_eq_map, List.length_map]
      rw [sortKeys, sortKeys, obj.injEq, mergeSort_eq_iff hms, same, Bool.and_eq_true, beq_iff_eq,
        ← subset_sortMembers_iff hv.2.2 hw.2.1 hw.2.2]
      constructor
      · intro h
        exact ⟨by rw [← hlength ms, ← hlength ns, h.length_eq], h.subset⟩
      · rintro ⟨hlen, hsub⟩
        exact (List.subperm_of_subset (List.Nodup.of_map Prod.fst hms) hsub).perm_of_length_le (by rw [hlength, hlength, hlen])
    | null | bool | num | str | arr => simp [sortKeys, same]

theorem sortItems_eq_iff : ∀ {xs ys : List Json} {depth : ℕ}, WrittenItems depth xs → WrittenItems depth ys →
    (sortItems xs = sortItems ys ↔ sameItems xs ys = true)
  | [], [], _, _, _ => by simp [sortItems, sameItems]
  | [], y :: ys, _, _, _ => by simp [sortItems, sameItems]
  | x :: xs, [], _, _, _ => by simp [sortItems, sameItems]
  | x :: xs, y :: ys, depth, hx, hy => by
    unfold WrittenItems at hx hy
    rw [sortItems, sortItems, List.cons.injEq, sameItems, Bool.and_eq_true, sortKeys_eq_iff hx.1 hy.1,
      sortItems_eq_iff hx.2 hy.2]

theorem subset_sortMembers_iff : ∀ {ms ns : List (Str × Json)} {depth : ℕ}, WrittenMembers depth ms →
    (ns.map Prod.fst).Nodup → WrittenMembers depth ns →
    (sortMembers ms ⊆ sortMembers ns ↔ sameMembers ms ns = true)
  | [], ns, _, _, _, _ => by simp [sortMembers, sameMembers]
  | (name, v) :: ms, ns, depth, hms, hnodup, hns => by
    unfold WrittenMembers at hms
    rw [sortMembers, List.cons_subset, sameMembers, Bool.and_eq_true, subset_sortMembers_iff hms.2.2 hnodup hns,
      sortMembers_eq_map ns, List.mem_map, Option.any_eq_true]
    refine and_congr_left fun _ => ⟨?_, ?_⟩
    · rintro ⟨⟨name', w⟩, hmem, heq⟩
      obtain ⟨rfl, hkeys⟩ := Prod.mk.inj heq
      exact ⟨w, (lookup_eq_some_iff hnodup).2 hmem,
        (sortKeys_eq_iff hms.2.1 (writtenMembers_iff.1 hns _ hmem).2).1 hkeys.symm⟩
    · rintro ⟨w, hlookup, hsame⟩
      have hmem := (lookup_eq_some_iff hnodup).1 hlookup
      have hkeys := (sortKeys_eq_iff hms.2.1 (writtenMembers_iff.1 hns _ hmem).2).2 hsame
      exact ⟨(name, w), hmem, by rw [hkeys]⟩

end

variable {v w : Json}

/-- What is read is the value with its names sorted. -/
theorem loads_dumps_sortKeys (h : Written depth v) : loads depth v.sortKeys.dumps = .ok v.sortKeys :=
  loads_dumps_of_written (written_sortKeys h)

/-- **Values have the same text if and only if they are equal.** -/
theorem dumps_sortKeys_inj (hv : Written depth v) (hw : Written depth w) :
    v.sortKeys.dumps = w.sortKeys.dumps ↔ v.same w = true := by
  rw [← sortKeys_eq_iff hv hw]
  refine ⟨fun h => ?_, fun h => by rw [h]⟩
  have hread := loads_dumps_sortKeys hv
  rw [h, loads_dumps_sortKeys hw] at hread
  exact (Except.ok.inj hread).symm

end same

end Json

end Cabin
