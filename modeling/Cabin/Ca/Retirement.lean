import Cabin.X509.Transparent
import Cabin.Ca.Hierarchy

/-!
# Retirements

When `retire` (`ca/service.py`) refuses.  It refuses if no active issuer remains beside its targets,
and so also if there was none before: a bare root and a cross row cannot be retired then.

* `retire_cases` : how a call for a row ends;
* `retires_well_iff` : the refusals are the right ones if and only if some intermediate is active or the
  row is retired already.
-/

namespace Cabin

open X509 Service

/-- The row may sign leaves. -/
def IsIssuer (r : CaCertificate) : Prop := r.kind = .intermediate ∧ r.status = .active

/-- Retiring `row` stands `r` down: the row itself and, for a root, what it has signed. -/
def Targeted (row r : CaCertificate) : Prop :=
  r.id = row.id ∨ row.kind = .root ∧ r.parentId = some row.id

instance (r : CaCertificate) : Decidable (IsIssuer r) :=
  inferInstanceAs (Decidable (_ ∧ _))

instance (row r : CaCertificate) : Decidable (Targeted row r) :=
  inferInstanceAs (Decidable (_ ∨ _))

/-- Retiring the row would stand down the last of the issuers. -/
structure TakesLastIssuer (t : CaTable) (row : CaCertificate) : Prop where
  active : row.status = .active
  one : ∃ i ∈ t, IsIssuer i ∧ Targeted row i
  all : ∀ i ∈ t, IsIssuer i → Targeted row i

/-- What is expected of retiring a row. -/
structure RetiresWell (E : Crypto) (d : Draw) (t : CaTable) (row : CaCertificate) : Prop where
  /-- It is refused exactly when it would take the last issuer. -/
  refused : (∃ e, retire d t row.id = .error e ∧ e.kind = .retire) ↔ TakesLastIssuer t row
  /-- It is never refused for a cross row. -/
  cross : row.kind = .cross → ∀ e, retire d t row.id = .error e → e.kind ≠ .retire
  /-- An error leaves the table as it was. -/
  unchanged : ∀ e, retire d t row.id = .error e →
    (hierarchy E).step t (.retire row.id, d) = some t
  /-- A retired row is left alone. -/
  again : ∀ t', retire d t row.id = .ok (t', ()) → row.status = .retired → t' = t
  /-- The targets are those of `retire_targets`. -/
  targets : ∀ r ∈ t, r.id ∈ retireTargets t row ↔ Targeted row r
  /-- Exactly the targets are retired. -/
  retired : ∀ t', retire d t row.id = .ok (t', ()) → row.status = .active →
    ∀ x, x ∈ t' ↔ ∃ r ∈ t, (if Targeted row r then { r with status := .retired } else r) = x

variable {E : Crypto} {d : Draw} {t t' : CaTable} {row r : CaCertificate}

theorem mem_retireTargets (hr : r ∈ t) :
    r.id ∈ retireTargets t row ↔ Targeted row r := by
  unfold retireTargets Targeted
  by_cases hkind : row.kind = .root
  · rw [if_neg (not_not.2 hkind)]
    simp only [List.mem_cons, List.mem_map, Table.mem_select, beq_iff_eq, hkind, true_and]
    refine or_congr_right ⟨?_, fun h => ⟨r, ⟨hr, h⟩, rfl⟩⟩
    rintro ⟨x, ⟨hx, hparent⟩, hid⟩
    rwa [← Table.eq_of_key hx hr hid]
  · rw [if_pos hkind]
    simp [hkind]

/-- The issuers beside the targets. -/
theorem remaining_eq_nil (t : CaTable) (row : CaCertificate) :
    (activeIssuers t).filter (fun r => r.id ∉ retireTargets t row) = [] ↔
      ∀ i ∈ t, IsIssuer i → Targeted row i := by
  rw [List.filter_eq_nil_iff]
  constructor
  · intro h i hi hissuer
    have hnot := h i (mem_activeIssuers.2 ⟨hi, hissuer⟩)
    rw [← mem_retireTargets hi]
    simpa using hnot
  · intro h i hi
    obtain ⟨hmem, hissuer⟩ := mem_activeIssuers.1 hi
    simpa using (mem_retireTargets hmem).2 (h i hmem hissuer)

/-- **How a retirement ends.** -/
theorem retire_cases (d : Draw) (hrow : row ∈ t) :
    row.status = .retired ∧ retire d t row.id = .ok (t, ()) ∨
    row.status = .active ∧ (∀ i ∈ t, IsIssuer i → Targeted row i) ∧
      (∃ e, retire d t row.id = .error e ∧ e.kind = .retire) ∨
    row.status = .active ∧ ¬ (∀ i ∈ t, IsIssuer i → Targeted row i) ∧
      ((∃ e, retire d t row.id = .error e ∧ e.kind = .database) ∨
        retire d t row.id = .ok (retireRows t (retireTargets t row), ())) := by
  unfold retire
  rw [getCa_of_mem hrow]
  simp only [bind, Except.bind, refuse]
  cases hstatus : row.status with
  | retired => exact .inl ⟨rfl, rfl⟩
  | active =>
    refine .inr ?_
    rw [if_neg (by decide)]
    by_cases hall : ∀ i ∈ t, IsIssuer i → Targeted row i
    · rw [if_pos ((remaining_eq_nil t row).2 hall)]
      exact .inl ⟨rfl, hall, _, rfl, rfl⟩
    · rw [if_neg ((remaining_eq_nil t row).not.2 hall)]
      refine .inr ⟨rfl, hall, ?_⟩
      by_cases hcommit : d.fault = some .commit
      · exact .inl ⟨⟨.database, "commit failed"⟩,
          by simp [commit, Draw.attempt, refuse, hcommit, bind, Except.bind], rfl⟩
      · exact .inr (by simp [commit, Draw.attempt, refuse, hcommit, bind, Except.bind])

theorem mem_retireRows_targets {x : CaCertificate} :
    x ∈ retireRows t (retireTargets t row) ↔
      ∃ r ∈ t, (if Targeted row r then { r with status := .retired } else r) = x := by
  rw [mem_retireRows]
  constructor <;> rintro ⟨r, hr, rfl⟩ <;> refine ⟨r, hr, ?_⟩ <;>
    simp only [mem_retireTargets hr]

/-- A cross row stands no issuer down. -/
theorem not_targeted_of_cross (hkind : row.kind = .cross) (hrow : row ∈ t) (hr : r ∈ t)
    (hissuer : IsIssuer r) : ¬ Targeted row r := by
  rintro (hid | ⟨hroot, -⟩)
  · obtain rfl := Table.eq_of_key hr hrow hid
    rw [hissuer.1] at hkind
    cases hkind
  · rw [hkind] at hroot
    cases hroot

/-- **When the refusals are right.**  For every row of every table, retiring it is refused exactly if it
would take the last issuer, and otherwise does what it is for, if and only if there is an issuer at all
or the row is retired already. -/
theorem retires_well_iff (E : Crypto) (d : Draw) (t : CaTable) (row : CaCertificate) (hrow : row ∈ t) :
    RetiresWell E d t row ↔ row.status = .retired ∨ ∃ i ∈ t, IsIssuer i := by
  have hcases := retire_cases d hrow
  constructor
  · intro h
    rcases hcases with ⟨hretired, -⟩ | ⟨-, -, hrefused⟩ | ⟨-, hnot, -⟩
    · exact .inl hretired
    · obtain ⟨i, hi, hissuer, -⟩ := (h.refused.1 hrefused).one
      exact .inr ⟨i, hi, hissuer⟩
    · simp only [not_forall, exists_prop] at hnot
      obtain ⟨i, hi, hissuer, -⟩ := hnot
      exact .inr ⟨i, hi, hissuer⟩
  · intro hsome
    have hunchanged : ∀ e, retire d t row.id = .error e →
        (hierarchy E).step t (.retire row.id, d) = some t := by
      intro e he
      simp [hierarchy, HierOp.run, he, Except.map]
    have htargets : ∀ r ∈ t, r.id ∈ retireTargets t row ↔ Targeted row r :=
      fun r hr => mem_retireTargets hr
    rcases hcases with ⟨hretired, hok⟩ | ⟨hactive, hall, e, he, hkind⟩ | ⟨hactive, hnot, hends⟩
    · refine ⟨⟨?_, ?_⟩, ?_, hunchanged, ?_, htargets, ?_⟩
      · rintro ⟨e, he, -⟩
        rw [hok] at he
        cases he
      · intro h
        rw [h.active] at hretired
        cases hretired
      · intro _ e he
        rw [hok] at he
        cases he
      · intro t' h _
        rw [hok] at h
        cases h
        rfl
      · intro t' _ hactive
        rw [hretired] at hactive
        cases hactive
    · obtain ⟨i, hi, hissuer⟩ : ∃ i ∈ t, IsIssuer i := by
        rcases hsome with hretired | h
        · rw [hactive] at hretired
          cases hretired
        · exact h
      refine ⟨⟨fun _ => ⟨hactive, ⟨i, hi, hissuer, hall i hi hissuer⟩, hall⟩, fun _ => ⟨e, he, hkind⟩⟩,
        fun hcross => ?_, hunchanged, fun t' h => ?_, htargets, fun t' h => ?_⟩
      · exact absurd (hall i hi hissuer) (not_targeted_of_cross hcross hrow hi hissuer)
      · rw [he] at h
        cases h
      · rw [he] at h
        cases h
    · have hnever : ∀ e, retire d t row.id = .error e → e.kind ≠ .retire := by
        intro e he hkind
        rcases hends with ⟨e', he', hkind'⟩ | hok
        · rw [he] at he'
          cases he'
          rw [hkind] at hkind'
          cases hkind'
        · rw [hok] at he
          cases he
      refine ⟨⟨?_, fun h => absurd h.all hnot⟩, fun _ => hnever, hunchanged, fun t' _ hretired => ?_,
        htargets, fun t' h _ x => ?_⟩
      · rintro ⟨e, he, hkind⟩
        exact absurd hkind (hnever e he)
      · rw [hactive] at hretired
        cases hretired
      · rcases hends with ⟨e, he, -⟩ | hok
        · rw [he] at h
          cases h
        · rw [hok] at h
          cases h
          exact mem_retireRows_targets

/-- A root with an intermediate. -/
def rootAndIssuer : CaTable :=
  (hierarchy .transparent).final .empty
    [(.createRoot (Str.of "Root") "ecdsa-p256" 20 1, .sample 1),
      (.createIntermediateUnder 1 (Str.of "Issuer") "ecdsa-p256" 10 none, .sample 2)]

/-- Retiring the root of `rootAndIssuer` is refused rightly. -/
theorem retires_well_rootAndIssuer :
    ∃ row ∈ rootAndIssuer, row.kind = .root ∧ RetiresWell .transparent (.sample 3) rootAndIssuer row := by
  obtain ⟨row, hrow, hkind⟩ : ∃ row ∈ rootAndIssuer, row.kind = .root := by decide +kernel
  have hissuer : ∃ i ∈ rootAndIssuer, IsIssuer i := by decide +kernel
  exact ⟨row, hrow, hkind, (retires_well_iff _ _ _ row hrow).2 (.inr hissuer)⟩

/-- Two roots, the first cross-signed by the second. -/
def crossedRoots : CaTable :=
  (hierarchy .transparent).final .empty
    [(.createRoot (Str.of "Old") "ecdsa-p256" 20 1, .sample 1),
      (.createRoot (Str.of "New") "ecdsa-p256" 20 2, .sample 2),
      (.crossSignRoot 1 2 5, .sample 3)]

/-- In `crossedRoots` the cross row cannot be retired. -/
theorem cross_not_retired : ¬ ∀ t, (hierarchy .transparent).Reachable .empty t → ∀ row ∈ t,
    ∀ d, RetiresWell .transparent d t row := by
  intro hall
  obtain ⟨row, hrow, hid, hcross⟩ : ∃ row ∈ crossedRoots, row.id = 3 ∧ row.kind = .cross := by
    decide +kernel
  have hrun : (match retire (.sample 4) crossedRoots 3 with
      | .ok _ => none
      | .error e => some e.kind) = some .retire := by
    decide +kernel
  have hwell := hall crossedRoots (Machine.reachable_final _ _) row hrow (.sample 4)
  cases hretire : retire (.sample 4) crossedRoots 3 with
  | ok x =>
    rw [hretire] at hrun
    cases hrun
  | error e =>
    rw [hretire] at hrun
    exact hwell.cross hcross e (hid ▸ hretire) (Option.some.inj hrun)

end Cabin
