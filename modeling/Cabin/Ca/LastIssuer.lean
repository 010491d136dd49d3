import Cabin.Store.Atomic
import Cabin.X509.Transparent
import Cabin.Ca.Hierarchy

/-!
# The last active issuer

`retire` (`ca/service.py`) refuses to stand down the last active issuer.  It looks for the issuers
that would remain, and then writes: between the two, another call can commit.

* `RetirePc.act` is the program of a call, `retireCalls` any number of calls at once;
* `retire_alone` : a call that is alone does what `Service.retire` says;
* `active_issuer_remains` : an issuer remains in every run in which the refusal still does not apply
  when a call writes (`RetireSafe`);
* `last_issuers_retired` : a run in which none remains.
-/

namespace Cabin

open X509 Service

/-- Where a call of `retire` is. -/
inductive RetirePc where
  /-- About to load the row. -/
  | load (caId : ℕ)
  /-- About to look for what a root has signed. -/
  | children (row : CaCertificate)
  /-- About to look for the issuers that remain. -/
  | issuers (row : CaCertificate) (targets : List ℕ)
  /-- About to stand the targets down. -/
  | update (caId : ℕ) (targets : List ℕ)
  /-- The call has returned. -/
  | returned
  /-- The call has raised an error. -/
  | raised (e : Failure)
  deriving DecidableEq

namespace RetirePc

/-- The refusal. -/
def lastIssuer (row : CaCertificate) : Failure :=
  ⟨.retire, if row.kind = .root then s!"retiring root {row.id} would leave no active issuer"
    else s!"cannot retire the last active issuer ({row.id})"⟩

/-- The row is loaded. -/
def ofRow (cas : CaTable) : Except Failure CaCertificate → RetirePc
  | .error e => .raised e
  | .ok row =>
    if row.status = .retired then .returned
    else if row.kind = .root then .children row
    else .issuers row (retireTargets cas row)

/-- The issuers that remain are known. -/
def ofRemaining (row : CaCertificate) (targets : List ℕ) : List CaCertificate → RetirePc
  | [] => .raised (lastIssuer row)
  | _ => .update row.id targets

/-- The program of a call.  The rows that are stood down are loaded once more before the `UPDATE`;
nothing is decided by that. -/
def act : RetirePc → Action CaTable RetirePc
  | load caId => .select fun cas => ofRow cas (getCa cas caId)
  | children row => .select fun cas => .issuers row (retireTargets cas row)
  | issuers row targets => .select fun cas =>
    ofRemaining row targets ((activeIssuers cas).filter fun r => r.id ∉ targets)
  | update _ targets => .write (fun cas => .ok (retireRows cas targets, .returned))
    (.raised ⟨.database, "database is locked"⟩)
  | returned => .done
  | raised _ => .done

end RetirePc

/-- Any number of calls of `retire`. -/
def retireCalls : Machine (Sessions CaTable (Phase RetirePc)) Turn := transactions RetirePc.act

/-- The calls begin, each with a row to retire. -/
def retireStart (cas : CaTable) (ids : List ℕ) : Sessions CaTable (Phase RetirePc) :=
  .begin cas (ids.map .load)

/-! ### A call alone -/

/-- **A call that is alone** does what `Service.retire` says. -/
theorem retire_alone {d : Draw} {cas : CaTable} {caId : ℕ} (hd : d.fault = none) :
    match Service.retire d cas caId with
    | .ok (cas', ()) => retireCalls.Reachable (.alone cas (.load caId)) (.alone cas' .returned)
    | .error e => retireCalls.Reachable (.alone cas (.load caId)) (.alone cas (.raised e)) := by
  have hload : retireCalls.Reachable (.alone cas (.load caId))
      (.alone cas (.ofRow cas (getCa cas caId))) := alone_select RetirePc.act cas (.load caId) rfl
  cases hrow : getCa cas caId with
  | error e =>
    have hresult : Service.retire d cas caId = .error e := by
      simp only [Service.retire, hrow, bind, Except.bind]
    rw [hrow] at hload
    rw [hresult]
    exact hload
  | ok row =>
    obtain ⟨-, rfl⟩ := getCa_eq_ok hrow
    rw [hrow, RetirePc.ofRow] at hload
    by_cases hretired : row.status = .retired
    · have hresult : Service.retire d cas row.id = .ok (cas, ()) := by
        simp only [Service.retire, hrow, bind, Except.bind, if_pos hretired, pure, Except.pure]
      rw [if_pos hretired] at hload
      rw [hresult]
      exact hload
    rw [if_neg hretired] at hload
    -- A root is looked up once more, for what it has signed.
    have htargets : retireCalls.Reachable (.alone cas (.load row.id))
        (.alone cas (.issuers row (retireTargets cas row))) := by
      split_ifs at hload
      · exact hload.trans (alone_select RetirePc.act cas (.children row) rfl)
      · exact hload
    have hremaining := htargets.trans (alone_select RetirePc.act cas (.issuers row _) rfl)
    cases hleft : (activeIssuers cas).filter fun r => r.id ∉ retireTargets cas row with
    | nil =>
      have hresult : Service.retire d cas row.id =
          .error (RetirePc.lastIssuer row) := by
        simp only [Service.retire, hrow, bind, Except.bind, if_neg hretired, hleft, refuse, if_pos]
        rfl
      rw [hleft] at hremaining
      rw [hresult]
      exact hremaining
    | cons r rs =>
      have hne : (activeIssuers cas).filter (fun r => r.id ∉ retireTargets cas row) ≠ [] := by
        rw [hleft]
        exact List.cons_ne_nil r rs
      have hresult : Service.retire d cas row.id =
          .ok (retireRows cas (retireTargets cas row), ()) := by
        simp only [Service.retire, hrow, bind, Except.bind, if_neg hretired, refuse, if_neg hne]
        exact commit_eq_ok.2 ⟨by simp [hd], rfl, rfl⟩
      rw [hleft] at hremaining
      rw [hresult]
      exact hremaining.trans (alone_write RetirePc.act cas (.update row.id _) rfl rfl)

/-! ### Calls that meet -/

section calls

variable {cas : CaTable} {targets : List ℕ}

/-- Retiring the row still leaves an active issuer, when a call is about to write. -/
def RetireSafe (cas : CaTable) : RetirePc → Prop
  | .update caId _ => ∀ row ∈ cas.get? caId,
      (activeIssuers cas).filter (fun r => r.id ∉ retireTargets cas row) ≠ []
  | _ => True

instance (cas : CaTable) : (pc : RetirePc) → Decidable (RetireSafe cas pc)
  | .update caId _ => inferInstanceAs (Decidable (∀ row ∈ cas.get? caId,
      (activeIssuers cas).filter (fun r => r.id ∉ retireTargets cas row) ≠ []))
  | .load _ | .children _ | .issuers _ _ | .returned | .raised _ => inferInstanceAs (Decidable True)

/-- The rows agree in what decides the targets. -/
def SameRow (r r' : CaCertificate) : Prop := r'.id = r.id ∧ r'.kind = r.kind

/-- What a call has read is what is stored, up to the status of the rows. -/
def RetireGood (cas : CaTable) : RetirePc → Prop
  | .children row => ∃ r ∈ cas, SameRow r row
  | .issuers row targets => ∃ r ∈ cas, SameRow r row ∧ targets = retireTargets cas r
  | .update caId targets => ∃ r ∈ cas, r.id = caId ∧ targets = retireTargets cas r
  | _ => True

/-- The targets do not depend on what is retired. -/
theorem retireTargets_retireRows {r r' : CaCertificate} (h : SameRow r r') :
    retireTargets (retireRows cas targets) r' = retireTargets cas r := by
  obtain ⟨hid, hkind⟩ := h
  have hselect : ((retireRows cas targets).select fun x => x.parentId == some r.id).map
      CaCertificate.id = (cas.select fun x => x.parentId == some r.id).map CaCertificate.id := by
    have hupdate : (retireRows cas targets).select (fun x => x.parentId == some r.id) =
        (cas.select fun x => x.parentId == some r.id).map fun x =>
          if decide (x.id ∈ targets) then { x with status := .retired } else x :=
      Table.select_update fun _ => rfl
    rw [hupdate, List.map_map]
    refine List.map_congr_left fun x _ => ?_
    simp only [Function.comp_apply]
    split_ifs <;> rfl
  unfold retireTargets
  rw [hid, hkind, hselect]

/-- A row is still there after others, or it, have been retired. -/
theorem exists_retireRows {r : CaCertificate} (h : r ∈ cas) :
    ∃ r' ∈ retireRows cas targets, SameRow r r' := by
  refine ⟨_, mem_retireRows.2 ⟨r, h, rfl⟩, ?_⟩
  split_ifs
  · exact ⟨rfl, rfl⟩
  · exact ⟨rfl, rfl⟩

/-- A commit of one call leaves alone what another has read. -/
theorem RetireGood.retireRows {pc : RetirePc} (h : RetireGood cas pc) :
    RetireGood (retireRows cas targets) pc := by
  cases pc with
  | children row =>
    obtain ⟨r, hr, hid, hkind⟩ := h
    obtain ⟨r', hr', hid', hkind'⟩ := exists_retireRows hr
    exact ⟨r', hr', hid.trans hid'.symm, hkind.trans hkind'.symm⟩
  | issuers row ts =>
    obtain ⟨r, hr, ⟨hid, hkind⟩, rfl⟩ := h
    obtain ⟨r', hr', hsame⟩ := exists_retireRows hr
    exact ⟨r', hr', ⟨hid.trans hsame.1.symm, hkind.trans hsame.2.symm⟩,
      (retireTargets_retireRows hsame).symm⟩
  | update caId ts =>
    obtain ⟨r, hr, rfl, rfl⟩ := h
    obtain ⟨r', hr', hsame⟩ := exists_retireRows hr
    exact ⟨r', hr', hsame.1, (retireTargets_retireRows hsame).symm⟩
  | _ => trivial

theorem SameRow.retireTargets {r r' : CaCertificate} (h : SameRow r r') :
    retireTargets cas r' = retireTargets cas r := by
  unfold Service.retireTargets
  rw [h.1, h.2]

/-- An issuer outside the targets is still active after they are retired. -/
theorem activeIssuers_retireRows
    (h : (activeIssuers cas).filter (fun r => r.id ∉ targets) ≠ []) :
    activeIssuers (retireRows cas targets) ≠ [] := by
  obtain ⟨r, hr⟩ := List.exists_mem_of_ne_nil _ h
  obtain ⟨hr, hid⟩ := List.mem_filter.1 hr
  obtain ⟨hmem, hkind, hstatus⟩ := mem_activeIssuers.1 hr
  have hkept : r ∈ retireRows cas targets :=
    mem_retireRows.2 ⟨r, hmem, if_neg (by simpa using hid)⟩
  exact List.ne_nil_of_mem (mem_activeIssuers.2 ⟨hkept, hkind, hstatus⟩)

end calls

/-- What every call keeps. -/
theorem maintains_retire :
    Maintains RetirePc.act RetireSafe (fun cas => activeIssuers cas ≠ []) RetireGood where
  select {cas pc f} hact _ _ hgood := by
    cases pc with
    | load caId =>
      cases hact
      show RetireGood cas (.ofRow cas (getCa cas caId))
      cases hrow : getCa cas caId with
      | error e => trivial
      | ok row =>
        obtain ⟨hmem, -⟩ := getCa_eq_ok hrow
        simp only [RetirePc.ofRow]
        split_ifs
        · trivial
        · exact ⟨row, hmem, rfl, rfl⟩
        · exact ⟨row, hmem, ⟨rfl, rfl⟩, rfl⟩
    | children row =>
      cases hact
      obtain ⟨r, hr, hsame⟩ := hgood
      exact ⟨r, hr, hsame, hsame.retireTargets⟩
    | issuers row targets =>
      cases hact
      obtain ⟨r, hr, hsame, htargets⟩ := hgood
      simp only [RetirePc.ofRemaining]
      split
      · trivial
      · exact ⟨r, hr, hsame.1.symm, htargets⟩
    | _ => cases hact
  write {cas cas' pc pc' run busy} hact hrun hsafe _ hgood := by
    cases pc with
    | update caId targets =>
      cases hact
      cases hrun
      obtain ⟨r, hr, rfl, rfl⟩ := hgood
      have hleft := hsafe r (Table.get?_key hr)
      exact ⟨activeIssuers_retireRows hleft, trivial, fun _ h => h.retireRows⟩
    | _ => cases hact
  refused {cas pc pc' run busy} hact hrun _ _ _ := by
    cases pc with
    | update caId targets =>
      cases hact
      cases hrun
    | _ => cases hact
  busy {cas pc run busy} hact _ _ := by
    cases pc with
    | update caId targets =>
      cases hact
      trivial
    | _ => cases hact

/-- **The last active issuer.**  If there is an active issuer at first, there is one in every state of
every run of `retire` calls in which each call still leaves one when it writes. -/
theorem active_issuer_remains {cas : CaTable} {ids : List ℕ} {s : Sessions CaTable (Phase RetirePc)}
    (h₀ : activeIssuers cas ≠ [])
    (h : retireCalls.Reach (Sessions.Heeds RetireSafe) (retireStart cas ids) s) :
    activeIssuers s.committed ≠ [] := by
  refine (maintains_retire.reach h h₀ fun pc hpc => ?_).1
  obtain ⟨caId, -, rfl⟩ := List.mem_map.1 hpc
  trivial

/-! ### Two calls -/

/-- A root with two intermediates. -/
def twoIssuers : CaTable :=
  (hierarchy .transparent).final .empty
    [(.createRoot (Str.of "Root") "ecdsa-p256" 20 1, .sample 1),
      (.createIntermediateUnder 1 (Str.of "A") "ecdsa-p256" 10 none, .sample 2),
      (.createIntermediateUnder 1 (Str.of "B") "ecdsa-p256" 10 none, .sample 3)]

/-- Both intermediates are retired, one call after the other: the second call is refused. -/
theorem active_issuer_remains_oneAfterTheOther :
    ∃ s, retireCalls.Reach (Sessions.Heeds RetireSafe) (retireStart twoIssuers [2, 3]) s ∧
      s.calls = [.run .returned,
        .run (.raised ⟨.retire, "cannot retire the last active issuer (3)"⟩)] ∧
      activeIssuers s.committed ≠ [] := by
  have h : retireCalls.Reach (Sessions.Heeds RetireSafe) (retireStart twoIssuers [2, 3]) _ :=
    Machine.reach_final _ ([0, 0, 0, 0, 1, 1].map Turn.go) (by decide +kernel)
  exact ⟨_, h, by decide +kernel, active_issuer_remains (by decide +kernel) h⟩

/-- Both calls look for the issuers that remain before either writes: none remains. -/
theorem last_issuers_retired :
    ¬ ∀ (cas : CaTable) (ids : List ℕ) (s : Sessions CaTable (Phase RetirePc)),
      activeIssuers cas ≠ [] → retireCalls.Reachable (retireStart cas ids) s →
      s.finished RetirePc.act → activeIssuers s.committed ≠ [] := by
  intro hall
  have h : retireCalls.Reachable (retireStart twoIssuers [2, 3]) _ :=
    Machine.reachable_final _ ([0, 0, 1, 1, 0, 0, 1, 1].map Turn.go)
  exact hall _ _ _ (by decide +kernel) h (by decide +kernel) (by decide +kernel)

end Cabin
