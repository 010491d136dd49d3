import Mathlib.Data.List.Sort
import Cabin.Ca.Links
import Cabin.Text.Iso
import Cabin.Text.Like
import Cabin.Text.Loads
import Cabin.Text.Unicode

/-!
# The inventory

The lists of issued certificates (`certs.py`): a search term and a status select rows.  The badge of a row
compares instants, the filter compares the texts that are stored for them; `filters` has the conditions of a
query as predicates on rows.

* `AwareDatetime` is an instant as Python has it, with a clock on the wall and a time zone;
* `certificateStatus` is the badge, `filters` the conditions, `listCertificates`, `exportCertificates`,
  `statusCounts` and `expiringSoon` are the queries;
* `status_filter_agrees` says that badge and filter are the same.
-/

namespace Cabin

namespace Certs

/-! ### Instants with a time zone -/

/-- A time zone: how far the clock on the wall is ahead of UTC, which may depend on what it shows. -/
structure Zone where
  /-- `utcoffset`, of what the clock shows and of the `fold` that tells two passes apart. -/
  utcoffset : ℤ → Bool → ℤ
  bounded : ∀ wall fold, -Instant.days 1 < utcoffset wall fold ∧ utcoffset wall fold < Instant.days 1

/-- UTC. -/
def Zone.utc : Zone := ⟨fun _ _ => 0, fun _ _ => by decide⟩

/-- A `datetime` with a time zone. -/
structure AwareDatetime where
  /-- What the clock on the wall shows. -/
  wall : ℤ
  fold : Bool
  zone : Zone
  isDatetime : Instant.IsDatetime wall

namespace AwareDatetime

/-- The instant. -/
def instant (m : AwareDatetime) : ℤ := m.wall - m.zone.utcoffset m.wall m.fold

/-- `m + timedelta(days=n)`: the clock on the wall goes on. -/
def addDays (m : AwareDatetime) (n : ℤ) : Except Failure AwareDatetime :=
  if h : Instant.IsDatetime (m.wall + Instant.days n) then .ok ⟨m.wall + Instant.days n, false, m.zone, h⟩
  else raise .overflow "date value out of range"

/-- `m.astimezone(UTC)`. -/
def astimezone (m : AwareDatetime) : Except Failure ℤ := do
  refuse (¬ Instant.IsDatetime m.instant) ⟨.overflow, "date value out of range"⟩
  pure m.instant

end AwareDatetime

/-! ### The badge -/

/-- The states of a certificate. -/
inductive CertStatus where
  | valid
  | expiring
  | expired
  | revoked
  deriving DecidableEq, Repr

/-- The text of a state. -/
def CertStatus.value : CertStatus → Str
  | valid => Str.of "valid"
  | expiring => Str.of "expiring"
  | expired => Str.of "expired"
  | revoked => Str.of "revoked"

/-- How many days before its end a certificate is about to expire. -/
def expiringWindow : ℤ := 30

/-- The state of a certificate. -/
def certificateStatus (notAfter : ℤ) (now : AwareDatetime) (revokedAt : Option ℤ) : Except Failure CertStatus :=
  if revokedAt.isSome then .ok .revoked
  else if notAfter ≤ now.instant then .ok .expired
  else do
    let horizon ← now.addDays expiringWindow
    pure (if notAfter ≤ horizon.instant then .expiring else .valid)

/-! ### The columns -/

/-- The column `not_after`. -/
def notAfterColumn (row : Certificate) : Str := Iso.isoformat (Instant.seconds row.notAfter)

/-- The column `sans_json`. -/
def sansJson (row : Certificate) : Str := (Json.arr (row.sans.map Json.str)).dumps

/-- The column `serial_hex`. -/
def serialHex (row : Certificate) : Str := Str.of (Str.hex 1 row.serialNumber)

/-- An instant in the shape the column has. -/
def iso (moment : AwareDatetime) : Except Failure Str := do
  let t ← moment.astimezone
  pure (Iso.isoformat (Instant.seconds t))

/-! ### Queries -/

/-- The most characters of a search term. -/
def maxQueryLength : ℕ := 200

/-- The rows of a page. -/
def perPage : ℕ := 50

/-- The last page. -/
def maxPage : ℤ := 1000000

/-- A condition of a query. -/
abbrev Condition := Certificate → Bool

variable (U : Unicode)

/-- What is looked for. -/
def searchTerm (q : Str) : Str := U.lower ((Str.strip q).take maxQueryLength)

/-- `str.replace` of one character. -/
def replaceChar (c : ℕ) (by' s : Str) : Str := s.flatMap fun x => if x = c then by' else [x]

/-- The pattern for a term. -/
def searchPattern (term : Str) : Str :=
  let escaped := replaceChar 0x5F (Str.of "\\_") (replaceChar 0x25 (Str.of "\\%") (replaceChar 0x5C (Str.of "\\\\") term))
  0x25 :: escaped ++ [0x25]

/-- The term is found in one of three columns. -/
def matchesTerm (term : Str) : Condition := fun row =>
  [row.subjectCn, sansJson row, serialHex row].any fun column =>
    Like.like 0x5C (searchPattern term) (Str.asciiLower column)

/-- The conditions for a status. -/
def statusConditions (status : Str) (now : AwareDatetime) : Except Failure (List Condition) :=
  if status = CertStatus.revoked.value then .ok [fun row => row.revokedAt.isSome]
  else do
    let times : List Condition ←
      if status = CertStatus.expired.value then do
        let limit ← iso now
        pure [fun row => notAfterColumn row ≤ limit]
      else if status = CertStatus.expiring.value then do
        let limit ← iso now
        let horizon ← now.addDays expiringWindow
        let end' ← iso horizon
        pure [fun row => limit < notAfterColumn row, fun row => notAfterColumn row ≤ end']
      else if status = CertStatus.valid.value then do
        let horizon ← now.addDays expiringWindow
        let end' ← iso horizon
        pure [fun row => end' < notAfterColumn row]
      else pure []
    let known := status = CertStatus.expired.value ∨ status = CertStatus.expiring.value ∨ status = CertStatus.valid.value
    pure ((if known then [fun row => row.revokedAt.isNone] else []) ++ times)

/-- `_filters`: the conditions of a query. -/
def filters (q status : Str) (now : AwareDatetime) : Except Failure (List Condition) := do
  let term := searchTerm U q
  let byStatus ← statusConditions status now
  pure ((if term ≠ [] then [matchesTerm term] else []) ++ byStatus)

/-- A row that meets all conditions. -/
def meets (conditions : List Condition) (row : Certificate) : Bool := conditions.all (· row)

/-- The newest rows first; the column `created_at` is given. -/
def newestFirst (createdAt : Certificate → ℤ) (rows : List Certificate) : List Certificate :=
  rows.mergeSort fun a b => createdAt b < createdAt a ∨ (createdAt a = createdAt b ∧ b.id ≤ a.id)

/-- Every row that is selected. -/
def exportCertificates (createdAt : Certificate → ℤ) (rows : Table Certificate) (q status : Str)
    (now : AwareDatetime) : Except Failure (List Certificate) := do
  let conditions ← filters U q status now
  pure (newestFirst createdAt (rows.select (meets conditions)))

/-- One page of the rows that are selected, and how many there are. -/
def listCertificates (createdAt : Certificate → ℤ) (rows : Table Certificate) (q status : Str) (page : ℤ)
    (perPage : ℕ) (now : AwareDatetime) : Except Failure (List Certificate × ℕ) := do
  let conditions ← filters U q status now
  let page := min (max page 1) maxPage
  let selected := rows.select (meets conditions)
  pure (((newestFirst createdAt selected).drop ((page - 1).toNat * perPage)).take perPage, selected.length)

/-- How many certificates are in each state. -/
def statusCounts (rows : Table Certificate) (now : AwareDatetime) : Except Failure (List (CertStatus × ℕ)) :=
  [CertStatus.valid, .expiring, .expired, .revoked].mapM fun status => do
    let conditions ← filters U [] status.value now
    pure (status, (rows.select (meets conditions)).length)

/-- The certificates about to expire, the soonest first. -/
def expiringSoon (rows : Table Certificate) (now : AwareDatetime) (limit : ℕ) : Except Failure (List Certificate) := do
  let conditions ← filters U [] CertStatus.expiring.value now
  pure (((rows.select (meets conditions)).mergeSort fun a b =>
    notAfterColumn a < notAfterColumn b ∨ (notAfterColumn a = notAfterColumn b ∧ a.id ≤ b.id)).take limit)

/-! ### Patterns -/

/-- The three replacements escape each special character once. -/
theorem searchPattern_eq (term : Str) : searchPattern term = 0x25 :: Like.escaped 0x5C term ++ [0x25] := by
  have hescaped : replaceChar 0x5F (Str.of "\\_") (replaceChar 0x25 (Str.of "\\%")
      (replaceChar 0x5C (Str.of "\\\\") term)) = Like.escaped 0x5C term := by
    simp only [replaceChar, Like.escaped, List.flatMap_assoc]
    refine List.flatMap_congr fun c _ => ?_
    by_cases hslash : c = 0x5C
    · subst hslash
      rfl
    · by_cases hpercent : c = 0x25
      · subst hpercent
        rfl
      · by_cases hunderscore : c = 0x5F
        · subst hunderscore
          rfl
        · simp [hslash, hpercent, hunderscore, Like.isSpecial]
  rw [searchPattern, hescaped]

theorem asciiLower_idem (s : Str) : Str.asciiLower (Str.asciiLower s) = Str.asciiLower s := by
  simp only [Str.asciiLower, List.map_map]
  exact List.map_congr_left fun c _ => Unicode.asciiLowerChar_idem c

/-- A column in lower case is searched for the term, without regard to case. -/
theorem like_searchPattern (term column : Str) : Like.like 0x5C (searchPattern term) (Str.asciiLower column) = true ↔
    Str.asciiLower term <:+: Str.asciiLower column := by
  rw [searchPattern_eq, Like.like_contains (by decide), asciiLower_idem]

/-! ### Badge and filter -/

variable {U} {row : Certificate} {now horizon : AwareDatetime} {rows : Table Certificate}

/-- The end of the certificate is a whole second. -/
structure Stored (row : Certificate) : Prop where
  whole : row.notAfter = Instant.ofSeconds (Instant.seconds row.notAfter)
  isDatetime : Instant.IsDatetime row.notAfter

/-- The instant and the end of the window that begins with it are datetimes, in UTC too. -/
structure Windowed (now horizon : AwareDatetime) : Prop where
  start : Instant.IsDatetime now.instant
  step : now.addDays expiringWindow = .ok horizon
  stop : Instant.IsDatetime horizon.instant

/-- The window has a length: no two offsets of a zone are days apart. -/
theorem Windowed.lt (h : Windowed now horizon) : now.instant < horizon.instant := by
  have hstep := h.step
  unfold AwareDatetime.addDays at hstep
  split_ifs at hstep with hdatetime
  · obtain rfl := Except.ok.inj hstep
    have hnow := now.zone.bounded now.wall now.fold
    have hlater := now.zone.bounded (now.wall + Instant.days expiringWindow) false
    unfold AwareDatetime.instant
    simp only [expiringWindow, Instant.days, Instant.ofSeconds] at hnow hlater ⊢
    omega
  · cases hstep

theorem iso_eq_ok {moment : AwareDatetime} (h : Instant.IsDatetime moment.instant) :
    iso moment = .ok (Iso.isoformat (Instant.seconds moment.instant)) := by
  simp only [iso, AwareDatetime.astimezone, refuse, if_neg (not_not.2 h)]
  rfl

/-- **The column and an instant are in the order of their texts**, whatever the instant's microseconds are. -/
theorem notAfterColumn_le (hrow : Stored row) {t : ℤ} (ht : Instant.IsDatetime t) :
    notAfterColumn row ≤ Iso.isoformat (Instant.seconds t) ↔ row.notAfter ≤ t := by
  obtain ⟨hlow, hhigh⟩ := hrow.isDatetime
  obtain ⟨htlow, hthigh⟩ := ht
  have hwhole := hrow.whole
  unfold Instant.ofSeconds at *
  unfold notAfterColumn Instant.seconds at *
  rw [Iso.isoformat_le (by unfold Iso.firstSecond; omega) (by unfold Iso.endSecond; omega)
    (by unfold Iso.firstSecond; omega) (by unfold Iso.endSecond; omega)]
  omega

theorem lt_notAfterColumn (hrow : Stored row) {t : ℤ} (ht : Instant.IsDatetime t) :
    Iso.isoformat (Instant.seconds t) < notAfterColumn row ↔ t < row.notAfter := by
  have hle := notAfterColumn_le hrow ht
  exact (not_le.symm.trans (not_congr hle)).trans not_le

/-- What the badge is, where the window has an end. -/
theorem certificateStatus_eq (h : Windowed now horizon) (notAfter : ℤ) (revokedAt : Option ℤ) :
    certificateStatus notAfter now revokedAt = .ok
      (if revokedAt.isSome then .revoked
      else if notAfter ≤ now.instant then .expired
      else if notAfter ≤ horizon.instant then .expiring else .valid) := by
  simp only [certificateStatus, h.step, bind, Except.bind, pure, Except.pure]
  split_ifs <;> rfl

/-- The conditions of a status say what the badge does. -/
theorem statusConditions_spec (h : Windowed now horizon) (status : CertStatus) :
    ∃ conditions, statusConditions status.value now = .ok conditions ∧ ∀ row, Stored row →
      (meets conditions row = true ↔ certificateStatus row.notAfter now row.revokedAt = .ok status) := by
  have hnow := iso_eq_ok h.start
  have hhorizon := iso_eq_ok h.stop
  have hlt := h.lt
  cases status with
  | revoked =>
    refine ⟨_, if_pos rfl, fun row _ => ?_⟩
    rw [certificateStatus_eq h, Except.ok.injEq]
    simp only [meets, List.all_cons, List.all_nil, Bool.and_true]
    split_ifs with hrevoked <;> simp [hrevoked]
  | expired =>
    refine ⟨[fun row => row.revokedAt.isNone, fun row => notAfterColumn row ≤ Iso.isoformat (Instant.seconds now.instant)],
      ?_, fun row hrow => ?_⟩
    · simp only [statusConditions, hnow, bind, Except.bind, pure, Except.pure]
      rfl
    · rw [certificateStatus_eq h, Except.ok.injEq]
      simp only [meets, List.all_cons, List.all_nil, Bool.and_true, Bool.and_eq_true, decide_eq_true_eq,
        notAfterColumn_le hrow h.start]
      cases row.revokedAt with
      | some t => simp
      | none =>
        simp only [Option.isSome_none, Option.isNone_none, Bool.false_eq_true, if_false]
        split_ifs <;> simp <;> omega
  | expiring =>
    refine ⟨[fun row => row.revokedAt.isNone, fun row => Iso.isoformat (Instant.seconds now.instant) < notAfterColumn row,
      fun row => notAfterColumn row ≤ Iso.isoformat (Instant.seconds horizon.instant)], ?_, fun row hrow => ?_⟩
    · simp only [statusConditions, hnow, h.step, hhorizon, bind, Except.bind, pure, Except.pure]
      rfl
    · rw [certificateStatus_eq h, Except.ok.injEq]
      simp only [meets, List.all_cons, List.all_nil, Bool.and_true, Bool.and_eq_true, decide_eq_true_eq,
        notAfterColumn_le hrow h.stop, lt_notAfterColumn hrow h.start]
      cases row.revokedAt with
      | some t => simp
      | none =>
        simp only [Option.isSome_none, Option.isNone_none, Bool.false_eq_true, if_false]
        split_ifs <;> simp <;> omega
  | valid =>
    refine ⟨[fun row => row.revokedAt.isNone,
      fun row => Iso.isoformat (Instant.seconds horizon.instant) < notAfterColumn row], ?_, fun row hrow => ?_⟩
    · simp only [statusConditions, h.step, hhorizon, bind, Except.bind, pure, Except.pure]
      rfl
    · rw [certificateStatus_eq h, Except.ok.injEq]
      simp only [meets, List.all_cons, List.all_nil, Bool.and_true, Bool.and_eq_true, decide_eq_true_eq,
        lt_notAfterColumn hrow h.stop]
      cases row.revokedAt with
      | some t => simp
      | none =>
        simp only [Option.isSome_none, Option.isNone_none, Bool.false_eq_true, if_false]
        split_ifs <;> simp <;> omega

variable (U) in
/-- A query selects a row. -/
def Selects (q status : Str) (now : AwareDatetime) (row : Certificate) : Prop :=
  ∃ conditions, filters U q status now = .ok conditions ∧ meets conditions row = true

variable (U) in
/-- What the badge and the filter should have to do with each other at an instant. -/
structure BadgeIsFilter (now : AwareDatetime) (rows : Table Certificate) : Prop where
  /-- A status selects, among what the search term does, the rows with that badge. -/
  agree : ∀ q, ∀ row ∈ rows, ∀ status : CertStatus, Selects U q status.value now row ↔
    Selects U q (Str.of "all") now row ∧ certificateStatus row.notAfter now row.revokedAt = .ok status
  /-- Each row has one of the four states. -/
  partition : ∀ row ∈ rows, ∃! status : CertStatus, Selects U [] status.value now row
  /-- The four counts make up all rows. -/
  counts : ∃ counts, statusCounts U rows now = .ok counts ∧ (counts.map Prod.snd).sum = rows.rows.length
  /-- Another status selects everything. -/
  unknown : ∀ status : Str, (∀ known : CertStatus, status ≠ known.value) →
    ∀ row ∈ rows, Selects U [] status now row

theorem value_ne_all (status : CertStatus) : Str.of "all" ≠ status.value := by
  cases status <;> decide

theorem statusConditions_unknown {status : Str} (h : ∀ known : CertStatus, status ≠ known.value) :
    statusConditions status now = .ok [] := by
  simp only [statusConditions, if_neg (h .revoked), if_neg (h .expired), if_neg (h .expiring), if_neg (h .valid)]
  simp only [bind, Except.bind, pure, Except.pure, h .expired, h .expiring, h .valid, or_self, if_false,
    List.append_nil]

theorem filters_eq {q status : Str} {conditions : List Condition}
    (h : statusConditions status now = .ok conditions) : filters U q status now =
      .ok ((if searchTerm U q ≠ [] then [matchesTerm (searchTerm U q)] else []) ++ conditions) := by
  simp only [filters, h, bind, Except.bind, pure, Except.pure]

theorem meets_append {a b : List Condition} : meets (a ++ b) row = true ↔ meets a row = true ∧ meets b row = true := by
  simp only [meets, List.all_append, Bool.and_eq_true]

theorem searchTerm_nil (hU : U.Lawful) : searchTerm U [] = [] := ((hU.lowered []).eq_nil_iff hU).2 rfl

/-- What a query selects, by its term and by its status. -/
theorem selects_iff {q status : Str} {conditions : List Condition}
    (h : statusConditions status now = .ok conditions) : Selects U q status now row ↔
      (searchTerm U q ≠ [] → matchesTerm (searchTerm U q) row = true) ∧ meets conditions row = true := by
  rw [Selects, filters_eq h]
  simp only [Except.ok.injEq, exists_eq_left', meets_append]
  refine and_congr_left fun _ => ?_
  split_ifs with hterm
  · simp [meets, hterm]
  · simp [meets, hterm]

/-- Sorted by a value that each has, the elements of a list are all there. -/
theorem sum_select {status : Certificate → CertStatus} (l : List Certificate) :
    ((([CertStatus.valid, .expiring, .expired, .revoked].map fun s => l.filter fun row => status row = s)).map
      List.length).sum = l.length := by
  induction l with
  | nil => rfl
  | cons row l ih =>
    simp only [List.map_cons, List.map_nil, List.sum_cons, List.sum_nil, List.filter_cons, List.length_cons] at ih ⊢
    cases status row <;> simp <;> omega

/-- **Badge and filter agree** at every instant that has a window, in any time zone. -/
theorem status_filter_agrees (U : Unicode) (hU : U.Lawful) (now horizon : AwareDatetime) (h : Windowed now horizon)
    (rows : Table Certificate) (hrows : ∀ row ∈ rows, Stored row) : BadgeIsFilter U now rows := by
  have hagree : ∀ q, ∀ row ∈ rows, ∀ status : CertStatus, Selects U q status.value now row ↔
      Selects U q (Str.of "all") now row ∧ certificateStatus row.notAfter now row.revokedAt = .ok status := by
    intro q row hrow status
    obtain ⟨conditions, hconditions, hspec⟩ := statusConditions_spec h status
    rw [selects_iff hconditions, selects_iff (statusConditions_unknown value_ne_all), hspec row (hrows row hrow)]
    simp [meets]
  have hall : ∀ status : Str, (∀ known : CertStatus, status ≠ known.value) → ∀ row ∈ rows,
      Selects U [] status now row := fun status hstatus row _ => by
    rw [selects_iff (statusConditions_unknown hstatus)]
    exact ⟨fun hterm => absurd (searchTerm_nil hU) hterm, rfl⟩
  have hbadge : ∀ row ∈ rows, ∀ status : CertStatus, Selects U [] status.value now row ↔
      certificateStatus row.notAfter now row.revokedAt = .ok status := fun row hrow status => by
    rw [hagree [] row hrow, and_iff_right (hall _ value_ne_all row hrow)]
  refine ⟨hagree, fun row hrow => ?_, ?_, hall⟩
  · simp only [hbadge row hrow]
    exact ⟨_, certificateStatus_eq h _ _, fun status hstatus =>
      Except.ok.inj (hstatus.symm.trans (certificateStatus_eq h _ _))⟩
  · have hcount : ∀ status : CertStatus, ∃ conditions, filters U [] status.value now = .ok conditions ∧
        rows.select (meets conditions) = rows.rows.filter fun row =>
          (if row.revokedAt.isSome then CertStatus.revoked
          else if row.notAfter ≤ now.instant then .expired
          else if row.notAfter ≤ horizon.instant then .expiring else .valid) = status := by
      intro status
      obtain ⟨conditions, hconditions, -⟩ := statusConditions_spec h status
      refine ⟨_, filters_eq hconditions, List.filter_congr fun row hrow => ?_⟩
      have hiff := hbadge row hrow status
      rw [certificateStatus_eq h, Except.ok.injEq] at hiff
      rw [Bool.eq_iff_iff, decide_eq_true_eq, ← hiff, Selects, filters_eq hconditions]
      simp only [Except.ok.injEq, exists_eq_left']
    obtain ⟨c₁, h₁, hs₁⟩ := hcount .valid
    obtain ⟨c₂, h₂, hs₂⟩ := hcount .expiring
    obtain ⟨c₃, h₃, hs₃⟩ := hcount .expired
    obtain ⟨c₄, h₄, hs₄⟩ := hcount .revoked
    refine ⟨_, by
      simp only [statusCounts, List.mapM_cons, List.mapM_nil, h₁, h₂, h₃, h₄, bind, Except.bind, pure, Except.pure]
      rfl, ?_⟩
    simp only [hs₁, hs₂, hs₃, hs₄]
    exact sum_select rows.rows

/-- A zone that is two hours ahead of UTC. -/
def Zone.twoHours : Zone := ⟨fun _ _ => Instant.ofSeconds 7200, fun _ _ => by decide⟩

/-- Half a second after midnight on the day of the samples, and 30 days later. -/
def sampleNow : AwareDatetime := ⟨Instant.days 20000 + 500000, false, .twoHours, by decide⟩

def sampleHorizon : AwareDatetime := ⟨Instant.days 20030 + 500000, false, .twoHours, by decide⟩

theorem status_filter_agrees_issueThenRenew :
    ((caMachine .transparent).final (.start [] [] none) issueThenRenew).certificates.rows.length = 1 ∧
    BadgeIsFilter .ascii sampleNow ((caMachine .transparent).final (.start [] [] none) issueThenRenew).certificates := by
  have hrows : ∀ row ∈ ((caMachine .transparent).final (.start [] [] none) issueThenRenew).certificates,
      row.notAfter = Instant.ofSeconds (Instant.seconds row.notAfter) ∧ Instant.IsDatetime row.notAfter := by
    decide +kernel
  refine ⟨by decide +kernel, status_filter_agrees .ascii Unicode.lawful_ascii sampleNow sampleHorizon
    ⟨by decide, ?_, by decide⟩ _ fun row hrow => ⟨(hrows row hrow).1, (hrows row hrow).2⟩⟩
  exact dif_pos (by decide)

/-- The last second there is. -/
def lastSecond : AwareDatetime := ⟨Instant.ofSeconds 253402300799, false, .utc, by decide⟩

/-- **Where the window has no end**, the filters raise: there are no counts. -/
theorem no_counts_at_the_end : ¬ ∀ (U : Unicode), U.Lawful → ∀ (now : AwareDatetime) (rows : Table Certificate),
    (∀ row ∈ rows, Stored row) → BadgeIsFilter U now rows := fun h => by
  obtain ⟨counts, hcounts, -⟩ := (h .ascii Unicode.lawful_ascii lastSecond .empty
    fun _ hrow => absurd hrow Table.not_mem_empty).counts
  have hraises : statusCounts .ascii .empty lastSecond = raise .overflow "date value out of range" := rfl
  rw [hraises] at hcounts
  cases hcounts

end Certs

end Cabin
