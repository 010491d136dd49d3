import Cabin.Ca.Bookkeeping

/-!
# Lists in caches

The route that serves revocation lists (`web/crl_ui.py`) lets clients keep a list for as long as
`CRL_MAX_AGE`, and `current_crl` rebuilds a list that goes stale before that.  The decision is made with the
instant at which the list was generated, microseconds included; a client sees the date in the list, in whole
seconds.

* `InTheGap` : a stored list whose date is too soon, but not the instant it is computed from;
* `header_honest_iff` : in every state that is reached, a client may rely on the header outside the gap only.
-/

namespace Cabin

open X509 Service

namespace Crl

/-! ### The route -/

/-- For how many seconds a client may keep a list. -/
def maxAgeSeconds : ℤ := Instant.seconds crlMaxAge

/-- The header that says so. -/
def cacheControl : Str := Str.of "public, max-age=" ++ Str.ofNat maxAgeSeconds.toNat

/-- What is served. -/
structure Served where
  content : X509.Crl
  cacheControl : Str
  deriving DecidableEq, Repr

/-- Why nothing is served. -/
inductive NotServed where
  /-- Status 404. -/
  | notFound (detail : String)
  /-- Status 500: the key cannot be used and there is no list. -/
  | keyUnavailable
  /-- An exception that nothing catches. -/
  | raised (e : Failure)
  deriving DecidableEq, Repr

variable (E : Crypto)

/-- `_current_der`: the list to serve; where the key cannot be used, the last one. -/
def currentDer (d : Draw) (s : Session) (issuerId : ℕ) : Session × Except NotServed X509.Crl :=
  match getCa s.working.cas issuerId with
  | .error _ => (s, .error (.notFound "unknown issuer"))
  | .ok row =>
    if row.kind ≠ .intermediate then (s, .error (.notFound "not an intermediate"))
    else
      match currentCrl E d s issuerId none with
      | (s, .ok state) => (s, .ok state.crl)
      | (s, .error e) =>
        if e.kind = .caNotConfigured ∨ e.kind = .secrets then
          match s.working.crls.get? issuerId with
          | none => (s, .error .keyUnavailable)
          | some stale => (s, .ok stale.crl)
        else (s, .error (.raised e))

/-- `GET /crl/{issuer_id}`. -/
def crlDer (d : Draw) (s : Session) (issuerId : ℕ) : Session × Except NotServed Served :=
  ((currentDer E d s issuerId).1, (currentDer E d s issuerId).2.map fun crl => ⟨crl, cacheControl⟩)

/-! ### What is expected -/

variable {E} {db db' : Db} {d : Draw} {issuerId : ℕ} {now : Option ℤ}

/-- The list outlives the time that a client may keep it from an instant on. -/
def Outlives (crl : X509.Crl) (moment : ℤ) : Prop :=
  moment + Instant.ofSeconds maxAgeSeconds ≤ Instant.ofSeconds crl.tbs.nextUpdate

variable (E) in
/-- Whatever is returned for an instant outlives the header from there on. -/
def HeaderHonest (db : Db) (d : Draw) (issuerId : ℕ) (now : Option ℤ) : Prop :=
  ∀ s state, currentCrl E d (.start db) issuerId now = (s, .ok state) → Outlives state.crl (now.getD d.now)

/-- The end of the hour lies behind the second in which the stored list ends, but not behind its end. -/
def InTheGap (db : Db) (issuerId : ℕ) (moment : ℤ) : Prop :=
  ∃ stored, db.crls.get? issuerId = some stored ∧
    Instant.wholeSecond (nextUpdate stored) < moment + crlMaxAge ∧ moment + crlMaxAge < nextUpdate stored

/-! ### Dates -/

/-- The date in each list is the second in which the stored list ends. -/
def Dated (db : Db) : Prop := ∀ s ∈ db.crls, s.crl.tbs.nextUpdate = Instant.seconds (nextUpdate s)

theorem nextUpdate_of_nextCrl {moment : ℤ} {state : CrlState} (h : nextCrl E d db issuerId moment = .ok state) :
    state.crl.tbs.nextUpdate = Instant.seconds (nextUpdate state) := by
  simp only [nextCrl, signedCrl, buildCrl, bind_eq_ok, pure_eq_ok] at h
  obtain ⟨⟨ic, ik⟩, -, crl, ⟨-, -, aki, -, -, -, -, -, rfl⟩, rfl⟩ := h
  rfl

theorem Dated.upsert {crls : Table CrlState} {state : CrlState}
    (h : ∀ s ∈ crls, s.crl.tbs.nextUpdate = Instant.seconds (nextUpdate s))
    (hstate : state.crl.tbs.nextUpdate = Instant.seconds (nextUpdate state)) :
    ∀ s ∈ crls.upsert state, s.crl.tbs.nextUpdate = Instant.seconds (nextUpdate s) := by
  intro s hs
  rcases Table.mem_upsert.1 hs with rfl | ⟨hs, -⟩
  · exact hstate
  · exact h s hs

/-- A write keeps the dates. -/
theorem dated_of_write (h : Write E db db') (hd : Dated db) : Dated db' := by
  cases h with
  | crl h => exact Dated.upsert hd (nextUpdate_of_nextCrl h)
  | revoke _ _ _ h => exact Dated.upsert hd (nextUpdate_of_nextCrl h)
  | same | hierarchy | leaf | settings => exact hd

theorem dated_of_reach {u v : List (ℕ × ℕ)} {o : Option Str} (h : (caMachine E).Reachable (.start u v o) db) :
    Dated db :=
  h.invariant (fun _ hs => absurd hs Table.not_mem_empty) fun _ _ _ hd _ hstep =>
    dated_of_write (caMachine_step hstep) hd

/-! ### The argument -/

/-- A list that is rebuilt outlives the header. -/
theorem outlives_of_nextCrl {moment : ℤ} {state : CrlState} (h : nextCrl E d db issuerId moment = .ok state) :
    Outlives state.crl moment := by
  have hdate := nextUpdate_of_nextCrl h
  obtain ⟨-, hgenerated, -⟩ := nextCrl_eq_ok h
  unfold Outlives
  rw [hdate, nextUpdate, hgenerated]
  unfold maxAgeSeconds crlMaxAge crlValidity Instant.minutes Instant.days Instant.seconds Instant.ofSeconds
  omega

theorem outlives_of_regenerateCrl {s s' : Session} {moment : ℤ} {state : CrlState}
    (h : regenerateCrl E d s issuerId (some moment) = (s', .ok state)) : Outlives state.crl moment := by
  rcases regenerateCrl_cases (E := E) (d := d) s issuerId (some moment) with ⟨next, hnext, heq⟩ | ⟨s'', e, heq, -⟩
  · rw [heq] at h
    obtain ⟨-, hok⟩ := Prod.mk.inj h
    exact Except.ok.inj hok ▸ outlives_of_nextCrl hnext
  · rw [heq] at h
    cases h

/-- A stored list outlives the header if it is not dated too soon. -/
theorem outlives_iff {stored : CrlState} {moment : ℤ}
    (hdate : stored.crl.tbs.nextUpdate = Instant.seconds (nextUpdate stored)) :
    Outlives stored.crl moment ↔ moment + crlMaxAge ≤ Instant.wholeSecond (nextUpdate stored) := by
  have hage : Instant.ofSeconds maxAgeSeconds = crlMaxAge := by decide
  rw [Outlives, hage, hdate, Instant.wholeSecond]

/-- What the route serves, where the list can be signed. -/
theorem crlDer_eq_ok {s : Session} {served : Served}
    (hcurrent : ∃ state, (currentCrl E d s issuerId none).2 = .ok state)
    (h : (crlDer E d s issuerId).2 = .ok served) :
    ∃ s' state, currentCrl E d s issuerId none = (s', .ok state) ∧ served = ⟨state.crl, cacheControl⟩ := by
  obtain ⟨state, hstate⟩ := hcurrent
  refine ⟨(currentCrl E d s issuerId none).1, state, Prod.ext rfl hstate, ?_⟩
  have heq : currentCrl E d s issuerId none = ((currentCrl E d s issuerId none).1, .ok state) := Prod.ext rfl hstate
  unfold crlDer currentDer at h
  split at h
  · cases h
  · split_ifs at h
    · cases h
    · rw [heq] at h
      exact (Except.ok.inj h).symm

/-- With the right dates in the lists, the header is honest outside the gap only. -/
theorem headerHonest_iff_of_dated (hdated : Dated db) :
    HeaderHonest E db d issuerId now ↔ ¬ InTheGap db issuerId (now.getD d.now) := by
  cases hstored : db.crls.get? issuerId with
  | none =>
    refine iff_of_true (fun s state hcurrent => ?_) ?_
    · simp only [currentCrl, Session.start, hstored] at hcurrent
      exact outlives_of_regenerateCrl hcurrent
    · rintro ⟨stored, hsome, -⟩
      rw [hstored] at hsome
      cases hsome
  | some stored =>
    have hdate := hdated stored (Table.get?_eq_some.1 hstored).1
    have hgap : InTheGap db issuerId (now.getD d.now) ↔
        Instant.wholeSecond (nextUpdate stored) < now.getD d.now + crlMaxAge ∧
          now.getD d.now + crlMaxAge < nextUpdate stored := by
      simp only [InTheGap, hstored, Option.some.injEq, exists_eq_left']
    rw [hgap]
    by_cases hstale : nextUpdate stored ≤ now.getD d.now + crlMaxAge
    · -- The list is rebuilt.
      refine iff_of_true (fun s state hcurrent => ?_) (fun hin => absurd hin.2 (not_lt.2 hstale))
      simp only [currentCrl, Session.start, hstored, if_pos hstale] at hcurrent
      exact outlives_of_regenerateCrl hcurrent
    · -- The stored list is served, whatever the key is.
      have hserved : currentCrl E d (.start db) issuerId now = (.start db, .ok stored) := by
        simp only [currentCrl, Session.start, hstored, if_neg hstale]
      have hhonest : HeaderHonest E db d issuerId now ↔ Outlives stored.crl (now.getD d.now) := by
        simp only [HeaderHonest, hserved, Prod.mk.injEq, Except.ok.injEq, and_imp]
        exact ⟨fun hall => hall _ _ rfl rfl, fun hout s state _ hstate => hstate ▸ hout⟩
      rw [hhonest, outlives_iff hdate]
      have hbelow := not_le.1 hstale
      omega

/-- What the route serves where the list can be signed outlives the header, outside the gap. -/
theorem outlives_of_crlDer {u v : List (ℕ × ℕ)} {o : Option Str} (h : (caMachine E).Reachable (.start u v o) db)
    (hgap : ¬ InTheGap db issuerId d.now)
    (hcurrent : ∃ state, (currentCrl E d (.start db) issuerId none).2 = .ok state) {served : Served}
    (hserved : (crlDer E d (.start db) issuerId).2 = .ok served) : Outlives served.content d.now := by
  obtain ⟨s, state, heq, rfl⟩ := crlDer_eq_ok hcurrent hserved
  exact (headerHonest_iff_of_dated (dated_of_reach h)).2 hgap s state heq

/-- A client that relies on the header is never late by a second. -/
theorem late_lt_second {u v : List (ℕ × ℕ)} {o : Option Str} (h : (caMachine E).Reachable (.start u v o) db)
    {s : Session} {state : CrlState} (hcurrent : currentCrl E d (.start db) issuerId now = (s, .ok state)) :
    now.getD d.now + Instant.ofSeconds maxAgeSeconds <
      Instant.ofSeconds state.crl.tbs.nextUpdate + Instant.ofSeconds 1 := by
  by_cases hgap : InTheGap db issuerId (now.getD d.now)
  · obtain ⟨stored, hstored, -, hhigh⟩ := hgap
    have hserved : currentCrl E d (.start db) issuerId now = (.start db, .ok stored) := by
      simp only [currentCrl, Session.start, hstored, if_neg (not_le.2 hhigh)]
    rw [hserved] at hcurrent
    obtain rfl : stored = state := Except.ok.inj (Prod.mk.inj hcurrent).2
    rw [dated_of_reach h stored (Table.get?_eq_some.1 hstored).1]
    have hage : Instant.ofSeconds maxAgeSeconds = crlMaxAge := by decide
    rw [hage]
    unfold Instant.ofSeconds Instant.seconds
    omega
  · have hout := (headerHonest_iff_of_dated (dated_of_reach h)).2 hgap s state hcurrent
    unfold Outlives at hout
    unfold Instant.ofSeconds at hout ⊢
    omega

/-- **The header is honest outside the gap only**: in every state that runs of calls on the database reach,
for every instant, what is returned is dated no sooner than a client may keep it, if and only if the end
of that time does not fall into the gap of the stored list. -/
theorem header_honest_iff (E : Crypto) (u v : List (ℕ × ℕ)) (o : Option Str) (db : Db)
    (h : (caMachine E).Reachable (.start u v o) db) (d : Draw) (issuerId : ℕ) (now : Option ℤ) :
    HeaderHonest E db d issuerId now ↔ ¬ InTheGap db issuerId (now.getD d.now) :=
  headerHonest_iff_of_dated (dated_of_reach h)

/-- A hierarchy, and a list that is generated 0.9 seconds after midnight. -/
def generatedLate : List (Op × Draw) :=
  [(.hierarchy (.createRoot (Str.of "Root") "ecdsa-p256" 20 1), .sample 1),
    (.hierarchy (.createIntermediateUnder 1 (Str.of "Issuer") "ecdsa-p256" 10 none), .sample 2),
    (.regenerateCrl 2 (some (Instant.days 20000 + 900000)), .sample 3)]

/-- An hour and half a second before the date in that list. -/
def beforeTheGap : ℤ := Instant.days 20007 - crlMaxAge - 500000

/-- Not in the gap. -/
theorem header_honest_generatedLate :
    HeaderHonest .transparent ((caMachine .transparent).final (.start [] [] none) generatedLate) (.sample 4) 2
      (some beforeTheGap) := by
  refine (header_honest_iff .transparent [] [] none _ (Machine.reachable_final _ generatedLate) (.sample 4) 2
    (some beforeTheGap)).2 ?_
  rintro ⟨stored, hstored, hlow, -⟩
  have hbefore : ∀ s ∈ (((caMachine .transparent).final (.start [] [] none) generatedLate).crls.get? 2),
      beforeTheGap + crlMaxAge ≤ Instant.wholeSecond (nextUpdate s) := by decide +kernel
  exact absurd hlow (not_lt.2 (hbefore stored hstored))

/-- **Half a second too late**: the list is dated midnight, and served for an hour that ends half a second
after that. -/
theorem served_in_the_gap : ¬ ∀ (E : Crypto) (u v : List (ℕ × ℕ)) (o : Option Str) (db : Db),
    (caMachine E).Reachable (.start u v o) db → ∀ (d : Draw) (issuerId : ℕ) (now : Option ℤ),
      HeaderHonest E db d issuerId now := fun h => by
  have hhonest := h .transparent [] [] none _ (Machine.reachable_final _ generatedLate) (.sample 4) 2
    (some (Instant.days 20007 - crlMaxAge + 500000))
  have hdates : (currentCrl .transparent (.sample 4)
      (.start ((caMachine .transparent).final (.start [] [] none) generatedLate)) 2
      (some (Instant.days 20007 - crlMaxAge + 500000))).2.toOption.map (fun state => state.crl.tbs.nextUpdate) =
        some (86400 * 20007) := by
    decide +kernel
  generalize hcurrent : currentCrl .transparent (.sample 4)
      (.start ((caMachine .transparent).final (.start [] [] none) generatedLate)) 2
      (some (Instant.days 20007 - crlMaxAge + 500000)) = served at hdates
  obtain ⟨s, _ | state⟩ := served
  · cases hdates
  · have hdate : state.crl.tbs.nextUpdate = 86400 * 20007 := Option.some.inj hdates
    have hout := hhonest s state hcurrent
    rw [Outlives, hdate] at hout
    revert hout
    decide

end Crl

end Cabin
