import Cabin.Users.Tokens

/-!
# The use of tokens

When a token was used last is written at most once a minute (`verify_token`, `api_tokens.py`), and the page of tokens
shows where each of them stands (`token_status`).

* `createToken_alone`, `verifyToken_alone`, `revokeToken_alone` : a request that is alone does what its function says;
* `status_agrees` : in every state of every run, a token is shown as active if and only if its secret is let in;
* `last_use_throttled` : of calls one after another, two writes of the last use are a minute apart, and what is
  written is less than a minute behind the last use.
-/

namespace Cabin

namespace Tokens

variable {hashSecret : Str → Str} {tokens tokens' : Table ApiToken} {row : ApiToken} {secret : Str} {now : ℤ}

/-! ### The functions and the programs -/

section alone

variable {door : Door} {id : ℕ}

theorem select_alone {r : Request} {p : Place} {f : Table ApiToken → Place}
    (hact : Place.act hashSecret r p = .select f) :
    (requests hashSecret).Reachable (.alone tokens (r, p)) (.alone tokens (r, f tokens)) := by
  have htagged : tagged (Place.act hashSecret) (r, p) = _ := congrArg (Action.map (Prod.mk r)) hact
  exact alone_select _ _ _ htagged

theorem updating_alone {r : Request} {p next : Place} (f : Table ApiToken → Table ApiToken)
    (hact : Place.act hashSecret r p = Place.updating id f next) (hrow : row ∈ tokens) (hid : row.id = id) :
    (requests hashSecret).Reachable (.alone tokens (r, p)) (.alone (f tokens) (r, next)) := by
  have hget : (tokens.get? id).isSome = true := by
    rw [← hid, ← key_apiToken, Table.get?_key hrow]
    rfl
  have htagged : tagged (Place.act hashSecret) (r, p) = _ := congrArg (Action.map (Prod.mk r)) hact
  refine alone_write _ _ _ htagged ?_
  dsimp only
  rw [if_pos hget]

/-- A request that is alone is answered as `verify_token` has it, and the door looks at the role. -/
theorem verifyToken_alone :
    (requests hashSecret).Reachable (.alone tokens (.authenticate door (some secret) now, .start))
      (.alone (verifyToken hashSecret tokens secret now).1 (.authenticate door (some secret) now,
        match (verifyToken hashSecret tokens secret now).2 with
        | none => .refused .unauthenticated
        | some row => Place.ofVerified row door)) := by
  have hload : (requests hashSecret).Reachable (.alone tokens (.authenticate door (some secret) now, .start)) _ :=
    select_alone rfl
  simp only [Place.ofCredentials] at hload
  unfold verifyToken
  cases hlook : lookUp hashSecret tokens secret now with
  | none =>
    rw [hlook] at hload
    exact hload
  | some row =>
    rw [hlook] at hload
    dsimp only at hload ⊢
    split_ifs at hload ⊢ with hstale
    · have hwrite : (requests hashSecret).Reachable
          (.alone tokens (.authenticate door (some secret) now, .touching row))
          (.alone (touch tokens row.id now) (.authenticate door (some secret) now,
            Place.ofVerified { row with lastUsedAt := some now } door)) :=
        updating_alone (fun tokens => touch tokens row.id now) rfl (lookUp_eq_some hlook).1 rfl
      exact hload.trans hwrite
    · exact hload

/-- A revocation that is alone is what `revoke_token` does. -/
theorem revokeToken_alone :
    (requests hashSecret).Reachable (.alone tokens (.revoke id now, .start))
      (.alone (revokeToken tokens id now).1 (.revoke id now, .redirected)) := by
  have hload : (requests hashSecret).Reachable (.alone tokens (.revoke id now, .start)) _ := select_alone rfl
  unfold revokeToken
  cases hget : tokens.get? id with
  | none =>
    rw [hget] at hload
    exact hload
  | some row =>
    obtain ⟨hrow, rfl⟩ := Table.get?_eq_some.1 hget
    rw [hget, Place.ofFound] at hload
    have hwrite : (requests hashSecret).Reachable (.alone tokens (.revoke row.id now, .revoking row))
        (.alone (markRevoked tokens row.id now) (.revoke row.id now, .redirected)) :=
      updating_alone (fun tokens => markRevoked tokens row.id now) rfl hrow rfl
    dsimp only at hload ⊢
    cases hrevoked : row.revokedAt with
    | none =>
      rw [hrevoked] at hload
      exact hload.trans hwrite
    | some t =>
      rw [hrevoked] at hload
      exact hload

/-- A creation that is alone is what `create_token` does. -/
theorem createToken_alone {label drawn : Str} {role : Role} {expiresAt : Option ℤ} :
    match createToken hashSecret tokens label role expiresAt drawn now with
    | .ok (tokens', secret, row) =>
      (requests hashSecret).Reachable (.alone tokens (.create label role expiresAt drawn now, .start))
        (.alone tokens' (.create label role expiresAt drawn now, .created secret row))
    | .error e =>
      (requests hashSecret).Reachable (.alone tokens (.create label role expiresAt drawn now, .start))
        (.alone tokens (.create label role expiresAt drawn now, .refused e)) := by
  have hload : (requests hashSecret).Reachable (.alone tokens (.create label role expiresAt drawn now, .start)) _ :=
    select_alone rfl
  cases hlabel : cleanLabel label with
  | error e =>
    rw [hlabel] at hload
    simp only [createToken, hlabel, bind, Except.bind]
    exact hload
  | ok clean =>
    rw [hlabel] at hload
    have hact : tagged (Place.act hashSecret) (.create label role expiresAt drawn now, .inserting clean) = _ := rfl
    cases hinsert : insertToken hashSecret tokens clean role expiresAt (tokenPrefix ++ drawn) now with
    | error e =>
      have hrefused := alone_refused (tagged (Place.act hashSecret)) tokens _ hact (by simp only [hinsert]; rfl)
      simp only [createToken, hlabel, hinsert, bind, Except.bind]
      exact hload.trans hrefused
    | ok r =>
      have hwrite := alone_write (tagged (Place.act hashSecret)) tokens _ hact (by simp only [hinsert]; rfl)
      simp only [createToken, hlabel, hinsert, bind, Except.bind]
      exact hload.trans hwrite

end alone

/-! ### Where a token stands -/

/-- A token is found if and only if it is active. -/
theorem lookUp_iff (hdistinct : Distinct tokens) (hrow : row ∈ tokens) (hne : secret ≠ [])
    (hhash : hashSecret secret = row.tokenHash) :
    lookUp hashSecret tokens secret now = some row ↔ tokenStatus row now = .active := by
  rw [lookUp, if_neg hne, hhash, byHash_of_mem hdistinct hrow, tokenStatus]
  dsimp only
  split_ifs <;> simp

/-- **The page shows a token as active if and only if the API lets it in**, in every state of every run. -/
theorem status_agrees {calls : List Request} {s : Sessions (Table ApiToken) (Phase (Request × Place))}
    (hdistinct : Distinct tokens) (h : (requests hashSecret).Reachable (begin tokens calls) s)
    (hrow : row ∈ s.committed) (hne : secret ≠ []) (hhash : hashSecret secret = row.tokenHash) (now : ℤ) :
    (verifyToken hashSecret s.committed secret now).2.isSome = true ↔ tokenStatus row now = .active := by
  have hdistinct' : Distinct s.committed := (good_of_reach hdistinct h).1.1
  rw [← lookUp_iff hdistinct' hrow hne hhash]
  unfold verifyToken
  constructor
  · intro hsome
    cases hlook : lookUp hashSecret s.committed secret now with
    | none =>
      rw [hlook] at hsome
      cases hsome
    | some found =>
      obtain ⟨hmem, -, secret', hsecret, -, hhash', -⟩ := lookUp_eq_some hlook
      obtain rfl := Option.some.inj hsecret
      rw [hdistinct' found hmem row hrow (hhash'.trans hhash)]
  · intro hlook
    rw [hlook]
    dsimp only
    split_ifs <;> rfl

/-- A secret is its own hash here. -/
theorem status_agrees_admin : Distinct adminTable ∧ adminToken ∈ adminTable ∧
    tokenStatus adminToken 7 = .active ∧
    ((verifyToken id adminTable (Str.of "cabin_x") 7).2.isSome = true ↔ tokenStatus adminToken 7 = .active) := by
  have h : (requests id).Reachable (begin adminTable []) (begin adminTable []) := .refl
  exact ⟨distinct_adminTable, List.mem_cons_self, rfl,
    status_agrees distinct_adminTable h List.mem_cons_self (by decide) rfl 7⟩

/-! ### The last use -/

/-- The tokens, the clock and how they were used. -/
structure State where
  tokens : Table ApiToken
  /-- The last reading of the clock. -/
  clock : ℤ
  /-- When a token was let in last. -/
  used : ℕ → Option ℤ
  /-- When a use of a token was written, the last time first. -/
  written : ℕ → List ℤ

/-- The calls. -/
inductive Act where
  | create (label : Str) (role : Role) (expiresAt : Option ℤ) (drawn : Str) (now : ℤ)
  | verify (secret : Str) (now : ℤ)
  | revoke (id : ℕ) (now : ℤ)

/-- What the clock shows. -/
def Act.moment : Act → ℤ
  | create _ _ _ _ now | verify _ now | revoke _ now => now

/-- A call; a use has been written if it has changed the table. -/
def call (hashSecret : Str → Str) (s : State) : Act → State
  | .create label role expiresAt drawn now =>
    match createToken hashSecret s.tokens label role expiresAt drawn now with
    | .ok (tokens, _, _) => { s with tokens := tokens, clock := now }
    | .error _ => { s with clock := now }
  | .verify secret now =>
    match verifyToken hashSecret s.tokens secret now with
    | (tokens, none) => { s with tokens := tokens, clock := now }
    | (tokens, some row) =>
      ⟨tokens, now, Function.update s.used row.id (some now),
        if tokens = s.tokens then s.written else Function.update s.written row.id (now :: s.written row.id)⟩
  | .revoke id now => { s with tokens := (revokeToken s.tokens id now).1, clock := now }

/-- The calls one after another, on a clock that does not go back. -/
def useMachine (hashSecret : Str → Str) : Machine State Act where
  step s a := if a.moment < s.clock then none else some (call hashSecret s a)

/-- No token has been used, and none that there will be. -/
def State.start (tokens : Table ApiToken) (clock : ℤ) : State := ⟨tokens, clock, fun _ => none, fun _ => []⟩

/-- What is written of the use of tokens. -/
structure Throttled (s : State) : Prop where
  /-- Two writes are a minute apart. -/
  apart : ∀ id, (s.written id).Pairwise fun later earlier => earlier + lastUsedThrottle ≤ later
  /-- The column has the last write. -/
  column : ∀ row ∈ s.tokens, row.lastUsedAt = (s.written row.id).head?
  /-- What is written is less than a minute behind the last use. -/
  close : ∀ row ∈ s.tokens, ∀ used, s.used row.id = some used →
    ∃ written, row.lastUsedAt = some written ∧ written ≤ used ∧ used < written + lastUsedThrottle
  /-- Uses are not written before they are. -/
  unused : ∀ row ∈ s.tokens, s.used row.id = none → row.lastUsedAt = none
  past : ∀ id, ∀ used, s.used id = some used → used ≤ s.clock
  /-- Of an id that no token has, nothing is known. -/
  fresh : ∀ id, (∀ row ∈ s.tokens, row.id ≠ id) → s.used id = none ∧ s.written id = []

section throttled

variable {s s' : State} {id : ℕ}

/-- The use of the tokens is as it was; a token that is new has not been used. -/
theorem Throttled.of_same (h : Throttled s) (hclock : s.clock ≤ now)
    (hback : ∀ r' ∈ tokens', (∃ r ∈ s.tokens, r.id = r'.id ∧ r.lastUsedAt = r'.lastUsedAt) ∨
      ((∀ r ∈ s.tokens, r.id ≠ r'.id) ∧ r'.lastUsedAt = none))
    (hforth : ∀ r ∈ s.tokens, ∃ r' ∈ tokens', r'.id = r.id) :
    Throttled { s with tokens := tokens', clock := now } where
  apart := h.apart
  column r' hr' := by
    rcases hback r' hr' with ⟨r, hr, hid, hused⟩ | ⟨hnew, hused⟩
    · rw [← hused, ← hid]
      exact h.column r hr
    · rw [hused, (h.fresh r'.id hnew).2]
      rfl
  close r' hr' used hr'used := by
    rcases hback r' hr' with ⟨r, hr, hid, hused⟩ | ⟨hnew, -⟩
    · rw [← hused]
      exact h.close r hr used (hid ▸ hr'used)
    · rw [(h.fresh r'.id hnew).1] at hr'used
      cases hr'used
  unused r' hr' hr'used := by
    rcases hback r' hr' with ⟨r, hr, hid, hused⟩ | ⟨-, hused⟩
    · rw [← hused]
      exact h.unused r hr (hid ▸ hr'used)
    · exact hused
  past id used hid := (h.past id used hid).trans hclock
  fresh id hid := h.fresh id fun r hr => by
    obtain ⟨r', hr', heq⟩ := hforth r hr
    exact heq ▸ hid r' hr'

theorem Throttled.of_clock (h : Throttled s) (hclock : s.clock ≤ now) : Throttled { s with clock := now } :=
  h.of_same hclock (fun r hr => .inl ⟨r, hr, rfl, rfl⟩) fun r hr => ⟨r, hr, rfl⟩

theorem createToken_eq_ok {label drawn : Str} {role : Role} {expiresAt : Option ℤ}
    (h : createToken hashSecret tokens label role expiresAt drawn now = .ok (tokens', secret, row)) :
    tokens' = tokens.upsert row ∧ row.id = tokens.nextId ∧ row.lastUsedAt = none := by
  unfold createToken at h
  obtain ⟨clean, -, h⟩ := bind_eq_ok.1 h
  obtain ⟨⟨tokens₁, row₁⟩, hinsert, h⟩ := bind_eq_ok.1 h
  obtain ⟨rfl, -, rfl⟩ := by simpa [pure, Except.pure] using h
  unfold insertToken at hinsert
  dsimp only at hinsert
  split_ifs at hinsert
  obtain ⟨rfl, rfl⟩ := Prod.mk.inj (Except.ok.inj hinsert)
  exact ⟨rfl, rfl, rfl⟩

/-- A revocation leaves the use of every token as it is. -/
theorem same_revokeToken (tokens : Table ApiToken) (id : ℕ) (now : ℤ) :
    (∀ r' ∈ (revokeToken tokens id now).1, ∃ r ∈ tokens, r.id = r'.id ∧ r.lastUsedAt = r'.lastUsedAt) ∧
    ∀ r ∈ tokens, ∃ r' ∈ (revokeToken tokens id now).1, r'.id = r.id := by
  unfold revokeToken
  split
  · exact ⟨fun r hr => ⟨r, hr, rfl, rfl⟩, fun r hr => ⟨r, hr, rfl⟩⟩
  · split_ifs
    · constructor
      · intro r' hr'
        obtain ⟨r, hr, rfl⟩ := mem_markRevoked.1 hr'
        exact ⟨r, hr, by split_ifs <;> rfl, by split_ifs <;> rfl⟩
      · intro r hr
        obtain ⟨r', hr', hsame, -⟩ := kept_markRevoked r hr
        exact ⟨r', hr', id_of_credential hsame⟩
    · exact ⟨fun r hr => ⟨r, hr, rfl, rfl⟩, fun r hr => ⟨r, hr, rfl⟩⟩

/-- A token that is let in, and its use not written. -/
theorem Throttled.used (h : Throttled s) (hclock : s.clock ≤ now) (hrow : row ∈ s.tokens)
    (hfresh : isStale row now = false) :
    Throttled ⟨s.tokens, now, Function.update s.used row.id (some now), s.written⟩ where
  apart := h.apart
  column := h.column
  close r hr used hused := by
    dsimp only at hused
    by_cases hid : r.id = row.id
    · obtain rfl := Table.eq_of_key hr hrow hid
      rw [Function.update_self] at hused
      obtain rfl := Option.some.inj hused
      cases hlast : r.lastUsedAt with
      | none => simp [isStale, hlast] at hfresh
      | some t =>
        simp only [isStale, hlast, Option.all_some, decide_eq_false_iff_not] at hfresh
        cases hbefore : s.used r.id with
        | none =>
          rw [h.unused r hr hbefore] at hlast
          cases hlast
        | some u =>
          obtain ⟨t', ht', hle, -⟩ := h.close r hr u hbefore
          obtain rfl := Option.some.inj (hlast.symm.trans ht')
          have hu := h.past r.id u hbefore
          exact ⟨t, rfl, by omega, by omega⟩
    · rw [Function.update_of_ne hid] at hused
      exact h.close r hr used hused
  unused r hr hunused := by
    dsimp only at hunused
    by_cases hid : r.id = row.id
    · rw [hid, Function.update_self] at hunused
      cases hunused
    · rw [Function.update_of_ne hid] at hunused
      exact h.unused r hr hunused
  past id used hused := by
    dsimp only at hused ⊢
    by_cases hid : id = row.id
    · rw [hid, Function.update_self] at hused
      exact (Option.some.inj hused).ge
    · rw [Function.update_of_ne hid] at hused
      exact (h.past id used hused).trans hclock
  fresh id hid := by
    have hne : id ≠ row.id := fun heq => hid row hrow heq.symm
    dsimp only
    rw [Function.update_of_ne hne]
    exact h.fresh id hid

/-- A token that is let in, and its use written. -/
theorem Throttled.touched (h : Throttled s) (hclock : s.clock ≤ now) (hrow : row ∈ s.tokens)
    (hstale : isStale row now = true) :
    Throttled ⟨touch s.tokens row.id now, now, Function.update s.used row.id (some now),
      Function.update s.written row.id (now :: s.written row.id)⟩ where
  apart id := by
    dsimp only
    by_cases hid : id = row.id
    · subst hid
      rw [Function.update_self, List.pairwise_cons]
      refine ⟨fun t ht => ?_, h.apart row.id⟩
      -- The last write is a minute ago, and those before are older.
      have hcolumn := h.column row hrow
      obtain ⟨last, rest, hwritten⟩ := List.exists_cons_of_ne_nil (List.ne_nil_of_mem ht)
      have hpairwise := h.apart row.id
      rw [hwritten] at hcolumn ht hpairwise
      have hlast : last + lastUsedThrottle ≤ now := by
        simp only [isStale, hcolumn, List.head?_cons, Option.all_some, decide_eq_true_eq] at hstale
        omega
      rcases List.mem_cons.1 ht with rfl | ht
      · exact hlast
      · have hle := (List.pairwise_cons.1 hpairwise).1 t ht
        have hminute : (0 : ℤ) ≤ lastUsedThrottle := by decide
        omega
    · rw [Function.update_of_ne hid]
      exact h.apart id
  column r' hr' := by
    obtain ⟨r, hr, rfl⟩ := mem_touch.1 hr'
    by_cases hid : r.id = row.id
    · simp [hid]
    · simpa [hid, Function.update_of_ne hid] using h.column r hr
  close r' hr' used hused := by
    obtain ⟨r, hr, rfl⟩ := mem_touch.1 hr'
    by_cases hid : r.id = row.id
    · simp only [hid, beq_self_eq_true, if_true, Function.update_self] at hused ⊢
      obtain rfl := Option.some.inj hused
      exact ⟨now, rfl, le_rfl, lt_add_of_pos_right now (by decide)⟩
    · simp only [beq_iff_eq, hid, if_false] at hused ⊢
      rw [Function.update_of_ne hid] at hused
      exact h.close r hr used hused
  unused r' hr' hunused := by
    obtain ⟨r, hr, rfl⟩ := mem_touch.1 hr'
    by_cases hid : r.id = row.id
    · simp [hid] at hunused
    · simp only [beq_iff_eq, hid, if_false] at hunused ⊢
      rw [Function.update_of_ne hid] at hunused
      exact h.unused r hr hunused
  past id used hused := by
    dsimp only at hused ⊢
    by_cases hid : id = row.id
    · rw [hid, Function.update_self] at hused
      exact (Option.some.inj hused).ge
    · rw [Function.update_of_ne hid] at hused
      exact (h.past id used hused).trans hclock
  fresh id hid := by
    have hback : ∀ r ∈ s.tokens, r.id ≠ id := by
      intro r hr
      obtain ⟨r', hr', hsame, -⟩ := kept_touch r hr
      exact id_of_credential hsame ▸ hid r' hr'
    have hne : id ≠ row.id := fun heq => hback row hrow heq.symm
    dsimp only
    rw [Function.update_of_ne hne, Function.update_of_ne hne]
    exact h.fresh id hback

/-- To write a use changes the table. -/
theorem touch_ne (hrow : row ∈ tokens) (hstale : isStale row now = true) : touch tokens row.id now ≠ tokens := by
  intro hsame
  have hmem : { row with lastUsedAt := some now } ∈ touch tokens row.id now :=
    mem_touch.2 ⟨row, hrow, by simp⟩
  rw [hsame] at hmem
  have heq : { row with lastUsedAt := some now } = row := Table.eq_of_key hmem hrow rfl
  rw [← heq] at hstale
  simp only [isStale, Option.all_some, sub_self] at hstale
  cases hstale

theorem Throttled.step {a : Act} (h : Throttled s) (hstep : (useMachine hashSecret).step s a = some s') :
    Throttled s' := by
  unfold useMachine at hstep
  dsimp only at hstep
  split_ifs at hstep with hback
  obtain rfl := Option.some.inj hstep
  have hclock : s.clock ≤ a.moment := not_lt.1 hback
  cases a with
  | create label role expiresAt drawn now =>
    simp only [call]
    split
    · rename_i tokens' secret row hcreate
      obtain ⟨rfl, hid, hunused⟩ := createToken_eq_ok hcreate
      refine h.of_same hclock (fun r' hr' => ?_) fun r hr => ?_
      · rcases Table.mem_upsert.1 hr' with rfl | ⟨hr', -⟩
        · exact .inr ⟨fun r hr => hid ▸ (Table.lt_nextId hr).ne, hunused⟩
        · exact .inl ⟨r', hr', rfl, rfl⟩
      · exact ⟨r, Table.mem_upsert.2 (.inr ⟨hr, by rw [key_apiToken row, hid]; exact (Table.lt_nextId hr).ne⟩), rfl⟩
    · exact h.of_clock hclock
  | verify secret now =>
    simp only [call, verifyToken]
    cases hlook : lookUp hashSecret s.tokens secret now with
    | none => exact h.of_clock hclock
    | some row =>
      obtain ⟨hrow, -⟩ := lookUp_eq_some hlook
      cases hstale : isStale row now with
      | false =>
        have hused : Throttled ⟨s.tokens, now, Function.update s.used row.id (some now), s.written⟩ :=
          h.used hclock hrow hstale
        simpa only [hstale, Bool.false_eq_true, if_false, if_true] using hused
      | true =>
        have htouched : Throttled ⟨touch s.tokens row.id now, now, Function.update s.used row.id (some now),
            Function.update s.written row.id (now :: s.written row.id)⟩ := h.touched hclock hrow hstale
        simpa only [hstale, if_true, if_neg (touch_ne hrow hstale)] using htouched
  | revoke id now =>
    obtain ⟨hsame, hforth⟩ := same_revokeToken s.tokens id now
    exact h.of_same hclock (fun r' hr' => .inl (hsame r' hr')) hforth

/-- **The last use is written at most once a minute, and is less than a minute behind.** -/
theorem last_use_throttled {clock : ℤ} (hunused : ∀ row ∈ tokens, row.lastUsedAt = none)
    (h : (useMachine hashSecret).Reachable (.start tokens clock) s) : Throttled s := by
  refine h.invariant ?_ fun _ _ _ h _ hstep => h.step hstep
  exact
    { apart := fun _ => .nil
      column := hunused
      close := fun _ _ _ hused => nomatch hused
      unused := fun row hrow _ => hunused row hrow
      past := fun _ _ hused => nomatch hused
      fresh := fun _ _ => ⟨rfl, rfl⟩ }

end throttled

/-- The token is used three times in a minute and a second. -/
def threeUses : List Act :=
  [.verify (Str.of "cabin_x") 1000000, .verify (Str.of "cabin_x") 31000000, .verify (Str.of "cabin_x") 62000000]

theorem last_use_throttled_admin : (∀ row ∈ adminTable, row.lastUsedAt = none) ∧
    ∃ s, (useMachine id).Reachable (.start adminTable 0) s ∧ s.written 1 = [62000000, 1000000] ∧ Throttled s := by
  have hunused : ∀ row ∈ adminTable, row.lastUsedAt = none := by
    intro row hrow
    rw [List.mem_singleton.1 hrow]
    rfl
  have h := Machine.reachable_final (M := useMachine id) (.start adminTable 0) threeUses
  exact ⟨hunused, _, h, rfl, last_use_throttled hunused h⟩

end Tokens

end Cabin
