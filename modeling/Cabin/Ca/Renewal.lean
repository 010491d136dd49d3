import Cabin.X509.Transparent
import Cabin.Ca.Sound

/-!
# Renewals

When the renewal of a row gives it a certificate that ends later (`ca/service.py`, `renew_in_place`).
A root is renewed for as many years as are asked for; a row below it for as many whole years as its
parent has left, read off the clock once, and from a later reading of the clock on.

* `Renewable`: a row whose renewal can be signed has all that the renewal reads;
* `renewal_ends_later`: the exact condition on the dates.
-/

namespace Cabin

open X509 Service

/-! ### What a renewal reads -/

/-- The certificate has the extensions that a renewal carries over. -/
structure HasExtensions (c : Cert) : Prop where
  parses : c.tbs.extensions.malformed = false
  ski : c.tbs.extensions.subjectKeyIdentifier ≠ none
  basicConstraints : c.tbs.extensions.basicConstraints ≠ none
  keyUsage : c.tbs.extensions.keyUsage ≠ none

/-- The row that signs the renewal of `row`: a root itself, for others the parent. -/
structure Signs (t : CaTable) (row signer : CaCertificate) : Prop where
  mem : signer ∈ t
  isSigner : row.kind = .root ∧ signer = row ∨ row.kind ≠ .root ∧ row.parentId = some signer.id
  stored : signer.keySealed ≠ none

/-- The stored keys of a row are signing keys, and its certificate has the extensions if its renewal
can be signed. -/
structure Renewable (E : Crypto) (t : CaTable) (row : CaCertificate) : Prop where
  key : ∀ s, row.keySealed = some s → ∃ k, E.unsealKey s = some k ∧ k.isSigningKey = true
  extensions : ∀ signer, Signs t row signer → HasExtensions row.cert

variable {E : Crypto} {d : Draw} {t t' cas : CaTable} {op : HierOp} {row signer r : CaCertificate}

theorem HasExtensions.continues {c c' : Cert} (h : HasExtensions c) (hc : CaX509.Continues c c') :
    HasExtensions c' := by
  have hkeep : ∀ {α : Type} {a a' : Option (Ext α)}, a'.map Ext.value = a.map Ext.value →
      a ≠ none → a' ≠ none := by
    intro α a a' heq hne hnone
    rw [hnone, Option.map_none] at heq
    exact hne (Option.map_eq_none_iff.1 heq.symm)
  exact ⟨hc.malformed.trans h.parses, hkeep hc.ski h.ski, hkeep hc.basicConstraints h.basicConstraints,
    hkeep hc.keyUsage h.keyUsage⟩

/-- A root without a key signs nothing. -/
theorem not_signs_foreignRoot {c : Cert} : ¬ Signs t (foreignRoot E cas c) signer := by
  rintro ⟨-, ⟨-, rfl⟩ | ⟨hkind, -⟩, hstored⟩
  · exact hstored rfl
  · exact hkind rfl

/-- The signer of a row goes back to its signer before. -/
theorem Signs.before (hsound : SoundTable E t) (hk : Keeps t t') {row' : CaCertificate}
    (hrow : row ∈ t) (hc : row.Continues row') (h : Signs t' row' signer) :
    ∃ p, Signs t row p := by
  rcases h.isSigner with ⟨hkind, rfl⟩ | ⟨hkind, hparent⟩
  · exact ⟨row, hrow, .inl ⟨hc.kind ▸ hkind, rfl⟩, hc.keySealed ▸ h.stored⟩
  · rw [hc.parentId] at hparent
    rw [hc.kind] at hkind
    obtain ⟨p, hp, hid, -⟩ := (hsound row hrow).shape.parent_unique hparent
    obtain ⟨p', hp', hcp⟩ := hk p hp
    obtain rfl : p' = signer := Table.eq_of_key hp' h.mem (hcp.id.trans hid)
    exact ⟨p, hp, .inr ⟨hkind, hid ▸ hparent⟩, hcp.keySealed ▸ h.stored⟩

theorem Renewable.keep (hsound : SoundTable E t) (h : Renewable E t row) (hk : Keeps t t')
    {row' : CaCertificate} (hrow : row ∈ t) (hc : row.Continues row') : Renewable E t' row' where
  key s hs := h.key s (hc.keySealed ▸ hs)
  extensions signer hsigner := by
    obtain ⟨p, hp⟩ := hsigner.before hsound hk hrow hc
    exact (h.extensions p hp).continues hc.cert

theorem keys_sealed {k : PrivateKey} (h : k.isSigningKey = true) (s : Sealed)
    (hs : some (E.sealKey d.nonce k) = some s) : ∃ k, E.unsealKey s = some k ∧ k.isSigningKey = true := by
  cases hs
  exact ⟨k, E.unsealKey_sealKey _ _, h⟩

theorem renewable_foreignRoot {c : Cert} : Renewable E t (foreignRoot E cas c) :=
  ⟨fun s hs => (by cases hs), fun _ h => absurd h not_signs_foreignRoot⟩

theorem renewable_of_adds (h : Adds E d cas op t r) (hfresh : r.id = t.nextId) :
    Renewable E (t.upsert r) r := by
  cases h with
  | root h =>
    obtain ⟨name, -, hk, htbs, -⟩ := CaX509.createRoot_spec h
    refine ⟨keys_sealed hk, fun _ _ => ?_⟩
    constructor <;> simp [htbs, encodeTbs]
  | intermediate hroot hid hkind hsealed hkey h =>
    obtain ⟨name, ski, -, hk, -, htbs, -⟩ := CaX509.createIntermediate_spec h
    refine ⟨keys_sealed hk, fun _ _ => ?_⟩
    constructor <;> simp [htbs, encodeTbs]
  | importedRoot h => exact renewable_foreignRoot
  | @importedIntermediate certPem keyPem chainPem cert key parent h =>
    obtain ⟨p, -, -, -, hk, -⟩ := CaX509.loadImport_spec h
    refine ⟨keys_sealed hk, fun signer hsigner => ?_⟩
    -- Its parent is a root whose key is not here.
    rcases hsigner.isSigner with ⟨hkind, -⟩ | ⟨-, hparent⟩
    · cases hkind
    · have hmem : foreignRoot E cas parent ∈ (cas.upsert (foreignRoot E cas parent)).upsert _ :=
        (mem_add hfresh).2 (.inr ((mem_add rfl).2 (.inl rfl)))
      obtain rfl := Table.eq_of_key hmem hsigner.mem (Option.some.inj hparent)
      exact absurd rfl hsigner.stored
  | cross hca hcaId hcaKind hroot hrootId hrootKind hne hsealed hkey hlength hpair h =>
    obtain ⟨ski, bc, ku, aki, -, -, -, -, -, htbs, -⟩ := CaX509.crossSign_spec h
    refine ⟨fun s hs => (by cases hs), fun _ _ => ?_⟩
    constructor <;> simp [htbs, encodeTbs]
  | importedSigner => exact renewable_foreignRoot
  | importedCross hissuer hsubject h =>
    obtain ⟨ski, sski, -, -, -, -, hm, hski, -⟩ := CaX509.loadCross_spec h
    obtain ⟨bc, ku, hbc, hku⟩ := CaX509.loadCross_checked h
    exact ⟨fun s hs => (by cases hs), fun _ _ => ⟨hm, by simp [hski], by simp [hbc], by simp [hku]⟩⟩

/-- Every row of a table can be renewed, as far as its certificate goes. -/
def RenewableTable (E : Crypto) (t : CaTable) : Prop := ∀ r ∈ t, Renewable E t r

theorem renewable_of_effect (hsound : SoundTable E t) (h : Effect E (Adds E d cas op) t t')
    (hrenewable : RenewableTable E t) : RenewableTable E t' := by
  refine h.forall_rows hrenewable (fun _ _ _ hk hr hc _ hren => hren.keep hsound hk hr hc) ?_ ?_
  · intro row signer c hren hrow hk
    have hcont : row.Continues { row with cert := c } := by
      simpa using continues_renewed hren hren.mem
    exact hrow.keep hsound hk hren.mem hcont
  · exact fun r hfresh hadds _ => renewable_of_adds hadds hfresh

theorem renewable_of_reach {C : CaTable → HierOp × Draw → Prop}
    (h : (hierarchy E).Reach C .empty t) : RenewableTable E t := by
  have hboth : SoundTable E t ∧ RenewableTable E t := by
    refine h.invariant (I := fun t => SoundTable E t ∧ RenewableTable E t)
      ⟨fun _ hr => absurd hr Table.not_mem_empty, fun _ hr => absurd hr Table.not_mem_empty⟩
      fun t a t' ht _ hstep => ?_
    have heffects := hierarchy_step_effects hstep
    clear hstep
    induction heffects with
    | refl => exact ht
    | tail _ heffect ih =>
      exact ⟨sound_of_effect heffect ih.1, renewable_of_effect ih.1 heffect ih.2⟩
  exact hboth.2

/-! ### The years of a renewal -/

/-- The seconds of a number of years. -/
def yearSeconds (n : ℤ) : ℤ := 86400 * (CaX509.daysPerYear * n)

theorem seconds_add_years (now n : ℤ) :
    Instant.seconds (now + CaX509.years n) = Instant.seconds now + yearSeconds n := by
  unfold Instant.seconds CaX509.years yearSeconds Instant.days Instant.ofSeconds
  omega

/-- `n` is how many of the years asked for are left until `deadline`, as whole years. -/
structure WholeYears (d : Draw) (deadline years n : ℤ) : Prop where
  le : n ≤ years
  fits : d.yearsNow + CaX509.years n ≤ deadline
  most : n < years → deadline < d.yearsNow + CaX509.years (n + 1)

theorem wholeYears_iff {deadline years n : ℤ} :
    WholeYears d deadline years n ↔ n = yearsUntil d deadline years := by
  have hdays : ∀ m : ℤ, CaX509.years m = 31536000000000 * m := by
    intro m
    unfold CaX509.years Instant.days Instant.ofSeconds CaX509.daysPerYear
    omega
  have huntil : yearsUntil d deadline years =
      min years ((deadline - d.yearsNow) / 31536000000000) := by
    unfold yearsUntil Instant.days Instant.ofSeconds CaX509.daysPerYear
    rw [Int.ediv_ediv_of_nonneg (by decide)]
    norm_num
  rw [huntil]
  constructor
  · rintro ⟨hle, hfits, hmost⟩
    rw [hdays] at hfits hmost
    omega
  · rintro rfl
    refine ⟨?_, ?_, fun hlt => ?_⟩
    · omega
    · rw [hdays]
      omega
    · rw [hdays]
      omega

/-- What the dates have to be for a renewal to do what it is for. -/
structure EndsLater (d : Draw) (t : CaTable) (row : CaCertificate) (years : ℤ) : Prop where
  /-- The key is unsealed, and signing and commit succeed. -/
  works : d.fault ≠ some .unseal ∧ d.fault ≠ some .sign ∧ d.fault ≠ some .commit
  /-- The clock is past what a certificate can be dated. -/
  dated : earliestUtcTime ≤ d.now - CaX509.backdate
  /-- A root ends before the years asked for are over. -/
  root : row.kind = .root → row.cert.tbs.notAfter < Instant.seconds d.now + yearSeconds years
  /-- The parent has at least one whole year left; the row ends before that many years are over, and the
  parent not. -/
  below : ∀ p ∈ t, row.parentId = some p.id → ∃ n, 1 ≤ n ∧
    WholeYears d p.cert.notValidAfter years n ∧
    row.cert.tbs.notAfter < Instant.seconds d.now + yearSeconds n ∧
    Instant.seconds d.now + yearSeconds n ≤ p.cert.tbs.notAfter

/-- How a renewal should go: the new certificate ends later than the old one, than the call, and not
later than the parent's; or an error that the route handles, and the table as it was. -/
def RenewsWell (E : Crypto) (d : Draw) (t : CaTable) (row : CaCertificate) (years : ℤ) : Prop :=
  (∃ t' r, renewInPlace E d t row.id years = .ok (t', r) ∧ r ∈ t' ∧ r.id = row.id ∧
    row.cert.notValidAfter < r.cert.notValidAfter ∧ d.now < r.cert.notValidAfter ∧
    ∀ p ∈ t, row.parentId = some p.id → r.cert.notValidAfter ≤ p.cert.notValidAfter) ∨
  ∃ e, renewInPlace E d t row.id years = .error e ∧
    e.kind ∈ [.unknownIssuer, .caNotConfigured, .rowRetired] ∧
    (hierarchy E).step t (.renewInPlace row.id years, d) = some t

/-! ### The renewal of a row -/

/-- For how many years a row is renewed. -/
def renewalYears (d : Draw) (row signer : CaCertificate) (years : ℤ) : ℤ :=
  if row.kind = .root then years else yearsUntil d signer.cert.notValidAfter years

theorem renewalSigner_eq (hrow : row ∈ t) (hsigns : Signs t row signer) {s : Sealed}
    (hs : signer.keySealed = some s) {years : ℤ} :
    renewalSigner d t row years = .ok ⟨signer.cert, s, renewalYears d row signer years⟩ := by
  unfold renewalSigner renewalYears
  rcases hsigns.isSigner with ⟨hkind, rfl⟩ | ⟨hkind, hparent⟩
  · simp only [hkind, hs, if_true]
    rfl
  · rw [if_neg hkind]
    cases hrowKind : row.kind with
    | root => exact absurd hrowKind hkind
    | intermediate | cross =>
      simp only [hparent, getCa_of_mem hsigns.mem, bind, Except.bind, hs]
      rfl

theorem extension_of_ne_none {α : Type} {c : Cert} {field : Extensions → Option (Ext α)}
    (hm : c.tbs.extensions.malformed = false) (h : field c.tbs.extensions ≠ none) :
    ∃ e, c.extension field = .ok e := by
  obtain ⟨e, he⟩ := Option.ne_none_iff_exists'.1 h
  exact ⟨e, Cert.extension_eq_ok.2 ⟨hm, he⟩⟩

theorem extension?_of_parses {α : Type} {c : Cert} (field : Extensions → Option (Ext α))
    (hm : c.tbs.extensions.malformed = false) : c.extension? field = .ok (field c.tbs.extensions) :=
  Cert.extension?_eq_ok.2 ⟨hm, rfl⟩

/-- With the extensions there, a renewal is what the builder makes of it. -/
theorem renewCertificate_eq_build {c parent : Cert} {k : PrivateKey} (h : HasExtensions c)
    (hparent : parent.tbs.extensions.malformed = false) (n : ℤ) :
    ∃ x, CaX509.renewCertificate E d c parent k n = build E d k parent.subject c.subject c.publicKey
      (d.now - CaX509.backdate) (d.now + CaX509.years n) x := by
  obtain ⟨ski, hski⟩ := extension_of_ne_none h.parses h.ski
  obtain ⟨bc, hbc⟩ := extension_of_ne_none h.parses h.basicConstraints
  obtain ⟨ku, hku⟩ := extension_of_ne_none h.parses h.keyUsage
  obtain ⟨aki, haki⟩ : ∃ aki, CaX509.renewedAki E c.tbs.extensions.authorityKeyIdentifier parent k =
      .ok aki := by
    unfold CaX509.renewedAki CaX509.authorityKeyIdentifier
    rw [extension?_of_parses _ hparent]
    cases c.tbs.extensions.authorityKeyIdentifier with
    | none => exact ⟨none, rfl⟩
    | some x => cases parent.tbs.extensions.subjectKeyIdentifier <;> exact ⟨_, rfl⟩
  unfold CaX509.renewCertificate
  simp only [hski, hbc, hku, extension?_of_parses _ h.parses, bind, Except.bind, haki]
  exact ⟨_, rfl⟩

/-- What the builder does: the dates are refused, signing fails, or there is a certificate. -/
theorem build_cases (E : Crypto) (d : Draw) (k : PrivateKey) (issuer subject : Name) (pk : PublicKey)
    (notBefore notAfter : ℤ) (x : Extensions) : (∃ e, build E d k issuer subject pk notBefore notAfter x = .error e ∧
      (e.kind = .value ∧ (notBefore < earliestUtcTime ∨ notAfter < notBefore) ∨
        e.kind = .signing ∧ d.fault = some .sign)) ∨
    ∃ c, build E d k issuer subject pk notBefore notAfter x = .ok c ∧
      earliestUtcTime ≤ notBefore ∧ notBefore ≤ notAfter ∧ d.fault ≠ some .sign ∧
      c.tbs.notAfter = Instant.seconds notAfter := by
  cases hbuild : build E d k issuer subject pk notBefore notAfter x with
  | error e =>
    refine .inl ⟨e, rfl, ?_⟩
    simp only [build, Draw.attempt, bind_eq_error, refuse_eq_error] at hbuild
    rcases hbuild with ⟨h, rfl⟩ | ⟨-, -, ⟨h, rfl⟩ | ⟨-, -, ⟨h, rfl⟩ | ⟨-, -, h⟩⟩⟩
    · exact .inl ⟨rfl, .inl h⟩
    · exact .inl ⟨rfl, .inr h⟩
    · exact .inr ⟨rfl, h⟩
    · cases h
  | ok c =>
    refine .inr ⟨c, rfl, ?_⟩
    simp only [build, Draw.attempt, bind_eq_ok, refuse_eq_ok, pure_eq_ok] at hbuild
    obtain ⟨-, hearly, -, hdates, -, hsign, rfl⟩ := hbuild
    exact ⟨Int.not_lt.1 hearly, Int.not_lt.1 hdates, hsign, rfl⟩

/-- **How a renewal ends** whose signing key is stored. -/
theorem renewInPlace_cases (hsound : SoundTable E t) (hrenewable : RenewableTable E t) (hrow : row ∈ t)
    (hactive : row.status = .active) (hsigns : Signs t row signer) (years : ℤ) :
    (∃ e, renewInPlace E d t row.id years = .error e ∧
      (e.kind = .secrets ∧ d.fault = some .unseal ∨
        e.kind = .value ∧ (d.now - CaX509.backdate < earliestUtcTime ∨
          d.now + CaX509.years (renewalYears d row signer years) < d.now - CaX509.backdate) ∨
        e.kind = .signing ∧ d.fault = some .sign ∨ e.kind = .database ∧ d.fault = some .commit)) ∨
    ∃ c, renewInPlace E d t row.id years = .ok (replaceCert t row.id c, { row with cert := c }) ∧
      (d.fault ≠ some .unseal ∧ d.fault ≠ some .sign ∧ d.fault ≠ some .commit) ∧
      earliestUtcTime ≤ d.now - CaX509.backdate ∧
      c.tbs.notAfter =
        Instant.seconds (d.now + CaX509.years (renewalYears d row signer years)) := by
  obtain ⟨s, hs⟩ := Option.ne_none_iff_exists'.1 hsigns.stored
  obtain ⟨key, hkey, hsigning⟩ := (hrenewable signer hsigns.mem).key s hs
  have hexts : HasExtensions row.cert := (hrenewable row hrow).extensions signer hsigns
  -- The signer is a root with its key, so its own renewal could be signed as well.
  have hparses : signer.cert.tbs.extensions.malformed = false := by
    rcases hsigns.isSigner with ⟨-, rfl⟩ | ⟨-, hparent⟩
    · exact hexts.parses
    · obtain ⟨p, hp, hid, hkind, -⟩ := (hsound row hrow).shape.parent_unique hparent
      obtain rfl : p = signer := Table.eq_of_key hp hsigns.mem hid
      exact ((hrenewable p hp).extensions p ⟨hp, .inl ⟨hkind, rfl⟩, hsigns.stored⟩).parses
  obtain ⟨x, hx⟩ := renewCertificate_eq_build (E := E) (d := d) (k := key) hexts hparses
    (renewalYears d row signer years)
  have hunseal : unsealSigningKey E d s =
      (d.attempt .unseal ⟨.secrets, "secret.key is not readable"⟩ >>= fun _ => .ok key) := by
    unfold unsealSigningKey
    rw [hkey]
    simp [refuse, hsigning]
  have hsteps : renewInPlace E d t row.id years =
      (d.attempt .unseal ⟨.secrets, "secret.key is not readable"⟩ >>= fun _ =>
        build E d key signer.cert.subject row.cert.subject row.cert.publicKey
          (d.now - CaX509.backdate) (d.now + CaX509.years (renewalYears d row signer years)) x >>=
        fun c => commit d (replaceCert t row.id c) { row with cert := c }) := by
    unfold renewInPlace
    rw [getCa_of_mem hrow]
    simp only [bind, Except.bind, refuse, hactive, reduceCtorEq, if_false,
      renewalSigner_eq hrow hsigns hs, hunseal]
    cases d.attempt .unseal ⟨.secrets, "secret.key is not readable"⟩ with
    | error e => rfl
    | ok u => simp only [hx]
  rw [hsteps]
  by_cases hfault : d.fault = some .unseal
  · refine .inl ⟨⟨.secrets, "secret.key is not readable"⟩, ?_, .inl ⟨rfl, hfault⟩⟩
    simp only [Draw.attempt, refuse, hfault, if_true]
    rfl
  simp only [Draw.attempt, refuse, if_neg hfault, bind, Except.bind]
  rcases build_cases E d key signer.cert.subject row.cert.subject row.cert.publicKey
    (d.now - CaX509.backdate) (d.now + CaX509.years (renewalYears d row signer years)) x with
    ⟨e, he, hkind⟩ | ⟨c, hc, hearly, -, hsign, hend⟩
  · rw [he]
    refine .inl ⟨e, rfl, ?_⟩
    rcases hkind with ⟨hkind, hdates⟩ | ⟨hkind, hsign⟩
    · exact .inr (.inl ⟨hkind, hdates⟩)
    · exact .inr (.inr (.inl ⟨hkind, hsign⟩))
  · rw [hc]
    by_cases hcommit : d.fault = some .commit
    · refine .inl ⟨⟨.database, "commit failed"⟩, ?_, .inr (.inr (.inr ⟨rfl, hcommit⟩))⟩
      simp [commit, Draw.attempt, refuse, hcommit, bind, Except.bind]
    · refine .inr ⟨c, ?_, ⟨hfault, hsign, hcommit⟩, hearly, hend⟩
      simp [commit, Draw.attempt, refuse, hcommit, bind, Except.bind]

/-- The condition, in the years of the renewal. -/
theorem endsLater_iff (hsound : SoundTable E t) (hrow : row ∈ t) (hsigns : Signs t row signer)
    {years : ℤ} (hyears : 1 ≤ years) : EndsLater d t row years ↔
      (d.fault ≠ some .unseal ∧ d.fault ≠ some .sign ∧ d.fault ≠ some .commit) ∧
      earliestUtcTime ≤ d.now - CaX509.backdate ∧ 1 ≤ renewalYears d row signer years ∧
      row.cert.tbs.notAfter < Instant.seconds d.now + yearSeconds (renewalYears d row signer years) ∧
      ∀ p ∈ t, row.parentId = some p.id →
        Instant.seconds d.now + yearSeconds (renewalYears d row signer years) ≤ p.cert.tbs.notAfter := by
  unfold renewalYears
  rcases hsigns.isSigner with ⟨hkind, rfl⟩ | ⟨hkind, hparent⟩
  · have hnone := (hsound signer hrow).shape.parentId_root hkind
    have hvacuous : ∀ p ∈ t, signer.parentId ≠ some p.id := by simp [hnone]
    rw [if_pos hkind]
    constructor
    · rintro ⟨hworks, hdated, hroot, -⟩
      exact ⟨hworks, hdated, hyears, hroot hkind, fun p hp h => absurd h (hvacuous p hp)⟩
    · rintro ⟨hworks, hdated, -, hroot, -⟩
      exact ⟨hworks, hdated, fun _ => hroot, fun p hp h => absurd h (hvacuous p hp)⟩
  · have honly : ∀ p ∈ t, row.parentId = some p.id → p = signer := fun p hp h =>
      Table.eq_of_key hp hsigns.mem (Option.some.inj (h.symm.trans hparent))
    rw [if_neg hkind]
    constructor
    · rintro ⟨hworks, hdated, -, hbelow⟩
      obtain ⟨n, hn, hwhole, hlater, hle⟩ := hbelow signer hsigns.mem hparent
      obtain rfl := wholeYears_iff.1 hwhole
      refine ⟨hworks, hdated, hn, hlater, fun p hp h => ?_⟩
      obtain rfl := honly p hp h
      exact hle
    · rintro ⟨hworks, hdated, hn, hlater, hle⟩
      refine ⟨hworks, hdated, fun h => absurd h hkind, fun p hp h => ?_⟩
      obtain rfl := honly p hp h
      exact ⟨_, hn, wholeYears_iff.2 rfl, hlater, hle p hp h⟩

theorem notValidAfter_lt {c c' : Cert} :
    c.notValidAfter < c'.notValidAfter ↔ c.tbs.notAfter < c'.tbs.notAfter := by
  unfold Cert.notValidAfter Instant.ofSeconds
  omega

/-- **When a renewal does what it is for.**  In every reachable table, for an active row whose renewal
can be signed and years that the route admits: the renewal gives the row a certificate that ends later
than the old one and than the call, and not later than the parent's, or raises an error that the route
handles, if and only if the dates are as in `EndsLater`. -/
theorem renewal_ends_later (h : (hierarchy E).Reachable .empty t) (hrow : row ∈ t)
    (hactive : row.status = .active) (hkey : ∃ signer, Signs t row signer) {years : ℤ}
    (hyears : 1 ≤ years ∧ years ≤ 50) :
    RenewsWell E d t row years ↔ EndsLater d t row years := by
  have hsound := sound_of_reach h
  obtain ⟨signer, hsigns⟩ := hkey
  rw [endsLater_iff hsound hrow hsigns hyears.1]
  have hcases := renewInPlace_cases (d := d) hsound (renewable_of_reach h) hrow hactive hsigns years
  generalize renewalYears d row signer years = n at hcases ⊢
  constructor
  · rintro (⟨t', r, hok, hr, hid, hlater, hnow, hparent⟩ | ⟨e, herror, hkind, -⟩)
    · rcases hcases with ⟨e, herror, -⟩ | ⟨c, hc, hworks, hdated, hend⟩
      · rw [hok] at herror
        cases herror
      · obtain ⟨rfl, rfl⟩ : replaceCert t row.id c = t' ∧ { row with cert := c } = r := by
          simpa [hok] using hc.symm
        rw [seconds_add_years] at hend
        refine ⟨hworks, hdated, ?_, ?_, fun p hp h => ?_⟩
        · -- With no year granted it would have ended by now.
          have hmoment : d.now < Instant.ofSeconds (Instant.seconds d.now + yearSeconds n) := by
            simpa [Cert.notValidAfter, hend] using hnow
          unfold Instant.ofSeconds Instant.seconds yearSeconds CaX509.daysPerYear at hmoment
          omega
        · simpa [hend] using notValidAfter_lt.1 hlater
        · have hle := hparent p hp h
          unfold Cert.notValidAfter Instant.ofSeconds at hle
          simp only [hend] at hle
          omega
    · rcases hcases with ⟨e', herror', hkinds⟩ | ⟨c, hc, -⟩
      · obtain rfl : e = e' := by simpa [herror] using herror'
        rcases hkinds with ⟨hk, -⟩ | ⟨hk, -⟩ | ⟨hk, -⟩ | ⟨hk, -⟩ <;> simp [hk] at hkind
      · rw [herror] at hc
        cases hc
  · rintro ⟨⟨hunseal, hsign, hcommit⟩, hdated, hn, hlater, hparent⟩
    rcases hcases with ⟨e, -, hkinds⟩ | ⟨c, hc, -, -, hend⟩
    · rcases hkinds with ⟨-, hf⟩ | ⟨-, hearly | hback⟩ | ⟨-, hf⟩ | ⟨-, hf⟩
      · exact absurd hf hunseal
      · omega
      · unfold CaX509.years Instant.days Instant.ofSeconds CaX509.daysPerYear CaX509.backdate
          Instant.minutes Instant.ofSeconds at hback
        omega
      · exact absurd hf hsign
      · exact absurd hf hcommit
    · rw [seconds_add_years] at hend
      refine .inl ⟨_, _, hc, mem_replaceCert.2 ⟨row, hrow, by simp⟩, rfl, ?_, ?_, fun p hp h => ?_⟩
      · exact notValidAfter_lt.2 (hend ▸ hlater)
      · simp only [Cert.notValidAfter, hend]
        unfold Instant.ofSeconds Instant.seconds yearSeconds CaX509.daysPerYear
        omega
      · have hle := hparent p hp h
        unfold Cert.notValidAfter Instant.ofSeconds
        simp only [hend]
        omega

/-- A root for 20 years. -/
def longRoot : CaTable :=
  (hierarchy .transparent).final .empty
    [(.createRoot (Str.of "Root") "ecdsa-p256" 20 1, .sample 1)]

/-- A root for 20 years that is renewed for 25 ends later. -/
theorem renewal_ends_later_longRoot :
    ∃ row ∈ longRoot, RenewsWell .transparent (.sample 2) longRoot row 25 := by
  have hreach : (hierarchy .transparent).Reachable .empty longRoot := Machine.reachable_final _ _
  obtain ⟨row, hrow, hkind, hactive, hstored, hparent, hend⟩ : ∃ row ∈ longRoot, row.kind = .root ∧
      row.status = .active ∧ row.keySealed ≠ none ∧ row.parentId = none ∧
      row.cert.tbs.notAfter < Instant.seconds (Draw.sample 2).now + yearSeconds 25 := by
    decide +kernel
  refine ⟨row, hrow, (renewal_ends_later hreach hrow hactive ⟨row, hrow, .inl ⟨hkind, rfl⟩, hstored⟩
    (by decide)).2 ⟨by decide, by decide, fun _ => hend, fun p _ h => ?_⟩⟩
  rw [hparent] at h
  cases h

/-- Renewed for one year, the same root ends earlier than it did. -/
theorem renewal_shortens : ¬ ∀ t, (hierarchy .transparent).Reachable .empty t → ∀ row ∈ t,
    row.status = .active → (∃ signer, Signs t row signer) → ∀ years, 1 ≤ years ∧ years ≤ 50 →
    ∀ d : Draw, d.yearsNow ≤ d.now → RenewsWell .transparent d t row years := by
  intro hall
  have hreach : (hierarchy .transparent).Reachable .empty longRoot := Machine.reachable_final _ _
  obtain ⟨row, hrow, hkind, hactive, hstored, hid, hend⟩ : ∃ row ∈ longRoot, row.kind = .root ∧
      row.status = .active ∧ row.keySealed ≠ none ∧ row.id = 1 ∧
      Instant.days 20365 < row.cert.notValidAfter := by
    decide +kernel
  have hrun : (renewInPlace .transparent (.sample 2) longRoot 1 1).toOption.map
      (fun x => x.2.cert.notValidAfter) = some (Instant.days 20365) := by
    decide +kernel
  rcases hall longRoot hreach row hrow hactive ⟨row, hrow, .inl ⟨hkind, rfl⟩, hstored⟩ 1 (by decide)
    (.sample 2) (by decide) with ⟨t', r, hok, -, -, hlater, -⟩ | ⟨e, herror, -⟩
  · rw [hid] at hok
    rw [hok] at hrun
    have hnew : r.cert.notValidAfter = Instant.days 20365 := Option.some.inj hrun
    rw [hnew] at hlater
    exact absurd (hend.trans hlater) (by decide)
  · rw [hid] at herror
    rw [herror] at hrun
    cases hrun

end Cabin
