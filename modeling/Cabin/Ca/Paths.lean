import Cabin.Ca.Chains

/-!
# Paths that can be built

A path served over a cross certificate is of use only if a relying party can build it: names and
signatures have to link, key identifiers have to match and the path lengths have to leave room.
Names and signatures always do (`SoundTable`).  The rest is checked when a certificate is made, but
not all of it when one is imported: `importCross` looks at the path length of the subject root
instead of the cross certificate's, may attach the certificate to a stored signing root other than
the one submitted, and neither import compares an AuthorityKeyIdentifier.

* `alternate_paths_buildable` : every cross path can be built, in every run whose imports pass
  the missing checks (`ImportsFit`);
* `short_cross_served` : a cross certificate without room for the intermediate is imported and
  served.
-/

namespace Cabin

open X509 Service

namespace X509.Cert

/-- The path length of a certificate, if it has one. -/
def pathLength (c : Cert) : Option ℕ :=
  c.tbs.extensions.basicConstraints.bind fun e => e.value.pathLength

/-- The path length is absent or at least `n`. -/
def RoomFor (c : Cert) (n : ℕ) : Prop := ∀ k ∈ c.pathLength, n ≤ k

/-- The AuthorityKeyIdentifier, if there is one, is the SubjectKeyIdentifier of `p`. -/
def AkiMatches (c p : Cert) : Prop :=
  ∀ a ∈ c.tbs.extensions.authorityKeyIdentifier, ∃ k ∈ p.ski, a.value.keyIdentifier = some k

instance (c : Cert) (n : ℕ) : Decidable (c.RoomFor n) :=
  inferInstanceAs (Decidable (∀ k ∈ c.pathLength, n ≤ k))

instance (c p : Cert) : Decidable (c.AkiMatches p) :=
  decidable_of_iff (∀ a ∈ c.tbs.extensions.authorityKeyIdentifier,
      p.ski.any fun k => a.value.keyIdentifier = some k) (by
    refine forall₂_congr fun a _ => ?_
    cases p.ski <;> simp)

end X509.Cert

/-- What a row has to offer a path builder. -/
def Buildable (t : CaTable) (r : CaCertificate) : Prop :=
  match r.kind with
  | .root => True
  | .intermediate => ∃ p ∈ t, r.parentId = some p.id ∧ r.cert.AkiMatches p.cert
  | .cross => ∃ p ∈ t, r.parentId = some p.id ∧ r.cert.AkiMatches p.cert ∧ r.cert.RoomFor 1 ∧
      p.cert.RoomFor 2

/-- The signing certificate an imported cross certificate is served with: that of the stored
signing root, if there is one. -/
def servedSigner (cas : CaTable) (op : HierOp) (issuerCert : Cert) : Cert :=
  ((storedPair cas op).map fun p => p.2.cert).getD issuerCert

/-- The intermediate and the parent of an imported hierarchy. -/
def importedPair : HierOp → Option (Cert × Cert)
  | .importHierarchy (.ok cert) _ (.ok parent) => some (cert, parent)
  | _ => none

/-- An imported cross certificate and the issuer certificate submitted with it. -/
def importedCross : HierOp → Option (Cert × Cert)
  | .importCross (.ok cross) (.ok issuerCert) => some (cross, issuerCert)
  | _ => none

/-- The checks the imports leave out: the key identifier of an imported intermediate and of a cross
certificate, the path length of the cross certificate and of the signing root it is served with. -/
def ImportsFit (cas : CaTable) (a : HierOp × Draw) : Prop :=
  (∀ p ∈ importedPair a.1, p.1.AkiMatches p.2) ∧
  ∀ p ∈ importedCross a.1, p.1.RoomFor 1 ∧ (servedSigner cas a.1 p.2).RoomFor 2 ∧
    p.1.AkiMatches (servedSigner cas a.1 p.2)

instance (cas : CaTable) (a : HierOp × Draw) : Decidable (ImportsFit cas a) :=
  inferInstanceAs (Decidable (_ ∧ _))

variable {E : Crypto} {d : Draw} {cas t t' : CaTable} {op : HierOp}

/-! ### What a renewal keeps -/

theorem pathLength_continues {c c' : Cert} (h : CaX509.Continues c c') :
    c'.pathLength = c.pathLength := by
  have hb := h.basicConstraints
  unfold Cert.pathLength
  cases hc : c.tbs.extensions.basicConstraints <;> cases hc' : c'.tbs.extensions.basicConstraints <;>
    simp_all

theorem roomFor_continues {c c' : Cert} {n : ℕ} (h : CaX509.Continues c c') (hr : c.RoomFor n) :
    c'.RoomFor n := by
  unfold Cert.RoomFor
  rw [pathLength_continues h]
  exact hr

theorem akiMatches_continues {c p p' : Cert} (h : CaX509.Continues p p') (hr : c.AkiMatches p) :
    c.AkiMatches p' := by
  intro a ha
  rw [show p'.ski = p.ski from h.ski]
  exact hr a ha

/-- The AuthorityKeyIdentifier made for an issuer with a SubjectKeyIdentifier is that. -/
theorem akiMatches_of_authorityKeyIdentifier {c p : Cert} {k : PrivateKey}
    {a : AuthorityKeyIdentifier} (h : CaX509.authorityKeyIdentifier E p k = .ok a)
    (hski : p.ski ≠ none)
    (hc : ∀ e ∈ c.tbs.extensions.authorityKeyIdentifier, e.value = a) : c.AkiMatches p := by
  obtain ⟨-, rfl⟩ := CaX509.authorityKeyIdentifier_spec h
  intro e he
  rw [hc e he]
  unfold Cert.ski at hski ⊢
  cases hs : p.tbs.extensions.subjectKeyIdentifier with
  | none => simp [hs] at hski
  | some s => exact ⟨s.value, by simp, rfl⟩

/-- A root that can sign has a SubjectKeyIdentifier. -/
theorem Sound.ski_of_keySealed {r : CaCertificate} (h : Sound E t r) (hkind : r.kind = .root)
    {s : Sealed} (hs : r.keySealed = some s) : r.cert.ski ≠ none := by
  cases h.shape with
  | root _ _ _ signs => exact (signs (by simp [hs])).2
  | intermediate kind => simp [hkind] at kind
  | cross kind => simp [hkind] at kind

/-- A renewal names the SubjectKeyIdentifier of its signer, if it names any. -/
theorem Renewal.akiMatches {row signer : CaCertificate} {c : Cert}
    (h : Renewal E t row signer c) (hsigner : Sound E t signer) (hkind : signer.kind = .root) :
    c.AkiMatches signer.cert := by
  obtain ⟨d, key, n, s, hs, -, hc⟩ := h.signed
  obtain ⟨ski, bc, ku, aki, -, -, -, -, haki, htbs, -⟩ := CaX509.renewCertificate_spec hc
  rcases haki with ⟨-, rfl⟩ | ⟨a, ha, rfl, -⟩
  · intro e he
    simp [htbs, encodeTbs] at he
  · refine akiMatches_of_authorityKeyIdentifier ha (hsigner.ski_of_keySealed hkind hs) ?_
    intro e he
    obtain rfl : e = ⟨a, false⟩ := by simpa [htbs, encodeTbs, eq_comm] using he
    rfl

/-! ### Rows stay buildable -/

theorem Buildable.keep {r r' : CaCertificate} (h : Buildable t r) (hk : Keeps t t')
    (hc : r.Continues r') (hcert : r'.cert = r.cert) : Buildable t' r' := by
  unfold Buildable at h ⊢
  rw [hc.kind, hc.parentId, hcert]
  cases hkind : r.kind with
  | root => trivial
  | intermediate =>
    rw [hkind] at h
    obtain ⟨p, hp, hpar, haki⟩ := h
    obtain ⟨p', hp', hcp⟩ := hk p hp
    exact ⟨p', hp', hcp.id ▸ hpar, akiMatches_continues hcp.cert haki⟩
  | cross =>
    rw [hkind] at h
    obtain ⟨p, hp, hpar, haki, hroom, hroom'⟩ := h
    obtain ⟨p', hp', hcp⟩ := hk p hp
    exact ⟨p', hp', hcp.id ▸ hpar, akiMatches_continues hcp.cert haki, hroom,
      roomFor_continues hcp.cert hroom'⟩

theorem Buildable.renew {row signer : CaCertificate} {c : Cert} (hren : Renewal E t row signer c)
    (hsound : SoundTable E t) (h : Buildable t row) (hk : Keeps t (replaceCert t row.id c)) :
    Buildable (replaceCert t row.id c) { row with cert := c } := by
  obtain ⟨d, key, n, s, -, -, hc⟩ := hren.signed
  have hcont := CaX509.renewCertificate_continues hc
  obtain ⟨q, hq, hcq⟩ := hk signer hren.signer_mem
  have hroot : row.kind ≠ .root → row.parentId = some signer.id ∧ signer.kind = .root := by
    intro hne
    rcases hren.signer_eq with ⟨hr, -⟩ | ⟨-, hpar⟩
    · exact absurd hr hne
    · obtain ⟨p, hp, hid, hkind, -⟩ := (hsound row hren.mem).shape.parent_unique hpar
      obtain rfl : p = signer := Table.eq_of_key hp hren.signer_mem hid
      exact ⟨hpar, hkind⟩
  unfold Buildable at h ⊢
  dsimp only
  cases hkind : row.kind with
  | root => trivial
  | intermediate =>
    obtain ⟨hpar, hsk⟩ := hroot (by simp [hkind])
    have haki := hren.akiMatches (hsound signer hren.signer_mem) hsk
    exact ⟨q, hq, hcq.id ▸ hpar, akiMatches_continues hcq.cert haki⟩
  | cross =>
    rw [hkind] at h
    obtain ⟨p, hp, hpar', -, hroom, hroom'⟩ := h
    obtain ⟨hpar, hsk⟩ := hroot (by simp [hkind])
    have haki := hren.akiMatches (hsound signer hren.signer_mem) hsk
    obtain rfl : p = signer :=
      Table.eq_of_key hp hren.signer_mem (Option.some.inj (hpar'.symm.trans hpar))
    exact ⟨q, hq, hcq.id ▸ hpar, akiMatches_continues hcq.cert haki, roomFor_continues hcont hroom,
      roomFor_continues hcq.cert hroom'⟩

/-- The path lengths `crossPathLengthError` lets pass leave room. -/
theorem roomFor_of_crossPathLengthError {subject issuer : Cert}
    (h : CaX509.crossPathLengthError subject issuer = .ok none) :
    subject.RoomFor 1 ∧ issuer.RoomFor 2 := by
  obtain ⟨ibc, sbc, hi, hs, hi2, hs1⟩ := CaX509.crossPathLengthError_eq_none h
  rw [Cert.extension_eq_ok] at hi hs
  constructor
  · intro k hk
    exact hs1 k (by simpa [Cert.pathLength, hs.2] using hk)
  · intro k hk
    exact hi2 k (by simpa [Cert.pathLength, hi.2] using hk)

/-- Every row an operation adds can be built upon, if the imports pass the missing checks. -/
theorem buildable_of_adds {r : CaCertificate} (h : Adds E d cas op t r) (hsound : SoundTable E t)
    (hfresh : r.id = t.nextId) (hfit : ImportsFit cas (op, d)) : Buildable (t.upsert r) r := by
  have hold : ∀ {x}, x ∈ t → x ∈ t.upsert r := fun hx => (mem_add hfresh).2 (.inr hx)
  cases h with
  | root => trivial
  | intermediate hroot hid hkind hsealed hkey h =>
    obtain ⟨name, ski, -, -, hski, htbs, -⟩ := CaX509.createIntermediate_spec h
    refine ⟨_, hold hroot, by simp [hid], fun a ha => ?_⟩
    obtain rfl : a = ⟨⟨some ski.value, none, none⟩, false⟩ := by
      simpa [htbs, encodeTbs, eq_comm] using ha
    exact ⟨ski.value, by simp [Cert.ski, (Cert.extension_eq_ok.1 hski).2], rfl⟩
  | importedRoot => trivial
  | importedIntermediate h =>
    obtain ⟨p, hp, rfl, rfl, -⟩ := CaX509.loadImport_spec h
    cases hp
    exact ⟨_, hold ((mem_add rfl).2 (.inl rfl)), rfl, hfit.1 _ rfl⟩
  | @cross caId signingRootId years ca root keySealed issuerKey cert hca hcaId hcaKind hroot hrootId
      hrootKind hne hsealed hkey hlength hpair h =>
    obtain ⟨ski, bc, ku, aki, -, -, hbc, -, haki, htbs, -⟩ := CaX509.crossSign_spec h
    obtain ⟨hroom, hroom'⟩ := roomFor_of_crossPathLengthError hlength
    refine ⟨_, hold hroot, by simp [hrootId], ?_, ?_, hroom'⟩
    · refine akiMatches_of_authorityKeyIdentifier haki
        ((hsound _ hroot).ski_of_keySealed hrootKind hsealed) fun e he => ?_
      obtain rfl : e = ⟨aki, false⟩ := by simpa [htbs, encodeTbs, eq_comm] using he
      rfl
    · have hlen : cert.pathLength = ca.cert.pathLength := by
        simp [Cert.pathLength, htbs, encodeTbs, hbc]
      unfold Cert.RoomFor
      dsimp only
      rw [hlen]
      exact hroom
  | importedSigner => trivial
  | @importedCross crossPem issuerPem subject issuer cert hissuer hsubject h =>
    subst hissuer
    obtain ⟨-, -, rfl, -⟩ := CaX509.loadCross_spec h
    obtain ⟨hmem, -⟩ := mem_rootsOf.1 (show subject ∈ rootsOf cas cert by simp [hsubject])
    obtain ⟨hrow, -⟩ := signingRow_spec (E := E) hmem issuer
    have hserved : servedSigner cas (.importCross (.ok cert) (.ok issuer)) issuer =
        (signingRow E cas subject issuer).2.cert := by
      rcases signingRow_cases hsubject h with ⟨hstored, -⟩ | ⟨hnone, hnew⟩
      · simp [servedSigner, hstored]
      · simp [servedSigner, hnone, hnew, foreignRoot]
    obtain ⟨hroom, hroom', haki⟩ := hfit.2 _ rfl
    rw [hserved] at hroom' haki
    exact ⟨_, hold hrow, rfl, haki, hroom, hroom'⟩

theorem buildable_of_effects (h : Effects E (Adds E d cas op) t t') (hsound : SoundTable E t)
    (hfit : ImportsFit cas (op, d)) (hb : ∀ r ∈ t, Buildable t r) :
    SoundTable E t' ∧ ∀ r ∈ t', Buildable t' r := by
  induction h with
  | refl => exact ⟨hsound, hb⟩
  | tail _ h ih =>
    obtain ⟨hs, hb⟩ := ih
    exact ⟨sound_of_effect h hs, h.forall_rows hb
      (fun _ _ _ hk _ hc hcert hr => hr.keep hk hc hcert)
      (fun _ _ _ hren hr hk => Buildable.renew hren hs hr hk)
      fun _ hfresh hadds _ => buildable_of_adds hadds hs hfresh hfit⟩

theorem buildable_of_reach (h : (hierarchy E).Reach ImportsFit .empty t) :
    SoundTable E t ∧ ∀ r ∈ t, Buildable t r :=
  h.invariant (I := fun t => SoundTable E t ∧ ∀ r ∈ t, Buildable t r)
    ⟨fun _ hr => absurd hr Table.not_mem_empty, fun _ hr => absurd hr Table.not_mem_empty⟩
    fun _ _ _ hi hc hstep => buildable_of_effects (hierarchy_step_effects hstep) hi.1 hc hi.2

/-! ### Served paths -/

/-- A relying party can build the path from an intermediate over a cross row to its signing root, at
the instant `now`. -/
structure BuildablePath (E : Crypto) (now : ℤ) (c : Chain) (r x p : CaCertificate) : Prop where
  rows : c.rows = [r, x, p]
  cross : x.kind = .cross
  root : p.kind = .root
  cross_valid : certValidAt x now = true
  root_valid : certValidAt p now = true
  issued : IssuedBy E r.cert x.cert
  cross_issued : IssuedBy E x.cert p.cert
  aki : r.cert.AkiMatches x.cert
  cross_aki : x.cert.AkiMatches p.cert
  room : x.cert.RoomFor 1
  root_room : p.cert.RoomFor 2

theorem crossPath_buildable (hs : SoundTable E t) (hb : ∀ r ∈ t, Buildable t r)
    {r : CaCertificate} (hr : r ∈ t) (hkind : r.kind = .intermediate) {now : ℤ} {c : Chain}
    (hc : c ∈ crossPaths t now (basePath t r)) : ∃ x ∈ t, ∃ p ∈ t, BuildablePath E now c r x p := by
  obtain ⟨x, hx, hvalid, rfl⟩ := mem_crossPaths.1 hc
  obtain ⟨hxt, -, hxtop, -⟩ := mem_activeCrossRows.1 hx
  -- The parent of the intermediate, which is the root the cross row is for.
  have hbr := hb r hr
  simp only [Buildable, hkind] at hbr
  obtain ⟨q, hq, hpar, haki⟩ := hbr
  obtain ⟨q', hq', hid', -, hissued⟩ := (hs r hr).shape.parent_unique hpar
  obtain rfl : q' = q := Table.eq_of_key hq' hq hid'
  have hwalk : walk t r = [r, q'] := by simp [walk, parentOf_eq hq hpar]
  have htop : (basePath t r).anchorId = some q'.id := by
    simp [basePath, Chain.anchorId, hwalk]
  obtain ⟨p, hp, s, hst, hxkind, hpkind, -, -, hxpar, hsid, hxissued, hsame, hski⟩ :=
    (hs x hxt).shape.cross_of_crossOfId (hxtop.trans htop)
  obtain rfl : s = q' := Table.eq_of_key hst hq' hsid
  obtain ⟨hsub, hpub⟩ := sameCa_iff.1 hsame
  have hbx := hb x hxt
  simp only [Buildable, hxkind] at hbx
  obtain ⟨p', hp', hxpar', hxaki, hroom, hroom'⟩ := hbx
  obtain rfl : p' = p := Table.eq_of_key hp' hp (Option.some.inj (hxpar'.symm.trans hxpar))
  rw [walk_cross hp hxpar] at hvalid
  refine ⟨x, hxt, p', hp, ?_, hxkind, hpkind, hvalid x (by simp), hvalid p' (by simp),
    hissued.congr hsub hpub, hxissued, ?_, hxaki, hroom, hroom'⟩
  · simp [basePath, hwalk, walk_cross hp hxpar]
  · intro a ha
    rw [hski]
    exact haki a ha

/-- **Every path over a cross certificate can be built, as long as the imports fit.**  In every
table reached by runs whose imports pass the missing checks, at every instant, each path of an
intermediate over a cross row is the intermediate, the cross row and a signing root, both valid,
linked by name, signature and key identifier, and with room for what is below them. -/
theorem alternate_paths_buildable (E : Crypto) (t : CaTable)
    (h : (hierarchy E).Reach ImportsFit .empty t) :
    ∀ r ∈ t, r.kind = .intermediate → ∀ now, ∃ s,
      (∀ fuel ≥ 2, chainsFor fuel t r.id now = some (.ok s)) ∧
      ∀ c ∈ s.paths, c.viaCrossId ≠ none → ∃ x ∈ t, ∃ p ∈ t, BuildablePath E now c r x p := by
  obtain ⟨hs, hb⟩ := buildable_of_reach h
  intro r hr hkind now
  refine ⟨_, fun fuel hf => chainsFor_eq hs hr now hf, fun c hc hvia => ?_⟩
  rcases mem_paths_chainSet.1 hc with rfl | hc
  · exact absurd rfl hvia
  · exact crossPath_buildable hs hb hr hkind hc

/-! ### Two imports -/

/-- A root with an intermediate. -/
def plainHierarchy : List (HierOp × Draw) :=
  [(.createRoot (Str.of "New") "ecdsa-p256" 20 1, .sample 1),
    (.createIntermediateUnder 1 (Str.of "Issuer") "ecdsa-p256" 10 none, .sample 2)]

/-- A cross certificate for the first root, made elsewhere by an old root with room for two, with
the given path length of its own; and the old root. -/
def foreignCross (t : CaTable) (pathLength : ℕ) : CaX509.Parsed (Cert × Cert) :=
  let d := Draw.sample 9
  let made := do
    let (old, key) ← CaX509.createRoot .transparent d (Str.of "Old") "ecdsa-p256" 20 2
    let root ← getCa t 1
    let aki ← CaX509.authorityKeyIdentifier .transparent old key
    let cross ← build .transparent d key old.subject root.cert.subject root.cert.publicKey
      (d.now - CaX509.backdate) (d.now + CaX509.years 10)
      { basicConstraints := some ⟨⟨true, some pathLength⟩, true⟩
        keyUsage := some ⟨CaX509.caKeyUsage, true⟩
        subjectKeyIdentifier := root.cert.tbs.extensions.subjectKeyIdentifier
        authorityKeyIdentifier := some ⟨aki, false⟩ }
    pure (cross, old)
  made.mapError Failure.message

/-- `plainHierarchy`, and then the import of a cross certificate for its root. -/
def importForeignCross (pathLength : ℕ) : List (HierOp × Draw) :=
  let t := (hierarchy .transparent).final .empty plainHierarchy
  let made := foreignCross t pathLength
  plainHierarchy ++ [(.importCross (made.map Prod.fst) (made.map Prod.snd), .sample 3)]

/-- A cross certificate with room for the intermediate: its path is served and can be built. -/
theorem alternate_paths_buildable_importForeignCross :
    ∃ t, (hierarchy .transparent).Reach ImportsFit .empty t ∧
      ∃ r ∈ t, r.kind = .intermediate ∧ ∃ s, chainsFor 2 t r.id (Instant.days 20001) = some (.ok s) ∧
        ∀ c ∈ s.paths, c.viaCrossId ≠ none →
          ∃ x ∈ t, ∃ p ∈ t, BuildablePath .transparent (Instant.days 20001) c r x p := by
  have h : (hierarchy .transparent).Reach ImportsFit .empty _ :=
    Machine.reach_final _ (importForeignCross 1) (by decide +kernel)
  obtain ⟨r, hr, hkind⟩ : ∃ r ∈ (hierarchy .transparent).final .empty (importForeignCross 1),
    r.kind = .intermediate := by decide +kernel
  obtain ⟨s, hs, hpaths⟩ := alternate_paths_buildable _ _ h r hr hkind (Instant.days 20001)
  exact ⟨_, h, r, hr, hkind, s, hs 2 (le_refl 2), hpaths⟩

/-- A cross certificate with path length 0 is imported all the same: the path served by default
cannot be built. -/
theorem short_cross_served :
    ¬ ∀ t, (hierarchy .transparent).Reachable .empty t → ∀ r ∈ t, r.kind = .intermediate →
      ∀ now s, chainsFor 2 t r.id now = some (.ok s) → ∀ c ∈ s.paths, c.viaCrossId ≠ none →
        ∃ x ∈ t, ∃ p ∈ t, BuildablePath .transparent now c r x p := by
  intro hall
  have h : (hierarchy .transparent).Reachable .empty _ :=
    Machine.reachable_final _ (importForeignCross 0)
  obtain ⟨r, hr, hid, hkind⟩ : ∃ r ∈ (hierarchy .transparent).final .empty (importForeignCross 0),
    r.id = 2 ∧ r.kind = .intermediate := by decide +kernel
  have hset := chainsFor_eq (sound_of_reach h) hr (Instant.days 20001) (le_refl 2)
  have hpaths := hall _ h r hr hkind _ _ hset
  have hlengths : ((chainsFor 2 ((hierarchy .transparent).final .empty (importForeignCross 0)) 2
      (Instant.days 20001)).map fun s => s.map fun s => (s.default.viaCrossId,
        s.default.rows.map fun r => r.cert.pathLength)) =
      some (.ok (some 4, [some 0, some 0, some 2])) := by decide +kernel
  rw [hid] at hset
  simp only [hset, Option.map_some, Except.map, Option.some_inj, Except.ok.injEq,
    Prod.mk.injEq] at hlengths
  obtain ⟨x, -, p, -, hb⟩ := hpaths _ List.mem_cons_self (by simp [hlengths.1])
  have hrows := hlengths.2
  rw [hb.rows] at hrows
  obtain ⟨-, hx, -⟩ : r.cert.pathLength = some 0 ∧ x.cert.pathLength = some 0 ∧ _ := by
    simpa using hrows
  exact absurd (hb.room 0 hx) (by decide)

end Cabin
