import Cabin.Ca.Chains

/-!
# Subjects along a path

A path builder finds the issuer of a certificate by its name, so no path may carry one subject
twice.  A served path has an intermediate, perhaps a cross certificate, and a root at its top; the
roots at the top of an intermediate's paths are its own parent and the roots that have cross-signed
this parent (`Tops`).  `Apart` says that the names on these paths differ.

Only `createIntermediateUnder` looks at names, and only at the pair of the new certificate and its
parent.  `SubjectsApart` is what it would take: every operation that joins two certificates on a
path is called on different names.

* `apart_of_effect` : what one write does to `Apart`, if the row it adds brings no name twice;
* `no_subject_twice` : along runs whose steps meet `SubjectsApart` no path carries a subject twice;
* `subject_served_twice` : two generations of a root under one name.
-/

namespace Cabin

open X509 Service

/-- The root `p` is at the top of a path of the intermediate `i`: it is its parent or the signer of
an active cross certificate for its parent. -/
inductive Tops (t : CaTable) (i p : CaCertificate) : Prop
  | parent (hparent : i.parentId = some p.id)
  | signer {c : CaCertificate} (mem : c ∈ t) (kind : c.kind = .cross) (active : c.status = .active)
      (hcross : c.crossOfId = i.parentId) (hparent : c.parentId = some p.id)

/-- No two certificates of a path have one subject: neither an intermediate and a root above it,
nor an active cross certificate and its signer. -/
structure Apart (t : CaTable) : Prop where
  /-- The intermediates. -/
  intermediate : ∀ i ∈ t, i.kind = .intermediate → ∀ p ∈ t, Tops t i p →
    i.cert.subject ≠ p.cert.subject
  /-- The active cross certificates. -/
  cross : ∀ c ∈ t, c.kind = .cross → c.status = .active → ∀ p ∈ t, c.parentId = some p.id →
    c.cert.subject ≠ p.cert.subject

/-- No intermediate under the root has this subject. -/
def Unused (t : CaTable) (rootId : ℕ) (name : Name) : Prop :=
  ∀ i ∈ t, i.kind = .intermediate → i.parentId = some rootId → i.cert.subject ≠ name

instance (t : CaTable) (rootId : ℕ) (name : Name) : Decidable (Unused t rootId name) :=
  inferInstanceAs (Decidable (∀ i ∈ t, _))

/-- The roots that have cross-signed the root, over certificates that are still active. -/
def signersOf (t : CaTable) (rootId : ℕ) : List CaCertificate :=
  (activeCrossRows t (some rootId)).filterMap (parentOf t)

/-- The call joins no two certificates of one subject on a path: a new intermediate is not called
like a root that has cross-signed its parent, an imported one not like its parent, and a root that
cross-signs another is called neither like it nor like an intermediate under it. -/
def SubjectsApart (t : CaTable) (a : HierOp × Draw) : Prop :=
  match a.1 with
  | .createIntermediateUnder rootId name _ _ _ =>
    ∀ p ∈ signersOf t rootId, nameOfCommonName name ≠ .ok p.cert.subject
  | .importHierarchy (.ok cert) _ (.ok parent) => cert.subject ≠ parent.subject
  | .crossSignRoot caId signingRootId _ =>
    ∀ ca ∈ t, ∀ p ∈ t, ca.id = caId → p.id = signingRootId →
      ca.cert.subject ≠ p.cert.subject ∧ Unused t caId p.cert.subject
  | .importCross (.ok cross) (.ok issuer) =>
    cross.subject ≠ issuer.subject ∧ ∀ root ∈ rootsOf t cross, Unused t root.id issuer.subject
  | _ => True

instance (t : CaTable) (a : HierOp × Draw) : Decidable (SubjectsApart t a) := by
  unfold SubjectsApart
  split <;> infer_instance

/-- What the row an operation adds to `t` has to meet: as an intermediate it differs from the roots
above it; as a cross certificate its signer differs from it and from the intermediates below. -/
structure AddsApart (t : CaTable) (r : CaCertificate) : Prop where
  /-- A new intermediate. -/
  intermediate : r.kind = .intermediate → ∀ p ∈ t, Tops t r p → r.cert.subject ≠ p.cert.subject
  /-- A new cross certificate. -/
  cross : r.kind = .cross → ∀ p ∈ t, r.parentId = some p.id →
    r.cert.subject ≠ p.cert.subject ∧
      ∀ i ∈ t, i.kind = .intermediate → i.parentId = r.crossOfId → i.cert.subject ≠ p.cert.subject

variable {E : Crypto} {d : Draw} {cas t t' : CaTable} {op : HierOp} {r p : CaCertificate}

/-! ### Writes -/

theorem CaCertificate.Continues.active {r r' : CaCertificate} (h : r.Continues r')
    (hr' : r'.status = .active) : r.status = .active := by
  cases hr : r.status with
  | active => rfl
  | retired => simp [h.retired hr] at hr'

/-- Where every row continues one there was, no name is new to a path. -/
theorem Apart.of_continues (h : Apart t) (hback : ∀ r' ∈ t', ∃ r ∈ t, r.Continues r') :
    Apart t' := by
  constructor
  · intro i' hi' hkind p' hp' htops
    obtain ⟨i, hi, hci⟩ := hback i' hi'
    obtain ⟨p, hp, hcp⟩ := hback p' hp'
    rw [hci.cert.subject, hcp.cert.subject]
    refine h.intermediate i hi (hci.kind ▸ hkind) p hp ?_
    cases htops with
    | parent hparent =>
      rw [hci.parentId, hcp.id] at hparent
      exact .parent hparent
    | signer mem kind active hcross hparent =>
      obtain ⟨c, hc, hcc⟩ := hback _ mem
      rw [hcc.crossOfId, hci.parentId] at hcross
      rw [hcc.parentId, hcp.id] at hparent
      exact .signer hc (hcc.kind ▸ kind) (hcc.active active) hcross hparent
  · intro c' hc' hkind hactive p' hp' hparent
    obtain ⟨c, hc, hcc⟩ := hback c' hc'
    obtain ⟨p, hp, hcp⟩ := hback p' hp'
    rw [hcc.cert.subject, hcp.cert.subject]
    rw [hcc.parentId, hcp.id] at hparent
    exact h.cross c hc (hcc.kind ▸ hkind) (hcc.active hactive) p hp hparent

/-- The parent of a row is older than the last row added. -/
theorem parent_mem_of_add (hs : SoundTable E t) (hs' : SoundTable E (t.upsert r))
    (hfresh : r.id = t.nextId) {x : CaCertificate} (hx : x ∈ t.upsert r) (hp : p ∈ t.upsert r)
    (hparent : x.parentId = some p.id) : p ∈ t := by
  rcases (mem_add hfresh).1 hp with rfl | hp
  · exfalso
    rcases (mem_add hfresh).1 hx with rfl | hx
    · obtain ⟨q, hq, hid, hkind, -⟩ := (hs' x hp).shape.parent_unique hparent
      obtain rfl : q = x := Table.eq_of_key hq hp hid
      simp [(hs' q hp).shape.parentId_root hkind] at hparent
    · obtain ⟨q, hq, hid, -⟩ := (hs x hx).shape.parent_unique hparent
      have hlt : q.id < t.nextId := Table.lt_nextId hq
      omega
  · exact hp

theorem Apart.add (h : Apart t) (hadd : AddsApart t r) (hs : SoundTable E t)
    (hs' : SoundTable E (t.upsert r)) (hfresh : r.id = t.nextId) : Apart (t.upsert r) := by
  constructor
  · intro i hi hkind p hp htops
    cases htops with
    | parent hparent =>
      replace hp := parent_mem_of_add hs hs' hfresh hi hp hparent
      rcases (mem_add hfresh).1 hi with rfl | hi
      · exact hadd.intermediate hkind p hp (.parent hparent)
      · exact h.intermediate i hi hkind p hp (.parent hparent)
    | signer mem ckind active hcross hparent =>
      replace hp := parent_mem_of_add hs hs' hfresh mem hp hparent
      rcases (mem_add hfresh).1 mem with rfl | hc <;> rcases (mem_add hfresh).1 hi with rfl | hi
      · simp [hkind] at ckind
      · exact (hadd.cross ckind p hp hparent).2 i hi hkind hcross.symm
      · exact hadd.intermediate hkind p hp (.signer hc ckind active hcross hparent)
      · exact h.intermediate i hi hkind p hp (.signer hc ckind active hcross hparent)
  · intro c hc hkind hactive p hp hparent
    replace hp := parent_mem_of_add hs hs' hfresh hc hp hparent
    rcases (mem_add hfresh).1 hc with rfl | hc
    · exact (hadd.cross hkind p hp hparent).1
    · exact h.cross c hc hkind hactive p hp hparent

/-- A write whose new row, if any, brings no name twice keeps the names apart. -/
theorem apart_of_effect (h : Effect E (Adds E d cas op) t t')
    (hadds : ∀ r, Adds E d cas op t r → AddsApart t r) (hs : SoundTable E t) (ha : Apart t) :
    Apart t' := by
  have hs' := sound_of_effect h hs
  cases h with
  | add hfresh hr => exact ha.add (hadds _ hr) hs hs' hfresh
  | retire hrow =>
    refine ha.of_continues fun r' hr' => ?_
    obtain ⟨r, hr, rfl⟩ := mem_retireRows.1 hr'
    exact ⟨r, hr, continues_retired r⟩
  | renew hren =>
    refine ha.of_continues fun r' hr' => ?_
    obtain ⟨r, hr, rfl⟩ := mem_replaceCert.1 hr'
    exact ⟨r, hr, continues_renewed hren hr⟩

/-! ### New rows -/

/-- The pair of names `createIntermediateUnder` does check. -/
def NameChecked (cas : CaTable) : HierOp → Prop
  | .createIntermediateUnder rootId name _ _ _ =>
    ∀ root ∈ cas, root.id = rootId → nameOfCommonName name ≠ .ok root.cert.subject
  | _ => True

theorem nameChecked_of_run {cas' : CaTable} (h : op.run E d cas = .ok cas') :
    NameChecked cas op := by
  cases op with
  | createIntermediateUnder rootId name keyType years constraints =>
    obtain ⟨row, h⟩ := map_fst_eq_ok h
    simp only [Service.createIntermediateUnder, bind_eq_ok, refuse_eq_ok] at h
    obtain ⟨root, hroot, -, -, h⟩ := h
    obtain ⟨hroot, hid⟩ := getCa_eq_ok hroot
    split at h
    · cases h
    simp only [bind_eq_ok, refuse_eq_ok] at h
    obtain ⟨candidate, hcandidate, -, hne, -⟩ := h
    intro q hq hqid hname
    obtain rfl : q = root := Table.eq_of_key hq hroot (hqid.trans hid.symm)
    exact hne (Except.ok.inj (hcandidate.symm.trans hname))
  | _ => trivial

theorem mem_signersOf {rootId : ℕ} {c : CaCertificate} (hc : c ∈ t) (hactive : c.status = .active)
    (hcross : c.crossOfId = some rootId) (hp : p ∈ t) (hparent : c.parentId = some p.id) :
    p ∈ signersOf t rootId := by
  have hrow : c ∈ activeCrossRows t (some rootId) :=
    mem_activeCrossRows.2 ⟨hc, by simp [hcross], hcross, hactive⟩
  exact List.mem_filterMap.2 ⟨c, hrow, parentOf_eq hp hparent⟩

/-- A row that is neither an intermediate nor a cross certificate brings no name to a path. -/
theorem addsApart_root (h : r.kind = .root) : AddsApart t r :=
  ⟨fun hk => by simp [h] at hk, fun hk => by simp [h] at hk⟩

theorem addsApart_intermediate {rootId : ℕ} {name : Str} {keyType : String} {years : ℤ}
    {constraints : Option Leaf.NameConstraintSpec} {root : CaCertificate} {rootKey : PrivateKey}
    {cert : Cert} {key : PrivateKey}
    (h : CaX509.createIntermediate E d root.cert rootKey name keyType years
      (Leaf.nameConstraintsExtension (constraints.getD {})) = .ok (cert, key))
    (hchecked : NameChecked cas (.createIntermediateUnder rootId name keyType years constraints))
    (hapart : SubjectsApart cas (.createIntermediateUnder rootId name keyType years constraints, d))
    (hr : r.kind = .intermediate) (hparent : r.parentId = some rootId) (hcert : r.cert = cert) :
    AddsApart cas r := by
  obtain ⟨n, ski, hname, -, -, htbs, -⟩ := CaX509.createIntermediate_spec h
  have hsubject : nameOfCommonName name = .ok r.cert.subject := by
    rw [hname, hcert]
    simp [Cert.subject, htbs, encodeTbs]
  refine ⟨fun _ p hp htops heq => ?_, fun hk => by simp [hr] at hk⟩
  rw [heq] at hsubject
  cases htops with
  | parent hp' => exact hchecked p hp (by simpa [hparent] using hp'.symm) hsubject
  | signer mem _ active hcross hp' =>
    exact hapart p (mem_signersOf mem active (hcross.trans hparent) hp hp') hsubject

/-- The parent of an imported intermediate has just been added, and no cross certificate is for
it. -/
theorem addsApart_imported {certPem chainPem : CaX509.Parsed Cert}
    {keyPem : CaX509.Parsed PrivateKey} {cert parent : Cert} {key : PrivateKey}
    (h : CaX509.loadImport E d certPem keyPem (some chainPem) = .ok (cert, key, some parent))
    (hapart : SubjectsApart cas (.importHierarchy certPem keyPem chainPem, d))
    (hs : SoundTable E cas) (hr : r.kind = .intermediate)
    (hparent : r.parentId = some (foreignRoot E cas parent).id) (hcert : r.cert = cert) :
    AddsApart (cas.upsert (foreignRoot E cas parent)) r := by
  obtain ⟨q, hq, rfl, rfl, -⟩ := CaX509.loadImport_spec h
  cases hq
  have hne : cert.subject ≠ parent.subject := hapart
  have hmem : foreignRoot E cas parent ∈ cas.upsert (foreignRoot E cas parent) :=
    (mem_add rfl).2 (.inl rfl)
  refine ⟨fun _ p hp htops => ?_, fun hk => by simp [hr] at hk⟩
  cases htops with
  | parent hp' =>
    have hid : p.id = (foreignRoot E cas parent).id := by simpa [hparent] using hp'.symm
    obtain rfl : p = foreignRoot E cas parent := Table.eq_of_key hp hmem hid
    rw [hcert]
    exact hne
  | signer mem kind _ hcross _ =>
    exfalso
    rcases (mem_add rfl).1 mem with rfl | mem
    · simp [foreignRoot] at kind
    · obtain ⟨-, -, s, hsmem, -, -, -, -, -, hsid, -⟩ :=
        (hs _ mem).shape.cross_of_crossOfId (hcross.trans hparent)
      have hlt : s.id < cas.nextId := Table.lt_nextId hsmem
      have hid : s.id = cas.nextId := hsid
      omega

/-- A new cross certificate has the name of the root it is for. -/
theorem addsApart_cross {caId signingRootId : ℕ} {years : ℤ} {ca signingRoot : CaCertificate}
    {issuerKey : PrivateKey} {cert : Cert} (hca : ca ∈ cas) (hcaId : ca.id = caId)
    (h : CaX509.crossSign E d ca.cert signingRoot.cert issuerKey years = .ok cert)
    (hapart : SubjectsApart cas (.crossSignRoot caId signingRootId years, d))
    (hr : r.kind = .cross) (hparent : r.parentId = some signingRootId)
    (hcross : r.crossOfId = some caId) (hcert : r.cert = cert) : AddsApart cas r := by
  obtain ⟨ski, bc, ku, aki, -, -, -, -, -, htbs, -⟩ := CaX509.crossSign_spec h
  have hsubject : r.cert.subject = ca.cert.subject := by
    rw [hcert]
    simp [Cert.subject, htbs, encodeTbs]
  refine ⟨fun hk => by simp [hr] at hk, fun _ p hp hp' => ?_⟩
  have hid : p.id = signingRootId := by simpa [hparent] using hp'.symm
  obtain ⟨hne, hunused⟩ := hapart ca hca p hp hcaId hid
  refine ⟨hsubject ▸ hne, fun i hi hkind hiparent => hunused i hi hkind ?_⟩
  rw [hiparent, hcross]

theorem addsApart_importedCross {crossPem issuerPem : CaX509.Parsed Cert}
    {subject : CaCertificate} {issuer cert : Cert} (hissuer : issuerPem = .ok issuer)
    (hsubject : rootsOf cas cert = [subject])
    (h : CaX509.loadCross E d crossPem subject.cert issuer = .ok cert)
    (hapart : SubjectsApart cas (.importCross crossPem issuerPem, d)) (hr : r.kind = .cross)
    (hparent : r.parentId = some (signingRow E cas subject issuer).2.id)
    (hcross : r.crossOfId = some subject.id) (hcert : r.cert = cert) :
    AddsApart (signingRow E cas subject issuer).1 r := by
  obtain ⟨-, -, rfl, -⟩ := CaX509.loadCross_spec h
  subst hissuer
  obtain ⟨hne, hunused⟩ : cert.subject ≠ issuer.subject ∧
      ∀ root ∈ rootsOf cas cert, Unused cas root.id issuer.subject := hapart
  have hroot : subject ∈ rootsOf cas cert := by simp [hsubject]
  obtain ⟨hsigner, -, -, -, hsame⟩ := signingRow_spec (E := E) (mem_rootsOf.1 hroot).1 issuer
  refine ⟨fun hk => by simp [hr] at hk, fun _ p hp hp' => ?_⟩
  have hid : p.id = (signingRow E cas subject issuer).2.id := by simpa [hparent] using hp'.symm
  obtain rfl : p = (signingRow E cas subject issuer).2 := Table.eq_of_key hp hsigner hid
  rw [(sameCa_iff.1 hsame).1]
  refine ⟨hcert ▸ hne, fun i hi hkind hiparent => ?_⟩
  have hi : i ∈ cas := by
    rcases signingRow_cases hsubject h with ⟨-, hsame⟩ | ⟨-, hnew⟩
    · exact hsame ▸ hi
    · rw [hnew] at hi
      rcases (mem_add rfl).1 hi with rfl | hi
      · simp [foreignRoot] at hkind
      · exact hi
  exact hunused subject hroot i hi hkind (hiparent.trans hcross)

/-- Every row an operation adds brings no name twice to a path. -/
theorem addsApart_of_adds (h : Adds E d cas op t r) (hchecked : NameChecked cas op)
    (hapart : SubjectsApart cas (op, d)) (hs : SoundTable E cas) : AddsApart t r := by
  cases h with
  | root h => exact addsApart_root rfl
  | intermediate _ _ _ _ _ h => exact addsApart_intermediate h hchecked hapart rfl rfl rfl
  | importedRoot h => exact addsApart_root rfl
  | importedIntermediate h => exact addsApart_imported h hapart hs rfl rfl rfl
  | cross hca hcaId _ _ _ _ _ _ _ _ _ h =>
    exact addsApart_cross hca hcaId h hapart rfl rfl rfl rfl
  | importedSigner => exact addsApart_root rfl
  | importedCross hissuer hsubject h =>
    exact addsApart_importedCross hissuer hsubject h hapart rfl rfl rfl rfl

/-! ### Runs -/

theorem apart_of_step {a : HierOp × Draw} (h : (hierarchy E).step t a = some t')
    (hapart : SubjectsApart t a) (hs : SoundTable E t) (ha : Apart t) :
    SoundTable E t' ∧ Apart t' := by
  rcases hierarchy_step h with rfl | hrun
  · exact ⟨hs, ha⟩
  have hadds : ∀ t₁ r, Adds E a.2 t a.1 t₁ r → AddsApart t₁ r := fun t₁ r hr =>
    addsApart_of_adds hr (nameChecked_of_run hrun) hapart hs
  -- Along the writes of one call both invariants are kept, and the condition is about its start.
  have hboth : ∀ t₁, Effects E (Adds E a.2 t a.1) t t₁ → SoundTable E t₁ ∧ Apart t₁ := by
    intro t₁ h₁
    induction h₁ with
    | refl => exact ⟨hs, ha⟩
    | tail _ h ih => exact ⟨sound_of_effect h ih.1, apart_of_effect h (hadds _) ih.1 ih.2⟩
  exact hboth t' (effects_of_run hrun)

theorem apart_of_reach (h : (hierarchy E).Reach SubjectsApart .empty t) : Apart t := by
  have hboth : SoundTable E t ∧ Apart t := by
    refine h.invariant ⟨fun _ hr => absurd hr Table.not_mem_empty, ?_⟩
      fun _ _ _ hi hc hstep => apart_of_step hstep hc hi.1 hi.2
    exact ⟨fun _ hr => absurd hr Table.not_mem_empty, fun _ hr => absurd hr Table.not_mem_empty⟩
  exact hboth.2

/-! ### Paths -/

/-- The subjects of the certificates of a path, as encoded. -/
def Service.Chain.subjects (c : Chain) : List Name := c.rows.map fun r => r.cert.subject

/-- No path served for an intermediate of the table, at any instant, carries a subject twice. -/
def NoSubjectTwice (t : CaTable) : Prop :=
  ∀ r ∈ t, r.kind = .intermediate → ∀ now, ∃ s,
    (∀ fuel ≥ 2, chainsFor fuel t r.id now = some (.ok s)) ∧ ∀ c ∈ s.paths, c.subjects.Nodup

theorem nodup_basePath (hs : SoundTable E t) (ha : Apart t) (hr : r ∈ t)
    (hkind : r.kind = .intermediate) : (basePath t r).subjects.Nodup := by
  cases hp : r.parentId with
  | none => simp [basePath, Service.Chain.subjects, walk, parentOf, hp]
  | some pid =>
    obtain ⟨p, hmem, rfl, -, hpar⟩ := parent_of_sound hs hr hp
    have hne := ha.intermediate r hr hkind p hmem (.parent hp)
    simpa [basePath, Service.Chain.subjects, walk, hpar] using hne

theorem nodup_crossPath (hs : SoundTable E t) (ha : Apart t) (hr : r ∈ t)
    (hkind : r.kind = .intermediate) {now : ℤ} {c : Chain}
    (hc : c ∈ crossPaths t now (basePath t r)) : c.subjects.Nodup := by
  obtain ⟨x, hx, -, rfl⟩ := mem_crossPaths.1 hc
  obtain ⟨hxmem, hne, htop, hactive⟩ := mem_activeCrossRows.1 hx
  obtain ⟨sid, hsid⟩ := Option.ne_none_iff_exists'.1 hne
  obtain ⟨p, hp, s, hsmem, hxkind, -, -, -, hpar, rfl, -, hsame, -⟩ :=
    (hs x hxmem).shape.cross_of_crossOfId hsid
  -- The top of the base path is the root the cross certificate is for.
  cases hrp : r.parentId with
  | none => simp [(hs r hr).shape.kind_root hrp] at hkind
  | some rid =>
    obtain ⟨q, hq, rfl, -, hqpar⟩ := parent_of_sound hs hr hrp
    have hid : s.id = q.id := by
      simpa [hsid, basePath, walk, hqpar, Chain.anchorId] using htop
    obtain rfl : s = q := Table.eq_of_key hsmem hq hid
    have hrx : r.cert.subject ≠ x.cert.subject := by
      rw [(sameCa_iff.1 hsame).1]
      exact ha.intermediate r hr hkind s hsmem (.parent hrp)
    have hrp' : r.cert.subject ≠ p.cert.subject :=
      ha.intermediate r hr hkind p hp (.signer hxmem hxkind hactive (hsid.trans hrp.symm) hpar)
    have hxp : x.cert.subject ≠ p.cert.subject := ha.cross x hxmem hxkind hactive p hp hpar
    simp [Service.Chain.subjects, basePath, walk, hqpar, parentOf_eq hp hpar, hrx, hrp', hxp]

/-- **No path carries a subject twice, as long as no call joins two certificates of one subject.**
In every run of the hierarchy operations from the empty table whose steps meet `SubjectsApart`,
every path served for an intermediate, at any instant, has pairwise different subjects. -/
theorem no_subject_twice (E : Crypto) (t : CaTable)
    (h : (hierarchy E).Reach SubjectsApart .empty t) : NoSubjectTwice t := by
  have hs : SoundTable E t := sound_of_reach h
  have ha : Apart t := apart_of_reach h
  intro r hr hkind now
  refine ⟨_, fun fuel hf => chainsFor_eq hs hr now hf, fun c hc => ?_⟩
  rcases mem_paths_chainSet.1 hc with rfl | hc
  · exact nodup_basePath hs ha hr hkind
  · exact nodup_crossPath hs ha hr hkind hc

/-- The hierarchy of `crossedHierarchy`, with three names on its cross path. -/
theorem no_subject_twice_crossedHierarchy :
    ∃ t, (hierarchy .transparent).Reach SubjectsApart .empty t ∧
      (∃ r ∈ t, r.kind = .cross ∧ r.status = .active) ∧ NoSubjectTwice t := by
  have h : (hierarchy .transparent).Reach SubjectsApart .empty _ :=
    Machine.reach_final _ crossedHierarchy (by decide +kernel)
  exact ⟨_, h, by decide +kernel, no_subject_twice _ _ h⟩

/-- Two generations of a root under one name: the new root, its intermediate, and the old root,
which cross-signs the new one. -/
def oneNameTwice : List (HierOp × Draw) :=
  [(.createRoot (Str.of "Corp") "ecdsa-p256" 20 1, .sample 1),
    (.createIntermediateUnder 1 (Str.of "Issuer") "ecdsa-p256" 10 none, .sample 2),
    (.createRoot (Str.of "Corp") "ecdsa-p256" 20 2, .sample 3),
    (.crossSignRoot 1 3 10, .sample 4)]

/-- The cross path of the intermediate carries the name of the roots twice. -/
theorem subject_served_twice :
    ¬ ∀ t, (hierarchy .transparent).Reachable .empty t → NoSubjectTwice t := by
  intro hall
  have h : (hierarchy .transparent).Reachable .empty _ := Machine.reachable_final _ oneNameTwice
  obtain ⟨r, hr, hid, hkind⟩ : ∃ r ∈ (hierarchy .transparent).final .empty oneNameTwice,
      r.id = 2 ∧ r.kind = .intermediate := by decide +kernel
  obtain ⟨s, hs, hpaths⟩ := hall _ h r hr hkind (Instant.days 20001)
  have hnodup : ((chainsFor 2 ((hierarchy .transparent).final .empty oneNameTwice) 2
      (Instant.days 20001)).map fun s => s.map fun s =>
        decide (∀ c ∈ s.paths, c.subjects.Nodup)) = some (.ok true) := by
    have hs := hs 2 le_rfl
    rw [hid] at hs
    rw [hs]
    simpa [Except.map] using hpaths
  exact absurd hnodup (by decide +kernel)

end Cabin
