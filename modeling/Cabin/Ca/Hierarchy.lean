import Cabin.Lts.Basic
import Cabin.Ca.Service

/-!
# Runs of the hierarchy operations

The seven operations that write `ca_certificates` as one machine, `hierarchy`, and what a step of
it does to the table.

* Every step is a sequence of `Effect`s: a row is added, the targets of a retirement are stood
  down, or the certificate of one row is replaced by its renewal (`effects_of_run`).  `Adds` says
  which rows an operation adds, and from what.
* A row is never dropped: in every later table there is a row that continues it
  (`CaCertificate.Continues`), with the same id, kind, references and key, a certificate that
  continues the old one, and retired if the old one was.
* `Effect.forall_rows` is the induction step of an invariant that speaks of the rows one by one.
-/

namespace Cabin

open X509 Service

/-- The operations on the hierarchy, with their arguments. -/
inductive HierOp where
  | createRoot (name : Str) (keyType : String) (years : ℤ) (pathLength : ℕ)
  | createIntermediateUnder (rootId : ℕ) (name : Str) (keyType : String) (years : ℤ)
      (constraints : Option Leaf.NameConstraintSpec)
  | importHierarchy (certPem : CaX509.Parsed Cert) (keyPem : CaX509.Parsed PrivateKey)
      (chainPem : CaX509.Parsed Cert)
  | crossSignRoot (caId signingRootId : ℕ) (years : ℤ)
  | importCross (crossPem issuerPem : CaX509.Parsed Cert)
  | retire (caId : ℕ)
  | renewInPlace (caId : ℕ) (years : ℤ)

/-- The table after a successful call. -/
def HierOp.run (E : Crypto) (d : Draw) (cas : CaTable) : HierOp → Except Failure CaTable
  | createRoot name keyType years pathLength =>
    (Service.createRoot E d cas name keyType years pathLength).map Prod.fst
  | createIntermediateUnder rootId name keyType years constraints =>
    (Service.createIntermediateUnder E d cas rootId name keyType years constraints).map Prod.fst
  | importHierarchy certPem keyPem chainPem =>
    (Service.importHierarchy E d cas certPem keyPem chainPem).map Prod.fst
  | crossSignRoot caId signingRootId years =>
    (Service.crossSignRoot E d cas caId signingRootId years).map Prod.fst
  | importCross crossPem issuerPem => (Service.importCross E d cas crossPem issuerPem).map Prod.fst
  | retire caId => (Service.retire d cas caId).map Prod.fst
  | renewInPlace caId years => (Service.renewInPlace E d cas caId years).map Prod.fst

/-- The hierarchy operations as a machine: a call that raises changes nothing. -/
def hierarchy (E : Crypto) : Machine CaTable (HierOp × Draw) where
  step cas a :=
    match a.1.run E a.2 cas with
    | .ok cas' => some cas'
    | .error _ => some cas

/-! ### Rows over time -/

/-- `r'` is what has become of the row `r`. -/
structure CaCertificate.Continues (r r' : CaCertificate) : Prop where
  id : r'.id = r.id
  kind : r'.kind = r.kind
  name : r'.name = r.name
  parentId : r'.parentId = r.parentId
  crossOfId : r'.crossOfId = r.crossOfId
  keySealed : r'.keySealed = r.keySealed
  /-- A retired row stays retired. -/
  retired : r.status = .retired → r'.status = .retired
  /-- The certificate is the old one or renews it. -/
  cert : CaX509.Continues r.cert r'.cert

namespace CaCertificate.Continues

theorem refl (r : CaCertificate) : r.Continues r :=
  ⟨rfl, rfl, rfl, rfl, rfl, rfl, fun h => h, .refl _⟩

theorem trans {a b c : CaCertificate} (h : a.Continues b) (h' : b.Continues c) : a.Continues c :=
  ⟨h'.id.trans h.id, h'.kind.trans h.kind, h'.name.trans h.name, h'.parentId.trans h.parentId,
    h'.crossOfId.trans h.crossOfId, h'.keySealed.trans h.keySealed,
    fun hr => h'.retired (h.retired hr), h.cert.trans h'.cert⟩

end CaCertificate.Continues

/-- Every row of `t` is continued in `t'`. -/
def Keeps (t t' : CaTable) : Prop := ∀ r ∈ t, ∃ r' ∈ t', r.Continues r'

namespace Keeps

theorem refl (t : CaTable) : Keeps t t := fun r hr => ⟨r, hr, .refl r⟩

theorem trans {a b c : CaTable} (h : Keeps a b) (h' : Keeps b c) : Keeps a c := fun r hr =>
  have ⟨_, hr₁, hc₁⟩ := h r hr
  have ⟨r₂, hr₂, hc₂⟩ := h' _ hr₁
  ⟨r₂, hr₂, hc₁.trans hc₂⟩

end Keeps

/-! ### Effects -/

section

variable (E : Crypto)

/-- The renewal of `row` to the certificate `c`, signed by the row `signer`: itself for a root, its
parent otherwise. -/
structure Renewal (t : CaTable) (row signer : CaCertificate) (c : Cert) : Prop where
  mem : row ∈ t
  signer_mem : signer ∈ t
  active : row.status = .active
  signer_eq : row.kind = .root ∧ signer = row ∨
    row.kind ≠ .root ∧ row.parentId = some signer.id
  signed : ∃ d key n keySealed, signer.keySealed = some keySealed ∧
    E.unsealKey keySealed = some key ∧
    CaX509.renewCertificate E d row.cert signer.cert key n = .ok c

/-- One write to the table; `Q` says which rows may be added. -/
inductive Effect (Q : CaTable → CaCertificate → Prop) (t : CaTable) : CaTable → Prop
  | add {r : CaCertificate} (hfresh : r.id = t.nextId) (hQ : Q t r) : Effect Q t (t.upsert r)
  | retire {row : CaCertificate} (hrow : row ∈ t) :
      Effect Q t (retireRows t (retireTargets t row))
  | renew {row signer : CaCertificate} {c : Cert} (h : Renewal E t row signer c) :
      Effect Q t (replaceCert t row.id c)

/-- A sequence of writes. -/
abbrev Effects (Q : CaTable → CaCertificate → Prop) : CaTable → CaTable → Prop :=
  Relation.ReflTransGen (Effect E Q)

variable {E} {Q Q' : CaTable → CaCertificate → Prop} {t t' : CaTable}

theorem mem_add {r x : CaCertificate} (hfresh : r.id = t.nextId) :
    x ∈ t.upsert r ↔ x = r ∨ x ∈ t := by
  rw [Table.mem_upsert]
  refine ⟨Or.imp_right And.left, Or.imp_right fun hx => ⟨hx, ?_⟩⟩
  simpa [hfresh] using (Table.lt_nextId hx).ne

theorem Effect.mono (h : Effect E Q t t') (hQ : ∀ r, Q t r → Q' t r) : Effect E Q' t t' := by
  cases h with
  | add hfresh h => exact .add hfresh (hQ _ h)
  | retire hrow => exact .retire hrow
  | renew h => exact .renew h

theorem mem_retireRows {targets : List ℕ} {x : CaCertificate} :
    x ∈ retireRows t targets ↔
      ∃ r ∈ t, (if r.id ∈ targets then { r with status := .retired } else r) = x := by
  simp [retireRows]

theorem mem_replaceCert {id : ℕ} {c : Cert} {x : CaCertificate} :
    x ∈ replaceCert t id c ↔ ∃ r ∈ t, (if r.id = id then { r with cert := c } else r) = x := by
  simp [replaceCert]

theorem continues_retired {targets : List ℕ} (r : CaCertificate) :
    r.Continues (if r.id ∈ targets then { r with status := .retired } else r) := by
  split_ifs
  · exact ⟨rfl, rfl, rfl, rfl, rfl, rfl, fun _ => rfl, .refl _⟩
  · exact .refl r

theorem continues_renewed {row signer : CaCertificate} {c : Cert} (h : Renewal E t row signer c)
    {r : CaCertificate} (hr : r ∈ t) :
    r.Continues (if r.id = row.id then { r with cert := c } else r) := by
  split_ifs with hid
  · obtain rfl : r = row := Table.eq_of_key hr h.mem hid
    obtain ⟨d, key, n, s, -, -, hc⟩ := h.signed
    exact ⟨rfl, rfl, rfl, rfl, rfl, rfl, fun h => h, CaX509.renewCertificate_continues hc⟩
  · exact .refl r

/-- No write drops a row. -/
theorem Effect.keeps (h : Effect E Q t t') : Keeps t t' := by
  intro r hr
  cases h with
  | add hfresh _ => exact ⟨r, (mem_add hfresh).2 (.inr hr), .refl r⟩
  | retire hrow => exact ⟨_, mem_retireRows.2 ⟨r, hr, rfl⟩, continues_retired r⟩
  | renew h => exact ⟨_, mem_replaceCert.2 ⟨r, hr, rfl⟩, continues_renewed h hr⟩

theorem Effects.keeps (h : Effects E Q t t') : Keeps t t' := by
  induction h with
  | refl => exact .refl _
  | tail _ h ih => exact ih.trans h.keeps

/-- A property of rows that survives whatever keeps the certificate, that a renewal keeps and that
holds of the rows added, holds of all rows after a write. -/
theorem Effect.forall_rows {R : CaTable → CaCertificate → Prop} (h : Effect E Q t t')
    (hR : ∀ r ∈ t, R t r)
    (hkeep : ∀ t' r r', Keeps t t' → r ∈ t → r.Continues r' → r'.cert = r.cert → R t r → R t' r')
    (hrenew : ∀ row signer c, Renewal E t row signer c → R t row →
      Keeps t (replaceCert t row.id c) → R (replaceCert t row.id c) { row with cert := c })
    (hadd : ∀ r, r.id = t.nextId → Q t r → Keeps t (t.upsert r) → R (t.upsert r) r) :
    ∀ r ∈ t', R t' r := by
  have hk := h.keeps
  intro r hr
  cases h with
  | add hfresh hQ =>
    rcases (mem_add hfresh).1 hr with rfl | hr
    · exact hadd _ hfresh hQ hk
    · exact hkeep _ r r hk hr (.refl r) rfl (hR r hr)
  | retire hrow =>
    obtain ⟨x, hx, rfl⟩ := mem_retireRows.1 hr
    refine hkeep _ x _ hk hx (continues_retired x) ?_ (hR x hx)
    split_ifs <;> rfl
  | renew hc =>
    obtain ⟨x, hx, rfl⟩ := mem_replaceCert.1 hr
    split_ifs with hid
    · obtain rfl : x = _ := Table.eq_of_key hx hc.mem hid
      exact hrenew _ _ _ hc (hR x hx) hk
    · exact hkeep _ x x hk hx (.refl x) rfl (hR x hx)

end

/-! ### What the operations write -/

variable {E : Crypto} {d : Draw} {cas cas' : CaTable}

/-- The rows an operation adds to the table `t` in a call on `cas`. -/
inductive Adds (E : Crypto) (d : Draw) (cas : CaTable) : HierOp → CaTable → CaCertificate → Prop
  | root {name keyType years pathLength cert key}
      (h : CaX509.createRoot E d name keyType years pathLength = .ok (cert, key)) :
      Adds E d cas (.createRoot name keyType years pathLength) cas
        ⟨cas.nextId, .root, name, none, none, .active, cert, some (E.sealKey d.nonce key)⟩
  | intermediate {rootId name keyType years constraints root keySealed rootKey cert key}
      (hroot : root ∈ cas) (hid : root.id = rootId) (hkind : root.kind = .root)
      (hsealed : root.keySealed = some keySealed) (hkey : E.unsealKey keySealed = some rootKey)
      (h : CaX509.createIntermediate E d root.cert rootKey name keyType years
        (Leaf.nameConstraintsExtension (constraints.getD {})) = .ok (cert, key)) :
      Adds E d cas (.createIntermediateUnder rootId name keyType years constraints) cas
        ⟨cas.nextId, .intermediate, name, some rootId, none, .active, cert,
          some (E.sealKey d.nonce key)⟩
  | importedRoot {certPem keyPem chainPem cert key parent}
      (h : CaX509.loadImport E d certPem keyPem (some chainPem) = .ok (cert, key, some parent)) :
      Adds E d cas (.importHierarchy certPem keyPem chainPem) cas (foreignRoot E cas parent)
  | importedIntermediate {certPem keyPem chainPem cert key parent}
      (h : CaX509.loadImport E d certPem keyPem (some chainPem) = .ok (cert, key, some parent)) :
      Adds E d cas (.importHierarchy certPem keyPem chainPem)
        (cas.upsert (foreignRoot E cas parent))
        ⟨(cas.upsert (foreignRoot E cas parent)).nextId, .intermediate, subjectName E cert,
          some (foreignRoot E cas parent).id, none, .active, cert, some (E.sealKey d.nonce key)⟩
  | cross {caId signingRootId years ca signingRoot keySealed issuerKey cert}
      (hca : ca ∈ cas) (hcaId : ca.id = caId) (hcaKind : ca.kind = .root)
      (hroot : signingRoot ∈ cas) (hrootId : signingRoot.id = signingRootId)
      (hrootKind : signingRoot.kind = .root) (hne : signingRootId ≠ caId)
      (hsealed : signingRoot.keySealed = some keySealed)
      (hkey : E.unsealKey keySealed = some issuerKey)
      (hlength : CaX509.crossPathLengthError ca.cert signingRoot.cert = .ok none)
      (hpair : activeCrossPairs cas caId signingRootId = [])
      (h : CaX509.crossSign E d ca.cert signingRoot.cert issuerKey years = .ok cert) :
      Adds E d cas (.crossSignRoot caId signingRootId years) cas
        ⟨cas.nextId, .cross, subjectName E cert, some signingRootId, some caId, .active, cert, none⟩
  | importedSigner {crossPem issuerPem subjectRow issuerCert}
      (hissuer : issuerPem = .ok issuerCert)
      (hnone : signingRows cas subjectRow issuerCert = []) :
      Adds E d cas (.importCross crossPem issuerPem) cas (foreignRoot E cas issuerCert)
  | importedCross {crossPem issuerPem subjectRow issuerCert cert}
      (hissuer : issuerPem = .ok issuerCert) (hsubject : rootsOf cas cert = [subjectRow])
      (h : CaX509.loadCross E d crossPem subjectRow.cert issuerCert = .ok cert) :
      Adds E d cas (.importCross crossPem issuerPem) (signingRow E cas subjectRow issuerCert).1
        ⟨(signingRow E cas subjectRow issuerCert).1.nextId, .cross, subjectName E cert,
          some (signingRow E cas subjectRow issuerCert).2.id, some subjectRow.id, .active, cert,
          none⟩

theorem getCa_eq_ok {id : ℕ} {row : CaCertificate} (h : getCa cas id = .ok row) :
    row ∈ cas ∧ row.id = id := by
  unfold getCa raise at h
  split at h
  · cases h
    exact Table.get?_eq_some.1 ‹_›
  · cases h

theorem getCa_of_mem {row : CaCertificate} (h : row ∈ cas) : getCa cas row.id = .ok row := by
  have hget : cas.get? row.id = some row := Table.get?_eq_some.2 ⟨h, rfl⟩
  simp [getCa, hget]

theorem unsealSigningKey_eq_ok {s : Sealed} {k : PrivateKey}
    (h : unsealSigningKey E d s = .ok k) : E.unsealKey s = some k ∧ k.isSigningKey = true := by
  simp only [unsealSigningKey, Draw.attempt, bind_eq_ok, refuse_eq_ok] at h
  obtain ⟨-, -, h⟩ := h
  split at h
  · cases h
  · simp only [bind_eq_ok, refuse_eq_ok, pure_eq_ok] at h
    obtain ⟨-, hs, rfl⟩ := h
    exact ⟨‹_›, by simpa using hs⟩

theorem map_fst_eq_ok {σ α : Type} {x : Except Failure (σ × α)} {s : σ}
    (h : x.map Prod.fst = .ok s) : ∃ a, x = .ok (s, a) := by
  cases x with
  | error e => cases h
  | ok p => exact ⟨p.2, by cases h; rfl⟩

theorem effects_createRoot {name : Str} {keyType : String} {years : ℤ} {pathLength : ℕ}
    {row : CaCertificate}
    (h : Service.createRoot E d cas name keyType years pathLength = .ok (cas', row)) :
    Effects E (Adds E d cas (.createRoot name keyType years pathLength)) cas cas' := by
  simp only [Service.createRoot, bind_eq_ok, sealKey_eq_ok, commit_eq_ok] at h
  obtain ⟨⟨cert, key⟩, hc, s, ⟨-, rfl⟩, -, rfl, -⟩ := h
  exact .single (.add rfl (.root hc))

theorem effects_createIntermediateUnder {rootId : ℕ} {name : Str} {keyType : String} {years : ℤ}
    {constraints : Option Leaf.NameConstraintSpec} {row : CaCertificate}
    (h : Service.createIntermediateUnder E d cas rootId name keyType years constraints =
      .ok (cas', row)) :
    Effects E (Adds E d cas (.createIntermediateUnder rootId name keyType years constraints))
      cas cas' := by
  simp only [Service.createIntermediateUnder, bind_eq_ok, refuse_eq_ok, not_not] at h
  obtain ⟨root, hroot, -, hkind, h⟩ := h
  obtain ⟨hroot, hid⟩ := getCa_eq_ok hroot
  split at h
  · cases h
  · simp only [bind_eq_ok, refuse_eq_ok, sealKey_eq_ok, commit_eq_ok] at h
    obtain ⟨-, -, -, -, rootKey, hkey, ⟨cert, key⟩, hc, s, ⟨-, rfl⟩, -, rfl, -⟩ := h
    exact .single (.add rfl (.intermediate hroot hid hkind ‹_› (unsealSigningKey_eq_ok hkey).1 hc))

theorem effects_importHierarchy {certPem : CaX509.Parsed Cert} {keyPem : CaX509.Parsed PrivateKey}
    {chainPem : CaX509.Parsed Cert} {row : CaCertificate}
    (h : Service.importHierarchy E d cas certPem keyPem chainPem = .ok (cas', row)) :
    Effects E (Adds E d cas (.importHierarchy certPem keyPem chainPem)) cas cas' := by
  simp only [Service.importHierarchy, bind_eq_ok] at h
  obtain ⟨⟨cert, key, parent⟩, hl, h⟩ := h
  split at h
  · cases h
  · rename_i heq
    cases heq
    simp only [bind_eq_ok, sealKey_eq_ok, commit_eq_ok] at h
    obtain ⟨s, ⟨-, rfl⟩, -, rfl, -⟩ := h
    exact .tail (.single (.add rfl (.importedRoot hl))) (.add rfl (.importedIntermediate hl))

theorem effects_crossSignRoot {caId signingRootId : ℕ} {years : ℤ} {row : CaCertificate}
    (h : Service.crossSignRoot E d cas caId signingRootId years = .ok (cas', row)) :
    Effects E (Adds E d cas (.crossSignRoot caId signingRootId years)) cas cas' := by
  simp only [Service.crossSignRoot, bind_eq_ok, refuse_eq_ok, not_not] at h
  obtain ⟨ca, hca, -, hcaKind, root, hroot, -, hkind, -, hne, h⟩ := h
  obtain ⟨hca, hcaId⟩ := getCa_eq_ok hca
  obtain ⟨hroot, hid⟩ := getCa_eq_ok hroot
  split at h
  · cases h
  · simp only [bind_eq_ok] at h
    obtain ⟨message, hlength, h⟩ := h
    split at h
    · cases h
    · simp only [bind_eq_ok, refuse_eq_ok, not_not, commit_eq_ok] at h
      obtain ⟨-, hpair, key, hkey, cert, hc, -, rfl, -⟩ := h
      exact .single (.add rfl (.cross hca hcaId hcaKind hroot hid hkind hne ‹_›
        (unsealSigningKey_eq_ok hkey).1 hlength hpair hc))

theorem crossSubject_eq_ok {cross : Cert} {row : CaCertificate}
    (h : crossSubject cas cross = .ok row) : rootsOf cas cross = [row] := by
  unfold crossSubject raise at h
  split at h
  · cases h
  · cases h
    assumption
  · cases h

theorem effects_importCross {crossPem issuerPem : CaX509.Parsed Cert} {row : CaCertificate}
    (h : Service.importCross E d cas crossPem issuerPem = .ok (cas', row)) :
    Effects E (Adds E d cas (.importCross crossPem issuerPem)) cas cas' := by
  simp only [Service.importCross, bind_eq_ok, commit_eq_ok] at h
  obtain ⟨preview, hp, issuer, hi, -, -, subject, hs, cert, hc, -, rfl, -⟩ := h
  have hi := CaX509.parsed_eq_ok hi
  have hs := crossSubject_eq_ok hs
  obtain ⟨-, -, hcert, -⟩ := CaX509.loadCross_spec hc
  obtain rfl : preview = cert := Except.ok.inj ((CaX509.parsed_eq_ok hp).symm.trans hcert)
  refine .tail ?_ (.add rfl (.importedCross hi hs hc))
  cases hrows : signingRows cas subject issuer with
  | nil =>
    simp only [signingRow, hrows]
    exact .single (.add rfl (.importedSigner hi hrows))
  | cons r rs =>
    simp only [signingRow, hrows]
    exact .refl

theorem effects_retire {caId : ℕ} {u : Unit} (h : Service.retire d cas caId = .ok (cas', u)) :
    Effects E (Adds E d cas (.retire caId)) cas cas' := by
  simp only [Service.retire, bind_eq_ok] at h
  obtain ⟨row, hrow, h⟩ := h
  split at h
  · cases pure_eq_ok.1 h
    exact .refl
  · simp only [bind_eq_ok, commit_eq_ok] at h
    obtain ⟨-, -, -, rfl, -⟩ := h
    exact .single (.retire (getCa_eq_ok hrow).1)

theorem renewalSigner_eq_ok {row : CaCertificate} {years : ℤ} {s : RenewalSigner}
    (h : renewalSigner d cas row years = .ok s) (hrow : row ∈ cas) :
    ∃ signer ∈ cas, (row.kind = .root ∧ signer = row ∨
      row.kind ≠ .root ∧ row.parentId = some signer.id) ∧ s.cert = signer.cert ∧
      signer.keySealed = some s.keySealed := by
  unfold renewalSigner raise at h
  split at h
  · rename_i hkind
    split at h
    · cases h
    · cases pure_eq_ok.1 h
      exact ⟨row, hrow, .inl ⟨hkind, rfl⟩, rfl, ‹_›⟩
  · rename_i hkind
    dsimp only at h
    split at h
    · cases h
    · simp only [bind_eq_ok] at h
      obtain ⟨parent, hp, h⟩ := h
      obtain ⟨hp, hid⟩ := getCa_eq_ok hp
      split at h
      · cases h
      · cases pure_eq_ok.1 h
        exact ⟨parent, hp, .inr ⟨hkind, hid ▸ ‹_›⟩, rfl, ‹_›⟩

theorem effects_renewInPlace {caId : ℕ} {years : ℤ} {r : CaCertificate}
    (h : Service.renewInPlace E d cas caId years = .ok (cas', r)) :
    Effects E (Adds E d cas (.renewInPlace caId years)) cas cas' := by
  simp only [Service.renewInPlace, bind_eq_ok, refuse_eq_ok, commit_eq_ok] at h
  obtain ⟨row, hrow, -, hactive, s, hs, key, hkey, c, hc, -, rfl, -⟩ := h
  obtain ⟨hrow, -⟩ := getCa_eq_ok hrow
  obtain ⟨signer, hsigner, heq, hcert, hsealed⟩ := renewalSigner_eq_ok hs hrow
  have hactive : row.status = .active := by
    cases hst : row.status with
    | active => rfl
    | retired => exact absurd hst hactive
  exact .single (.renew ⟨hrow, hsigner, hactive, heq, d, key, s.years, s.keySealed, hsealed,
    (unsealSigningKey_eq_ok hkey).1, hcert ▸ hc⟩)

/-- **What an operation writes**: a sequence of effects that add no rows but those of `Adds`. -/
theorem effects_of_run {op : HierOp} (h : op.run E d cas = .ok cas') :
    Effects E (Adds E d cas op) cas cas' := by
  cases op with
  | createRoot =>
    obtain ⟨_, h⟩ := map_fst_eq_ok h
    exact effects_createRoot h
  | createIntermediateUnder =>
    obtain ⟨_, h⟩ := map_fst_eq_ok h
    exact effects_createIntermediateUnder h
  | importHierarchy =>
    obtain ⟨_, h⟩ := map_fst_eq_ok h
    exact effects_importHierarchy h
  | crossSignRoot =>
    obtain ⟨_, h⟩ := map_fst_eq_ok h
    exact effects_crossSignRoot h
  | importCross =>
    obtain ⟨_, h⟩ := map_fst_eq_ok h
    exact effects_importCross h
  | retire =>
    obtain ⟨_, h⟩ := map_fst_eq_ok h
    exact effects_retire h
  | renewInPlace =>
    obtain ⟨_, h⟩ := map_fst_eq_ok h
    exact effects_renewInPlace h

/-- A step of the machine: nothing, or what the operation writes. -/
theorem hierarchy_step {a : HierOp × Draw} (h : (hierarchy E).step cas a = some cas') :
    cas' = cas ∨ a.1.run E a.2 cas = .ok cas' := by
  unfold hierarchy at h
  dsimp only at h
  split at h
  · cases h
    exact .inr ‹_›
  · cases h
    exact .inl rfl

theorem hierarchy_step_effects {a : HierOp × Draw} (h : (hierarchy E).step cas a = some cas') :
    Effects E (Adds E a.2 cas a.1) cas cas' := by
  rcases hierarchy_step h with rfl | h
  · exact .refl
  · exact effects_of_run h

/-- No row is ever dropped, and a retired row stays retired. -/
theorem hierarchy_keeps {C : CaTable → HierOp × Draw → Prop}
    (h : (hierarchy E).Reach C cas cas') : Keeps cas cas' :=
  h.rel (I := fun _ => True) trivial Keeps.refl (fun _ _ _ => Keeps.trans) (fun _ _ _ _ _ _ => trivial)
    fun _ _ _ _ _ hs => (hierarchy_step_effects hs).keeps

end Cabin
