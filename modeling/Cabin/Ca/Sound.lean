import Cabin.Ca.Hierarchy

/-!
# The shape of the hierarchy

Nothing in the schema says which rows may refer to which.  `Sound` is the invariant the seven
operations keep between them:

* a root refers to nothing, an intermediate to a root that issued it, a cross row to two different
  roots: the one that issued it and the one it is a second certificate for (`Shape`);
* a row is called by the common name of its certificate;
* the stored key of a row is the private half of its certificate's key.

It is proved of one write (`sound_of_effect`) and from that of every run (`sound_of_reach`).
-/

namespace Cabin

open X509 Service

/-- The SubjectKeyIdentifier of a certificate, if it has one. -/
def X509.Cert.ski (c : Cert) : Option KeyId := c.tbs.extensions.subjectKeyIdentifier.map Ext.value

variable {E : Crypto}

/-- What a row refers to, by its kind. -/
inductive Shape (E : Crypto) (t : CaTable) (r : CaCertificate) : Prop
  | root (kind : r.kind = .root) (parentId : r.parentId = none) (crossOfId : r.crossOfId = none)
      (signs : r.keySealed ≠ none →
        r.cert.tbs.extensions.malformed = false ∧ r.cert.ski ≠ none)
  | intermediate {p : CaCertificate} (kind : r.kind = .intermediate) (mem : p ∈ t)
      (parent : p.kind = .root) (parentId : r.parentId = some p.id) (crossOfId : r.crossOfId = none)
      (keySealed : r.keySealed ≠ none) (issued : IssuedBy E r.cert p.cert)
  | cross {p s : CaCertificate} (kind : r.kind = .cross) (mem : p ∈ t) (mem' : s ∈ t)
      (parent : p.kind = .root) (subject : s.kind = .root) (ne : p.id ≠ s.id)
      (parentId : r.parentId = some p.id) (crossOfId : r.crossOfId = some s.id)
      (keySealed : r.keySealed = none) (issued : IssuedBy E r.cert p.cert)
      (same : sameCa r.cert s.cert = true) (ski : r.cert.ski = s.cert.ski)

/-- The invariant of a row in its table. -/
structure Sound (E : Crypto) (t : CaTable) (r : CaCertificate) : Prop where
  /-- The row is called by the common name of its certificate. -/
  name : r.name = subjectName E r.cert
  /-- The stored key belongs to the certificate. -/
  key : ∀ s, r.keySealed = some s →
    ∃ k, E.unsealKey s = some k ∧ E.publicKey k = r.cert.publicKey
  /-- The references. -/
  shape : Shape E t r

/-- Every row is sound. -/
def SoundTable (E : Crypto) (t : CaTable) : Prop := ∀ r ∈ t, Sound E t r

theorem sameCa_iff {a b : Cert} :
    sameCa a b = true ↔ a.subject = b.subject ∧ a.publicKey = b.publicKey := by
  simp [sameCa]

/-! ### References survive -/

/-- The parent of a row is the one row with the id it refers to. -/
theorem Shape.parent_unique {t : CaTable} {r : CaCertificate} (h : Shape E t r)
    {pid : ℕ} (hp : r.parentId = some pid) :
    ∃ p ∈ t, p.id = pid ∧ p.kind = .root ∧ IssuedBy E r.cert p.cert := by
  cases h with
  | root _ hnone => simp [hnone] at hp
  | intermediate _ mem parent parentId _ _ issued =>
    exact ⟨_, mem, by simpa [parentId] using hp, parent, issued⟩
  | cross _ mem _ parent _ _ parentId _ _ issued =>
    exact ⟨_, mem, by simpa [parentId] using hp, parent, issued⟩

theorem Shape.kind_root {t : CaTable} {r : CaCertificate} (h : Shape E t r)
    (hp : r.parentId = none) : r.kind = .root := by
  cases h with
  | root kind => exact kind
  | intermediate _ _ _ parentId => simp [hp] at parentId
  | cross _ _ _ _ _ _ parentId => simp [hp] at parentId

theorem Shape.parentId_root {t : CaTable} {r : CaCertificate} (h : Shape E t r)
    (hkind : r.kind = .root) : r.parentId = none := by
  cases h with
  | root _ parentId => exact parentId
  | intermediate kind => simp [hkind] at kind
  | cross kind => simp [hkind] at kind

/-- A row keeps its shape where all rows are continued, if its certificate is issued by what its
parent has become. -/
theorem Shape.carry {t t' : CaTable} {r r' : CaCertificate} (h : Shape E t r) (hk : Keeps t t')
    (hc : r.Continues r')
    (hissued : ∀ p' ∈ t', r'.parentId = some p'.id → IssuedBy E r'.cert p'.cert) :
    Shape E t' r' := by
  cases h with
  | root kind parentId crossOfId signs =>
    refine .root (hc.kind.trans kind) (hc.parentId.trans parentId) (hc.crossOfId.trans crossOfId) ?_
    intro hs
    rw [hc.keySealed] at hs
    rw [hc.cert.malformed, show r'.cert.ski = r.cert.ski from hc.cert.ski]
    exact signs hs
  | intermediate kind mem parent parentId crossOfId keySealed issued =>
    obtain ⟨p', hp', hcp⟩ := hk _ mem
    have hparent : r'.parentId = some p'.id := by rw [hc.parentId, parentId, hcp.id]
    exact .intermediate (hc.kind.trans kind) hp' (hcp.kind.trans parent) hparent
      (hc.crossOfId.trans crossOfId) (hc.keySealed ▸ keySealed) (hissued p' hp' hparent)
  | cross kind mem mem' parent subject ne parentId crossOfId keySealed issued same ski =>
    obtain ⟨p', hp', hcp⟩ := hk _ mem
    obtain ⟨s', hs', hcs⟩ := hk _ mem'
    have hparent : r'.parentId = some p'.id := by rw [hc.parentId, parentId, hcp.id]
    obtain ⟨hsub, hkey⟩ := sameCa_iff.1 same
    have hsame : sameCa r'.cert s'.cert = true := by
      rw [sameCa_iff, hc.cert.subject, hc.cert.publicKey, hcs.cert.subject, hcs.cert.publicKey]
      exact ⟨hsub, hkey⟩
    have hski : r'.cert.ski = s'.cert.ski := (hc.cert.ski.trans ski).trans hcs.cert.ski.symm
    exact .cross (hc.kind.trans kind) hp' hs' (hcp.kind.trans parent) (hcs.kind.trans subject)
      (by rw [hcp.id, hcs.id]; exact ne) hparent (by rw [hc.crossOfId, crossOfId, hcs.id])
      (hc.keySealed.trans keySealed) (hissued p' hp' hparent) hsame hski

theorem subjectName_congr {c c' : Cert} (h : c'.subject = c.subject) :
    subjectName E c' = subjectName E c := by
  simp [subjectName, h]

/-- A row stays sound where all rows are continued. -/
theorem Sound.carry {t t' : CaTable} {r r' : CaCertificate} (h : Sound E t r) (hk : Keeps t t')
    (hc : r.Continues r')
    (hissued : ∀ p' ∈ t', r'.parentId = some p'.id → IssuedBy E r'.cert p'.cert) :
    Sound E t' r' where
  name := by rw [hc.name, h.name, subjectName_congr hc.cert.subject]
  key s hs := by
    rw [hc.keySealed] at hs
    rw [hc.cert.publicKey]
    exact h.key s hs
  shape := h.shape.carry hk hc hissued

theorem Sound.keep {t t' : CaTable} {r r' : CaCertificate} (h : Sound E t r) (hk : Keeps t t')
    (hc : r.Continues r') (hcert : r'.cert = r.cert) : Sound E t' r' := by
  refine h.carry hk hc fun p' hp' hparent => ?_
  obtain ⟨p, hp, hid, -, hissued⟩ := h.shape.parent_unique (hc.parentId ▸ hparent)
  obtain ⟨q, hq, hcq⟩ := hk p hp
  obtain rfl : q = p' := Table.eq_of_key hq hp' (hcq.id.trans hid)
  rw [hcert]
  exact hissued.congr hcq.cert.subject hcq.cert.publicKey

/-! ### Renewals -/

/-- A renewal is issued by the row that signed it. -/
theorem Renewal.issued {t : CaTable} {row signer : CaCertificate} {c : Cert}
    (h : Renewal E t row signer c) (hsigner : Sound E t signer) : IssuedBy E c signer.cert := by
  obtain ⟨d, key, n, s, hs, hkey, hc⟩ := h.signed
  obtain ⟨k, hk, hpub⟩ := hsigner.key s hs
  obtain rfl : key = k := Option.some.inj (hkey.symm.trans hk)
  exact CaX509.renewCertificate_issuedBy hc hpub

theorem Sound.renew {t : CaTable} {row signer : CaCertificate} {c : Cert}
    (h : Renewal E t row signer c) (hsound : SoundTable E t)
    (hk : Keeps t (replaceCert t row.id c)) :
    Sound E (replaceCert t row.id c) { row with cert := c } := by
  have hrow := hsound row h.mem
  have hcont : row.Continues { row with cert := c } := by
    simpa using continues_renewed h h.mem
  refine hrow.carry hk hcont fun p' hp' hparent => ?_
  -- A root has no parent, so the signer is the parent, and the parent is another row.
  rcases h.signer_eq with ⟨hroot, -⟩ | ⟨-, hsigner⟩
  · obtain ⟨p, hp, hid, hpkind, -⟩ := hrow.shape.parent_unique hparent
    cases hrow.shape with
    | root _ hnone => simp [hnone] at hparent
    | intermediate kind => simp [hroot] at kind
    | cross kind => simp [hroot] at kind
  · obtain ⟨q, hq, hcq⟩ := hk signer h.signer_mem
    have hid : signer.id = p'.id := by
      rw [show row.parentId = some p'.id from hparent] at hsigner
      exact (Option.some.inj hsigner).symm
    obtain rfl : q = p' := Table.eq_of_key hq hp' (hcq.id.trans hid)
    exact (h.issued (hsound signer h.signer_mem)).congr hcq.cert.subject hcq.cert.publicKey

/-! ### New rows -/

variable {d : Draw} {cas t t' : CaTable} {op : HierOp}

theorem subjectName_of_nameOfCommonName {cn : Str} {name : Name} {c : Cert}
    (h : nameOfCommonName cn = .ok name) (hc : c.subject = name) : subjectName E c = cn := by
  simp [subjectName, Name.attributesForOid, hc, eq_of_nameOfCommonName h]

/-- A key that has just been sealed belongs to the certificate made for it. -/
theorem key_sealed {k : PrivateKey} {c : Cert} (h : c.publicKey = E.publicKey k) (s : Sealed)
    (hs : some (E.sealKey d.nonce k) = some s) :
    ∃ k, E.unsealKey s = some k ∧ E.publicKey k = c.publicKey := by
  cases hs
  exact ⟨k, E.unsealKey_sealKey _ _, h.symm⟩

theorem sound_foreignRoot (c : Cert) : Sound E t (foreignRoot E cas c) :=
  ⟨rfl, fun _ hs => by simp [foreignRoot] at hs, .root rfl rfl rfl fun h => absurd rfl h⟩

theorem mem_rootsOf {c : Cert} {r : CaCertificate} :
    r ∈ rootsOf cas c ↔ r ∈ cas ∧ r.kind = .root ∧ sameCa r.cert c = true := by
  simp [rootsOf, listCas, and_assoc]

/-- The signing row of an imported cross certificate is a root for the submitted issuer, in the
table that holds the rows there were, and not the subject. -/
theorem signingRow_spec {subject : CaCertificate} (hsubject : subject ∈ cas) (issuer : Cert) :
    (signingRow E cas subject issuer).2 ∈ (signingRow E cas subject issuer).1 ∧
      subject ∈ (signingRow E cas subject issuer).1 ∧
      (signingRow E cas subject issuer).2.kind = .root ∧
      (signingRow E cas subject issuer).2.id ≠ subject.id ∧
      sameCa (signingRow E cas subject issuer).2.cert issuer = true := by
  cases hrows : signingRows cas subject issuer with
  | nil =>
    simp only [signingRow, hrows]
    refine ⟨(mem_add rfl).2 (.inl rfl), (mem_add rfl).2 (.inr hsubject), rfl, ?_, ?_⟩
    · exact (Table.lt_nextId hsubject).ne'
    · simp [sameCa, foreignRoot]
  | cons r rs =>
    simp only [signingRow, hrows]
    have hr : r ∈ signingRows cas subject issuer := by simp [hrows]
    simp only [signingRows, List.mem_filter, mem_rootsOf, bne_iff_ne] at hr
    obtain ⟨⟨hr, hkind, hsame⟩, hne⟩ := hr
    exact ⟨hr, hsubject, hkind, hne, hsame⟩

/-- The stored roots an imported cross certificate would join: the one it is for and, if it is
stored already, the one that signed it. -/
def storedPair (cas : CaTable) : HierOp → Option (CaCertificate × CaCertificate)
  | .importCross (.ok cross) (.ok issuerCert) =>
    match rootsOf cas cross with
    | [subjectRow] => (signingRows cas subjectRow issuerCert).head?.map (subjectRow, ·)
    | _ => none
  | _ => none

/-- The signing row of an imported cross certificate is the stored one or new. -/
theorem signingRow_cases {crossPem : CaX509.Parsed Cert} {subject : CaCertificate}
    {issuer cert : Cert} (hsubject : rootsOf cas cert = [subject])
    (h : CaX509.loadCross E d crossPem subject.cert issuer = .ok cert) :
    (storedPair cas (.importCross crossPem (.ok issuer)) =
        some (subject, (signingRow E cas subject issuer).2) ∧
      (signingRow E cas subject issuer).1 = cas) ∨
    storedPair cas (.importCross crossPem (.ok issuer)) = none ∧
      signingRow E cas subject issuer =
        (cas.upsert (foreignRoot E cas issuer), foreignRoot E cas issuer) := by
  obtain ⟨-, -, rfl, -⟩ := CaX509.loadCross_spec h
  cases hrows : signingRows cas subject issuer with
  | nil => exact .inr (by simp [storedPair, signingRow, hsubject, hrows])
  | cons r rs => exact .inl (by simp [storedPair, signingRow, hsubject, hrows])

/-- Every row an operation adds is sound. -/
theorem sound_of_adds {r : CaCertificate} (h : Adds E d cas op t r) (hsound : SoundTable E t)
    (hfresh : r.id = t.nextId) : Sound E (t.upsert r) r := by
  have hold : ∀ {x}, x ∈ t → x ∈ t.upsert r := fun hx => (mem_add hfresh).2 (.inr hx)
  cases h with
  | root h =>
    obtain ⟨name, hname, -, htbs, -⟩ := CaX509.createRoot_spec h
    refine ⟨(subjectName_of_nameOfCommonName hname ?_).symm, key_sealed ?_, ?_⟩
    · simp [Cert.subject, htbs, encodeTbs]
    · simp [Cert.publicKey, htbs, encodeTbs]
    · refine .root rfl rfl rfl fun _ => ?_
      simp [Cert.ski, htbs, encodeTbs]
  | intermediate hroot hid hkind hsealed hkey h =>
    obtain ⟨name, ski, hname, -, hski, htbs, hv⟩ := CaX509.createIntermediate_spec h
    obtain ⟨k, hk, hpub⟩ := (hsound _ hroot).key _ hsealed
    obtain rfl := Option.some.inj (hkey.symm.trans hk)
    refine ⟨(subjectName_of_nameOfCommonName hname ?_).symm, key_sealed ?_, ?_⟩
    · simp [Cert.subject, htbs, encodeTbs]
    · simp [Cert.publicKey, htbs, encodeTbs]
    · refine .intermediate rfl (hold hroot) hkind (by simp [hid]) rfl (by simp) ⟨?_, hpub ▸ hv⟩
      simp [Cert.issuer, htbs, encodeTbs]
  | importedRoot h => exact sound_foreignRoot _
  | importedIntermediate h =>
    obtain ⟨p, hp, -, -, -, hpub, hissued⟩ := CaX509.loadImport_spec h
    cases hp
    refine ⟨rfl, key_sealed hpub.symm, ?_⟩
    exact .intermediate rfl (hold ((mem_add rfl).2 (.inl rfl))) rfl rfl rfl (by simp) hissued
  | cross hca hcaId hcaKind hroot hrootId hrootKind hne hsealed hkey hlength hpair h =>
    obtain ⟨ski, bc, ku, aki, -, hski, -, -, -, htbs, hv⟩ := CaX509.crossSign_spec h
    obtain ⟨k, hk, hpub⟩ := (hsound _ hroot).key _ hsealed
    obtain rfl := Option.some.inj (hkey.symm.trans hk)
    refine ⟨rfl, fun s hs => by simp at hs, ?_⟩
    refine .cross rfl (hold hroot) (hold hca) hrootKind hcaKind (by rw [hrootId, hcaId]; exact hne)
      (by simp [hrootId]) (by simp [hcaId]) rfl ⟨?_, hpub ▸ hv⟩ ?_ ?_
    · simp [Cert.issuer, htbs, encodeTbs]
    · simp [sameCa, Cert.subject, Cert.publicKey, htbs, encodeTbs]
    · simp [Cert.ski, htbs, encodeTbs, hski]
  | importedSigner => exact sound_foreignRoot _
  | @importedCross crossPem issuerPem subject issuer cert hissuer hsubject h =>
    obtain ⟨ski, sski, -, hsub, hpub, hissued, -, hski, hsski, heq, -⟩ := CaX509.loadCross_spec h
    have hmem : subject ∈ rootsOf cas cert := by simp [hsubject]
    obtain ⟨hmem, hkind, -⟩ := mem_rootsOf.1 hmem
    obtain ⟨hp, hs, hpkind, hne, hsame⟩ := signingRow_spec (E := E) hmem issuer
    obtain ⟨hps, hpk⟩ := sameCa_iff.1 hsame
    refine ⟨rfl, fun s hs => by simp at hs, ?_⟩
    refine .cross rfl (hold hp) (hold hs) hpkind hkind hne rfl rfl rfl (hissued.congr hps hpk) ?_ ?_
    · exact sameCa_iff.2 ⟨hsub, hpub⟩
    · simp [Cert.ski, hski, hsski, heq]

/-! ### Runs -/

/-- A write keeps the table sound. -/
theorem sound_of_effect (h : Effect E (Adds E d cas op) t t') (hsound : SoundTable E t) :
    SoundTable E t' :=
  h.forall_rows hsound (fun _ _ _ hk _ hc hcert hr => hr.keep hk hc hcert)
    (fun _ _ _ hren _ hk => Sound.renew hren hsound hk)
    fun _ hfresh hadds _ => sound_of_adds hadds hsound hfresh

theorem sound_of_effects (h : Effects E (Adds E d cas op) t t') (hsound : SoundTable E t) :
    SoundTable E t' := by
  induction h with
  | refl => exact hsound
  | tail _ h ih => exact sound_of_effect h ih

/-- **Every reachable table is sound.** -/
theorem sound_of_reach {C : CaTable → HierOp × Draw → Prop}
    (h : (hierarchy E).Reach C .empty t) : SoundTable E t :=
  h.invariant (fun _ hr => absurd hr Table.not_mem_empty)
    fun _ _ _ hs _ hstep => sound_of_effects (hierarchy_step_effects hstep) hs

end Cabin
