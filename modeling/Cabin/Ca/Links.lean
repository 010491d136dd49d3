import Cabin.X509.Transparent
import Cabin.Ca.Machine
import Cabin.Ca.Sound

/-!
# Issuance links

Rows are renewed in place while what they signed keeps its certificate.  The links survive: a leaf,
an intermediate and a cross certificate verify under the current certificate of the row they refer
to, because a renewal keeps the subject, the key and the key identifier.

* `links_of_write` : one write keeps the links;
* `issuance_links` : they hold in every state of every run, and every row is continued by the row
  it has become.
-/

namespace Cabin

open X509 Service

/-- The leaf is issued by the current certificate of its issuing row, and its
AuthorityKeyIdentifier is the row's SubjectKeyIdentifier. -/
def LeafLinked (E : Crypto) (t : CaTable) (c : Certificate) : Prop :=
  ∃ i ∈ t, i.id = c.issuerId ∧ IssuedBy E c.cert i.cert ∧
    ∀ k ∈ i.cert.ski,
      c.cert.tbs.extensions.authorityKeyIdentifier = some ⟨⟨some k, none, none⟩, false⟩

/-- Every row and every leaf is linked to its issuer. -/
structure Linked (E : Crypto) (db : Db) : Prop where
  sound : SoundTable E db.cas
  leaves : ∀ c ∈ db.certificates, LeafLinked E db.cas c

variable {E : Crypto} {db db' : Db} {t t' : CaTable}

theorem LeafLinked.keep {c : Certificate} (h : LeafLinked E t c) (hk : Keeps t t') :
    LeafLinked E t' c := by
  obtain ⟨i, hi, hid, hissued, haki⟩ := h
  obtain ⟨i', hi', hc⟩ := hk i hi
  refine ⟨i', hi', hc.id.trans hid, hissued.congr hc.cert.subject hc.cert.publicKey, ?_⟩
  rw [show i'.cert.ski = i.cert.ski from hc.cert.ski]
  exact haki

/-- A leaf that a sound row has signed is linked to it. -/
theorem SignedBy.leafLinked {d : Draw} {i : CaCertificate} {c : Certificate}
    (h : SignedBy E d i c) (hi : i ∈ t) (hsound : Sound E t i) : LeafLinked E t c := by
  obtain ⟨s, key, pk, sans, hs, hkey, hleaf⟩ := h.signed
  obtain ⟨k, hk, hpub⟩ := hsound.key s hs
  obtain rfl : key = k := Option.some.inj (hkey.symm.trans hk)
  refine ⟨i, hi, h.issuerId.symm, ⟨hleaf.issuer, hpub ▸ hleaf.signed⟩, fun kid hkid => ?_⟩
  obtain ⟨a, ha, hext⟩ := hleaf.aki
  obtain ⟨-, rfl⟩ := CaX509.authorityKeyIdentifier_spec ha
  rw [hext]
  unfold Cert.ski at hkid
  cases hski : i.cert.tbs.extensions.subjectKeyIdentifier with
  | none => simp [hski] at hkid
  | some e =>
    obtain rfl : e.value = kid := by simpa [hski] using hkid
    rfl

theorem mem_mark {certs : Table Certificate} {id : ℕ} {moment : ℤ} {reason : RevocationReason}
    {c : Certificate} :
    c ∈ Crl.mark certs id moment reason ↔ ∃ r ∈ certs, (if r.id = id then
      { r with revokedAt := some moment, revocationReason := some reason } else r) = c := by
  simp [Crl.mark]

theorem sound_of_write (h : Write E db db') (hs : SoundTable E db.cas) : SoundTable E db'.cas := by
  cases h with
  | hierarchy heff => exact sound_of_effects heff hs
  | _ => exact hs

/-- A write keeps the links. -/
theorem links_of_write (h : Write E db db') (hl : Linked E db) : Linked E db' := by
  cases h with
  | same => exact hl
  | hierarchy heff =>
    exact ⟨sound_of_effects heff hl.sound, fun c hc => (hl.leaves c hc).keep heff.keeps⟩
  | leaf hissuer hid hsigned hserial =>
    refine ⟨hl.sound, fun x hx => ?_⟩
    rcases Table.mem_upsert.1 hx with rfl | ⟨hx, -⟩
    · exact hsigned.leafLinked hissuer (hl.sound _ hissuer)
    · exact hl.leaves x hx
  | crl h => exact ⟨hl.sound, hl.leaves⟩
  | revoke hrow hnew hissuer h =>
    refine ⟨hl.sound, fun x hx => ?_⟩
    obtain ⟨r, hr, rfl⟩ := mem_mark.1 hx
    obtain ⟨i, hi, hid, hrest⟩ := hl.leaves r hr
    split_ifs <;> exact ⟨i, hi, hid, hrest⟩
  | settings => exact ⟨hl.sound, hl.leaves⟩

theorem keeps_of_write (h : Write E db db') : Keeps db.cas db'.cas := by
  cases h with
  | hierarchy heff => exact heff.keeps
  | _ => exact .refl _

/-- The state without rows, under any settings. -/
def Db.start (userIssuers tokenIssuers : List (ℕ × ℕ)) (origin : Option Str) : Db :=
  { Db.empty with userIssuers, tokenIssuers, origin }

theorem linked_of_reach {u v : List (ℕ × ℕ)} {o : Option Str}
    (h : (caMachine E).Reachable (.start u v o) db) : Linked E db :=
  h.invariant ⟨fun _ hr => absurd hr Table.not_mem_empty, fun _ hr => absurd hr Table.not_mem_empty⟩
    fun _ _ _ hi _ hstep => links_of_write (caMachine_step hstep) hi

theorem keeps_of_reach (h : (caMachine E).Reachable db db') : Keeps db.cas db'.cas :=
  h.rel (I := fun _ => True) (R := fun a b => Keeps a.cas b.cas) trivial (fun _ => .refl _)
    (fun _ _ _ => Keeps.trans) (fun _ _ _ _ _ _ => trivial)
    fun _ _ _ _ _ hstep => keeps_of_write (caMachine_step hstep)

/-- **Issuance links survive every run.**  In every state of every run of the calls, each leaf and
each row below another is issued by the current certificate of the row it refers to, and the key
identifiers of leaves match; and every row goes on as a row whose certificate has the same subject,
key, key identifier, constraints and usages, so the name constraint check answers the same. -/
theorem issuance_links (E : Crypto) (u v : List (ℕ × ℕ)) (o : Option Str) (db : Db)
    (h : (caMachine E).Reachable (.start u v o) db) :
    (∀ c ∈ db.certificates, LeafLinked E db.cas c) ∧
    (∀ r ∈ db.cas, r.kind ≠ .root →
      ∃ p ∈ db.cas, r.parentId = some p.id ∧ IssuedBy E r.cert p.cert) ∧
    ∀ db', (caMachine E).Reachable db db' → ∀ r ∈ db.cas, ∃ r' ∈ db'.cas, r'.id = r.id ∧
      CaX509.Continues r.cert r'.cert ∧ ∀ cn sans,
        Leaf.checkNameConstraints r'.cert cn sans = Leaf.checkNameConstraints r.cert cn sans := by
  have hl := linked_of_reach h
  refine ⟨hl.leaves, fun r hr hkind => ?_, fun db' h' r hr => ?_⟩
  · cases (hl.sound r hr).shape with
    | root kind => exact absurd kind hkind
    | intermediate _ mem _ parentId _ _ issued => exact ⟨_, mem, parentId, issued⟩
    | cross _ mem _ _ _ _ parentId _ _ issued => exact ⟨_, mem, parentId, issued⟩
  · obtain ⟨r', hr', hc⟩ := keeps_of_reach h' r hr
    exact ⟨r', hr', hc.id, hc.cert, fun cn sans => Leaf.checkNameConstraints_congr hc.cert cn sans⟩

/-- A hierarchy, a leaf, and then a renewal of the intermediate that signed it. -/
def issueThenRenew : List (Op × Draw) :=
  [(.hierarchy (.createRoot (Str.of "Root") "ecdsa-p256" 20 1), .sample 1),
    (.hierarchy (.createIntermediateUnder 1 (Str.of "Issuer") "ecdsa-p256" 10 none), .sample 2),
    (.issueAndStore .system .server (Str.of "nas.lan") [] 365 "ecdsa-p256" none .ui, .sample 3),
    (.hierarchy (.renewInPlace 2 15), .sample 4)]

/-- After `issueThenRenew` there is a leaf, and it is linked to the renewed intermediate. -/
theorem issuance_links_issueThenRenew :
    ∃ db, (caMachine .transparent).Reachable (.start [] [] none) db ∧
      (∃ r ∈ db.cas, r.id = 2 ∧ r.cert.tbs.serialNumber = 4) ∧
      ∃ c ∈ db.certificates, c.issuerId = 2 ∧ LeafLinked .transparent db.cas c := by
  have h : (caMachine .transparent).Reachable (.start [] [] none) _ :=
    Machine.reachable_final _ issueThenRenew
  obtain ⟨c, hc, hid⟩ : ∃ c ∈ ((caMachine .transparent).final (.start [] [] none)
    issueThenRenew).certificates, c.issuerId = 2 := by decide +kernel
  exact ⟨_, h, by decide +kernel, c, hc, hid, (issuance_links _ _ _ _ _ h).1 c hc⟩

end Cabin
