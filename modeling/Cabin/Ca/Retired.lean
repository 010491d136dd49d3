import Cabin.X509.Transparent
import Cabin.Ca.Sound

/-!
# Retired roots

A retired root should vouch for nothing new.  Retiring a root stands down everything it signed,
but the three operations that create a row under a root do not ask whether the root is retired.

* `Rests` : below a retired row there is no active one;
* `rests_of_reach` : it holds in every run whose creations are signed by active roots
  (`SignerActive`);
* `active_under_retired_root` : a run in which it fails.
-/

namespace Cabin

open X509 Service

/-- No row whose parent is retired is active. -/
def Rests (t : CaTable) : Prop :=
  ∀ r ∈ t, ∀ p ∈ t, r.parentId = some p.id → p.status = .retired → r.status ≠ .active

/-- The stored row an operation makes the parent of a new row. -/
def signerOf (cas : CaTable) : HierOp → Option CaCertificate
  | .createIntermediateUnder rootId _ _ _ _ => cas.get? rootId
  | .crossSignRoot _ signingRootId _ => cas.get? signingRootId
  | .importCross crossPem issuerPem =>
    (storedPair cas (.importCross crossPem issuerPem)).map Prod.snd
  | _ => none

/-- The root that is to sign a new row is not retired. -/
def SignerActive (cas : CaTable) (a : HierOp × Draw) : Prop :=
  ∀ r ∈ signerOf cas a.1, r.status = .active

instance (cas : CaTable) (a : HierOp × Draw) : Decidable (SignerActive cas a) :=
  inferInstanceAs (Decidable (∀ r ∈ signerOf cas a.1, r.status = .active))

instance (t : CaTable) : Decidable (Rests t) :=
  inferInstanceAs (Decidable (∀ r ∈ t, ∀ p ∈ t, r.parentId = some p.id → p.status = .retired →
    r.status ≠ .active))

variable {E : Crypto} {d : Draw} {cas t t' : CaTable} {op : HierOp}

/-- A new row has no parent, or one that is active. -/
theorem parent_active_of_adds {r : CaCertificate} (h : Adds E d cas op t r)
    (hsigner : SignerActive cas (op, d)) {p : CaCertificate} (hp : p ∈ t)
    (hparent : r.parentId = some p.id) : p.status = .active := by
  cases h with
  | root h => simp at hparent
  | intermediate hroot hid =>
    refine hsigner p ?_
    have hid : p.id = _ := (Option.some.inj hparent).symm
    exact hid ▸ Table.get?_key hp
  | importedRoot => simp [foreignRoot] at hparent
  | @importedIntermediate certPem keyPem chainPem cert key parent h =>
    have hid : (foreignRoot E cas parent).id = p.id := Option.some.inj hparent
    obtain rfl := Table.eq_of_key ((mem_add rfl).2 (.inl rfl)) hp hid
    rfl
  | cross hca hcaId hcaKind hroot hrootId =>
    refine hsigner p ?_
    have hid : p.id = _ := (Option.some.inj hparent).symm
    exact hid ▸ Table.get?_key hp
  | importedSigner => simp [foreignRoot] at hparent
  | @importedCross crossPem issuerPem subject issuer cert hissuer hsubject h =>
    subst hissuer
    obtain ⟨hmem, -⟩ := mem_rootsOf.1 (show subject ∈ rootsOf cas cert by simp [hsubject])
    obtain ⟨hrow, -⟩ := signingRow_spec (E := E) hmem issuer
    obtain rfl := Table.eq_of_key hrow hp (Option.some.inj hparent)
    rcases signingRow_cases hsubject h with ⟨hstored, -⟩ | ⟨-, hnew⟩
    · exact hsigner _ (by simp [signerOf, hstored])
    · rw [hnew]
      rfl

/-- What a retired root signed is retired with it: a target that is a parent is the root itself. -/
theorem child_mem_retireTargets (hsound : SoundTable E t) {row p r : CaCertificate} (hrow : row ∈ t)
    (hp : p ∈ t) (hr : r ∈ t) (hparent : r.parentId = some p.id)
    (h : p.id ∈ retireTargets t row) : r.id ∈ retireTargets t row := by
  obtain ⟨q, hq, hid, hkind, -⟩ := (hsound r hr).shape.parent_unique hparent
  obtain rfl : q = p := Table.eq_of_key hq hp hid
  unfold retireTargets at h ⊢
  split_ifs at h ⊢ with hroot
  · obtain rfl : q = row := Table.eq_of_key hq hrow (by simpa using h)
    exact absurd hkind hroot
  · rcases List.mem_cons.1 h with h | h
    · refine List.mem_cons_of_mem _ (List.mem_map_of_mem ?_)
      rw [Table.mem_select]
      exact ⟨hr, by simp [hparent, h]⟩
    · obtain ⟨c, hc, hcid⟩ := List.mem_map.1 h
      obtain ⟨hc, hcp⟩ := Table.mem_select.1 hc
      obtain rfl : c = q := Table.eq_of_key hc hq hcid
      simp [(hsound c hc).shape.parentId_root hkind] at hcp

theorem rests_add {x : CaCertificate} (hfresh : x.id = t.nextId) (hadds : Adds E d cas op t x)
    (hsound : SoundTable E t) (hsigner : SignerActive cas (op, d)) (hrests : Rests t) :
    Rests (t.upsert x) := by
  intro r hr p hp hparent hretired
  -- The parent of a row is an older row, so it is not the new one.
  have hsound' : Sound E (t.upsert x) r := sound_of_effect (.add hfresh hadds) hsound r hr
  have hpt : p ∈ t := by
    rcases (mem_add hfresh).1 hp with rfl | hp'
    · rcases (mem_add hfresh).1 hr with rfl | hr'
      · obtain ⟨q, hq, hid, hkind, -⟩ := hsound'.shape.parent_unique hparent
        obtain rfl := Table.eq_of_key hq hp hid
        simp [hsound'.shape.parentId_root hkind] at hparent
      · obtain ⟨q, hq, hid, -⟩ := (hsound r hr').shape.parent_unique hparent
        exact absurd (hid.trans hfresh) (Table.lt_nextId hq).ne
    · exact hp'
  rcases (mem_add hfresh).1 hr with rfl | hr'
  · simp [parent_active_of_adds hadds hsigner hpt hparent] at hretired
  · exact hrests r hr' p hpt hparent hretired

theorem rests_retire {row : CaCertificate} (hrow : row ∈ t) (hsound : SoundTable E t)
    (hrests : Rests t) : Rests (retireRows t (retireTargets t row)) := by
  intro r' hr' p' hp' hparent hretired
  obtain ⟨r, hr, rfl⟩ := mem_retireRows.1 hr'
  obtain ⟨p, hp, rfl⟩ := mem_retireRows.1 hp'
  rw [(continues_retired r).parentId, (continues_retired p).id] at hparent
  by_cases hpt : p.id ∈ retireTargets t row
  · simp [child_mem_retireTargets hsound hrow hp hr hparent hpt]
  · have hr'' := hrests r hr p hp hparent (by simpa [hpt] using hretired)
    split_ifs
    · simp
    · exact hr''

theorem rests_renew {row signer : CaCertificate} {c : Cert} (hren : Renewal E t row signer c)
    (hrests : Rests t) : Rests (replaceCert t row.id c) := by
  intro r' hr' p' hp' hparent hretired
  obtain ⟨r, hr, rfl⟩ := mem_replaceCert.1 hr'
  obtain ⟨p, hp, rfl⟩ := mem_replaceCert.1 hp'
  rw [(continues_renewed hren hr).parentId, (continues_renewed hren hp).id] at hparent
  have hp'' : p.status = .retired := by
    split_ifs at hretired <;> exact hretired
  have hr'' := hrests r hr p hp hparent hp''
  split_ifs <;> exact hr''

/-- A write leaves no active row under a retired one, if what it adds has an active signer. -/
theorem rests_of_effect (h : Effect E (Adds E d cas op) t t') (hsound : SoundTable E t)
    (hsigner : SignerActive cas (op, d)) (hrests : Rests t) : Rests t' := by
  cases h with
  | add hfresh hadds => exact rests_add hfresh hadds hsound hsigner hrests
  | retire hrow => exact rests_retire hrow hsound hrests
  | renew hren => exact rests_renew hren hrests

theorem rests_of_effects (h : Effects E (Adds E d cas op) t t') (hsound : SoundTable E t)
    (hsigner : SignerActive cas (op, d)) (hrests : Rests t) : SoundTable E t' ∧ Rests t' := by
  induction h with
  | refl => exact ⟨hsound, hrests⟩
  | tail _ h ih => exact ⟨sound_of_effect h ih.1, rests_of_effect h ih.1 hsigner ih.2⟩

/-- **A retired root vouches for nothing new, as long as no retired root is asked to sign.**  In
every run of the hierarchy operations from the empty table in which each new row is signed by a
root that is active, no state has an active row under a retired one. -/
theorem retired_root_vouches_for_nothing (E : Crypto) (t : CaTable)
    (h : (hierarchy E).Reach SignerActive .empty t) : Rests t := by
  have hboth : SoundTable E t ∧ Rests t :=
    h.invariant ⟨fun _ hr => absurd hr Table.not_mem_empty, fun _ hr => absurd hr Table.not_mem_empty⟩
      fun _ _ _ hi hc hstep => rests_of_effects (hierarchy_step_effects hstep) hi.1 hc hi.2
  exact hboth.2

/-- Two hierarchies, of which the first is retired. -/
def retireFirst : List (HierOp × Draw) :=
  [(.createRoot (Str.of "A") "ecdsa-p256" 20 1, .sample 1),
    (.createIntermediateUnder 1 (Str.of "A1") "ecdsa-p256" 10 none, .sample 2),
    (.createRoot (Str.of "B") "ecdsa-p256" 20 1, .sample 3),
    (.createIntermediateUnder 3 (Str.of "B1") "ecdsa-p256" 10 none, .sample 4),
    (.retire 1, .sample 5)]

/-- Two hierarchies are created and the first root is retired: the cascade reaches its
intermediate. -/
theorem retired_root_vouches_for_nothing_retireFirst :
    ∃ t, (hierarchy .transparent).Reach SignerActive .empty t ∧
      (∃ r ∈ t, r.id = 2 ∧ r.status = .retired) ∧ Rests t := by
  have h : (hierarchy .transparent).Reach SignerActive .empty _ :=
    Machine.reach_final _ retireFirst (by decide +kernel)
  exact ⟨_, h, by decide +kernel, retired_root_vouches_for_nothing _ _ h⟩

/-- The retired root is asked for another intermediate, and signs it: an active row under a
retired root. -/
theorem active_under_retired_root :
    ¬ ∀ t, (hierarchy .transparent).Reachable .empty t → Rests t := by
  have h : (hierarchy .transparent).Reachable .empty _ :=
    Machine.reachable_final _ (retireFirst ++
      [(.createIntermediateUnder 1 (Str.of "A2") "ecdsa-p256" 10 none, .sample 6)])
  exact fun hall => absurd (hall _ h) (by decide +kernel)

end Cabin
