import Cabin.Ca.Chains

/-!
# Anchors

A client names a path by the id of its topmost row.  The name is unambiguous where a root has at
most one active cross certificate by each signing root (`PairsUnique`).  `crossSignRoot` refuses a
second one; `importCross` does not look.

* `anchors_unique` : in every run whose imports bring no second cross certificate for a pair, the
  anchors of a set of chains are pairwise distinct and each fetches its own path;
* `anchor_ambiguous` : a run in which two paths have one anchor.
-/

namespace Cabin

open X509 Service

/-- A root has at most one active cross certificate by each signing root. -/
def PairsUnique (t : CaTable) : Prop :=
  ∀ c ∈ t, ∀ c' ∈ t, c.status = .active → c'.status = .active → c.crossOfId ≠ none →
    c'.crossOfId = c.crossOfId → c'.parentId = c.parentId → c' = c

/-- No active cross certificate is stored for the pair of an imported one. -/
def PairFree (cas : CaTable) (a : HierOp × Draw) : Prop :=
  ∀ p ∈ storedPair cas a.1, activeCrossPairs cas p.1.id p.2.id = []

instance (cas : CaTable) (a : HierOp × Draw) : Decidable (PairFree cas a) :=
  inferInstanceAs (Decidable (∀ p ∈ storedPair cas a.1, activeCrossPairs cas p.1.id p.2.id = []))

variable {E : Crypto} {d : Draw} {cas t t' : CaTable} {op : HierOp}

/-! ### Pairs stay unique -/

theorem activeCrossPairs_eq_nil {caId signingRootId : ℕ}
    (h : activeCrossPairs t caId signingRootId = []) {c : CaCertificate} (hc : c ∈ t)
    (hactive : c.status = .active) (hof : c.crossOfId = some caId) :
    c.parentId ≠ some signingRootId := by
  intro hpar
  have hmem : c ∈ activeCrossPairs t caId signingRootId := by
    simp [activeCrossPairs, hc, hactive, hof, hpar]
  simp [h] at hmem

/-- A new cross row is the only active one for its pair. -/
theorem pair_free_of_adds {x c : CaCertificate} (h : Adds E d cas op t x)
    (hcas : SoundTable E cas) (hfree : PairFree cas (op, d)) (hc : c ∈ t)
    (hactive : c.status = .active) (hcross : x.crossOfId ≠ none)
    (hof : c.crossOfId = x.crossOfId) : c.parentId ≠ x.parentId := by
  cases h with
  | root h => simp at hcross
  | intermediate => simp at hcross
  | importedRoot => simp [foreignRoot] at hcross
  | importedIntermediate => simp at hcross
  | cross hca hcaId hcaKind hroot hrootId hrootKind hne hsealed hkey hlength hpair h =>
    exact activeCrossPairs_eq_nil hpair hc hactive hof
  | importedSigner => simp [foreignRoot] at hcross
  | @importedCross crossPem issuerPem subject issuer cert hissuer hsubject h =>
    subst hissuer
    rcases signingRow_cases hsubject h with ⟨hstored, hsame⟩ | ⟨-, hnew⟩
    · rw [hsame] at hc
      exact activeCrossPairs_eq_nil (hfree _ hstored) hc hactive hof
    · -- Nothing refers to a signing root that has just been stored.
      rw [hnew] at hc ⊢
      intro hpar
      rcases (mem_add rfl).1 hc with rfl | hc
      · simp [foreignRoot] at hpar
      · obtain ⟨q, hq, hid, -⟩ := (hcas c hc).shape.parent_unique hpar
        exact absurd hid (Table.lt_nextId hq).ne

theorem pairsUnique_add {x : CaCertificate} (hfresh : x.id = t.nextId)
    (hadds : Adds E d cas op t x) (hcas : SoundTable E cas) (hfree : PairFree cas (op, d))
    (h : PairsUnique t) : PairsUnique (t.upsert x) := by
  intro c hc c' hc' ha ha' hcross hof hpar
  rcases (mem_add hfresh).1 hc with rfl | hc₀ <;> rcases (mem_add hfresh).1 hc' with rfl | hc₀'
  · rfl
  · exact absurd hpar (pair_free_of_adds hadds hcas hfree hc₀' ha' hcross hof)
  · exact absurd hpar.symm
      (pair_free_of_adds hadds hcas hfree hc₀ ha (hof ▸ hcross) hof.symm)
  · exact h c hc₀ c' hc₀' ha ha' hcross hof hpar

theorem pairsUnique_retire {targets : List ℕ} (h : PairsUnique t) :
    PairsUnique (retireRows t targets) := by
  intro x hx x' hx' ha ha' hcross hof hpar
  obtain ⟨c, hc, rfl⟩ := mem_retireRows.1 hx
  obtain ⟨c', hc', rfl⟩ := mem_retireRows.1 hx'
  -- What is active afterwards was active before, and is the same row.
  have hc₀ : c.id ∉ targets := fun hid => by simp [hid] at ha
  have hc₀' : c'.id ∉ targets := fun hid => by simp [hid] at ha'
  simp only [hc₀, hc₀', if_false] at *
  exact h c hc c' hc' ha ha' hcross hof hpar

theorem pairsUnique_renew {row signer : CaCertificate} {k : Cert} (hren : Renewal E t row signer k)
    (h : PairsUnique t) : PairsUnique (replaceCert t row.id k) := by
  intro x hx x' hx' ha ha' hcross hof hpar
  obtain ⟨c, hc, rfl⟩ := mem_replaceCert.1 hx
  obtain ⟨c', hc', rfl⟩ := mem_replaceCert.1 hx'
  have hstatus : ∀ r : CaCertificate,
      (if r.id = row.id then { r with cert := k } else r).status = r.status := fun r => by
    split_ifs <;> rfl
  rw [(continues_renewed hren hc).crossOfId] at hcross hof
  rw [(continues_renewed hren hc).parentId] at hpar
  rw [(continues_renewed hren hc').crossOfId] at hof
  rw [(continues_renewed hren hc').parentId] at hpar
  rw [hstatus] at ha ha'
  rw [h c hc c' hc' ha ha' hcross hof hpar]

theorem pairsUnique_of_effects (h : Effects E (Adds E d cas op) cas t) (hcas : SoundTable E cas)
    (hfree : PairFree cas (op, d)) (hpairs : PairsUnique cas) : PairsUnique t := by
  induction h with
  | refl => exact hpairs
  | tail _ h ih =>
    cases h with
    | add hfresh hadds => exact pairsUnique_add hfresh hadds hcas hfree ih
    | retire hrow => exact pairsUnique_retire ih
    | renew hren => exact pairsUnique_renew hren ih

theorem pairsUnique_of_reach (h : (hierarchy E).Reach PairFree .empty t) :
    SoundTable E t ∧ PairsUnique t :=
  h.invariant (I := fun t => SoundTable E t ∧ PairsUnique t)
    ⟨fun _ hr => absurd hr Table.not_mem_empty, fun _ hr => absurd hr Table.not_mem_empty⟩
    fun _ _ _ hi hc hstep =>
      have heff := hierarchy_step_effects hstep
      ⟨sound_of_effects heff hi.1, pairsUnique_of_effects heff hi.1 hc hi.2⟩

/-! ### Anchors of a set of chains -/

/-- The anchor of a cross path is the signing root of its cross row. -/
theorem anchorId_crossPath (hs : SoundTable E t) {x : CaCertificate} {top : Option ℕ}
    (hx : x ∈ activeCrossRows t top) {base : List CaCertificate} {now : ℤ} {c : Chain}
    (hc : crossPath t now base x = some c) : c.anchorId = x.parentId := by
  obtain ⟨hmem, hne, -, -⟩ := mem_activeCrossRows.1 hx
  obtain ⟨sid, hsid⟩ := Option.ne_none_iff_exists'.1 hne
  obtain ⟨p, hp, -, -, -, -, -, -, hpar, -⟩ := (hs x hmem).shape.cross_of_crossOfId hsid
  simp only [crossPath, walk_cross hp hpar, Option.ite_none_right_eq_some, Option.some_inj] at hc
  obtain ⟨-, rfl⟩ := hc
  simp [Chain.anchorId, hpar]

/-- The anchor of the base path is a root of the table. -/
theorem anchorId_basePath (hs : SoundTable E t) {r : CaCertificate} (hr : r ∈ t) :
    ∃ b ∈ t, b.kind = .root ∧ (basePath t r).anchorId = some b.id := by
  cases hp : r.parentId with
  | none =>
    have hkind := (hs r hr).shape.kind_root hp
    exact ⟨r, hr, hkind, by simp [basePath, Chain.anchorId, walk_root hs hr hkind]⟩
  | some pid =>
    obtain ⟨p, hmem, rfl, hkind, hpar⟩ := parent_of_sound hs hr hp
    exact ⟨p, hmem, hkind, by simp [basePath, Chain.anchorId, walk, hpar]⟩

theorem anchors_crossPaths_nodup (hs : SoundTable E t) (hpairs : PairsUnique t) (now : ℤ)
    (base : Chain) : ((crossPaths t now base).map Chain.anchorId).Nodup := by
  unfold crossPaths
  rw [List.Nodup, List.pairwise_map, List.pairwise_filterMap]
  have hsorted : (activeCrossRows t base.anchorId).Pairwise fun a b => a.id < b.id :=
    Table.select_sorted t _
  refine hsorted.imp_of_mem fun {x y} hx hy hlt c hc c' hc' => ?_
  rw [anchorId_crossPath hs hx hc, anchorId_crossPath hs hy hc']
  obtain ⟨hxt, hxne, hxtop, hxa⟩ := mem_activeCrossRows.1 hx
  obtain ⟨hyt, -, hytop, hya⟩ := mem_activeCrossRows.1 hy
  intro hpar
  have := hpairs x hxt y hyt hxa hya hxne (hytop.trans hxtop.symm) hpar.symm
  exact absurd (congrArg CaCertificate.id this) hlt.ne'

theorem anchor_base_notMem (hs : SoundTable E t) {r : CaCertificate} (hr : r ∈ t) (now : ℤ) :
    (basePath t r).anchorId ∉ (crossPaths t now (basePath t r)).map Chain.anchorId := by
  intro hmem
  obtain ⟨b, -, -, hb⟩ := anchorId_basePath hs hr
  obtain ⟨c, hc, hanchor⟩ := List.mem_map.1 hmem
  obtain ⟨x, hx, hpath⟩ := List.mem_filterMap.1 hc
  rw [anchorId_crossPath hs hx hpath, hb] at hanchor
  obtain ⟨hxt, -, hxtop, -⟩ := mem_activeCrossRows.1 hx
  obtain ⟨p, -, s, -, -, -, -, hne, hpar, hsid, -⟩ :=
    (hs x hxt).shape.cross_of_crossOfId (hxtop.trans hb)
  exact hne ((Option.some.inj (hpar.symm.trans hanchor)).trans hsid.symm)

theorem paths_perm (base : Chain) (cs : List Chain) :
    (chainSet base cs).paths.Perm (base :: cs) := by
  cases cs with
  | nil => exact .refl _
  | cons c cs => exact .swap _ _ _

/-- Where the anchors differ, each one fetches its own path. -/
theorem byAnchor_eq {s : ChainSet} (h : (s.paths.map Chain.anchorId).Nodup) {c : Chain}
    (hc : c ∈ s.paths) {a : ℕ} (ha : c.anchorId = some a) : s.byAnchor a = some c := by
  obtain ⟨c', hc'⟩ : ∃ c', s.byAnchor a = some c' := by
    rw [← Option.isSome_iff_exists, ChainSet.byAnchor, List.find?_isSome]
    exact ⟨c, hc, by simp [ha]⟩
  have hmem := List.mem_of_find?_eq_some hc'
  have ha' : c'.anchorId = some a := by simpa using List.find?_some hc'
  rw [hc', List.inj_on_of_nodup_map h hmem hc (ha'.trans ha.symm)]

/-- **Anchors name paths uniquely, as long as no import brings a second cross certificate for a
pair.**  In every table reached so, at every instant, the anchors of the paths of a row are pairwise
distinct, and the anchor of each path fetches that path. -/
theorem anchors_unique (E : Crypto) (t : CaTable) (h : (hierarchy E).Reach PairFree .empty t) :
    ∀ r ∈ t, ∀ now, ∃ s, (∀ fuel ≥ 2, chainsFor fuel t r.id now = some (.ok s)) ∧
      (s.paths.map Chain.anchorId).Nodup ∧
      ∀ c ∈ s.paths, ∃ a, c.anchorId = some a ∧ s.byAnchor a = some c := by
  obtain ⟨hs, hpairs⟩ := pairsUnique_of_reach h
  intro r hr now
  have hnodup : (((chainSet (basePath t r) (crossPaths t now (basePath t r))).paths).map
      Chain.anchorId).Nodup := by
    rw [((paths_perm _ _).map _).nodup_iff, List.map_cons, List.nodup_cons]
    exact ⟨anchor_base_notMem hs hr now, anchors_crossPaths_nodup hs hpairs now _⟩
  refine ⟨_, fun fuel hf => chainsFor_eq hs hr now hf, hnodup, fun c hc => ?_⟩
  obtain ⟨a, ha⟩ : ∃ a, c.anchorId = some a := by
    rcases mem_paths_chainSet.1 hc with rfl | hc'
    · obtain ⟨b, -, -, hb⟩ := anchorId_basePath hs hr
      exact ⟨_, hb⟩
    · obtain ⟨x, hx, hpath⟩ := List.mem_filterMap.1 hc'
      obtain ⟨hxt, hxne, -, -⟩ := mem_activeCrossRows.1 hx
      obtain ⟨sid, hsid⟩ := Option.ne_none_iff_exists'.1 hxne
      obtain ⟨p, -, -, -, -, -, -, -, hpar, -⟩ := (hs x hxt).shape.cross_of_crossOfId hsid
      exact ⟨p.id, (anchorId_crossPath hs hx hpath).trans hpar⟩
  exact ⟨a, ha, byAnchor_eq hnodup hc ha⟩

/-- The anchors of `crossedHierarchy`: the old root by default, the new one as the alternate. -/
theorem anchors_unique_crossedHierarchy :
    ∃ t, (hierarchy .transparent).Reach PairFree .empty t ∧
      ∃ r ∈ t, r.kind = .intermediate ∧ ∀ now, ∃ s,
        (∀ fuel ≥ 2, chainsFor fuel t r.id now = some (.ok s)) ∧
        (s.paths.map Chain.anchorId).Nodup := by
  have h : (hierarchy .transparent).Reach PairFree .empty _ :=
    Machine.reach_final _ crossedHierarchy (by decide +kernel)
  obtain ⟨r, hr, hkind⟩ : ∃ r ∈ (hierarchy .transparent).final .empty crossedHierarchy,
    r.kind = .intermediate := by decide +kernel
  refine ⟨_, h, r, hr, hkind, fun now => ?_⟩
  obtain ⟨s, hs, hnodup, -⟩ := anchors_unique _ _ h r hr now
  exact ⟨s, hs, hnodup⟩

/-- The certificate of a row, as it is downloaded. -/
def downloaded (t : CaTable) (id : ℕ) : CaX509.Parsed Cert :=
  match t.get? id with
  | some r => .ok r.cert
  | none => .error "no such row"

/-- `crossedHierarchy`, and then its cross certificate is downloaded and imported again. -/
def crossedTwice : CaTable :=
  let t := (hierarchy .transparent).final .empty crossedHierarchy
  (hierarchy .transparent).final t
    [(.importCross (downloaded t 4) (downloaded t 3), .sample 5)]

theorem reachable_crossedTwice : (hierarchy .transparent).Reachable .empty crossedTwice :=
  (Machine.reachable_final _ crossedHierarchy).trans (Machine.reachable_final _ _)

/-- In `crossedTwice` two paths of the intermediate end in the old root, so its anchor does not name
one of them. -/
theorem anchor_ambiguous :
    ¬ ∀ t, (hierarchy .transparent).Reachable .empty t → ∀ r ∈ t, r.kind = .intermediate →
      ∀ now s, chainsFor 2 t r.id now = some (.ok s) → (s.paths.map Chain.anchorId).Nodup := by
  intro hall
  have hs : SoundTable .transparent crossedTwice := sound_of_reach reachable_crossedTwice
  obtain ⟨r, hr, hid, hkind⟩ : ∃ r ∈ crossedTwice, r.id = 2 ∧ r.kind = .intermediate := by
    decide +kernel
  have hset := chainsFor_eq hs hr (Instant.days 20001) (le_refl 2)
  have hnodup := hall _ reachable_crossedTwice r hr hkind _ _ hset
  rw [hid] at hset
  have hanchors : ((chainsFor 2 crossedTwice 2 (Instant.days 20001)).map fun s => s.map fun s =>
      s.paths.map Chain.anchorId) = some (.ok [some 3, some 1, some 3]) := by decide +kernel
  rw [hset, Option.map_some, Except.map, Option.some_inj, Except.ok.injEq] at hanchors
  rw [hanchors] at hnodup
  exact absurd hnodup (by decide)

end Cabin
