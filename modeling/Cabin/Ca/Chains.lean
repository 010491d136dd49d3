import Cabin.X509.Transparent
import Cabin.Ca.Sound

/-!
# Chains

What the walk along `parent_id` and `chainsFor` return on a sound table.  The walk is the row
itself and its parent, if it has one (`walk`); two steps are enough for it.  A path through a
cross row is the base without its top, the cross row and its signing root (`crossPath`).

* `parentWalk_eq`, `chainsFor_eq` : both functions in closed form;
* `hierarchy_shape` : the shape of every reachable table, and that the walk ends and the plain walk
  is served exactly once.
-/

namespace Cabin

open X509 Service

/-- The row a row refers to as its parent. -/
def parentOf (t : CaTable) (r : CaCertificate) : Option CaCertificate := r.parentId.bind t.get?

/-- The row and its parent. -/
def walk (t : CaTable) (r : CaCertificate) : List CaCertificate := r :: (parentOf t r).toList

/-- The path over the cross row `c` at `now`, if its certificates are valid. -/
def crossPath (t : CaTable) (now : ℤ) (base : List CaCertificate) (c : CaCertificate) :
    Option Chain :=
  if (walk t c).all (certValidAt · now) then some ⟨base.dropLast ++ walk t c, some c.id⟩ else none

/-- The cross paths of a base at `now`, by the id of their cross row. -/
def crossPaths (t : CaTable) (now : ℤ) (base : Chain) : List Chain :=
  (activeCrossRows t base.anchorId).filterMap (crossPath t now base.rows)

variable {E : Crypto} {t t' : CaTable} {r p : CaCertificate}

/-! ### The walk -/

theorem getCa_mem (hr : r ∈ t) : getCa t r.id = .ok r := by
  have h : t.get? r.id = some r := Table.get?_key hr
  simp [getCa, h]

theorem parentOf_eq (hp : p ∈ t) (h : r.parentId = some p.id) : parentOf t r = some p := by
  simp only [parentOf, h, Option.bind_some]
  exact Table.get?_key hp

theorem walk_root (hs : SoundTable E t) (hr : r ∈ t) (hkind : r.kind = .root) : walk t r = [r] := by
  simp [walk, parentOf, (hs r hr).shape.parentId_root hkind]

/-- The parent of a row is a root of the table. -/
theorem parent_of_sound (hs : SoundTable E t) (hr : r ∈ t) {pid : ℕ} (hp : r.parentId = some pid) :
    ∃ p ∈ t, p.id = pid ∧ p.kind = .root ∧ parentOf t r = some p := by
  obtain ⟨p, hmem, hid, hkind, -⟩ := (hs r hr).shape.parent_unique hp
  exact ⟨p, hmem, hid, hkind, parentOf_eq hmem (hid ▸ hp)⟩

theorem parentWalk_root (hs : SoundTable E t) (hr : r ∈ t) (hkind : r.kind = .root) {fuel : ℕ}
    (hf : 1 ≤ fuel) : parentWalk fuel t r.id = some (.ok [r]) := by
  obtain ⟨n, rfl⟩ := Nat.exists_eq_add_of_le' hf
  simp [parentWalk, getCa_mem hr, (hs r hr).shape.parentId_root hkind]

theorem parentWalk_step (hr : r ∈ t) {pid : ℕ} (hp : r.parentId = some pid) (fuel : ℕ) :
    parentWalk (fuel + 1) t r.id = (parentWalk fuel t pid).map fun w => w.map (r :: ·) := by
  conv_lhs => unfold parentWalk
  simp only [getCa_mem hr, hp]

/-- The walk from a row of a sound table ends after two steps. -/
theorem parentWalk_eq (hs : SoundTable E t) (hr : r ∈ t) {fuel : ℕ} (hf : 2 ≤ fuel) :
    parentWalk fuel t r.id = some (.ok (walk t r)) := by
  cases hp : r.parentId with
  | none =>
    have hkind := (hs r hr).shape.kind_root hp
    rw [parentWalk_root hs hr hkind (by omega), walk_root hs hr hkind]
  | some pid =>
    obtain ⟨p, hmem, rfl, hkind, hpar⟩ := parent_of_sound hs hr hp
    obtain ⟨n, rfl⟩ := Nat.exists_eq_add_of_le' hf
    rw [parentWalk_step hr hp, parentWalk_root hs hmem hkind (by omega)]
    simp [walk, hpar, Except.map]

theorem parentWalk_unknown {id : ℕ} (h : t.get? id = none) {fuel : ℕ} (hf : 1 ≤ fuel) :
    parentWalk fuel t id =
      some (raise .unknownIssuer s!"no CA certificate with id {id}") := by
  obtain ⟨n, rfl⟩ := Nat.exists_eq_add_of_le' hf
  simp [parentWalk, getCa, h, raise]

theorem length_walk_le (t : CaTable) (r : CaCertificate) : (walk t r).length ≤ 2 := by
  unfold walk
  cases parentOf t r <;> simp

/-- Above its first row a walk has only roots. -/
theorem kind_of_mem_walk_tail (hs : SoundTable E t) (hr : r ∈ t) {x : CaCertificate}
    (hx : x ∈ (walk t r).tail) : x.kind = .root := by
  cases hp : r.parentId with
  | none => simp [walk, parentOf, hp] at hx
  | some pid =>
    obtain ⟨p, -, -, hkind, hpar⟩ := parent_of_sound hs hr hp
    obtain rfl : x = p := by simpa [walk, hpar] using hx
    exact hkind

/-! ### The paths -/

theorem mem_activeCrossRows {top : Option ℕ} {c : CaCertificate} :
    c ∈ activeCrossRows t top ↔
      c ∈ t ∧ c.crossOfId ≠ none ∧ c.crossOfId = top ∧ c.status = .active := by
  simp [activeCrossRows, Option.isSome_iff_ne_none, and_assoc]

/-- An active cross row has a signing root that issued it, and is a second certificate for the root
it crosses. -/
theorem Shape.cross_of_crossOfId (h : Shape E t r) {sid : ℕ} (hc : r.crossOfId = some sid) :
    ∃ p ∈ t, ∃ s ∈ t, r.kind = .cross ∧ p.kind = .root ∧ s.kind = .root ∧ p.id ≠ s.id ∧
      r.parentId = some p.id ∧ s.id = sid ∧ IssuedBy E r.cert p.cert ∧
      sameCa r.cert s.cert = true ∧ r.cert.ski = s.cert.ski := by
  cases h with
  | root _ _ crossOfId => simp [hc] at crossOfId
  | intermediate _ _ _ _ crossOfId => simp [hc] at crossOfId
  | cross kind mem mem' parent subject ne parentId crossOfId keySealed issued same ski =>
    refine ⟨_, mem, _, mem', kind, parent, subject, ne, parentId, ?_, issued, same, ski⟩
    simpa [hc] using crossOfId.symm

/-- The walk of a cross row is the row and its signing root. -/
theorem walk_cross (hp : p ∈ t) (hpar : r.parentId = some p.id) : walk t r = [r, p] := by
  simp [walk, parentOf_eq hp hpar]

theorem crossChain_eq (hs : SoundTable E t) {c : CaCertificate} {top : Option ℕ}
    (hc : c ∈ activeCrossRows t top) (now : ℤ) (base : List CaCertificate) {fuel : ℕ}
    (hf : 1 ≤ fuel) :
    crossChain fuel t now base c = some (.ok (crossPath t now base c)) := by
  obtain ⟨hmem, hne, -, -⟩ := mem_activeCrossRows.1 hc
  obtain ⟨sid, hsid⟩ := Option.ne_none_iff_exists'.1 hne
  obtain ⟨p, hp, s, -, -, hpkind, -, -, hpar, -⟩ := (hs c hmem).shape.cross_of_crossOfId hsid
  have hw := parentWalk_root hs hp hpkind hf
  simp [crossChain, hpar, hw, crossPath, walk_cross hp hpar, Except.map]

theorem survivingChains_eq (hs : SoundTable E t) (now : ℤ) (base : List CaCertificate) {fuel : ℕ}
    (hf : 1 ≤ fuel) {top : Option ℕ} (cs : List CaCertificate)
    (hcs : ∀ c ∈ cs, c ∈ activeCrossRows t top) :
    survivingChains fuel t now base cs = some (.ok (cs.filterMap (crossPath t now base))) := by
  induction cs with
  | nil => rfl
  | cons c cs ih =>
    have ih := ih fun x hx => hcs x (List.mem_cons_of_mem _ hx)
    simp only [survivingChains, crossChain_eq hs (hcs c (by simp)) now base hf, ih,
      Option.map_some, Except.map, List.filterMap_cons]
    cases crossPath t now base c <;> simp

/-- The base path of a row. -/
def basePath (t : CaTable) (r : CaCertificate) : Chain := ⟨walk t r, none⟩

/-- `chainsFor` on a sound table. -/
theorem chainsFor_eq (hs : SoundTable E t) (hr : r ∈ t) (now : ℤ) {fuel : ℕ} (hf : 2 ≤ fuel) :
    chainsFor fuel t r.id now =
      some (.ok (chainSet (basePath t r) (crossPaths t now (basePath t r)))) := by
  simp only [chainsFor, parentWalk_eq hs hr hf]
  rw [survivingChains_eq hs now _ (by omega) _ fun _ hc => hc]
  rfl

theorem mem_paths_chainSet {base c : Chain} {cs : List Chain} :
    c ∈ (chainSet base cs).paths ↔ c = base ∨ c ∈ cs := by
  cases cs with
  | nil => simp [chainSet, ChainSet.paths]
  | cons x xs =>
    simp only [chainSet, ChainSet.paths, List.mem_cons]
    tauto

/-- A cross path goes through an active cross row. -/
theorem mem_crossPaths {now : ℤ} {base c : Chain} :
    c ∈ crossPaths t now base ↔ ∃ x ∈ activeCrossRows t base.anchorId,
      (∀ y ∈ walk t x, certValidAt y now = true) ∧
      c = ⟨base.rows.dropLast ++ walk t x, some x.id⟩ := by
  simp only [crossPaths, List.mem_filterMap, crossPath]
  refine exists_congr fun x => and_congr_right fun _ => ?_
  rw [Option.ite_none_right_eq_some, List.all_eq_true, Option.some_inj, eq_comm (a := c)]

/-- The plain path is there once, as the default or as the first alternate, and is the one
`selfSigned` finds. -/
theorem plain_once (base : Chain) (hbase : base.viaCrossId = none) (cs : List Chain)
    (hcs : ∀ c ∈ cs, c.viaCrossId ≠ none) :
    (chainSet base cs).selfSigned = .ok base ∧ (chainSet base cs).paths.count base = 1 ∧
      ((chainSet base cs).default = base ∨ (chainSet base cs).alternates.head? = some base) := by
  have hne : ∀ c ∈ cs, c ≠ base := fun c hc h => hcs c hc (h ▸ hbase)
  cases cs with
  | nil => simp [chainSet, ChainSet.selfSigned, ChainSet.paths, hbase]
  | cons c cs =>
    have hc := hcs c (by simp)
    have hcount : cs.count base = 0 := by
      rw [List.count_eq_zero]
      exact fun h => hne base (List.mem_cons_of_mem _ h) rfl
    refine ⟨?_, ?_, .inr rfl⟩
    · simp [chainSet, ChainSet.selfSigned, ChainSet.paths, hbase, hc]
    · simp [chainSet, ChainSet.paths, hcount, hne c (by simp)]

/-! ### The shape of reachable tables -/

/-- The shape a row has by its kind, what its parent is, and what it is called. -/
def WellShaped (E : Crypto) (t : CaTable) (r : CaCertificate) : Prop :=
  (match r.kind with
    | .root => r.parentId = none ∧ r.crossOfId = none
    | .intermediate => r.crossOfId = none ∧ r.keySealed ≠ none ∧
        ∃ p ∈ t, p.kind = .root ∧ r.parentId = some p.id
    | .cross => r.keySealed = none ∧ ∃ p ∈ t, ∃ s ∈ t, p.kind = .root ∧ s.kind = .root ∧
        p.id ≠ s.id ∧ r.parentId = some p.id ∧ r.crossOfId = some s.id) ∧
  (∀ p ∈ t, r.parentId = some p.id → p.kind = .root) ∧
  r.name = subjectName E r.cert

theorem Sound.wellShaped (hs : Sound E t r) : WellShaped E t r := by
  refine ⟨?_, fun p hp hpar => ?_, hs.name⟩
  · cases hs.shape with
    | root kind parentId crossOfId =>
      rw [kind]
      exact ⟨parentId, crossOfId⟩
    | intermediate kind mem parent parentId crossOfId keySealed =>
      rw [kind]
      exact ⟨crossOfId, keySealed, _, mem, parent, parentId⟩
    | cross kind mem mem' parent subject ne parentId crossOfId keySealed =>
      rw [kind]
      exact ⟨keySealed, _, mem, _, mem', parent, subject, ne, parentId, crossOfId⟩
  · obtain ⟨q, hq, hid, hkind, -⟩ := hs.shape.parent_unique hpar
    obtain rfl : q = p := Table.eq_of_key hq hp hid
    exact hkind

/-- **The shape of the hierarchy and the end of the walk.**  In every table the hierarchy operations
reach from the empty one the rows have the shape of their kind; no later table drops a row or
revives a retired one; the walk from any id comes to an end with at most two rows, no cross row
above the first; and the set of chains of a row has the plain walk exactly once, as its default or
as its first alternate. -/
theorem hierarchy_shape (E : Crypto) (t : CaTable) (h : (hierarchy E).Reachable .empty t) :
    (∀ r ∈ t, WellShaped E t r) ∧
    (∀ t', (hierarchy E).Reachable t t' → ∀ r ∈ t, ∃ r' ∈ t', r'.id = r.id ∧
      (r.status = .retired → r'.status = .retired)) ∧
    (∀ caId, ∃ w, (∀ fuel ≥ 2, parentWalk fuel t caId = some w) ∧
      ((∃ e, w = .error e ∧ e.kind = .unknownIssuer ∧ t.get? caId = none) ∨
        ∃ rows, w = .ok rows ∧ rows.length ≤ 2 ∧ ∀ r ∈ rows.tail, r.kind ≠ .cross)) ∧
    ∀ r ∈ t, ∀ now, ∃ rows s, (∀ fuel ≥ 2, parentWalk fuel t r.id = some (.ok rows)) ∧
      (∀ fuel ≥ 2, chainsFor fuel t r.id now = some (.ok s)) ∧
      s.selfSigned = .ok ⟨rows, none⟩ ∧ s.paths.count ⟨rows, none⟩ = 1 ∧
      (s.default = ⟨rows, none⟩ ∨ s.alternates.head? = some ⟨rows, none⟩) := by
  have hs : SoundTable E t := sound_of_reach h
  refine ⟨fun r hr => (hs r hr).wellShaped, fun t' h' r hr => ?_, fun caId => ?_,
    fun r hr now => ?_⟩
  · obtain ⟨r', hr', hc⟩ := hierarchy_keeps h' r hr
    exact ⟨r', hr', hc.id, hc.retired⟩
  · cases hg : t.get? caId with
    | none =>
      exact ⟨_, fun fuel hf => parentWalk_unknown hg (by omega), .inl ⟨_, rfl, rfl, rfl⟩⟩
    | some r =>
      obtain ⟨hr, rfl⟩ := Table.get?_eq_some.1 hg
      refine ⟨_, fun fuel hf => parentWalk_eq hs hr hf, .inr ⟨_, rfl, length_walk_le t r, ?_⟩⟩
      intro x hx
      simp [kind_of_mem_walk_tail hs hr hx]
  · have hcs : ∀ c ∈ crossPaths t now (basePath t r), c.viaCrossId ≠ none := by
      intro c hc
      obtain ⟨x, -, -, rfl⟩ := mem_crossPaths.1 hc
      simp
    exact ⟨walk t r, _, fun fuel hf => parentWalk_eq hs hr hf,
      fun fuel hf => chainsFor_eq hs hr now hf, plain_once (basePath t r) rfl _ hcs⟩

/-- A root, an intermediate and a cross certificate by a second root. -/
def crossedHierarchy : List (HierOp × Draw) :=
  [(.createRoot (Str.of "New") "ecdsa-p256" 20 1, .sample 1),
    (.createIntermediateUnder 1 (Str.of "Issuer") "ecdsa-p256" 10 none, .sample 2),
    (.createRoot (Str.of "Old") "ecdsa-p256" 20 2, .sample 3),
    (.crossSignRoot 1 3 10, .sample 4)]

/-- The intermediate of `crossedHierarchy` is served with the cross path first. -/
theorem hierarchy_shape_crossedHierarchy :
    ∃ t, (hierarchy .transparent).Reachable .empty t ∧
      ((t.get? 4).map CaCertificate.kind = some .cross) ∧
      (∀ r ∈ t, WellShaped .transparent t r) ∧
      ((chainsFor 2 t 2 (Instant.days 20001)).map fun s => s.map fun s =>
        s.paths.map Chain.viaCrossId) = some (.ok [some 4, none]) := by
  have h : (hierarchy .transparent).Reachable .empty _ :=
    Machine.reachable_final _ crossedHierarchy
  exact ⟨_, h, by decide +kernel, (hierarchy_shape _ _ h).1, by decide +kernel⟩

end Cabin
