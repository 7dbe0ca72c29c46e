import TYThread.Pool.Moves

/-!
# The layers of a pool

`Stack` says which layers a pool has, how large they are, and that `current_layer` and
`current_size` agree with them. Growing adds a layer on top. Shrinking takes the layers on top away
that are not in use: `Trimmed` relates the pool before and after that.

The sizes are those of the integers as long as the highest one fits into an `int`.
-/

namespace TYThread

/-- The number of entries of layer `k`, as an integer without bounds. -/
def ObjectPoolConfig.layerSize (cfg : ObjectPoolConfig) (k : ℕ) : ℕ :=
  cfg.poolInitSize * cfg.enlargeRate ^ k

/-- The layers of pool `i`, but for the condition that the highest one is in use. -/
structure Stack (cfg : ObjectPoolConfig) (i : ℕ) (p : ObjectPool) : Prop where
  id : p.id = i
  config : p.config = cfg
  present : ∀ k ≤ p.currentLayer, ∃ ly, p.layers k = some ly
  absent : ∀ k, p.currentLayer < k → p.layers k = none
  bound : p.currentLayer < ObjectPool.NLayers
  cap : ∀ k ly, p.layers k = some ly → ly.arenaCap = cfg.layerSize k
  size : p.currentSize = cfg.layerSize p.currentLayer
  fits : cfg.layerSize p.currentLayer < 2 ^ 31

/-- What holds of the layers of pool `i` whatever their sizes are. -/
structure StackShape (cfg : ObjectPoolConfig) (i : ℕ) (p : ObjectPool) : Prop where
  id : p.id = i
  config : p.config = cfg
  present : ∀ k ≤ p.currentLayer, ∃ ly, p.layers k = some ly
  absent : ∀ k, p.currentLayer < k → p.layers k = none
  bound : p.currentLayer < ObjectPool.NLayers
  cap : ∀ k ly, p.layers k = some ly → ly.arenaCap < sizeRange

/-- There is only one layer, or the highest one is in use. -/
def ObjectPool.TopUsed (p : ObjectPool) : Prop :=
  p.currentLayer = 0 ∨ ∃ ly, p.layers p.currentLayer = some ly ∧ 0 < ly.used

/-- Layers on top of `p` that are not in use have been deleted. -/
structure Trimmed (p p' : ObjectPool) : Prop where
  le : p'.currentLayer ≤ p.currentLayer
  layers : ∀ k ≤ p'.currentLayer, p'.layers k = p.layers k
  unused : ∀ k ly, p'.currentLayer < k → p.layers k = some ly → ly.used = 0
  caches : p'.caches = p.caches
  totalCached : p'.totalCached = p.totalCached

/-- That is all that has happened since entries of layer `k` were released. -/
structure Dropped (k : ℕ) (p p' : ObjectPool) : Prop extends Trimmed p p' where
  id : p'.id = p.id
  config : p'.config = p.config
  absent : ∀ k, p'.currentLayer < k → p'.layers k = none
  size : p'.currentSize =
    (fun size ↦ shrink size p.config.enlargeRate)^[p.currentLayer - p'.currentLayer] p.currentSize
  top : (k ≠ p.currentLayer → p.TopUsed) → p'.TopUsed

/-- Layers may have been deleted, of which every entry was free. -/
structure Shrunk (L : EntryLayout) (pools pools' : ℕ → ObjectPool) (place : Ptr → EntryPlace) :
    Prop where
  old : ∀ i k ly', (pools' i).layers k = some ly' →
    ∃ ly, (pools i).layers k = some ly ∧ ly'.extent = ly.extent
  kept : ∀ i k ptr, EntryOf L pools i k ptr → place ptr ≠ .free → EntryOf L pools' i k ptr

variable {L : EntryLayout} {cfg : ObjectPoolConfig} {n : ℕ} {m : Mem}
  {pools pools' : ℕ → ObjectPool}
  {place : Ptr → EntryPlace} {i k : ℕ} {p p' : ObjectPool} {ly : ObjectLayer}

/-! ## Sizes -/

theorem sizeOfInt_natCast {a : ℕ} (ha : a < 2 ^ 31) : sizeOfInt a = a := by
  rw [sizeOfInt, sizeRange]
  omega

theorem intOfSize_of_lt {a : ℕ} (ha : a < 2 ^ 31) : intOfSize a = a := by
  have hlt : (a : ℤ) < 2 ^ 31 := by omega
  exact Int.bmod_eq_of_le (by omega) (by omega)

theorem enlarge_exact {a r : ℕ} (ha : a < 2 ^ 31) (har : a * r < 2 ^ 31) :
    enlarge a r = (a * r : ℕ) := by
  have hlt : a * r < sizeRange := by
    rw [sizeRange]
    omega
  rw [enlarge, sizeOfInt_natCast ha, Nat.mod_eq_of_lt hlt, intOfSize_of_lt har]

theorem shrink_exact {a r : ℕ} (hr : 0 < r) (har : a * r < 2 ^ 31) :
    shrink (a * r : ℕ) r = a := by
  have ha : a < 2 ^ 31 := Nat.lt_of_le_of_lt (Nat.le_mul_of_pos_right a hr) har
  rw [shrink, sizeOfInt_natCast har, Nat.mul_div_cancel a hr, intOfSize_of_lt ha]

theorem ObjectPoolConfig.layerSize_succ (cfg : ObjectPoolConfig) (k : ℕ) :
    cfg.layerSize (k + 1) = cfg.layerSize k * cfg.enlargeRate := by
  rw [layerSize, layerSize, Nat.pow_succ, Nat.mul_assoc]

theorem ObjectPoolConfig.layerSize_mono (hrate : 0 < cfg.enlargeRate) {k k' : ℕ} (hk : k ≤ k') :
    cfg.layerSize k ≤ cfg.layerSize k' :=
  Nat.mul_le_mul_left _ (Nat.pow_le_pow_right hrate hk)

theorem shrink_iterate (hrate : 0 < cfg.enlargeRate) (c d : ℕ)
    (hfits : cfg.layerSize (c + d) < 2 ^ 31) :
    (fun size ↦ shrink size cfg.enlargeRate)^[d] (cfg.layerSize (c + d)) = cfg.layerSize c := by
  induction d with
  | zero => rfl
  | succ d ih =>
    have hsucc : cfg.layerSize (c + (d + 1)) = cfg.layerSize (c + d) * cfg.enlargeRate :=
      cfg.layerSize_succ (c + d)
    rw [hsucc] at hfits
    rw [Function.iterate_succ_apply, hsucc, shrink_exact hrate hfits]
    exact ih (Nat.lt_of_le_of_lt (Nat.le_mul_of_pos_right _ hrate) hfits)

/-! ## Layers that are there -/

theorem le_currentLayer (habsent : ∀ k, p.currentLayer < k → p.layers k = none)
    (hly : p.layers k = some ly) : k ≤ p.currentLayer := by
  by_contra hlt
  rw [habsent k (Nat.lt_of_not_le hlt)] at hly
  cases hly

theorem StackShape.le_of_layer (h : StackShape cfg i p) (hly : p.layers k = some ly) :
    k ≤ p.currentLayer := le_currentLayer h.absent hly

theorem Stack.le_of_layer (h : Stack cfg i p) (hly : p.layers k = some ly) :
    k ≤ p.currentLayer := le_currentLayer h.absent hly

theorem Stack.cap_lt (h : Stack cfg i p) (hrate : 0 < cfg.enlargeRate)
    (hly : p.layers k = some ly) : ly.arenaCap < 2 ^ 31 := by
  rw [h.cap k ly hly]
  exact Nat.lt_of_le_of_lt (cfg.layerSize_mono hrate (h.le_of_layer hly)) h.fits

theorem Stack.shape (h : Stack cfg i p) (hrate : 0 < cfg.enlargeRate) : StackShape cfg i p :=
  ⟨h.id, h.config, h.present, h.absent, h.bound, fun _ _ hly ↦
    Nat.lt_trans (h.cap_lt hrate hly) (by rw [sizeRange]; omega)⟩

theorem StackShape.stack (h : StackShape cfg i p)
    (hcap : ∀ k ly, p.layers k = some ly → ly.arenaCap = cfg.layerSize k)
    (hsize : p.currentSize = cfg.layerSize p.currentLayer)
    (hfits : cfg.layerSize p.currentLayer < 2 ^ 31) : Stack cfg i p :=
  ⟨h.id, h.config, h.present, h.absent, h.bound, hcap, hsize, hfits⟩

theorem StackShape.setLayer (h : StackShape cfg i p) (hly : p.layers k = some ly)
    {ly' : ObjectLayer}
    (hext : ly'.extent = ly.extent) : StackShape cfg i (p.setLayer k (some ly')) := by
  refine ⟨h.id, h.config, fun k' hk' ↦ ?_, fun k' hk' ↦ ?_, h.bound, fun k' ly₁ hly₁ ↦ ?_⟩
  · by_cases hk : k' = k
    · rw [hk, setLayer_layers_self]
      exact ⟨ly', rfl⟩
    · rw [setLayer_layers_of_ne _ hk]
      exact h.present k' hk'
  · have hk : k' ≠ k := by
      rintro rfl
      exact absurd (h.le_of_layer hly) (Nat.not_le.mpr hk')
    rw [setLayer_layers_of_ne _ hk]
    exact h.absent k' hk'
  · by_cases hk : k' = k
    · rw [hk, setLayer_layers_self, Option.some.injEq] at hly₁
      have hcap : ly'.arenaCap = ly.arenaCap := (Prod.mk.injEq .. ▸ hext).2
      rw [← hly₁, hcap]
      exact h.cap k ly hly
    · rw [setLayer_layers_of_ne _ hk] at hly₁
      exact h.cap k' ly₁ hly₁

theorem StackShape.grow (h : StackShape cfg i p) (hid : p'.id = p.id)
    (hconfig : p'.config = p.config) (hcl : p'.currentLayer = p.currentLayer + 1)
    (hlayers : p'.layers = Function.update p.layers (p.currentLayer + 1) (some ly))
    (hbound : p.currentLayer + 1 < ObjectPool.NLayers) (hcap : ly.arenaCap < sizeRange) :
    StackShape cfg i p' := by
  refine ⟨hid.trans h.id, hconfig.trans h.config, fun k hk ↦ ?_, fun k hk ↦ ?_, by rwa [hcl],
    fun k ly' hly' ↦ ?_⟩
  · rw [hcl] at hk
    rw [hlayers]
    by_cases hkc : k = p.currentLayer + 1
    · rw [hkc, Function.update_self]
      exact ⟨ly, rfl⟩
    · rw [Function.update_of_ne hkc]
      exact h.present k (by omega)
  · rw [hcl] at hk
    rw [hlayers, Function.update_of_ne (Nat.ne_of_gt hk)]
    exact h.absent k (by omega)
  · rw [hlayers] at hly'
    by_cases hkc : k = p.currentLayer + 1
    · rw [hkc, Function.update_self, Option.some.injEq] at hly'
      rwa [← hly']
    · rw [Function.update_of_ne hkc] at hly'
      exact h.cap k ly' hly'

theorem Stack.setLayer (h : Stack cfg i p) (hrate : 0 < cfg.enlargeRate)
    (hly : p.layers k = some ly) {ly' : ObjectLayer} (hext : ly'.extent = ly.extent) :
    Stack cfg i (p.setLayer k (some ly')) := by
  refine ((h.shape hrate).setLayer hly hext).stack (fun k' ly₁ hly₁ ↦ ?_) h.size h.fits
  by_cases hk : k' = k
  · rw [hk, setLayer_layers_self, Option.some.injEq] at hly₁
    rw [← hly₁, hk, ← h.cap k ly hly]
    exact (Prod.mk.injEq .. ▸ hext).2
  · rw [setLayer_layers_of_ne _ hk] at hly₁
    exact h.cap k' ly₁ hly₁

/-! ## Layers that are taken away -/

theorem Trimmed.refl (h : StackShape cfg i p) : Trimmed p p :=
  ⟨Nat.le_refl _, fun _ _ ↦ rfl, fun _ _ hk hly ↦ absurd (h.le_of_layer hly) (Nat.not_le.mpr hk),
    rfl, rfl⟩

theorem Trimmed.trans {p'' : ObjectPool} (h : Trimmed p p') (h' : Trimmed p' p'') :
    Trimmed p p'' := by
  refine ⟨Nat.le_trans h'.le h.le, fun k hk ↦ ?_, fun k ly hk hly ↦ ?_, h'.caches.trans h.caches,
    h'.totalCached.trans h.totalCached⟩
  · rw [h'.layers k hk, h.layers k (Nat.le_trans hk h'.le)]
  · by_cases hle : k ≤ p'.currentLayer
    · exact h'.unused k ly hk (by rw [h.layers k hle, hly])
    · exact h.unused k ly (Nat.lt_of_not_le hle) hly

theorem SameArenas.shrunk (h : SameArenas pools pools') (place : Ptr → EntryPlace) :
    Shrunk L pools pools' place := by
  refine ⟨fun i k ly' hly' ↦ ?_, fun i k ptr hentry _ ↦ h.entryOf.mpr hentry⟩
  obtain ⟨ly, hly, harena, hcap⟩ := h.layer hly'
  exact ⟨ly, hly, by rw [ObjectLayer.extent, harena, hcap, ObjectLayer.extent]⟩

theorem Shrunk.trans {pools'' : ℕ → ObjectPool} (h : Shrunk L pools pools' place)
    (h' : Shrunk L pools' pools'' place) : Shrunk L pools pools'' place := by
  refine ⟨fun i k ly'' hly'' ↦ ?_, fun i k ptr hentry hplace ↦
    h'.kept i k ptr (h.kept i k ptr hentry hplace) hplace⟩
  obtain ⟨ly', hly', hext'⟩ := h'.old i k ly'' hly''
  obtain ⟨ly, hly, hext⟩ := h.old i k ly' hly'
  exact ⟨ly, hly, hext'.trans hext⟩

theorem Shrunk.entryOf (h : Shrunk L pools pools' place) {ptr : Ptr}
    (hentry : EntryOf L pools' i k ptr) : EntryOf L pools i k ptr := by
  obtain ⟨ly', hly', hhas⟩ := hentry
  obtain ⟨ly, hly, hext⟩ := h.old i k ly' hly'
  rw [ObjectLayer.extent, ObjectLayer.extent, Prod.mk.injEq] at hext
  exact ⟨ly, hly, hhas.congr hext.1.symm hext.2.symm⟩

theorem Core.shrunk (h : Core L n m pools place) (hcut : Trimmed (pools i) p')
    (hshape : StackShape cfg i p') :
    Shrunk L pools (Function.update pools i p') place := by
  refine ⟨fun i' k' ly' hly' ↦ ?_, fun i' k' ptr hentry hplace ↦ ?_⟩
  · by_cases hi' : i' = i
    · subst hi'
      rw [Function.update_self] at hly'
      exact ⟨ly', by rw [← hcut.layers k' (hshape.le_of_layer hly'), hly'], rfl⟩
    · rw [Function.update_of_ne hi'] at hly'
      exact ⟨ly', hly', rfl⟩
  · by_cases hi' : i' = i
    · subst hi'
      obtain ⟨ly, hly, hhas⟩ := hentry
      by_cases hk : k' ≤ p'.currentLayer
      · exact ⟨ly, by rw [Function.update_self, hcut.layers k' hk, hly], hhas⟩
      · obtain ⟨xs, hxs⟩ := h.free i' k' ly hly
        exact absurd (hxs.all_free (hcut.unused k' ly (Nat.lt_of_not_le hk) hly) hhas) hplace
    · obtain ⟨ly, hly, hhas⟩ := hentry
      exact ⟨ly, by rwa [Function.update_of_ne hi'], hhas⟩

theorem dropLayer_spec (h : Core L n m pools place) (hshape : StackShape cfg i (pools i)) {c : ℕ}
    (hc : (pools i).currentLayer = c + 1) (hly : (pools i).layers (c + 1) = some ly)
    (hused : ly.used = 0) :
    ∃ m' p', (pools i).dropLayer m (c + 1) = (m', p') ∧
      Core L n m' (Function.update pools i p') place ∧ StackShape cfg i p' ∧ Trimmed (pools i) p' ∧
      p'.currentLayer = c ∧ p'.currentSize = shrink (pools i).currentSize cfg.enlargeRate ∧
      ∀ i' k' x, EntryOf L (Function.update pools i p') i' k' x → m' x = m x := by
  obtain ⟨m', p', hdrop, hm', hid, hcfg, hlayers, hcl, hsize, hcaches, htotal⟩ :
      ∃ m' p', (pools i).dropLayer m (c + 1) = (m', p') ∧ m' = m.deleteArena ly.arena ∧
        p'.id = (pools i).id ∧ p'.config = (pools i).config ∧
        p'.layers = ((pools i).setLayer (c + 1) none).layers ∧ p'.currentLayer = c ∧
        p'.currentSize = shrink (pools i).currentSize (pools i).config.enlargeRate ∧
        p'.caches = (pools i).caches ∧ p'.totalCached = (pools i).totalCached :=
    ⟨_, _, rfl, by rw [hly]; rfl, rfl, rfl, rfl, rfl, by simp only, rfl, rfl⟩
  have hold : ∀ k, k ≠ c + 1 → p'.layers k = (pools i).layers k := fun k hk ↦ by
    rw [hlayers, setLayer_layers_of_ne _ hk]
  have hgone : p'.layers (c + 1) = none := by rw [hlayers, setLayer_layers_self]
  have hbound := hshape.bound
  rw [hc] at hbound
  rw [hshape.config] at hsize
  refine ⟨m', p', hdrop, ?_, ⟨hid.trans hshape.id, hcfg.trans hshape.config, fun k hk ↦ ?_,
    fun k hk ↦ ?_, ?_, fun k ly' hly' ↦ ?_⟩,
    ⟨?_, fun k hk ↦ hold k ?_, fun k ly' hk hly' ↦ ?_, hcaches, htotal⟩, hcl, hsize,
    fun i' k' x hentry ↦ ?_⟩
  · rw [hm']
    exact (h.drop hly hused).congr_update hlayers hcaches
  · rw [hcl] at hk
    rw [hold k (by omega)]
    exact hshape.present k (by omega)
  · rw [hcl] at hk
    by_cases hkc : k = c + 1
    · rw [hkc, hgone]
    · rw [hold k hkc]
      exact hshape.absent k (by omega)
  · rw [hcl]
    omega
  · by_cases hkc : k = c + 1
    · rw [hkc, hgone] at hly'
      cases hly'
    · rw [hold k hkc] at hly'
      exact hshape.cap k ly' hly'
  · rw [hcl, hc]
    exact Nat.le_succ c
  · rw [hcl] at hk
    omega
  · rw [hcl] at hk
    have hle := hshape.le_of_layer hly'
    obtain rfl : k = c + 1 := by omega
    rw [hly, Option.some.injEq] at hly'
    rw [← hly', hused]
  · -- An entry that is left lies in another arena.
    obtain ⟨ly', hly', hhas⟩ := hentry
    rw [hm', Mem.deleteArena, if_neg]
    rw [hhas.arena]
    intro harena
    by_cases hi' : i' = i
    · rw [hi', Function.update_self] at hly'
      have hk' : k' ≠ c + 1 := by
        rintro rfl
        rw [hgone] at hly'
        cases hly'
      rw [hold k' hk'] at hly'
      exact hk' (h.apart _ _ _ _ _ _ hly' hly harena).2
    · rw [Function.update_of_ne hi'] at hly'
      exact hi' (h.apart _ _ _ _ _ _ hly' hly harena).1

/-- The loop of `remove_layer_if_not_in_use` ends at a layer in use, or at the lowest one. -/
theorem trim_spec (h : Core L n m pools place) (hshape : StackShape cfg i (pools i)) :
    ∃ m' p', ObjectPool.trim (pools i).currentLayer m (pools i) = some (m', p') ∧
      Core L n m' (Function.update pools i p') place ∧ StackShape cfg i p' ∧ p'.TopUsed ∧
      Trimmed (pools i) p' ∧
      p'.currentSize =
        (fun size ↦ shrink size cfg.enlargeRate)^[(pools i).currentLayer - p'.currentLayer]
          (pools i).currentSize ∧
      ∀ i' k' x, EntryOf L (Function.update pools i p') i' k' x → m' x = m x := by
  generalize hc : (pools i).currentLayer = c
  induction c generalizing m pools with
  | zero =>
    refine ⟨m, pools i, rfl, by rwa [Function.update_eq_self], hshape, Or.inl hc, .refl hshape, ?_,
      fun _ _ _ _ ↦ rfl⟩
    rw [hc]
    rfl
  | succ c ih =>
    obtain ⟨ly, hly⟩ := hshape.present (c + 1) (Nat.le_of_eq hc.symm)
    by_cases hused : ly.used = 0
    · obtain ⟨m₁, p₁, hdrop, hcore₁, hshape₁, hcut₁, hc₁, hsize₁, hframe₁⟩ :=
        dropLayer_spec h hshape hc hly hused
      have hself : Function.update pools i p₁ i = p₁ := Function.update_self ..
      obtain ⟨m', p', hrun, hcore, hshape', htop, hcut, hsize, hframe⟩ :=
        ih hcore₁ (by rwa [hself]) (by rw [hself, hc₁])
      have hshrunk := hcore₁.shrunk hcut hshape'
      rw [hself] at hrun hcut hsize
      rw [Function.update_idem] at hcore hframe hshrunk
      refine ⟨m', p', ?_, hcore, hshape', htop, hcut₁.trans hcut, ?_, fun i' k' x hentry ↦ ?_⟩
      · have hnot : ¬ly.isInUse = true := by simp [ObjectLayer.isInUse, hused]
        rw [ObjectPool.trim, hly]
        simp only [Option.bind_eq_bind, Option.bind_some, if_neg hnot, hdrop, hrun]
      · have hle := hcut.le
        rw [hc₁] at hle
        rw [hsize, hsize₁, Nat.succ_sub hle, Function.iterate_succ_apply]
      · rw [hframe i' k' x hentry, hframe₁ i' k' x (hshrunk.entryOf hentry)]
    · have hinUse : ly.isInUse = true := by simp [ObjectLayer.isInUse, hused]
      refine ⟨m, pools i, ?_, by rwa [Function.update_eq_self], hshape,
        Or.inr ⟨ly, by rw [hc, hly], Nat.pos_of_ne_zero hused⟩, .refl hshape, ?_,
        fun _ _ _ _ ↦ rfl⟩
      · rw [ObjectPool.trim, hly]
        simp only [Option.bind_eq_bind, Option.bind_some, if_pos hinUse, Option.pure_def]
      · rw [hc, Nat.sub_self]
        rfl

/-- **Shrinking.** The pool was in order but for layer `k`, where entries have been released. -/
theorem removeLayer_spec (h : Core L n m pools place) (hshape : StackShape cfg i (pools i))
    (hly : (pools i).layers k = some ly) :
    ∃ m' p', (pools i).removeLayerIfNotInUse m k ly.stateAfter = some (m', p') ∧
      Core L n m' (Function.update pools i p') place ∧ StackShape cfg i p' ∧
      Dropped k (pools i) p' ∧
      ∀ i' k' x, EntryOf L (Function.update pools i p') i' k' x → m' x = m x := by
  by_cases hcond : ly.stateAfter = .notInUseAfter ∧ 0 < k ∧ k = (pools i).currentLayer
  · rw [ObjectPool.removeLayerIfNotInUse, if_pos hcond]
    obtain ⟨hstate, hpos, hk⟩ := hcond
    have hused : ly.used = 0 := by
      by_contra hused
      rw [ObjectLayer.stateAfter, if_neg hused] at hstate
      cases hstate
    obtain ⟨c, rfl⟩ : ∃ c, k = c + 1 := ⟨k - 1, by omega⟩
    obtain ⟨m₁, p₁, hdrop, hcore₁, hshape₁, hcut₁, hc₁, hsize₁, hframe₁⟩ :=
      dropLayer_spec h hshape hk.symm hly hused
    have hself : Function.update pools i p₁ i = p₁ := Function.update_self ..
    obtain ⟨m', p', hrun, hcore, hshape', htop', hcut, hsize, hframe⟩ :=
      trim_spec hcore₁ (by rwa [hself])
    have hshrunk := hcore₁.shrunk hcut hshape'
    rw [hself] at hrun hcut hsize
    rw [Function.update_idem] at hcore hframe hshrunk
    refine ⟨m', p', ?_, hcore, hshape', ⟨hcut₁.trans hcut, by rw [hshape'.id, hshape.id],
      by rw [hshape'.config, hshape.config], hshape'.absent, ?_, fun _ ↦ htop'⟩,
      fun i' k' x hentry ↦ ?_⟩
    · rw [hdrop]
      exact hrun
    · have hle := hcut.le
      rw [hc₁] at hle
      rw [hsize, hsize₁, hc₁, ← hk, hshape.config, Nat.succ_sub hle, Function.iterate_succ_apply]
    · rw [hframe i' k' x hentry, hframe₁ i' k' x (hshrunk.entryOf hentry)]
  · rw [ObjectPool.removeLayerIfNotInUse, if_neg hcond]
    refine ⟨m, pools i, rfl, by rwa [Function.update_eq_self], hshape,
      ⟨.refl hshape, rfl, rfl, hshape.absent, ?_, fun htop ↦ ?_⟩, fun _ _ _ _ ↦ rfl⟩
    · rw [Nat.sub_self]
      rfl
    · by_cases hk : k = (pools i).currentLayer
      · by_cases hpos : 0 < k
        · refine Or.inr ⟨ly, by rw [← hk, hly], Nat.pos_of_ne_zero fun hused ↦ hcond ⟨?_, hpos, hk⟩⟩
          rw [ObjectLayer.stateAfter, if_pos hused]
        · exact Or.inl (by omega)
      · exact htop hk

theorem Stack.dropped (h : Stack cfg i p) (hrate : 0 < cfg.enlargeRate)
    (hshape : StackShape cfg i p') (hdrop : Dropped k p p') : Stack cfg i p' := by
  have hle := hdrop.le
  have hfits := h.fits
  obtain ⟨d, hd⟩ : ∃ d, p.currentLayer = p'.currentLayer + d := ⟨_, (Nat.add_sub_cancel' hle).symm⟩
  refine hshape.stack (fun k' ly hly ↦ ?_) ?_ ?_
  · rw [hdrop.layers k' (hshape.le_of_layer hly)] at hly
    exact h.cap k' ly hly
  · rw [hd] at hfits
    rw [hdrop.size, h.config, h.size, hd, Nat.add_sub_cancel_left, shrink_iterate hrate _ d hfits]
  · exact Nat.lt_of_le_of_lt (cfg.layerSize_mono hrate hle) hfits

/-! ## What a step does to the layers of a pool -/

/-- An entry is handed out, a layer is added, entries are given back, or the layers stay as they
are. -/
inductive LayersMove (p p' : ObjectPool) : Prop
  | rest (layers : p'.layers = p.layers) (currentLayer : p'.currentLayer = p.currentLayer)
      (currentSize : p'.currentSize = p.currentSize)
  | taken {k : ℕ} {ly ly' : ObjectLayer} (layer : p.layers k = some ly)
      (extent : ly'.extent = ly.extent) (used : 0 < ly'.used) (pool : p' = p.setLayer k (some ly'))
  | grown {ly : ObjectLayer} (currentLayer : p'.currentLayer = p.currentLayer + 1)
      (layers : p'.layers = Function.update p.layers (p.currentLayer + 1) (some ly))
      (currentSize : p'.currentSize = enlarge p.currentSize p.config.enlargeRate)
      (cap : ly.arenaCap = sizeOfInt p'.currentSize) (used : 0 < ly.used)
  | released {k : ℕ} {ly ly' : ObjectLayer} (layer : p.layers k = some ly)
      (extent : ly'.extent = ly.extent) (dropped : Dropped k (p.setLayer k (some ly')) p')

theorem ObjectPool.TopUsed.setLayer (h : p.TopUsed) (hk : k ≠ p.currentLayer)
    (l : Option ObjectLayer) : (p.setLayer k l).TopUsed := by
  rcases h with hzero | ⟨ly, hly, hused⟩
  · exact Or.inl hzero
  · exact Or.inr ⟨ly, (setLayer_layers_of_ne p hk.symm l).trans hly, hused⟩

theorem LayersMove.topUsed (h : LayersMove p p') (htop : p.TopUsed) : p'.TopUsed := by
  cases h with
  | rest hlayers hcl => rwa [ObjectPool.TopUsed, hlayers, hcl]
  | @taken k ly ly' hly hext hused hp =>
    rw [hp]
    by_cases hk : k = p.currentLayer
    · refine Or.inr ⟨ly', ?_, hused⟩
      rw [hk]
      exact setLayer_layers_self ..
    · exact htop.setLayer hk _
  | @grown ly hcl hlayers hsize hcap hused =>
    exact Or.inr ⟨ly, by rw [hlayers, hcl, Function.update_self], hused⟩
  | released hly hext hdrop => exact hdrop.top fun hk ↦ htop.setLayer hk _

theorem LayersMove.extent_eq (h : LayersMove p p') (habsent : p.layers (p.currentLayer + 1) = none)
    {ly' : ObjectLayer} (hly : p.layers k = some ly) (hly' : p'.layers k = some ly') :
    ly'.extent = ly.extent := by
  have hsame : ∀ {ly₀ : ObjectLayer}, p.layers k = some ly₀ → ly₀.extent = ly.extent := by
    intro ly₀ hly₀
    rw [hly, Option.some.injEq] at hly₀
    rw [hly₀]
  have hset : ∀ {k₀ : ℕ} {ly₀ ly₁ : ObjectLayer}, p.layers k₀ = some ly₀ → ly₁.extent = ly₀.extent →
      (p.setLayer k₀ (some ly₁)).layers k = some ly' → ly'.extent = ly.extent := by
    intro k₀ ly₀ ly₁ hly₀ hext hget
    by_cases hk : k = k₀
    · subst hk
      rw [setLayer_layers_self, Option.some.injEq] at hget
      rw [← hget, hext]
      exact hsame hly₀
    · rw [setLayer_layers_of_ne p hk] at hget
      exact hsame hget
  cases h with
  | rest hlayers =>
    rw [hlayers] at hly'
    exact hsame hly'
  | taken hly₀ hext hused hp =>
    rw [hp] at hly'
    exact hset hly₀ hext hly'
  | grown hcl hlayers =>
    have hk : k ≠ p.currentLayer + 1 := by
      rintro rfl
      rw [habsent] at hly
      cases hly
    rw [hlayers, Function.update_of_ne hk] at hly'
    exact hsame hly'
  | released hly₀ hext hdrop =>
    have hk : k ≤ p'.currentLayer := by
      by_contra hlt
      rw [hdrop.absent k (Nat.lt_of_not_le hlt)] at hly'
      cases hly'
    rw [hdrop.layers k hk] at hly'
    exact hset hly₀ hext hly'

theorem Stack.enlarge (h : Stack cfg i p) (hfits : cfg.layerSize (p.currentLayer + 1) < 2 ^ 31) :
    enlarge p.currentSize p.config.enlargeRate = cfg.layerSize (p.currentLayer + 1) := by
  rw [cfg.layerSize_succ] at hfits
  rw [h.size, h.config, enlarge_exact h.fits hfits, cfg.layerSize_succ]

theorem Stack.move (h : Stack cfg i p) (hrate : 0 < cfg.enlargeRate) (hshape : StackShape cfg i p')
    (hmove : LayersMove p p') (hfits : cfg.layerSize p'.currentLayer < 2 ^ 31) :
    Stack cfg i p' := by
  cases hmove with
  | rest hlayers hcl hsize =>
    refine hshape.stack (fun k ly hly ↦ ?_) (by rw [hsize, hcl, h.size]) hfits
    rw [hlayers] at hly
    exact h.cap k ly hly
  | taken hly hext hused hp =>
    rw [hp]
    exact h.setLayer hrate hly hext
  | @grown ly hcl hlayers hsize hcap hused =>
    have hexact : p'.currentSize = cfg.layerSize p'.currentLayer := by
      rw [hcl] at hfits ⊢
      rw [hsize, h.enlarge hfits]
    refine hshape.stack (fun k ly₁ hly₁ ↦ ?_) hexact hfits
    rw [hlayers] at hly₁
    by_cases hk : k = p.currentLayer + 1
    · rw [hk, Function.update_self, Option.some.injEq] at hly₁
      rw [← hly₁, hcap, hexact, sizeOfInt_natCast hfits, hcl, hk]
    · rw [Function.update_of_ne hk] at hly₁
      exact h.cap k ly₁ hly₁
  | released hly hext hdrop => exact (h.setLayer hrate hly hext).dropped hrate hshape hdrop

end TYThread
