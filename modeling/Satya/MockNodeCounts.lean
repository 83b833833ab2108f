import Satya.MockNodeTruth
/-!
# MockNodeCounts — what churn and mining change

An eviction takes exactly one transaction and an arrival adds exactly one, so a tick's size is that of its counts
(`EvictsOne`).  A block takes a set that is closed under ancestors and fits, and moves the tip; what is left keeps its own
fee and size (`Mines`).
-/
namespace Satya
namespace Sim

open Relation (TransGen)

namespace MockNode

/-- From every key the descent ends at a leaf, and removing that leaf takes it and nothing else. -/
def EvictsOne (node : MockNode) : Prop :=
  ∀ start ∈ node.txs, ∃ leaf evicted, descend node.children node.fuel start = some leaf ∧ leaf ∈ node.txs ∧
    leaf ∉ node.children ∧ node.removeLeaf leaf = some evicted ∧ evicted.txs.keys = node.txs.keys.erase leaf ∧
    evicted.txs.keys.card + 1 = node.txs.keys.card

def weightOf (node : MockNode) (t : Txid) : ℕ :=
  ((node.txs.lookup t).map (fun e => e.weight.getD (e.vsize * 4))).getD 0

/-- What is in `node` and no longer in `mined`. -/
def confirmed (node mined : MockNode) : Finset Txid := node.txs.keys \ mined.txs.keys

/-- `mined` is `node` after a block. -/
structure Mines (node mined : MockNode) : Prop where
  subset : mined.txs.keys ⊆ node.txs.keys
  closed : ∀ t ∈ node.confirmed mined, ∀ a, TransGen node.DependsOn t a → a ∈ node.confirmed mined
  weight_le : ∑ t ∈ node.confirmed mined, node.weightOf t ≤ blockWeight
  kept : ∀ t e', mined.txs.lookup t = some e' → ∃ e, node.txs.lookup t = some e ∧ e'.fees.base = e.fees.base ∧
    e'.vsize = e.vsize ∧ e'.weight = e.weight
  tip : mined.tipHeight = node.tipHeight + 1

end MockNode

variable {node : MockNode} {C : Forest} {pre post : List Tx} {x : Tx}

/-! ## Evictions -/

theorem Describes.evictsOne (h : Describes node C) : node.EvictsOne := by
  intro start hstart
  obtain ⟨leaf, mid, -, hleaf, hmem, hno, hstep, -, -, hkeys⟩ := h.evictOne hstart
  refine ⟨leaf, mid, hleaf, hmem, hno, hstep, hkeys, ?_⟩
  rw [hkeys]
  exact Finset.card_erase_add_one (Finmap.mem_keys.2 hmem)

/-! ## Weight -/

theorem packageWeight_eq : ∀ {pkg : List Txid} {weight : ℕ}, node.packageWeight pkg = some weight →
    weight = (pkg.map node.weightOf).sum
  | [], _, h => (Option.some.inj h).symm
  | t :: pkg, weight, h => by
    obtain ⟨e, he, h⟩ := Option.bind_eq_some_iff.1 h
    obtain ⟨rest, hrest, h⟩ := Option.bind_eq_some_iff.1 h
    rw [← Option.some.inj h, packageWeight_eq hrest, List.map_cons, List.sum_cons, MockNode.weightOf, he]
    rfl

/-- What a pass over the ranked transactions has confirmed so far, and the weight it has used for it. -/
structure Filled (node : MockNode) (used : ℕ) (confirmed : Finset Txid) : Prop where
  used_eq : used = ∑ t ∈ confirmed, node.weightOf t
  used_le : used ≤ MockNode.blockWeight
  present : ∀ t ∈ confirmed, t ∈ node.txs

/-- **A package that fits is added whole**: it shares nothing with what was confirmed before it. -/
theorem Filled.add {used weight : ℕ} {confirmed : Finset Txid} (hf : Filled node used confirmed) {pkg : List Txid}
    (hnd : pkg.Nodup) (hnew : ∀ t ∈ pkg, t ∉ confirmed) (hmem : ∀ t ∈ pkg, t ∈ node.txs)
    (hweight : node.packageWeight pkg = some weight) (hle : used + weight ≤ MockNode.blockWeight) :
    Filled node (used + weight) (confirmed ∪ pkg.toFinset) where
  used_eq := by
    have hdisj : Disjoint confirmed pkg.toFinset :=
      Finset.disjoint_right.2 (fun t ht => hnew t (List.mem_toFinset.1 ht))
    rw [Finset.sum_union hdisj, List.sum_toFinset _ hnd, ← packageWeight_eq hweight, ← hf.used_eq]
  used_le := hle
  present t ht := by
    rcases Finset.mem_union.1 ht with ht | ht
    · exact hf.present t ht
    · exact hmem t (List.mem_toFinset.1 ht)

theorem Describes.filled (h : Describes node C) : ∀ {ranked : List (ℕ × Txid)} {used : ℕ} {confirmed set : Finset Txid},
    (∀ r ∈ ranked, r.2 ∈ node.txs) → Filled node used confirmed → node.fillBlock ranked used confirmed = some set →
      ∃ total, Filled node total set
  | [], used, confirmed, set, _, hf, hfill => ⟨used, Option.some.inj hfill ▸ hf⟩
  | (rate, t) :: ranked, used, confirmed, set, hranked, hf, hfill => by
    have hrest : ∀ r ∈ ranked, r.2 ∈ node.txs := fun r hr => hranked r (List.mem_cons_of_mem _ hr)
    unfold MockNode.fillBlock at hfill
    by_cases hc : t ∈ confirmed
    · rw [if_pos hc] at hfill
      exact h.filled hrest hf hfill
    · rw [if_neg hc] at hfill
      obtain ⟨pre, x, post, hat, rfl⟩ := h.holds_iff.2 (hranked (rate, t) List.mem_cons_self)
      obtain ⟨hnd, hpkg⟩ := h.package hat hc
      simp only [Option.bind_eq_bind, h.ancestorsOf hat, Option.bind_some] at hfill
      obtain ⟨weight, hweight, hfill⟩ := Option.bind_eq_some_iff.1 hfill
      by_cases hover : MockNode.blockWeight < used + weight
      · rw [if_pos hover] at hfill
        exact h.filled hrest hf hfill
      · rw [if_neg hover] at hfill
        have hadd := hf.add hnd (fun k hk => (hpkg k hk).2) (fun k hk => (hpkg k hk).1) hweight (not_lt.1 hover)
        exact h.filled hrest hadd hfill

/-! ## Blocks -/

theorem Describes.mem_cut (h : Describes node C) {set : Finset Txid} (hset : C.Closed (confirmedIn set)) {t : Txid} :
    (C.cut (confirmedIn set)).Holds t ↔ t ∈ node.txs ∧ t ∉ set := by
  rw [Chains.holds_cut hset, ← h.holds_iff]
  constructor
  · rintro ⟨pre, x, post, hat, hgone, rfl⟩
    exact ⟨hat.holds, by simpa [confirmedIn] using hgone⟩
  · rintro ⟨⟨pre, x, post, hat, rfl⟩, hgone⟩
    exact ⟨pre, x, post, hat, by simpa [confirmedIn] using hgone, rfl⟩

/-- **A mined block is what `fillBlock` has chosen.** -/
theorem Describes.confirmed_eq (h : Describes node C) {mined : MockNode} {set : Finset Txid}
    (hset : C.Closed (confirmedIn set)) (hpresent : ∀ t ∈ set, t ∈ node.txs)
    (h' : Describes mined (C.cut (confirmedIn set))) : node.confirmed mined = set := by
  ext t
  rw [MockNode.confirmed, Finset.mem_sdiff, Finmap.mem_keys, Finmap.mem_keys, ← h'.holds_iff, h.mem_cut hset]
  constructor
  · rintro ⟨ht, hno⟩
    by_contra hgone
    exact hno ⟨ht, hgone⟩
  · exact fun ht => ⟨hpresent t ht, fun hno => hno.2 ht⟩

theorem Describes.mines (h : Describes node C) (order setOrder : SetOrder Txid) :
    ∃ mined, node.mineBlock order setOrder = some mined ∧ node.Mines mined := by
  obtain ⟨mined, set, hfill, hset, hrun, h', -, htip⟩ := h.mineBlock order setOrder
  have hstart : Filled node 0 ∅ := ⟨rfl, Nat.zero_le _, fun t ht => absurd ht (Finset.notMem_empty t)⟩
  obtain ⟨total, hf⟩ := h.filled (fun r hr => mem_of_mem_rankedTxs hr) hstart hfill
  have hconfirmed : node.confirmed mined = set := h.confirmed_eq hset hf.present h'
  refine ⟨mined, hrun, ?_, ?_, ?_, ?_, htip⟩
  · intro t ht
    exact Finmap.mem_keys.2 ((h.mem_cut hset).1 (h'.holds_iff.2 (Finmap.mem_keys.1 ht))).1
  · rw [hconfirmed, h.dependsOn_eq]
    intro t ht a ha
    obtain ⟨pre, x, post, hat, rfl⟩ := h.holds_iff.2 (hf.present t ht)
    obtain ⟨y, hy, rfl⟩ := List.mem_map.1 (hat.ancestors_iff.1 ha)
    have hgone : confirmedIn set y = true := hset hat (by simpa [confirmedIn] using ht) y hy
    simpa [confirmedIn] using hgone
  · rw [hconfirmed, ← hf.used_eq]
    exact hf.used_le
  · intro t e' he'
    obtain ⟨pre, x, post, hat', rfl, rfl⟩ := h'.spot he'
    obtain ⟨top, hat, -⟩ := (Chains.at_cut hset).1 hat'
    exact ⟨_, h.entry hat, rfl, rfl, rfl⟩

/-- **Churn and mining change the mempool by exactly what they say**, in every reachable state and whatever is drawn and
in whatever order the maps are iterated, as long as the generated txids are fresh. -/
theorem churn_and_mining (cfg : ChurnConfig) (draw : ℕ → ArrivalDraw) (initialSize : ℕ) (calls : List MockNode.Call)
    (hfresh : MockNode.runFresh cfg draw initialSize calls = true) :
    ∃ node, MockNode.run cfg draw initialSize calls = some node ∧
      (∀ b order k, ∃ evicted, MockNode.evictLeaves order k { node with reloading := b } = some evicted ∧
        evicted.EvictsOne ∧ evicted.txs.keys.card = node.txs.keys.card - k) ∧
      (∀ order draw, node.callFresh (.advance order draw) = true → ∃ next, node.advance order draw = some next ∧
        next.txs.keys.card = (node.txs.keys.card - cfg.evictionsPerTick) + cfg.arrivalsPerTick) ∧
      ∀ order setOrder, ∃ mined, node.mineBlock order setOrder = some mined ∧ node.Mines mined := by
  obtain ⟨node, C, hrun, h, rfl⟩ := run_describes hfresh
  refine ⟨node, hrun, fun b order k => ?_, fun order draw hcall => ?_, fun order setOrder => h.mines order setOrder⟩
  · obtain ⟨evicted, C', hevict, h', -, hcard⟩ := (h.setReloading b).evictLeaves order k
    exact ⟨evicted, hevict, h'.evictsOne, hcard⟩
  · obtain ⟨next, -, hnext, -, -, hcard⟩ := h.advance hcall
    exact ⟨next, hnext, hcard⟩

theorem churn_and_mining_batch : ∃ node, MockNode.run chainCfg (batchDraw 100) 12 batchCalls = some node ∧
    (∃ next, node.advance (fun _ => SetOrder.ascending Txid) (batchDraw 400) = some next ∧
      next.txs.keys.card = (node.txs.keys.card - 1) + 2) ∧
    ∃ mined, node.mineBlock (SetOrder.ascending Txid) (SetOrder.ascending Txid) = some mined ∧ node.Mines mined := by
  have hfresh : MockNode.runFresh chainCfg (batchDraw 100) 12 batchCalls = true := by decide +kernel
  have hnext : (MockNode.run chainCfg (batchDraw 100) 12 batchCalls).all
      (fun node => node.callFresh (.advance (fun _ => SetOrder.ascending Txid) (batchDraw 400))) = true := by
    decide +kernel
  obtain ⟨node, hrun, -, hadvance, hmine⟩ := churn_and_mining chainCfg (batchDraw 100) 12 batchCalls hfresh
  rw [hrun] at hnext
  exact ⟨node, hrun, hadvance _ _ hnext, hmine _ _⟩

end Sim
end Satya
