import Satya.FeesNextBlock
import Satya.FeesTiers
import Satya.GbtU64
import Satya.Mempool
/-!
# FeesU64 — where the estimator's `u64` sums are exact

`cum` adds `u32` weights of fewer than `2 ^ 32` transactions and never wraps, and no more do the weight sums of the
projection; the fees cross the RPC boundary unclamped.  The estimator on machine integers is `computeEstimate` exactly
where every fee, with those of all its ancestors, stays below `2 ^ 64` (`sums_fit_iff`).
-/
namespace Satya
namespace Fees

open Gbt

/-! ## The estimator on machine integers -/

/-- `tierScan` with `cum` a `u64`. -/
def tierScan64 (threshold : ℕ) (floor : ℚ) : ℕ → List (ℚ × ℕ) → ℚ
  | _, [] => floor
  | cum, (rate, weight) :: rest =>
    if threshold ≤ add64 cum weight then max rate floor else tierScan64 threshold floor (add64 cum weight) rest

def tierAtDepth64 (sortedDesc : List (ℚ × ℕ)) (depthBlocks : ℕ) (floor : ℚ) : ℚ :=
  tierScan64 (min (depthBlocks * tierBlockWeight) (2 ^ 64 - 1)) floor 0 sortedDesc

def recommendedTiers64 (rateWeights : List (ℚ × ℕ)) (minFeeSatVb : ℚ) (computedAt : ℕ) : FeeEstimate where
  nextBlock := tierAtDepth64 (sortDesc rateWeights) fastestDepth minFeeSatVb
  within3Blocks := tierAtDepth64 (sortDesc rateWeights) halfHourDepth minFeeSatVb
  within6Blocks := tierAtDepth64 (sortDesc rateWeights) hourDepth minFeeSatVb
  horizon := tierAtDepth64 (sortDesc rateWeights) economyDepth minFeeSatVb
  relayFloor := minFeeSatVb
  computedAt := computedAt

section Run

variable (snapshot : List SnapshotTx) (ord : HashOrder snapshot.length)

/-- The projector's loop, run until its heap is drained. -/
def packed64 : Part (Packing snapshot.length) :=
  StateTransition.eval (packStep64 (auditsOf ord (snapshotToGbt snapshot)) defaultLimits)
    (Packing.start64 (auditsOf ord (snapshotToGbt snapshot)) defaultLimits)

def computeEstimate64 (minFeeSatVb : ℚ) (now : ℕ) : Part FeeEstimate :=
  (packed64 snapshot ord).map (fun s => recommendedTiers64 (rateWeights snapshot s.result) minFeeSatVb now)

/-- No accumulator of the run wraps: those of the projection at every loop head, and `cum` over what it ends with. -/
structure NoOverflow : Prop where
  projection : ∀ s, LoopHead64 ord (snapshotToGbt snapshot) defaultLimits s →
    s.SumsFit (auditsOf ord (snapshotToGbt snapshot))
  cum : ∀ s ∈ packed64 snapshot ord, Fits 0 ((sortDesc (rateWeights snapshot s.result)).map Prod.snd)

end Run

variable {snapshot : List SnapshotTx} {ord : HashOrder snapshot.length}

/-! ## Tiers -/

theorem tierScan64_eq (threshold : ℕ) (floor : ℚ) : ∀ {l : List (ℚ × ℕ)} {cum : ℕ}, cum + totalWeight l < 2 ^ 64 →
    tierScan64 threshold floor cum l = tierScan threshold floor cum l
  | [], _, _ => rfl
  | (rate, weight) :: l, cum, h => by
    rw [totalWeight_cons, ← add_assoc] at h
    rw [tierScan64, tierScan, add64_eq ((Nat.le_add_right _ _).trans_lt h), tierScan64_eq threshold floor h]

theorem tierAtDepth64_eq {depth : ℕ} (hd : depth * tierBlockWeight ≤ 2 ^ 64 - 1) (floor : ℚ) {l : List (ℚ × ℕ)}
    (h : totalWeight l < 2 ^ 64) : tierAtDepth64 (sortDesc l) depth floor = tierAtDepth (sortDesc l) depth floor := by
  rw [tierAtDepth64, tierAtDepth, min_eq_left hd]
  refine tierScan64_eq _ _ ?_
  rwa [Nat.zero_add, totalWeight_perm (sortDesc_perm l)]

theorem recommendedTiers64_eq (floor : ℚ) (now : ℕ) {l : List (ℚ × ℕ)} (h : totalWeight l < 2 ^ 64) :
    recommendedTiers64 l floor now = recommendedTiers l floor now := by
  rw [recommendedTiers64, recommendedTiers, tierAtDepth64_eq (by decide) floor h, tierAtDepth64_eq (by decide) floor h,
    tierAtDepth64_eq (by decide) floor h, tierAtDepth64_eq (by decide) floor h]

/-- **`cum` never wraps**, whatever the rates. -/
theorem totalWeight_rateWeights_lt (hlen : snapshot.length < 2 ^ 32) (hw : ∀ row ∈ snapshot, row.weight < 2 ^ 32)
    (proj : Projection snapshot.length) : totalWeight (rateWeights snapshot proj) < 2 ^ 64 := by
  have hcard : ((rateWeights snapshot proj).map Prod.snd).length < 2 ^ 32 := by
    rw [List.length_map]
    exact ((List.length_filterMap_le _ _).trans_eq (List.length_finRange)).trans_lt hlen
  have hsum : 2 ^ 32 + totalWeight (rateWeights snapshot proj) < 2 ^ 64 := by
    refine sum_small hcard (fun x hx => ?_)
    obtain ⟨p, hp, rfl⟩ := List.mem_map.1 hx
    obtain ⟨uid, -, huid⟩ := List.mem_filterMap.1 hp
    obtain ⟨rate, -, rfl⟩ := Option.map_eq_some_iff.1 huid
    exact hw _ (List.get_mem snapshot uid)
  omega

theorem fits_cum (hlen : snapshot.length < 2 ^ 32) (hw : ∀ row ∈ snapshot, row.weight < 2 ^ 32)
    (proj : Projection snapshot.length) : Fits 0 ((sortDesc (rateWeights snapshot proj)).map Prod.snd) := by
  rw [fits_iff, Nat.zero_add]
  have := totalWeight_rateWeights_lt hlen hw proj
  rwa [← totalWeight_perm (sortDesc_perm (rateWeights snapshot proj))] at this

/-! ## The run -/

theorem u32_snapshotToGbt (hlen : snapshot.length < 2 ^ 32) (hw : ∀ row ∈ snapshot, row.weight < 2 ^ 32) :
    (snapshotToGbt snapshot).U32 := ⟨hlen, fun u => hw _ (List.get_mem snapshot u)⟩

/-- **The machine's projection is the exact one.** -/
theorem packed64_eq (h : (snapshotToGbt snapshot).U32) (hac : (snapshotToGbt snapshot).Acyclic)
    (hfee : (snapshotToGbt snapshot).FeesFit) :
    packed64 snapshot ord = Part.some (packed ord (snapshotToGbt snapshot) defaultLimits) := by
  have hrun := loopHead_packed ord (snapshotToGbt snapshot) defaultLimits
  have hstep : packStep64 (auditsOf ord (snapshotToGbt snapshot)) defaultLimits
      (packed ord (snapshotToGbt snapshot) defaultLimits) = none := by
    rw [packStep64_eq (scoresFit h hac hfee) (by decide) (fun u hu => room h hac (by decide) hrun hu)]
    exact packStep_eq_none.2 (packed_heap ord (snapshotToGbt snapshot) defaultLimits)
  rw [Part.eq_some_iff, packed64, StateTransition.mem_eval]
  exact ⟨(loopHead64_iff h hac hfee (by decide) (by decide)).2 hrun, hstep⟩

/-- **No `u64` accumulation of the estimator wraps exactly when no transaction's fee reaches `2 ^ 64` together with the
fees of its ancestors**; the estimate on machine integers is then the one on exact sums. -/
theorem sums_fit_iff (snapshot : List SnapshotTx) (ord : HashOrder snapshot.length) (floor : ℚ) (now : ℕ)
    (hlen : snapshot.length < 2 ^ 32) (hw : ∀ row ∈ snapshot, row.weight < 2 ^ 32)
    (hac : (snapshotToGbt snapshot).Acyclic) :
    (NoOverflow snapshot ord ↔ (snapshotToGbt snapshot).FeesFit) ∧
    ((snapshotToGbt snapshot).FeesFit →
      computeEstimate64 snapshot ord floor now = Part.some (computeEstimate snapshot ord floor now)) := by
  have hu := u32_snapshotToGbt hlen hw
  refine ⟨⟨fun h => ?_, fun hfee => ⟨fun s hs => ?_, fun s _ => fits_cum hlen hw s.result⟩⟩, fun hfee => ?_⟩
  · exact feesFit_of_start64 hac (h.projection _ Relation.ReflTransGen.refl)
  · exact sumsFit_loopHead hu hac hfee (by decide) ((loopHead64_iff hu hac hfee (by decide) (by decide)).1 hs)
  · rw [computeEstimate64, packed64_eq hu hac hfee, Part.map_some, computeEstimate, project, projectWith_eq,
      recommendedTiers64_eq floor now (totalWeight_rateWeights_lt hlen hw _)]

theorem sums_fit_cpfpSnapshot : NoOverflow cpfpSnapshot (.ascending _) ∧
    computeEstimate64 cpfpSnapshot (.ascending _) 1 0 = Part.some (computeEstimate cpfpSnapshot (.ascending _) 1 0) := by
  have hfee : (snapshotToGbt cpfpSnapshot).FeesFit := by
    intro u l _
    have hu : ∀ u, ((snapshotToGbt cpfpSnapshot).tx u).fee ≤ 25000 := by decide +kernel
    have hl : ∑ a ∈ l, ((snapshotToGbt cpfpSnapshot).tx a).fee ≤ ∑ a, ((snapshotToGbt cpfpSnapshot).tx a).fee :=
      Finset.sum_le_sum_of_subset (Finset.subset_univ l)
    have hall : ∑ a, ((snapshotToGbt cpfpSnapshot).tx a).fee = 25250 := by decide +kernel
    have := hu u
    omega
  have h := sums_fit_iff cpfpSnapshot (.ascending _) 1 0 (by decide) (by decide +kernel)
    (Txs.acyclic_of_rank Fin.val (by decide +kernel))
  exact ⟨h.1.2 hfee, h.2 hfee⟩

/-- An entry whose base fee is 92233720368.54776 BTC. -/
def absurdEntry (depends : List Txid) : MempoolEntry where
  vsize := 250
  weight := some 1000
  depends := depends
  fees := ⟨9223372036854776000, 9223372036854776000, 9223372036854776000⟩
  ancestorsize := 250
  descendantsize := 250
  time := some 0

def absurdSnapshot : List SnapshotTx :=
  [rowOf 10 (MempoolTx.ofEntry (absurdEntry [])), rowOf 11 (MempoolTx.ofEntry (absurdEntry [10]))]

/-- **Two fees wrap**: the child's package pays 384 satoshis in the machine's sum. -/
theorem absurdSnapshot_wraps : absurdSnapshot.length < 2 ^ 32 ∧
    (∀ row ∈ absurdSnapshot, row.fee < 2 ^ 64 ∧ row.weight < 2 ^ 32) ∧ (snapshotToGbt absurdSnapshot).Acyclic ∧
    scoreSums64 (auditsOf (.ascending _) (snapshotToGbt absurdSnapshot)) (fun _ => false) ⟨1, by decide⟩ = (384, 2000) ∧
    ¬ NoOverflow absurdSnapshot (.ascending _) := by
  have hac : (snapshotToGbt absurdSnapshot).Acyclic := Txs.acyclic_of_rank Fin.val (by decide +kernel)
  refine ⟨by decide, by decide +kernel, hac, by decide +kernel, fun h => ?_⟩
  have h0 : 0 < absurdSnapshot.length := by decide
  have h1 : 1 < absurdSnapshot.length := by decide
  have hparent : (snapshotToGbt absurdSnapshot).Parent ⟨1, h1⟩ ⟨0, h0⟩ := by decide +kernel +revert
  have hfit := feesFit_of_start64 hac (h.projection _ Relation.ReflTransGen.refl) ⟨1, h1⟩ {⟨0, h0⟩}
    (fun a ha => by
      obtain rfl := Finset.mem_singleton.1 ha
      exact hparent.ancestor)
  exact absurd hfit (by decide +kernel +revert)

end Fees
end Satya
