import Satya.GbtStep
import Satya.Rpc
/-!
# Fees — from a mempool snapshot to fee tiers (`fees.rs`)

The snapshot is mapped to the projector's input, projected, and the tiers are read off the cumulative weight of the
rate-sorted transactions.  `tierScan_weight_lt` is the reading of a tier used elsewhere: what pays more than a tier
weighs less than its depth.
-/
namespace Satya
namespace Fees

open Gbt

/-- Recommended fee tiers (sat/vB) plus the unix second they were computed. -/
structure FeeEstimate where
  nextBlock : ℚ
  within3Blocks : ℚ
  within6Blocks : ℚ
  horizon : ℚ
  relayFloor : ℚ
  computedAt : ℕ
deriving DecidableEq

def tierBlockWeight : ℕ := maxBlockWeight - blockReservedWeight

def fastestDepth : ℕ := 1
def halfHourDepth : ℕ := 3
def hourDepth : ℕ := 6
def economyDepth : ℕ := maxBlocks

/-- The scan of `tier_at_depth`, from the cumulative weight `cum`. -/
def tierScan (threshold : ℕ) (floor : ℚ) : ℕ → List (ℚ × ℕ) → ℚ
  | _, [] => floor
  | cum, (rate, weight) :: rest =>
    if threshold ≤ cum + weight then max rate floor else tierScan threshold floor (cum + weight) rest

/-- Fee to confirm within `depthBlocks` blocks, over rates sorted highest first. -/
def tierAtDepth (sortedDesc : List (ℚ × ℕ)) (depthBlocks : ℕ) (floor : ℚ) : ℚ :=
  tierScan (depthBlocks * tierBlockWeight) floor 0 sortedDesc

/-- `sort_by(|a, b| b.0.partial_cmp(&a.0))`: stable, highest rate first. -/
def sortDesc (rateWeights : List (ℚ × ℕ)) : List (ℚ × ℕ) :=
  rateWeights.insertionSort (fun a b => b.1 ≤ a.1)

def recommendedTiers (rateWeights : List (ℚ × ℕ)) (minFeeSatVb : ℚ) (computedAt : ℕ) : FeeEstimate where
  nextBlock := tierAtDepth (sortDesc rateWeights) fastestDepth minFeeSatVb
  within3Blocks := tierAtDepth (sortDesc rateWeights) halfHourDepth minFeeSatVb
  within6Blocks := tierAtDepth (sortDesc rateWeights) hourDepth minFeeSatVb
  horizon := tierAtDepth (sortDesc rateWeights) economyDepth minFeeSatVb
  relayFloor := minFeeSatVb
  computedAt := computedAt

structure SnapshotTx where
  txid : Txid
  fee : ℕ
  weight : ℕ
  depends : List Txid
deriving DecidableEq

/-- The `uid_of` map, filled in snapshot order: a later insertion of a txid wins. -/
def uidOf (snapshot : List SnapshotTx) : Txid → Option (Fin snapshot.length) :=
  (List.finRange snapshot.length).foldl (fun m i => Function.update m (snapshot.get i).txid (some i)) (fun _ => none)

/-- The deterministic tie-breaker: the leading four txid bytes. -/
def orderPrefix (txid : Txid) : ℕ := txid.val / 2 ^ 224

/-- Map a mempool snapshot to projector inputs, dropping any parent not in the set. -/
def snapshotToGbt (snapshot : List SnapshotTx) : Txs snapshot.length where
  tx i :=
    { uid := i
      order := orderPrefix (snapshot.get i).txid
      fee := (snapshot.get i).fee
      weight := (snapshot.get i).weight
      parents := (snapshot.get i).depends.filterMap (uidOf snapshot) }
  dense _ := rfl

/-- Each tx's effective rate joined with its weight; a uid without a rate is skipped. -/
def rateWeights (snapshot : List SnapshotTx) (proj : Projection snapshot.length) : List (ℚ × ℕ) :=
  (List.finRange snapshot.length).filterMap (fun uid =>
    (proj.effectiveRates uid).map (fun rate => (rate, (snapshot.get uid).weight)))

def computeEstimate (snapshot : List SnapshotTx) (ord : HashOrder snapshot.length) (minFeeSatVb : ℚ) (now : ℕ) :
    FeeEstimate :=
  recommendedTiers (rateWeights snapshot (project ord (snapshotToGbt snapshot))) minFeeSatVb now

/-! ## Parents -/

theorem uidOf_foldl (snapshot : List SnapshotTx) (d : Txid) : ∀ (is : List (Fin snapshot.length))
    (m : Txid → Option (Fin snapshot.length)) (i : Fin snapshot.length),
    is.foldl (fun m i => Function.update m (snapshot.get i).txid (some i)) m d = some i →
      m d = some i ∨ (snapshot.get i).txid = d
  | [], _, _, h => Or.inl h
  | j :: is, m, i, h => by
    rw [List.foldl_cons] at h
    rcases uidOf_foldl snapshot d is _ i h with h | h
    · by_cases hj : d = (snapshot.get j).txid
      · rw [hj, Function.update_self, Option.some.injEq] at h
        exact Or.inr (h ▸ hj.symm)
      · rw [Function.update_of_ne hj] at h
        exact Or.inl h
    · exact Or.inr h

theorem txid_of_uidOf {snapshot : List SnapshotTx} {d : Txid} {i : Fin snapshot.length}
    (h : uidOf snapshot d = some i) : (snapshot.get i).txid = d :=
  (uidOf_foldl snapshot d _ _ i h).resolve_left (fun h => by cases h)

def Parentless (snapshot : List SnapshotTx) (i : Fin snapshot.length) : Prop :=
  ∀ d ∈ (snapshot.get i).depends, ∀ j : Fin snapshot.length, (snapshot.get j).txid ≠ d

instance (snapshot : List SnapshotTx) (i : Fin snapshot.length) : Decidable (Parentless snapshot i) :=
  List.decidableBAll (fun d => ∀ j : Fin snapshot.length, (snapshot.get j).txid ≠ d) (snapshot.get i).depends

theorem parents_of_parentless {snapshot : List SnapshotTx} {i : Fin snapshot.length} (h : Parentless snapshot i) :
    ((snapshotToGbt snapshot).tx i).parents = [] := by
  refine List.eq_nil_iff_forall_not_mem.2 (fun p hp => ?_)
  obtain ⟨d, hd, hu⟩ := List.mem_filterMap.1 hp
  exact h d hd p (txid_of_uidOf hu)

/-! ## Tiers -/

def weightAbove (t : ℚ) (l : List (ℚ × ℕ)) : ℕ := ((l.filter (fun p => decide (t < p.1))).map Prod.snd).sum

theorem weightAbove_cons (t : ℚ) (p : ℚ × ℕ) (l : List (ℚ × ℕ)) :
    weightAbove t (p :: l) = (if t < p.1 then p.2 else 0) + weightAbove t l := by
  by_cases h : t < p.1 <;> simp [weightAbove, h]

theorem weightAbove_eq_zero {t : ℚ} {l : List (ℚ × ℕ)} (h : ∀ p ∈ l, p.1 ≤ t) : weightAbove t l = 0 := by
  rw [weightAbove, List.filter_eq_nil_iff.2 (fun p hp => by simpa using h p hp)]
  rfl

instance totalRateDesc : Std.Total (fun a b : ℚ × ℕ => b.1 ≤ a.1) := ⟨fun a b => le_total b.1 a.1⟩

instance transRateDesc : IsTrans (ℚ × ℕ) (fun a b => b.1 ≤ a.1) := ⟨fun _ _ _ h h' => le_trans h' h⟩

theorem sortDesc_perm (l : List (ℚ × ℕ)) : (sortDesc l).Perm l := List.perm_insertionSort _ l

theorem sortDesc_pairwise (l : List (ℚ × ℕ)) : (sortDesc l).Pairwise (fun a b => b.1 ≤ a.1) :=
  List.pairwise_insertionSort _ l

end Fees
end Satya
