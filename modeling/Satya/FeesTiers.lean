import Satya.Fees
import Mathlib.Order.Bounds.Basic
/-!
# FeesTiers — the tiers against an order-free specification

A tier sorts, accumulates and stops early.  What it stops at is the greatest rate whose transactions, together with
everything that pays at least as much, fill the tier's depth (`isTier_tierAtDepth`); a specification that mentions no
order determines the tier (`IsTier.unique`), so the order of the histogram and of its ties is not visible.
-/
namespace Satya
namespace Fees

open Gbt

def weightFrom (r : ℚ) (l : List (ℚ × ℕ)) : ℕ := ((l.filter (fun p => decide (r ≤ p.1))).map Prod.snd).sum

def totalWeight (l : List (ℚ × ℕ)) : ℕ := (l.map Prod.snd).sum

/-- The rates of a list that, with everything at or above them, reach a threshold. -/
def reaching (threshold : ℕ) (l : List (ℚ × ℕ)) : Set ℚ := {r | (∃ p ∈ l, p.1 = r) ∧ threshold ≤ weightFrom r l}

/-- The tier at a threshold: the greatest rate that reaches it, or the floor where nothing does or it is higher. -/
def IsTier (l : List (ℚ × ℕ)) (threshold : ℕ) (floor tier : ℚ) : Prop :=
  (totalWeight l < threshold → tier = floor) ∧
    (threshold ≤ totalWeight l → ∃ r, IsGreatest (reaching threshold l) r ∧ tier = max r floor)

/-! ## Weights by rate -/

theorem weightFrom_cons (r : ℚ) (p : ℚ × ℕ) (l : List (ℚ × ℕ)) :
    weightFrom r (p :: l) = (if r ≤ p.1 then p.2 else 0) + weightFrom r l := by
  by_cases h : r ≤ p.1 <;> simp [weightFrom, h]

theorem totalWeight_cons (p : ℚ × ℕ) (l : List (ℚ × ℕ)) : totalWeight (p :: l) = p.2 + totalWeight l := rfl

theorem weightFrom_perm {r : ℚ} {l l' : List (ℚ × ℕ)} (h : l.Perm l') : weightFrom r l = weightFrom r l' :=
  ((h.filter _).map _).sum_eq

theorem totalWeight_perm {l l' : List (ℚ × ℕ)} (h : l.Perm l') : totalWeight l = totalWeight l' := (h.map _).sum_eq

theorem weightFrom_le_weightAbove {r t : ℚ} (h : t < r) : ∀ l : List (ℚ × ℕ), weightFrom r l ≤ weightAbove t l
  | [] => le_rfl
  | p :: l => by
    have ih := weightFrom_le_weightAbove h l
    rw [weightFrom_cons, weightAbove_cons]
    by_cases hp : r ≤ p.1
    · rw [if_pos hp, if_pos (lt_of_lt_of_le h hp)]
      omega
    · rw [if_neg hp]
      omega

theorem reaching_perm {threshold : ℕ} {l l' : List (ℚ × ℕ)} (h : l.Perm l') :
    reaching threshold l = reaching threshold l' := by
  ext r
  simp only [reaching, Set.mem_ofPred_eq, weightFrom_perm h, h.mem_iff]

theorem IsTier.of_perm {l l' : List (ℚ × ℕ)} {threshold : ℕ} {floor tier : ℚ} (hp : l.Perm l')
    (h : IsTier l threshold floor tier) : IsTier l' threshold floor tier := by
  unfold IsTier at h ⊢
  rwa [← totalWeight_perm hp, ← reaching_perm hp]

/-- **The specification determines the tier.** -/
theorem IsTier.unique {l : List (ℚ × ℕ)} {threshold : ℕ} {floor t t' : ℚ} (h : IsTier l threshold floor t)
    (h' : IsTier l threshold floor t') : t = t' := by
  rcases lt_or_ge (totalWeight l) threshold with hlt | hge
  · rw [h.1 hlt, h'.1 hlt]
  · obtain ⟨r, hr, rfl⟩ := h.2 hge
    obtain ⟨r', hr', rfl⟩ := h'.2 hge
    rw [hr.unique hr']

theorem IsTier.floor_le {l : List (ℚ × ℕ)} {threshold : ℕ} {floor tier : ℚ} (h : IsTier l threshold floor tier) :
    floor ≤ tier := by
  rcases lt_or_ge (totalWeight l) threshold with hlt | hge
  · rw [h.1 hlt]
  · obtain ⟨r, -, rfl⟩ := h.2 hge
    exact le_max_right r floor

theorem IsTier.anti {l : List (ℚ × ℕ)} {threshold threshold' : ℕ} {floor t t' : ℚ} (hle : threshold ≤ threshold')
    (h : IsTier l threshold floor t) (h' : IsTier l threshold' floor t') : t' ≤ t := by
  rcases lt_or_ge (totalWeight l) threshold' with hlt | hge
  · rw [h'.1 hlt]
    exact h.floor_le
  · obtain ⟨r, hr, rfl⟩ := h.2 (hle.trans hge)
    obtain ⟨r', hr', rfl⟩ := h'.2 hge
    have hmem : r' ∈ reaching threshold l := ⟨hr'.1.1, hle.trans hr'.1.2⟩
    exact max_le_max_right floor (hr.2 hmem)

/-! ## The scan -/

theorem tierScan_of_lt (threshold : ℕ) (floor : ℚ) : ∀ (cum : ℕ) (l : List (ℚ × ℕ)),
    cum + totalWeight l < threshold → tierScan threshold floor cum l = floor
  | _, [], _ => rfl
  | cum, (rate, weight) :: rest, h => by
    rw [totalWeight_cons] at h
    unfold tierScan
    rw [if_neg (by omega)]
    exact tierScan_of_lt threshold floor (cum + weight) rest (by omega)

/-- The scan stops at a rate that reaches the threshold while what pays strictly more does not. -/
theorem tierScan_of_le (threshold : ℕ) (floor : ℚ) : ∀ (cum : ℕ) (l : List (ℚ × ℕ)),
    l.Pairwise (fun a b => b.1 ≤ a.1) → cum < threshold → threshold ≤ cum + totalWeight l →
      ∃ r, (∃ p ∈ l, p.1 = r) ∧ threshold ≤ cum + weightFrom r l ∧ cum + weightAbove r l < threshold ∧
        tierScan threshold floor cum l = max r floor
  | cum, [], _, hc, h => absurd h (by simpa [totalWeight] using hc)
  | cum, (rate, weight) :: rest, hs, hc, h => by
    rw [List.pairwise_cons] at hs
    rw [totalWeight_cons] at h
    unfold tierScan
    by_cases ht : threshold ≤ cum + weight
    · have habove : weightAbove rate ((rate, weight) :: rest) = 0 := by
        refine weightAbove_eq_zero (fun p hp => ?_)
        rcases List.mem_cons.1 hp with rfl | hp
        · exact le_rfl
        · exact hs.1 p hp
      refine ⟨rate, ⟨_, List.mem_cons_self, rfl⟩, ?_, by omega, if_pos ht⟩
      rw [weightFrom_cons, if_pos le_rfl]
      omega
    · obtain ⟨r, ⟨p, hp, hr⟩, hfrom, habove, heq⟩ :=
        tierScan_of_le threshold floor (cum + weight) rest hs.2 (not_le.1 ht) (by omega)
      have hle : r ≤ rate := hr ▸ hs.1 p hp
      refine ⟨r, ⟨p, List.mem_cons_of_mem _ hp, hr⟩, ?_, ?_, by rw [if_neg ht, heq]⟩
      · rw [weightFrom_cons, if_pos hle]
        omega
      · rw [weightAbove_cons]
        split <;> omega

theorem isTier_tierScan {threshold : ℕ} (hpos : 0 < threshold) (floor : ℚ) {l : List (ℚ × ℕ)}
    (hs : l.Pairwise (fun a b => b.1 ≤ a.1)) : IsTier l threshold floor (tierScan threshold floor 0 l) := by
  refine ⟨fun hlt => tierScan_of_lt threshold floor 0 l (by omega), fun hge => ?_⟩
  obtain ⟨r, hmem, hfrom, habove, heq⟩ := tierScan_of_le threshold floor 0 l hs hpos (by omega)
  refine ⟨r, ⟨⟨hmem, by omega⟩, ?_⟩, heq⟩
  rintro r' ⟨-, hr'⟩
  by_contra hlt
  have := weightFrom_le_weightAbove (not_le.1 hlt) l
  omega

/-- **A tier is the greatest rate that fills its depth.** -/
theorem isTier_tierAtDepth {depth : ℕ} (hd : 0 < depth) (floor : ℚ) (l : List (ℚ × ℕ)) :
    IsTier l (depth * tierBlockWeight) floor (tierAtDepth (sortDesc l) depth floor) :=
  (isTier_tierScan (Nat.mul_pos hd (by decide)) floor (sortDesc_pairwise l)).of_perm (sortDesc_perm l)

theorem tierAtDepth_perm {depth : ℕ} (hd : 0 < depth) (floor : ℚ) {l l' : List (ℚ × ℕ)} (h : l.Perm l') :
    tierAtDepth (sortDesc l) depth floor = tierAtDepth (sortDesc l') depth floor :=
  ((isTier_tierAtDepth hd floor l).of_perm h).unique (isTier_tierAtDepth hd floor l')

theorem tierAtDepth_anti {depth depth' : ℕ} (hd : 0 < depth) (hle : depth ≤ depth') (floor : ℚ)
    (l : List (ℚ × ℕ)) : tierAtDepth (sortDesc l) depth' floor ≤ tierAtDepth (sortDesc l) depth floor :=
  (isTier_tierAtDepth hd floor l).anti (Nat.mul_le_mul_right _ hle)
    (isTier_tierAtDepth (hd.trans_le hle) floor l)

theorem recommendedTiers_perm {l l' : List (ℚ × ℕ)} (h : l.Perm l') (floor : ℚ) (now : ℕ) :
    recommendedTiers l floor now = recommendedTiers l' floor now := by
  unfold recommendedTiers
  rw [tierAtDepth_perm (show 0 < fastestDepth by decide) floor h,
    tierAtDepth_perm (show 0 < halfHourDepth by decide) floor h,
    tierAtDepth_perm (show 0 < hourDepth by decide) floor h,
    tierAtDepth_perm (show 0 < economyDepth by decide) floor h]

/-- **The tiers are those of the specification**, whatever the order of the list, and descend with depth. -/
theorem recommendedTiers_spec (rateWeights : List (ℚ × ℕ)) (floor : ℚ) (now : ℕ) :
    (IsTier rateWeights (1 * tierBlockWeight) floor (recommendedTiers rateWeights floor now).nextBlock ∧
      IsTier rateWeights (3 * tierBlockWeight) floor (recommendedTiers rateWeights floor now).within3Blocks ∧
      IsTier rateWeights (6 * tierBlockWeight) floor (recommendedTiers rateWeights floor now).within6Blocks ∧
      IsTier rateWeights (maxBlocks * tierBlockWeight) floor (recommendedTiers rateWeights floor now).horizon) ∧
    (∀ rateWeights' : List (ℚ × ℕ), rateWeights'.Perm rateWeights →
      recommendedTiers rateWeights' floor now = recommendedTiers rateWeights floor now) ∧
    (recommendedTiers rateWeights floor now).within3Blocks ≤ (recommendedTiers rateWeights floor now).nextBlock ∧
    (recommendedTiers rateWeights floor now).within6Blocks ≤ (recommendedTiers rateWeights floor now).within3Blocks ∧
    (recommendedTiers rateWeights floor now).horizon ≤ (recommendedTiers rateWeights floor now).within6Blocks ∧
    (recommendedTiers rateWeights floor now).relayFloor ≤ (recommendedTiers rateWeights floor now).horizon := by
  refine ⟨⟨?_, ?_, ?_, ?_⟩, fun l hl => recommendedTiers_perm hl floor now, ?_, ?_, ?_, ?_⟩
  · exact isTier_tierAtDepth (show 0 < fastestDepth by decide) floor rateWeights
  · exact isTier_tierAtDepth (show 0 < halfHourDepth by decide) floor rateWeights
  · exact isTier_tierAtDepth (show 0 < hourDepth by decide) floor rateWeights
  · exact isTier_tierAtDepth (show 0 < economyDepth by decide) floor rateWeights
  · exact tierAtDepth_anti (show 0 < fastestDepth by decide) (show fastestDepth ≤ halfHourDepth by decide) floor _
  · exact tierAtDepth_anti (show 0 < halfHourDepth by decide) (show halfHourDepth ≤ hourDepth by decide) floor _
  · exact tierAtDepth_anti (show 0 < hourDepth by decide) (show hourDepth ≤ economyDepth by decide) floor _
  · exact (isTier_tierAtDepth (show 0 < economyDepth by decide) floor rateWeights).floor_le

end Fees
end Satya
