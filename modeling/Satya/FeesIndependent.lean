import Mathlib.Algebra.BigOperators.Fin
import Mathlib.Algebra.Order.BigOperators.Group.Finset
import Satya.FeesNextBlock
import Satya.FeesTiers
import Satya.GbtEntries
/-!
# FeesIndependent — a mempool without packages

When no transaction has an in-set parent every entry of the heap is alone of its transaction, so none is popped twice and
nothing is lost: each transaction is placed at its own rate, and the estimate is the histogram of the own rates
(`independent_estimate`).  Arrivals, fee bumps and a higher floor then never lower a tier (`independent_estimate_mono`).
-/
namespace Satya
namespace Gbt

variable {n : ℕ} {lim : Limits}

section Projection

variable {txs : Txs n} {ord : HashOrder n} {s s' : Packing n}

/-! ## One entry a transaction -/

theorem lone_of_parentless (hroot : ∀ u, (txs.tx u).parents = []) (u : Fin n) : Lone (auditsOf ord txs) u where
  ancestors := by
    refine List.eq_nil_iff_forall_not_mem.2 (fun a hmem => ?_)
    obtain ⟨p, hp, -⟩ := Txs.ancestor_iff.1 ((ancestorsOf_spec ord txs u).ancestor a hmem)
    rw [Txs.Parent, hroot] at hp
    exact List.not_mem_nil hp
  children := by
    refine List.eq_nil_iff_forall_not_mem.2 (fun c hmem => ?_)
    have hp : txs.Parent c u := mem_childrenOf.1 hmem
    rw [Txs.Parent, hroot] at hp
    exact List.not_mem_nil hp

theorem acyclic_of_parentless (hroot : ∀ u, (txs.tx u).parents = []) : txs.Acyclic := by
  intro u h
  obtain ⟨p, hp, -⟩ := Txs.ancestor_iff.1 h
  rw [Txs.Parent, hroot] at hp
  exact List.not_mem_nil hp

/-- **No popped entry is of a used transaction.** -/
theorem unused_of_pop_parentless (hroot : ∀ u, (txs.tx u).parents = []) (h : LoopHead ord txs lim s)
    {item : HeapItem n} {rest : MaxHeap (HeapItem n)} (hp : s.heap.pop = some (item, rest)) : s.used item.uid = false :=
  unused_of_pop_lone (acyclic_of_parentless hroot) h hp (lone_of_parentless hroot item.uid)

/-- So nothing is left behind. -/
theorem used_of_parentless (hroot : ∀ u, (txs.tx u).parents = []) (ord : HashOrder n) (lim : Limits) (u : Fin n) :
    (packed ord txs lim).used u = true := by
  by_contra hu
  obtain ⟨s, hs, ⟨item, rest, hp, -, hused⟩, -⟩ := (leavesBehind_iff ord txs lim u).2 (by simpa using hu)
  rw [unused_of_pop_parentless hroot hs hp] at hused
  cases hused

/-- What is placed is so at its own rate. -/
def Packing.RatedOwn (audits : Fin n → Audit n) (s : Packing n) : Prop :=
  ∀ u q, s.effectiveRates u = some q → q = rate (audits u).fee (audits u).weight

theorem ratedOwn_step (hroot : ∀ u, (txs.tx u).parents = []) (h : s.RatedOwn (auditsOf ord txs))
    (hstep : packStep (auditsOf ord txs) lim s = some s') : s'.RatedOwn (auditsOf ord txs) := by
  obtain ⟨item, rest, -, ht⟩ := packStep_turn.1 hstep
  cases ht with
  | discard _ => exact h
  | requeue _ _ => exact h
  | hold _ _ _ => exact fun u q hq => h u q (by rwa [finalize_effectiveRates] at hq)
  | take _ _ _ =>
    intro u q hq
    rw [finalize_effectiveRates, packageOf_root (lone_of_parentless hroot item.uid).ancestors, take_effectiveRates] at hq
    dsimp only at hq
    split at hq
    · next hmem =>
      cases List.mem_singleton.1 hmem
      rw [Option.some.injEq] at hq
      rw [← hq]
      simp [clusterRate, feeSum, weightSum]
    · exact h u q hq

theorem ratedOwn_loopHead (hroot : ∀ u, (txs.tx u).parents = []) (h : LoopHead ord txs lim s) :
    s.RatedOwn (auditsOf ord txs) :=
  reaches_keeps (P := Packing.RatedOwn (auditsOf ord txs)) h (fun _ _ hq => by cases hq)
    (fun _ _ hs hstep => ratedOwn_step hroot hs hstep)

/-- **Without parents every transaction is placed at its own rate**, whatever the limits. -/
theorem effectiveRates_of_parentless (hroot : ∀ u, (txs.tx u).parents = []) (ord : HashOrder n) (lim : Limits) (u : Fin n) :
    (projectWith ord txs lim).effectiveRates u = some (txs.ownRate u) := by
  have hhead := loopHead_packed ord txs lim
  have hacc := accounts_loopHead hhead
  obtain ⟨q, hq⟩ := Option.isSome_iff_exists.1
    ((hacc.rated_iff u).2 ((hacc.used_iff u).1 (used_of_parentless hroot ord lim u)))
  rw [projectWith_effectiveRates, hq, ratedOwn_loopHead hroot hhead u q hq]
  rfl

end Projection

end Gbt

namespace Fees

open Gbt

/-! ## Tiers and demand -/

variable {l l' : List (ℚ × ℕ)} {floor floor' : ℚ}

/-- At every rate at least as much weight bids it in `l'` as in `l`. -/
def Outbids (l' l : List (ℚ × ℕ)) : Prop := ∀ r, weightFrom r l ≤ weightFrom r l'

theorem weightFrom_le_totalWeight (r : ℚ) : ∀ l : List (ℚ × ℕ), weightFrom r l ≤ totalWeight l
  | [] => le_rfl
  | p :: l => by
    have ih := weightFrom_le_totalWeight r l
    rw [weightFrom_cons, totalWeight_cons]
    split <;> omega

/-- What is bid at `r` or more is bid at the least of these bids or more. -/
theorem exists_bid {r : ℚ} {l : List (ℚ × ℕ)} (h : 0 < weightFrom r l) :
    ∃ p ∈ l, r ≤ p.1 ∧ weightFrom p.1 l = weightFrom r l := by
  have hne : (l.filter (fun p => decide (r ≤ p.1))).toFinset.Nonempty := by
    rw [Finset.nonempty_iff_ne_empty, Ne, List.toFinset_eq_empty_iff]
    intro hnil
    rw [weightFrom, hnil] at h
    exact absurd h (by decide)
  obtain ⟨p, hp, hleast⟩ := Finset.exists_min_image _ Prod.fst hne
  rw [List.mem_toFinset, List.mem_filter, decide_eq_true_eq] at hp
  refine ⟨p, hp.1, hp.2, ?_⟩
  rw [weightFrom, weightFrom]
  congr 2
  refine List.filter_congr (fun q hq => decide_eq_decide.2 ⟨fun h => hp.2.trans h, fun h => ?_⟩)
  exact hleast q (List.mem_toFinset.2 (List.mem_filter.2 ⟨hq, decide_eq_true h⟩))

/-- **More demand never lowers a tier.** -/
theorem IsTier.mono {threshold : ℕ} (hpos : 0 < threshold) {t t' : ℚ} (h : Outbids l' l) (hfloor : floor ≤ floor')
    (ht : IsTier l threshold floor t) (ht' : IsTier l' threshold floor' t') : t ≤ t' := by
  rcases lt_or_ge (totalWeight l) threshold with hlt | hge
  · rw [ht.1 hlt]
    exact hfloor.trans ht'.floor_le
  · obtain ⟨r, ⟨⟨-, hreach⟩, -⟩, rfl⟩ := ht.2 hge
    have hreach' : threshold ≤ weightFrom r l' := hreach.trans (h r)
    obtain ⟨p, hp, hle, hweight⟩ := exists_bid (lt_of_lt_of_le hpos hreach')
    obtain ⟨r', hr', rfl⟩ := ht'.2 (hreach'.trans (weightFrom_le_totalWeight r l'))
    have hbid : p.1 ≤ r' := hr'.2 ⟨⟨p, hp, rfl⟩, hweight.symm ▸ hreach'⟩
    exact max_le_max (hle.trans hbid) hfloor

theorem tierAtDepth_mono (h : Outbids l' l) (hfloor : floor ≤ floor') {depth : ℕ} (hd : 0 < depth) :
    tierAtDepth (sortDesc l) depth floor ≤ tierAtDepth (sortDesc l') depth floor' :=
  (isTier_tierAtDepth hd floor l).mono (Nat.mul_pos hd (by decide)) h hfloor (isTier_tierAtDepth hd floor' l')

/-! ## The histogram of the own rates -/

def ownHistogram (snapshot : List SnapshotTx) : List (ℚ × ℕ) :=
  (List.finRange snapshot.length).map (fun i => (ownRate snapshot i, (snapshot.get i).weight))

theorem rateWeights_of_parentless {snapshot : List SnapshotTx} (hroot : ∀ i, Parentless snapshot i)
    (ord : HashOrder snapshot.length) :
    rateWeights snapshot (project ord (snapshotToGbt snapshot)) = ownHistogram snapshot := by
  unfold rateWeights ownHistogram
  rw [← List.filterMap_eq_map]
  refine List.filterMap_congr (fun i _ => ?_)
  rw [project, effectiveRates_of_parentless (fun u => parents_of_parentless (hroot u)) ord defaultLimits i]
  rfl

theorem weightFrom_eq_sum (r : ℚ) : ∀ l : List (ℚ × ℕ), weightFrom r l = (l.map (fun p => if r ≤ p.1 then p.2 else 0)).sum
  | [] => rfl
  | p :: l => by rw [weightFrom_cons, List.map_cons, List.sum_cons, weightFrom_eq_sum r l]

/-- Bumped bids and arrivals outbid what was there. -/
theorem ownHistogram_outbids {s s' : List SnapshotTx} {kept : Fin s.length → Fin s'.length}
    (hkept : Function.Injective kept) (hbid : ∀ i, ownRate s i ≤ ownRate s' (kept i))
    (hweight : ∀ i, (s.get i).weight ≤ (s'.get (kept i)).weight) : Outbids (ownHistogram s') (ownHistogram s) := by
  intro r
  have hsum : ∀ s : List SnapshotTx, weightFrom r (ownHistogram s) =
      ∑ i, if r ≤ ownRate s i then (s.get i).weight else 0 := by
    intro s
    rw [weightFrom_eq_sum, ownHistogram, List.map_map, Fin.sum_univ_def]
    rfl
  rw [hsum, hsum]
  have himage : ∑ j ∈ Finset.univ.image kept, (if r ≤ ownRate s' j then (s'.get j).weight else 0) =
      ∑ i, if r ≤ ownRate s' (kept i) then (s'.get (kept i)).weight else 0 :=
    Finset.sum_image (f := fun j => if r ≤ ownRate s' j then (s'.get j).weight else 0) (fun i _ j _ h => hkept h)
  calc ∑ i, (if r ≤ ownRate s i then (s.get i).weight else 0)
      ≤ ∑ i, (if r ≤ ownRate s' (kept i) then (s'.get (kept i)).weight else 0) := by
        refine Finset.sum_le_sum (fun i _ => ?_)
        by_cases hr : r ≤ ownRate s i
        · rw [if_pos hr, if_pos (hr.trans (hbid i))]
          exact hweight i
        · rw [if_neg hr]
          exact Nat.zero_le _
    _ = ∑ j ∈ Finset.univ.image kept, (if r ≤ ownRate s' j then (s'.get j).weight else 0) :=
        himage.symm
    _ ≤ ∑ j, (if r ≤ ownRate s' j then (s'.get j).weight else 0) :=
        Finset.sum_le_sum_of_subset (Finset.subset_univ _)

/-- **Without packages the estimate is the plain histogram**: no entry is popped twice, nothing is lost, and every
transaction counts at its own rate. -/
theorem independent_estimate (snapshot : List SnapshotTx) (hroot : ∀ i, Parentless snapshot i)
    (ord : HashOrder snapshot.length) (minFee : ℚ) (now : ℕ) :
    (∀ i, ∃ b ∈ (project ord (snapshotToGbt snapshot)).blocks, i ∈ b) ∧
    (∀ i, (project ord (snapshotToGbt snapshot)).effectiveRates i = some (ownRate snapshot i)) ∧
    (∀ s, LoopHead ord (snapshotToGbt snapshot) defaultLimits s →
      ∀ item rest, s.heap.pop = some (item, rest) → s.used item.uid = false) ∧
    computeEstimate snapshot ord minFee now = recommendedTiers (ownHistogram snapshot) minFee now := by
  have hroot' := fun u => parents_of_parentless (hroot u)
  refine ⟨fun i => ?_, fun i => ?_, fun s hs item rest hp => unused_of_pop_parentless hroot' hs hp, ?_⟩
  · exact ((mem_projectWith_iff ord (snapshotToGbt snapshot) defaultLimits i).2
      (used_of_parentless hroot' ord defaultLimits i)).1
  · rw [project, effectiveRates_of_parentless hroot' ord defaultLimits i]
    rfl
  · rw [computeEstimate, rateWeights_of_parentless hroot]

/-- Two lone transactions, of which the second spends a confirmed output. -/
def loneSnapshot : List SnapshotTx := [⟨10, 1000, 400, []⟩, ⟨11, 2000, 4000000, [9]⟩]

theorem independent_estimate_lone :
    (∀ i, ∃ b ∈ (project (.ascending _) (snapshotToGbt loneSnapshot)).blocks, i ∈ b) ∧
    (∀ i, (project (.ascending _) (snapshotToGbt loneSnapshot)).effectiveRates i = some (ownRate loneSnapshot i)) ∧
    (∀ s, LoopHead (.ascending _) (snapshotToGbt loneSnapshot) defaultLimits s →
      ∀ item rest, s.heap.pop = some (item, rest) → s.used item.uid = false) ∧
    computeEstimate loneSnapshot (.ascending _) 1 0 = recommendedTiers (ownHistogram loneSnapshot) 1 0 :=
  independent_estimate loneSnapshot (by decide) (.ascending _) 1 0

/-- **Without packages arrivals, fee bumps and a higher floor never lower a tier.** -/
theorem independent_estimate_mono (s s' : List SnapshotTx) (hroot : ∀ i, Parentless s i) (hroot' : ∀ i, Parentless s' i)
    (kept : Fin s.length → Fin s'.length) (hkept : Function.Injective kept)
    (hbid : ∀ i, ownRate s i ≤ ownRate s' (kept i)) (hweight : ∀ i, (s.get i).weight ≤ (s'.get (kept i)).weight)
    (ord : HashOrder s.length) (ord' : HashOrder s'.length) (minFee minFee' : ℚ) (hfloor : minFee ≤ minFee')
    (now now' : ℕ) :
    (computeEstimate s ord minFee now).nextBlock ≤ (computeEstimate s' ord' minFee' now').nextBlock ∧
    (computeEstimate s ord minFee now).within3Blocks ≤ (computeEstimate s' ord' minFee' now').within3Blocks ∧
    (computeEstimate s ord minFee now).within6Blocks ≤ (computeEstimate s' ord' minFee' now').within6Blocks ∧
    (computeEstimate s ord minFee now).horizon ≤ (computeEstimate s' ord' minFee' now').horizon := by
  have houtbids := ownHistogram_outbids hkept hbid hweight
  rw [computeEstimate, computeEstimate, rateWeights_of_parentless hroot, rateWeights_of_parentless hroot']
  exact ⟨tierAtDepth_mono houtbids hfloor (show 0 < fastestDepth by decide),
    tierAtDepth_mono houtbids hfloor (show 0 < halfHourDepth by decide),
    tierAtDepth_mono houtbids hfloor (show 0 < hourDepth by decide),
    tierAtDepth_mono houtbids hfloor (show 0 < economyDepth by decide)⟩

/-- The second bids more, and a third arrives between them. -/
def bumpedSnapshot : List SnapshotTx := [⟨10, 1000, 400, []⟩, ⟨12, 500, 600, []⟩, ⟨11, 3000, 4000000, [9]⟩]

def bumpedKept (i : Fin loneSnapshot.length) : Fin bumpedSnapshot.length :=
  if i.val = 0 then ⟨0, by decide⟩ else ⟨2, by decide⟩

theorem independent_estimate_mono_bumped :
    (computeEstimate loneSnapshot (.ascending _) 1 0).nextBlock ≤
      (computeEstimate bumpedSnapshot (.ascending _) 2 5).nextBlock ∧
    (computeEstimate loneSnapshot (.ascending _) 1 0).within3Blocks ≤
      (computeEstimate bumpedSnapshot (.ascending _) 2 5).within3Blocks ∧
    (computeEstimate loneSnapshot (.ascending _) 1 0).within6Blocks ≤
      (computeEstimate bumpedSnapshot (.ascending _) 2 5).within6Blocks ∧
    (computeEstimate loneSnapshot (.ascending _) 1 0).horizon ≤
      (computeEstimate bumpedSnapshot (.ascending _) 2 5).horizon :=
  independent_estimate_mono loneSnapshot bumpedSnapshot (by decide) (by decide) bumpedKept (by decide) (by decide +kernel)
    (by decide) (.ascending _) (.ascending _) 1 2 (by norm_num) 0 5

end Fees
end Satya
