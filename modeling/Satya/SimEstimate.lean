import Mathlib.Algebra.BigOperators.Ring.Finset
import Mathlib.Algebra.Order.Floor.Semifield
import Satya.GbtBlocks
import Satya.MockNodeEntries
import Satya.SimSystem
import Satya.SyncSettle
/-!
# SimEstimate — the simulated node and the estimator

The node keeps the totals of each transaction's ancestors up to date with every call; the projector sums them over the
closure it builds from a dump.  They agree, and so do the two scores (`effectiveRate_mirrors`).  Behind the sync loop the
estimator serves what a dump would give (`interleaved_estimate`).
-/
namespace Satya
namespace Sim

open Fees (SnapshotTx snapshotToGbt txid_of_uidOf uidOf_isSome_iff get_txid_injective)
open Gbt (HashOrder Txs auditsOf auditsOf_closed mem_ancestors_iff packageOf packageOf_nodup mem_packageOf feeSum weightSum
  scoreOf rate)
open Relation (TransGen ReflTransGen)

/-- What the projector is given of a reload. -/
def dumpRows (node : MockNode) (iter order : SetOrder Txid) : List SnapshotTx :=
  snapshotRows iter (collectDump (node.snapshotEntries order))

variable {node : MockNode} {C : Forest} {iter order : SetOrder Txid}

/-! ## The rows of a dump -/

theorem lookup_dump {x : Txid} {tx : MempoolTx} (h : (collectDump (node.snapshotEntries order)).lookup x = some tx) :
    ∃ e, node.txs.lookup x = some e ∧ tx = MempoolTx.ofEntry e := by
  obtain ⟨entry, hentry, rfl⟩ := lookup_collectDump h
  exact ⟨entry, Rpc.mem_tableRows.1 hentry, rfl⟩

/-- A row is the entry of its txid. -/
theorem row_entry {row : SnapshotTx} (h : row ∈ dumpRows node iter order) :
    ∃ e, node.txs.lookup row.txid = some e ∧ row = rowOf row.txid (MempoolTx.ofEntry e) := by
  obtain ⟨tx, htx, hrow⟩ := mem_snapshotRows.1 h
  obtain ⟨e, he, rfl⟩ := lookup_dump htx
  exact ⟨e, he, hrow⟩

/-- A transaction of the node has a row. -/
theorem row_of_mem {x : Txid} (hx : x ∈ node.txs) : ∃ i, ((dumpRows node iter order).get i).txid = x := by
  have hkey : x ∈ collectDump (node.snapshotEntries order) := by
    rw [← Finmap.mem_keys, keys_collectDump, MockNode.snapshotEntries, Rpc.map_fst_tableRows, List.mem_toFinset,
      order.mem_iff, Finmap.mem_keys]
    exact hx
  obtain ⟨i, hi⟩ := uidOf_isSome_iff.2 (mem_txid_snapshotRows.2 (Finmap.mem_keys.2 hkey))
  exact ⟨i, txid_of_uidOf hi⟩

theorem parent_dump_iff {c p : Fin (dumpRows node iter order).length} :
    (snapshotToGbt (dumpRows node iter order)).Parent c p ↔
      node.DependsOn ((dumpRows node iter order).get c).txid ((dumpRows node iter order).get p).txid := by
  obtain ⟨e, he, hrow⟩ := row_entry (List.get_mem (dumpRows node iter order) c)
  have hdepends : ((dumpRows node iter order).get c).depends = e.depends := by rw [hrow]; rfl
  constructor
  · intro h
    obtain ⟨d, hd, hu⟩ := List.mem_filterMap.1 (show p ∈ ((snapshotToGbt _).tx c).parents from h)
    rw [hdepends] at hd
    exact ⟨e, he, txid_of_uidOf hu ▸ hd⟩
  · rintro ⟨e', he', hp⟩
    rw [he, Option.some.injEq] at he'
    subst he'
    refine List.mem_filterMap.2 ⟨_, hdepends.symm ▸ hp, ?_⟩
    obtain ⟨i, hi⟩ := uidOf_isSome_iff.2 (List.mem_map_of_mem (List.get_mem (dumpRows node iter order) p))
    rw [hi, get_txid_injective (nodup_txid_snapshotRows _ _) (txid_of_uidOf hi)]

/-- **The ancestors of a row are those of its transaction.** -/
theorem ancestor_dump_iff {u a : Fin (dumpRows node iter order).length} :
    (snapshotToGbt (dumpRows node iter order)).Ancestor u a ↔
      TransGen node.DependsOn ((dumpRows node iter order).get u).txid ((dumpRows node iter order).get a).txid := by
  constructor
  · exact fun h => TransGen.lift (fun i => ((dumpRows node iter order).get i).txid) (fun c p => parent_dump_iff.1) u a h
  · intro h
    have hrows : ∀ x, TransGen node.DependsOn ((dumpRows node iter order).get u).txid x →
        ∀ i, ((dumpRows node iter order).get i).txid = x → (snapshotToGbt (dumpRows node iter order)).Ancestor u i := by
      intro x hx
      induction hx with
      | single hux =>
        rintro i rfl
        exact TransGen.single (parent_dump_iff.2 hux)
      | tail _ hyx ih =>
        rintro i rfl
        obtain ⟨e, he, -⟩ := id hyx
        obtain ⟨j, rfl⟩ := @row_of_mem node iter order _ (Finmap.mem_of_lookup_eq_some he)
        exact (ih j rfl).tail (parent_dump_iff.2 hyx)
    exact hrows _ h a rfl

theorem Describes.acyclic_dump (h : Describes node C) (iter order : SetOrder Txid) :
    (snapshotToGbt (dumpRows node iter order)).Acyclic :=
  fun _ hu => h.truthful.acyclic_depends _ (ancestor_dump_iff.1 hu)

/-! ## Packages -/

/-- The whole package of a transaction, before anything is placed. -/
def wholePackage (ord : HashOrder (dumpRows node iter order).length) (u : Fin (dumpRows node iter order).length) :
    List (Fin (dumpRows node iter order).length) :=
  packageOf (auditsOf ord (snapshotToGbt (dumpRows node iter order))) (fun _ => false) u

theorem Describes.mem_wholePackage (h : Describes node C) {ord : HashOrder (dumpRows node iter order).length}
    {u a : Fin (dumpRows node iter order).length} : a ∈ wholePackage ord u ↔
      ReflTransGen node.DependsOn ((dumpRows node iter order).get u).txid ((dumpRows node iter order).get a).txid := by
  rw [wholePackage, mem_packageOf, mem_ancestors_iff (h.acyclic_dump iter order), ancestor_dump_iff,
    Relation.reflTransGen_iff_eq_or_transGen, and_iff_left rfl, or_comm]
  refine or_congr_left ⟨fun heq => heq ▸ rfl, fun heq => ?_⟩
  exact get_txid_injective (nodup_txid_snapshotRows _ _) heq

/-- **A sum over a package is the sum over the ancestors that the node counts.** -/
theorem Describes.sum_wholePackage (h : Describes node C) (ord : HashOrder (dumpRows node iter order).length)
    (u : Fin (dumpRows node iter order).length) (f : Txid → ℕ) :
    ((wholePackage ord u).map (fun a => f ((dumpRows node iter order).get a).txid)).sum =
      ∑ x ∈ node.withAncestors ((dumpRows node iter order).get u).txid, f x := by
  classical
  have hnodup : ((wholePackage ord u).map (fun a => ((dumpRows node iter order).get a).txid)).Nodup :=
    (packageOf_nodup (auditsOf_closed ord (h.acyclic_dump iter order)) u).map
      (fun _ _ => get_txid_injective (nodup_txid_snapshotRows _ _))
  have hset : ((wholePackage ord u).map (fun a => ((dumpRows node iter order).get a).txid)).toFinset =
      node.withAncestors ((dumpRows node iter order).get u).txid := by
    ext x
    unfold MockNode.withAncestors
    rw [List.mem_toFinset, List.mem_map, Finset.mem_filter, Finmap.mem_keys]
    constructor
    · rintro ⟨a, ha, rfl⟩
      obtain ⟨e, he, -⟩ := row_entry (List.get_mem (dumpRows node iter order) a)
      exact ⟨Finmap.mem_of_lookup_eq_some he, h.mem_wholePackage.1 ha⟩
    · rintro ⟨hx, hux⟩
      obtain ⟨a, rfl⟩ := @row_of_mem node iter order x hx
      exact ⟨a, h.mem_wholePackage.2 hux, rfl⟩
  rw [← hset, List.sum_toFinset f hnodup, List.map_map]
  rfl

/-! ## Rates -/

/-- The sizes that are drawn. -/
theorem lasting_vsize : Lasting (fun e => 110 ≤ e.vsize ∧ e.vsize ≤ 100000) where
  generated _ d := d.vsize_mem
  attached _ _ _ _ h := h
  adjusted vsize base add e h := by cases add <;> exact h
  rerooted _ h := h
  withParent _ _ h := h

/-- The integer rate of the simulator is the floor of the projector's. -/
theorem floor_rate (fee : ℕ) {vsize : ℕ} (hv : 0 < vsize) : ⌊rate fee (4 * vsize)⌋₊ = fee / max vsize 1 := by
  have hne : (vsize : ℚ) ≠ 0 := Nat.cast_ne_zero.2 hv.ne'
  have hrate : rate fee (4 * vsize) = (fee : ℚ) / (vsize : ℚ) := by
    rw [rate, if_neg (Nat.mul_ne_zero (by decide) hv.ne')]
    push_cast
    field_simp
  rw [hrate, Nat.max_eq_left hv, Nat.floor_div_eq_div]

section Reported

variable {u : Fin (dumpRows node iter order).length} {e : MempoolEntry}

/-- What the projector is told of a transaction of the node. -/
theorem Describes.told (h : Describes node C) (hsizes : AllEntries (fun e => 110 ≤ e.vsize ∧ e.vsize ≤ 100000) node.txs)
    (a : Fin (dumpRows node iter order).length) :
    ((dumpRows node iter order).get a).fee = node.baseOf ((dumpRows node iter order).get a).txid ∧
      ((dumpRows node iter order).get a).weight = 4 * node.vsizeOf ((dumpRows node iter order).get a).txid := by
  obtain ⟨e, he, hrow⟩ := row_entry (List.get_mem (dumpRows node iter order) a)
  obtain ⟨pre, x, post, -, -, heq⟩ := h.spot he
  have hsize := (hsizes _ _ he).2
  have hfee : ((dumpRows node iter order).get a).fee = e.fees.base := by rw [hrow]; rfl
  have hweight : ((dumpRows node iter order).get a).weight = min (e.vsize * 4) u32Max := by rw [hrow, heq]; rfl
  have hfits : e.vsize * 4 ≤ u32Max := by unfold u32Max; omega
  rw [hfee, hweight, MockNode.baseOf, MockNode.vsizeOf, he, Nat.min_eq_left hfits, Nat.mul_comm]
  exact ⟨rfl, rfl⟩

/-- **The totals of a package are those the node reports.** -/
theorem Describes.reported (h : Describes node C)
    (hsizes : AllEntries (fun e => 110 ≤ e.vsize ∧ e.vsize ≤ 100000) node.txs)
    (ord : HashOrder (dumpRows node iter order).length)
    (he : node.txs.lookup ((dumpRows node iter order).get u).txid = some e) :
    feeSum (auditsOf ord (snapshotToGbt (dumpRows node iter order))) (wholePackage ord u) = e.fees.ancestor ∧
      weightSum (auditsOf ord (snapshotToGbt (dumpRows node iter order))) (wholePackage ord u) = 4 * e.ancestorsize := by
  obtain ⟨hsize, hfees⟩ := h.truthful.ancestors _ e he
  have hfee : feeSum (auditsOf ord (snapshotToGbt (dumpRows node iter order))) (wholePackage ord u) =
      ((wholePackage ord u).map (fun a => node.baseOf ((dumpRows node iter order).get a).txid)).sum :=
    congrArg List.sum (List.map_congr_left (fun a _ => (h.told hsizes a).1))
  have hweight : weightSum (auditsOf ord (snapshotToGbt (dumpRows node iter order))) (wholePackage ord u) =
      ((wholePackage ord u).map (fun a => 4 * node.vsizeOf ((dumpRows node iter order).get a).txid)).sum :=
    congrArg List.sum (List.map_congr_left (fun a _ => (h.told hsizes a).2))
  rw [hfee, hweight, h.sum_wholePackage ord u node.baseOf, h.sum_wholePackage ord u (fun x => 4 * node.vsizeOf x), hfees,
    hsize, Finset.mul_sum]
  exact ⟨rfl, rfl⟩

end Reported

/-- **The simulator's score mirrors the projector's**: in every reachable node, whatever the orders of the hash maps, the
package that the projector builds for a transaction of a reload has the ancestor fee and, times four, the ancestor size
that the node reports, and the integer rate by which the node mines is the floor of the projector's score. -/
theorem effectiveRate_mirrors (cfg : ChurnConfig) (draw : ℕ → ArrivalDraw) (initialSize : ℕ) (calls : List MockNode.Call)
    (hfresh : MockNode.runFresh cfg draw initialSize calls = true) (node : MockNode)
    (hrun : MockNode.run cfg draw initialSize calls = some node) (iter order : SetOrder Txid)
    (ord : HashOrder (dumpRows node iter order).length) (u : Fin (dumpRows node iter order).length) :
    ∃ e, node.txs.lookup ((dumpRows node iter order).get u).txid = some e ∧
      feeSum (auditsOf ord (snapshotToGbt (dumpRows node iter order))) (wholePackage ord u) = e.fees.ancestor ∧
      weightSum (auditsOf ord (snapshotToGbt (dumpRows node iter order))) (wholePackage ord u) = 4 * e.ancestorsize ∧
      MockNode.effectiveRate e =
        ⌊scoreOf (auditsOf ord (snapshotToGbt (dumpRows node iter order))) (fun _ => false) u⌋₊ := by
  obtain ⟨node₀, C, hrun₀, h, -⟩ := run_describes hfresh
  rw [hrun, Option.some.injEq] at hrun₀
  subst hrun₀
  have hsizes := lasting_vsize.run hrun
  obtain ⟨e, he, -⟩ := row_entry (List.get_mem (dumpRows node iter order) u)
  obtain ⟨hfees, hweight⟩ := h.reported hsizes ord he
  obtain ⟨hfee, hown⟩ := h.told hsizes u
  have hpos : 0 < e.vsize := by
    have hsize := hsizes _ _ he
    omega
  have hpackage : 0 < e.ancestorsize := by
    obtain ⟨pre, x, post, -, -, heq⟩ := h.spot he
    rw [heq] at hpos ⊢
    exact Nat.add_pos_left hpos _
  refine ⟨e, he, hfees, hweight, ?_⟩
  have hscore : scoreOf (auditsOf ord (snapshotToGbt (dumpRows node iter order))) (fun _ => false) u =
      min (rate e.fees.base (4 * e.vsize)) (rate e.fees.ancestor (4 * e.ancestorsize)) := by
    rw [Gbt.scoreOf_eq, ← hfees, ← hweight]
    congr 2
    · rw [MockNode.baseOf, he] at hfee
      exact hfee
    · rw [MockNode.vsizeOf, he] at hown
      exact hown
  rw [hscore, Nat.floor_mono.map_min, floor_rate e.fees.base hpos, floor_rate e.fees.ancestor hpackage]
  rfl

theorem effectiveRate_mirrors_batch : ∃ node, MockNode.run chainCfg (batchDraw 100) 12 [] = some node ∧
    ∀ u : Fin (dumpRows node (SetOrder.ascending Txid) (SetOrder.ascending Txid)).length,
      ∃ e, node.txs.lookup ((dumpRows node (SetOrder.ascending Txid) (SetOrder.ascending Txid)).get u).txid = some e ∧
        feeSum (auditsOf (.ascending _) (snapshotToGbt (dumpRows node (SetOrder.ascending Txid) (SetOrder.ascending Txid))))
          (wholePackage (.ascending _) u) = e.fees.ancestor := by
  have hfresh : MockNode.runFresh chainCfg (batchDraw 100) 12 [] = true := by decide +kernel
  obtain ⟨node, -, hrun, -, -⟩ := run_describes hfresh
  refine ⟨node, hrun, fun u => ?_⟩
  obtain ⟨e, he, hfees, -, -⟩ := effectiveRate_mirrors chainCfg (batchDraw 100) 12 [] hfresh node hrun
    (SetOrder.ascending Txid) (SetOrder.ascending Txid) (.ascending _) u
  exact ⟨e, he, hfees⟩

/-! ## Behind the sync loop -/

section Interleaved

variable {nodes : ℕ → MockNode} {n : ℕ} {txs : TxCache}

theorem Timeline.minFee (h : Timeline nodes) : ∀ m, (nodes m).minFee = 1000
  | 0 => by
    obtain ⟨cfg, draw, initialSize, calls, -, hrun⟩ := h.start
    exact minFee_run hrun
  | m + 1 => by
    rcases h.step m with heq | ⟨c, -, hrun, -⟩
    · rw [heq, h.minFee m]
    · rw [minFee_call hrun, h.minFee m]

/-- An entry of the node lists at most one parent. -/
theorem Timeline.nodup_depends (h : Timeline nodes) {m : ℕ} {x : Txid} {e : MempoolEntry}
    (he : (nodes m).txs.lookup x = some e) : e.depends.Nodup := by
  obtain ⟨C, hC⟩ := h.describes m
  rcases hC.truthful.one_parent x e he with hnil | ⟨p, hp, -⟩
  · rw [hnil]
    exact List.nodup_nil
  · rw [hp]
    exact List.nodup_singleton p

end Interleaved

/-- **The sync loop serves the estimate of a reload**: however it and the simulated node interleave and whatever fails,
after a caught-up tick during which nothing entered or left, and whose recompute is due and does not fail, `/fees` answers
what the estimator computes from a dump of the node, in whatever orders the hash maps are read. -/
theorem interleaved_estimate (nodes : ℕ → MockNode) (hline : Timeline nodes) (span : ℕ → ℕ) (cfg : Sync.SyncConfig)
    (network : Network) (env : Sync.StartupEnv) (ticks : List Sync.TickEnv) (tick : Sync.TickEnv)
    (h : Interleaved nodes span env (ticks ++ [tick]))
    (hinfo : ∀ info, tick.info = .ok info ∨ tick.bulk.info = .ok info → ∃ m, info = (nodes m).mempoolInfo)
    (hc : (Sync.run cfg network env (ticks ++ [tick])).shared.caughtUp = true)
    (hstill : ∀ m, span ticks.length ≤ m → m ≤ span (ticks.length + 1) →
      (nodes m).txs.keys = (nodes (span (ticks.length + 1))).txs.keys)
    (ho : tick.recompute.outcome ≠ none)
    (hdue : ¬ Sync.Throttled cfg tick.recompute (Sync.run cfg network env ticks)) :
    ∃ computedAt, ∀ iter order ord, Http.fees (Sync.run cfg network env (ticks ++ [tick])).shared =
      some (Fees.computeEstimate (dumpRows (nodes (span (ticks.length + 1))) iter order) ord 1 computedAt) := by
  have hremembers := h.remembers cfg network
  rw [List.length_append, List.length_singleton] at hremembers
  have hduring := h.ticks ticks.length tick List.getElem?_concat_length
  have htick := Sync.run_concat cfg network env ticks tick hc
  rw [htick] at hc hremembers ⊢
  have hkeys := hduring.keys_of_still hc hstill
  have hfloor : ∀ info, tick.info = .ok info ∨ tick.bulk.info = .ok info → minFeeSatVb info = 1 := by
    intro info hi
    obtain ⟨m, rfl⟩ := hinfo info hi
    rw [minFeeSatVb, MockNode.mempoolInfo, hline.minFee m]
    norm_num
  have hcached : ∀ x tx, (Sync.steadyTick cfg tick (Sync.run cfg network env ticks)).shared.txs.lookup x = some tx →
      tx.depends.Nodup := by
    intro x tx hx
    obtain ⟨k, -, e, he, rfl⟩ := hremembers x tx hx
    exact hline.nodup_depends he
  obtain ⟨computedAt, hfees⟩ := Sync.fees_of_reloaded ho hdue hfloor hc hcached
  refine ⟨computedAt, fun iter order ord => ?_⟩
  obtain ⟨C, hC⟩ := hline.describes (span (ticks.length + 1))
  refine hfees _ (fun iter ord' => hremembers.reloaded hline hkeys iter ord' order) (fun e he => ?_)
    (fun iter => hC.acyclic_dump iter order) iter ord
  exact hline.nodup_depends (Rpc.mem_tableRows.1 he)

theorem interleaved_estimate_pair : ∃ computedAt, ∀ iter order ord,
    Http.fees (Sync.run Sync.idleConfig .bitcoin pairStartup ([] ++ [pairTick])).shared =
      some (Fees.computeEstimate (dumpRows (pairNodes 2) iter order) ord 1 computedAt) := by
  have hinfo : ∀ info, pairTick.info = .ok info ∨ pairTick.bulk.info = .ok info → ∃ m, info = (pairNodes m).mempoolInfo := by
    rintro info (hi | hi)
    · exact ⟨0, (Except.ok.inj hi).symm.trans (by decide +kernel)⟩
    · cases hi
  refine interleaved_estimate pairNodes pairNodes_timeline (fun k => k + 1) Sync.idleConfig .bitcoin pairStartup [] pairTick
    (pair_interleaved (fun _ _ h => Nat.succ_le_succ h) (le_refl 1) (by decide)) hinfo pair_caughtUp (fun m hm _ => ?_)
    (by rintro ⟨⟩) (by unfold Sync.Throttled; decide +kernel)
  obtain ⟨j, rfl⟩ := Nat.exists_eq_add_of_le' (show 1 ≤ m from hm)
  rfl

end Sim
end Satya
