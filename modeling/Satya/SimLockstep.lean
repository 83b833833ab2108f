import Satya.SimSystem
import Satya.SyncDrain
/-!
# SimLockstep — one churn tick, one sync tick

When the node churns between the ticks of the loop and answers every call in time, the loop stays caught up for good, as
long as the counts of the churn are not those of a backlog or of a mass drop (`steady_churn_caught_up`).
-/
namespace Satya
namespace Sim

open MockNode (Call)
open Sync (TickEnv SyncConfig Task Resyncs Serves steadyTick steadyRun isMassDrop maxNewFetchPerTick)

/-- The node churns with these draws, and the tick after it meets `env`. -/
structure Round where
  order : ℕ → SetOrder Txid
  draw : ℕ → ArrivalDraw
  env : TickEnv

/-- The node answers every call of the tick, and none is late. -/
structure ServedBy (cfg : SyncConfig) (node : MockNode) (env : TickEnv) : Prop where
  info : env.info = .ok node.mempoolInfo
  txids : ∃ order, env.txids = .ok (node.rawMempoolTxids order)
  entry : ∀ x, env.entry x = .ok (node.entryByTxid x)
  tip : env.tip = .ok node.tipHeight
  inBudget : ∀ x, env.elapsed x ≤ cfg.tickBudget

inductive Lockstep (cfg : SyncConfig) : MockNode → List Round → MockNode → Prop
  | nil (node : MockNode) : Lockstep cfg node [] node
  | cons {node next node' : MockNode} {r : Round} {rounds : List Round} :
      node.callFresh (.advance r.order r.draw) = true → node.advance r.order r.draw = some next →
      ServedBy cfg next r.env → Lockstep cfg next rounds node' → Lockstep cfg node (r :: rounds) node'

variable {cfg : SyncConfig} {node node' next : MockNode} {C : Forest} {env : TickEnv} {t : Task} {r : Round}
  {rounds : List Round}

theorem ServedBy.serves (h : ServedBy cfg node env) (hloaded : node.reloading = false) :
    Serves cfg node.txs.keys env where
  info := ⟨_, h.info, by rw [MockNode.mempoolInfo, hloaded]; rfl⟩
  txids := by
    obtain ⟨order, htxids⟩ := h.txids
    refine ⟨_, htxids, Finset.ext (fun x => ?_)⟩
    rw [List.mem_toFinset, MockNode.rawMempoolTxids, order.mem_iff]
  entry x hx := by
    obtain ⟨e, he⟩ := Finmap.mem_iff.1 (Finmap.mem_keys.1 hx)
    exact ⟨e, by rw [h.entry, MockNode.entryByTxid, he]⟩
  tip := ⟨_, h.tip⟩
  inBudget x _ := h.inBudget x

/-- No more than the arrivals of a tick are new. -/
theorem card_arrived_le (hrun : node.advance r.order r.draw = some next) :
    (next.txs.keys \ node.txs.keys).card ≤ node.cfg.arrivalsPerTick := by
  have hinherits := inherits_call (c := .advance r.order r.draw) hrun
  have hsub : next.txs.keys \ node.txs.keys ⊆ (Finset.range node.cfg.arrivalsPerTick).image (fun i => (r.draw i).raw) := by
    intro x hx
    obtain ⟨hin, hnew⟩ := Finset.mem_sdiff.1 hx
    obtain ⟨e', he'⟩ := Finmap.mem_iff.1 (Finmap.mem_keys.1 hin)
    rcases hinherits x e' he' with ⟨i, hi, hraw⟩ | ⟨e, he, -⟩
    · exact Finset.mem_image.2 ⟨i, Finset.mem_range.2 hi, hraw⟩
    · exact absurd (Finmap.mem_keys.2 (Finmap.mem_of_lookup_eq_some he)) hnew
  exact (Finset.card_le_card hsub).trans (Finset.card_image_le.trans (Finset.card_range _).le)

/-- Up to eighty more evictions than arrivals are no mass drop, whatever the size. -/
theorem isMassDrop_churned {size evictions arrivals : ℕ} (h : evictions ≤ arrivals + 80) :
    isMassDrop size ((size - evictions) + arrivals) = false := by
  unfold isMassDrop Sync.massDropMinCacheSize Sync.massDropInverse
  rw [Bool.and_eq_false_iff, decide_eq_false_iff_not, decide_eq_false_iff_not]
  omega

/-- What a round leaves: the cache of the churned node, caught up, without a resync. -/
theorem Describes.round (h : Describes node C) (harrivals : node.cfg.arrivalsPerTick ≤ 2000)
    (hevictions : node.cfg.evictionsPerTick ≤ node.cfg.arrivalsPerTick + 80)
    (hfresh : node.callFresh (.advance r.order r.draw) = true) (hrun : node.advance r.order r.draw = some next)
    (hserved : ServedBy cfg next r.env) (hcache : t.shared.txs.keys = node.txs.keys) :
    (steadyTick cfg r.env t).shared.caughtUp = true ∧ (steadyTick cfg r.env t).shared.txs.keys = next.txs.keys ∧
      ¬ Resyncs r.env t := by
  obtain ⟨next', C', hrun', -, -, hcard⟩ := h.advance hfresh
  rw [hrun, Option.some.injEq] at hrun'
  subst hrun'
  have hloaded : next.reloading = false := (call_frame (c := .advance r.order r.draw) hrun).reloading
  have hdrop : isMassDrop t.shared.txs.keys.card next.txs.keys.card = false := by
    rw [hcache, hcard]
    exact isMassDrop_churned hevictions
  obtain ⟨⟨txids, hinc⟩, hsub, hmissing, hup⟩ := Sync.drain_tick (t := t) (hserved.serves hloaded) hdrop
  have hnew := (card_arrived_le hrun).trans harrivals
  rw [← hcache] at hnew
  refine ⟨hup.2 hnew, Finset.Subset.antisymm hsub ?_, hinc.not_resyncs⟩
  rw [← Finset.sdiff_eq_empty_iff_subset, ← Finset.card_eq_zero, hmissing]
  exact Nat.sub_eq_zero_of_le hnew

theorem Lockstep.caughtUp {cfg : SyncConfig} {node node' : MockNode} {rounds : List Round}
    (h : Lockstep cfg node rounds node') : ∀ {C : Forest} {t : Task}, Describes node C →
    node.cfg.arrivalsPerTick ≤ 2000 → node.cfg.evictionsPerTick ≤ node.cfg.arrivalsPerTick + 80 →
    t.shared.txs.keys = node.txs.keys →
      (rounds ≠ [] → (steadyRun cfg (rounds.map Round.env) t).shared.caughtUp = true) ∧
      (steadyRun cfg (rounds.map Round.env) t).shared.txs.keys = node'.txs.keys ∧
      ∀ pre r post, rounds = pre ++ r :: post → ¬ Resyncs r.env (steadyRun cfg (pre.map Round.env) t) := by
  induction h with
  | nil node =>
    intro C t _ _ _ hcache
    exact ⟨fun hne => absurd rfl hne, hcache, fun pre r post hs => by simp at hs⟩
  | @cons node next node' r rounds hfresh hrun hserved _ ih =>
    intro C t h harrivals hevictions hcache
    obtain ⟨hup, hkeys, hresync⟩ := h.round harrivals hevictions hfresh hrun hserved hcache
    obtain ⟨next', C', hrun', hnext, hcfg, -⟩ := h.advance hfresh
    rw [hrun, Option.some.injEq] at hrun'
    subst hrun'
    obtain ⟨hup', hkeys', hresync'⟩ := ih hnext (hcfg ▸ harrivals) (hcfg ▸ hevictions) hkeys
    refine ⟨fun _ => ?_, hkeys', fun pre r' post hs => ?_⟩
    · by_cases hnil : rounds = []
      · subst hnil
        exact hup
      · exact hup' hnil
    · cases pre with
      | nil =>
        rw [List.nil_append, List.cons.injEq] at hs
        obtain ⟨rfl, -⟩ := hs
        exact hresync
      | cons p pre =>
        rw [List.cons_append, List.cons.injEq] at hs
        obtain ⟨rfl, rfl⟩ := hs
        exact hresync' pre r' post rfl

/-- **Steady churn stays caught up**: from a cache of what a reachable node holds, over any number of rounds in which the
node churns and then answers every call in time, with at most 2000 arrivals a tick and at most 80 more evictions, every
tick ends caught up with exactly the node's transactions, and none resyncs. -/
theorem steady_churn_caught_up (churn : ChurnConfig) (draw : ℕ → ArrivalDraw) (initialSize : ℕ) (calls : List Call)
    (hfresh : MockNode.runFresh churn draw initialSize calls = true) (node : MockNode)
    (hrun : MockNode.run churn draw initialSize calls = some node) (harrivals : churn.arrivalsPerTick ≤ 2000)
    (hevictions : churn.evictionsPerTick ≤ churn.arrivalsPerTick + 80) (cfg : SyncConfig) (t : Task)
    (hcache : t.shared.txs.keys = node.txs.keys) (rounds : List Round) (hne : rounds ≠ []) (node' : MockNode)
    (hrounds : Lockstep cfg node rounds node') :
    (steadyRun cfg (rounds.map Round.env) t).shared.caughtUp = true ∧
      (steadyRun cfg (rounds.map Round.env) t).shared.txs.keys = node'.txs.keys ∧
      ∀ pre r post, rounds = pre ++ r :: post → ¬ Resyncs r.env (steadyRun cfg (pre.map Round.env) t) := by
  obtain ⟨node₀, C, hrun₀, h, hcfg⟩ := run_describes hfresh
  rw [hrun, Option.some.injEq] at hrun₀
  subst hrun₀
  obtain ⟨hup, hkeys, hresync⟩ := hrounds.caughtUp h (hcfg ▸ harrivals) (hcfg ▸ hevictions) hcache
  exact ⟨hup hne, hkeys, hresync⟩

/-- A tick that `node` answers. -/
def servedEnv (node : MockNode) : TickEnv :=
  { Sync.idleEnv with
    info := .ok node.mempoolInfo
    txids := .ok (node.rawMempoolTxids (SetOrder.ascending Txid))
    entry := fun x => .ok (node.entryByTxid x)
    tip := .ok node.tipHeight }

/-- The loop with the mempool of `node` in its cache. -/
def loadedTask (node : MockNode) : Task :=
  { Task.init .bitcoin with
    shared := { MempoolState.new .bitcoin with txs := collectDump (node.snapshotEntries (SetOrder.ascending Txid)) } }

theorem steady_churn_caught_up_batch : ∃ node node', node.txs.keys.card = 12 ∧ node'.txs.keys.card = 13 ∧
    (steadyRun Sync.idleConfig [servedEnv node'] (loadedTask node)).shared.caughtUp = true ∧
    (steadyRun Sync.idleConfig [servedEnv node'] (loadedTask node)).shared.txs.keys = node'.txs.keys := by
  have hfresh : MockNode.runFresh chainCfg (batchDraw 100) 12 [] = true := by decide +kernel
  have hcalled : (MockNode.run chainCfg (batchDraw 100) 12 []).all (fun node => decide (node.txs.keys.card = 12) &&
      node.callFresh (.advance (fun _ => SetOrder.ascending Txid) (batchDraw 200))) = true := by decide +kernel
  obtain ⟨node, C, hrun, h, hcfg⟩ := run_describes hfresh
  rw [hrun, Option.all_some, Bool.and_eq_true] at hcalled
  obtain ⟨hcard, hcall⟩ := hcalled
  obtain ⟨next, -, hnext, -, -, hsize⟩ := h.advance hcall
  have hserved : ServedBy Sync.idleConfig next (servedEnv next) :=
    ⟨rfl, ⟨SetOrder.ascending Txid, rfl⟩, fun _ => rfl, rfl, fun _ => Nat.zero_le _⟩
  obtain ⟨hup, hkeys, -⟩ := steady_churn_caught_up chainCfg (batchDraw 100) 12 [] hfresh node hrun (by decide) (by decide)
    Sync.idleConfig (loadedTask node) (keys_dump node _)
    [⟨fun _ => SetOrder.ascending Txid, batchDraw 200, servedEnv next⟩] (by simp) next
    (.cons hcall hnext hserved (.nil next))
  have hcard12 : node.txs.keys.card = 12 := by simpa using hcard
  refine ⟨node, next, hcard12, ?_, hup, hkeys⟩
  rw [hsize, hcard12, hcfg]
  rfl

end Sim
end Satya
