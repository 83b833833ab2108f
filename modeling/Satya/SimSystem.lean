import Satya.SimDispatch
import Satya.SimTimeline
import Satya.SyncReload
/-!
# SimSystem — the sync loop and the simulated node, interleaved

The node moves between any two calls of the loop, also within a tick.  A caught-up tick still holds what was in the
mempool throughout, nothing that was not in it, and of each transaction that is still there its fee, its weight and
those of its parents that are still there too (`interleaved_sync`).
-/
namespace Satya
namespace Sim

open Fees (gbtView viewOf gbtView_eq_iff)
open Sync (TickEnv StartupEnv SyncConfig Task Resyncs Increments steadyTick steadyRun steadyTick_txs tickTxs)

/-! ## The two parties -/

/-- Every reply of the tick is a failure, or what the node answers at some moment from `s` to `e`. -/
structure TickDuring (nodes : ℕ → MockNode) (s e : ℕ) (env : TickEnv) : Prop where
  txids : ∀ l, env.txids = .ok l → ∃ m, s ≤ m ∧ m ≤ e ∧ ∃ order, l = (nodes m).rawMempoolTxids order
  entry : ∀ x found, env.entry x = .ok found → ∃ m, s ≤ m ∧ m ≤ e ∧ found = (nodes m).entryByTxid x
  verbose : ∀ entries, env.bulk.verbose = .ok entries →
    ∃ m, s ≤ m ∧ m ≤ e ∧ ∃ order, entries = (nodes m).snapshotEntries order

/-- The loads are answered up to the moment `span 0`, the tick at index `k` from `span k` to `span (k + 1)`. -/
structure Interleaved (nodes : ℕ → MockNode) (span : ℕ → ℕ) (env : StartupEnv) (ticks : List TickEnv) : Prop where
  span_mono : Monotone span
  loads : ∀ load ∈ env.loads, ∀ entries, load.bulk.verbose = .ok entries →
    ∃ m ≤ span 0, ∃ order, entries = (nodes m).snapshotEntries order
  ticks : ∀ k tick, ticks[k]? = some tick → TickDuring nodes (span k) (span (k + 1)) tick

/-- Every cached transaction is as the node had it at some moment up to `n`. -/
def Remembers (nodes : ℕ → MockNode) (n : ℕ) (txs : TxCache) : Prop :=
  ∀ x tx, txs.lookup x = some tx →
    ∃ k ≤ n, ∃ entry, (nodes k).txs.lookup x = some entry ∧ tx = MempoolTx.ofEntry entry

variable {nodes : ℕ → MockNode} {span : ℕ → ℕ} {env : StartupEnv} {ticks : List TickEnv} {tick : TickEnv} {t : Task}
  {cfg : SyncConfig} {network : Network} {s e n : ℕ} {txs : TxCache}

/-! ## What the cache holds -/

theorem Remembers.mono (h : Remembers nodes s txs) (hle : s ≤ e) : Remembers nodes e txs := fun x tx hx =>
  let ⟨k, hk, hentry⟩ := h x tx hx
  ⟨k, hk.trans hle, hentry⟩

theorem remembers_collectDump {m : ℕ} (hm : m ≤ n) (order : SetOrder Txid) :
    Remembers nodes n (collectDump ((nodes m).snapshotEntries order)) := by
  intro x tx hx
  obtain ⟨entry, hentry, rfl⟩ := lookup_collectDump hx
  exact ⟨m, hm, entry, Rpc.mem_tableRows.1 hentry, rfl⟩

theorem keys_dump (node : MockNode) (order : SetOrder Txid) :
    (collectDump (node.snapshotEntries order)).keys = node.txs.keys := by
  ext a
  rw [keys_collectDump, MockNode.snapshotEntries, Rpc.map_fst_tableRows, List.mem_toFinset, order.mem_iff]

theorem Remembers.steadyTick (cfg : SyncConfig) (h : Remembers nodes s t.shared.txs) (hse : s ≤ e)
    (htick : TickDuring nodes s e tick) : Remembers nodes e (steadyTick cfg tick t).shared.txs := by
  rcases steadyTick_txs cfg tick t with ⟨htxs, -⟩ | ⟨-, entries, hv, htxs⟩ | ⟨txids, -, htxs, -⟩
  · rw [htxs]
    exact h.mono hse
  · obtain ⟨m, -, hm, order, rfl⟩ := htick.verbose entries hv
    rw [htxs]
    exact remembers_collectDump hm order
  · rw [htxs]
    intro x tx hx
    rcases Sync.lookup_tickTxs hx with ⟨-, entry, he, rfl⟩ | ⟨-, hx⟩
    · obtain ⟨m, -, hm, hfound⟩ := htick.entry x _ he
      exact ⟨m, hm, entry, hfound.symm, rfl⟩
    · exact (h.mono hse) x tx hx

theorem Remembers.steadyRun (hmono : Monotone span) : ∀ {ticks : List TickEnv} {n : ℕ} {t : Task},
    (∀ k tick, ticks[k]? = some tick → TickDuring nodes (span (n + k)) (span (n + k + 1)) tick) →
      Remembers nodes (span n) t.shared.txs →
        Remembers nodes (span (n + ticks.length)) (steadyRun cfg ticks t).shared.txs
  | [], _, _, _, h => h
  | tick :: ticks, n, t, hticks, h => by
    rw [List.length_cons, Nat.add_comm ticks.length 1, ← Nat.add_assoc]
    refine Remembers.steadyRun hmono (fun k tick' hk => ?_)
      (h.steadyTick cfg (hmono (Nat.le_succ n)) (hticks 0 tick rfl))
    rw [Nat.add_right_comm n 1 k]
    exact hticks (k + 1) tick' hk

/-- **Whatever is cached is what the node had at some moment.** -/
theorem Interleaved.remembers (h : Interleaved nodes span env ticks) (cfg : SyncConfig) (network : Network) :
    Remembers nodes (span ticks.length) (Sync.run cfg network env ticks).shared.txs := by
  rw [Sync.run_of_startup]
  rcases Sync.startup_shared cfg env network with ⟨hf, hs⟩ | ⟨hstarted, load, hl, entries, hv, htxs⟩
  · rw [hf, if_neg Bool.false_ne_true, hs]
    intro x tx hx
    rw [MempoolState.new, Finmap.lookup_empty] at hx
    cases hx
  · have hstart : Remembers nodes (span 0) (Sync.startup cfg env (Task.init network)).2.shared.txs := by
      obtain ⟨m, hm, order, rfl⟩ := h.loads load hl entries hv
      rw [htxs]
      exact remembers_collectDump hm order
    rw [hstarted, if_pos rfl, ← Nat.zero_add ticks.length]
    exact hstart.steadyRun h.span_mono (fun k tick hk => by rw [Nat.zero_add]; exact h.ticks k tick hk)

/-- **A caught-up tick holds what was there throughout, and only what was there.** -/
theorem TickDuring.caughtUp (h : TickDuring nodes s e tick)
    (hc : (steadyTick cfg tick t).shared.caughtUp = true) (x : Txid) :
    ((∀ m, s ≤ m → m ≤ e → x ∈ (nodes m).txs) → x ∈ (steadyTick cfg tick t).shared.txs) ∧
      (x ∈ (steadyTick cfg tick t).shared.txs → ∃ m, s ≤ m ∧ m ≤ e ∧ x ∈ (nodes m).txs) := by
  rcases steadyTick_txs cfg tick t with ⟨-, hc'⟩ | ⟨-, entries, hv, htxs⟩ | ⟨txids, ⟨-, -, ht, -⟩, htxs, hc'⟩
  · rw [hc] at hc'
    cases hc'
  · obtain ⟨m, hsm, hme, order, rfl⟩ := h.verbose entries hv
    have hmem : x ∈ (steadyTick cfg tick t).shared.txs ↔ x ∈ (nodes m).txs := by
      rw [htxs, ← Finmap.mem_keys, keys_dump, Finmap.mem_keys]
    exact ⟨fun hall => hmem.2 (hall m hsm hme), fun hx => ⟨m, hsm, hme, hmem.1 hx⟩⟩
  · obtain ⟨m, hsm, hme, order, rfl⟩ := h.txids txids ht
    rw [hc, Bool.true_eq, Bool.not_eq_true'] at hc'
    have hmem : x ∈ (steadyTick cfg tick t).shared.txs ↔ x ∈ (nodes m).txs ∧
        ¬ (x ∈ Sync.received cfg tick t ((nodes m).rawMempoolTxids order).toFinset ∧ tick.entry x = .ok none) := by
      rw [htxs, ← Finmap.mem_keys, Sync.mem_keys_tickTxs_of_not_backlog hc', List.mem_toFinset, MockNode.rawMempoolTxids,
        order.mem_iff, Finmap.mem_keys]
    refine ⟨fun hall => hmem.2 ⟨hall m hsm hme, ?_⟩, fun hx => ⟨m, hsm, hme, (hmem.1 hx).1⟩⟩
    rintro ⟨-, hvanished⟩
    obtain ⟨m', hsm', hme', hnone⟩ := h.entry x none hvanished
    exact Finmap.lookup_eq_none.1 hnone.symm (hall m' hsm' hme')

/-- A caught-up tick during which nothing entered or left holds what the node holds. -/
theorem TickDuring.keys_of_still (h : TickDuring nodes s e tick)
    (hc : (steadyTick cfg tick t).shared.caughtUp = true)
    (hstill : ∀ m, s ≤ m → m ≤ e → (nodes m).txs.keys = (nodes e).txs.keys) :
    (steadyTick cfg tick t).shared.txs.keys = (nodes e).txs.keys := by
  ext x
  rw [Finmap.mem_keys]
  constructor
  · intro hx
    obtain ⟨m, hsm, hme, hmem⟩ := (h.caughtUp hc x).2 hx
    rw [← hstill m hsm hme]
    exact Finmap.mem_keys.2 hmem
  · intro hx
    refine (h.caughtUp hc x).1 (fun m hsm hme => ?_)
    rw [← Finmap.mem_keys, hstill m hsm hme]
    exact hx

/-- What the projector reads of a cached transaction is what it would read of the node's entry. -/
theorem Remembers.current (hline : Timeline nodes) (h : Remembers nodes n txs) {m : ℕ} (hnm : n ≤ m) {x : Txid}
    {tx : MempoolTx} {entry : MempoolEntry} (hx : txs.lookup x = some tx) (he : (nodes m).txs.lookup x = some entry) :
    tx.fee = entry.fees.base ∧ tx.weight = (MempoolTx.ofEntry entry).weight ∧
      ∀ p ∈ (nodes m).txs, p ∈ tx.depends ↔ p ∈ entry.depends := by
  obtain ⟨k, hk, old, hold, rfl⟩ := h x tx hx
  obtain ⟨hdata, hdepends⟩ := hline.lasting_entry hold (hk.trans hnm) entry he
  have hbase : entry.fees.base = old.fees.base := congrArg OwnData.base hdata
  have hvsize : entry.vsize = old.vsize := congrArg OwnData.vsize hdata
  have hweight : entry.weight = old.weight := congrArg OwnData.weight hdata
  refine ⟨hbase.symm, ?_, fun p hp => ?_⟩
  · unfold MempoolTx.ofEntry
    rw [hvsize, hweight]
  · rw [hdepends, and_iff_left hp]
    rfl

/-- **A cache of what the node holds looks reloaded.** -/
theorem Remembers.reloaded (hline : Timeline nodes) (h : Remembers nodes n txs) (hkeys : txs.keys = (nodes n).txs.keys)
    (ord ord' order : SetOrder Txid) : gbtView (snapshotRows ord txs) =
      gbtView (snapshotRows ord' (collectDump ((nodes n).snapshotEntries order))) := by
  rw [gbtView_eq_iff, keys_dump, hkeys]
  refine ⟨rfl, fun x hx => ?_⟩
  have hdump : x ∈ collectDump ((nodes n).snapshotEntries order) := by rwa [← Finmap.mem_keys, keys_dump]
  obtain ⟨tx', htx'⟩ := Finmap.mem_iff.1 hdump
  obtain ⟨tx, htx⟩ := Finmap.mem_iff.1 (Finmap.mem_keys.1 (hkeys.symm ▸ hx))
  obtain ⟨entry, hentry, rfl⟩ := lookup_collectDump htx'
  have he := Rpc.mem_tableRows.1 hentry
  obtain ⟨hfee, hweight, hdepends⟩ := h.current hline (le_refl n) htx he
  have hparents : tx.depends.toFinset ∩ (nodes n).txs.keys = (MempoolTx.ofEntry entry).depends.toFinset ∩
      (nodes n).txs.keys := by
    ext p
    rw [Finset.mem_inter, Finset.mem_inter, List.mem_toFinset, List.mem_toFinset]
    exact and_congr_left (fun hp => hdepends p (Finmap.mem_keys.1 hp))
  rw [htx, htx', Option.map_some, Option.map_some, viewOf, viewOf, hparents, hweight, hfee]
  rfl

/-- **The sync loop follows the simulated node**, however the two interleave and whatever fails: after a caught-up tick
the cache holds every transaction that was in the mempool throughout the tick and none that was in it at no moment of the
tick; a cached transaction that is still in the node has the node's fee and weight, and the same parents among those
that are still in the node; and if nothing entered or left during the tick, the estimator reads a reload. -/
theorem interleaved_sync (nodes : ℕ → MockNode) (hline : Timeline nodes) (span : ℕ → ℕ) (cfg : SyncConfig)
    (network : Network) (env : StartupEnv) (ticks : List TickEnv) (tick : TickEnv)
    (h : Interleaved nodes span env (ticks ++ [tick]))
    (hc : (Sync.run cfg network env (ticks ++ [tick])).shared.caughtUp = true) :
    (∀ x, (∀ m, span ticks.length ≤ m → m ≤ span (ticks.length + 1) → x ∈ (nodes m).txs) →
      x ∈ (Sync.run cfg network env (ticks ++ [tick])).shared.txs) ∧
    (∀ x ∈ (Sync.run cfg network env (ticks ++ [tick])).shared.txs,
      ∃ m, span ticks.length ≤ m ∧ m ≤ span (ticks.length + 1) ∧ x ∈ (nodes m).txs) ∧
    (∀ x tx entry m, (Sync.run cfg network env (ticks ++ [tick])).shared.txs.lookup x = some tx →
      span (ticks.length + 1) ≤ m → (nodes m).txs.lookup x = some entry →
        tx.fee = entry.fees.base ∧ tx.weight = (MempoolTx.ofEntry entry).weight ∧
          ∀ p ∈ (nodes m).txs, p ∈ tx.depends ↔ p ∈ entry.depends) ∧
    ((∀ m, span ticks.length ≤ m → m ≤ span (ticks.length + 1) →
        (nodes m).txs.keys = (nodes (span (ticks.length + 1))).txs.keys) → ∀ ord ord' order,
      gbtView (snapshotRows ord (Sync.run cfg network env (ticks ++ [tick])).shared.txs) =
        gbtView (snapshotRows ord' (collectDump ((nodes (span (ticks.length + 1))).snapshotEntries order)))) := by
  have hremembers := h.remembers cfg network
  rw [List.length_append, List.length_singleton] at hremembers
  have hduring := h.ticks ticks.length tick List.getElem?_concat_length
  have htick := Sync.run_concat cfg network env ticks tick hc
  rw [htick] at hc hremembers ⊢
  refine ⟨fun x => (hduring.caughtUp hc x).1, fun x => (hduring.caughtUp hc x).2,
    fun x tx entry m hx hm he => hremembers.current hline hm hx he, fun hstill ord ord' order => ?_⟩
  exact hremembers.reloaded hline (hduring.keys_of_still hc hstill) ord ord' order

/-- One arrival a tick, attached to a parent if there is one. -/
def pairCfg : ChurnConfig := ⟨1, 0, ⟨5, 5⟩, 1, 2⟩

def pairCall : MockNode.Call := .advance (fun _ => SetOrder.ascending Txid) (batchDraw 8)

/-- A node of one transaction that gets a child at the first moment. -/
def pairNodes : ℕ → MockNode
  | 0 => (MockNode.run pairCfg (batchDraw 7) 1 []).getD (MockNode.empty pairCfg)
  | _ + 1 => ((MockNode.run pairCfg (batchDraw 7) 1 []).bind (fun node => node.call pairCall)).getD (MockNode.empty pairCfg)

theorem pairNodes_timeline : Timeline pairNodes where
  start := by
    refine ⟨pairCfg, batchDraw 7, 1, [], by decide +kernel, ?_⟩
    have hsome : (MockNode.run pairCfg (batchDraw 7) 1 []).isSome = true := by decide +kernel
    obtain ⟨node, hnode⟩ := Option.isSome_iff_exists.1 hsome
    rw [pairNodes, hnode]
    rfl
  step m := by
    cases m with
    | succ m => exact Or.inl rfl
    | zero =>
      refine Or.inr ⟨pairCall, by decide +kernel, ?_, ?_⟩
      · have hsome : ((MockNode.run pairCfg (batchDraw 7) 1 []).bind (fun node => node.call pairCall)).isSome = true := by
          decide +kernel
        obtain ⟨next, hnext⟩ := Option.isSome_iff_exists.1 hsome
        obtain ⟨node, hnode, hcall⟩ := Option.bind_eq_some_iff.1 hnext
        have hfirst : pairNodes 0 = node := by rw [pairNodes, hnode]; rfl
        have hsecond : pairNodes 1 = next := by rw [pairNodes, hnext]; rfl
        rw [hfirst, hsecond, hcall]
      · rintro t ⟨i, hi, rfl⟩ k hk
        have hcfg : (pairNodes 0).cfg.arrivalsPerTick = 1 := by decide +kernel
        obtain rfl : k = 0 := Nat.le_zero.1 hk
        obtain rfl : i = 0 := Nat.lt_one_iff.1 (hcfg ▸ hi)
        decide +kernel

def pairStartup : StartupEnv :=
  { Sync.idleStartup with
    loads := [⟨⟨.ok ((pairNodes 0).snapshotEntries (SetOrder.ascending Txid)), .ok ⟨some true, 1000⟩, .ok 800000⟩, 0, 5⟩] }

/-- A tick that sees the child. -/
def pairTick : TickEnv :=
  { Sync.idleEnv with
    txids := .ok ((pairNodes 1).rawMempoolTxids (SetOrder.ascending Txid))
    entry := fun x => .ok ((pairNodes 1).entryByTxid x)
    bulk := ⟨.error .http, .error .http, .error .http⟩ }

theorem pair_interleaved {span : ℕ → ℕ} (hmono : Monotone span) (hfirst : span 0 ≤ 1) (hlast : 1 ≤ span 1) :
    Interleaved pairNodes span pairStartup ([] ++ [pairTick]) where
  span_mono := hmono
  loads load hload entries hv := by
    cases List.mem_singleton.1 hload
    exact ⟨0, Nat.zero_le _, SetOrder.ascending Txid, (Except.ok.inj hv).symm⟩
  ticks k tick hk := by
    obtain ⟨hlt, rfl⟩ := List.getElem?_eq_some_iff.1 hk
    obtain rfl : k = 0 := Nat.lt_one_iff.1 hlt
    refine ⟨fun l hl => ?_, fun x found hf => ?_, fun entries hv => by cases hv⟩
    · exact ⟨1, hfirst, hlast, SetOrder.ascending Txid, (Except.ok.inj hl).symm⟩
    · exact ⟨1, hfirst, hlast, (Except.ok.inj hf).symm⟩

theorem pair_caughtUp : (Sync.run Sync.idleConfig .bitcoin pairStartup ([] ++ [pairTick])).shared.caughtUp = true := by
  decide +kernel

theorem interleaved_sync_pair : 7 ∈ (Sync.run Sync.idleConfig .bitcoin pairStartup ([] ++ [pairTick])).shared.txs := by
  refine (interleaved_sync pairNodes pairNodes_timeline id Sync.idleConfig .bitcoin pairStartup [] pairTick
    (pair_interleaved monotone_id (Nat.zero_le 1) (le_refl 1)) pair_caughtUp).1 7 (fun m _ hm => ?_)
  have hboth : 7 ∈ (pairNodes 0).txs ∧ 7 ∈ (pairNodes 1).txs := by decide +kernel
  obtain rfl | rfl : m = 0 ∨ m = 1 := by
    have hle : m ≤ 1 := hm
    omega
  · exact hboth.1
  · exact hboth.2

end Sim
end Satya
