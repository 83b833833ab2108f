import Satya.FeesView
import Satya.SyncHonesty
/-!
# SyncReload — incremental sync against a full reload

A cached transaction keeps the `depends` it was fetched with, while the node's is live.  Filtered to what is listed, the
two agree unless a parent enters the mempool after its child was cached, as a reorg makes it do (`reload_agrees_iff`).
-/
namespace Satya
namespace Sync

open Fees (GbtView gbtView viewOf gbtView_eq_iff)

/-! ## What the node answers -/

/-- What is fixed about each transaction. -/
structure TxFacts where
  fee : Txid → ℕ
  weight : Txid → ℕ
  parents : Txid → Finset Txid

namespace TxFacts

/-- The node's entry for `x` while its mempool is `pool`. -/
structure Reflects (facts : TxFacts) (pool : Finset Txid) (x : Txid) (entry : MempoolEntry) : Prop where
  fee : entry.fees.base = facts.fee x
  weight : (MempoolTx.ofEntry entry).weight = facts.weight x
  depends : ∀ p, p ∈ entry.depends ↔ p ∈ facts.parents x ∧ p ∈ pool

/-- A verbose dump of the mempool `pool`. -/
structure Dumps (facts : TxFacts) (pool : Finset Txid) (entries : List (Txid × MempoolEntry)) : Prop where
  txids : (entries.map Prod.fst).toFinset = pool
  entry : ∀ x entry, (x, entry) ∈ entries → facts.Reflects pool x entry

/-- Every reply within a tick reflects the mempool `pool`, errors aside. -/
structure Answers (facts : TxFacts) (pool : Finset Txid) (env : TickEnv) : Prop where
  txids : ∀ txids, env.txids = .ok txids → txids.toFinset = pool
  entry : ∀ x ∈ pool, ∀ found, env.entry x = .ok found → ∃ entry, found = some entry ∧ facts.Reflects pool x entry
  bulk : ∀ entries, env.bulk.verbose = .ok entries → facts.Dumps pool entries

/-- The initial load reflects `pool 0`, the tick at index `k` reflects `pool (k + 1)`. -/
structure AnswersRun (facts : TxFacts) (pool : ℕ → Finset Txid) (env : StartupEnv) (ticks : List TickEnv) : Prop where
  loads : ∀ load ∈ env.loads, ∀ entries, load.bulk.verbose = .ok entries → facts.Dumps (pool 0) entries
  ticks : ∀ k tick, ticks[k]? = some tick → facts.Answers (pool (k + 1)) tick

/-! ## What the cache holds -/

/-- A cached transaction as it was fetched while the node's mempool was `pool`. -/
structure Frozen (facts : TxFacts) (pool : Finset Txid) (x : Txid) (tx : MempoolTx) : Prop where
  listed : x ∈ pool
  fee : tx.fee = facts.fee x
  weight : tx.weight = facts.weight x
  depends : ∀ p, p ∈ tx.depends ↔ p ∈ facts.parents x ∧ p ∈ pool

/-- Every cached transaction is as it was fetched from one of the mempools up to `n`. -/
def FrozenBy (facts : TxFacts) (pool : ℕ → Finset Txid) (n : ℕ) (txs : TxCache) : Prop :=
  ∀ x tx, txs.lookup x = some tx → ∃ k ≤ n, facts.Frozen (pool k) x tx

/-- Every cached transaction that is in `pool` was fetched with each of its parents that are in `pool`. -/
def NoLateParent (facts : TxFacts) (pool : Finset Txid) (txs : TxCache) : Prop :=
  ∀ x tx, txs.lookup x = some tx → x ∈ pool → ∀ p ∈ facts.parents x, p ∈ pool → p ∈ tx.depends

/-- No transaction of the `n`-th mempool has a parent there that entered after it. -/
def ParentsFirst (facts : TxFacts) (pool : ℕ → Finset Txid) (n : ℕ) : Prop :=
  ∀ k < n, ∀ x ∈ pool k, x ∈ pool n → ∀ p ∈ facts.parents x, p ∈ pool n → p ∈ pool k

variable {facts : TxFacts} {pool : Finset Txid}

theorem Reflects.frozen {x : Txid} {entry : MempoolEntry} (h : facts.Reflects pool x entry) (hx : x ∈ pool) :
    facts.Frozen pool x (MempoolTx.ofEntry entry) :=
  ⟨hx, h.fee, h.weight, h.depends⟩

theorem Dumps.keys {entries : List (Txid × MempoolEntry)} (h : facts.Dumps pool entries) :
    (collectDump entries).keys = pool :=
  (keys_collectDump entries).trans h.txids

theorem Dumps.frozen {entries : List (Txid × MempoolEntry)} (h : facts.Dumps pool entries) {x : Txid} {tx : MempoolTx}
    (hx : (collectDump entries).lookup x = some tx) : facts.Frozen pool x tx := by
  obtain ⟨entry, hentry, rfl⟩ := lookup_collectDump hx
  refine (h.entry x entry hentry).frozen ?_
  rw [← h.keys]
  exact Finmap.mem_keys.2 (Finmap.mem_of_lookup_eq_some hx)

theorem Frozen.parents {pool' : Finset Txid} {x : Txid} {tx : MempoolTx} (h : facts.Frozen pool' x tx) :
    tx.depends.toFinset ∩ pool = facts.parents x ∩ pool ↔ ∀ p ∈ facts.parents x, p ∈ pool → p ∈ tx.depends := by
  constructor
  · intro heq p hp hpool
    have hmem : p ∈ tx.depends.toFinset ∩ pool := heq ▸ Finset.mem_inter.2 ⟨hp, hpool⟩
    exact List.mem_toFinset.1 (Finset.mem_inter.1 hmem).1
  · intro hall
    ext p
    rw [Finset.mem_inter, Finset.mem_inter, List.mem_toFinset]
    exact ⟨fun ⟨hd, hpool⟩ => ⟨((h.depends p).1 hd).1, hpool⟩, fun ⟨hp, hpool⟩ => ⟨hall p hp hpool, hpool⟩⟩

def view (facts : TxFacts) (pool : Finset Txid) (x : Txid) : GbtView :=
  ⟨x, facts.fee x, facts.weight x, facts.parents x ∩ pool⟩

theorem Frozen.viewOf_eq_iff {pool' : Finset Txid} {x : Txid} {tx : MempoolTx} (h : facts.Frozen pool' x tx) :
    viewOf pool x tx = facts.view pool x ↔ ∀ p ∈ facts.parents x, p ∈ pool → p ∈ tx.depends := by
  rw [← h.parents, viewOf, view, h.fee, h.weight, GbtView.mk.injEq]
  simp only [true_and]

/-- **A cache of what the node holds looks reloaded** exactly when no cached transaction misses a parent. -/
theorem Dumps.gbtView_eq_iff {dump : List (Txid × MempoolEntry)} (hdump : facts.Dumps pool dump) {txs : TxCache}
    (hkeys : txs.keys = pool) (hfrozen : ∀ x tx, txs.lookup x = some tx → ∃ pool', facts.Frozen pool' x tx)
    (ord ord' : SetOrder Txid) :
    gbtView (snapshotRows ord txs) = gbtView (snapshotRows ord' (collectDump dump)) ↔ facts.NoLateParent pool txs := by
  rw [Fees.gbtView_eq_iff, hdump.keys, hkeys]
  have hone : ∀ x tx, txs.lookup x = some tx → ((txs.lookup x).map (viewOf pool x) =
      ((collectDump dump).lookup x).map (viewOf pool x) ↔ ∀ p ∈ facts.parents x, p ∈ pool → p ∈ tx.depends) := by
    intro x tx htx
    have hx : x ∈ (collectDump dump).keys := by
      rw [hdump.keys, ← hkeys]
      exact Finmap.mem_keys.2 (Finmap.mem_of_lookup_eq_some htx)
    obtain ⟨tx', htx'⟩ := Finmap.mem_iff.1 (Finmap.mem_keys.1 hx)
    have hfresh := hdump.frozen htx'
    obtain ⟨pool', hold⟩ := hfrozen x tx htx
    have hview : viewOf pool x tx' = facts.view pool x :=
      hfresh.viewOf_eq_iff.2 (fun p hp hpool => (hfresh.depends p).2 ⟨hp, hpool⟩)
    rw [htx, htx', Option.map_some, Option.map_some, Option.some.injEq, hview]
    exact hold.viewOf_eq_iff
  constructor
  · rintro ⟨-, hall⟩ x tx htx hx
    exact (hone x tx htx).1 (hall x hx)
  · intro hall
    refine ⟨rfl, fun x hx => ?_⟩
    rw [← hkeys, Finmap.mem_keys] at hx
    obtain ⟨tx, htx⟩ := Finmap.mem_iff.1 hx
    refine (hone x tx htx).2 (hall x tx htx ?_)
    rw [← hkeys]
    exact Finmap.mem_keys.2 hx

end TxFacts

/-! ## A tick -/

/-- **What a tick does to the cache**: nothing, a reload, or the removals and insertions of the incremental path. -/
theorem steadyTick_txs (cfg : SyncConfig) (env : TickEnv) (t : Task) :
    ((steadyTick cfg env t).shared.txs = t.shared.txs ∧ (steadyTick cfg env t).shared.caughtUp = false) ∨
      (Resyncs env t ∧ ∃ entries, env.bulk.verbose = .ok entries ∧
        (steadyTick cfg env t).shared.txs = collectDump entries) ∨
      (∃ txids, Increments env t txids ∧ (steadyTick cfg env t).shared.txs = tickTxs cfg env t txids.toFinset ∧
        (steadyTick cfg env t).shared.caughtUp = !tickBacklog cfg env t txids.toFinset) := by
  have hpath := steadyTick_path cfg env t
  generalize steadyTick cfg env t = t' at hpath
  cases hpath with
  | infoFailed e _ => exact Or.inl ⟨rfl, rfl⟩
  | txidsFailed info e _ _ => exact Or.inl ⟨rfl, rfl⟩
  | waits info txids reason _ _ _ => exact Or.inl ⟨rfl, rfl⟩
  | resyncs info txids reason hi ht hd =>
    by_cases h : ∃ entries info tip, env.bulk.verbose = .ok entries ∧ env.bulk.info = .ok info ∧
      env.bulk.tip = .ok tip
    · obtain ⟨entries, info', tip, hv, hbi, hbt⟩ := h
      exact Or.inr (Or.inl ⟨⟨info, txids, reason, hi, ht, hd⟩, entries, hv, (resyncTick_loaded cfg hv hbi hbt).1⟩)
    · rw [(resyncTick_failed cfg h).1]
      exact Or.inl ⟨rfl, rfl⟩
  | increments info txids hi ht hd =>
    obtain ⟨htxs, hc, -⟩ := incrementalTick_shared cfg env info txids.toFinset (listed env t)
    exact Or.inr (Or.inr ⟨txids, ⟨info, hi, ht, hd⟩, htxs, hc⟩)

namespace TxFacts

variable {facts : TxFacts} {pool : ℕ → Finset Txid} {cfg : SyncConfig}

theorem Answers.frozen {M : Finset Txid} {env : TickEnv} (h : facts.Answers M env) {x : Txid} {entry : MempoolEntry}
    (hx : x ∈ M) (he : env.entry x = .ok (some entry)) : facts.Frozen M x (MempoolTx.ofEntry entry) := by
  obtain ⟨entry', heq, hr⟩ := h.entry x hx _ he
  cases heq
  exact hr.frozen hx

theorem mem_of_received {env : TickEnv} {t : Task} {M : Finset Txid} {x : Txid} (h : x ∈ received cfg env t M) :
    x ∈ M :=
  (mem_newTxids.1 (mem_newTxids_of_received h)).1

/-- **One tick keeps the invariant.** -/
theorem FrozenBy.steadyTick (cfg : SyncConfig) {n : ℕ} {t : Task} {env : TickEnv} (henv : facts.Answers (pool (n + 1)) env)
    (h : facts.FrozenBy pool n t.shared.txs) : facts.FrozenBy pool (n + 1) (steadyTick cfg env t).shared.txs := by
  have hold : facts.FrozenBy pool (n + 1) t.shared.txs := by
    intro x tx hx
    obtain ⟨k, hk, hf⟩ := h x tx hx
    exact ⟨k, Nat.le_succ_of_le hk, hf⟩
  rcases steadyTick_txs cfg env t with ⟨htxs, -⟩ | ⟨-, entries, hv, htxs⟩ | ⟨txids, hinc, htxs, -⟩
  · rw [htxs]
    exact hold
  · rw [htxs]
    exact fun x tx hx => ⟨n + 1, le_rfl, (henv.bulk entries hv).frozen hx⟩
  · obtain ⟨-, -, ht, -⟩ := hinc
    rw [htxs, henv.txids txids ht]
    intro x tx hx
    rcases lookup_tickTxs hx with ⟨hrec, entry, he, rfl⟩ | ⟨-, hx⟩
    · exact ⟨n + 1, le_rfl, henv.frozen (mem_of_received hrec) he⟩
    · exact hold x tx hx

/-- **A caught-up tick that does not resync holds what the node holds**, and misses a parent exactly when the cache
before it does. -/
theorem Answers.caughtUp {M : Finset Txid} {t : Task} {env : TickEnv} (henv : facts.Answers M env)
    (hc : (Sync.steadyTick cfg env t).shared.caughtUp = true) (hr : ¬ Resyncs env t) :
    (Sync.steadyTick cfg env t).shared.txs.keys = M ∧
      (facts.NoLateParent M (Sync.steadyTick cfg env t).shared.txs ↔ facts.NoLateParent M t.shared.txs) := by
  rcases steadyTick_txs cfg env t with ⟨-, hc'⟩ | ⟨hr', -⟩ | ⟨txids, hinc, htxs, hc'⟩
  · rw [hc] at hc'
    cases hc'
  · exact absurd hr' hr
  · obtain ⟨-, -, ht, -⟩ := hinc
    rw [hc, henv.txids txids ht, Bool.true_eq, Bool.not_eq_true'] at hc'
    rw [htxs, henv.txids txids ht]
    refine ⟨?_, fun h x tx hx hM => ?_, fun h x tx hx hM => ?_⟩
    · ext x
      rw [mem_keys_tickTxs_of_not_backlog hc', and_iff_left_iff_imp]
      rintro hM ⟨-, he⟩
      obtain ⟨entry, heq, -⟩ := henv.entry x hM _ he
      cases heq
    · refine h x tx ?_ hM
      rw [lookup_tickTxs_of_cached (Finmap.mem_keys.2 (Finmap.mem_of_lookup_eq_some hx)) hM]
      exact hx
    · rcases lookup_tickTxs hx with ⟨hrec, entry, he, rfl⟩ | ⟨-, hx⟩
      · exact fun p hp hpM => ((henv.frozen (mem_of_received hrec) he).depends p).2 ⟨hp, hpM⟩
      · exact h x tx hx hM

end TxFacts

/-! ## A run -/

theorem waitUntilMempoolLoaded_shared : ∀ (infos : List (Except RpcError MempoolInfo)) (t : Task),
    (waitUntilMempoolLoaded infos t).2.shared = t.shared
  | [], _ => rfl
  | r :: rs, t => by
    unfold waitUntilMempoolLoaded
    dsimp only
    split
    · rfl
    · exact waitUntilMempoolLoaded_shared rs _

/-- The initial load ends with the first dump that arrives; until then nothing is written. -/
theorem initialBulkLoad_shared : ∀ (loads : List LoadEnv) (t : Task),
    ((initialBulkLoad loads t).1 = false ∧ (initialBulkLoad loads t).2.shared = t.shared) ∨
      ((initialBulkLoad loads t).1 = true ∧ ∃ load ∈ loads, ∃ entries, load.bulk.verbose = .ok entries ∧
        (initialBulkLoad loads t).2.shared.txs = collectDump entries)
  | [], _ => Or.inl ⟨rfl, rfl⟩
  | env :: loads, t => by
    have hpath := bulkResync_path env.bulk t
    unfold initialBulkLoad
    generalize bulkResync env.bulk t = p at hpath
    have hlater : ∀ t' : Task, t'.shared = t.shared →
        ((initialBulkLoad loads t').1 = false ∧ (initialBulkLoad loads t').2.shared = t.shared) ∨
          ((initialBulkLoad loads t').1 = true ∧ ∃ load ∈ env :: loads, ∃ entries, load.bulk.verbose = .ok entries ∧
            (initialBulkLoad loads t').2.shared.txs = collectDump entries) := by
      intro t' ht'
      rcases initialBulkLoad_shared loads t' with ⟨h, hs⟩ | ⟨h, load, hl, hrest⟩
      · exact Or.inl ⟨h, hs.trans ht'⟩
      · exact Or.inr ⟨h, load, List.mem_cons_of_mem env hl, hrest⟩
    cases hpath with
    | verboseFailed e _ => exact hlater _ rfl
    | infoFailed entries e _ _ => exact hlater _ rfl
    | tipFailed entries info e _ _ _ => exact hlater _ rfl
    | loaded entries info tip hv _ _ => exact Or.inr ⟨rfl, env, List.mem_cons_self, entries, hv, rfl⟩

/-- **What startup leaves in the cache**: nothing yet, or the first dump that arrived. -/
theorem startup_shared (cfg : SyncConfig) (env : StartupEnv) (network : Network) :
    ((startup cfg env (Task.init network)).1 = false ∧
        (startup cfg env (Task.init network)).2.shared = MempoolState.new network) ∨
      ((startup cfg env (Task.init network)).1 = true ∧ ∃ load ∈ env.loads, ∃ entries,
        load.bulk.verbose = .ok entries ∧
          (startup cfg env (Task.init network)).2.shared.txs = collectDump entries) := by
  have hwait := waitUntilMempoolLoaded_shared env.infos (Task.init network)
  unfold startup
  split
  · next t heq =>
    rw [heq] at hwait
    exact Or.inl ⟨rfl, hwait⟩
  · next t heq =>
    rw [heq] at hwait
    have hload := initialBulkLoad_shared env.loads t
    split
    · next t' heq' =>
      rw [heq'] at hload
      rcases hload with ⟨-, hs⟩ | ⟨h, -⟩
      · exact Or.inl ⟨rfl, hs.trans hwait⟩
      · cases h
    · next t' heq' =>
      rw [heq'] at hload
      rcases hload with ⟨h, -⟩ | ⟨-, load, hl, entries, hv, htxs⟩
      · cases h
      · exact Or.inr ⟨rfl, load, hl, entries, hv, by rw [maybeRecomputeFees_txs]; exact htxs⟩

theorem run_of_startup (cfg : SyncConfig) (network : Network) (env : StartupEnv) (ticks : List TickEnv) :
    run cfg network env ticks = if (startup cfg env (Task.init network)).1
      then steadyRun cfg ticks (startup cfg env (Task.init network)).2 else (startup cfg env (Task.init network)).2 := by
  unfold run
  split <;> simp [*]

/-- A run that has caught up has started, so its last tick is a steady tick. -/
theorem run_concat (cfg : SyncConfig) (network : Network) (env : StartupEnv) (ticks : List TickEnv) (tick : TickEnv)
    (hc : (run cfg network env (ticks ++ [tick])).shared.caughtUp = true) :
    run cfg network env (ticks ++ [tick]) = steadyTick cfg tick (run cfg network env ticks) := by
  rw [run_of_startup] at hc
  rw [run_of_startup, run_of_startup cfg network env ticks]
  rcases startup_shared cfg env network with ⟨h, hs⟩ | ⟨h, -⟩
  · rw [h, if_neg Bool.false_ne_true, hs] at hc
    cases hc
  · rw [h, if_pos rfl, if_pos rfl, steadyRun, List.foldl_concat]
    rfl

namespace TxFacts

variable {facts : TxFacts} {pool : ℕ → Finset Txid} {cfg : SyncConfig}

theorem FrozenBy.steadyRun : ∀ {ticks : List TickEnv} {n : ℕ} {t : Task},
    (∀ k tick, ticks[k]? = some tick → facts.Answers (pool (n + k + 1)) tick) → facts.FrozenBy pool n t.shared.txs →
      facts.FrozenBy pool (n + ticks.length) (steadyRun cfg ticks t).shared.txs
  | [], _, _, _, h => h
  | tick :: ticks, n, t, hticks, h => by
    rw [List.length_cons, Nat.add_comm ticks.length 1, ← Nat.add_assoc]
    refine FrozenBy.steadyRun (fun k tick' hk => ?_) (h.steadyTick cfg (hticks 0 tick rfl))
    rw [Nat.add_right_comm n 1 k]
    exact hticks (k + 1) tick' hk

/-- **Whatever is cached was fetched from one of the mempools so far.** -/
theorem AnswersRun.frozenBy (cfg : SyncConfig) (network : Network) {env : StartupEnv} {ticks : List TickEnv}
    (h : facts.AnswersRun pool env ticks) : facts.FrozenBy pool ticks.length (run cfg network env ticks).shared.txs := by
  rw [run_of_startup]
  rcases startup_shared cfg env network with ⟨hf, hs⟩ | ⟨ht, load, hl, entries, hv, htxs⟩
  · rw [hf, if_neg Bool.false_ne_true, hs]
    intro x tx hx
    rw [MempoolState.new, Finmap.lookup_empty] at hx
    cases hx
  · have hstart : facts.FrozenBy pool 0 (startup cfg env (Task.init network)).2.shared.txs := by
      rw [htxs]
      exact fun x tx hx => ⟨0, le_rfl, (h.loads load hl entries hv).frozen hx⟩
    rw [ht, if_pos rfl, ← Nat.zero_add ticks.length]
    exact hstart.steadyRun (fun k tick hk => by rw [Nat.zero_add]; exact h.ticks k tick hk)

theorem AnswersRun.init {env : StartupEnv} {ticks : List TickEnv} {tick : TickEnv}
    (h : facts.AnswersRun pool env (ticks ++ [tick])) : facts.AnswersRun pool env ticks :=
  ⟨h.loads, fun k tick' hk => h.ticks k tick' (by
    rw [List.getElem?_append_left (List.getElem?_eq_some_iff.1 hk).1]
    exact hk)⟩

theorem AnswersRun.last {env : StartupEnv} {ticks : List TickEnv} {tick : TickEnv}
    (h : facts.AnswersRun pool env (ticks ++ [tick])) : facts.Answers (pool (ticks.length + 1)) tick :=
  h.ticks ticks.length tick List.getElem?_concat_length

/-- A cache that holds no child older than its parent misses no parent. -/
theorem FrozenBy.noLateParent {n : ℕ} {txs : TxCache} (h : facts.FrozenBy pool n txs)
    (hfirst : facts.ParentsFirst pool (n + 1)) : facts.NoLateParent (pool (n + 1)) txs := by
  intro x tx hx hlisted p hp hpool
  obtain ⟨k, hk, hf⟩ := h x tx hx
  exact (hf.depends p).2 ⟨hp, hfirst k (Nat.lt_succ_of_le hk) x hf.listed hlisted p hp hpool⟩

end TxFacts

/-- **Incremental sync looks like a full reload exactly when it is one, or when no cached transaction misses a parent**
that is in the mempool now; none does when every parent in the mempool was there before its children. -/
theorem reload_agrees_iff (facts : TxFacts) (pool : ℕ → Finset Txid) (cfg : SyncConfig) (network : Network)
    (env : StartupEnv) (ticks : List TickEnv) (tick : TickEnv) (h : facts.AnswersRun pool env (ticks ++ [tick]))
    (hc : (run cfg network env (ticks ++ [tick])).shared.caughtUp = true) (dump : List (Txid × MempoolEntry))
    (hdump : facts.Dumps (pool (ticks.length + 1)) dump) (ord ord' : SetOrder Txid) :
    (gbtView (snapshotRows ord (run cfg network env (ticks ++ [tick])).shared.txs) =
        gbtView (snapshotRows ord' (collectDump dump)) ↔
      Resyncs tick (run cfg network env ticks) ∨
        facts.NoLateParent (pool (ticks.length + 1)) (run cfg network env ticks).shared.txs) ∧
    (facts.ParentsFirst pool (ticks.length + 1) →
      gbtView (snapshotRows ord (run cfg network env (ticks ++ [tick])).shared.txs) =
        gbtView (snapshotRows ord' (collectDump dump))) := by
  have hold := h.init.frozenBy cfg network
  have hiff : gbtView (snapshotRows ord (run cfg network env (ticks ++ [tick])).shared.txs) =
        gbtView (snapshotRows ord' (collectDump dump)) ↔
      Resyncs tick (run cfg network env ticks) ∨
        facts.NoLateParent (pool (ticks.length + 1)) (run cfg network env ticks).shared.txs := by
    have htick := run_concat cfg network env ticks tick hc
    rw [htick] at hc ⊢
    have hnew := hold.steadyTick cfg h.last
    have hframe : ∀ x tx, (steadyTick cfg tick (run cfg network env ticks)).shared.txs.lookup x = some tx →
        ∃ pool', facts.Frozen pool' x tx := by
      intro x tx hx
      obtain ⟨k, -, hf⟩ := hnew x tx hx
      exact ⟨pool k, hf⟩
    by_cases hr : Resyncs tick (run cfg network env ticks)
    · refine iff_of_true ?_ (Or.inl hr)
      rcases steadyTick_txs cfg tick (run cfg network env ticks) with ⟨-, hc'⟩ | ⟨-, entries, hv, htxs⟩ | ⟨txids, hi, -⟩
      · rw [hc] at hc'
        cases hc'
      · have hfresh := h.last.bulk entries hv
        rw [hdump.gbtView_eq_iff (by rw [htxs, hfresh.keys]) hframe, htxs]
        intro x tx hx _ p hp hpool
        exact ((hfresh.frozen hx).depends p).2 ⟨hp, hpool⟩
      · exact absurd hr hi.not_resyncs
    · obtain ⟨hkeys, hlate⟩ := h.last.caughtUp hc hr
      rw [hdump.gbtView_eq_iff hkeys hframe, hlate]
      exact (or_iff_right hr).symm
  exact ⟨hiff, fun hfirst => hiff.2 (Or.inr (hold.noLateParent hfirst))⟩

/-! ## A parent that returns -/

/-- Two transactions, of which `11` spends an output of `10`. -/
def returnFacts : TxFacts := ⟨fun _ => 1000, fun _ => 400, fun x => if x = 11 then {10} else ∅⟩

def returnPool : ℕ → Finset Txid
  | 0 => {11}
  | _ => {10, 11}

def returnEntry (depends : List Txid) : MempoolEntry := ⟨100, some 400, depends, ⟨1000, 1000, 1000⟩, 100, 100, none⟩

def returnDump : List (Txid × MempoolEntry) := [(10, returnEntry []), (11, returnEntry [10])]

def returnStartup : StartupEnv :=
  { idleStartup with loads := [⟨⟨.ok [(11, returnEntry [])], .ok ⟨some true, 1000⟩, .ok 7⟩, 0, 5⟩] }

def returnTick : TickEnv :=
  { idleEnv with
    txids := .ok [10, 11]
    entry := fun x => .ok (some (returnEntry (if x = 11 then [10] else [])))
    bulk := ⟨.ok returnDump, .ok ⟨some true, 1000⟩, .ok 7⟩ }

theorem returnDump_dumps : returnFacts.Dumps (returnPool 1) returnDump where
  txids := rfl
  entry x entry h := by
    rcases List.mem_cons.1 h with h | h
    · cases h
      exact ⟨rfl, rfl, by simp [returnEntry, returnFacts]⟩
    · cases List.mem_singleton.1 h
      exact ⟨rfl, rfl, by simp [returnEntry, returnFacts, returnPool]⟩

theorem returnRun_answered : returnFacts.AnswersRun returnPool returnStartup ([] ++ [returnTick]) where
  loads load hl entries hv := by
    cases List.mem_singleton.1 hl
    cases hv
    refine ⟨rfl, fun x entry h => ?_⟩
    cases List.mem_singleton.1 h
    exact ⟨rfl, rfl, by simp [returnEntry, returnFacts, returnPool]⟩
  ticks k tick hk := by
    obtain ⟨hlt, rfl⟩ := List.getElem?_eq_some_iff.1 hk
    obtain rfl : k = 0 := Nat.lt_one_iff.1 hlt
    refine ⟨fun txids ht => ?_, fun x hx found hf => ?_, fun entries hv => ?_⟩
    · cases ht
      rfl
    · cases hf
      refine ⟨_, rfl, rfl, rfl, fun p => ?_⟩
      by_cases h : x = 11 <;> simp +contextual [returnEntry, returnFacts, returnPool, h]
    · cases hv
      exact returnDump_dumps

theorem returnRun_caughtUp :
    (run idleConfig .bitcoin returnStartup ([] ++ [returnTick])).shared.caughtUp = true := by decide +kernel

theorem reload_agrees_iff_return :
    (gbtView (snapshotRows (.ascending Txid) (run idleConfig .bitcoin returnStartup ([] ++ [returnTick])).shared.txs) =
        gbtView (snapshotRows (.ascending Txid) (collectDump returnDump)) ↔
      Resyncs returnTick (run idleConfig .bitcoin returnStartup []) ∨
        returnFacts.NoLateParent (returnPool 1) (run idleConfig .bitcoin returnStartup []).shared.txs) ∧
    (returnFacts.ParentsFirst returnPool 1 →
      gbtView (snapshotRows (.ascending Txid) (run idleConfig .bitcoin returnStartup ([] ++ [returnTick])).shared.txs) =
        gbtView (snapshotRows (.ascending Txid) (collectDump returnDump))) :=
  reload_agrees_iff returnFacts returnPool idleConfig .bitcoin returnStartup [] returnTick returnRun_answered
    returnRun_caughtUp returnDump returnDump_dumps (.ascending Txid) (.ascending Txid)

/-- **The returned parent is missed**: the tick ends caught up, and its child has no parent. -/
theorem returnTick_misses_parent : ¬ (returnFacts.AnswersRun returnPool returnStartup ([] ++ [returnTick]) →
    (run idleConfig .bitcoin returnStartup ([] ++ [returnTick])).shared.caughtUp = true →
    returnFacts.Dumps (returnPool 1) returnDump →
    gbtView (snapshotRows (.ascending Txid) (run idleConfig .bitcoin returnStartup ([] ++ [returnTick])).shared.txs) =
      gbtView (snapshotRows (.ascending Txid) (collectDump returnDump))) := by
  intro h
  have hview := h returnRun_answered returnRun_caughtUp returnDump_dumps
  have hne : gbtView (snapshotRows (.ascending Txid)
        (run idleConfig .bitcoin returnStartup ([] ++ [returnTick])).shared.txs) ≠
      gbtView (snapshotRows (.ascending Txid) (collectDump returnDump)) := by decide +kernel
  exact hne hview

end Sync
end Satya
