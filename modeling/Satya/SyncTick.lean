import Satya.History
import Satya.Mempool
import Satya.SyncDecision
/-!
# SyncTick — the sync loop (`sync/mod.rs`)

The sync task is the only writer of the shared state.  Each function below takes the task to the task after it; every
RPC reply, decision and lock section leaves an entry in the log.  What the node answers, what the clocks read and in
which order the concurrent fetches complete is the environment's choice (`TickEnv`): any choice is allowed.
-/
namespace Satya
namespace Sync

open Fees (computeEstimate)

inductive Reply where
  | mempoolInfo (r : Except RpcError MempoolInfo)
  | rawMempoolTxids (r : Except RpcError (List Txid))
  | rawMempoolVerbose (r : Except RpcError (List (Txid × MempoolEntry)))
  | mempoolEntry (txid : Txid) (r : Except RpcError (Option MempoolEntry))
  | tipHeight (r : Except RpcError ℕ)

/-- Whether a call returned `Err`. -/
def Reply.failed : Reply → Prop
  | .mempoolInfo r => ∃ e, r = .error e
  | .rawMempoolTxids r => ∃ e, r = .error e
  | .rawMempoolVerbose r => ∃ e, r = .error e
  | .mempoolEntry _ r => ∃ e, r = .error e
  | .tipHeight r => ∃ e, r = .error e

inductive Label where
  | reply (r : Reply)
  | decided (action : DesyncAction)
  | resyncStarted (stamp : ℕ)
  | setSynced
  | removals
  | summary (size : ℕ) (backlog : Bool)
  | apply
  | bulkData
  | bulkFlags
  | snapshot
  | throttled (elapsed : ℕ)
  | estimate
  | recomputeFailed

/-- The sync task: the shared state, the two instants it threads through the ticks, and what it did so far. -/
structure Task where
  shared : MempoolState
  lastBulkResync : ℕ
  lastFeeRecompute : ℕ
  log : History Label MempoolState

/-- A step that leaves the shared state alone. -/
def Task.emit (label : Label) (t : Task) : Task := { t with log := ⟨label, t.shared⟩ :: t.log }

/-- A write-lock section. -/
def Task.write (label : Label) (f : MempoolState → MempoolState) (t : Task) : Task :=
  { t with shared := f t.shared, log := ⟨label, f t.shared⟩ :: t.log }

/-- The knobs that bear on what the loop does. -/
structure SyncConfig where
  tickBudget : ℕ
  feeRecomputeMinInterval : ℕ

/-! ## Freshness flags -/

def setSynced (synced : Bool) (t : Task) : Task := t.write .setSynced (fun g => { g with caughtUp := synced })

/-- A successful bulk resync's two flags, in one section. -/
def applyBulkSuccess (now : ℤ) (t : Task) : Task :=
  t.write .bulkFlags (fun g => { g with caughtUp := true, lastSyncOk := some now })

/-! ## The estimate -/

/-- What one call of `maybe_recompute_fees` meets: the clock at the throttle, the iteration orders of the hash maps,
when the estimate is computed (`none` when the blocking task fails), and the clock at the end. -/
structure RecomputeEnv where
  now : ℕ
  iter : SetOrder Txid
  order : ∀ n, Gbt.HashOrder n
  outcome : Option ℕ
  done : ℕ

def maybeRecomputeFees (cfg : SyncConfig) (env : RecomputeEnv) (force : Bool) (t : Task) : Task :=
  if !force && decide (env.now - t.lastFeeRecompute < cfg.feeRecomputeMinInterval) then
    t.emit (.throttled (env.now - t.lastFeeRecompute))
  else
    let snapshot := snapshotRows env.iter t.shared.txs
    let minFee := t.shared.mempoolMinFeeSatVb
    let t := t.emit .snapshot
    let t := match env.outcome with
      | some computedAt => t.write .estimate (fun g =>
          { g with feeEstimate := some (computeEstimate snapshot (env.order _) minFee computedAt) })
      | none => t.emit .recomputeFailed
    { t with lastFeeRecompute := env.done }

/-! ## Bulk resync -/

/-- The replies to the three calls of a bulk resync. -/
structure BulkEnv where
  verbose : Except RpcError (List (Txid × MempoolEntry))
  info : Except RpcError MempoolInfo
  tip : Except RpcError ℕ

/-- Replace the cache's data by the node's; the count of loaded entries, or `none` on a failed call. -/
def bulkResync (env : BulkEnv) (t : Task) : Option ℕ × Task :=
  let t := t.emit (.reply (.rawMempoolVerbose env.verbose))
  match env.verbose with
  | .error _ => (none, t)
  | .ok entries =>
    let t := t.emit (.reply (.mempoolInfo env.info))
    match env.info with
    | .error _ => (none, t)
    | .ok info =>
      let t := t.emit (.reply (.tipHeight env.tip))
      match env.tip with
      | .error _ => (none, t)
      | .ok tip =>
        (some entries.length, t.write .bulkData (fun g =>
          { g with txs := collectDump entries, mempoolMinFeeSatVb := minFeeSatVb info, tipHeight := tip }))

/-! ## Fetching the new entries -/

/-- What `fetch_new_entries` accumulates. -/
structure FetchBatch where
  fetched : List (Txid × MempoolTx)
  fetchErrors : ℕ
  resolved : ℕ

def FetchBatch.empty : FetchBatch := ⟨[], 0, 0⟩

/-- Per-result processing, for every received result. -/
def FetchBatch.process (txid : Txid) (res : Except RpcError (Option MempoolEntry)) (b : FetchBatch) : FetchBatch :=
  match res with
  | .ok (some entry) =>
    { b with fetched := b.fetched ++ [(txid, MempoolTx.ofEntry entry)], resolved := b.resolved + 1 }
  | .ok none => { b with resolved := b.resolved + 1 }
  | .error _ => { b with fetchErrors := b.fetchErrors + 1, resolved := b.resolved + 1 }

/-- What one steady tick meets.  `completion` orders the fetches by when they complete, `elapsed` is the time since the
fetch started read after a result, `ready` the number of results that are ready when the budget is exceeded. -/
structure TickEnv where
  info : Except RpcError MempoolInfo
  txids : Except RpcError (List Txid)
  decisionNow : ℕ
  resyncStamp : ℕ
  bulk : BulkEnv
  diffOrder : SetOrder Txid
  entry : Txid → Except RpcError (Option MempoolEntry)
  completion : List Txid → List Txid
  completion_perm : ∀ l, (completion l).Perm l
  elapsed : Txid → ℕ
  ready : ℕ
  tip : Except RpcError ℕ
  syncNow : ℤ
  recompute : RecomputeEnv

/-- A received `mempool_entry` result, processed. -/
def receive (env : TickEnv) (p : FetchBatch × Task) (txid : Txid) : FetchBatch × Task :=
  (p.1.process txid (env.entry txid), p.2.emit (.reply (.mempoolEntry txid (env.entry txid))))

/-- The consume loop over the completions; past the budget it drains what is ready and stops. -/
def fetchLoop (cfg : SyncConfig) (env : TickEnv) : List Txid → FetchBatch × Task → FetchBatch × Task
  | [], p => p
  | txid :: rest, p =>
    let p := receive env p txid
    if cfg.tickBudget < env.elapsed txid then (rest.take env.ready).foldl (receive env) p
    else fetchLoop cfg env rest p

structure FetchBatchResult where
  fetched : List (Txid × MempoolTx)
  fetchErrors : ℕ
  incomplete : Bool

def fetchNewEntries (cfg : SyncConfig) (env : TickEnv) (newTxids : List Txid) (maxPerTick : ℕ) (t : Task) :
    FetchBatchResult × Task :=
  let candidates := newTxids.take maxPerTick
  let p := fetchLoop cfg env (env.completion candidates) (FetchBatch.empty, t)
  (⟨p.1.fetched, p.1.fetchErrors, decide (p.1.resolved < candidates.length)⟩, p.2)

/-! ## The steady tick -/

/-- The removals: the node's txid list is authoritative, so they do not wait for the fetches. -/
def removeGone (gone : List Txid) (t : Task) : Task :=
  t.write .removals (fun g => { g with txs := removeAll g.txs gone })

/-- The section that applies an incremental tick: the fetched entries, the floor, the tip and the two flags. -/
def applyTick (env : TickEnv) (info : MempoolInfo) (fetched : List (Txid × MempoolTx)) (backlog : Bool) (t : Task) :
    Task :=
  t.write .apply (fun g =>
    { g with
      txs := insertAll g.txs fetched
      mempoolMinFeeSatVb := minFeeSatVb info
      -- `tip_height().await.ok()`: a failed call leaves the old height
      tipHeight := match env.tip with
        | .ok h => h
        | .error _ => g.tipHeight
      caughtUp := !backlog
      lastSyncOk := if backlog then g.lastSyncOk else some env.syncNow })

/-- The incremental path: removals, fetches, one applying section, and a throttled recompute when caught up. -/
def incrementalTick (cfg : SyncConfig) (env : TickEnv) (info : MempoolInfo) (nodeTxids : Finset Txid) (t : Task) :
    Task :=
  let cacheLen := t.shared.txs.keys.card
  let diff := computeDiff env.diffOrder t.shared.txs.keys nodeTxids
  let (res, t) := fetchNewEntries cfg env diff.new maxNewFetchPerTick (removeGone diff.gone t)
  let t := t.emit (.reply (.tipHeight env.tip))
  let backlog := isBacklog diff.new.length maxNewFetchPerTick res.fetchErrors res.incomplete
  let t := t.emit (.summary (projectedMempoolSize cacheLen diff.gone.length res.fetched.length) backlog)
  let t := applyTick env info res.fetched backlog t
  if backlog then t else maybeRecomputeFees cfg env.recompute false t

/-- The bulk resync of a steady tick, stamped before it starts. -/
def resyncTick (cfg : SyncConfig) (env : TickEnv) (t : Task) : Task :=
  let t := { t with lastBulkResync := env.resyncStamp }.emit (.resyncStarted env.resyncStamp)
  match bulkResync env.bulk t with
  | (some _, t) => maybeRecomputeFees cfg env.recompute true (applyBulkSuccess env.syncNow t)
  | (none, t) => setSynced false t

def steadyTick (cfg : SyncConfig) (env : TickEnv) (t : Task) : Task :=
  let t := t.emit (.reply (.mempoolInfo env.info))
  match env.info with
  | .error _ => setSynced false t
  | .ok info =>
    let t := t.emit (.reply (.rawMempoolTxids env.txids))
    match env.txids with
    | .error _ => setSynced false t
    | .ok txids =>
      let nodeTxids := txids.toFinset
      let coolingDown := resyncCoolingDown (some t.lastBulkResync) env.decisionNow
      -- older nodes do not report `loaded`; that counts as loaded
      match decideDesync (info.loaded.getD true) t.shared.txs.keys.card nodeTxids.card coolingDown with
      | some (.waitCooldown reason) => setSynced false (t.emit (.decided (.waitCooldown reason)))
      | some (.bulkResync reason) => resyncTick cfg env (t.emit (.decided (.bulkResync reason)))
      | none => incrementalTick cfg env info nodeTxids t

/-! ## Startup and runs -/

/-- One attempt of the initial bulk load, with the clocks read after it. -/
structure LoadEnv where
  bulk : BulkEnv
  stamp : ℕ
  syncNow : ℤ

/-- What startup meets: the `mempool_info` replies, the bulk attempts, the clocks that backdate the recompute timer, and
the first recompute. -/
structure StartupEnv where
  infos : List (Except RpcError MempoolInfo)
  loads : List LoadEnv
  now : ℕ
  fallback : ℕ
  recompute : RecomputeEnv

def reportsLoaded : Except RpcError MempoolInfo → Bool
  | .ok info => info.loaded.getD true
  | .error _ => false

/-- The startup gate over the replies so far; whether it was passed. -/
def waitUntilMempoolLoaded : List (Except RpcError MempoolInfo) → Task → Bool × Task
  | [], t => (false, t)
  | r :: rs, t =>
    let t := t.emit (.reply (.mempoolInfo r))
    if reportsLoaded r then (true, t) else waitUntilMempoolLoaded rs t

/-- The initial load over the attempts so far; whether one succeeded. -/
def initialBulkLoad : List LoadEnv → Task → Bool × Task
  | [], t => (false, t)
  | env :: envs, t =>
    match bulkResync env.bulk t with
    | (some _, t) => (true, applyBulkSuccess env.syncNow { t with lastBulkResync := env.stamp })
    | (none, t) => initialBulkLoad envs t

/-- `run` up to its steady-state loop; whether the loop was reached. -/
def startup (cfg : SyncConfig) (env : StartupEnv) (t : Task) : Bool × Task :=
  match waitUntilMempoolLoaded env.infos t with
  | (false, t) => (false, t)
  | (true, t) =>
    match initialBulkLoad env.loads t with
    | (false, t) => (false, t)
    | (true, t) =>
      let backdated := if cfg.feeRecomputeMinInterval ≤ env.now then env.now - cfg.feeRecomputeMinInterval
        else env.fallback
      (true, maybeRecomputeFees cfg env.recompute true { t with lastFeeRecompute := backdated })

def Task.init (network : Network) : Task := ⟨MempoolState.new network, 0, 0, []⟩

def steadyRun (cfg : SyncConfig) (ticks : List TickEnv) (t : Task) : Task :=
  ticks.foldl (fun t env => steadyTick cfg env t) t

/-- A run of the sync loop: startup, then one steady tick after another. -/
def run (cfg : SyncConfig) (network : Network) (env : StartupEnv) (ticks : List TickEnv) : Task :=
  match startup cfg env (Task.init network) with
  | (false, t) => t
  | (true, t) => steadyRun cfg ticks t

end Sync
end Satya
