import Satya.Http
import Satya.SyncTickSpec
/-!
# SyncTwin — two runs that differ in when transactions were first seen

Nothing the loop does reads `first_seen`: two runs whose nodes answer alike up to the times of their entries take the
same decisions, and at no moment does a reader tell them apart (`run_twin`, `Twin.readers`).
-/
namespace Satya
namespace Sync

/-- A cached transaction without the time it was first seen. -/
def eraseSeen (tx : MempoolTx) : MempoolTx := { tx with firstSeen := 0 }

def SameTxs (m m' : TxCache) : Prop := ∀ t, (m.lookup t).map eraseSeen = (m'.lookup t).map eraseSeen

variable {m m' : TxCache} {s s' : MempoolState} {cfg : SyncConfig}

theorem SameTxs.keys (h : SameTxs m m') : m.keys = m'.keys := by
  ext t
  have ht := congrArg Option.isSome (h t)
  rw [Option.isSome_map, Option.isSome_map, Bool.eq_iff_iff, Finmap.lookup_isSome, Finmap.lookup_isSome] at ht
  rw [Finmap.mem_keys, Finmap.mem_keys, ht]

theorem SameTxs.removeAll (h : SameTxs m m') (keys : List Txid) : SameTxs (removeAll m keys) (removeAll m' keys) := by
  intro t
  rw [lookup_removeAll, lookup_removeAll]
  split
  · rfl
  · exact h t

theorem SameTxs.insert (h : SameTxs m m') {t : Txid} {tx tx' : MempoolTx} (htx : eraseSeen tx = eraseSeen tx') :
    SameTxs (m.insert t tx) (m'.insert t tx') := by
  intro a
  by_cases hat : a = t
  · rw [hat, Finmap.lookup_insert, Finmap.lookup_insert, Option.map_some, Option.map_some, htx]
  · rw [Finmap.lookup_insert_of_ne _ hat, Finmap.lookup_insert_of_ne _ hat, h a]

/-- The same entry, up to when it was first seen. -/
def SameRow (e e' : Txid × MempoolTx) : Prop := e.1 = e'.1 ∧ eraseSeen e.2 = eraseSeen e'.2

theorem SameTxs.insertAll {l l' : List (Txid × MempoolTx)} (hl : List.Forall₂ SameRow l l') : ∀ {m m' : TxCache},
    SameTxs m m' → SameTxs (insertAll m l) (insertAll m' l') := by
  induction hl with
  | nil => exact fun h => h
  | @cons e e' l l' he _ ih =>
    intro m m' h
    show SameTxs (Satya.insertAll (m.insert e.1 e.2) l) (Satya.insertAll (m'.insert e'.1 e'.2) l')
    rw [← he.1]
    exact ih (h.insert he.2)

/-- **The estimator reads the same rows.** -/
theorem SameTxs.snapshotRows (h : SameTxs m m') (ord : SetOrder Txid) : snapshotRows ord m = snapshotRows ord m' := by
  have hrows : iterRows ord m = iterRows ord m' := by
    unfold iterRows
    rw [h.keys]
    refine List.filterMap_congr (fun t _ => ?_)
    have hrow : ∀ o : Option MempoolTx, o.map (rowOf t) = (o.map eraseSeen).map (rowOf t) := fun o => by cases o <;> rfl
    rw [hrow, h t, ← hrow]
  rw [Satya.snapshotRows, hrows, ← Satya.snapshotRows]

/-! ## States and tasks -/

/-- Two shared states that differ at most in when transactions were first seen. -/
structure Alike (s s' : MempoolState) : Prop where
  txs : SameTxs s.txs s'.txs
  rest : s' = { s with txs := s'.txs }

/-- Two tasks whose states were alike at every moment. -/
structure Twin (t t' : Task) : Prop where
  shared : Alike t.shared t'.shared
  lastBulkResync : t.lastBulkResync = t'.lastBulkResync
  lastFeeRecompute : t.lastFeeRecompute = t'.lastFeeRecompute
  log : List.Forall₂ (fun e e' => Alike e.after e'.after) t.log t'.log

theorem Alike.refl (s : MempoolState) : Alike s s := ⟨fun _ => rfl, rfl⟩

theorem Alike.withEstimate (h : Alike s s') (est : Option Fees.FeeEstimate) :
    Alike { s with feeEstimate := est } { s' with feeEstimate := est } :=
  ⟨h.txs, by rw [h.rest]⟩

theorem Alike.minFee (h : Alike s s') : s.mempoolMinFeeSatVb = s'.mempoolMinFeeSatVb := by rw [h.rest]

/-- **Both endpoints answer alike.** -/
theorem Alike.readers (h : Alike s s') (now : ℤ) : Http.health now s = Http.health now s' ∧ Http.fees s = Http.fees s' := by
  have hkeys := h.txs.keys
  constructor
  · unfold Http.health
    rw [hkeys, h.rest]
  · unfold Http.fees
    rw [h.rest]

variable {t t' : Task}

theorem Twin.emit (h : Twin t t') (label label' : Label) : Twin (t.emit label) (t'.emit label') :=
  ⟨h.shared, h.lastBulkResync, h.lastFeeRecompute, List.Forall₂.cons h.shared h.log⟩

theorem Twin.write (h : Twin t t') (label : Label) {f f' : MempoolState → MempoolState}
    (hf : Alike (f t.shared) (f' t'.shared)) : Twin (t.write label f) (t'.write label f') :=
  ⟨hf, h.lastBulkResync, h.lastFeeRecompute, List.Forall₂.cons hf h.log⟩

theorem Twin.setSynced (h : Twin t t') (synced : Bool) : Twin (setSynced synced t) (setSynced synced t') :=
  h.write _ ⟨h.shared.txs, by rw [h.shared.rest]⟩

theorem Twin.applyBulkSuccess (h : Twin t t') (now : ℤ) : Twin (applyBulkSuccess now t) (applyBulkSuccess now t') :=
  h.write _ ⟨h.shared.txs, by rw [h.shared.rest]⟩

/-- **A recompute computes the same estimate.** -/
theorem Twin.maybeRecomputeFees (h : Twin t t') (env : RecomputeEnv) (force : Bool) :
    Twin (maybeRecomputeFees cfg env force t) (maybeRecomputeFees cfg env force t') := by
  unfold Sync.maybeRecomputeFees
  rw [h.lastFeeRecompute]
  split
  · exact h.emit _ _
  · rw [h.shared.txs.snapshotRows env.iter, h.shared.minFee]
    have hsnap := h.emit .snapshot .snapshot
    dsimp only
    split
    · have hstore := hsnap.shared.withEstimate
      exact ⟨hstore _, hsnap.lastBulkResync, rfl, List.Forall₂.cons (hstore _) hsnap.log⟩
    · have hfail := hsnap.emit .recomputeFailed .recomputeFailed
      exact ⟨hfail.shared, hfail.lastBulkResync, rfl, hfail.log⟩

/-! ## Environments -/

/-- The answer to one fetch, without when the entry was first seen. -/
def seenless (r : Except RpcError (Option MempoolEntry)) : Except RpcError (Option MempoolTx) :=
  r.map (Option.map (fun e => eraseSeen (MempoolTx.ofEntry e)))

/-- Two answers to a verbose dump that load the same transactions. -/
inductive SameDump : Except RpcError (List (Txid × MempoolEntry)) → Except RpcError (List (Txid × MempoolEntry)) → Prop
  | failed (e : RpcError) : SameDump (.error e) (.error e)
  | dumped (entries entries' : List (Txid × MempoolEntry)) : entries.length = entries'.length →
      SameTxs (collectDump entries) (collectDump entries') → SameDump (.ok entries) (.ok entries')

structure TwinBulk (env env' : BulkEnv) : Prop where
  verbose : SameDump env.verbose env'.verbose
  info : env.info = env'.info
  tip : env.tip = env'.tip

/-- Two ticks that meet the same, up to the order of the txids and when the node's entries were first seen. -/
structure TwinTick (env env' : TickEnv) : Prop where
  txids : env.txids.map List.toFinset = env'.txids.map List.toFinset
  entry : ∀ x, seenless (env.entry x) = seenless (env'.entry x)
  bulk : TwinBulk env.bulk env'.bulk
  rest : env' = { env with txids := env'.txids, entry := env'.entry, bulk := env'.bulk }

structure TwinLoad (env env' : LoadEnv) : Prop where
  bulk : TwinBulk env.bulk env'.bulk
  rest : env' = { env with bulk := env'.bulk }

structure TwinStartup (env env' : StartupEnv) : Prop where
  loads : List.Forall₂ TwinLoad env.loads env'.loads
  rest : env' = { env with loads := env'.loads }

/-! ## Steps -/

theorem Twin.bulkResync (h : Twin t t') {env env' : BulkEnv} (henv : TwinBulk env env') :
    (bulkResync env t).1 = (bulkResync env' t').1 ∧ Twin (bulkResync env t).2 (bulkResync env' t').2 := by
  obtain ⟨verbose, info, tip⟩ := env
  obtain ⟨verbose', info', tip'⟩ := env'
  obtain ⟨hverbose, hinfo, htip⟩ := henv
  dsimp only at hverbose hinfo htip
  have h1 := h.emit (.reply (.rawMempoolVerbose verbose)) (.reply (.rawMempoolVerbose verbose'))
  unfold Sync.bulkResync
  rw [hinfo, htip]
  cases hverbose with
  | failed e => exact ⟨rfl, h1⟩
  | dumped entries entries' hlen htxs =>
    have h2 := h1.emit (.reply (.mempoolInfo info')) (.reply (.mempoolInfo info'))
    have h3 := h2.emit (.reply (.tipHeight tip')) (.reply (.tipHeight tip'))
    dsimp only
    split
    · exact ⟨rfl, h2⟩
    · split
      · exact ⟨rfl, h3⟩
      · refine ⟨congrArg some hlen, ?_⟩
        dsimp only
        exact h3.write _ ⟨htxs, by rw [h3.shared.rest]⟩

theorem Twin.receiveAll {env env' : TickEnv} : ∀ (l : List Txid) {t t' : Task}, Twin t t' →
    Twin (receiveAll env l t) (receiveAll env' l t')
  | [], _, _, h => h
  | _ :: l, _, _, h => Twin.receiveAll l (h.emit _ _)

section Tick

variable {env env' : TickEnv}

theorem TwinTick.completion (h : TwinTick env env') : env'.completion = env.completion := by rw [h.rest]

theorem TwinTick.consumed (h : TwinTick env env') : ∀ l : List Txid, consumed cfg env' l = consumed cfg env l
  | [] => rfl
  | x :: l => by
    have helapsed : env'.elapsed = env.elapsed := by rw [h.rest]
    have hready : env'.ready = env.ready := by rw [h.rest]
    unfold Sync.consumed
    rw [h.consumed l, helapsed, hready]

theorem TwinTick.newTxids (h : TwinTick env env') (ht : Twin t t') (pool : Finset Txid) :
    newTxids env' t' pool = newTxids env t pool := by
  unfold Sync.newTxids
  rw [← ht.shared.txs.keys, h.rest]

theorem TwinTick.goneTxids (h : TwinTick env env') (ht : Twin t t') (pool : Finset Txid) :
    goneTxids env' t' pool = goneTxids env t pool := by
  unfold Sync.goneTxids
  rw [← ht.shared.txs.keys, h.rest]

theorem TwinTick.received (h : TwinTick env env') (ht : Twin t t') (pool : Finset Txid) :
    received cfg env' t' pool = received cfg env t pool := by
  unfold Sync.received
  rw [h.newTxids ht, h.consumed, h.completion]

theorem TwinTick.fetchFailed (h : TwinTick env env') (x : Txid) : fetchFailed env' x = fetchFailed env x := by
  have hx := h.entry x
  unfold Sync.fetchFailed
  cases he : env.entry x <;> cases he' : env'.entry x <;> rw [he, he'] at hx <;> first | rfl | cases hx

/-- **The fetches bring the same transactions.** -/
theorem TwinTick.fetched (h : TwinTick env env') : ∀ l : List Txid,
    List.Forall₂ SameRow (l.filterMap (fetchedEntry env)) (l.filterMap (fetchedEntry env'))
  | [] => List.Forall₂.nil
  | x :: l => by
    have hx := h.entry x
    have hrest := h.fetched l
    unfold seenless at hx
    cases he : env.entry x with
    | error e =>
      cases he' : env'.entry x with
      | error e' =>
        rw [List.filterMap_cons_none (by rw [fetchedEntry, he]), List.filterMap_cons_none (by rw [fetchedEntry, he'])]
        exact hrest
      | ok o' => rw [he, he'] at hx; cases hx
    | ok o =>
      cases he' : env'.entry x with
      | error e' => rw [he, he'] at hx; cases hx
      | ok o' =>
        rw [he, he'] at hx
        have ho : o.map (fun e => eraseSeen (MempoolTx.ofEntry e)) = o'.map (fun e => eraseSeen (MempoolTx.ofEntry e)) :=
          Except.ok.inj hx
        cases o with
        | none =>
          cases o' with
          | none =>
            rw [List.filterMap_cons_none (by rw [fetchedEntry, he]), List.filterMap_cons_none (by rw [fetchedEntry, he'])]
            exact hrest
          | some e' => cases ho
        | some e =>
          cases o' with
          | none => cases ho
          | some e' =>
            rw [List.filterMap_cons_some (by rw [fetchedEntry, he]), List.filterMap_cons_some (by rw [fetchedEntry, he'])]
            exact List.Forall₂.cons ⟨rfl, Option.some.inj ho⟩ hrest

theorem TwinTick.tickBacklog (h : TwinTick env env') (ht : Twin t t') (pool : Finset Txid) :
    tickBacklog cfg env' t' pool = tickBacklog cfg env t pool := by
  have hfailed : Sync.fetchFailed env' = Sync.fetchFailed env := funext h.fetchFailed
  unfold Sync.tickBacklog
  rw [h.newTxids ht, h.received ht, hfailed]

theorem Twin.incrementalTick (ht : Twin t t') (h : TwinTick env env') (info : MempoolInfo) (pool : Finset Txid) :
    Twin (incrementalTick cfg env info pool t) (incrementalTick cfg env' info pool t') := by
  have htip : env'.tip = env.tip := by rw [h.rest]
  have hnow : env'.syncNow = env.syncNow := by rw [h.rest]
  have hrecompute : env'.recompute = env.recompute := by rw [h.rest]
  have hremoved : Twin (removeGone (goneTxids env t pool) t) (removeGone (goneTxids env t pool) t') :=
    ht.write _ ⟨ht.shared.txs.removeAll _, by rw [ht.shared.rest]⟩
  have hfetched : Twin (tickFetched cfg env pool t) (tickFetched cfg env' pool t') := by
    unfold tickFetched
    rw [h.received ht, h.goneTxids ht]
    exact ((Twin.receiveAll _ hremoved).emit _ _).emit _ _
  have happlied : Twin (tickApplied cfg env info pool t) (tickApplied cfg env' info pool t') := by
    unfold tickApplied applyTick
    rw [h.received ht, h.tickBacklog ht, htip, hnow]
    exact hfetched.write _ ⟨hfetched.shared.txs.insertAll (h.fetched _), by rw [hfetched.shared.rest]⟩
  rw [incrementalTick_eq, incrementalTick_eq, h.tickBacklog ht, hrecompute]
  split
  · exact happlied
  · exact happlied.maybeRecomputeFees _ _

theorem Twin.resyncTick (ht : Twin t t') (h : TwinTick env env') :
    Twin (resyncTick cfg env t) (resyncTick cfg env' t') := by
  have hstamp : env'.resyncStamp = env.resyncStamp := by rw [h.rest]
  have hnow : env'.syncNow = env.syncNow := by rw [h.rest]
  have hrecompute : env'.recompute = env.recompute := by rw [h.rest]
  unfold Sync.resyncTick
  rw [hstamp, hnow, hrecompute]
  have hstart : Twin { t with lastBulkResync := env.resyncStamp } { t' with lastBulkResync := env.resyncStamp } :=
    ⟨ht.shared, rfl, ht.lastFeeRecompute, ht.log⟩
  have hbulk := (hstart.emit (.resyncStarted env.resyncStamp) (.resyncStarted env.resyncStamp)).bulkResync h.bulk
  dsimp only
  generalize Sync.bulkResync env.bulk _ = r at hbulk ⊢
  generalize Sync.bulkResync env'.bulk _ = r' at hbulk ⊢
  obtain ⟨count, t₁⟩ := r
  obtain ⟨count', t₁'⟩ := r'
  obtain ⟨hcount, hbulk⟩ := hbulk
  obtain rfl : count = count' := hcount
  cases count with
  | some n => exact (hbulk.applyBulkSuccess _).maybeRecomputeFees _ _
  | none => exact hbulk.setSynced _

/-- **One tick keeps two runs alike.** -/
theorem Twin.steadyTick (ht : Twin t t') (h : TwinTick env env') : Twin (steadyTick cfg env t) (steadyTick cfg env' t') := by
  have hinfo : env'.info = env.info := by rw [h.rest]
  have hnow : env'.decisionNow = env.decisionNow := by rw [h.rest]
  have hstamp : ∀ label (t : Task), (t.emit label).lastBulkResync = t.lastBulkResync := fun _ _ => rfl
  have h1 := ht.emit (.reply (.mempoolInfo env.info)) (.reply (.mempoolInfo env.info))
  have h2 := h1.emit (.reply (.rawMempoolTxids env.txids)) (.reply (.rawMempoolTxids env'.txids))
  have htxids := h.txids
  unfold Sync.steadyTick
  rw [hinfo, hnow]
  simp only [emit_shared, hstamp]
  rw [← ht.shared.txs.keys, ← ht.lastBulkResync]
  split
  · exact h1.setSynced _
  · cases hl : env.txids with
    | error e =>
      rw [hl] at h2 htxids
      cases hl' : env'.txids with
      | error e' => rw [hl'] at h2; exact h2.setSynced _
      | ok txids' => rw [hl'] at htxids; cases htxids
    | ok txids =>
      rw [hl] at h2 htxids
      cases hl' : env'.txids with
      | error e' => rw [hl'] at htxids; cases htxids
      | ok txids' =>
        rw [hl'] at h2 htxids
        have hset : txids.toFinset = txids'.toFinset := Except.ok.inj htxids
        dsimp only
        rw [← hset]
        split
        · exact (h2.emit _ _).setSynced _
        · exact (h2.emit _ _).resyncTick h
        · exact h2.incrementalTick h _ _

end Tick

/-! ## Runs -/

theorem Twin.steadyRun {ticks ticks' : List TickEnv} (hticks : List.Forall₂ TwinTick ticks ticks') :
    ∀ {t t' : Task}, Twin t t' → Twin (steadyRun cfg ticks t) (steadyRun cfg ticks' t') := by
  induction hticks with
  | nil => exact fun h => h
  | cons henv _ ih => exact fun h => ih (h.steadyTick henv)

theorem Twin.waitUntilMempoolLoaded : ∀ (infos : List (Except RpcError MempoolInfo)) {t t' : Task}, Twin t t' →
    (waitUntilMempoolLoaded infos t).1 = (waitUntilMempoolLoaded infos t').1 ∧
      Twin (waitUntilMempoolLoaded infos t).2 (waitUntilMempoolLoaded infos t').2
  | [], _, _, h => ⟨rfl, h⟩
  | r :: rs, t, t', h => by
    have hr := h.emit (.reply (.mempoolInfo r)) (.reply (.mempoolInfo r))
    unfold Sync.waitUntilMempoolLoaded
    dsimp only
    split
    · exact ⟨rfl, hr⟩
    · exact Twin.waitUntilMempoolLoaded rs hr

theorem Twin.initialBulkLoad {loads loads' : List LoadEnv} (hloads : List.Forall₂ TwinLoad loads loads') :
    ∀ {t t' : Task}, Twin t t' → (initialBulkLoad loads t).1 = (initialBulkLoad loads' t').1 ∧
      Twin (initialBulkLoad loads t).2 (initialBulkLoad loads' t').2 := by
  induction hloads with
  | nil => exact fun h => ⟨rfl, h⟩
  | @cons env env' _ _ henv _ ih =>
    intro t t' h
    have hstamp : env'.stamp = env.stamp := by rw [henv.rest]
    have hnow : env'.syncNow = env.syncNow := by rw [henv.rest]
    have hbulk := h.bulkResync henv.bulk
    unfold Sync.initialBulkLoad
    rw [hstamp, hnow]
    generalize Sync.bulkResync env.bulk t = r at hbulk ⊢
    generalize Sync.bulkResync env'.bulk t' = r' at hbulk ⊢
    obtain ⟨count, t₁⟩ := r
    obtain ⟨count', t₁'⟩ := r'
    obtain ⟨hcount, hbulk⟩ := hbulk
    obtain rfl : count = count' := hcount
    cases count with
    | some n =>
      refine ⟨rfl, Twin.applyBulkSuccess ?_ _⟩
      exact ⟨hbulk.shared, rfl, hbulk.lastFeeRecompute, hbulk.log⟩
    | none => exact ih hbulk

theorem Twin.startup (h : Twin t t') {env env' : StartupEnv} (henv : TwinStartup env env') :
    (startup cfg env t).1 = (startup cfg env' t').1 ∧ Twin (startup cfg env t).2 (startup cfg env' t').2 := by
  have hinfos : env'.infos = env.infos := by rw [henv.rest]
  have hnow : env'.now = env.now := by rw [henv.rest]
  have hfallback : env'.fallback = env.fallback := by rw [henv.rest]
  have hrecompute : env'.recompute = env.recompute := by rw [henv.rest]
  have hwait := Twin.waitUntilMempoolLoaded env.infos h
  unfold Sync.startup
  rw [hinfos, hnow, hfallback, hrecompute]
  generalize Sync.waitUntilMempoolLoaded env.infos t = r at hwait ⊢
  generalize Sync.waitUntilMempoolLoaded env.infos t' = r' at hwait ⊢
  obtain ⟨passed, t₁⟩ := r
  obtain ⟨passed', t₁'⟩ := r'
  obtain ⟨hpassed, hwait⟩ := hwait
  obtain rfl : passed = passed' := hpassed
  cases passed with
  | false => exact ⟨rfl, hwait⟩
  | true =>
    have hload := Twin.initialBulkLoad henv.loads hwait
    dsimp only
    generalize Sync.initialBulkLoad env.loads t₁ = l at hload ⊢
    generalize Sync.initialBulkLoad env'.loads t₁' = l' at hload ⊢
    obtain ⟨loaded, t₂⟩ := l
    obtain ⟨loaded', t₂'⟩ := l'
    obtain ⟨hloaded, hload⟩ := hload
    obtain rfl : loaded = loaded' := hloaded
    cases loaded with
    | false => exact ⟨rfl, hload⟩
    | true =>
      refine ⟨rfl, ?_⟩
      dsimp only
      refine Twin.maybeRecomputeFees ?_ _ _
      exact ⟨hload.shared, hload.lastBulkResync, rfl, hload.log⟩

/-- **Runs against nodes that answer alike are alike at every moment.** -/
theorem run_twin (cfg : SyncConfig) (network : Network) {env env' : StartupEnv} {ticks ticks' : List TickEnv}
    (henv : TwinStartup env env') (hticks : List.Forall₂ TwinTick ticks ticks') :
    Twin (run cfg network env ticks) (run cfg network env' ticks') := by
  have hinit : Twin (Task.init network) (Task.init network) := ⟨Alike.refl _, rfl, rfl, List.Forall₂.nil⟩
  have hstart : (startup cfg env (Task.init network)).1 = (startup cfg env' (Task.init network)).1 ∧
      Twin (startup cfg env (Task.init network)).2 (startup cfg env' (Task.init network)).2 := hinit.startup henv
  unfold run
  generalize startup cfg env (Task.init network) = r at hstart ⊢
  generalize startup cfg env' (Task.init network) = r' at hstart ⊢
  obtain ⟨started, t₁⟩ := r
  obtain ⟨started', t₁'⟩ := r'
  obtain ⟨hstarted, hstart⟩ := hstart
  obtain rfl : started = started' := hstarted
  cases started with
  | false => exact hstart
  | true => exact hstart.steadyRun hticks

/-- **At no moment does a reader tell twins apart**: after as many steps, both endpoints answer the same. -/
theorem Twin.readers (h : Twin t t') (network : Network) (now : ℤ) (k : ℕ) :
    Http.health now (History.stateAt (MempoolState.new network) (t.log.drop k)) =
      Http.health now (History.stateAt (MempoolState.new network) (t'.log.drop k)) ∧
    Http.fees (History.stateAt (MempoolState.new network) (t.log.drop k)) =
      Http.fees (History.stateAt (MempoolState.new network) (t'.log.drop k)) := by
  have hdrop := List.forall₂_drop k h.log
  cases hl : t.log.drop k with
  | nil =>
    rw [hl] at hdrop
    rw [List.forall₂_nil_left_iff.1 hdrop]
    exact (Alike.refl _).readers now
  | cons e l =>
    rw [hl] at hdrop
    obtain ⟨e', l', he, -, hl'⟩ := List.forall₂_cons_left_iff.1 hdrop
    rw [hl']
    exact he.readers now

end Sync
end Satya
