import Satya.SyncTickSpec
/-!
# SyncHonesty — what `caught_up` vouches for at the end of a tick

The laws of one tick, from any state and for any replies, completion order and budget cut-off: what the cache holds when
the flag is set (`honest_tick`), and what the flag says after a failed call (`failure_reported_iff`) and after a reply
of a node that is still loading (`unloaded_reported_iff`).
-/
namespace Satya
namespace Sync

/-! ## The cache of a caught-up tick -/

/-- The tick takes the incremental path, after the node listed `txids`. -/
def Increments (env : TickEnv) (t : Task) (txids : List Txid) : Prop :=
  ∃ info, env.info = .ok info ∧ env.txids = .ok txids ∧ decision env t info txids = none

def Resyncs (env : TickEnv) (t : Task) : Prop :=
  ∃ info txids reason, env.info = .ok info ∧ env.txids = .ok txids ∧
    decision env t info txids = some (.bulkResync reason)

theorem Increments.decision_eq {env : TickEnv} {t : Task} {txids : List Txid} (h : Increments env t txids)
    {info' : MempoolInfo} {txids' : List Txid} (hi : env.info = .ok info') (ht : env.txids = .ok txids') :
    decision env t info' txids' = none := by
  obtain ⟨info, hi', ht', hd⟩ := h
  rw [hi] at hi'
  rw [ht] at ht'
  cases hi'
  cases ht'
  exact hd

theorem Increments.not_resyncs {env : TickEnv} {t : Task} {txids : List Txid} (h : Increments env t txids) :
    ¬ Resyncs env t := by
  rintro ⟨info, txids', reason, hi, ht, hd⟩
  rw [h.decision_eq hi ht] at hd
  cases hd

theorem Increments.eq (cfg : SyncConfig) {env : TickEnv} {t : Task} {txids : List Txid} (h : Increments env t txids) :
    ∃ info, env.info = .ok info ∧
      steadyTick cfg env t = incrementalTick cfg env info txids.toFinset (listed env t) := by
  obtain ⟨info, hi, ht, hd⟩ := h
  exact ⟨info, hi, by rw [steadyTick_of_listed hi ht, hd]⟩

theorem Resyncs.decision_eq {env : TickEnv} {t : Task} (h : Resyncs env t) {info' : MempoolInfo}
    {txids' : List Txid} (hi : env.info = .ok info') (ht : env.txids = .ok txids') :
    ∃ reason, decision env t info' txids' = some (.bulkResync reason) := by
  obtain ⟨info, txids, reason, hi', ht', hd⟩ := h
  rw [hi] at hi'
  rw [ht] at ht'
  cases hi'
  cases ht'
  exact ⟨reason, hd⟩

theorem Resyncs.eq (cfg : SyncConfig) {env : TickEnv} {t : Task} (h : Resyncs env t) :
    ∃ reason, steadyTick cfg env t = resyncTick cfg env ((listed env t).emit (.decided (.bulkResync reason))) := by
  obtain ⟨info, txids, reason, hi, ht, hd⟩ := h
  exact ⟨reason, by rw [steadyTick_of_listed hi ht, hd]⟩

/-- **The flag and its timestamp move together**, whatever way the tick goes. -/
theorem flags_steadyTick (cfg : SyncConfig) (env : TickEnv) (t : Task) :
    ((steadyTick cfg env t).shared.caughtUp = true ∧
        (steadyTick cfg env t).shared.lastSyncOk = some env.syncNow) ∨
      ((steadyTick cfg env t).shared.caughtUp = false ∧
        (steadyTick cfg env t).shared.lastSyncOk = t.shared.lastSyncOk) := by
  have hpath := steadyTick_path cfg env t
  generalize steadyTick cfg env t = t' at hpath
  cases hpath with
  | infoFailed e _ => exact Or.inr ⟨rfl, rfl⟩
  | txidsFailed info e _ _ => exact Or.inr ⟨rfl, rfl⟩
  | waits info txids reason _ _ _ => exact Or.inr ⟨rfl, rfl⟩
  | resyncs info txids reason _ _ _ =>
    by_cases h : ∃ entries info tip, env.bulk.verbose = .ok entries ∧ env.bulk.info = .ok info ∧
      env.bulk.tip = .ok tip
    · obtain ⟨entries, info, tip, hv, hi, ht⟩ := h
      obtain ⟨-, hc, hl, -⟩ := resyncTick_loaded cfg (t := (listed env t).emit (.decided (.bulkResync reason))) hv hi ht
      exact Or.inl ⟨hc, hl⟩
    · rw [(resyncTick_failed cfg h).1]
      exact Or.inr ⟨rfl, rfl⟩
  | increments info txids _ _ _ =>
    obtain ⟨-, hc, hl⟩ := incrementalTick_shared cfg env info txids.toFinset (listed env t)
    rw [hc, hl]
    cases tickBacklog cfg env (listed env t) txids.toFinset with
    | true => exact Or.inr ⟨rfl, rfl⟩
    | false => exact Or.inl ⟨rfl, rfl⟩

theorem repliesSince_increment {cfg : SyncConfig} (env : TickEnv) (t : Task) (info : MempoolInfo)
    (nodeTxids : Finset Txid) : repliesSince t (incrementalTick cfg env info nodeTxids (listed env t)) =
      .tipHeight env.tip ::
        (received cfg env t nodeTxids).reverse.map (fun txid => Reply.mempoolEntry txid (env.entry txid)) ++
          [.rawMempoolTxids env.txids, .mempoolInfo env.info] := by
  refine repliesSince_of_append ?_
  rw [incrementalTick_replies, List.append_assoc]
  rfl

theorem repliesSince_resync {cfg : SyncConfig} (env : TickEnv) (t : Task) (reason : DesyncReason) :
    repliesSince t (resyncTick cfg env ((listed env t).emit (.decided (.bulkResync reason)))) =
      bulkReplies env.bulk ++ [.rawMempoolTxids env.txids, .mempoolInfo env.info] := by
  refine repliesSince_of_append ?_
  rw [List.append_assoc]
  by_cases h : ∃ entries info tip, env.bulk.verbose = .ok entries ∧ env.bulk.info = .ok info ∧ env.bulk.tip = .ok tip
  · obtain ⟨entries, info, tip, hv, hi, ht⟩ := h
    exact (resyncTick_loaded cfg hv hi ht).2.2.2
  · exact (resyncTick_failed cfg h).2

theorem mem_repliesSince_vanished {cfg : SyncConfig} {env : TickEnv} {t : Task} {txids : List Txid}
    (h : Increments env t txids) {x : Txid} :
    Reply.mempoolEntry x (.ok none) ∈ repliesSince t (steadyTick cfg env t) ↔
      x ∈ received cfg env t txids.toFinset ∧ env.entry x = .ok none := by
  obtain ⟨info, -, heq⟩ := h.eq cfg
  rw [heq, repliesSince_increment]
  simp only [List.cons_append, List.mem_cons, List.mem_append, List.mem_map, List.mem_reverse, reduceCtorEq,
    List.not_mem_nil, false_or, or_false, Reply.mempoolEntry.injEq]
  constructor
  · rintro ⟨y, hy, rfl, he⟩
    exact ⟨hy, he⟩
  · rintro ⟨hx, he⟩
    exact ⟨x, hx, rfl, he⟩

/-- **A caught-up tick holds exactly what the node holds**: after the incremental path the listed txids less those whose
fetch was answered with nothing, after a bulk resync the dump's.  The timestamp is refreshed with the flag, and only
then. -/
theorem honest_tick (cfg : SyncConfig) (env : TickEnv) (t : Task) :
    (∀ txids, Increments env t txids → (steadyTick cfg env t).shared.caughtUp = true →
      ∀ x, x ∈ (steadyTick cfg env t).shared.txs.keys ↔
        x ∈ txids ∧ Reply.mempoolEntry x (.ok none) ∉ repliesSince t (steadyTick cfg env t)) ∧
    (Resyncs env t → (steadyTick cfg env t).shared.caughtUp = true →
      ∃ entries, env.bulk.verbose = .ok entries ∧
        (steadyTick cfg env t).shared.txs.keys = (entries.map Prod.fst).toFinset) ∧
    (((steadyTick cfg env t).shared.caughtUp = true ∧
        (steadyTick cfg env t).shared.lastSyncOk = some env.syncNow) ∨
      ((steadyTick cfg env t).shared.caughtUp = false ∧
        (steadyTick cfg env t).shared.lastSyncOk = t.shared.lastSyncOk)) := by
  refine ⟨fun txids h hc x => ?_, fun h hc => ?_, flags_steadyTick cfg env t⟩
  · rw [mem_repliesSince_vanished h]
    obtain ⟨info, -, heq⟩ := h.eq cfg
    obtain ⟨htxs, hcaught, -⟩ := incrementalTick_shared cfg env info txids.toFinset (listed env t)
    rw [heq, hcaught, Bool.not_eq_true'] at hc
    rw [heq, htxs, mem_keys_tickTxs_of_not_backlog hc, List.mem_toFinset]
    rfl
  · obtain ⟨reason, heq⟩ := h.eq cfg
    by_cases hb : ∃ entries info tip, env.bulk.verbose = .ok entries ∧ env.bulk.info = .ok info ∧
      env.bulk.tip = .ok tip
    · obtain ⟨entries, info, tip, hv, hi, ht⟩ := hb
      refine ⟨entries, hv, ?_⟩
      rw [heq, (resyncTick_loaded cfg hv hi ht).1, keys_collectDump]
    · rw [heq, (resyncTick_failed cfg hb).1] at hc
      cases hc

/-! ## A node that is still loading -/

/-- A `mempool_info` reply of a node that is still loading its mempool. -/
def Reply.ReportsUnloaded (r : Reply) : Prop := ∃ info, r = .mempoolInfo (.ok info) ∧ info.loaded = some false

/-- The three calls of the tick's bulk resync succeed, while one of the tick's two `mempool_info` replies says that the
node is still loading. -/
def ResyncsUnloaded (env : TickEnv) (t : Task) : Prop :=
  ∃ info txids reason entries bulkInfo tip, env.info = .ok info ∧ env.txids = .ok txids ∧
    decision env t info txids = some (.bulkResync reason) ∧
    env.bulk.verbose = .ok entries ∧ env.bulk.info = .ok bulkInfo ∧ env.bulk.tip = .ok tip ∧
    (info.loaded = some false ∨ bulkInfo.loaded = some false)

theorem ResyncsUnloaded.resyncs {env : TickEnv} {t : Task} (h : ResyncsUnloaded env t) : Resyncs env t := by
  obtain ⟨info, txids, reason, -, -, -, hi, ht, hd, -⟩ := h
  exact ⟨info, txids, reason, hi, ht, hd⟩

/-- The incremental path is taken for a loaded node only. -/
theorem not_reportsUnloaded_of_increment {cfg : SyncConfig} {env : TickEnv} {t : Task} {info : MempoolInfo}
    {txids : List Txid} (hi : env.info = .ok info) (hd : decision env t info txids = none) {r : Reply}
    (hr : r ∈ repliesSince t (incrementalTick cfg env info txids.toFinset (listed env t))) : ¬ r.ReportsUnloaded := by
  rintro ⟨info', rfl, hl⟩
  rw [repliesSince_increment, hi] at hr
  simp only [List.cons_append, List.mem_cons, List.mem_append, List.mem_map, List.mem_reverse, reduceCtorEq,
    and_false, exists_false, List.not_mem_nil, false_or, or_false, Reply.mempoolInfo.injEq, Except.ok.injEq] at hr
  have hloaded := (decideDesync_eq_none_iff.1 hd).1
  rw [← hr, hl] at hloaded
  cases hloaded

/-- Of the replies of a resync that succeeds, the two `mempool_info` can report a node that is still loading. -/
theorem resync_reportsUnloaded_iff {cfg : SyncConfig} {env : TickEnv} {t : Task} {reason : DesyncReason}
    {info bulkInfo : MempoolInfo} {entries : List (Txid × MempoolEntry)} (hi : env.info = .ok info)
    (hv : env.bulk.verbose = .ok entries) (hbi : env.bulk.info = .ok bulkInfo) :
    (∃ r ∈ repliesSince t (resyncTick cfg env ((listed env t).emit (.decided (.bulkResync reason)))),
      r.ReportsUnloaded) ↔ info.loaded = some false ∨ bulkInfo.loaded = some false := by
  rw [repliesSince_resync, bulkReplies, hv, hbi, hi]
  constructor
  · rintro ⟨r, hr, info', rfl, hl⟩
    simp only [List.cons_append, List.nil_append, List.mem_cons, reduceCtorEq, Reply.mempoolInfo.injEq,
      Except.ok.injEq, List.not_mem_nil, false_or, or_false] at hr
    rcases hr with rfl | rfl
    · exact Or.inr hl
    · exact Or.inl hl
  · rintro (hl | hl)
    · exact ⟨.mempoolInfo (.ok info), by simp, info, rfl, hl⟩
    · exact ⟨.mempoolInfo (.ok bulkInfo), by simp, bulkInfo, rfl, hl⟩

/-- **A loading node is reported as out of sync exactly when no bulk resync of it succeeds.** -/
theorem unloaded_reported_iff (cfg : SyncConfig) (env : TickEnv) (t : Task) :
    ((∃ r ∈ repliesSince t (steadyTick cfg env t), r.ReportsUnloaded) →
        (steadyTick cfg env t).shared.caughtUp = false) ↔ ¬ ResyncsUnloaded env t := by
  have hpath := steadyTick_path cfg env t
  generalize steadyTick cfg env t = t' at hpath
  cases hpath with
  | infoFailed e hi =>
    refine iff_of_true (fun _ => rfl) ?_
    rintro ⟨info, -, -, -, -, -, h, -⟩
    rw [hi] at h; cases h
  | txidsFailed info e hi ht =>
    refine iff_of_true (fun _ => rfl) ?_
    rintro ⟨-, txids, -, -, -, -, -, h, -⟩
    rw [ht] at h; cases h
  | waits info txids reason hi ht hd =>
    refine iff_of_true (fun _ => rfl) (fun h => ?_)
    obtain ⟨reason', hd'⟩ := h.resyncs.decision_eq hi ht
    rw [hd] at hd'
    cases hd'
  | resyncs info txids reason hi ht hd =>
    by_cases hb : ∃ entries info tip, env.bulk.verbose = .ok entries ∧ env.bulk.info = .ok info ∧
      env.bulk.tip = .ok tip
    · obtain ⟨entries, bulkInfo, tip, hv, hbi, hbt⟩ := hb
      rw [resync_reportsUnloaded_iff hi hv hbi, (resyncTick_loaded cfg hv hbi hbt).2.1, Bool.true_eq_false, imp_false]
      refine not_congr ⟨fun hl => ⟨info, txids, reason, entries, bulkInfo, tip, hi, ht, hd, hv, hbi, hbt, hl⟩, ?_⟩
      rintro ⟨info', -, -, -, bulkInfo', -, hi', -, -, -, hbi', -, hl⟩
      rw [hi] at hi'; rw [hbi] at hbi'
      cases hi'; cases hbi'
      exact hl
    · rw [(resyncTick_failed cfg hb).1]
      refine iff_of_true (fun _ => rfl) ?_
      rintro ⟨-, -, -, entries, bulkInfo, tip, -, -, -, hv, hbi, hbt, -⟩
      exact hb ⟨entries, bulkInfo, tip, hv, hbi, hbt⟩
  | increments info txids hi ht hd =>
    refine iff_of_true ?_ (fun h => ?_)
    · rintro ⟨r, hr, hl⟩
      exact absurd hl (not_reportsUnloaded_of_increment hi hd hr)
    · obtain ⟨reason', hd'⟩ := h.resyncs.decision_eq hi ht
      rw [hd] at hd'
      cases hd'

/-- A node with an empty mempool that answers every call, long after the last bulk resync. -/
def idleEnv : TickEnv where
  info := .ok ⟨some true, 1000⟩
  txids := .ok []
  decisionNow := 100 * 10 ^ 9
  resyncStamp := 100 * 10 ^ 9
  bulk := ⟨.ok [], .ok ⟨some true, 1000⟩, .ok 7⟩
  diffOrder := .ascending Txid
  entry _ := .ok none
  completion := id
  completion_perm _ := List.Perm.refl _
  elapsed _ := 0
  ready := 0
  tip := .ok 7
  syncNow := 5
  recompute := ⟨100 * 10 ^ 9, .ascending Txid, Gbt.HashOrder.ascending, some 5, 100 * 10 ^ 9⟩

/-- A startup whose first attempts all succeed, at the zero of the clock. -/
def idleStartup : StartupEnv where
  infos := [.ok ⟨some true, 1000⟩]
  loads := [⟨⟨.ok [], .ok ⟨some true, 1000⟩, .ok 7⟩, 0, 5⟩]
  now := 0
  fallback := 0
  recompute := ⟨0, .ascending Txid, Gbt.HashOrder.ascending, some 5, 0⟩

def idleConfig : SyncConfig := ⟨4 * 10 ^ 9, 5 * 10 ^ 9⟩

def loadingEnv : TickEnv :=
  { idleEnv with info := .ok ⟨some false, 1000⟩, bulk := ⟨.ok [], .ok ⟨some false, 1000⟩, .ok 7⟩ }

/-- **A loading node is vouched for** after the bulk resync it triggers. -/
theorem loadingEnv_vouched : ¬ ((∃ r ∈ repliesSince (Task.init .bitcoin)
      (steadyTick idleConfig loadingEnv (Task.init .bitcoin)), r.ReportsUnloaded) →
    (steadyTick idleConfig loadingEnv (Task.init .bitcoin)).shared.caughtUp = false) := by
  have hd : decision loadingEnv (Task.init .bitcoin) ⟨some false, 1000⟩ [] = some (.bulkResync .nodeNotLoaded) := by
    decide
  have htick := (@steadyTick_of_listed idleConfig loadingEnv (Task.init .bitcoin) _ _ rfl rfl).trans
    (by rw [hd])
  rw [htick, repliesSince_resync, (@resyncTick_loaded idleConfig loadingEnv _ _ _ _ rfl rfl rfl).2.1]
  exact fun h => Bool.noConfusion (h ⟨.mempoolInfo (.ok ⟨some false, 1000⟩), by simp [loadingEnv], _, rfl, rfl⟩)

/-! ## A failed call -/

/-- The incremental path finds every new txid in time and without an error, and only `tip_height` fails. -/
def OnlyTipFails (cfg : SyncConfig) (env : TickEnv) (t : Task) : Prop :=
  ∃ txids, Increments env t txids ∧ (∃ e, env.tip = .error e) ∧
    (newTxids env t txids.toFinset).length ≤ maxNewFetchPerTick ∧
    (∀ x ∈ newTxids env t txids.toFinset, ∀ e, env.entry x ≠ .error e) ∧
    inTime cfg env (env.completion (newTxids env t txids.toFinset)) = true

/-- A resync that succeeds received no error. -/
theorem not_failed_of_resync {cfg : SyncConfig} {env : TickEnv} {t : Task} {reason : DesyncReason}
    {info bulkInfo : MempoolInfo} {txids : List Txid} {entries : List (Txid × MempoolEntry)} {tip : ℕ}
    (hi : env.info = .ok info) (ht : env.txids = .ok txids) (hv : env.bulk.verbose = .ok entries)
    (hbi : env.bulk.info = .ok bulkInfo) (hbt : env.bulk.tip = .ok tip) {r : Reply}
    (hr : r ∈ repliesSince t (resyncTick cfg env ((listed env t).emit (.decided (.bulkResync reason))))) :
    ¬ r.failed := by
  rw [repliesSince_resync, bulkReplies, hv, hbi, hbt, hi, ht] at hr
  simp only [List.cons_append, List.nil_append, List.mem_cons, List.not_mem_nil, or_false] at hr
  rintro hfail
  rcases hr with rfl | rfl | rfl | rfl | rfl <;> obtain ⟨e, h⟩ := hfail <;> cases h

/-- Of the replies of an incremental tick without a backlog, only the tip height can have failed. -/
theorem increment_failed_iff {cfg : SyncConfig} {env : TickEnv} {t : Task} {info : MempoolInfo} {txids : List Txid}
    (hi : env.info = .ok info) (ht : env.txids = .ok txids)
    (hb : tickBacklog cfg env t txids.toFinset = false) :
    (∃ r ∈ repliesSince t (incrementalTick cfg env info txids.toFinset (listed env t)), r.failed) ↔
      ∃ e, env.tip = .error e := by
  rw [repliesSince_increment, hi, ht]
  constructor
  · rintro ⟨r, hr, hfail⟩
    simp only [List.cons_append, List.mem_cons, List.mem_append, List.mem_map, List.mem_reverse, List.not_mem_nil,
      or_false] at hr
    rcases hr with rfl | ⟨x, hx, rfl⟩ | rfl | rfl
    · exact hfail
    · obtain ⟨e, he⟩ := hfail
      exact absurd he ((tickBacklog_eq_false_iff.1 hb).2.1 x (mem_newTxids_of_received hx) e)
    · obtain ⟨e, h⟩ := hfail
      cases h
    · obtain ⟨e, h⟩ := hfail
      cases h
  · exact fun hfail => ⟨.tipHeight env.tip, List.mem_cons_self, hfail⟩

/-- **A failed call is reported exactly when it is not the tip height of an otherwise complete incremental tick.** -/
theorem failure_reported_iff (cfg : SyncConfig) (env : TickEnv) (t : Task) :
    ((∃ r ∈ repliesSince t (steadyTick cfg env t), r.failed) →
        (steadyTick cfg env t).shared.caughtUp = false ∧
          (steadyTick cfg env t).shared.lastSyncOk = t.shared.lastSyncOk) ↔ ¬ OnlyTipFails cfg env t := by
  have hpath := steadyTick_path cfg env t
  generalize steadyTick cfg env t = t' at hpath
  cases hpath with
  | infoFailed e hi =>
    refine iff_of_true (fun _ => ⟨rfl, rfl⟩) ?_
    rintro ⟨txids, ⟨info, h, -⟩, -⟩
    rw [hi] at h; cases h
  | txidsFailed info e hi ht =>
    refine iff_of_true (fun _ => ⟨rfl, rfl⟩) ?_
    rintro ⟨txids, ⟨info', -, h, -⟩, -⟩
    rw [ht] at h; cases h
  | waits info txids reason hi ht hd =>
    refine iff_of_true (fun _ => ⟨rfl, rfl⟩) ?_
    rintro ⟨txids', hinc, -⟩
    rw [hinc.decision_eq hi ht] at hd
    cases hd
  | resyncs info txids reason hi ht hd =>
    refine iff_of_true ?_ ?_
    · rintro ⟨r, hr, hfail⟩
      by_cases hb : ∃ entries info tip, env.bulk.verbose = .ok entries ∧ env.bulk.info = .ok info ∧
        env.bulk.tip = .ok tip
      · obtain ⟨entries, bulkInfo, tip, hv, hbi, hbt⟩ := hb
        exact absurd hfail (not_failed_of_resync hi ht hv hbi hbt hr)
      · rw [(resyncTick_failed cfg hb).1]
        exact ⟨rfl, rfl⟩
    · rintro ⟨txids', hinc, -⟩
      rw [hinc.decision_eq hi ht] at hd
      cases hd
  | increments info txids hi ht hd =>
    obtain ⟨-, hc, hl⟩ := incrementalTick_shared cfg env info txids.toFinset (listed env t)
    have hback := @tickBacklog_eq_false_iff cfg env t txids.toFinset
    change tickBacklog cfg env t txids.toFinset = false ↔ _ at hback
    rw [hc, hl]
    change (_ → (!tickBacklog cfg env t txids.toFinset) = false ∧ (if tickBacklog cfg env t txids.toFinset = true
      then _ else _) = _) ↔ _
    cases hb : tickBacklog cfg env t txids.toFinset with
    | true =>
      refine iff_of_true (fun _ => ⟨rfl, rfl⟩) ?_
      rintro ⟨txids', ⟨info', -, ht', -⟩, -, hrest⟩
      rw [ht] at ht'
      cases ht'
      rw [hback.2 hrest] at hb
      cases hb
    | false =>
      rw [increment_failed_iff hi ht hb, Bool.not_false, Bool.true_eq_false, false_and, imp_false]
      refine not_congr ⟨fun hfail => ⟨txids, ⟨info, hi, ht, hd⟩, hfail, hback.1 hb⟩, ?_⟩
      rintro ⟨-, -, hfail, -⟩
      exact hfail

def tiplessEnv : TickEnv := { idleEnv with tip := .error .http }

/-- **The failed call is not reported**: the tick ends caught up, with a fresh timestamp. -/
theorem tiplessEnv_swallowed : ¬ ((∃ r ∈ repliesSince (Task.init .bitcoin)
      (steadyTick idleConfig tiplessEnv (Task.init .bitcoin)), r.failed) →
    (steadyTick idleConfig tiplessEnv (Task.init .bitcoin)).shared.caughtUp = false ∧
      (steadyTick idleConfig tiplessEnv (Task.init .bitcoin)).shared.lastSyncOk =
        (Task.init .bitcoin).shared.lastSyncOk) := by
  obtain ⟨info, hinfo, htick⟩ := @Increments.eq idleConfig tiplessEnv (Task.init .bitcoin) []
    ⟨⟨some true, 1000⟩, rfl, rfl, by decide⟩
  have hback : tickBacklog idleConfig tiplessEnv (Task.init .bitcoin) ∅ = false := by decide +kernel
  intro h
  have hcaught := (h ⟨.tipHeight (.error .http), ?_, _, rfl⟩).1
  · rw [htick, (incrementalTick_shared idleConfig tiplessEnv info _ _).2.1] at hcaught
    exact Bool.noConfusion (hcaught.symm.trans (congrArg not hback))
  · rw [htick, repliesSince_increment]
    exact List.mem_cons_self

end Sync
end Satya
