import Satya.SyncTick
/-!
# SyncTickSpec — what one steady tick does

One lemma for each function of the loop: what it does to the shared state, and which replies it received.  A tick goes
one of five ways (`TickPath`); its callers split on the way and never unfold the tick.
-/
namespace Satya
namespace Sync

variable {cfg : SyncConfig}

/-! ## The steps -/

@[simp] theorem emit_shared (label : Label) (t : Task) : (t.emit label).shared = t.shared := rfl

@[simp] theorem write_shared (label : Label) (f : MempoolState → MempoolState) (t : Task) :
    (t.write label f).shared = f t.shared := rfl

@[simp] theorem setSynced_shared (synced : Bool) (t : Task) :
    (setSynced synced t).shared = { t.shared with caughtUp := synced } := rfl

@[simp] theorem applyBulkSuccess_shared (now : ℤ) (t : Task) :
    (applyBulkSuccess now t).shared = { t.shared with caughtUp := true, lastSyncOk := some now } := rfl

def Label.reply? : Label → Option Reply
  | .reply r => some r
  | _ => none

/-- The replies received so far, newest first. -/
def Task.replies (t : Task) : List Reply := t.log.filterMap (fun e => e.label.reply?)

@[simp] theorem replies_emit_reply (r : Reply) (t : Task) : (t.emit (.reply r)).replies = r :: t.replies := rfl

theorem replies_emit {label : Label} (h : label.reply? = none) (t : Task) : (t.emit label).replies = t.replies :=
  List.filterMap_cons_none h

theorem replies_write {label : Label} (h : label.reply? = none) (f : MempoolState → MempoolState) (t : Task) :
    (t.write label f).replies = t.replies :=
  List.filterMap_cons_none h

section Observed

variable {β : Type*} (f : Label → Option β)

/-- What `f` reads off the log, newest first. -/
def Task.observed (t : Task) : List β := t.log.filterMap (fun e => f e.label)

variable {f}

theorem observed_emit_some {label : Label} {b : β} (h : f label = some b) (t : Task) :
    (t.emit label).observed f = b :: t.observed f :=
  List.filterMap_cons_some h

theorem observed_emit {label : Label} (h : f label = none) (t : Task) : (t.emit label).observed f = t.observed f :=
  List.filterMap_cons_none h

theorem observed_write {label : Label} (h : f label = none) (g : MempoolState → MempoolState) (t : Task) :
    (t.write label g).observed f = t.observed f :=
  List.filterMap_cons_none h

end Observed

@[simp] theorem applyBulkSuccess_replies (now : ℤ) (t : Task) : (applyBulkSuccess now t).replies = t.replies :=
  replies_write rfl _ t

/-! ## The estimate -/

/-- **A recompute changes nothing but the estimate**, and receives no reply. -/
theorem maybeRecomputeFees_spec (cfg : SyncConfig) (env : RecomputeEnv) (force : Bool) (t : Task) :
    (∃ est, (maybeRecomputeFees cfg env force t).shared = { t.shared with feeEstimate := est }) ∧
    (maybeRecomputeFees cfg env force t).replies = t.replies := by
  unfold maybeRecomputeFees
  split
  · exact ⟨⟨t.shared.feeEstimate, rfl⟩, replies_emit rfl t⟩
  · dsimp only
    split
    · exact ⟨⟨_, rfl⟩, rfl⟩
    · exact ⟨⟨t.shared.feeEstimate, rfl⟩, rfl⟩

@[simp] theorem maybeRecomputeFees_replies (env : RecomputeEnv) (force : Bool) (t : Task) :
    (maybeRecomputeFees cfg env force t).replies = t.replies :=
  (maybeRecomputeFees_spec cfg env force t).2

@[simp] theorem maybeRecomputeFees_txs (env : RecomputeEnv) (force : Bool) (t : Task) :
    (maybeRecomputeFees cfg env force t).shared.txs = t.shared.txs := by
  obtain ⟨⟨est, h⟩, -⟩ := maybeRecomputeFees_spec cfg env force t
  rw [h]

@[simp] theorem maybeRecomputeFees_caughtUp (env : RecomputeEnv) (force : Bool) (t : Task) :
    (maybeRecomputeFees cfg env force t).shared.caughtUp = t.shared.caughtUp := by
  obtain ⟨⟨est, h⟩, -⟩ := maybeRecomputeFees_spec cfg env force t
  rw [h]

@[simp] theorem maybeRecomputeFees_lastSyncOk (env : RecomputeEnv) (force : Bool) (t : Task) :
    (maybeRecomputeFees cfg env force t).shared.lastSyncOk = t.shared.lastSyncOk := by
  obtain ⟨⟨est, h⟩, -⟩ := maybeRecomputeFees_spec cfg env force t
  rw [h]

theorem maybeRecomputeFees_observed {β : Type*} {f : Label → Option β} (hthrottled : ∀ e, f (.throttled e) = none)
    (hsnapshot : f .snapshot = none) (hestimate : f .estimate = none) (hfailed : f .recomputeFailed = none)
    (env : RecomputeEnv) (force : Bool) (t : Task) :
    (maybeRecomputeFees cfg env force t).observed f = t.observed f := by
  unfold maybeRecomputeFees
  split
  · exact observed_emit (hthrottled _) t
  · dsimp only
    split
    · have hsnap := observed_emit hsnapshot t
      rw [← hsnap]
      exact List.filterMap_cons_none hestimate
    · have hsnap := observed_emit hsnapshot t
      rw [← hsnap]
      exact List.filterMap_cons_none hfailed

/-! ## Bulk resync -/

/-- How a bulk resync ends. -/
inductive BulkPath (env : BulkEnv) (t : Task) : Option ℕ × Task → Prop
  | verboseFailed (e : RpcError) : env.verbose = .error e →
      BulkPath env t (none, t.emit (.reply (.rawMempoolVerbose env.verbose)))
  | infoFailed (entries : List (Txid × MempoolEntry)) (e : RpcError) : env.verbose = .ok entries →
      env.info = .error e →
      BulkPath env t (none,
        (t.emit (.reply (.rawMempoolVerbose env.verbose))).emit (.reply (.mempoolInfo env.info)))
  | tipFailed (entries : List (Txid × MempoolEntry)) (info : MempoolInfo) (e : RpcError) :
      env.verbose = .ok entries → env.info = .ok info → env.tip = .error e →
      BulkPath env t (none, ((t.emit (.reply (.rawMempoolVerbose env.verbose))).emit
        (.reply (.mempoolInfo env.info))).emit (.reply (.tipHeight env.tip)))
  | loaded (entries : List (Txid × MempoolEntry)) (info : MempoolInfo) (tip : ℕ) :
      env.verbose = .ok entries → env.info = .ok info → env.tip = .ok tip →
      BulkPath env t (some entries.length, (((t.emit (.reply (.rawMempoolVerbose env.verbose))).emit
        (.reply (.mempoolInfo env.info))).emit (.reply (.tipHeight env.tip))).write .bulkData (fun g =>
          { g with txs := collectDump entries, mempoolMinFeeSatVb := minFeeSatVb info, tipHeight := tip }))

theorem bulkResync_path (env : BulkEnv) (t : Task) : BulkPath env t (bulkResync env t) := by
  unfold bulkResync
  dsimp only
  split
  · next e hv => exact BulkPath.verboseFailed e hv
  · next entries hv =>
    split
    · next e hi => exact BulkPath.infoFailed entries e hv hi
    · next info hi =>
      split
      · next e ht => exact BulkPath.tipFailed entries info e hv hi ht
      · next tip ht => exact BulkPath.loaded entries info tip hv hi ht

/-! ## Fetching -/

/-- The results that are received before the loop stops. -/
def consumed (cfg : SyncConfig) (env : TickEnv) : List Txid → List Txid
  | [] => []
  | txid :: rest =>
    txid :: if cfg.tickBudget < env.elapsed txid then rest.take env.ready else consumed cfg env rest

/-- Whether every result is received: when the budget is exceeded, the rest is ready. -/
def inTime (cfg : SyncConfig) (env : TickEnv) : List Txid → Bool
  | [] => true
  | txid :: rest =>
    if cfg.tickBudget < env.elapsed txid then decide (rest.length ≤ env.ready) else inTime cfg env rest

theorem prefix_consumed (env : TickEnv) : ∀ l : List Txid, consumed cfg env l <+: l
  | [] => List.prefix_refl []
  | txid :: rest => by
    unfold consumed
    refine (List.prefix_cons_inj txid).2 ?_
    split
    · exact List.take_prefix _ _
    · exact prefix_consumed env rest

/-- **Every result is received exactly when the rest is ready at the bail.** -/
theorem length_consumed_iff (env : TickEnv) : ∀ l : List Txid,
    l.length ≤ (consumed cfg env l).length ↔ inTime cfg env l = true
  | [] => by simp [consumed, inTime]
  | txid :: rest => by
    unfold consumed inTime
    split
    · simp [List.length_take]
    · rw [List.length_cons, List.length_cons, Nat.add_le_add_iff_right]
      exact length_consumed_iff env rest

theorem fetchLoop_eq (env : TickEnv) : ∀ (l : List Txid) (p : FetchBatch × Task),
    fetchLoop cfg env l p = (consumed cfg env l).foldl (receive env) p
  | [], _ => rfl
  | txid :: rest, p => by
    unfold fetchLoop consumed
    split
    · rfl
    · rw [List.foldl_cons]
      exact fetchLoop_eq env rest _

def fetchedEntry (env : TickEnv) (txid : Txid) : Option (Txid × MempoolTx) :=
  match env.entry txid with
  | .ok (some entry) => some (txid, MempoolTx.ofEntry entry)
  | _ => none

def fetchFailed (env : TickEnv) (txid : Txid) : Bool :=
  match env.entry txid with
  | .error _ => true
  | .ok _ => false

theorem fetchFailed_iff {env : TickEnv} {txid : Txid} : fetchFailed env txid = true ↔ ∃ e, env.entry txid = .error e := by
  unfold fetchFailed
  cases env.entry txid <;> simp

theorem process_eq (env : TickEnv) (txid : Txid) (b : FetchBatch) : b.process txid (env.entry txid) =
    ⟨b.fetched ++ (fetchedEntry env txid).toList, b.fetchErrors + (if fetchFailed env txid then 1 else 0),
      b.resolved + 1⟩ := by
  unfold FetchBatch.process fetchedEntry fetchFailed
  cases env.entry txid with
  | error e => simp
  | ok o => cases o <;> simp

/-- The entries that received results leave. -/
def receiveAll (env : TickEnv) (l : List Txid) (t : Task) : Task :=
  l.foldl (fun t txid => t.emit (.reply (.mempoolEntry txid (env.entry txid)))) t

theorem receiveAll_shared (env : TickEnv) : ∀ (l : List Txid) (t : Task), (receiveAll env l t).shared = t.shared
  | [], _ => rfl
  | txid :: l, t => by
    rw [receiveAll, List.foldl_cons, ← receiveAll, receiveAll_shared env l]
    rfl

theorem receiveAll_replies (env : TickEnv) : ∀ (l : List Txid) (t : Task), (receiveAll env l t).replies =
    l.reverse.map (fun txid => Reply.mempoolEntry txid (env.entry txid)) ++ t.replies
  | [], _ => rfl
  | txid :: l, t => by
    rw [receiveAll, List.foldl_cons, ← receiveAll, receiveAll_replies env l]
    simp

theorem receiveAll_observed {β : Type*} {f : Label → Option β} (hentry : ∀ txid r, f (.reply (.mempoolEntry txid r)) = none)
    (env : TickEnv) : ∀ (l : List Txid) (t : Task), (receiveAll env l t).observed f = t.observed f
  | [], _ => rfl
  | txid :: l, t => by
    rw [receiveAll, List.foldl_cons, ← receiveAll, receiveAll_observed hentry env l, observed_emit (hentry _ _)]

/-- **What a sequence of results adds up to.** -/
theorem foldl_receive (env : TickEnv) : ∀ (l : List Txid) (b : FetchBatch) (t : Task),
    l.foldl (receive env) (b, t) =
      (⟨b.fetched ++ l.filterMap (fetchedEntry env), b.fetchErrors + l.countP (fetchFailed env),
        b.resolved + l.length⟩, receiveAll env l t)
  | [], b, t => by simp [receiveAll]
  | txid :: l, b, t => by
    rw [List.foldl_cons, receive, foldl_receive env l, process_eq, receiveAll, receiveAll, List.foldl_cons]
    have hcons : (txid :: l).filterMap (fetchedEntry env) =
        (fetchedEntry env txid).toList ++ l.filterMap (fetchedEntry env) := by
      cases h : fetchedEntry env txid with
      | none => rw [List.filterMap_cons_none h]; rfl
      | some e => rw [List.filterMap_cons_some h]; rfl
    rw [hcons, List.countP_cons, List.length_cons, List.append_assoc]
    simp only [Prod.mk.injEq, FetchBatch.mk.injEq, true_and, and_true]
    omega

/-- **The batch and the task after the fetches**, read off what was received. -/
theorem fetchNewEntries_eq (env : TickEnv) (newTxids : List Txid) (maxPerTick : ℕ) (t : Task) :
    fetchNewEntries cfg env newTxids maxPerTick t =
      (⟨(consumed cfg env (env.completion (newTxids.take maxPerTick))).filterMap (fetchedEntry env),
        (consumed cfg env (env.completion (newTxids.take maxPerTick))).countP (fetchFailed env),
        decide ((consumed cfg env (env.completion (newTxids.take maxPerTick))).length <
          (newTxids.take maxPerTick).length)⟩,
        receiveAll env (consumed cfg env (env.completion (newTxids.take maxPerTick))) t) := by
  rw [fetchNewEntries, fetchLoop_eq, foldl_receive]
  simp [FetchBatch.empty]

/-! ## The incremental path -/

/-- The listed txids that the cache misses, in the order the diff lists them. -/
def newTxids (env : TickEnv) (t : Task) (nodeTxids : Finset Txid) : List Txid :=
  (computeDiff env.diffOrder t.shared.txs.keys nodeTxids).new

/-- The cached txids that the node does not list. -/
def goneTxids (env : TickEnv) (t : Task) (nodeTxids : Finset Txid) : List Txid :=
  (computeDiff env.diffOrder t.shared.txs.keys nodeTxids).gone

theorem mem_newTxids {env : TickEnv} {t : Task} {nodeTxids : Finset Txid} {x : Txid} :
    x ∈ newTxids env t nodeTxids ↔ x ∈ nodeTxids ∧ x ∉ t.shared.txs.keys := by
  rw [newTxids, computeDiff, SetOrder.mem_iff, Finset.mem_sdiff]

theorem mem_goneTxids {env : TickEnv} {t : Task} {nodeTxids : Finset Txid} {x : Txid} :
    x ∈ goneTxids env t nodeTxids ↔ x ∈ t.shared.txs.keys ∧ x ∉ nodeTxids := by
  rw [goneTxids, computeDiff, SetOrder.mem_iff, Finset.mem_sdiff]

def received (cfg : SyncConfig) (env : TickEnv) (t : Task) (nodeTxids : Finset Txid) : List Txid :=
  consumed cfg env (env.completion ((newTxids env t nodeTxids).take maxNewFetchPerTick))

theorem mem_newTxids_of_received {env : TickEnv} {t : Task} {nodeTxids : Finset Txid} {x : Txid}
    (h : x ∈ received cfg env t nodeTxids) : x ∈ newTxids env t nodeTxids :=
  List.mem_of_mem_take ((env.completion_perm _).mem_iff.1 ((prefix_consumed env _).subset h))

/-- What `is_backlog` answers in an incremental tick. -/
def tickBacklog (cfg : SyncConfig) (env : TickEnv) (t : Task) (nodeTxids : Finset Txid) : Bool :=
  isBacklog (newTxids env t nodeTxids).length maxNewFetchPerTick
    ((received cfg env t nodeTxids).countP (fetchFailed env))
    (decide ((received cfg env t nodeTxids).length < ((newTxids env t nodeTxids).take maxNewFetchPerTick).length))

def tickTxs (cfg : SyncConfig) (env : TickEnv) (t : Task) (nodeTxids : Finset Txid) : TxCache :=
  insertAll (removeAll t.shared.txs (goneTxids env t nodeTxids))
    ((received cfg env t nodeTxids).filterMap (fetchedEntry env))

/-- The task before the applying section. -/
def tickFetched (cfg : SyncConfig) (env : TickEnv) (nodeTxids : Finset Txid) (t : Task) : Task :=
  ((receiveAll env (received cfg env t nodeTxids) (removeGone (goneTxids env t nodeTxids) t)).emit
    (.reply (.tipHeight env.tip))).emit (.summary (projectedMempoolSize t.shared.txs.keys.card
      (goneTxids env t nodeTxids).length ((received cfg env t nodeTxids).filterMap (fetchedEntry env)).length)
      (tickBacklog cfg env t nodeTxids))

def tickApplied (cfg : SyncConfig) (env : TickEnv) (info : MempoolInfo) (nodeTxids : Finset Txid) (t : Task) : Task :=
  applyTick env info ((received cfg env t nodeTxids).filterMap (fetchedEntry env)) (tickBacklog cfg env t nodeTxids)
    (tickFetched cfg env nodeTxids t)

theorem incrementalTick_eq (env : TickEnv) (info : MempoolInfo) (nodeTxids : Finset Txid) (t : Task) :
    incrementalTick cfg env info nodeTxids t =
      if tickBacklog cfg env t nodeTxids then tickApplied cfg env info nodeTxids t
      else maybeRecomputeFees cfg env.recompute false (tickApplied cfg env info nodeTxids t) := by
  rw [incrementalTick, fetchNewEntries_eq]
  rfl

theorem tickFetched_shared (env : TickEnv) (nodeTxids : Finset Txid) (t : Task) :
    (tickFetched cfg env nodeTxids t).shared =
      { t.shared with txs := removeAll t.shared.txs (goneTxids env t nodeTxids) } := by
  simp only [tickFetched, emit_shared, receiveAll_shared]
  rfl

theorem tickApplied_shared (env : TickEnv) (info : MempoolInfo) (nodeTxids : Finset Txid) (t : Task) :
    (tickApplied cfg env info nodeTxids t).shared =
      { t.shared with
        txs := tickTxs cfg env t nodeTxids
        mempoolMinFeeSatVb := minFeeSatVb info
        tipHeight := match env.tip with
          | .ok h => h
          | .error _ => t.shared.tipHeight
        caughtUp := !tickBacklog cfg env t nodeTxids
        lastSyncOk := if tickBacklog cfg env t nodeTxids then t.shared.lastSyncOk else some env.syncNow } := by
  rw [tickApplied, applyTick, write_shared, tickFetched_shared]
  rfl

/-- **What an incremental tick leaves**, the estimate apart. -/
theorem incrementalTick_shared (cfg : SyncConfig) (env : TickEnv) (info : MempoolInfo) (nodeTxids : Finset Txid) (t : Task) :
    (incrementalTick cfg env info nodeTxids t).shared.txs = tickTxs cfg env t nodeTxids ∧
    (incrementalTick cfg env info nodeTxids t).shared.caughtUp = !tickBacklog cfg env t nodeTxids ∧
    (incrementalTick cfg env info nodeTxids t).shared.lastSyncOk =
      if tickBacklog cfg env t nodeTxids then t.shared.lastSyncOk else some env.syncNow := by
  rw [incrementalTick_eq]
  split <;> simp [tickApplied_shared, *]

theorem incrementalTick_replies (env : TickEnv) (info : MempoolInfo) (nodeTxids : Finset Txid) (t : Task) :
    (incrementalTick cfg env info nodeTxids t).replies = .tipHeight env.tip ::
      (received cfg env t nodeTxids).reverse.map (fun txid => Reply.mempoolEntry txid (env.entry txid)) ++
        t.replies := by
  have happlied : (tickApplied cfg env info nodeTxids t).replies = .tipHeight env.tip ::
      (received cfg env t nodeTxids).reverse.map (fun txid => Reply.mempoolEntry txid (env.entry txid)) ++
        t.replies := by
    rw [tickApplied, applyTick, replies_write rfl, tickFetched, replies_emit rfl, replies_emit_reply,
      receiveAll_replies, removeGone, replies_write rfl]
    rfl
  rw [incrementalTick_eq]
  split
  · exact happlied
  · rw [maybeRecomputeFees_replies, happlied]

/-- **No backlog means that every new txid was fetched or had vanished.** -/
theorem tickBacklog_eq_false_iff {env : TickEnv} {t : Task} {nodeTxids : Finset Txid} :
    tickBacklog cfg env t nodeTxids = false ↔
      (newTxids env t nodeTxids).length ≤ maxNewFetchPerTick ∧
      (∀ x ∈ newTxids env t nodeTxids, ∀ e, env.entry x ≠ .error e) ∧
      inTime cfg env (env.completion (newTxids env t nodeTxids)) = true := by
  rw [tickBacklog, isBacklog_eq_false_iff, decide_eq_false_iff_not, not_lt]
  refine and_congr_right (fun hlen => ?_)
  rw [received, List.take_of_length_le hlen, ← (env.completion_perm _).length_eq, length_consumed_iff]
  refine and_congr_left (fun hin => ?_)
  have hall : consumed cfg env (env.completion (newTxids env t nodeTxids)) =
      env.completion (newTxids env t nodeTxids) :=
    (prefix_consumed env _).eq_of_length_le ((length_consumed_iff env _).2 hin)
  rw [hall, List.countP_eq_zero]
  refine forall_congr' (fun x => ?_)
  rw [(env.completion_perm _).mem_iff, fetchFailed_iff, not_exists]

theorem mem_received_of_not_backlog {env : TickEnv} {t : Task} {nodeTxids : Finset Txid}
    (h : tickBacklog cfg env t nodeTxids = false) {x : Txid} :
    x ∈ received cfg env t nodeTxids ↔ x ∈ newTxids env t nodeTxids := by
  obtain ⟨hlen, -, hin⟩ := tickBacklog_eq_false_iff.1 h
  have hall : consumed cfg env (env.completion (newTxids env t nodeTxids)) =
      env.completion (newTxids env t nodeTxids) :=
    (prefix_consumed env _).eq_of_length_le ((length_consumed_iff env _).2 hin)
  rw [received, List.take_of_length_le hlen, hall, (env.completion_perm _).mem_iff]

theorem mem_fetched {env : TickEnv} {l : List Txid} {x : Txid} {tx : MempoolTx} :
    (x, tx) ∈ l.filterMap (fetchedEntry env) ↔
      x ∈ l ∧ ∃ entry, env.entry x = .ok (some entry) ∧ tx = MempoolTx.ofEntry entry := by
  rw [List.mem_filterMap]
  constructor
  · rintro ⟨y, hy, hf⟩
    unfold fetchedEntry at hf
    split at hf
    · next entry he =>
      rw [Option.some.injEq, Prod.mk.injEq] at hf
      obtain ⟨rfl, rfl⟩ := hf
      exact ⟨hy, entry, he, rfl⟩
    · cases hf
  · rintro ⟨hx, entry, he, rfl⟩
    exact ⟨x, hx, by rw [fetchedEntry, he]⟩

theorem mem_keys_tickTxs {env : TickEnv} {t : Task} {nodeTxids : Finset Txid} {x : Txid} :
    x ∈ (tickTxs cfg env t nodeTxids).keys ↔
      (x ∈ t.shared.txs.keys ∧ x ∈ nodeTxids) ∨
        (x ∈ received cfg env t nodeTxids ∧ ∃ entry, env.entry x = .ok (some entry)) := by
  rw [tickTxs, keys_insertAll, keys_removeAll, Finset.mem_union, Finset.mem_sdiff, List.mem_toFinset, mem_goneTxids,
    List.mem_toFinset, List.mem_map]
  refine or_congr ⟨fun ⟨h1, h2⟩ => ⟨h1, ?_⟩, fun ⟨h1, h2⟩ => ⟨h1, fun h => h.2 h2⟩⟩ ⟨?_, ?_⟩
  · by_contra hn
    exact h2 ⟨h1, hn⟩
  · rintro ⟨⟨y, tx⟩, hy, rfl⟩
    obtain ⟨hz, entry, he, -⟩ := mem_fetched.1 hy
    exact ⟨hz, entry, he⟩
  · rintro ⟨hx, entry, he⟩
    exact ⟨(x, MempoolTx.ofEntry entry), mem_fetched.2 ⟨hx, entry, he, rfl⟩, rfl⟩

/-- **Without a backlog the cache holds what the node listed**, less the new txids that had vanished when they were
fetched. -/
theorem mem_keys_tickTxs_of_not_backlog {env : TickEnv} {t : Task} {nodeTxids : Finset Txid}
    (h : tickBacklog cfg env t nodeTxids = false) {x : Txid} :
    x ∈ (tickTxs cfg env t nodeTxids).keys ↔
      x ∈ nodeTxids ∧ ¬ (x ∈ received cfg env t nodeTxids ∧ env.entry x = .ok none) := by
  have hgood := (tickBacklog_eq_false_iff.1 h).2.1 x
  rw [mem_keys_tickTxs, mem_received_of_not_backlog h]
  rw [mem_newTxids] at *
  by_cases hl : x ∈ nodeTxids
  · by_cases hx : x ∈ t.shared.txs.keys
    · simp [hl, hx]
    · cases he : env.entry x with
      | error e => exact absurd he (hgood ⟨hl, hx⟩ e)
      | ok o => cases o <;> simp [hl, hx]
  · simp [hl]

/-- **Where a cached transaction comes from**: it was fetched in this tick, or it was cached before and is still
listed. -/
theorem lookup_tickTxs {env : TickEnv} {t : Task} {nodeTxids : Finset Txid} {x : Txid} {tx : MempoolTx}
    (h : (tickTxs cfg env t nodeTxids).lookup x = some tx) :
    (x ∈ received cfg env t nodeTxids ∧ ∃ entry, env.entry x = .ok (some entry) ∧ tx = MempoolTx.ofEntry entry) ∨
      (x ∈ nodeTxids ∧ t.shared.txs.lookup x = some tx) := by
  rcases lookup_insertAll _ _ h with h | ⟨-, h⟩
  · exact Or.inl (mem_fetched.1 h)
  · rw [lookup_removeAll] at h
    split at h
    · cases h
    · next hgone =>
      refine Or.inr ⟨?_, h⟩
      by_contra hn
      exact hgone (mem_goneTxids.2 ⟨Finmap.mem_keys.2 (Finmap.mem_of_lookup_eq_some h), hn⟩)

/-- **A cached transaction that is still listed is left as it is.** -/
theorem lookup_tickTxs_of_cached {env : TickEnv} {t : Task} {nodeTxids : Finset Txid} {x : Txid}
    (hx : x ∈ t.shared.txs.keys) (hl : x ∈ nodeTxids) :
    (tickTxs cfg env t nodeTxids).lookup x = t.shared.txs.lookup x := by
  have hfetched : x ∉ ((received cfg env t nodeTxids).filterMap (fetchedEntry env)).map Prod.fst := by
    intro h
    obtain ⟨⟨y, tx⟩, hy, rfl⟩ := List.mem_map.1 h
    exact (mem_newTxids.1 (mem_newTxids_of_received (mem_fetched.1 hy).1)).2 hx
  have hgone : x ∉ goneTxids env t nodeTxids := fun h => (mem_goneTxids.1 h).2 hl
  rw [tickTxs, lookup_insertAll_of_notMem _ _ hfetched, lookup_removeAll, if_neg hgone]

/-! ## The five ways of a tick -/

def decision (env : TickEnv) (t : Task) (info : MempoolInfo) (txids : List Txid) : Option DesyncAction :=
  decideDesync (info.loaded.getD true) t.shared.txs.keys.card txids.toFinset.card
    (resyncCoolingDown (some t.lastBulkResync) env.decisionNow)

def listed (env : TickEnv) (t : Task) : Task :=
  (t.emit (.reply (.mempoolInfo env.info))).emit (.reply (.rawMempoolTxids env.txids))

/-- How a tick goes. -/
inductive TickPath (cfg : SyncConfig) (env : TickEnv) (t : Task) : Task → Prop
  | infoFailed (e : RpcError) : env.info = .error e →
      TickPath cfg env t (setSynced false (t.emit (.reply (.mempoolInfo env.info))))
  | txidsFailed (info : MempoolInfo) (e : RpcError) : env.info = .ok info → env.txids = .error e →
      TickPath cfg env t (setSynced false (listed env t))
  | waits (info : MempoolInfo) (txids : List Txid) (reason : DesyncReason) : env.info = .ok info →
      env.txids = .ok txids → decision env t info txids = some (.waitCooldown reason) →
      TickPath cfg env t (setSynced false ((listed env t).emit (.decided (.waitCooldown reason))))
  | resyncs (info : MempoolInfo) (txids : List Txid) (reason : DesyncReason) : env.info = .ok info →
      env.txids = .ok txids → decision env t info txids = some (.bulkResync reason) →
      TickPath cfg env t (resyncTick cfg env ((listed env t).emit (.decided (.bulkResync reason))))
  | increments (info : MempoolInfo) (txids : List Txid) : env.info = .ok info → env.txids = .ok txids →
      decision env t info txids = none →
      TickPath cfg env t (incrementalTick cfg env info txids.toFinset (listed env t))

theorem steadyTick_path (cfg : SyncConfig) (env : TickEnv) (t : Task) : TickPath cfg env t (steadyTick cfg env t) := by
  unfold steadyTick
  dsimp only
  split
  · next e hi => exact TickPath.infoFailed e hi
  · next info hi =>
    split
    · next e ht => exact TickPath.txidsFailed info e hi ht
    · next txids ht =>
      split
      · next reason hd => exact TickPath.waits info txids reason hi ht hd
      · next reason hd => exact TickPath.resyncs info txids reason hi ht hd
      · next hd => exact TickPath.increments info txids hi ht hd

/-- A tick whose first two calls were answered goes by its decision. -/
theorem steadyTick_of_listed {env : TickEnv} {t : Task} {info : MempoolInfo} {txids : List Txid}
    (hi : env.info = .ok info) (ht : env.txids = .ok txids) :
    steadyTick cfg env t = match decision env t info txids with
      | some (.waitCooldown reason) => setSynced false ((listed env t).emit (.decided (.waitCooldown reason)))
      | some (.bulkResync reason) => resyncTick cfg env ((listed env t).emit (.decided (.bulkResync reason)))
      | none => incrementalTick cfg env info txids.toFinset (listed env t) := by
  simp only [steadyTick, listed, hi, ht]
  rfl

/-! ## The resync path -/

/-- The replies of a bulk resync, newest first. -/
def bulkReplies (env : BulkEnv) : List Reply :=
  match env.verbose with
  | .error e => [.rawMempoolVerbose (.error e)]
  | .ok entries =>
    match env.info with
    | .error e => [.mempoolInfo (.error e), .rawMempoolVerbose (.ok entries)]
    | .ok info => [.tipHeight env.tip, .mempoolInfo (.ok info), .rawMempoolVerbose (.ok entries)]

/-- **A bulk resync whose three calls succeed** replaces the cache and sets both flags. -/
theorem resyncTick_loaded (cfg : SyncConfig) {env : TickEnv} {t : Task}
    {entries : List (Txid × MempoolEntry)} {info : MempoolInfo} {tip : ℕ}
    (hv : env.bulk.verbose = .ok entries) (hi : env.bulk.info = .ok info) (ht : env.bulk.tip = .ok tip) :
    (resyncTick cfg env t).shared.txs = collectDump entries ∧ (resyncTick cfg env t).shared.caughtUp = true ∧
      (resyncTick cfg env t).shared.lastSyncOk = some env.syncNow ∧
      (resyncTick cfg env t).replies = bulkReplies env.bulk ++ t.replies := by
  have hr : bulkReplies env.bulk = [.tipHeight env.bulk.tip, .mempoolInfo env.bulk.info,
      .rawMempoolVerbose env.bulk.verbose] := by rw [bulkReplies, hv, hi]
  simp only [resyncTick, bulkResync, hv, hi, ht, maybeRecomputeFees_txs, maybeRecomputeFees_caughtUp,
    maybeRecomputeFees_lastSyncOk, maybeRecomputeFees_replies, applyBulkSuccess_shared, applyBulkSuccess_replies,
    write_shared, hr, true_and]
  rfl

/-- **A bulk resync with a failed call** changes nothing but the flag. -/
theorem resyncTick_failed (cfg : SyncConfig) {env : TickEnv} {t : Task}
    (h : ¬ ∃ entries info tip, env.bulk.verbose = .ok entries ∧ env.bulk.info = .ok info ∧ env.bulk.tip = .ok tip) :
    (resyncTick cfg env t).shared = { t.shared with caughtUp := false } ∧
      (resyncTick cfg env t).replies = bulkReplies env.bulk ++ t.replies := by
  unfold resyncTick bulkReplies
  dsimp only
  have hpath := bulkResync_path env.bulk
    (Task.emit (.resyncStarted env.resyncStamp) { t with lastBulkResync := env.resyncStamp })
  cases hres : bulkResync env.bulk
    (Task.emit (.resyncStarted env.resyncStamp) { t with lastBulkResync := env.resyncStamp }) with
  | mk count t' =>
    rw [hres] at hpath
    cases hpath with
    | verboseFailed e hv => rw [hv]; exact ⟨rfl, rfl⟩
    | infoFailed entries e hv hi => rw [hv, hi]; exact ⟨rfl, rfl⟩
    | tipFailed entries info e hv hi ht => rw [hv, hi]; exact ⟨rfl, rfl⟩
    | loaded entries info tip hv hi ht => exact absurd ⟨entries, info, tip, hv, hi, ht⟩ h

/-! ## What a tick received -/

/-- The replies received between two tasks of one run. -/
def repliesSince (t t' : Task) : List Reply := t'.replies.take (t'.replies.length - t.replies.length)

theorem repliesSince_of_append {t t' : Task} {new : List Reply} (h : t'.replies = new ++ t.replies) :
    repliesSince t t' = new := by
  rw [repliesSince, h, List.length_append, Nat.add_sub_cancel, List.take_left']
  rfl

end Sync
end Satya
