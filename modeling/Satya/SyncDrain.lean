import Satya.SyncHonesty
/-!
# SyncDrain — what a failed tick leaves, and how a backlog drains

A tick that fails or defers writes one field (`failed_tick_intact`).  Against a node that answers everything and whose
mempool stands still, every tick removes what the node does not list, fetches up to its cap of what the cache misses,
and so makes the next tick's mass-drop guard harmless (`drain_tick`); the run follows by induction on the ticks
(`backlog_drains`).
-/
namespace Satya
namespace Sync

variable {cfg : SyncConfig} {env : TickEnv} {t : Task}

/-! ## Failed ticks -/

def Waits (env : TickEnv) (t : Task) : Prop :=
  ∃ info txids reason, env.info = .ok info ∧ env.txids = .ok txids ∧
    decision env t info txids = some (.waitCooldown reason)

/-- Once the first two calls are answered, the decision is to wait, or nothing of the first three kinds happened. -/
theorem waits_or_of_listed {info : MempoolInfo} {txids : List Txid} {P : Prop} (hi : env.info = .ok info)
    (ht : env.txids = .ok txids)
    (h : (∃ e, env.info = .error e) ∨ (∃ e, env.txids = .error e) ∨ Waits env t ∨ P) :
    (∃ reason, decision env t info txids = some (.waitCooldown reason)) ∨ P := by
  rcases h with ⟨e, he⟩ | ⟨e, he⟩ | ⟨info', txids', reason, hi', ht', hd⟩ | hp
  · rw [hi] at he; cases he
  · rw [ht] at he; cases he
  · rw [hi] at hi'
    rw [ht] at ht'
    cases hi'
    cases ht'
    exact Or.inl ⟨reason, hd⟩
  · exact Or.inr hp

/-- One of the three calls of a bulk resync fails. -/
def BulkEnv.Fails (env : BulkEnv) : Prop :=
  (∃ e, env.verbose = .error e) ∨ (∃ e, env.info = .error e) ∨ ∃ e, env.tip = .error e

theorem BulkEnv.Fails.not_loaded {env : BulkEnv} (h : env.Fails) :
    ¬ ∃ entries info tip, env.verbose = .ok entries ∧ env.info = .ok info ∧ env.tip = .ok tip := by
  rintro ⟨entries, info, tip, hv, hi, ht⟩
  rcases h with ⟨e, he⟩ | ⟨e, he⟩ | ⟨e, he⟩
  · rw [hv] at he; cases he
  · rw [hi] at he; cases he
  · rw [ht] at he; cases he

/-- **A failed or deferred tick leaves the data intact**, and the incremental path leaves alone what is cached and still
listed. -/
theorem failed_tick_intact (cfg : SyncConfig) (env : TickEnv) (t : Task) :
    (((∃ e, env.info = .error e) ∨ (∃ e, env.txids = .error e) ∨ Waits env t ∨ (Resyncs env t ∧ env.bulk.Fails)) →
      (steadyTick cfg env t).shared = { t.shared with caughtUp := false }) ∧
    (∀ txids, Increments env t txids → ∀ x ∈ t.shared.txs.keys, x ∈ txids →
      (steadyTick cfg env t).shared.txs.lookup x = t.shared.txs.lookup x) := by
  refine ⟨fun h => ?_, fun txids h x hx hl => ?_⟩
  · have hpath := steadyTick_path cfg env t
    generalize steadyTick cfg env t = t' at hpath
    cases hpath with
    | infoFailed e _ => rfl
    | txidsFailed info e _ _ => rfl
    | waits info txids reason _ _ _ => rfl
    | resyncs info txids reason hi ht hd =>
      rcases waits_or_of_listed hi ht h with ⟨r, hw⟩ | ⟨-, hf⟩
      · rw [hd] at hw; cases hw
      · rw [(resyncTick_failed cfg hf.not_loaded).1]
        rfl
    | increments info txids hi ht hd =>
      rcases waits_or_of_listed hi ht h with ⟨r, hw⟩ | ⟨hr, -⟩
      · rw [hd] at hw; cases hw
      · exact absurd hr (Increments.not_resyncs ⟨info, hi, ht, hd⟩)
  · obtain ⟨info, -, heq⟩ := h.eq cfg
    rw [heq, (incrementalTick_shared cfg env info txids.toFinset (listed env t)).1]
    exact lookup_tickTxs_of_cached hx (List.mem_toFinset.2 hl)

/-! ## A node that stands still -/

/-- The node lists `pool`, is loaded, answers every call, and no fetch is late. -/
structure Serves (cfg : SyncConfig) (pool : Finset Txid) (env : TickEnv) : Prop where
  info : ∃ info, env.info = .ok info ∧ info.loaded.getD true = true
  txids : ∃ txids, env.txids = .ok txids ∧ txids.toFinset = pool
  entry : ∀ x ∈ pool, ∃ entry, env.entry x = .ok (some entry)
  tip : ∃ h, env.tip = .ok h
  inBudget : ∀ x ∈ pool, env.elapsed x ≤ cfg.tickBudget

theorem consumed_of_inBudget : ∀ {l : List Txid}, (∀ x ∈ l, env.elapsed x ≤ cfg.tickBudget) → consumed cfg env l = l
  | [], _ => rfl
  | x :: l, h => by
    have hx := h x List.mem_cons_self
    unfold consumed
    rw [if_neg (by omega), consumed_of_inBudget (fun y hy => h y (List.mem_cons_of_mem x hy))]

theorem inTime_of_inBudget : ∀ {l : List Txid}, (∀ x ∈ l, env.elapsed x ≤ cfg.tickBudget) → inTime cfg env l = true
  | [], _ => rfl
  | x :: l, h => by
    have hx := h x List.mem_cons_self
    unfold inTime
    rw [if_neg (by omega)]
    exact inTime_of_inBudget (fun y hy => h y (List.mem_cons_of_mem x hy))

theorem nodup_newTxids (env : TickEnv) (t : Task) (pool : Finset Txid) : (newTxids env t pool).Nodup :=
  env.diffOrder.nodup _

theorem length_newTxids (env : TickEnv) (t : Task) (pool : Finset Txid) :
    (newTxids env t pool).length = (pool \ t.shared.txs.keys).card :=
  env.diffOrder.length_toList _

section Tick

variable {pool : Finset Txid}

theorem Serves.inBudget_completion (h : Serves cfg pool env) {l : List Txid} (hl : l ⊆ newTxids env t pool) :
    ∀ x ∈ env.completion l, env.elapsed x ≤ cfg.tickBudget := fun x hx =>
  h.inBudget x (mem_newTxids.1 (hl ((env.completion_perm l).mem_iff.1 hx))).1

/-- **Exactly the first new txids are received**, in whatever order they complete. -/
theorem Serves.mem_received (h : Serves cfg pool env) (t : Task) {x : Txid} :
    x ∈ received cfg env t pool ↔ x ∈ (newTxids env t pool).take maxNewFetchPerTick := by
  rw [received, consumed_of_inBudget (h.inBudget_completion (List.take_subset _ _)), (env.completion_perm _).mem_iff]

theorem Serves.keys_tickTxs (h : Serves cfg pool env) (t : Task) {x : Txid} :
    x ∈ (tickTxs cfg env t pool).keys ↔ x ∈ pool ∧ x ∉ (newTxids env t pool).drop maxNewFetchPerTick := by
  have hsplit : ∀ y, y ∈ newTxids env t pool ↔
      y ∈ (newTxids env t pool).take maxNewFetchPerTick ∨ y ∈ (newTxids env t pool).drop maxNewFetchPerTick := by
    intro y
    rw [← List.mem_append, List.take_append_drop]
  have hdisj : (newTxids env t pool).take maxNewFetchPerTick |>.Disjoint
      ((newTxids env t pool).drop maxNewFetchPerTick) := by
    have hnd := nodup_newTxids env t pool
    rw [← List.take_append_drop maxNewFetchPerTick (newTxids env t pool)] at hnd
    exact List.disjoint_of_nodup_append hnd
  rw [mem_keys_tickTxs, h.mem_received]
  constructor
  · rintro (⟨hk, hp⟩ | ⟨ht, -⟩)
    · exact ⟨hp, fun hd => (mem_newTxids.1 ((hsplit x).2 (Or.inr hd))).2 hk⟩
    · exact ⟨(mem_newTxids.1 ((hsplit x).2 (Or.inl ht))).1, fun hd => hdisj ht hd⟩
  · rintro ⟨hp, hd⟩
    by_cases hk : x ∈ t.shared.txs.keys
    · exact Or.inl ⟨hk, hp⟩
    · exact Or.inr ⟨((hsplit x).1 (mem_newTxids.2 ⟨hp, hk⟩)).resolve_right hd, h.entry x hp⟩

theorem Serves.missing_tickTxs (h : Serves cfg pool env) (t : Task) :
    (pool \ (tickTxs cfg env t pool).keys).card = (pool \ t.shared.txs.keys).card - maxNewFetchPerTick := by
  have hset : pool \ (tickTxs cfg env t pool).keys = ((newTxids env t pool).drop maxNewFetchPerTick).toFinset := by
    ext x
    rw [Finset.mem_sdiff, h.keys_tickTxs, List.mem_toFinset]
    constructor
    · rintro ⟨hp, hn⟩
      by_contra hd
      exact hn ⟨hp, hd⟩
    · exact fun hd => ⟨(mem_newTxids.1 (List.mem_of_mem_drop hd)).1, fun hn => hn.2 hd⟩
  have hnd : ((newTxids env t pool).drop maxNewFetchPerTick).Nodup :=
    (nodup_newTxids env t pool).sublist (List.drop_sublist _ _)
  rw [hset, List.toFinset_card_of_nodup hnd, List.length_drop, length_newTxids]

theorem Serves.tickBacklog_eq_false_iff (h : Serves cfg pool env) (t : Task) :
    tickBacklog cfg env t pool = false ↔ (pool \ t.shared.txs.keys).card ≤ maxNewFetchPerTick := by
  rw [Sync.tickBacklog_eq_false_iff, length_newTxids]
  refine ⟨fun hb => hb.1, fun hle => ⟨hle, fun x hx e he => ?_, ?_⟩⟩
  · obtain ⟨entry, hentry⟩ := h.entry x (mem_newTxids.1 hx).1
    rw [hentry] at he
    cases he
  · exact inTime_of_inBudget (h.inBudget_completion (fun _ hx => hx))

/-- **One tick against a node that stands still**: it increments, removes everything unlisted, and brings the missing
down by its cap. -/
theorem drain_tick (h : Serves cfg pool env) (hdrop : isMassDrop t.shared.txs.keys.card pool.card = false) :
    (∃ txids, Increments env t txids) ∧ (steadyTick cfg env t).shared.txs.keys ⊆ pool ∧
      (pool \ (steadyTick cfg env t).shared.txs.keys).card = (pool \ t.shared.txs.keys).card - maxNewFetchPerTick ∧
      ((steadyTick cfg env t).shared.caughtUp = true ↔ (pool \ t.shared.txs.keys).card ≤ maxNewFetchPerTick) := by
  obtain ⟨info, hi, hloaded⟩ := h.info
  obtain ⟨txids, ht, rfl⟩ := h.txids
  have hd : decision env t info txids = none := decideDesync_eq_none_iff.2 ⟨hloaded, hdrop⟩
  have hinc : Increments env t txids := ⟨info, hi, ht, hd⟩
  obtain ⟨info', -, heq⟩ := hinc.eq cfg
  obtain ⟨htxs, hup, -⟩ := incrementalTick_shared cfg env info' txids.toFinset (listed env t)
  rw [heq, htxs, hup]
  refine ⟨⟨txids, hinc⟩, fun x hx => (h.keys_tickTxs (listed env t)).1 hx |>.1, h.missing_tickTxs (listed env t), ?_⟩
  rw [Bool.not_eq_true']
  exact h.tickBacklog_eq_false_iff (listed env t)

theorem isMassDrop_of_subset {keys : Finset Txid} (h : keys ⊆ pool) : isMassDrop keys.card pool.card = false := by
  have hle := Finset.card_le_card h
  unfold isMassDrop massDropInverse
  rw [Bool.and_eq_false_iff, decide_eq_false_iff_not, decide_eq_false_iff_not]
  omega

end Tick

/-- The run of ticks, with the count of ticks in the place of the list. -/
theorem drain_run {pool : Finset Txid} : ∀ (ticks : List TickEnv) (t : Task), (∀ env ∈ ticks, Serves cfg pool env) →
    isMassDrop t.shared.txs.keys.card pool.card = false → ticks ≠ [] →
    (∀ pre env post, ticks = pre ++ env :: post → ∃ txids, Increments env (steadyRun cfg pre t) txids) ∧
      (steadyRun cfg ticks t).shared.txs.keys ⊆ pool ∧
      (pool \ (steadyRun cfg ticks t).shared.txs.keys).card =
        (pool \ t.shared.txs.keys).card - maxNewFetchPerTick * ticks.length ∧
      ((steadyRun cfg ticks t).shared.caughtUp = true ↔
        (pool \ t.shared.txs.keys).card ≤ maxNewFetchPerTick * ticks.length)
  | [], _, _, _, hne => absurd rfl hne
  | env :: ticks, t, hserves, hdrop, _ => by
    obtain ⟨hinc, hsub, hmiss, hup⟩ := drain_tick (hserves env List.mem_cons_self) hdrop
    have hrest := drain_run ticks (steadyTick cfg env t) (fun e he => hserves e (List.mem_cons_of_mem env he))
      (isMassDrop_of_subset hsub)
    have hrun : steadyRun cfg (env :: ticks) t = steadyRun cfg ticks (steadyTick cfg env t) := rfl
    have hincs : ∀ pre e post, env :: ticks = pre ++ e :: post → ∃ txids, Increments e (steadyRun cfg pre t) txids := by
      intro pre e post hs
      cases pre with
      | nil =>
        rw [List.nil_append, List.cons.injEq] at hs
        obtain ⟨rfl, -⟩ := hs
        exact hinc
      | cons p pre =>
        rw [List.cons_append, List.cons.injEq] at hs
        obtain ⟨rfl, rfl⟩ := hs
        exact (hrest (by simp)).1 pre e post rfl
    rw [hrun, List.length_cons]
    by_cases hnil : ticks = []
    · subst hnil
      rw [List.length_nil, Nat.zero_add, Nat.mul_one]
      exact ⟨hincs, hsub, hmiss, hup⟩
    · obtain ⟨-, hsub', hmiss', hup'⟩ := hrest hnil
      rw [hmiss] at hmiss' hup'
      refine ⟨hincs, hsub', ?_, ?_⟩
      · rw [hmiss', Nat.mul_succ]
        omega
      · rw [hup', Nat.mul_succ]
        omega

/-- **A backlog always drains**: after `k` ticks against a node that stands still, `2000 * k` fewer listed txids are
missing, nothing else is cached, and the cache is caught up exactly when none is missing. -/
theorem backlog_drains (cfg : SyncConfig) (pool : Finset Txid) (t : Task) (ticks : List TickEnv) (hne : ticks ≠ [])
    (hserves : ∀ env ∈ ticks, Serves cfg pool env)
    (hdrop : isMassDrop t.shared.txs.keys.card pool.card = false) :
    (pool \ (steadyRun cfg ticks t).shared.txs.keys).card = (pool \ t.shared.txs.keys).card - 2000 * ticks.length ∧
      (steadyRun cfg ticks t).shared.txs.keys ⊆ pool ∧
      (∀ pre env post, ticks = pre ++ env :: post →
        ¬ Resyncs env (steadyRun cfg pre t) ∧ ¬ Waits env (steadyRun cfg pre t)) ∧
      ((steadyRun cfg ticks t).shared.caughtUp = true ↔ (pool \ t.shared.txs.keys).card ≤ 2000 * ticks.length) ∧
      ((pool \ t.shared.txs.keys).card ≤ 2000 * ticks.length → (steadyRun cfg ticks t).shared.txs.keys = pool) := by
  obtain ⟨hinc, hsub, hmiss, hup⟩ := drain_run ticks t hserves hdrop hne
  refine ⟨hmiss, hsub, fun pre env post hs => ?_, hup, fun hle => ?_⟩
  · obtain ⟨txids, h⟩ := hinc pre env post hs
    refine ⟨h.not_resyncs, ?_⟩
    rintro ⟨info, txids', reason, hi, ht, hd⟩
    rw [h.decision_eq hi ht] at hd
    cases hd
  · have hnone : (pool \ (steadyRun cfg ticks t).shared.txs.keys).card = 0 := by
      rw [hmiss]
      exact Nat.sub_eq_zero_of_le hle
    exact Finset.Subset.antisymm hsub (Finset.sdiff_eq_empty_iff_subset.1 (Finset.card_eq_zero.1 hnone))

def pairEnv : TickEnv :=
  { idleEnv with
    txids := .ok [10, 11]
    entry := fun _ => .ok (some ⟨100, some 400, [], ⟨1000, 1000, 1000⟩, 100, 100, none⟩) }

def txidAt (i : ℕ) : Txid := Fin.ofNat (2 ^ 256) i

theorem txidAt_val {i : ℕ} (h : i < 2 ^ 256) : (txidAt i).val = i := Nat.mod_eq_of_lt h

theorem nodup_map_txidAt {l : List ℕ} (hl : ∀ i ∈ l, i < 2 ^ 256) (hnd : l.Nodup) : (l.map txidAt).Nodup :=
  hnd.map_on (fun i hi j hj h => by
    rw [← txidAt_val (hl i hi), ← txidAt_val (hl j hj), h])

theorem card_map_txidAt {l : List ℕ} (hl : ∀ i ∈ l, i < 2 ^ 256) (hnd : l.Nodup) :
    (l.map txidAt).toFinset.card = l.length := by
  rw [List.toFinset_card_of_nodup (nodup_map_txidAt hl hnd), List.length_map]

@[irreducible] def deepTxids : List Txid := (List.range 4500).map txidAt

theorem card_deepTxids : deepTxids.toFinset.card = 4500 := by
  unfold deepTxids
  exact (card_map_txidAt (fun i hi => (List.mem_range.1 hi).trans (by decide)) List.nodup_range).trans List.length_range

/-- A node whose mempool takes three ticks to fetch. -/
def deepEnv : TickEnv := { pairEnv with txids := .ok deepTxids }

theorem backlog_drains_deepEnv :
    (deepTxids.toFinset \ (steadyRun idleConfig [deepEnv, deepEnv] (Task.init .bitcoin)).shared.txs.keys).card = 500 ∧
      (steadyRun idleConfig [deepEnv, deepEnv] (Task.init .bitcoin)).shared.caughtUp ≠ true ∧
      (steadyRun idleConfig [deepEnv, deepEnv, deepEnv] (Task.init .bitcoin)).shared.txs.keys = deepTxids.toFinset := by
  have hserves : Serves idleConfig deepTxids.toFinset deepEnv :=
    ⟨⟨_, rfl, rfl⟩, ⟨_, rfl, rfl⟩, fun _ _ => ⟨_, rfl⟩, ⟨_, rfl⟩, fun _ _ => Nat.zero_le _⟩
  have hkeys : (Task.init .bitcoin).shared.txs.keys = ∅ := rfl
  have hmissing : (deepTxids.toFinset \ (Task.init .bitcoin).shared.txs.keys).card = 4500 := by
    rw [hkeys, Finset.sdiff_empty, card_deepTxids]
  have hdrop : isMassDrop (Task.init .bitcoin).shared.txs.keys.card deepTxids.toFinset.card = false :=
    isMassDrop_of_subset (hkeys ▸ Finset.empty_subset _)
  have htwo := backlog_drains idleConfig deepTxids.toFinset (Task.init .bitcoin) [deepEnv, deepEnv] (by simp)
    (by simp [hserves]) hdrop
  have hthree := backlog_drains idleConfig deepTxids.toFinset (Task.init .bitcoin) [deepEnv, deepEnv, deepEnv] (by simp)
    (by simp [hserves]) hdrop
  rw [hmissing] at htwo hthree
  exact ⟨htwo.1, fun hup => absurd (htwo.2.2.2.1.1 hup) (by decide), hthree.2.2.2.2 (by decide)⟩

end Sync
end Satya
