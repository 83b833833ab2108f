import Satya.SyncDiff
/-!
# SyncSlow — a slow node, and one that moves

The budget cuts a tick's fetches off only after a first result, and takes what is ready by then along, so no budget is
too small for a tick to make progress (`slow_tick`).  What is missing then moves by what arrives less what a tick fetches,
and the loop keeps up with a node that moves no faster (`keeps_up`).  With one that stands still it catches up from any
state: the backlog drains, or it looks like a mass drop, and then the cooldown runs out and the cache is replaced
(`catches_up`).
-/
namespace Satya
namespace Sync

variable {cfg : SyncConfig} {pool : Finset Txid} {rate : ℕ} {env : TickEnv} {t : Task}

/-- The node lists `pool`, is loaded, and has what it lists; when it answers is open. -/
structure Offers (pool : Finset Txid) (env : TickEnv) : Prop where
  info : ∃ info, env.info = .ok info ∧ info.loaded.getD true = true
  txids : ∃ txids, env.txids = .ok txids ∧ txids.toFinset = pool
  entry : ∀ x ∈ pool, ∃ entry, env.entry x = .ok (some entry)

/-- Its dump is of `pool`, too. -/
structure Responds (pool : Finset Txid) (env : TickEnv) : Prop extends Offers pool env where
  bulk : ∃ entries info tip, env.bulk.verbose = .ok entries ∧ env.bulk.info = .ok info ∧ env.bulk.tip = .ok tip ∧
    (entries.map Prod.fst).toFinset = pool

/-- What a tick leaves of a cache that does not look like a mass drop: nothing unlisted, and `rate` fewer missing. -/
structure Drains (cfg : SyncConfig) (pool : Finset Txid) (rate : ℕ) (env : TickEnv) (t : Task) : Prop where
  subset : (steadyTick cfg env t).shared.txs.keys ⊆ pool
  missing : (pool \ (steadyTick cfg env t).shared.txs.keys).card ≤ (pool \ t.shared.txs.keys).card - rate
  caughtUp : (steadyTick cfg env t).shared.caughtUp = true ↔ (pool \ (steadyTick cfg env t).shared.txs.keys).card = 0

theorem Drains.of_le {rate' : ℕ} (h : Drains cfg pool rate env t) (hle : rate' ≤ rate) : Drains cfg pool rate' env t :=
  { h with missing := h.missing.trans (Nat.sub_le_sub_left hle _) }

theorem eq_of_missing_eq_zero {keys : Finset Txid} (hsub : keys ⊆ pool) (h : (pool \ keys).card = 0) : keys = pool :=
  Finset.Subset.antisymm hsub (Finset.sdiff_eq_empty_iff_subset.1 (Finset.card_eq_zero.1 h))

/-! ## One slow tick -/

/-- **The first result is received whatever the budget**, and then what is ready. -/
theorem le_length_consumed (cfg : SyncConfig) (env : TickEnv) : ∀ l : List Txid,
    min l.length (env.ready + 1) ≤ (consumed cfg env l).length
  | [] => Nat.min_le_left _ _
  | txid :: rest => by
    have ih := le_length_consumed cfg env rest
    unfold consumed
    split
    · rw [List.length_cons, List.length_cons, List.length_take]
      omega
    · rw [List.length_cons, List.length_cons]
      omega

theorem le_length_received (cfg : SyncConfig) (env : TickEnv) (t : Task) (pool : Finset Txid) :
    min (pool \ t.shared.txs.keys).card (min maxNewFetchPerTick (env.ready + 1)) ≤ (received cfg env t pool).length := by
  have hle := le_length_consumed cfg env (env.completion ((newTxids env t pool).take maxNewFetchPerTick))
  rw [(env.completion_perm _).length_eq, List.length_take, length_newTxids] at hle
  rw [received]
  omega

/-- **Each result brings one of the missing.** -/
theorem Offers.missing_tickTxs (h : Offers pool env) (t : Task) :
    (pool \ (tickTxs cfg env t pool).keys).card = (pool \ t.shared.txs.keys).card - (received cfg env t pool).length := by
  have hset : pool \ (tickTxs cfg env t pool).keys = (pool \ t.shared.txs.keys) \ (received cfg env t pool).toFinset := by
    ext x
    rw [Finset.mem_sdiff, Finset.mem_sdiff, Finset.mem_sdiff, List.mem_toFinset, mem_keys_tickTxs]
    constructor
    · rintro ⟨hp, hn⟩
      exact ⟨⟨hp, fun hk => hn (Or.inl ⟨hk, hp⟩)⟩, fun hr => hn (Or.inr ⟨hr, h.entry x hp⟩)⟩
    · rintro ⟨⟨hp, hk⟩, hr⟩
      exact ⟨hp, fun hn => hn.elim (fun hc => hk hc.1) (fun hc => hr hc.1)⟩
  have hsub : (received cfg env t pool).toFinset ⊆ pool \ t.shared.txs.keys := fun x hx =>
    Finset.mem_sdiff.2 (mem_newTxids.1 (mem_newTxids_of_received (List.mem_toFinset.1 hx)))
  rw [hset, Finset.card_sdiff_of_subset hsub, List.toFinset_card_of_nodup (nodup_received cfg env t pool)]

theorem keys_tickTxs_subset (cfg : SyncConfig) (env : TickEnv) (t : Task) (pool : Finset Txid) :
    (tickTxs cfg env t pool).keys ⊆ pool := by
  intro x hx
  rcases mem_keys_tickTxs.1 hx with ⟨-, hp⟩ | ⟨hr, -⟩
  · exact hp
  · exact (mem_newTxids.1 (mem_newTxids_of_received hr)).1

theorem Offers.tickBacklog_eq_false_iff (h : Offers pool env) (t : Task) :
    tickBacklog cfg env t pool = false ↔ (pool \ (tickTxs cfg env t pool).keys).card = 0 := by
  have herrors : (received cfg env t pool).countP (fetchFailed env) = 0 := by
    rw [List.countP_eq_zero]
    intro x hx hf
    obtain ⟨e, he⟩ := fetchFailed_iff.1 hf
    obtain ⟨entry, hentry⟩ := h.entry x (mem_newTxids.1 (mem_newTxids_of_received hx)).1
    rw [hentry] at he
    cases he
  have hreceived : (received cfg env t pool).length ≤ min maxNewFetchPerTick (pool \ t.shared.txs.keys).card := by
    have hle := (@prefix_consumed cfg env
      (env.completion ((newTxids env t pool).take maxNewFetchPerTick))).length_le
    rwa [(env.completion_perm _).length_eq, List.length_take, length_newTxids] at hle
  rw [tickBacklog, isBacklog_eq_false_iff, decide_eq_false_iff_not, herrors, h.missing_tickTxs, List.length_take,
    length_newTxids]
  omega

/-- **However slow the node, a tick makes progress**: one result, and what is ready when the budget runs out. -/
theorem slow_tick (h : Offers pool env) (hdrop : isMassDrop t.shared.txs.keys.card pool.card = false) :
    Drains cfg pool (min maxNewFetchPerTick (env.ready + 1)) env t := by
  obtain ⟨info, hi, hloaded⟩ := h.info
  obtain ⟨txids, ht, rfl⟩ := h.txids
  have hinc : Increments env t txids := ⟨info, hi, ht, decideDesync_eq_none_iff.2 ⟨hloaded, hdrop⟩⟩
  obtain ⟨info', -, heq⟩ := hinc.eq cfg
  obtain ⟨htxs, hup, -⟩ := incrementalTick_shared cfg env info' txids.toFinset (listed env t)
  have hreceived := le_length_received cfg env (listed env t) txids.toFinset
  refine ⟨?_, ?_, ?_⟩
  · rw [heq, htxs]
    exact keys_tickTxs_subset cfg env (listed env t) _
  · rw [heq, htxs, h.missing_tickTxs]
    have hlisted : (listed env t).shared = t.shared := rfl
    rw [hlisted] at hreceived ⊢
    omega
  · rw [heq, htxs, hup, Bool.not_eq_true']
    exact h.tickBacklog_eq_false_iff (listed env t)

/-! ## A node that moves -/

/-- Up to the tick `n`, at most `arrivals` enter the node's mempool from one tick to the next, and it does not drop. -/
def Moves (arrivals : ℕ) (pool : ℕ → Finset Txid) (n : ℕ) : Prop :=
  ∀ k < n, (pool (k + 1) \ pool k).card ≤ arrivals ∧ isMassDrop (pool k).card (pool (k + 1)).card = false

theorem isMassDrop_mono {m n k : ℕ} (hle : m ≤ n) (h : isMassDrop n k = false) : isMassDrop m k = false := by
  unfold isMassDrop at *
  rw [Bool.and_eq_false_iff, decide_eq_false_iff_not, decide_eq_false_iff_not] at *
  omega

theorem missing_move (keys before after : Finset Txid) :
    (after \ keys).card ≤ (before \ keys).card + (after \ before).card := by
  refine (Finset.card_le_card (fun x hx => ?_)).trans (Finset.card_union_le _ _)
  obtain ⟨hp, hk⟩ := Finset.mem_sdiff.1 hx
  by_cases hx : x ∈ before
  · exact Finset.mem_union_left _ (Finset.mem_sdiff.2 ⟨hx, hk⟩)
  · exact Finset.mem_union_right _ (Finset.mem_sdiff.2 ⟨hp, hx⟩)

/-- **The loop keeps up**: where every tick fetches `rate` and no more than that arrive between two, a backlog that the
ticks have the surplus for is gone. -/
theorem keeps_up {arrivals : ℕ} (hrate : arrivals ≤ rate) : ∀ (ticks : List TickEnv) (pool : ℕ → Finset Txid) (t : Task),
    (∀ k env, ticks[k]? = some env → ∀ t : Task, isMassDrop t.shared.txs.keys.card (pool k).card = false →
      Drains cfg (pool k) rate env t) →
    Moves arrivals pool (ticks.length - 1) → ticks ≠ [] → isMassDrop t.shared.txs.keys.card (pool 0).card = false →
    (pool 0 \ t.shared.txs.keys).card + arrivals * (ticks.length - 1) ≤ rate * ticks.length →
      (steadyRun cfg ticks t).shared.caughtUp = true ∧ (steadyRun cfg ticks t).shared.txs.keys = pool (ticks.length - 1)
  | [], _, _, _, _, hne, _, _ => absurd rfl hne
  | env :: ticks, pool, t, hdrains, hmoves, _, hdrop, hcount => by
    have htick := hdrains 0 env rfl t hdrop
    have hmissing := htick.missing
    have hrun : steadyRun cfg (env :: ticks) t = steadyRun cfg ticks (steadyTick cfg env t) := rfl
    rw [List.length_cons, Nat.add_sub_cancel, Nat.mul_succ] at hcount
    rw [List.length_cons, Nat.add_sub_cancel] at hmoves ⊢
    rw [hrun]
    cases ticks with
    | nil =>
      rw [List.length_nil, Nat.mul_zero, Nat.mul_zero] at hcount
      have hnone : (pool 0 \ (steadyTick cfg env t).shared.txs.keys).card = 0 := by omega
      exact ⟨htick.caughtUp.2 hnone, eq_of_missing_eq_zero htick.subset hnone⟩
    | cons next ticks =>
      have hmove : (pool 1 \ pool 0).card ≤ arrivals ∧ isMassDrop (pool 0).card (pool 1).card = false :=
        hmoves 0 (Nat.zero_lt_succ _)
      have hnext := missing_move (steadyTick cfg env t).shared.txs.keys (pool 0) (pool 1)
      have hsurplus := Nat.mul_le_mul_right (ticks.length + 1) hrate
      rw [List.length_cons] at hcount hmoves
      rw [Nat.mul_succ arrivals] at hcount hsurplus
      have hrest : (pool 1 \ (steadyTick cfg env t).shared.txs.keys).card + arrivals * ticks.length ≤
          rate * (ticks.length + 1) := by omega
      exact keeps_up hrate (next :: ticks) (fun k => pool (k + 1)) (steadyTick cfg env t)
        (fun k e he => hdrains (k + 1) e (by simpa using he)) (fun k hk => hmoves (k + 1) (Nat.succ_lt_succ hk))
        (List.cons_ne_nil _ _) (isMassDrop_mono (Finset.card_le_card htick.subset) hmove.2)
        (by rw [List.length_cons, Nat.add_sub_cancel]; exact hrest)

/-- **No backlog stays where a tick fetches more than arrives**: from a cache of what a moving node held, the loop ends
caught up with it after as many ticks as give the fetches a surplus over the arrivals that covers the first backlog. -/
theorem moving_node_caught_up (cfg : SyncConfig) (pool : ℕ → Finset Txid) (t : Task) (arrivals ready : ℕ)
    (ticks : List TickEnv) (hne : ticks ≠ [])
    (hoffers : ∀ k env, ticks[k]? = some env → Offers (pool (k + 1)) env ∧ ready ≤ env.ready)
    (hmoves : Moves arrivals pool ticks.length) (hcached : t.shared.txs.keys ⊆ pool 0)
    (hcount : (pool 0 \ t.shared.txs.keys).card + arrivals * ticks.length ≤
      min maxNewFetchPerTick (ready + 1) * ticks.length) :
    (steadyRun cfg ticks t).shared.caughtUp = true ∧ (steadyRun cfg ticks t).shared.txs.keys = pool ticks.length := by
  have hpos : 0 < ticks.length := List.length_pos_of_ne_nil hne
  have hrate : arrivals ≤ min maxNewFetchPerTick (ready + 1) :=
    Nat.le_of_mul_le_mul_right ((Nat.le_add_left _ _).trans hcount) hpos
  have hfirst : (pool 1 \ pool 0).card ≤ arrivals ∧ isMassDrop (pool 0).card (pool 1).card = false := hmoves 0 hpos
  have hnext := missing_move t.shared.txs.keys (pool 0) (pool 1)
  have hlen : ticks.length - 1 + 1 = ticks.length := Nat.sub_add_cancel hpos
  have hsplit : arrivals * ticks.length = arrivals * (ticks.length - 1) + arrivals := by
    rw [← Nat.mul_succ, Nat.succ_eq_add_one, hlen]
  have hbacklog : (pool 1 \ t.shared.txs.keys).card + arrivals * (ticks.length - 1) ≤
      min maxNewFetchPerTick (ready + 1) * ticks.length := by omega
  have h := @keeps_up cfg _ _ hrate ticks (fun k => pool (k + 1)) t
    (fun k env he t hdrop => (slow_tick (hoffers k env he).1 hdrop).of_le
      (le_min (Nat.min_le_left _ _) ((Nat.min_le_right _ _).trans (Nat.succ_le_succ (hoffers k env he).2))))
    (fun k hk => hmoves (k + 1) (by omega)) hne
    (isMassDrop_mono (Finset.card_le_card hcached) hfirst.2) hbacklog
  rwa [hlen] at h

/-- One transaction a tick. -/
def movingPool : ℕ → Finset Txid
  | 0 => ∅
  | 1 => {10}
  | _ => {10, 11}

def slowEntry : MempoolEntry := ⟨100, some 400, [], ⟨1000, 1000, 1000⟩, 100, 100, none⟩

/-- Each result comes alone, and past the budget. -/
def slowEnv : TickEnv :=
  { idleEnv with
    txids := .ok [10, 11]
    entry := fun _ => .ok (some slowEntry)
    bulk := ⟨.ok [(10, slowEntry), (11, slowEntry)], .ok ⟨some true, 1000⟩, .ok 7⟩
    elapsed := fun _ => 5 * 10 ^ 9 }

theorem moving_node_caught_up_slowEnv :
    (steadyRun idleConfig [{ slowEnv with txids := .ok [10] }, slowEnv] (Task.init .bitcoin)).shared.caughtUp = true ∧
      (steadyRun idleConfig [{ slowEnv with txids := .ok [10] }, slowEnv] (Task.init .bitcoin)).shared.txs.keys =
        movingPool 2 := by
  have hfirst : Offers {10} { slowEnv with txids := .ok [10] } := ⟨⟨_, rfl, rfl⟩, ⟨_, rfl, rfl⟩, fun _ _ => ⟨_, rfl⟩⟩
  have hsecond : Offers {10, 11} slowEnv := ⟨⟨_, rfl, rfl⟩, ⟨_, rfl, rfl⟩, fun _ _ => ⟨_, rfl⟩⟩
  refine moving_node_caught_up idleConfig movingPool (Task.init .bitcoin) 1 0 _ (List.cons_ne_nil _ _)
    (fun k env he => ?_) (by unfold Moves; decide +kernel) (by decide +kernel) (by decide +kernel)
  rcases k with _ | _ | k
  · cases he
    exact ⟨hfirst, Nat.zero_le _⟩
  · cases he
    exact ⟨hsecond, Nat.zero_le _⟩
  · cases he

/-! ## A node that stands still -/

theorem moves_still (arrivals : ℕ) (pool : Finset Txid) (n : ℕ) : Moves arrivals (fun _ => pool) n := fun _ _ =>
  ⟨by rw [Finset.sdiff_self]; exact Nat.zero_le _, isMassDrop_of_subset (Finset.Subset.refl pool)⟩

theorem Responds.decision_of_massDrop (h : Responds pool env)
    (hdrop : isMassDrop t.shared.txs.keys.card pool.card = true) : ∃ info txids, env.info = .ok info ∧
      env.txids = .ok txids ∧ decision env t info txids =
        some (if resyncCoolingDown (some t.lastBulkResync) env.decisionNow then .waitCooldown .massDrop
          else .bulkResync .massDrop) := by
  obtain ⟨info, hi, hloaded⟩ := h.info
  obtain ⟨txids, ht, rfl⟩ := h.txids
  refine ⟨info, txids, hi, ht, ?_⟩
  rw [decision, decideDesync, hloaded, hdrop]
  rfl

/-- **What seems a mass drop waits out the cooldown, and then is reloaded.** -/
theorem Responds.tick_of_massDrop (h : Responds pool env) (cfg : SyncConfig)
    (hdrop : isMassDrop t.shared.txs.keys.card pool.card = true) :
    (env.decisionNow - t.lastBulkResync < resyncCooldown ∧ (steadyTick cfg env t).shared.txs = t.shared.txs ∧
        (steadyTick cfg env t).lastBulkResync = t.lastBulkResync) ∨
      (resyncCooldown ≤ env.decisionNow - t.lastBulkResync ∧ (steadyTick cfg env t).shared.caughtUp = true ∧
        (steadyTick cfg env t).shared.txs.keys = pool) := by
  obtain ⟨info, txids, hi, ht, hd⟩ := h.decision_of_massDrop hdrop
  by_cases hcool : env.decisionNow - t.lastBulkResync < resyncCooldown
  · have hcooling : resyncCoolingDown (some t.lastBulkResync) env.decisionNow = true := decide_eq_true hcool
    rw [hcooling, if_pos rfl] at hd
    rw [steadyTick_of_listed hi ht, hd]
    exact Or.inl ⟨hcool, rfl, rfl⟩
  · have hcooled : resyncCoolingDown (some t.lastBulkResync) env.decisionNow = false := decide_eq_false hcool
    rw [hcooled, if_neg Bool.false_ne_true] at hd
    obtain ⟨entries, bulkInfo, tip, hv, hbi, hbt, hdump⟩ := h.bulk
    obtain ⟨htxs, hup, -⟩ := @resyncTick_loaded cfg env ((listed env t).emit (.decided (.bulkResync .massDrop)))
      entries bulkInfo tip hv hbi hbt
    rw [steadyTick_of_listed hi ht, hd]
    exact Or.inr ⟨not_lt.1 hcool, hup, by rw [htxs, keys_collectDump, hdump]⟩

/-- Whether the ticks are enough: what seems a mass drop needs one past the cooldown, a backlog one for each `rate`
missing. -/
def Enough (pool : Finset Txid) (rate : ℕ) (t : Task) (ticks : List TickEnv) : Prop :=
  if isMassDrop t.shared.txs.keys.card pool.card then
    ∃ env ∈ ticks, resyncCooldown ≤ env.decisionNow - t.lastBulkResync
  else ticks ≠ [] ∧ (pool \ t.shared.txs.keys).card ≤ rate * ticks.length

instance (ticks : List TickEnv) : Decidable (Enough pool rate t ticks) :=
  inferInstanceAs (Decidable (if isMassDrop t.shared.txs.keys.card pool.card then _ else _))

/-- **From any state the loop catches up with a node that stands still**, and stays caught up. -/
theorem catches_up : ∀ (ticks : List TickEnv) (t : Task), (∀ env ∈ ticks, Responds pool env) →
    (∀ env ∈ ticks, ∀ t : Task, isMassDrop t.shared.txs.keys.card pool.card = false → Drains cfg pool rate env t) →
    Enough pool rate t ticks →
      (steadyRun cfg ticks t).shared.caughtUp = true ∧ (steadyRun cfg ticks t).shared.txs.keys = pool
  | [], t, _, _, henough => by
    unfold Enough at henough
    split at henough
    · obtain ⟨env, henv, -⟩ := henough
      exact absurd henv List.not_mem_nil
    · exact absurd rfl henough.1
  | env :: ticks, t, hresponds, hdrains, henough => by
    have hresponds' := fun e he => hresponds e (List.mem_cons_of_mem env he)
    have hdrains' := fun e he => hdrains e (List.mem_cons_of_mem env he)
    show (steadyRun cfg ticks (steadyTick cfg env t)).shared.caughtUp = true ∧
      (steadyRun cfg ticks (steadyTick cfg env t)).shared.txs.keys = pool
    unfold Enough at henough
    split at henough
    · next hdrop =>
      rcases (hresponds env List.mem_cons_self).tick_of_massDrop cfg hdrop with
        ⟨hcool, htxs, hlast⟩ | ⟨-, hup, hkeys⟩
      · -- still cooling down: nothing has changed but the flag, and the tick past the cooldown is yet to come
        refine catches_up ticks (steadyTick cfg env t) hresponds' hdrains' ?_
        unfold Enough
        rw [htxs, hlast, if_pos hdrop]
        obtain ⟨late, hmem, hlate⟩ := henough
        rcases List.mem_cons.1 hmem with rfl | hmem
        · exact absurd hcool (not_lt.2 hlate)
        · exact ⟨late, hmem, hlate⟩
      · by_cases hnil : ticks = []
        · subst hnil
          exact ⟨hup, hkeys⟩
        · exact keeps_up (Nat.zero_le rate) ticks (fun _ => pool) (steadyTick cfg env t)
            (fun k e he => hdrains' e (List.mem_of_getElem? he)) (moves_still 0 pool _) hnil
            (isMassDrop_of_subset hkeys.subset) (by rw [hkeys, Finset.sdiff_self]; simp)
    · next hdrop =>
      exact keeps_up (Nat.zero_le rate) (env :: ticks) (fun _ => pool) t
        (fun k e he => hdrains e (List.mem_of_getElem? he)) (moves_still 0 pool _) (List.cons_ne_nil _ _)
        (Bool.eq_false_iff.2 hdrop) (by rw [Nat.zero_mul]; exact henough.2)

/-- **No node is too slow and no budget too small**: from any state, a node that stands still and answers is caught up
with after one tick for each `ready + 1` missing transactions, where `ready` is how many results are ready whenever the
budget runs out, or after one tick past the cooldown when the cache looks like a mass drop. -/
theorem slow_node_caught_up (cfg : SyncConfig) (pool : Finset Txid) (t : Task) (ready : ℕ) (ticks : List TickEnv)
    (hresponds : ∀ env ∈ ticks, Responds pool env) (hready : ∀ env ∈ ticks, ready ≤ env.ready)
    (henough : Enough pool (min maxNewFetchPerTick (ready + 1)) t ticks) :
    (steadyRun cfg ticks t).shared.caughtUp = true ∧ (steadyRun cfg ticks t).shared.txs.keys = pool := by
  refine catches_up ticks t hresponds (fun env henv t hdrop => ?_) henough
  exact (slow_tick (hresponds env henv).toOffers hdrop).of_le
    (le_min (Nat.min_le_left _ _) ((Nat.min_le_right _ _).trans (Nat.succ_le_succ (hready env henv))))

theorem slow_node_caught_up_slowEnv :
    (steadyRun idleConfig [slowEnv, slowEnv] (Task.init .bitcoin)).shared.caughtUp = true ∧
      (steadyRun idleConfig [slowEnv, slowEnv] (Task.init .bitcoin)).shared.txs.keys = {10, 11} := by
  have hslow : ∀ env ∈ [slowEnv, slowEnv], env = slowEnv := by simp
  have hresponds : Responds {10, 11} slowEnv :=
    ⟨⟨⟨_, rfl, rfl⟩, ⟨_, rfl, rfl⟩, fun _ _ => ⟨_, rfl⟩⟩, ⟨_, _, _, rfl, rfl, rfl, rfl⟩⟩
  exact slow_node_caught_up idleConfig {10, 11} (Task.init .bitcoin) 0 [slowEnv, slowEnv]
    (fun env henv => hslow env henv ▸ hresponds) (fun _ _ => Nat.zero_le _) (by decide +kernel)

end Sync
end Satya
