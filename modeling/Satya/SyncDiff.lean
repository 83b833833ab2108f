import Satya.SyncDrain
/-!
# SyncDiff — what the incremental diff removes, and how many transactions it leaves

The guard compares two sizes, and only what is listed and not cached tells the sizes from the sets: the diff removes at
most 4/5 of the cache and as many more as it finds new ones (`mass_drop_guard`).  Its txid lists are without repetition
and each fetch counts once, so the size that the tick reports is the size of the cache it leaves (`reported_size`).
-/
namespace Satya
namespace Sync

variable {cfg : SyncConfig} {env : TickEnv} {t : Task}

/-! ## The guard -/

theorem length_goneTxids (env : TickEnv) (t : Task) (pool : Finset Txid) :
    (goneTxids env t pool).length = (t.shared.txs.keys \ pool).card :=
  env.diffOrder.length_toList _

/-- **Two sets differ in both directions by what tells their sizes apart.** -/
theorem card_diffs (s u : Finset Txid) : (s \ u).card + u.card = (u \ s).card + s.card := by
  rw [Finset.card_sdiff_add_card, Finset.card_sdiff_add_card, Finset.union_comm]

theorem gone_le_of_not_massDrop {keys pool : Finset Txid} (hcache : massDropMinCacheSize ≤ keys.card)
    (h : isMassDrop keys.card pool.card = false) : 5 * (keys \ pool).card ≤ 4 * keys.card + 5 * (pool \ keys).card := by
  have hsize : keys.card ≤ pool.card * massDropInverse := by
    by_contra hlt
    rw [isMassDrop, decide_eq_true hcache, decide_eq_true (not_le.1 hlt)] at h
    cases h
  have hcards := card_diffs keys pool
  rw [massDropInverse] at hsize
  omega

/-- The cache is what a verbose dump of the node holds. -/
def Replaced (env : TickEnv) (t' : Task) : Prop :=
  ∃ entries, env.bulk.verbose = .ok entries ∧ t'.shared.txs = collectDump entries

/-- **A tick that does not increment leaves the cache alone or replaces it.** -/
theorem kept_or_replaced (cfg : SyncConfig) (env : TickEnv) (t : Task) (h : ¬ ∃ txids, Increments env t txids) :
    (steadyTick cfg env t).shared.txs = t.shared.txs ∨ Replaced env (steadyTick cfg env t) := by
  have hpath := steadyTick_path cfg env t
  generalize steadyTick cfg env t = t' at hpath
  cases hpath with
  | infoFailed e _ => exact Or.inl rfl
  | txidsFailed info e _ _ => exact Or.inl rfl
  | waits info txids reason _ _ _ => exact Or.inl rfl
  | resyncs info txids reason _ _ _ =>
    by_cases hb : ∃ entries info tip, env.bulk.verbose = .ok entries ∧ env.bulk.info = .ok info ∧ env.bulk.tip = .ok tip
    · obtain ⟨entries, binfo, tip, hv, hi, ht⟩ := hb
      exact Or.inr ⟨entries, hv, (resyncTick_loaded cfg hv hi ht).1⟩
    · rw [(resyncTick_failed cfg hb).1]
      exact Or.inl rfl
  | increments info txids hi ht hd => exact absurd ⟨txids, info, hi, ht, hd⟩ h

theorem Increments.not_massDrop {txids : List Txid} (h : Increments env t txids) :
    isMassDrop t.shared.txs.keys.card txids.toFinset.card = false := by
  obtain ⟨info, -, -, hd⟩ := h
  exact (decideDesync_eq_none_iff.1 hd).2

theorem mem_keys_increment {txids : List Txid} (h : Increments env t txids) {x : Txid} (hx : x ∈ t.shared.txs.keys) :
    x ∈ (steadyTick cfg env t).shared.txs.keys ↔ x ∈ txids := by
  obtain ⟨info, -, heq⟩ := h.eq cfg
  rw [heq, (incrementalTick_shared cfg env info txids.toFinset (listed env t)).1, mem_keys_tickTxs, List.mem_toFinset]
  constructor
  · rintro (⟨-, hl⟩ | ⟨hr, -⟩)
    · exact hl
    · exact absurd hx (mem_newTxids.1 (mem_newTxids_of_received hr)).2
  · exact fun hl => Or.inl ⟨hx, hl⟩

/-- **What the mass-drop guard rules out**: from a cache of at least a hundred, the diff never removes more than 4/5 of
it and as many more as the node lists new ones; when the node lists less than a fifth as many, the cache is left alone or
replaced. -/
theorem mass_drop_guard (cfg : SyncConfig) (env : TickEnv) (t : Task) (txids : List Txid) (ht : env.txids = .ok txids)
    (hcache : massDropMinCacheSize ≤ t.shared.txs.keys.card) :
    (4 * t.shared.txs.keys.card + 5 * (txids.toFinset \ t.shared.txs.keys).card <
        5 * (t.shared.txs.keys \ txids.toFinset).card →
      (steadyTick cfg env t).shared.txs = t.shared.txs ∨ Replaced env (steadyTick cfg env t)) ∧
    (5 * txids.toFinset.card < t.shared.txs.keys.card →
      (steadyTick cfg env t).shared.txs = t.shared.txs ∨ Replaced env (steadyTick cfg env t)) ∧
    (Increments env t txids →
      5 * (t.shared.txs.keys \ txids.toFinset).card ≤
        4 * t.shared.txs.keys.card + 5 * (txids.toFinset \ t.shared.txs.keys).card ∧
      t.shared.txs.keys \ (steadyTick cfg env t).shared.txs.keys = t.shared.txs.keys \ txids.toFinset) ∧
    (¬ Increments env t txids →
      (steadyTick cfg env t).shared.txs = t.shared.txs ∨ Replaced env (steadyTick cfg env t)) := by
  have hbound : Increments env t txids → 5 * (t.shared.txs.keys \ txids.toFinset).card ≤
      4 * t.shared.txs.keys.card + 5 * (txids.toFinset \ t.shared.txs.keys).card := fun h =>
    gone_le_of_not_massDrop hcache h.not_massDrop
  have hother : ¬ Increments env t txids →
      (steadyTick cfg env t).shared.txs = t.shared.txs ∨ Replaced env (steadyTick cfg env t) := by
    refine fun h => kept_or_replaced cfg env t ?_
    rintro ⟨txids', h'⟩
    obtain ⟨info, hi, ht', hd⟩ := h'
    rw [ht] at ht'
    cases ht'
    exact h ⟨info, hi, ht, hd⟩
  refine ⟨fun hlt => hother (fun h => ?_), fun hlt => hother (fun h => ?_), fun h => ⟨hbound h, ?_⟩, hother⟩
  · have := hbound h
    omega
  · have hle := hbound h
    have hcards := card_diffs t.shared.txs.keys txids.toFinset
    omega
  · ext x
    rw [Finset.mem_sdiff, Finset.mem_sdiff, List.mem_toFinset]
    exact and_congr_right (fun hx => not_congr (mem_keys_increment h hx))

@[irreducible] def cachedTxids : List Txid := (List.range 100).map txidAt

@[irreducible] def strangers : List Txid := (List.range' 100 20).map txidAt

/-- A cache of a hundred transactions. -/
@[irreducible] def hundredTask : Task :=
  { Task.init .bitcoin with
    shared := { MempoolState.new .bitcoin with
      txs := insertAll ∅ (cachedTxids.map (fun txid => (txid, ⟨100, 400, 1000, [], 1000, 100, 1000, 100, 0⟩))) } }

/-- A node that lists twenty others. -/
def strangersEnv : TickEnv :=
  { idleEnv with txids := .ok strangers, bulk := ⟨.error .http, .error .http, .error .http⟩ }

theorem keys_hundredTask : hundredTask.shared.txs.keys = cachedTxids.toFinset := by
  simp only [hundredTask, keys_insertAll, Finmap.keys_empty, Finset.empty_union, List.map_map]
  exact congrArg List.toFinset (List.map_id' _)

theorem card_hundredTask : hundredTask.shared.txs.keys.card = 100 := by
  rw [keys_hundredTask, cachedTxids, card_map_txidAt _ List.nodup_range, List.length_range]
  exact fun i hi => (List.mem_range.1 hi).trans (by decide)

theorem card_strangers : strangers.toFinset.card = 20 := by
  rw [strangers, card_map_txidAt _ List.nodup_range', List.length_range']
  exact fun i hi => (List.mem_range'_1.1 hi).2.trans (by decide)

theorem strangers_disjoint {x : Txid} (hx : x ∈ hundredTask.shared.txs.keys) : x ∉ strangers := by
  rw [keys_hundredTask, List.mem_toFinset, cachedTxids, List.mem_map] at hx
  rw [strangers, List.mem_map]
  obtain ⟨i, hi, rfl⟩ := hx
  rintro ⟨j, hj, hij⟩
  rw [List.mem_range] at hi
  rw [List.mem_range'_1] at hj
  have hval : j = i := by rw [← txidAt_val (show i < 2 ^ 256 by omega), ← hij, txidAt_val (by omega)]
  omega

theorem hundredTask_sdiff_strangers :
    hundredTask.shared.txs.keys \ strangers.toFinset = hundredTask.shared.txs.keys :=
  Finset.sdiff_eq_self_of_disjoint (Finset.disjoint_left.2 (fun _ hx => by
    rw [List.mem_toFinset]
    exact strangers_disjoint hx))

theorem increments_strangersEnv : Increments strangersEnv hundredTask strangers := by
  refine ⟨⟨some true, 1000⟩, rfl, rfl, decideDesync_eq_none_iff.2 ⟨rfl, ?_⟩⟩
  rw [card_hundredTask, card_strangers]
  decide

theorem mass_drop_guard_hundredTask :
    (steadyTick idleConfig idleEnv hundredTask).shared.txs = hundredTask.shared.txs ∨
      Replaced idleEnv (steadyTick idleConfig idleEnv hundredTask) :=
  (mass_drop_guard idleConfig idleEnv hundredTask [] rfl card_hundredTask.ge).2.1 (by rw [card_hundredTask]; decide)

/-- **The whole cache can go through the diff**: the node lists as many as a fifth of it, and none of its transactions. -/
theorem strangersEnv_evicts : ¬ (massDropMinCacheSize ≤ hundredTask.shared.txs.keys.card →
    ∀ txids, strangersEnv.txids = .ok txids →
      4 * hundredTask.shared.txs.keys.card < 5 * (hundredTask.shared.txs.keys \ txids.toFinset).card →
      (steadyTick idleConfig strangersEnv hundredTask).shared.txs = hundredTask.shared.txs ∨
        Replaced strangersEnv (steadyTick idleConfig strangersEnv hundredTask)) := by
  intro h
  rcases h card_hundredTask.ge strangers rfl (by rw [hundredTask_sdiff_strangers, card_hundredTask]; decide) with
    hkept | ⟨entries, hv, -⟩
  · obtain ⟨x, hx⟩ : hundredTask.shared.txs.keys.Nonempty := by
      rw [← Finset.card_pos, card_hundredTask]
      decide
    have hstays : x ∈ (steadyTick idleConfig strangersEnv hundredTask).shared.txs.keys := by rwa [hkept]
    exact strangers_disjoint hx ((mem_keys_increment increments_strangersEnv hx).1 hstays)
  · cases hv

/-! ## The reported size -/

def Label.size? : Label → Option ℕ
  | .summary size _ => some size
  | _ => none

theorem fetched_keys (env : TickEnv) : ∀ l : List Txid,
    ((l.filterMap (fetchedEntry env)).map Prod.fst).Sublist l
  | [] => List.Sublist.slnil
  | x :: l => by
    cases hx : fetchedEntry env x with
    | none =>
      rw [List.filterMap_cons_none hx]
      exact (fetched_keys env l).cons x
    | some e =>
      have hkey : e.1 = x := by
        obtain ⟨y, tx⟩ := e
        unfold fetchedEntry at hx
        split at hx
        · rw [Option.some.injEq, Prod.mk.injEq] at hx
          exact hx.1.symm
        · cases hx
      rw [List.filterMap_cons_some hx, List.map_cons, hkey]
      exact (fetched_keys env l).cons_cons x

theorem nodup_received (cfg : SyncConfig) (env : TickEnv) (t : Task) (pool : Finset Txid) : (received cfg env t pool).Nodup := by
  have htake : ((newTxids env t pool).take maxNewFetchPerTick).Nodup :=
    (nodup_newTxids env t pool).sublist (List.take_sublist _ _)
  exact ((env.completion_perm _).nodup_iff.2 htake).sublist (prefix_consumed env _).sublist

/-- **The removals and the fetches count exactly what they change.** -/
theorem card_tickTxs (cfg : SyncConfig) (env : TickEnv) (t : Task) (pool : Finset Txid) :
    (goneTxids env t pool).length ≤ t.shared.txs.keys.card ∧
    (tickTxs cfg env t pool).keys.card = projectedMempoolSize t.shared.txs.keys.card (goneTxids env t pool).length
      ((received cfg env t pool).filterMap (fetchedEntry env)).length := by
  have hsub : t.shared.txs.keys \ pool ⊆ t.shared.txs.keys := Finset.sdiff_subset
  have hgone : (removeAll t.shared.txs (goneTxids env t pool)).keys.card =
      t.shared.txs.keys.card - (goneTxids env t pool).length := by
    have hset : (goneTxids env t pool).toFinset = t.shared.txs.keys \ pool := by
      ext x
      rw [List.mem_toFinset, mem_goneTxids, Finset.mem_sdiff]
    rw [keys_removeAll, hset, Finset.card_sdiff_of_subset hsub, length_goneTxids]
  refine ⟨length_goneTxids env t pool ▸ Finset.card_le_card hsub, ?_⟩
  rw [tickTxs, card_keys_insertAll ((nodup_received cfg env t pool).sublist (fetched_keys env _)), hgone]
  · rfl
  · rintro ⟨x, tx⟩ he hk
    have hnew := mem_newTxids.1 (mem_newTxids_of_received (mem_fetched.1 he).1)
    rw [keys_removeAll, Finset.mem_sdiff] at hk
    exact hnew.2 hk.1

theorem sizes_incrementalTick (env : TickEnv) (info : MempoolInfo) (pool : Finset Txid) (t : Task) :
    (incrementalTick cfg env info pool t).observed Label.size? = projectedMempoolSize t.shared.txs.keys.card
      (goneTxids env t pool).length ((received cfg env t pool).filterMap (fetchedEntry env)).length ::
        t.observed Label.size? := by
  have happlied : (tickApplied cfg env info pool t).observed Label.size? = projectedMempoolSize t.shared.txs.keys.card
      (goneTxids env t pool).length ((received cfg env t pool).filterMap (fetchedEntry env)).length ::
        t.observed Label.size? := by
    rw [tickApplied, applyTick, observed_write (f := Label.size?) rfl, tickFetched, observed_emit_some (f := Label.size?) rfl,
      observed_emit (f := Label.size?) rfl, receiveAll_observed (f := Label.size?) (fun _ _ => rfl), removeGone,
      observed_write (f := Label.size?) rfl]
  rw [incrementalTick_eq]
  split
  · exact happlied
  · rw [maybeRecomputeFees_observed (fun _ => rfl) rfl rfl rfl, happlied]

/-- **The reported size is the size of the cache**: in every incremental tick the subtraction does not go below zero,
the one size reported is the projected one, and it counts the cache the tick leaves. -/
theorem reported_size (cfg : SyncConfig) (env : TickEnv) (t : Task) (txids : List Txid) (h : Increments env t txids) :
    (goneTxids env t txids.toFinset).length ≤ t.shared.txs.keys.card ∧
    projectedMempoolSize t.shared.txs.keys.card (goneTxids env t txids.toFinset).length
      (fetchNewEntries cfg env (newTxids env t txids.toFinset) maxNewFetchPerTick
        (removeGone (goneTxids env t txids.toFinset) (listed env t))).1.fetched.length =
      (steadyTick cfg env t).shared.txs.keys.card ∧
    (steadyTick cfg env t).observed Label.size? =
      (steadyTick cfg env t).shared.txs.keys.card :: t.observed Label.size? := by
  obtain ⟨info, -, heq⟩ := h.eq cfg
  obtain ⟨hle, hcard⟩ := card_tickTxs cfg env (listed env t) txids.toFinset
  have hkeys : (steadyTick cfg env t).shared.txs.keys.card = projectedMempoolSize t.shared.txs.keys.card
      (goneTxids env t txids.toFinset).length
      ((received cfg env t txids.toFinset).filterMap (fetchedEntry env)).length := by
    rw [heq, (incrementalTick_shared cfg env info txids.toFinset (listed env t)).1]
    exact hcard
  refine ⟨hle, ?_, ?_⟩
  · rw [hkeys, fetchNewEntries_eq]
    rfl
  · rw [hkeys, heq, sizes_incrementalTick]
    rfl

/-- The twenty others are fetched, and the hundred are gone. -/
def arrivalsEnv : TickEnv := { strangersEnv with entry := pairEnv.entry }

theorem reported_size_arrivalsEnv : (goneTxids arrivalsEnv hundredTask strangers.toFinset).length = 100 ∧
    (goneTxids arrivalsEnv hundredTask strangers.toFinset).length ≤ hundredTask.shared.txs.keys.card ∧
    (steadyTick idleConfig arrivalsEnv hundredTask).observed Label.size? =
      (steadyTick idleConfig arrivalsEnv hundredTask).shared.txs.keys.card :: hundredTask.observed Label.size? := by
  have hgone : (goneTxids arrivalsEnv hundredTask strangers.toFinset).length = 100 := by
    rw [length_goneTxids, hundredTask_sdiff_strangers, card_hundredTask]
  have h := reported_size idleConfig arrivalsEnv hundredTask strangers increments_strangersEnv
  exact ⟨hgone, h.1, h.2.2⟩

end Sync
end Satya
