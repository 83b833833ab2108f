import Satya.FeesInput
import Satya.SyncSlow
import Satya.SyncStaleness
/-!
# SyncSettle — a node that stands still is caught up with

A node that answers everything in time and stands still is caught up with, from any state whatever and as fast as the cap
on fetches allows (`settle_run`).  From then on `/fees` answers the estimate of a fresh dump (`settled_fees`).
-/
namespace Satya
namespace Sync

open Fees (gbtView snapshotToGbt computeEstimate)

variable {cfg : SyncConfig} {pool : Finset Txid} {env : TickEnv} {t : Task}

/-! ## From any state -/

/-- The node lists `pool`, is loaded, answers every call, no fetch is late, and its dump is of `pool`. -/
structure Healthy (cfg : SyncConfig) (pool : Finset Txid) (env : TickEnv) : Prop extends Serves cfg pool env where
  bulk : ∃ entries info tip, env.bulk.verbose = .ok entries ∧ env.bulk.info = .ok info ∧ env.bulk.tip = .ok tip ∧
    (entries.map Prod.fst).toFinset = pool

theorem Healthy.responds (h : Healthy cfg pool env) : Responds pool env := ⟨⟨h.info, h.txids, h.entry⟩, h.bulk⟩

theorem Healthy.drains (h : Healthy cfg pool env) (t : Task)
    (hdrop : isMassDrop t.shared.txs.keys.card pool.card = false) : Drains cfg pool maxNewFetchPerTick env t := by
  obtain ⟨-, hsub, hmissing, hup⟩ := drain_tick h.toServes hdrop
  exact ⟨hsub, hmissing.le, by rw [hup, hmissing, Nat.sub_eq_zero_iff_le]⟩

/-- **From any state the loop catches up with a healthy node that stands still**, and stays caught up. -/
theorem settle_run (ticks : List TickEnv) (t : Task) (hhealthy : ∀ env ∈ ticks, Healthy cfg pool env)
    (henough : Enough pool maxNewFetchPerTick t ticks) :
    (steadyRun cfg ticks t).shared.caughtUp = true ∧ (steadyRun cfg ticks t).shared.txs.keys = pool :=
  catches_up ticks t (fun env henv => (hhealthy env henv).responds) (fun env henv => (hhealthy env henv).drains) henough

/-! ## What arrives in a run -/

/-- Every entry that the tick's replies hold becomes a cached transaction with `P`. -/
structure Delivers (P : MempoolTx → Prop) (env : TickEnv) : Prop where
  entry : ∀ x entry, env.entry x = .ok (some entry) → P (.ofEntry entry)
  bulk : ∀ entries, env.bulk.verbose = .ok entries → ∀ e ∈ entries, P (.ofEntry e.2)

/-- **What is cached was delivered**: a property of all that arrives is a property of all that is cached. -/
theorem cached_of_delivers {P : MempoolTx → Prop} {t : Task} (henv : Delivers P env)
    (h : ∀ x tx, t.shared.txs.lookup x = some tx → P tx) :
    ∀ x tx, (steadyTick cfg env t).shared.txs.lookup x = some tx → P tx := by
  rcases steadyTick_txs cfg env t with ⟨htxs, -⟩ | ⟨-, entries, hv, htxs⟩ | ⟨txids, -, htxs, -⟩
  · rw [htxs]
    exact h
  · rw [htxs]
    intro x tx hx
    obtain ⟨entry, hentry, rfl⟩ := lookup_collectDump hx
    exact henv.bulk entries hv _ hentry
  · rw [htxs]
    intro x tx hx
    rcases lookup_tickTxs hx with ⟨-, entry, he, rfl⟩ | ⟨-, hx⟩
    · exact henv.entry x entry he
    · exact h x tx hx

theorem run_cached_of_delivers {P : MempoolTx → Prop} (network : Network) {env : StartupEnv}
    (hloads : ∀ load ∈ env.loads, ∀ entries, load.bulk.verbose = .ok entries → ∀ e ∈ entries, P (.ofEntry e.2)) :
    ∀ {ticks : List TickEnv}, (∀ tick ∈ ticks, Delivers P tick) →
      ∀ x tx, (run cfg network env ticks).shared.txs.lookup x = some tx → P tx := by
  intro ticks hticks
  rw [run_of_startup]
  rcases startup_shared cfg env network with ⟨hf, hs⟩ | ⟨ht, load, hl, entries, hv, htxs⟩
  · rw [hf, if_neg Bool.false_ne_true, hs]
    intro x tx hx
    rw [MempoolState.new, Finmap.lookup_empty] at hx
    cases hx
  · rw [ht, if_pos rfl]
    have hstart : ∀ x tx, (startup cfg env (Task.init network)).2.shared.txs.lookup x = some tx → P tx := by
      rw [htxs]
      intro x tx hx
      obtain ⟨entry, hentry, rfl⟩ := lookup_collectDump hx
      exact hloads load hl entries hv _ hentry
    generalize (startup cfg env (Task.init network)).2 = t at hstart
    induction ticks generalizing t with
    | nil => exact hstart
    | cons tick ticks ih =>
      have htick := @cached_of_delivers cfg tick P t (hticks tick List.mem_cons_self) hstart
      exact ih (fun e he => hticks e (List.mem_cons_of_mem tick he)) (steadyTick cfg tick t) htick

/-- **The floor a caught-up tick leaves** is the one the node reported in it. -/
theorem minFee_of_caughtUp {floor : ℚ}
    (hfloor : ∀ info, env.info = .ok info ∨ env.bulk.info = .ok info → minFeeSatVb info = floor)
    (hup : (steadyTick cfg env t).shared.caughtUp = true) : (steadyTick cfg env t).shared.mempoolMinFeeSatVb = floor := by
  have hpath := steadyTick_path cfg env t
  generalize steadyTick cfg env t = t' at hpath hup
  cases hpath with
  | infoFailed e _ => cases hup
  | txidsFailed info e _ _ => cases hup
  | waits info txids reason _ _ _ => cases hup
  | resyncs info txids reason hi ht hd =>
    by_cases h : ∃ entries info tip, env.bulk.verbose = .ok entries ∧ env.bulk.info = .ok info ∧
      env.bulk.tip = .ok tip
    · obtain ⟨entries, bulkInfo, tip, hv, hbi, hbt⟩ := h
      rw [resyncTick]
      simp only [bulkResync, hv, hbi, hbt]
      obtain ⟨⟨est, hshared⟩, -⟩ := maybeRecomputeFees_spec cfg env.recompute true (applyBulkSuccess env.syncNow _)
      rw [hshared]
      exact hfloor bulkInfo (Or.inr hbi)
    · rw [(resyncTick_failed cfg h).1] at hup
      cases hup
  | increments info txids hi ht hd =>
    have happlied : (tickApplied cfg env info txids.toFinset (listed env t)).shared.mempoolMinFeeSatVb = floor := by
      rw [tickApplied_shared]
      exact hfloor info (Or.inl hi)
    rw [incrementalTick_eq]
    split
    · exact happlied
    · obtain ⟨⟨est, hshared⟩, -⟩ := maybeRecomputeFees_spec cfg env.recompute false
        (tickApplied cfg env info txids.toFinset (listed env t))
      rw [hshared]
      exact happlied

/-- **A caught-up tick that recomputes serves the estimate of its cache**, and of a dump that tells the projector the
same. -/
theorem fees_of_reloaded {floor : ℚ} (ho : env.recompute.outcome ≠ none) (hdue : ¬ Throttled cfg env.recompute t)
    (hfloor : ∀ info, env.info = .ok info ∨ env.bulk.info = .ok info → minFeeSatVb info = floor)
    (hup : (steadyTick cfg env t).shared.caughtUp = true)
    (hcached : ∀ x tx, (steadyTick cfg env t).shared.txs.lookup x = some tx → tx.depends.Nodup) :
    ∃ computedAt, ∀ dump : List (Txid × MempoolEntry), (∀ iter ord,
        gbtView (snapshotRows iter (steadyTick cfg env t).shared.txs) = gbtView (snapshotRows ord (collectDump dump))) →
      (∀ e ∈ dump, e.2.depends.Nodup) → (∀ ord, (snapshotToGbt (snapshotRows ord (collectDump dump))).Acyclic) →
        ∀ ord order, Http.fees (steadyTick cfg env t).shared =
          some (computeEstimate (snapshotRows ord (collectDump dump)) order floor computedAt) := by
  rcases steadyTick_stores t.shared cfg env t ho with ⟨-, hthrottled⟩ | ⟨est, m, hm⟩
  · exact absurd (hthrottled hup) hdue
  · obtain ⟨iter, order', computedAt, hest⟩ := hm.computed
    refine ⟨computedAt, fun dump hview hnodup hacyclic ord order => ?_⟩
    rw [Http.fees_eq_some]
    refine ⟨?_, hup⟩
    rw [hm.estimate, hest, hm.txs, hm.minFee, minFee_of_caughtUp hfloor hup]
    have hrows : ∀ row ∈ snapshotRows iter (steadyTick cfg env t).shared.txs, row.depends.Nodup := by
      intro row hrow
      obtain ⟨tx, htx, heq⟩ := mem_snapshotRows.1 hrow
      rw [heq]
      exact hcached row.txid tx htx
    have hdumped : ∀ row ∈ snapshotRows ord (collectDump dump), row.depends.Nodup := by
      intro row hrow
      obtain ⟨tx, htx, heq⟩ := mem_snapshotRows.1 hrow
      obtain ⟨entry, hentry, rfl⟩ := lookup_collectDump htx
      rw [heq]
      exact hnodup _ hentry
    exact congrArg some (Fees.estimate_of_gbtView (hview iter ord).symm (nodup_txid_snapshotRows _ _) hdumped hrows
      (hacyclic ord) order (order' _) floor computedAt).symm

/-! ## A node that comes to stand still -/

/-- No transaction is its own ancestor. -/
def TxFacts.Acyclic (facts : TxFacts) : Prop := ∀ x, ¬ Relation.TransGen (fun c p => p ∈ facts.parents c) x x

theorem TxFacts.Dumps.acyclic {facts : TxFacts} {dump : List (Txid × MempoolEntry)} (hdump : facts.Dumps pool dump)
    (hacyclic : facts.Acyclic) (ord : SetOrder Txid) : (snapshotToGbt (snapshotRows ord (collectDump dump))).Acyclic := by
  refine Fees.acyclic_of_depends hacyclic (fun row hrow p hp => ?_)
  obtain ⟨tx, htx, heq⟩ := mem_snapshotRows.1 hrow
  rw [heq] at hp
  exact (((hdump.frozen htx).depends p).1 hp).1

/-- A run that reaches its loop and answers for `pool`, which has stood still in the ticks `still`, and these are enough. -/
structure StandsStill (facts : TxFacts) (pool : ℕ → Finset Txid) (cfg : SyncConfig) (network : Network)
    (env : StartupEnv) (before still : List TickEnv) : Prop where
  started : (startup cfg env (Task.init network)).1 = true
  answers : facts.AnswersRun pool env (before ++ still)
  loads : ∀ load ∈ env.loads, ∀ entries, load.bulk.verbose = .ok entries → ∀ e ∈ entries, e.2.depends.Nodup
  ticks : ∀ tick ∈ before ++ still, Delivers (fun tx => tx.depends.Nodup) tick
  parentsFirst : facts.ParentsFirst pool (before ++ still).length
  healthy : ∀ tick ∈ still, Healthy cfg (pool (before ++ still).length) tick
  enough : Enough (pool (before ++ still).length) maxNewFetchPerTick (run cfg network env before) still

section StandsStill

variable {facts : TxFacts} {pool : ℕ → Finset Txid} {network : Network} {env : StartupEnv} {before still : List TickEnv}

theorem StandsStill.run_eq (h : StandsStill facts pool cfg network env before still) :
    run cfg network env (before ++ still) = steadyRun cfg still (run cfg network env before) := by
  rw [run_of_startup, run_of_startup cfg network env before, h.started, if_pos rfl, if_pos rfl, steadyRun,
    List.foldl_append]
  rfl

/-- **The cache is what the node holds**, and looks reloaded to the projector. -/
theorem StandsStill.view (h : StandsStill facts pool cfg network env before still) {dump : List (Txid × MempoolEntry)}
    (hdump : facts.Dumps (pool (before ++ still).length) dump) (ord ord' : SetOrder Txid) :
    gbtView (snapshotRows ord (run cfg network env (before ++ still)).shared.txs) =
      gbtView (snapshotRows ord' (collectDump dump)) := by
  have hfrozen := h.answers.frozenBy cfg network
  have hkeys : (run cfg network env (before ++ still)).shared.txs.keys = pool (before ++ still).length := by
    rw [h.run_eq]
    exact (settle_run still _ h.healthy h.enough).2
  refine (hdump.gbtView_eq_iff hkeys (fun x tx hx => ?_) ord ord').2 (fun x tx hx hlisted p hp hpool => ?_)
  · obtain ⟨k, -, hf⟩ := hfrozen x tx hx
    exact ⟨pool k, hf⟩
  · obtain ⟨k, hk, hf⟩ := hfrozen x tx hx
    rcases hk.eq_or_lt with rfl | hlt
    · exact (hf.depends p).2 ⟨hp, hpool⟩
    · exact (hf.depends p).2 ⟨hp, h.parentsFirst k hlt x hf.listed hlisted p hp hpool⟩

end StandsStill

/-- **`/fees` answers the estimate of a fresh dump**, once the node has stood still long enough and a recompute is due:
whatever the ticks before did, and in whatever order the hash maps were iterated. -/
theorem settled_fees (facts : TxFacts) (pool : ℕ → Finset Txid) (floor : ℚ) (cfg : SyncConfig) (network : Network)
    (env : StartupEnv) (before quiet : List TickEnv) (last : TickEnv)
    (h : StandsStill facts pool cfg network env before (quiet ++ [last])) (hacyclic : facts.Acyclic)
    (hfloor : ∀ info, last.info = .ok info ∨ last.bulk.info = .ok info → minFeeSatVb info = floor)
    (ho : last.recompute.outcome ≠ none) (hdue : ¬ Throttled cfg last.recompute (run cfg network env (before ++ quiet))) :
    ∃ computedAt, ∀ dump, facts.Dumps (pool (before ++ (quiet ++ [last])).length) dump →
      (∀ e ∈ dump, e.2.depends.Nodup) → ∀ ord order,
        Http.fees (run cfg network env (before ++ (quiet ++ [last]))).shared =
          some (computeEstimate (snapshotRows ord (collectDump dump)) order floor computedAt) := by
  have hup : (run cfg network env (before ++ (quiet ++ [last]))).shared.caughtUp = true := by
    rw [h.run_eq]
    exact (settle_run _ _ h.healthy h.enough).1
  have hcached := @run_cached_of_delivers cfg (fun tx => tx.depends.Nodup) network env h.loads _ h.ticks
  have hview := fun dump (hdump : facts.Dumps _ dump) iter ord => h.view hdump iter ord
  have hlast : run cfg network env (before ++ (quiet ++ [last])) =
      steadyTick cfg last (run cfg network env (before ++ quiet)) := by
    rw [← List.append_assoc]
    exact run_concat_of_started h.started _ _
  rw [hlast] at hup hcached hview ⊢
  obtain ⟨computedAt, hfees⟩ := fees_of_reloaded ho hdue hfloor hup hcached
  exact ⟨computedAt, fun dump hdump hnodup => hfees dump (hview dump hdump) hnodup (hdump.acyclic hacyclic)⟩

/-- A parent and its child arrive after startup. -/
def pairPool : ℕ → Finset Txid
  | 0 => ∅
  | _ => {10, 11}

theorem returnFacts_acyclic : returnFacts.Acyclic := by
  have hspends : ∀ c p, p ∈ returnFacts.parents c → c = 11 ∧ p = 10 := by
    intro c p hp
    by_cases hc : c = 11
    · subst hc
      exact ⟨rfl, Finset.mem_singleton.1 hp⟩
    · have hnone : returnFacts.parents c = ∅ := if_neg hc
      rw [hnone] at hp
      exact absurd hp (Finset.notMem_empty p)
  intro x hx
  obtain ⟨y, hy, -⟩ := Relation.TransGen.head'_iff.1 hx
  obtain ⟨z, -, hz⟩ := Relation.TransGen.tail'_iff.1 hx
  have hchild := (hspends x y hy).1
  have hparent := (hspends z x hz).2
  rw [hchild] at hparent
  exact absurd hparent (by decide)

theorem returnTick_answers : returnFacts.Answers {10, 11} returnTick where
  txids txids ht := by
    cases ht
    rfl
  entry x hx found hf := by
    cases hf
    refine ⟨_, rfl, rfl, rfl, fun p => ?_⟩
    by_cases h : x = 11 <;> simp +contextual [returnEntry, returnFacts, h]
  bulk entries hv := by
    cases hv
    exact returnDump_dumps

theorem returnTick_delivers : Delivers (fun tx => tx.depends.Nodup) returnTick where
  entry x entry he := by
    cases he
    by_cases h : x = 11 <;> simp [MempoolTx.ofEntry, returnEntry, h]
  bulk entries hv e he := by
    cases hv
    rcases List.mem_cons.1 he with rfl | he
    · exact List.nodup_nil
    · cases List.mem_singleton.1 he
      exact List.nodup_singleton 10

theorem returnTick_healthy : Healthy idleConfig {10, 11} returnTick where
  info := ⟨_, rfl, rfl⟩
  txids := ⟨_, rfl, rfl⟩
  entry _ _ := ⟨_, rfl⟩
  tip := ⟨7, rfl⟩
  inBudget _ _ := Nat.zero_le _
  bulk := ⟨_, _, _, rfl, rfl, rfl, rfl⟩

theorem pairRun_standsStill : StandsStill returnFacts pairPool idleConfig .bitcoin idleStartup [] ([] ++ [returnTick]) where
  started := rfl
  answers := by
    refine ⟨fun load hl entries hv => ?_, fun k tick hk => ?_⟩
    · cases List.mem_singleton.1 hl
      cases hv
      exact ⟨rfl, fun x entry h => absurd h List.not_mem_nil⟩
    · obtain ⟨hlt, rfl⟩ := List.getElem?_eq_some_iff.1 hk
      obtain rfl : k = 0 := Nat.lt_one_iff.1 hlt
      exact returnTick_answers
  loads load hl entries hv e he := by
    cases List.mem_singleton.1 hl
    cases hv
    exact absurd he List.not_mem_nil
  ticks tick ht := by
    cases List.mem_singleton.1 ht
    exact returnTick_delivers
  parentsFirst k hk x hx := by
    obtain rfl : k = 0 := Nat.lt_one_iff.1 hk
    exact absurd hx (Finset.notMem_empty x)
  healthy tick ht := by
    cases List.mem_singleton.1 ht
    exact returnTick_healthy
  enough := by decide +kernel

theorem settled_fees_pair :
    ∃ computedAt, ∀ dump, returnFacts.Dumps (pairPool 1) dump → (∀ e ∈ dump, e.2.depends.Nodup) → ∀ ord order,
      Http.fees (run idleConfig .bitcoin idleStartup ([] ++ ([] ++ [returnTick]))).shared =
        some (computeEstimate (snapshotRows ord (collectDump dump)) order 1 computedAt) :=
  settled_fees returnFacts pairPool 1 idleConfig .bitcoin idleStartup [] [] returnTick pairRun_standsStill
    returnFacts_acyclic (by rintro info (h | h) <;> cases h <;> decide +kernel) (by rintro ⟨⟩)
    (by unfold Throttled; decide +kernel)

end Sync
end Satya
