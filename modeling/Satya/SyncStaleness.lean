import Satya.SyncEstimate
import Satya.SyncReload
/-!
# SyncStaleness — how old the estimate of a caught-up tick may be

Startup and the ticks are the steps of a run, and each makes at most one call of `maybe_recompute_fees`.  A step that
stores no estimate leaves the snapshot of the stored one and the recompute stamp alone (`Unstored`); one that stores it
takes the snapshot from the state it ends with (`Stored`).  Where no recompute fails, the stamp is therefore always the
completion time of the recompute that stored the estimate (`Stamped`).
-/
namespace Satya
namespace Sync

open History
open Fees (FeeEstimate computeEstimate)

variable {cfg : SyncConfig} {s₀ : MempoolState} {t t' t'' : Task}

/-! ## A step that stores nothing -/

/-- From `t` to `t'` no estimate was stored. -/
structure Unstored (t t' : Task) : Prop where
  suffix : t.log <:+ t'.log
  snapshot : estimateSnapshot t'.log = estimateSnapshot t.log
  estimate : t'.shared.feeEstimate = t.shared.feeEstimate
  stamp : t'.lastFeeRecompute = t.lastFeeRecompute

theorem Unstored.refl (t : Task) : Unstored t t := ⟨List.suffix_refl _, rfl, rfl, rfl⟩

theorem Unstored.trans (h : Unstored t t') (h' : Unstored t' t'') : Unstored t t'' :=
  ⟨h.suffix.trans h'.suffix, h'.snapshot.trans h.snapshot, h'.estimate.trans h.estimate, h'.stamp.trans h.stamp⟩

theorem Unstored.emit (h : Unstored t t') (label : Label) (hl : label.isEstimate = false) :
    Unstored t (t'.emit label) :=
  h.trans ⟨List.suffix_cons _ _, estimateSnapshot_cons _ hl, rfl, rfl⟩

theorem Unstored.write (h : Unstored t t') (label : Label) (f : MempoolState → MempoolState)
    (hl : label.isEstimate = false) (hf : (f t'.shared).feeEstimate = t'.shared.feeEstimate) :
    Unstored t (t'.write label f) :=
  h.trans ⟨List.suffix_cons _ _, estimateSnapshot_cons _ hl, hf, rfl⟩

theorem Unstored.receiveAll (env : TickEnv) : ∀ (l : List Txid) {t' : Task}, Unstored t t' →
    Unstored t (receiveAll env l t')
  | [], _, h => h
  | x :: l, _, h => Unstored.receiveAll env l (h.emit (.reply (.mempoolEntry x (env.entry x))) rfl)

theorem Unstored.bulkResync (env : BulkEnv) (h : Unstored t t') : Unstored t (bulkResync env t').2 := by
  have hpath := bulkResync_path env t'
  generalize Sync.bulkResync env t' = p at hpath
  have h1 := h.emit (.reply (.rawMempoolVerbose env.verbose)) rfl
  have h2 := h1.emit (.reply (.mempoolInfo env.info)) rfl
  have h3 := h2.emit (.reply (.tipHeight env.tip)) rfl
  cases hpath with
  | verboseFailed e _ => exact h1
  | infoFailed entries e _ _ => exact h2
  | tipFailed entries info e _ _ _ => exact h3
  | loaded entries info tip _ _ _ =>
    dsimp only
    exact h3.write .bulkData _ rfl rfl

theorem Unstored.tickApplied (env : TickEnv) (info : MempoolInfo) (nodeTxids : Finset Txid) (h : Unstored t t') :
    Unstored t (tickApplied cfg env info nodeTxids t') := by
  have hremoved : Unstored t (removeGone (goneTxids env t' nodeTxids) t') := h.write .removals _ rfl rfl
  have hreceived := Unstored.receiveAll env (received cfg env t' nodeTxids) hremoved
  have hfetched : Unstored t (tickFetched cfg env nodeTxids t') :=
    (hreceived.emit (.reply (.tipHeight env.tip)) rfl).emit (.summary _ _) rfl
  unfold Sync.tickApplied applyTick
  exact hfetched.write .apply _ rfl rfl

/-! ## A step that stores an estimate -/

/-- Between `t` and `t'` the recompute `env` stored an estimate, and since its snapshot only the estimate changed. -/
structure Stored (s₀ : MempoolState) (t : Task) (env : RecomputeEnv) (t' : Task) (est : FeeEstimate)
    (m : History Label MempoolState) : Prop where
  later : t.log.length < m.length
  suffix : m <:+ t'.log
  before : t.log <:+ t'.log
  estimate : t'.shared.feeEstimate = some est
  snapshot : estimateSnapshot t'.log = some m
  vouched : (stateAt s₀ m).caughtUp = true
  computed : ComputedFrom (stateAt s₀ m) est
  txs : (stateAt s₀ m).txs = t'.shared.txs
  minFee : (stateAt s₀ m).mempoolMinFeeSatVb = t'.shared.mempoolMinFeeSatVb
  stamp : t'.lastFeeRecompute = env.done

def Throttled (cfg : SyncConfig) (env : RecomputeEnv) (t : Task) : Prop :=
  env.now - t.lastFeeRecompute < cfg.feeRecomputeMinInterval

/-- **A recompute that does not fail is throttled or stores.** -/
theorem maybeRecomputeFees_stores (env : RecomputeEnv) (force : Bool) (ho : env.outcome ≠ none) (h : Unstored t t')
    (hup : t'.shared.caughtUp = true) :
    (force = false ∧ Throttled cfg env t ∧ Unstored t (maybeRecomputeFees cfg env force t')) ∨
      ∃ est m, Stored s₀ t env (maybeRecomputeFees cfg env force t') est m := by
  obtain ⟨computedAt, hc⟩ := Option.ne_none_iff_exists'.1 ho
  unfold maybeRecomputeFees
  split
  · next hskip =>
    rw [Bool.and_eq_true, Bool.not_eq_true', decide_eq_true_eq, h.stamp] at hskip
    exact Or.inl ⟨hskip.1, hskip.2, h.emit (.throttled _) rfl⟩
  · simp only [hc]
    refine Or.inr ⟨computeEstimate (snapshotRows env.iter t'.shared.txs) (env.order _) t'.shared.mempoolMinFeeSatVb
      computedAt, (t'.emit .snapshot).log, ?_⟩
    have hlen := h.suffix.length_le
    refine ⟨?_, List.suffix_cons _ _, h.suffix.trans ((List.suffix_cons _ _).trans (List.suffix_cons _ _)), rfl, rfl,
      hup, ⟨env.iter, env.order, computedAt, rfl⟩, rfl, rfl, rfl⟩
    rw [Task.emit, List.length_cons]
    omega

theorem resyncTick_stores (env : TickEnv) (ho : env.recompute.outcome ≠ none) (h : Unstored t t') :
    (Unstored t (resyncTick cfg env t') ∧ ((resyncTick cfg env t').shared.caughtUp = true → Throttled cfg env.recompute t)) ∨
      ∃ est m, Stored s₀ t env.recompute (resyncTick cfg env t') est m := by
  have hstamped : Unstored t (Task.emit (.resyncStarted env.resyncStamp) { t' with lastBulkResync := env.resyncStamp }) :=
    h.trans ⟨List.suffix_cons _ _, estimateSnapshot_cons _ rfl, rfl, rfl⟩
  have hbulk := hstamped.bulkResync env.bulk
  unfold resyncTick
  dsimp only
  split
  · next count t₁ heq =>
    rw [heq] at hbulk
    have hflags : Unstored t (applyBulkSuccess env.syncNow t₁) := hbulk.write .bulkFlags _ rfl rfl
    rcases maybeRecomputeFees_stores env.recompute true ho hflags rfl with ⟨hf, -⟩ | hstored
    · cases hf
    · exact Or.inr hstored
  · next t₁ heq =>
    rw [heq] at hbulk
    exact Or.inl ⟨hbulk.write .setSynced _ rfl rfl, (fun hup => by cases hup)⟩

theorem incrementalTick_stores (env : TickEnv) (info : MempoolInfo) (nodeTxids : Finset Txid)
    (ho : env.recompute.outcome ≠ none) (h : Unstored t t') :
    (Unstored t (incrementalTick cfg env info nodeTxids t') ∧
        ((incrementalTick cfg env info nodeTxids t').shared.caughtUp = true → Throttled cfg env.recompute t)) ∨
      ∃ est m, Stored s₀ t env.recompute (incrementalTick cfg env info nodeTxids t') est m := by
  have happlied : Unstored t (tickApplied cfg env info nodeTxids t') := h.tickApplied env info nodeTxids
  have hup : (tickApplied cfg env info nodeTxids t').shared = _ := tickApplied_shared env info nodeTxids t'
  rw [incrementalTick_eq]
  cases hb : tickBacklog cfg env t' nodeTxids with
  | true =>
    rw [if_pos rfl]
    refine Or.inl ⟨happlied, fun hc => ?_⟩
    rw [hup, hb] at hc
    cases hc
  | false =>
    rw [if_neg Bool.false_ne_true]
    have hraised : (tickApplied cfg env info nodeTxids t').shared.caughtUp = true := by
      rw [hup, hb]
      rfl
    rcases maybeRecomputeFees_stores env.recompute false ho happlied hraised with ⟨-, hthr, hun⟩ | hstored
    · exact Or.inl ⟨hun, fun _ => hthr⟩
    · exact Or.inr hstored

/-- **A tick whose recompute does not fail** leaves the stored estimate alone, and then it is not caught up or was
throttled, or stores one. -/
theorem steadyTick_stores (s₀ : MempoolState) (cfg : SyncConfig) (env : TickEnv) (t : Task)
    (ho : env.recompute.outcome ≠ none) :
    (Unstored t (steadyTick cfg env t) ∧
        ((steadyTick cfg env t).shared.caughtUp = true → Throttled cfg env.recompute t)) ∨
      ∃ est m, Stored s₀ t env.recompute (steadyTick cfg env t) est m := by
  have hasked := (Unstored.refl t).emit (.reply (.mempoolInfo env.info)) rfl
  have hlisted : Unstored t (listed env t) := hasked.emit (.reply (.rawMempoolTxids env.txids)) rfl
  have hpath := steadyTick_path cfg env t
  generalize steadyTick cfg env t = t' at hpath
  cases hpath with
  | infoFailed e _ => exact Or.inl ⟨hasked.write .setSynced _ rfl rfl, (fun hup => by cases hup)⟩
  | txidsFailed info e _ _ => exact Or.inl ⟨hlisted.write .setSynced _ rfl rfl, (fun hup => by cases hup)⟩
  | waits info txids reason _ _ _ =>
    exact Or.inl ⟨(hlisted.emit (.decided (.waitCooldown reason)) rfl).write .setSynced _ rfl rfl,
      (fun hup => by cases hup)⟩
  | resyncs info txids reason _ _ _ => exact resyncTick_stores env ho (hlisted.emit (.decided (.bulkResync reason)) rfl)
  | increments info txids _ _ _ => exact incrementalTick_stores env info txids.toFinset ho hlisted

/-! ## Startup and runs -/

theorem initialBulkLoad_caughtUp : ∀ {loads : List LoadEnv} {t t' : Task}, initialBulkLoad loads t = (true, t') →
    t'.shared.caughtUp = true
  | [], _, _, h => by cases h
  | env :: loads, t, t', h => by
    unfold initialBulkLoad at h
    split at h
    · rw [Prod.mk.injEq] at h
      rw [← h.2]
      rfl
    · exact initialBulkLoad_caughtUp h

/-- **A startup that reaches the loop has stored an estimate.** -/
theorem startup_stores (s₀ : MempoolState) (cfg : SyncConfig) (env : StartupEnv) (network : Network)
    (ho : env.recompute.outcome ≠ none) (hs : (startup cfg env (Task.init network)).1 = true) :
    ∃ est m, Stored s₀ (Task.init network) env.recompute (startup cfg env (Task.init network)).2 est m := by
  unfold startup at hs ⊢
  split
  · next t₁ hwait => rw [hwait] at hs; cases hs
  · next t₁ hwait =>
    simp only [hwait] at hs
    split
    · next t₂ hload => rw [hload] at hs; cases hs
    · next t₂ hload =>
      have hup := initialBulkLoad_caughtUp hload
      dsimp only
      generalize (if cfg.feeRecomputeMinInterval ≤ env.now then env.now - cfg.feeRecomputeMinInterval
        else env.fallback) = backdated
      rcases @maybeRecomputeFees_stores cfg s₀ _ _ env.recompute true ho
        (Unstored.refl { t₂ with lastFeeRecompute := backdated }) hup with ⟨hf, -⟩ | ⟨est, m, hm⟩
      · cases hf
      · exact ⟨est, m, { hm with later := Nat.zero_lt_of_lt hm.later, before := List.nil_suffix }⟩

def recomputes (env : StartupEnv) (ticks : List TickEnv) : List RecomputeEnv :=
  env.recompute :: ticks.map TickEnv.recompute

/-- The moment `m` lies in step `i` of a run: in startup for zero, else in the `i`-th tick. -/
def InStep (cfg : SyncConfig) (network : Network) (env : StartupEnv) (ticks : List TickEnv) (i : ℕ)
    (m : History Label MempoolState) : Prop :=
  m <:+ (run cfg network env (ticks.take i)).log ∧ ∀ j < i, ¬ m <:+ (run cfg network env (ticks.take j)).log

theorem run_concat_of_started {network : Network} {env : StartupEnv}
    (hs : (startup cfg env (Task.init network)).1 = true) (ticks : List TickEnv) (tick : TickEnv) :
    run cfg network env (ticks ++ [tick]) = steadyTick cfg tick (run cfg network env ticks) := by
  rw [run_of_startup, run_of_startup cfg network env ticks, hs, if_pos rfl, if_pos rfl, steadyRun, List.foldl_concat]
  rfl

/-- The stored estimate, its snapshot, and the step whose recompute stored it: the stamp is that recompute's end. -/
structure Stamped (cfg : SyncConfig) (network : Network) (env : StartupEnv) (ticks : List TickEnv) (t : Task)
    (est : FeeEstimate) (m : History Label MempoolState) (i : ℕ) (r : RecomputeEnv) : Prop where
  estimate : t.shared.feeEstimate = some est
  snapshot : estimateSnapshot t.log = some m
  vouched : (stateAt (MempoolState.new network) m).caughtUp = true
  computed : ComputedFrom (stateAt (MempoolState.new network) m) est
  bound : i ≤ ticks.length
  step : InStep cfg network env ticks i m
  env_eq : (recomputes env ticks)[i]? = some r
  stamp : t.lastFeeRecompute = r.done

section Run

variable {network : Network} {env : StartupEnv} {ticks : List TickEnv} {tick : TickEnv}

theorem recomputes_concat {i : ℕ} (hi : i ≤ ticks.length) :
    (recomputes env (ticks ++ [tick]))[i]? = (recomputes env ticks)[i]? := by
  rw [recomputes, List.map_append, ← List.cons_append, List.getElem?_append_left]
  · rfl
  · simpa using Nat.lt_succ_of_le hi

theorem InStep.concat {i : ℕ} (hi : i ≤ ticks.length) {m : History Label MempoolState}
    (h : InStep cfg network env ticks i m) : InStep cfg network env (ticks ++ [tick]) i m := by
  unfold InStep
  rw [List.take_append_of_le_length hi]
  refine ⟨h.1, fun j hj => ?_⟩
  rw [List.take_append_of_le_length (hj.le.trans hi)]
  exact h.2 j hj

theorem Stamped.unstored {t t' : Task} {est : FeeEstimate} {m : History Label MempoolState} {i : ℕ} {r : RecomputeEnv}
    (h : Stamped cfg network env ticks t est m i r) (hu : Unstored t t') :
    Stamped cfg network env (ticks ++ [tick]) t' est m i r where
  estimate := hu.estimate.trans h.estimate
  snapshot := hu.snapshot.trans h.snapshot
  vouched := h.vouched
  computed := h.computed
  bound := by rw [List.length_append]; exact h.bound.trans (Nat.le_add_right _ _)
  step := h.step.concat h.bound
  env_eq := (recomputes_concat h.bound).trans h.env_eq
  stamp := hu.stamp.trans h.stamp

theorem log_length_mono (hs : (startup cfg env (Task.init network)).1 = true) :
    ∀ ticks : List TickEnv, (∀ tick ∈ ticks, tick.recompute.outcome ≠ none) → ∀ j,
      (run cfg network env (ticks.take j)).log.length ≤ (run cfg network env ticks).log.length := by
  intro ticks
  induction ticks using List.reverseRecOn with
  | nil => intro _ j; rw [List.take_nil]
  | append_singleton ticks tick ih =>
    intro ho j
    have ih' := ih (fun e he => ho e (List.mem_append_left _ he))
    rcases Nat.lt_or_ge ticks.length j with hj | hj
    · rw [List.take_of_length_le (by rw [List.length_append]; exact hj)]
    · rw [List.take_append_of_le_length hj, run_concat_of_started hs]
      refine (ih' j).trans ?_
      rcases steadyTick_stores (MempoolState.new network) cfg tick (run cfg network env ticks)
        (ho tick (List.mem_append_right _ (List.mem_singleton.2 rfl))) with ⟨hu, -⟩ | ⟨est, m, hm⟩
      · exact hu.suffix.length_le
      · exact hm.before.length_le

theorem Stored.stamped (hs : (startup cfg env (Task.init network)).1 = true)
    (ho : ∀ tick ∈ ticks, tick.recompute.outcome ≠ none) {est : FeeEstimate} {m : History Label MempoolState}
    (h : Stored (MempoolState.new network) (run cfg network env ticks) tick.recompute
      (steadyTick cfg tick (run cfg network env ticks)) est m) :
    Stamped cfg network env (ticks ++ [tick]) (steadyTick cfg tick (run cfg network env ticks)) est m
      (ticks.length + 1) tick.recompute where
  estimate := h.estimate
  snapshot := h.snapshot
  vouched := h.vouched
  computed := h.computed
  bound := by simp
  step := by
    refine ⟨?_, fun j hj hsuf => ?_⟩
    · rw [List.take_of_length_le (by simp), run_concat_of_started hs]
      exact h.suffix
    · rw [List.take_append_of_le_length (Nat.le_of_lt_succ hj)] at hsuf
      have h1 := hsuf.length_le
      have h2 := log_length_mono hs ticks ho j
      have h3 := h.later
      omega
  env_eq := by simp [recomputes]
  stamp := h.stamp

/-- **The stamp is the completion time of the recompute that stored the estimate**, in every run in which no recompute
fails. -/
theorem stamped_run (cfg : SyncConfig) (network : Network) (env : StartupEnv)
    (ho : env.recompute.outcome ≠ none) (hs : (startup cfg env (Task.init network)).1 = true) :
    ∀ ticks : List TickEnv, (∀ tick ∈ ticks, tick.recompute.outcome ≠ none) →
      ∃ est m i r, Stamped cfg network env ticks (run cfg network env ticks) est m i r := by
  intro ticks
  induction ticks using List.reverseRecOn with
  | nil =>
    intro _
    obtain ⟨est, m, h⟩ := startup_stores (MempoolState.new network) cfg env network ho hs
    have hrun : run cfg network env [] = (startup cfg env (Task.init network)).2 := by
      rw [run_of_startup, if_pos hs]
      rfl
    rw [hrun]
    refine ⟨est, m, 0, env.recompute, h.estimate, h.snapshot, h.vouched, h.computed, Nat.zero_le _, ⟨?_, ?_⟩, rfl,
      h.stamp⟩
    · rw [List.take_nil, hrun]
      exact h.suffix
    · exact fun j hj => absurd hj (Nat.not_lt_zero j)
  | append_singleton ticks tick ih =>
    intro hticks
    have hticks' := fun e he => hticks e (List.mem_append_left [tick] he)
    obtain ⟨est, m, i, r, h⟩ := ih hticks'
    rw [run_concat_of_started hs]
    rcases steadyTick_stores (MempoolState.new network) cfg tick (run cfg network env ticks)
      (hticks tick (List.mem_append_right _ (List.mem_singleton.2 rfl))) with ⟨hu, -⟩ | ⟨est', m', hm⟩
    · exact ⟨est, m, i, r, h.unstored hu⟩
    · exact ⟨est', m', ticks.length + 1, tick.recompute, hm.stamped hs hticks'⟩

end Run

/-- **Bounded staleness**: in a run in which no recompute fails, a tick that ends caught up ends with an estimate that
was computed from a snapshot taken while caught up; that snapshot is the current cache and floor, or less than the
minimum interval had passed, when the tick read the clock for the throttle, since the recompute that stored the estimate
completed. -/
theorem estimate_bounded_staleness (cfg : SyncConfig) (network : Network) (env : StartupEnv) (ticks : List TickEnv)
    (tick : TickEnv) (hstart : env.recompute.outcome ≠ none)
    (hticks : ∀ e ∈ ticks ++ [tick], e.recompute.outcome ≠ none)
    (hup : (run cfg network env (ticks ++ [tick])).shared.caughtUp = true) :
    ∃ est m, (run cfg network env (ticks ++ [tick])).shared.feeEstimate = some est ∧
      estimateSnapshot (run cfg network env (ticks ++ [tick])).log = some m ∧
      (stateAt (MempoolState.new network) m).caughtUp = true ∧
      ComputedFrom (stateAt (MempoolState.new network) m) est ∧
      (((stateAt (MempoolState.new network) m).txs = (run cfg network env (ticks ++ [tick])).shared.txs ∧
          (stateAt (MempoolState.new network) m).mempoolMinFeeSatVb =
            (run cfg network env (ticks ++ [tick])).shared.mempoolMinFeeSatVb) ∨
        ∃ i r, InStep cfg network env (ticks ++ [tick]) i m ∧ (recomputes env (ticks ++ [tick]))[i]? = some r ∧
          tick.recompute.now < r.done + cfg.feeRecomputeMinInterval) := by
  have hs : (startup cfg env (Task.init network)).1 = true := by
    rcases startup_shared cfg env network with ⟨hf, hnew⟩ | ⟨h, -⟩
    · rw [run_of_startup, hf, if_neg Bool.false_ne_true, hnew] at hup
      cases hup
    · exact h
  obtain ⟨est, m, i, r, h⟩ := stamped_run cfg network env hstart hs ticks
    (fun e he => hticks e (List.mem_append_left _ he))
  rw [run_concat_of_started hs] at hup ⊢
  rcases steadyTick_stores (MempoolState.new network) cfg tick (run cfg network env ticks)
    (hticks tick (List.mem_append_right _ (List.mem_singleton.2 rfl))) with ⟨hu, hthr⟩ | ⟨est', m', hm⟩
  · have h' : Stamped cfg network env (ticks ++ [tick]) _ est m i r := h.unstored hu
    have hlt := hthr hup
    rw [Throttled, h.stamp] at hlt
    exact ⟨est, m, h'.estimate, h'.snapshot, h'.vouched, h'.computed, Or.inr ⟨i, r, h'.step, h'.env_eq, by omega⟩⟩
  · exact ⟨est', m', hm.estimate, hm.snapshot, hm.vouched, hm.computed, Or.inl ⟨hm.txs, hm.minFee⟩⟩

theorem estimate_bounded_staleness_prompt :
    ∃ est, (run idleConfig .bitcoin idleStartup ([] ++ [promptEnv])).shared.feeEstimate = some est := by
  have hticks : ∀ e ∈ [] ++ [promptEnv], e.recompute.outcome ≠ none := by
    intro e he
    rw [List.nil_append, List.mem_singleton] at he
    subst he
    decide
  obtain ⟨est, m, h, -⟩ := estimate_bounded_staleness idleConfig .bitcoin idleStartup [] promptEnv (by decide) hticks
    (by decide +kernel)
  exact ⟨est, h⟩

end Sync
end Satya
