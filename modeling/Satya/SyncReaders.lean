import Satya.Http
import Satya.SyncHonesty
import Satya.SyncInvariant
/-!
# SyncReaders — what the readers see while a resync is running

A resync runs from the decision for it until the section that replaces the cache or the one that gives it up
(`running`).  Between the two the flag is not written, so every reader sees what the flag was at the decision
(`resync_reported_iff`).
-/
namespace Satya
namespace Sync

open History

variable {cfg : SyncConfig} {s₀ : MempoolState}

/-- Whether a resync was decided and has neither replaced the cache nor been given up. -/
def running : History Label MempoolState → Bool
  | [] => false
  | e :: h =>
    match e.label with
    | .decided (.bulkResync _) => true
    | .bulkData | .setSynced => false
    | _ => running h

/-- The moment right after a decision for a bulk resync. -/
def decidesResync : History Label MempoolState → Bool
  | ⟨.decided (.bulkResync _), _⟩ :: _ => true
  | _ => false

theorem running_of_decides {h : History Label MempoolState} (hd : decidesResync h = true) : running h = true := by
  unfold decidesResync at hd
  split at hd
  · rfl
  · cases hd

/-- The labels that neither start nor end a resync. -/
def Label.neutral : Label → Bool
  | .decided (.bulkResync _) | .bulkData | .setSynced => false
  | _ => true

theorem running_cons_of_neutral {e : Entry Label MempoolState} {h : History Label MempoolState}
    (hn : e.label.neutral = true) : running (e :: h) = running h := by
  obtain ⟨label, s⟩ := e
  cases label with
  | decided action => cases action <;> first | rfl | cases hn
  | bulkData => cases hn
  | setSynced => cases hn
  | _ => rfl

/-! ## The log and the shared state -/

/-- The log of a task ends in its shared state. -/
def Coherent (s₀ : MempoolState) (t : Task) : Prop := stateAt s₀ t.log = t.shared

theorem coherent_emit (label : Label) (t : Task) : Coherent s₀ (t.emit label) := rfl

theorem coherent_write (label : Label) (f : MempoolState → MempoolState) (t : Task) :
    Coherent s₀ (t.write label f) := rfl

/-! ## The flag during a resync -/

/-- If every resync is decided at a moment when the flag is down, the flag is down at every moment of a resync. -/
structure Hushed (s₀ : MempoolState) (t : Task) : Prop where
  coherent : Coherent s₀ t
  down : Always (fun h => decidesResync h = true → (stateAt s₀ h).caughtUp = false) t.log →
    Always (fun h => running h = true → (stateAt s₀ h).caughtUp = false) t.log

theorem hushed_init (network : Network) : Hushed (MempoolState.new network) (Task.init network) :=
  ⟨rfl, fun _ => always_nil.2 (fun h => by cases h)⟩

theorem hushed_emit {t : Task} (label : Label) (h : Hushed s₀ t) : Hushed s₀ (t.emit label) := by
  refine ⟨coherent_emit label t, fun hall => ?_⟩
  obtain ⟨hnow, hbefore⟩ := always_cons.1 hall
  refine always_cons.2 ⟨fun hr => ?_, h.down hbefore⟩
  cases hn : label.neutral with
  | true =>
    rw [running_cons_of_neutral hn] at hr
    have := (h.down hbefore).now hr
    rwa [h.coherent] at this
  | false =>
    cases label with
    | decided action => cases action <;> first | exact hnow rfl | cases hn
    | bulkData => cases hr
    | setSynced => cases hr
    | _ => cases hn

/-- A write that keeps the flag, or one that ends the resync, or one outside of a resync. -/
theorem hushed_write {t : Task} (label : Label) (f : MempoolState → MempoolState) (h : Hushed s₀ t)
    (hf : (f t.shared).caughtUp = t.shared.caughtUp ∧ label.neutral = true ∨
      running (⟨label, f t.shared⟩ :: t.log) = false) : Hushed s₀ (t.write label f) := by
  refine ⟨coherent_write label f t, fun hall => ?_⟩
  obtain ⟨-, hbefore⟩ := always_cons.1 hall
  refine always_cons.2 ⟨fun hr => ?_, h.down hbefore⟩
  rcases hf with ⟨hf, hn⟩ | hf
  · rw [running_cons_of_neutral hn] at hr
    have := (h.down hbefore).now hr
    rw [h.coherent] at this
    exact hf.trans this
  · exact absurd (hf.symm.trans hr) Bool.false_ne_true

/-- What holds between two ticks: no resync is running. -/
structure HushedIdle (s₀ : MempoolState) (t : Task) : Prop extends Hushed s₀ t where
  idle : running t.log = false

theorem hushedIdle_emit {t : Task} (label : Label) (hn : label.neutral = true) (h : HushedIdle s₀ t) :
    HushedIdle s₀ (t.emit label) :=
  ⟨hushed_emit label h.toHushed, (running_cons_of_neutral hn).trans h.idle⟩

theorem hushedIdle_write {t : Task} (label : Label) (f : MempoolState → MempoolState) (hn : label.neutral = true)
    (h : HushedIdle s₀ t) : HushedIdle s₀ (t.write label f) := by
  have hidle : running (t.write label f).log = false := (running_cons_of_neutral hn).trans h.idle
  exact ⟨hushed_write label f h.toHushed (Or.inr hidle), hidle⟩

theorem hushedIdle_recompute (cfg : SyncConfig) (env : RecomputeEnv) (force : Bool) {t : Task} (h : HushedIdle s₀ t) :
    HushedIdle s₀ (maybeRecomputeFees cfg env force t) := by
  have hsnap := hushedIdle_emit .snapshot rfl h
  unfold maybeRecomputeFees
  split
  · exact hushedIdle_emit _ rfl h
  · dsimp only
    split
    · next computedAt _ =>
      have := hushedIdle_write .estimate (fun g => { g with feeEstimate := some (Fees.computeEstimate
        (snapshotRows env.iter t.shared.txs) (env.order _) t.shared.mempoolMinFeeSatVb computedAt) }) rfl hsnap
      exact ⟨⟨this.coherent, this.down⟩, this.idle⟩
    · have := hushedIdle_emit .recomputeFailed rfl hsnap
      exact ⟨⟨this.coherent, this.down⟩, this.idle⟩

theorem Label.neutral_of_plain {label : Label} (h : label.plain = true) : label.neutral = true := by
  cases label with
  | decided action => cases action <;> first | rfl | cases h
  | bulkData => cases h
  | setSynced => cases h
  | _ => rfl

/-- **What every section of the loop keeps.** -/
theorem hushed_invariant (cfg : SyncConfig) (s₀ : MempoolState) :
    LoopInvariant cfg (HushedIdle s₀) (Hushed s₀) (HushedIdle s₀) where
  weaken _ h := h.toHushed
  emit label _ hp h := hushedIdle_emit label (Label.neutral_of_plain hp) h
  emitResyncing label _ _ h := hushed_emit label h
  decide _ _ h := hushed_emit _ h.toHushed
  stamp _ _ h := ⟨h.coherent, h.down⟩
  bulkData _ _ _ _ h := ⟨hushed_write .bulkData _ h (Or.inr rfl), rfl⟩
  giveUp _ h := ⟨hushed_write .setSynced _ h (Or.inr rfl), rfl⟩
  bulkFlags _ _ h := hushedIdle_write .bulkFlags _ rfl h
  load _ _ h := ⟨⟨h.coherent, h.down⟩, h.idle⟩
  removals _ _ h := hushedIdle_write .removals _ rfl h
  backlogged _ _ _ _ h := hushedIdle_write .apply _ rfl h
  caughtUp _ _ _ _ h := hushedIdle_write .apply _ rfl h
  backdate _ _ h := ⟨⟨h.coherent, h.down⟩, h.idle⟩
  recompute env force _ h := hushedIdle_recompute cfg env force h

/-- **Every reader is told that a running resync is out of sync, and is refused an estimate, exactly when the run
decides its resyncs only while the flag is already down.** -/
theorem resync_reported_iff (cfg : SyncConfig) (network : Network) (env : StartupEnv) (ticks : List TickEnv) :
    Always (fun h => running h = true → (stateAt (MempoolState.new network) h).caughtUp = false ∧
        Http.fees (stateAt (MempoolState.new network) h) = none) (run cfg network env ticks).log ↔
      Always (fun h => decidesResync h = true → (stateAt (MempoolState.new network) h).caughtUp = false)
        (run cfg network env ticks).log := by
  constructor
  · exact fun hall m hm hd => (hall m hm (running_of_decides hd)).1
  · intro hall m hm hr
    have hdown := ((hushed_invariant cfg _).run network env ticks ⟨hushed_init network, rfl⟩).down hall m hm hr
    exact ⟨hdown, Http.fees_of_not_caughtUp hdown⟩

/-- **A reader in the resync of a loading node sees the flag up**: the node restarts after a caught-up startup. -/
theorem loadingEnv_observed : ¬ Always (fun h => running h = true →
      (stateAt (MempoolState.new .bitcoin) h).caughtUp = false ∧
        Http.fees (stateAt (MempoolState.new .bitcoin) h) = none)
    (run idleConfig .bitcoin idleStartup [loadingEnv]).log := by
  intro hall
  -- the moment right after the decision
  have hm := hall ((run idleConfig .bitcoin idleStartup [loadingEnv]).log.drop 8) (List.drop_suffix _ _)
  have hr : running ((run idleConfig .bitcoin idleStartup [loadingEnv]).log.drop 8) = true := by decide +kernel
  have hup : (stateAt (MempoolState.new .bitcoin)
      ((run idleConfig .bitcoin idleStartup [loadingEnv]).log.drop 8)).caughtUp = true := by decide +kernel
  have hdown := (hm hr).1
  rw [hup] at hdown
  cases hdown

end Sync
end Satya
