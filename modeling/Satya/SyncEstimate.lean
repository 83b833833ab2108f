import Satya.Http
import Satya.SyncHonesty
import Satya.SyncInvariant
/-!
# SyncEstimate — which snapshot a served estimate was computed from

A moment of a run is a suffix of its log.  The estimate in the state stems from the snapshot before its storing
(`estimateSnapshot`), and the latest recovery is the latest moment at which the flag rose.  An estimate older than the
latest recovery is served only while the recompute after that recovery is under way, was throttled, or failed
(`Unrefreshed`); it was computed from a cache that was vouched for all the same.
-/
namespace Satya
namespace Sync

open History
open Fees (FeeEstimate computeEstimate)

variable {cfg : SyncConfig} {s₀ : MempoolState}

def Label.isSnapshot : Label → Bool
  | .snapshot => true
  | _ => false

def Label.isEstimate : Label → Bool
  | .estimate => true
  | _ => false

/-- The moment at which the snapshot of the stored estimate was taken. -/
def estimateSnapshot (h : History Label MempoolState) : Option (History Label MempoolState) :=
  match lastLabelled Label.isEstimate h with
  | some (_ :: before) => lastLabelled Label.isSnapshot before
  | _ => none

/-- The latest moment at which `caught_up` changed from false to true. -/
def lastRecovery (s₀ : MempoolState) (h : History Label MempoolState) : Option (History Label MempoolState) :=
  lastRise MempoolState.caughtUp s₀ h

/-- `est` is what the estimator computes from the cache and the floor of `s`. -/
def ComputedFrom (s : MempoolState) (est : FeeEstimate) : Prop :=
  ∃ (iter : SetOrder Txid) (order : ∀ n, Gbt.HashOrder n) (computedAt : ℕ),
    est = computeEstimate (snapshotRows iter s.txs) (order _) s.mempoolMinFeeSatVb computedAt

/-- The recompute that follows a recovery stored nothing, and none did since: it was throttled, or it failed. -/
inductive Skipped (cfg : SyncConfig) : History Label MempoolState → Prop
  | throttled (later : History Label MempoolState) (elapsed : ℕ) (s : MempoolState) :
      elapsed < cfg.feeRecomputeMinInterval → (∀ e ∈ later, e.label.isEstimate = false) →
      Skipped cfg (later ++ [⟨.throttled elapsed, s⟩])
  | failed (later : History Label MempoolState) (s s' : MempoolState) : (∀ e ∈ later, e.label.isEstimate = false) →
      Skipped cfg (later ++ [⟨.recomputeFailed, s⟩, ⟨.snapshot, s'⟩])

/-- What happened since a recovery when the estimate is still the one before it. -/
inductive Unrefreshed (cfg : SyncConfig) : History Label MempoolState → Prop
  | recovered : Unrefreshed cfg []
  | recomputing (s : MempoolState) : Unrefreshed cfg [⟨.snapshot, s⟩]
  | skipped {since : History Label MempoolState} : Skipped cfg since → Unrefreshed cfg since

theorem Skipped.cons {since : History Label MempoolState} (h : Skipped cfg since) {e : Entry Label MempoolState}
    (he : e.label.isEstimate = false) : Skipped cfg (e :: since) := by
  cases h with
  | throttled later elapsed s hlt hl =>
    exact Skipped.throttled (e :: later) elapsed s hlt (List.forall_mem_cons.2 ⟨he, hl⟩)
  | failed later s s' hl => exact Skipped.failed (e :: later) s s' (List.forall_mem_cons.2 ⟨he, hl⟩)

/-! ## The two facts about a moment -/

/-- The estimate in the state was computed from a snapshot that was vouched for. -/
def Vouched (s₀ : MempoolState) (h : History Label MempoolState) : Prop :=
  ∀ est, (stateAt s₀ h).feeEstimate = some est →
    ∃ m, estimateSnapshot h = some m ∧ (stateAt s₀ m).caughtUp = true ∧ ComputedFrom (stateAt s₀ m) est

/-- The snapshot is not older than the latest recovery, or `P` holds of what happened since that recovery. -/
def Recent (s₀ : MempoolState) (P : History Label MempoolState → Prop) (h : History Label MempoolState) : Prop :=
  ∀ est, (stateAt s₀ h).feeEstimate = some est → ∀ r, lastRecovery s₀ h = some r →
    (∃ m, estimateSnapshot h = some m ∧ r <:+ m) ∨ ∃ since, h = since ++ r ∧ P since

/-- What holds at every moment. -/
structure Served (cfg : SyncConfig) (s₀ : MempoolState) (h : History Label MempoolState) : Prop where
  vouched : Vouched s₀ h
  recent : Recent s₀ (Unrefreshed cfg) h

/-- What holds at every moment at which no recompute is due. -/
structure Settled (cfg : SyncConfig) (s₀ : MempoolState) (h : History Label MempoolState) : Prop where
  vouched : Vouched s₀ h
  recent : Recent s₀ (Skipped cfg) h

theorem Settled.served {h : History Label MempoolState} (hs : Settled cfg s₀ h) : Served cfg s₀ h := by
  refine ⟨hs.vouched, fun est he r hr => ?_⟩
  rcases hs.recent est he r hr with hm | ⟨since, heq, hskip⟩
  · exact Or.inl hm
  · exact Or.inr ⟨since, heq, Unrefreshed.skipped hskip⟩

theorem estimateSnapshot_cons {e : Entry Label MempoolState} (h : History Label MempoolState)
    (he : e.label.isEstimate = false) : estimateSnapshot (e :: h) = estimateSnapshot h := by
  rw [estimateSnapshot, lastLabelled, he]
  rfl

theorem estimateSnapshot_suffix {h m : History Label MempoolState} (hm : estimateSnapshot h = some m) : m <:+ h := by
  unfold estimateSnapshot at hm
  split at hm
  · next e before heq =>
    exact (lastLabelled_suffix hm).trans ((List.suffix_cons e before).trans (lastLabelled_suffix heq))
  · cases hm

theorem vouched_cons {e : Entry Label MempoolState} {h : History Label MempoolState}
    (he : e.label.isEstimate = false) (hfee : e.after.feeEstimate = (stateAt s₀ h).feeEstimate) (hv : Vouched s₀ h) :
    Vouched s₀ (e :: h) := by
  intro est hest
  rw [estimateSnapshot_cons h he]
  exact hv est (hfee ▸ hest)

theorem settled_cons {e : Entry Label MempoolState} {h : History Label MempoolState}
    (he : e.label.isEstimate = false) (hfee : e.after.feeEstimate = (stateAt s₀ h).feeEstimate)
    (hup : e.after.caughtUp = true → (stateAt s₀ h).caughtUp = true) (hs : Settled cfg s₀ h) :
    Settled cfg s₀ (e :: h) := by
  refine ⟨vouched_cons he hfee hs.vouched, fun est hest r hr => ?_⟩
  rw [lastRecovery, lastRise_cons_of_not hup] at hr
  rw [estimateSnapshot_cons h he]
  rcases hs.recent est (hfee ▸ hest) r hr with hm | ⟨since, rfl, hskip⟩
  · exact Or.inl hm
  · exact Or.inr ⟨e :: since, rfl, hskip.cons he⟩

/-! ## The task -/

/-- Between two sections. -/
structure Dated (cfg : SyncConfig) (s₀ : MempoolState) (t : Task) : Prop where
  coherent : stateAt s₀ t.log = t.shared
  served : Always (Served cfg s₀) t.log
  settled : Settled cfg s₀ t.log

/-- After a section that raised the flag, before the recompute. -/
structure Due (cfg : SyncConfig) (s₀ : MempoolState) (t : Task) : Prop where
  coherent : stateAt s₀ t.log = t.shared
  served : Always (Served cfg s₀) t.log
  raised : t.shared.caughtUp = true
  status : Settled cfg s₀ t.log ∨ lastRecovery s₀ t.log = some t.log

theorem dated_init (cfg : SyncConfig) (network : Network) : Dated cfg (MempoolState.new network) (Task.init network) := by
  have hs : Settled cfg (MempoolState.new network) [] := ⟨(fun _ h => by cases h), (fun _ h => by cases h)⟩
  exact ⟨rfl, always_nil.2 hs.served, hs⟩

theorem dated_emit {t : Task} (label : Label) (hl : label.isEstimate = false) (h : Dated cfg s₀ t) :
    Dated cfg s₀ (t.emit label) := by
  have hfee : t.shared.feeEstimate = (stateAt s₀ t.log).feeEstimate := by rw [h.coherent]
  have hs : Settled cfg s₀ (t.emit label).log :=
    settled_cons hl hfee (fun hup => by rw [h.coherent]; exact hup) h.settled
  exact ⟨rfl, always_cons.2 ⟨hs.served, h.served⟩, hs⟩

theorem dated_write {t : Task} (label : Label) (f : MempoolState → MempoolState) (hl : label.isEstimate = false)
    (hfee : (f t.shared).feeEstimate = t.shared.feeEstimate)
    (hup : (f t.shared).caughtUp = true → t.shared.caughtUp = true) (h : Dated cfg s₀ t) :
    Dated cfg s₀ (t.write label f) := by
  have hs : Settled cfg s₀ (t.write label f).log :=
    settled_cons hl (by rw [h.coherent]; exact hfee) (by rw [h.coherent]; exact hup) h.settled
  exact ⟨rfl, always_cons.2 ⟨hs.served, h.served⟩, hs⟩

theorem due_write {t : Task} (label : Label) (f : MempoolState → MempoolState) (hl : label.isEstimate = false)
    (hfee : (f t.shared).feeEstimate = t.shared.feeEstimate) (hup : (f t.shared).caughtUp = true)
    (h : Dated cfg s₀ t) : Due cfg s₀ (t.write label f) := by
  cases hc : t.shared.caughtUp with
  | true =>
    have hd := dated_write label f hl hfee (fun _ => hc) h
    exact ⟨rfl, hd.served, hup, Or.inl hd.settled⟩
  | false =>
    have hr : lastRecovery s₀ (t.write label f).log = some (t.write label f).log :=
      lastRise_cons_of_rise hup (by rw [h.coherent]; exact hc)
    have hserved : Served cfg s₀ (t.write label f).log := by
      refine ⟨vouched_cons hl (by rw [h.coherent]; exact hfee) h.settled.vouched, fun est _ r hr' => ?_⟩
      rw [hr, Option.some.injEq] at hr'
      exact Or.inr ⟨[], by rw [hr']; rfl, Unrefreshed.recovered⟩
    exact ⟨rfl, always_cons.2 ⟨hserved, h.served⟩, hup, Or.inr hr⟩

/-! ## The recompute -/

theorem dated_throttled {t : Task} {elapsed : ℕ} (hlt : elapsed < cfg.feeRecomputeMinInterval) (h : Due cfg s₀ t) :
    Dated cfg s₀ (t.emit (.throttled elapsed)) := by
  rcases h.status with hs | hr
  · exact dated_emit _ rfl ⟨h.coherent, h.served, hs⟩
  · have hfee : t.shared.feeEstimate = (stateAt s₀ t.log).feeEstimate := by rw [h.coherent]
    have hs : Settled cfg s₀ (t.emit (.throttled elapsed)).log := by
      refine ⟨vouched_cons rfl hfee h.served.now.vouched, fun est _ r hr' => ?_⟩
      have hsame : lastRecovery s₀ (t.emit (.throttled elapsed)).log = lastRecovery s₀ t.log :=
        lastRise_cons_of_not (fun _ => by rw [h.coherent]; exact h.raised)
      rw [hsame, hr, Option.some.injEq] at hr'
      exact Or.inr ⟨[⟨.throttled elapsed, t.shared⟩], by rw [← hr']; rfl,
        Skipped.throttled [] elapsed t.shared hlt (fun e he => absurd he List.not_mem_nil)⟩
    exact ⟨rfl, always_cons.2 ⟨hs.served, h.served⟩, hs⟩

theorem served_snapshot {t : Task} (h : Due cfg s₀ t) :
    Always (Served cfg s₀) (t.emit .snapshot).log ∧
      lastRecovery s₀ (t.emit .snapshot).log = lastRecovery s₀ t.log := by
  have hsame : lastRecovery s₀ (t.emit .snapshot).log = lastRecovery s₀ t.log :=
    lastRise_cons_of_not (fun _ => by rw [h.coherent]; exact h.raised)
  have hfee : t.shared.feeEstimate = (stateAt s₀ t.log).feeEstimate := by rw [h.coherent]
  have hnow : Served cfg s₀ (t.emit .snapshot).log := by
    rcases h.status with hs | hr
    · exact (settled_cons rfl hfee (fun _ => by rw [h.coherent]; exact h.raised) hs).served
    · refine ⟨vouched_cons rfl hfee h.served.now.vouched, fun est _ r hr' => ?_⟩
      rw [hsame, hr, Option.some.injEq] at hr'
      exact Or.inr ⟨[⟨.snapshot, t.shared⟩], by rw [← hr']; rfl, Unrefreshed.recomputing t.shared⟩
  exact ⟨always_cons.2 ⟨hnow, h.served⟩, hsame⟩

theorem dated_failed {t : Task} (h : Due cfg s₀ t) : Dated cfg s₀ ((t.emit .snapshot).emit .recomputeFailed) := by
  obtain ⟨hserved, hsame⟩ := served_snapshot h
  rcases h.status with hs | hr
  · exact dated_emit _ rfl (dated_emit .snapshot rfl ⟨h.coherent, h.served, hs⟩)
  · have hs : Settled cfg s₀ ((t.emit .snapshot).emit .recomputeFailed).log := by
      refine ⟨vouched_cons rfl rfl hserved.now.vouched, fun est _ r hr' => ?_⟩
      have hsame' : lastRecovery s₀ ((t.emit .snapshot).emit .recomputeFailed).log =
          lastRecovery s₀ (t.emit .snapshot).log := lastRise_cons_of_not (fun hup => hup)
      rw [hsame', hsame, hr, Option.some.injEq] at hr'
      exact Or.inr ⟨[⟨.recomputeFailed, t.shared⟩, ⟨.snapshot, t.shared⟩], by rw [← hr']; rfl,
        Skipped.failed [] t.shared t.shared (fun e he => absurd he List.not_mem_nil)⟩
    exact ⟨rfl, always_cons.2 ⟨hs.served, hserved⟩, hs⟩

/-- **The recompute stores an estimate of the snapshot it took**, after the latest recovery. -/
theorem dated_stored {t : Task} (iter : SetOrder Txid) (order : ∀ n, Gbt.HashOrder n) (computedAt : ℕ)
    (h : Due cfg s₀ t) : Dated cfg s₀ ((t.emit .snapshot).write .estimate (fun g =>
      { g with feeEstimate := some (computeEstimate (snapshotRows iter t.shared.txs) (order _)
        t.shared.mempoolMinFeeSatVb computedAt) })) := by
  obtain ⟨hserved, hsame⟩ := served_snapshot h
  have hs : Settled cfg s₀ ((t.emit .snapshot).write .estimate (fun g =>
      { g with feeEstimate := some (computeEstimate (snapshotRows iter t.shared.txs) (order _)
        t.shared.mempoolMinFeeSatVb computedAt) })).log := by
    refine ⟨fun est hest => ⟨(t.emit .snapshot).log, rfl, h.raised, iter, order, computedAt, ?_⟩,
      fun est _ r hr => Or.inl ⟨(t.emit .snapshot).log, rfl, ?_⟩⟩
    · exact (Option.some.inj hest).symm
    · have hr' : lastRecovery s₀ t.log = some r := by
        rw [← hsame, ← hr]
        exact (lastRise_cons_of_not (fun hup => hup)).symm
      exact (lastRise_suffix hr').trans (List.suffix_cons _ _)
  exact ⟨rfl, always_cons.2 ⟨hs.served, hserved⟩, hs⟩

theorem dated_recompute (cfg : SyncConfig) (env : RecomputeEnv) (force : Bool) {t : Task} (h : Due cfg s₀ t) :
    Dated cfg s₀ (maybeRecomputeFees cfg env force t) := by
  unfold maybeRecomputeFees
  split
  · next hskip =>
    rw [Bool.and_eq_true, decide_eq_true_eq] at hskip
    exact dated_throttled hskip.2 h
  · dsimp only
    split
    · next computedAt _ =>
      have := dated_stored env.iter env.order computedAt h
      exact ⟨this.coherent, this.served, this.settled⟩
    · have := dated_failed h
      exact ⟨this.coherent, this.served, this.settled⟩

theorem Label.not_isEstimate_of_plain {label : Label} (h : label.plain = true) : label.isEstimate = false := by
  cases label with
  | estimate => cases h
  | _ => rfl

/-- **What every section of the loop keeps.** -/
theorem dated_invariant (cfg : SyncConfig) (s₀ : MempoolState) :
    LoopInvariant cfg (Dated cfg s₀) (Dated cfg s₀) (Due cfg s₀) where
  weaken _ h := h
  emit label _ hp h := dated_emit label (Label.not_isEstimate_of_plain hp) h
  emitResyncing label _ hp h := dated_emit label (Label.not_isEstimate_of_plain hp) h
  decide _ _ h := dated_emit _ rfl h
  stamp _ _ h := ⟨h.coherent, h.served, h.settled⟩
  bulkData _ _ _ _ h := dated_write .bulkData _ rfl rfl (fun hup => hup) h
  giveUp _ h := dated_write .setSynced _ rfl rfl (fun hup => by cases hup) h
  bulkFlags _ _ h := due_write .bulkFlags _ rfl rfl rfl h
  load _ _ h := ⟨h.coherent, h.served, h.settled⟩
  removals _ _ h := dated_write .removals _ rfl rfl (fun hup => hup) h
  backlogged _ _ _ _ h := dated_write .apply _ rfl rfl (fun hup => by cases hup) h
  caughtUp _ _ _ _ h := due_write .apply _ rfl rfl rfl h
  backdate _ _ h := ⟨h.coherent, h.served, h.raised, h.status⟩
  recompute env force _ h := dated_recompute cfg env force h

/-- **A served estimate was computed from a vouched-for snapshot, and not from one before the latest recovery unless the
recompute after that recovery is under way, was throttled or failed**, at every moment of every run. -/
theorem served_estimate_dated (cfg : SyncConfig) (network : Network) (env : StartupEnv) (ticks : List TickEnv) :
    Always (fun h => ∀ est, Http.fees (stateAt (MempoolState.new network) h) = some est →
      ∃ m, estimateSnapshot h = some m ∧ m <:+ h ∧ (stateAt (MempoolState.new network) m).caughtUp = true ∧
        ComputedFrom (stateAt (MempoolState.new network) m) est ∧
        ∀ r, lastRecovery (MempoolState.new network) h = some r →
          r <:+ m ∨ ∃ since, h = since ++ r ∧ Unrefreshed cfg since) (run cfg network env ticks).log := by
  intro h hh est hfees
  obtain ⟨hest, -⟩ := Http.fees_eq_some.1 hfees
  have hserved := ((dated_invariant cfg _).run network env ticks (dated_init cfg network)).served h hh
  obtain ⟨m, hm, hup, hfrom⟩ := hserved.vouched est hest
  refine ⟨m, hm, estimateSnapshot_suffix hm, hup, hfrom, fun r hr => ?_⟩
  rcases hserved.recent est hest r hr with ⟨m', hm', hsuf⟩ | hsince
  · rw [hm, Option.some.injEq] at hm'
    exact Or.inl (hm' ▸ hsuf)
  · exact Or.inr hsince

/-- If `/fees` answers, the estimate is not older than the latest recovery. -/
def NotOlder (s₀ : MempoolState) (h : History Label MempoolState) : Prop :=
  ∀ est, Http.fees (stateAt s₀ h) = some est →
    ∃ m, estimateSnapshot h = some m ∧ ∀ r, lastRecovery s₀ h = some r → r <:+ m

theorem not_notOlder {h : History Label MempoolState} {a b : ℕ} (hfees : (Http.fees (stateAt s₀ h)).isSome = true)
    (hsnap : (estimateSnapshot h).map List.length = some a) (hrec : (lastRecovery s₀ h).map List.length = some b)
    (hlt : a < b) : ¬ NotOlder s₀ h := by
  intro hnot
  obtain ⟨est, hest⟩ := Option.isSome_iff_exists.1 hfees
  obtain ⟨r, hr, hrlen⟩ := Option.map_eq_some_iff.1 hrec
  obtain ⟨m, hm, hsuf⟩ := hnot est hest
  rw [hm, Option.map_some, Option.some.injEq] at hsnap
  have hle := (hsuf r hr).length_le
  omega

def infolessEnv : TickEnv := { idleEnv with info := .error .http }

def promptEnv : TickEnv :=
  { idleEnv with decisionNow := 10 ^ 9, recompute := { idleEnv.recompute with now := 10 ^ 9 } }

def inestimableEnv : TickEnv := { idleEnv with recompute := { idleEnv.recompute with outcome := none } }

/-- **An estimate from before the latest recovery is served**, after a failed tick and one that recovers: when the
recovering tick is throttled, when its recompute fails, and before its recompute stores. -/
theorem promptEnv_serves_old :
    ¬ Always (NotOlder (.new .bitcoin)) (run idleConfig .bitcoin idleStartup [infolessEnv, promptEnv]).log ∧
    ¬ Always (NotOlder (.new .bitcoin)) (run idleConfig .bitcoin idleStartup [infolessEnv, inestimableEnv]).log ∧
    ¬ Always (NotOlder (.new .bitcoin)) (run idleConfig .bitcoin idleStartup [infolessEnv, idleEnv]).log := by
  refine ⟨fun hall => ?_, fun hall => ?_, fun hall => ?_⟩
  · exact @not_notOlder _ _ 7 16 (by decide +kernel) (by decide +kernel) (by decide +kernel) (by decide) hall.now
  · exact @not_notOlder _ _ 7 16 (by decide +kernel) (by decide +kernel) (by decide +kernel) (by decide) hall.now
  · -- the moment before the estimate is stored
    have hm := hall ((run idleConfig .bitcoin idleStartup [infolessEnv, idleEnv]).log.drop 1) (List.drop_suffix _ _)
    exact @not_notOlder _ _ 7 16 (by decide +kernel) (by decide +kernel) (by decide +kernel) (by decide) hm

end Sync
end Satya
