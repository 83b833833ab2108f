import Satya.Config
import Satya.SyncCooldown
import Satya.SyncStaleness
/-!
# SyncPacing — how often the projection runs

A tick runs the projection after a bulk resync that succeeded, or when it ends caught up and the minimum interval has
passed since the last recompute ended (`tick_recomputed`).  One that is not forced starts an interval after the end of
every one before it.  A forced one follows its download, which may be long: the resyncs of two are stamped a cooldown
apart, their projections need not start so (`paced`).
-/
namespace Satya
namespace Sync

variable {cfg : SyncConfig} {env : TickEnv} {t : Task}

def Label.snapshot? : Label → Option Unit
  | .snapshot => some ()
  | _ => none

/-- How often the projection was run: each run begins with a snapshot. -/
def Task.snapshots (t : Task) : ℕ := (t.observed Label.snapshot?).length

theorem snapshots_emit {label : Label} (h : label.snapshot? = none) (t : Task) : (t.emit label).snapshots = t.snapshots :=
  congrArg List.length (observed_emit h t)

theorem snapshots_write {label : Label} (h : label.snapshot? = none) (f : MempoolState → MempoolState) (t : Task) :
    (t.write label f).snapshots = t.snapshots :=
  congrArg List.length (observed_write h f t)

/-! ## One tick -/

/-- A recompute of a tick: the stamp of the resync that forced it, which is set before its download, when the projection
starts, and when it ends. -/
structure Recompute where
  forced : Option ℕ
  start : ℕ
  done : ℕ

def BulkEnv.loads (env : BulkEnv) : Bool := env.verbose.isOk && env.info.isOk && env.tip.isOk

instance (env : RecomputeEnv) : Decidable (Throttled cfg env t) := inferInstanceAs (Decidable (_ < _))

/-- The recompute that a tick runs. -/
def recomputed (cfg : SyncConfig) (env : TickEnv) (t : Task) : Option Recompute :=
  match env.info, env.txids with
  | .ok info, .ok txids =>
    match decision env t info txids with
    | some (.waitCooldown _) => none
    | some (.bulkResync _) =>
      if env.bulk.loads then some ⟨some env.resyncStamp, env.recompute.now, env.recompute.done⟩ else none
    | none =>
      if tickBacklog cfg env t txids.toFinset || decide (Throttled cfg env.recompute t) then none
      else some ⟨none, env.recompute.now, env.recompute.done⟩
  | _, _ => none

/-- The start of a forced one is a moment that the throttle does not read. -/
def Recompute.moments (r : Recompute) : List ℕ := [r.start, r.done]

theorem maybeRecomputeFees_pace (cfg : SyncConfig) (env : RecomputeEnv) (force : Bool) (t : Task) :
    if !force && decide (Throttled cfg env t) then
      (maybeRecomputeFees cfg env force t).snapshots = t.snapshots ∧
        (maybeRecomputeFees cfg env force t).lastFeeRecompute = t.lastFeeRecompute
    else (maybeRecomputeFees cfg env force t).snapshots = t.snapshots + 1 ∧
      (maybeRecomputeFees cfg env force t).lastFeeRecompute = env.done := by
  have heq : decide (Throttled cfg env t) = decide (env.now - t.lastFeeRecompute < cfg.feeRecomputeMinInterval) := rfl
  unfold maybeRecomputeFees
  rw [← heq]
  cases !force && decide (Throttled cfg env t) with
  | true => exact ⟨snapshots_emit rfl t, rfl⟩
  | false => cases env.outcome <;> exact ⟨rfl, rfl⟩

theorem bulkResync_pace (env : BulkEnv) (t : Task) : (bulkResync env t).1.isSome = env.loads ∧
    (bulkResync env t).2.snapshots = t.snapshots ∧ (bulkResync env t).2.lastFeeRecompute = t.lastFeeRecompute := by
  have hpath := bulkResync_path env t
  generalize bulkResync env t = p at hpath
  cases hpath with
  | verboseFailed e hv => exact ⟨by rw [BulkEnv.loads, hv]; rfl, rfl, rfl⟩
  | infoFailed entries e hv hi => exact ⟨by rw [BulkEnv.loads, hv, hi]; rfl, rfl, rfl⟩
  | tipFailed entries info e hv hi ht => exact ⟨by rw [BulkEnv.loads, hv, hi, ht]; rfl, rfl, rfl⟩
  | loaded entries info tip hv hi ht => exact ⟨by rw [BulkEnv.loads, hv, hi, ht]; rfl, rfl, rfl⟩

theorem receiveAll_lastFeeRecompute (env : TickEnv) : ∀ (l : List Txid) (t : Task),
    (receiveAll env l t).lastFeeRecompute = t.lastFeeRecompute
  | [], _ => rfl
  | txid :: l, t => by
    rw [receiveAll, List.foldl_cons, ← receiveAll, receiveAll_lastFeeRecompute env l]
    rfl

theorem tickApplied_pace (cfg : SyncConfig) (env : TickEnv) (info : MempoolInfo) (pool : Finset Txid) (t : Task) :
    (tickApplied cfg env info pool t).snapshots = t.snapshots ∧
      (tickApplied cfg env info pool t).lastFeeRecompute = t.lastFeeRecompute := by
  refine ⟨?_, receiveAll_lastFeeRecompute env _ _⟩
  rw [tickApplied, applyTick, snapshots_write rfl, tickFetched, snapshots_emit rfl, snapshots_emit rfl, Task.snapshots,
    receiveAll_observed (fun _ _ => rfl), ← Task.snapshots, removeGone, snapshots_write rfl]

/-- **What a tick does to the two that pace the projection**: the count of its runs, and the end of the last one. -/
theorem tick_recomputed (cfg : SyncConfig) (env : TickEnv) (t : Task) :
    (steadyTick cfg env t).snapshots = t.snapshots + (recomputed cfg env t).toList.length ∧
      (steadyTick cfg env t).lastFeeRecompute = ((recomputed cfg env t).map Recompute.done).getD t.lastFeeRecompute := by
  have hpath := steadyTick_path cfg env t
  generalize steadyTick cfg env t = t' at hpath
  cases hpath with
  | infoFailed e hi =>
    simp only [recomputed, hi]
    exact ⟨rfl, rfl⟩
  | txidsFailed info e hi ht =>
    simp only [recomputed, hi, ht]
    exact ⟨rfl, rfl⟩
  | waits info txids reason hi ht hd =>
    simp only [recomputed, hi, ht, hd]
    exact ⟨rfl, rfl⟩
  | resyncs info txids reason hi ht hd =>
    simp only [recomputed, hi, ht, hd]
    obtain ⟨hloads, hsnap, hlast⟩ := bulkResync_pace env.bulk (Task.emit (.resyncStarted env.resyncStamp)
      { (listed env t).emit (.decided (.bulkResync reason)) with lastBulkResync := env.resyncStamp })
    unfold resyncTick
    dsimp only
    split
    · next count t₁ heq =>
      rw [heq] at hloads hsnap
      obtain ⟨hsnap', hlast'⟩ := maybeRecomputeFees_pace cfg env.recompute true (applyBulkSuccess env.syncNow t₁)
      rw [← hloads, hsnap', hlast']
      exact ⟨congrArg (· + 1) hsnap, rfl⟩
    · next t₁ heq =>
      rw [heq] at hloads hsnap hlast
      rw [← hloads]
      exact ⟨hsnap, hlast⟩
  | increments info txids hi ht hd =>
    simp only [recomputed, hi, ht, hd]
    obtain ⟨hsnap, hlast⟩ := tickApplied_pace cfg env info txids.toFinset (listed env t)
    have hbacklog : tickBacklog cfg env (listed env t) txids.toFinset = tickBacklog cfg env t txids.toFinset := rfl
    have hpace := maybeRecomputeFees_pace cfg env.recompute false
      (tickApplied cfg env info txids.toFinset (listed env t))
    rw [incrementalTick_eq, hbacklog]
    cases hb : tickBacklog cfg env t txids.toFinset with
    | true => exact ⟨hsnap, hlast⟩
    | false =>
      have hdue : Throttled cfg env.recompute (tickApplied cfg env info txids.toFinset (listed env t)) ↔
          Throttled cfg env.recompute t := by
        rw [Throttled, hlast]
        exact Iff.rfl
      rw [decide_eq_decide.2 hdue, hsnap, hlast] at hpace
      cases hs : decide (Throttled cfg env.recompute t) with
      | true => rw [hs] at hpace; exact hpace
      | false => rw [hs] at hpace; exact hpace

theorem recomputed_cases {r : Recompute} (h : recomputed cfg env t = some r) :
    (Resyncs env t ∧ r = ⟨some env.resyncStamp, env.recompute.now, env.recompute.done⟩) ∨
      (¬ Throttled cfg env.recompute t ∧ r = ⟨none, env.recompute.now, env.recompute.done⟩) := by
  unfold recomputed at h
  split at h
  · next info txids hi ht =>
    split at h
    · cases h
    · next reason hd =>
      split at h
      · rw [Option.some.injEq] at h
        exact Or.inl ⟨⟨info, txids, reason, hi, ht, hd⟩, h.symm⟩
      · cases h
    · split at h
      · cases h
      · next hcond =>
        rw [Option.some.injEq] at h
        rw [Bool.or_eq_true, not_or, Bool.not_eq_true] at hcond
        exact Or.inr ⟨fun hthrottled => hcond.2 (decide_eq_true hthrottled), h.symm⟩
  · cases h

/-! ## Runs -/

def steadyRecomputed (cfg : SyncConfig) : List TickEnv → Task → List Recompute
  | [], _ => []
  | env :: ticks, t => (recomputed cfg env t).toList ++ steadyRecomputed cfg ticks (steadyTick cfg env t)

/-- The moments of the ticks' decisions, stamps and recomputes, in order. -/
def pacedMoments (cfg : SyncConfig) : List TickEnv → Task → List ℕ
  | [], _ => []
  | env :: ticks, t => tickReads env t ++ ((recomputed cfg env t).toList.flatMap Recompute.moments ++
      pacedMoments cfg ticks (steadyTick cfg env t))

/-- The distance that the cooldown and the minimum interval keep. -/
def Follows (cfg : SyncConfig) (earlier later : Recompute) : Prop :=
  (later.forced = none → earlier.done + cfg.feeRecomputeMinInterval ≤ later.start) ∧
    ∀ stamp, later.forced = some stamp →
      earlier.done ≤ stamp ∧ ∀ first, earlier.forced = some first → first + resyncCooldown ≤ stamp

/-- The recomputes `rs` come after the last one and the last bulk resync of `t`, each at its distance. -/
structure Paced (cfg : SyncConfig) (t : Task) (rs : List Recompute) : Prop where
  ordered : ∀ r ∈ rs, r.start ≤ r.done ∧ ∀ stamp, r.forced = some stamp → stamp ≤ r.start
  unforced : ∀ r ∈ rs, r.forced = none → t.lastFeeRecompute + cfg.feeRecomputeMinInterval ≤ r.start
  forced : ∀ r ∈ rs, ∀ stamp, r.forced = some stamp →
    t.lastFeeRecompute ≤ stamp ∧ t.lastBulkResync + resyncCooldown ≤ stamp
  follows : rs.Pairwise (Follows cfg)

theorem Resyncs.cooled (h : Resyncs env t) (cfg : SyncConfig) : t.lastBulkResync + resyncCooldown ≤ env.decisionNow ∧
    (steadyTick cfg env t).lastBulkResync = env.resyncStamp := by
  rcases tick_events cfg env t with ⟨hev, -⟩ | ⟨-, hcool, -, hlast⟩
  · obtain ⟨info, txids, reason, hi, ht, hd⟩ := h
    have hbefore : ((listed env t).emit (.decided (.bulkResync reason))).resyncEvents = t.resyncEvents := rfl
    rw [steadyTick_of_listed hi ht, hd, (resyncTick_events cfg env _).1, hbefore] at hev
    have hlen := congrArg List.length hev
    rw [List.length_cons, List.length_cons] at hlen
    omega
  · exact ⟨hcool, hlast⟩

/-- One recompute on a monotone clock: it is in order, at its distance from what came before, and what comes next counts
from it. -/
structure PacedTick (cfg : SyncConfig) (t t' : Task) (r : Recompute) : Prop where
  ordered : r.start ≤ r.done ∧ ∀ stamp, r.forced = some stamp → stamp ≤ r.start
  later : t.lastFeeRecompute ≤ r.done
  unforced : r.forced = none → t.lastFeeRecompute + cfg.feeRecomputeMinInterval ≤ r.start
  forced : ∀ stamp, r.forced = some stamp →
    t.lastFeeRecompute ≤ stamp ∧ t.lastBulkResync + resyncCooldown ≤ stamp
  done : t'.lastFeeRecompute = r.done
  stamp : ∀ stamp, r.forced = some stamp → t'.lastBulkResync = stamp

theorem recomputed_paced {r : Recompute} (h : recomputed cfg env t = some r)
    (hclock : (t.lastFeeRecompute :: (tickReads env t ++ r.moments)).Pairwise (· ≤ ·)) :
    PacedTick cfg t (steadyTick cfg env t) r := by
  have hend : (steadyTick cfg env t).lastFeeRecompute = r.done := by rw [(tick_recomputed cfg env t).2, h]; rfl
  rcases recomputed_cases h with ⟨hr, rfl⟩ | ⟨hdue, rfl⟩
  · obtain ⟨hcool, hlast⟩ := hr.cooled cfg
    rw [hr.reads] at hclock
    have hmoments : [t.lastFeeRecompute, env.decisionNow, env.resyncStamp, env.recompute.now,
        env.recompute.done].Pairwise (· ≤ ·) := hclock
    simp only [List.pairwise_cons, List.mem_cons, List.not_mem_nil, or_false, forall_eq_or_imp, forall_eq] at hmoments
    obtain ⟨⟨-, hlater, -, hdone⟩, ⟨hnow, -⟩, ⟨hstart, -⟩, hordered, -⟩ := hmoments
    have hforced : ∀ stamp, some env.resyncStamp = some stamp → stamp = env.resyncStamp := fun stamp heq =>
      (Option.some.inj heq).symm
    refine ⟨⟨hordered, fun stamp heq => ?_⟩, hdone, (fun hf => by cases hf), fun stamp heq => ?_, hend, fun stamp heq => ?_⟩
    · rw [hforced stamp heq]
      exact hstart
    · rw [hforced stamp heq]
      exact ⟨hlater, hcool.trans hnow⟩
    · rw [hforced stamp heq]
      exact hlast
  · have hmoments := hclock.sublist ((List.sublist_append_right _ _).cons_cons t.lastFeeRecompute)
    have hlist : [t.lastFeeRecompute, env.recompute.now, env.recompute.done].Pairwise (· ≤ ·) := hmoments
    simp only [List.pairwise_cons, List.mem_cons, List.not_mem_nil, or_false, forall_eq_or_imp, forall_eq] at hlist
    obtain ⟨⟨hnow, hdone⟩, hordered, -⟩ := hlist
    rw [Throttled] at hdue
    have hstart : t.lastFeeRecompute + cfg.feeRecomputeMinInterval ≤ env.recompute.now := by omega
    exact ⟨⟨hordered, (fun _ hf => by cases hf)⟩, hdone, fun _ => hstart, (fun _ hf => by cases hf), hend,
      (fun _ hf => by cases hf)⟩

theorem lastBulkResync_mono (cfg : SyncConfig) (env : TickEnv) (t : Task) (hclock : (tickReads env t).Pairwise (· ≤ ·)) :
    t.lastBulkResync ≤ (steadyTick cfg env t).lastBulkResync := by
  rcases tick_events cfg env t with ⟨-, hlast⟩ | ⟨hr, hcool, -, hlast⟩
  · exact hlast.ge
  · rw [hr.reads] at hclock
    have hstamp : env.decisionNow ≤ env.resyncStamp := List.rel_of_pairwise_cons hclock List.mem_cons_self
    omega

theorem Paced.of_le {t' : Task} {rs : List Recompute} (h : Paced cfg t' rs)
    (hlast : t.lastFeeRecompute ≤ t'.lastFeeRecompute) (hbulk : t.lastBulkResync ≤ t'.lastBulkResync) : Paced cfg t rs where
  ordered := h.ordered
  unforced r hr hf := (Nat.add_le_add_right hlast _).trans (h.unforced r hr hf)
  forced r hr stamp hf := ⟨hlast.trans (h.forced r hr stamp hf).1,
    (Nat.add_le_add_right hbulk _).trans (h.forced r hr stamp hf).2⟩
  follows := h.follows

theorem Paced.cons {t' : Task} {r : Recompute} {rs : List Recompute} (h : Paced cfg t' rs) (hr : PacedTick cfg t t' r)
    (hbulk : t.lastBulkResync ≤ t'.lastBulkResync) : Paced cfg t (r :: rs) := by
  have hrest : Paced cfg t rs := h.of_le (hr.later.trans hr.done.ge) hbulk
  have hfollows : ∀ later ∈ rs, Follows cfg r later := by
    intro later hmem
    refine ⟨fun hf => hr.done ▸ h.unforced later hmem hf, fun stamp hf => ?_⟩
    obtain ⟨hdone, hcool⟩ := h.forced later hmem stamp hf
    exact ⟨hr.done ▸ hdone, fun first hf' => hr.stamp first hf' ▸ hcool⟩
  exact ⟨List.forall_mem_cons.2 ⟨hr.ordered, hrest.ordered⟩, List.forall_mem_cons.2 ⟨hr.unforced, hrest.unforced⟩,
    List.forall_mem_cons.2 ⟨hr.forced, hrest.forced⟩, List.pairwise_cons.2 ⟨hfollows, h.follows⟩⟩

/-- **The recomputes of a run keep their distances**, on a monotone clock. -/
theorem paced : ∀ (ticks : List TickEnv) (t : Task),
    (t.lastFeeRecompute :: pacedMoments cfg ticks t).Pairwise (· ≤ ·) → Paced cfg t (steadyRecomputed cfg ticks t)
  | [], _, _ => ⟨by simp [steadyRecomputed], by simp [steadyRecomputed], by simp [steadyRecomputed], List.Pairwise.nil⟩
  | env :: ticks, t, hclock => by
    have hticks : (tickReads env t).Pairwise (· ≤ ·) := hclock.of_cons.sublist (List.sublist_append_left _ _)
    have hbulk := lastBulkResync_mono cfg env t hticks
    have hlast := (tick_recomputed cfg env t).2
    rw [pacedMoments] at hclock
    unfold steadyRecomputed
    cases hr : recomputed cfg env t with
    | none =>
      rw [hr] at hclock hlast
      have hrest := hclock.sublist ((List.sublist_append_right _ _).cons_cons t.lastFeeRecompute)
      exact (paced ticks (steadyTick cfg env t) (by rw [hlast]; exact hrest)).of_le hlast.ge hbulk
    | some r =>
      have hflat : (some r).toList.flatMap Recompute.moments = r.moments := by simp
      rw [hr, hflat] at hclock
      have htick : PacedTick cfg t (steadyTick cfg env t) r := by
        refine recomputed_paced hr (hclock.sublist (List.Sublist.cons_cons _ ?_))
        rw [← List.append_assoc]
        exact List.sublist_append_left _ _
      have hend : [r.done].Sublist r.moments := List.sublist_cons_self _ _
      have hrest : (r.done :: pacedMoments cfg ticks (steadyTick cfg env t)).Pairwise (· ≤ ·) :=
        hclock.of_cons.sublist ((hend.append (List.Sublist.refl _)).trans (List.sublist_append_right _ _))
      exact (paced ticks (steadyTick cfg env t) (by rw [htick.done]; exact hrest)).cons htick hbulk

/-! ## Windows -/

theorem Paced.sublist {rs rs' : List Recompute} (h : Paced cfg t rs) (hsub : rs'.Sublist rs) : Paced cfg t rs' where
  ordered r hr := h.ordered r (hsub.subset hr)
  unforced r hr := h.unforced r (hsub.subset hr)
  forced r hr := h.forced r (hsub.subset hr)
  follows := h.follows.sublist hsub

end Sync
end Satya
