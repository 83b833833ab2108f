import Satya.SyncTickSpec
/-!
# SyncInvariant — the invariant rule of the sync loop

A run of the loop alternates between three conditions: `idle` between two sections of no consequence, `resyncing` from
the decision for a bulk resync until its data lands, `due` from a section that raises the flag until the recompute after
it.  `LoopInvariant` lists what each section must keep; the rule carries `idle` over every tick and every run.
-/
namespace Satya
namespace Sync

/-- The labels of the steps that leave the shared state alone and that no rule singles out. -/
def Label.plain : Label → Bool
  | .reply _ | .decided (.waitCooldown _) | .resyncStarted _ | .summary _ _ => true
  | _ => false

/-- What each section of the loop keeps. -/
structure LoopInvariant (cfg : SyncConfig) (idle resyncing due : Task → Prop) : Prop where
  weaken : ∀ t, idle t → resyncing t
  emit : ∀ label t, label.plain = true → idle t → idle (t.emit label)
  emitResyncing : ∀ label t, label.plain = true → resyncing t → resyncing (t.emit label)
  decide : ∀ reason t, idle t → resyncing (t.emit (.decided (.bulkResync reason)))
  stamp : ∀ stamp t, resyncing t → resyncing { t with lastBulkResync := stamp }
  bulkData : ∀ entries info tip t, resyncing t → idle (t.write .bulkData (fun g =>
    { g with txs := collectDump entries, mempoolMinFeeSatVb := minFeeSatVb info, tipHeight := tip }))
  giveUp : ∀ t, resyncing t → idle (setSynced false t)
  bulkFlags : ∀ now t, idle t → due (applyBulkSuccess now t)
  load : ∀ stamp t, idle t → idle { t with lastBulkResync := stamp }
  removals : ∀ gone t, idle t → idle (removeGone gone t)
  backlogged : ∀ env info fetched t, idle t → idle (applyTick env info fetched true t)
  caughtUp : ∀ env info fetched t, idle t → due (applyTick env info fetched false t)
  backdate : ∀ instant t, due t → due { t with lastFeeRecompute := instant }
  recompute : ∀ env force t, due t → idle (maybeRecomputeFees cfg env force t)

namespace LoopInvariant

variable {cfg : SyncConfig} {idle resyncing due : Task → Prop}

theorem receiveAll (inv : LoopInvariant cfg idle resyncing due) (env : TickEnv) : ∀ (l : List Txid) {t : Task},
    idle t → idle (receiveAll env l t)
  | [], _, h => h
  | _ :: l, _, h => inv.receiveAll env l (inv.emit _ _ rfl h)

/-- A bulk resync that succeeds has replaced the data; one that fails is still to be given up. -/
theorem bulkResync (inv : LoopInvariant cfg idle resyncing due) {t : Task} (env : BulkEnv) (h : resyncing t) :
    ((bulkResync env t).1.isSome = true → idle (bulkResync env t).2) ∧
      ((bulkResync env t).1.isSome = false → resyncing (bulkResync env t).2) := by
  have hpath := bulkResync_path env t
  generalize Sync.bulkResync env t = p at hpath
  have h1 := inv.emitResyncing (.reply (.rawMempoolVerbose env.verbose)) t rfl h
  have h2 := inv.emitResyncing (.reply (.mempoolInfo env.info)) _ rfl h1
  have h3 := inv.emitResyncing (.reply (.tipHeight env.tip)) _ rfl h2
  cases hpath with
  | verboseFailed e _ => exact ⟨(fun hs => by cases hs), fun _ => h1⟩
  | infoFailed entries e _ _ => exact ⟨(fun hs => by cases hs), fun _ => h2⟩
  | tipFailed entries info e _ _ _ => exact ⟨(fun hs => by cases hs), fun _ => h3⟩
  | loaded entries info tip _ _ _ => exact ⟨fun _ => inv.bulkData entries info tip _ h3, (fun hs => by cases hs)⟩

theorem failedBulk (inv : LoopInvariant cfg idle resyncing due) {t t' : Task} {env : BulkEnv} (h : idle t)
    (heq : Sync.bulkResync env t = (none, t')) : idle t' := by
  have hpath := bulkResync_path env t
  rw [heq] at hpath
  have h1 := inv.emit (.reply (.rawMempoolVerbose env.verbose)) t rfl h
  have h2 := inv.emit (.reply (.mempoolInfo env.info)) _ rfl h1
  cases hpath with
  | verboseFailed e _ => exact h1
  | infoFailed entries e _ _ => exact h2
  | tipFailed entries info e _ _ _ => exact inv.emit _ _ rfl h2

/-! ## A tick -/

theorem incrementalTick (inv : LoopInvariant cfg idle resyncing due) {t : Task} (env : TickEnv) (info : MempoolInfo)
    (nodeTxids : Finset Txid) (h : idle t) : idle (incrementalTick cfg env info nodeTxids t) := by
  have hfetched : idle (tickFetched cfg env nodeTxids t) :=
    inv.emit _ _ rfl (inv.emit _ _ rfl (inv.receiveAll env _ (inv.removals _ _ h)))
  rw [incrementalTick_eq, tickApplied]
  cases tickBacklog cfg env t nodeTxids with
  | true => exact inv.backlogged env info _ _ hfetched
  | false => exact inv.recompute env.recompute false _ (inv.caughtUp env info _ _ hfetched)

theorem resyncTick (inv : LoopInvariant cfg idle resyncing due) {t : Task} (env : TickEnv) (h : resyncing t) :
    idle (resyncTick cfg env t) := by
  have hbulk := inv.bulkResync env.bulk (inv.emitResyncing (.resyncStarted env.resyncStamp) _ rfl
    (inv.stamp env.resyncStamp t h))
  unfold Sync.resyncTick
  dsimp only
  split
  · next n t' heq =>
    rw [heq] at hbulk
    exact inv.recompute env.recompute true _ (inv.bulkFlags env.syncNow t' (hbulk.1 rfl))
  · next t' heq =>
    rw [heq] at hbulk
    exact inv.giveUp t' (hbulk.2 rfl)

/-- **One tick keeps the invariant.** -/
theorem steadyTick (inv : LoopInvariant cfg idle resyncing due) {t : Task} (env : TickEnv) (h : idle t) :
    idle (steadyTick cfg env t) := by
  have hpath := steadyTick_path cfg env t
  generalize Sync.steadyTick cfg env t = t' at hpath
  have hinfo := inv.emit (.reply (.mempoolInfo env.info)) t rfl h
  have hlisted : idle (listed env t) := inv.emit _ _ rfl hinfo
  cases hpath with
  | infoFailed e _ => exact inv.giveUp _ (inv.weaken _ hinfo)
  | txidsFailed info e _ _ => exact inv.giveUp _ (inv.weaken _ hlisted)
  | waits info txids reason _ _ _ => exact inv.giveUp _ (inv.weaken _ (inv.emit _ _ rfl hlisted))
  | resyncs info txids reason _ _ _ => exact inv.resyncTick env (inv.decide reason _ hlisted)
  | increments info txids _ _ _ => exact inv.incrementalTick env info txids.toFinset hlisted

/-- **Every sequence of ticks keeps the invariant.** -/
theorem steadyRun (inv : LoopInvariant cfg idle resyncing due) : ∀ (ticks : List TickEnv) {t : Task}, idle t →
    idle (steadyRun cfg ticks t)
  | [], _, h => h
  | env :: ticks, _, h => inv.steadyRun ticks (inv.steadyTick env h)

/-! ## Startup -/

theorem waitUntilMempoolLoaded (inv : LoopInvariant cfg idle resyncing due) :
    ∀ (infos : List (Except RpcError MempoolInfo)) {t : Task}, idle t → idle (waitUntilMempoolLoaded infos t).2
  | [], _, h => h
  | r :: rs, t, h => by
    have hr := inv.emit (.reply (.mempoolInfo r)) t rfl h
    unfold Sync.waitUntilMempoolLoaded
    dsimp only
    split
    · exact hr
    · exact inv.waitUntilMempoolLoaded rs hr

/-- The initial load ends with the flag raised, or has not succeeded yet. -/
theorem initialBulkLoad (inv : LoopInvariant cfg idle resyncing due) : ∀ (loads : List LoadEnv) {t : Task}, idle t →
    ((initialBulkLoad loads t).1 = true → due (initialBulkLoad loads t).2) ∧
      ((initialBulkLoad loads t).1 = false → idle (initialBulkLoad loads t).2)
  | [], _, h => ⟨(fun hs => by cases hs), fun _ => h⟩
  | env :: loads, t, h => by
    have hbulk := inv.bulkResync env.bulk (inv.weaken t h)
    unfold Sync.initialBulkLoad
    split
    · next n t' heq =>
      rw [heq] at hbulk
      exact ⟨fun _ => inv.bulkFlags env.syncNow _ (inv.load env.stamp t' (hbulk.1 rfl)), (fun hs => by cases hs)⟩
    · next t' heq => exact inv.initialBulkLoad loads (inv.failedBulk h heq)

theorem startup (inv : LoopInvariant cfg idle resyncing due) {t : Task} (env : StartupEnv) (h : idle t) :
    idle (startup cfg env t).2 := by
  have hwait := inv.waitUntilMempoolLoaded env.infos h
  unfold Sync.startup
  split
  · next t' heq => rw [heq] at hwait; exact hwait
  · next t' heq =>
    rw [heq] at hwait
    have hload := inv.initialBulkLoad env.loads hwait
    split
    · next t'' heq' => rw [heq'] at hload; exact hload.2 rfl
    · next t'' heq' =>
      rw [heq'] at hload
      exact inv.recompute env.recompute true _ (inv.backdate _ _ (hload.1 rfl))

/-- **Every run keeps what the initial task establishes.** -/
theorem run (inv : LoopInvariant cfg idle resyncing due) (network : Network) (env : StartupEnv) (ticks : List TickEnv)
    (h : idle (Task.init network)) : idle (run cfg network env ticks) := by
  have hstart := inv.startup env h
  unfold Sync.run
  split
  · next t heq => rw [heq] at hstart; exact hstart
  · next t heq => rw [heq] at hstart; exact inv.steadyRun ticks hstart

end LoopInvariant
end Sync
end Satya
