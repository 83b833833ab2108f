import Satya.SyncReload
/-!
# SyncCooldown — how often the node's whole mempool is downloaded

A steady tick downloads it only in a resync that starts, at the tick's stamp, a cooldown after the stamp before
(`tick_events`), whether that resync succeeded or not; the first stamp before is the one the initial load leaves.  So the
start stamps of a run are a cooldown apart (`resync_rate_limit`).
-/
namespace Satya
namespace Sync

variable {cfg : SyncConfig} {env : TickEnv} {t t' : Task}

/-! ## Spaced instants -/

/-- Newest first, each instant at least `d` after the next. -/
def Apart (d : ℕ) (l : List ℕ) : Prop := l.Pairwise (fun later earlier => earlier + d ≤ later)

theorem Apart.add_mul_le {d a : ℕ} : ∀ {l : List ℕ} {x : ℕ}, Apart d (x :: l) → (∀ y ∈ x :: l, a ≤ y) →
    a + l.length * d ≤ x
  | [], x, _, ha => by simpa using ha x
  | y :: l, x, h, ha => by
    rw [Apart, List.pairwise_cons] at h
    have hxy := h.1 y List.mem_cons_self
    have hrest := Apart.add_mul_le h.2 (fun z hz => ha z (List.mem_cons_of_mem x hz))
    rw [List.length_cons, Nat.succ_mul]
    omega

/-- **A window of length `L` holds at most `L / d + 1` instants that are `d` apart.** -/
theorem Apart.length_window_le {d : ℕ} (hd : 0 < d) {l : List ℕ} (h : Apart d l) (a L : ℕ) :
    (l.filter (fun s => decide (a ≤ s ∧ s ≤ a + L))).length ≤ L / d + 1 := by
  have hwin : Apart d (l.filter (fun s => decide (a ≤ s ∧ s ≤ a + L))) := h.sublist List.filter_sublist
  have hmem : ∀ s ∈ l.filter (fun s => decide (a ≤ s ∧ s ≤ a + L)), a ≤ s ∧ s ≤ a + L := fun s hs =>
    of_decide_eq_true (List.mem_filter.1 hs).2
  cases hl : l.filter (fun s => decide (a ≤ s ∧ s ≤ a + L)) with
  | nil => exact Nat.zero_le _
  | cons x rest =>
    rw [hl] at hwin hmem
    have hspan := Apart.add_mul_le hwin (fun y hy => (hmem y hy).1)
    have hx := (hmem x List.mem_cons_self).2
    rw [List.length_cons]
    exact Nat.succ_le_succ ((Nat.le_div_iff_mul_le hd).2 (by omega))

/-! ## What a tick downloads -/

inductive ResyncEvent where
  | started (stamp : ℕ)
  | downloaded
deriving DecidableEq

def Label.resyncEvent? : Label → Option ResyncEvent
  | .resyncStarted stamp => some (.started stamp)
  | .reply (.rawMempoolVerbose _) => some .downloaded
  | _ => none

/-- The starts of desync-triggered resyncs and the replies to verbose downloads, newest first. -/
def Task.resyncEvents (t : Task) : List ResyncEvent := t.observed Label.resyncEvent?

theorem resyncEvents_emit {label : Label} (h : label.resyncEvent? = none) (t : Task) :
    (t.emit label).resyncEvents = t.resyncEvents :=
  observed_emit h t

theorem resyncEvents_write {label : Label} (h : label.resyncEvent? = none) (f : MempoolState → MempoolState) (t : Task) :
    (t.write label f).resyncEvents = t.resyncEvents :=
  observed_write h f t

@[simp] theorem resyncEvents_recompute (env : RecomputeEnv) (force : Bool) (t : Task) :
    (maybeRecomputeFees cfg env force t).resyncEvents = t.resyncEvents :=
  maybeRecomputeFees_observed (fun _ => rfl) rfl rfl rfl env force t

@[simp] theorem lastBulkResync_recompute (env : RecomputeEnv) (force : Bool) (t : Task) :
    (maybeRecomputeFees cfg env force t).lastBulkResync = t.lastBulkResync := by
  unfold maybeRecomputeFees
  split
  · rfl
  · dsimp only
    split <;> rfl

/-- **A bulk resync downloads once**, however it ends, and leaves the stamp to its caller. -/
theorem bulkResync_events (env : BulkEnv) (t : Task) : (bulkResync env t).2.resyncEvents = .downloaded :: t.resyncEvents ∧
    (bulkResync env t).2.lastBulkResync = t.lastBulkResync := by
  have hpath := bulkResync_path env t
  generalize bulkResync env t = p at hpath
  cases hpath with
  | verboseFailed e _ => exact ⟨rfl, rfl⟩
  | infoFailed entries e _ _ => exact ⟨rfl, rfl⟩
  | tipFailed entries info e _ _ _ => exact ⟨rfl, rfl⟩
  | loaded entries info tip _ _ _ => exact ⟨rfl, rfl⟩

theorem resyncTick_events (cfg : SyncConfig) (env : TickEnv) (t : Task) :
    (resyncTick cfg env t).resyncEvents = .downloaded :: .started env.resyncStamp :: t.resyncEvents ∧
      (resyncTick cfg env t).lastBulkResync = env.resyncStamp := by
  obtain ⟨hev, hlast⟩ := bulkResync_events env.bulk
    (Task.emit (.resyncStarted env.resyncStamp) { t with lastBulkResync := env.resyncStamp })
  unfold resyncTick
  dsimp only
  split
  · next count t₁ heq =>
    rw [heq] at hev hlast
    rw [resyncEvents_recompute, lastBulkResync_recompute]
    exact ⟨hev, hlast⟩
  · next t₁ heq =>
    rw [heq] at hev hlast
    exact ⟨hev, hlast⟩

theorem receiveAll_lastBulkResync (env : TickEnv) : ∀ (l : List Txid) (t : Task),
    (receiveAll env l t).lastBulkResync = t.lastBulkResync
  | [], _ => rfl
  | txid :: l, t => by
    rw [receiveAll, List.foldl_cons, ← receiveAll, receiveAll_lastBulkResync env l]
    rfl

theorem incrementalTick_events (cfg : SyncConfig) (env : TickEnv) (info : MempoolInfo) (pool : Finset Txid) (t : Task) :
    (incrementalTick cfg env info pool t).resyncEvents = t.resyncEvents ∧
      (incrementalTick cfg env info pool t).lastBulkResync = t.lastBulkResync := by
  have hev : (tickApplied cfg env info pool t).resyncEvents = t.resyncEvents := by
    rw [tickApplied, applyTick, resyncEvents_write rfl, tickFetched, resyncEvents_emit rfl, resyncEvents_emit rfl,
      Task.resyncEvents, receiveAll_observed (fun _ _ => rfl), ← Task.resyncEvents, removeGone, resyncEvents_write rfl]
  have hlast : (tickApplied cfg env info pool t).lastBulkResync = t.lastBulkResync :=
    receiveAll_lastBulkResync env _ _
  rw [incrementalTick_eq]
  split
  · exact ⟨hev, hlast⟩
  · rw [resyncEvents_recompute, lastBulkResync_recompute]
    exact ⟨hev, hlast⟩

/-- **A tick downloads exactly when it starts a resync**, and it starts one only when the stamp before is a cooldown
old. -/
theorem tick_events (cfg : SyncConfig) (env : TickEnv) (t : Task) :
    ((steadyTick cfg env t).resyncEvents = t.resyncEvents ∧
        (steadyTick cfg env t).lastBulkResync = t.lastBulkResync) ∨
      (Resyncs env t ∧ t.lastBulkResync + resyncCooldown ≤ env.decisionNow ∧
        (steadyTick cfg env t).resyncEvents = .downloaded :: .started env.resyncStamp :: t.resyncEvents ∧
        (steadyTick cfg env t).lastBulkResync = env.resyncStamp) := by
  have hpath := steadyTick_path cfg env t
  generalize steadyTick cfg env t = t' at hpath
  cases hpath with
  | infoFailed e _ => exact Or.inl ⟨rfl, rfl⟩
  | txidsFailed info e _ _ => exact Or.inl ⟨rfl, rfl⟩
  | waits info txids reason _ _ _ => exact Or.inl ⟨rfl, rfl⟩
  | resyncs info txids reason hi ht hd =>
    refine Or.inr ⟨⟨info, txids, reason, hi, ht, hd⟩, ?_, resyncTick_events cfg env _⟩
    unfold decision decideDesync at hd
    split at hd
    · cases hd
    · cases hcool : resyncCoolingDown (some t.lastBulkResync) env.decisionNow with
      | true => rw [hcool] at hd; cases hd
      | false =>
        rw [resyncCoolingDown, Option.any_some, decide_eq_false_iff_not, resyncCooldown] at hcool
        rw [resyncCooldown]
        omega
  | increments info txids _ _ _ =>
    obtain ⟨hev, hlast⟩ := incrementalTick_events cfg env info txids.toFinset (listed env t)
    exact Or.inl ⟨hev, hlast⟩

/-! ## Startup -/

def LoadEnv.Succeeds (load : LoadEnv) : Prop :=
  ∃ entries info tip, load.bulk.verbose = .ok entries ∧ load.bulk.info = .ok info ∧ load.bulk.tip = .ok tip

theorem waitUntilMempoolLoaded_events : ∀ (infos : List (Except RpcError MempoolInfo)) (t : Task),
    (waitUntilMempoolLoaded infos t).2.resyncEvents = t.resyncEvents
  | [], _ => rfl
  | r :: rs, t => by
    unfold waitUntilMempoolLoaded
    dsimp only
    split
    · exact resyncEvents_emit rfl t
    · rw [waitUntilMempoolLoaded_events rs]
      exact resyncEvents_emit rfl t

/-- **The initial load ends with its first success**, and stamps the moment after it. -/
theorem initialBulkLoad_events : ∀ (loads : List LoadEnv) (t : Task),
    (∃ k, (initialBulkLoad loads t).2.resyncEvents = List.replicate k .downloaded ++ t.resyncEvents) ∧
    ((initialBulkLoad loads t).1 = true → ∃ pre load post, loads = pre ++ load :: post ∧ load.Succeeds ∧
      (∀ e ∈ pre, ¬ e.Succeeds) ∧ (initialBulkLoad loads t).2.lastBulkResync = load.stamp)
  | [], t => ⟨⟨0, rfl⟩, fun h => by cases h⟩
  | env :: loads, t => by
    obtain ⟨hev, -⟩ := bulkResync_events env.bulk t
    have hpath := bulkResync_path env.bulk t
    unfold initialBulkLoad
    split
    · next count t₁ heq =>
      rw [heq] at hev hpath
      refine ⟨⟨1, hev⟩, fun _ => ⟨[], env, loads, rfl, ?_, fun e he => absurd he List.not_mem_nil, rfl⟩⟩
      cases hpath with
      | loaded entries info tip hv hi ht => exact ⟨entries, info, tip, hv, hi, ht⟩
    · next t₁ heq =>
      rw [heq] at hev hpath
      obtain ⟨⟨k, hk⟩, hload⟩ := initialBulkLoad_events loads t₁
      refine ⟨⟨k + 1, ?_⟩, fun h => ?_⟩
      · rw [hk, hev, List.replicate_succ', List.append_assoc]
        rfl
      · obtain ⟨pre, load, post, rfl, hs, hpre, hstamp⟩ := hload h
        refine ⟨env :: pre, load, post, rfl, hs, fun e he => ?_, hstamp⟩
        rcases List.mem_cons.1 he with rfl | he
        · rintro ⟨entries, info, tip, hv, hi, ht⟩
          have hsome : (bulkResync e.bulk t).1 = some entries.length := by simp only [bulkResync, hv, hi, ht]
          rw [heq] at hsome
          cases hsome
        · exact hpre e he

/-- **Startup starts no desync-triggered resync.** -/
theorem startup_events (cfg : SyncConfig) (env : StartupEnv) (network : Network) :
    (∃ k, (startup cfg env (Task.init network)).2.resyncEvents = List.replicate k .downloaded) ∧
    ((startup cfg env (Task.init network)).1 = true → ∃ pre load post, env.loads = pre ++ load :: post ∧
      load.Succeeds ∧ (∀ e ∈ pre, ¬ e.Succeeds) ∧
        (startup cfg env (Task.init network)).2.lastBulkResync = load.stamp) := by
  have hwait := waitUntilMempoolLoaded_events env.infos (Task.init network)
  have hnone : (Task.init network).resyncEvents = [] := rfl
  unfold startup
  split
  · next t₁ h₁ =>
    rw [h₁, hnone] at hwait
    exact ⟨⟨0, hwait⟩, fun h => by cases h⟩
  · next t₁ h₁ =>
    rw [h₁, hnone] at hwait
    obtain ⟨⟨k, hk⟩, hload⟩ := initialBulkLoad_events env.loads t₁
    rw [hwait, List.append_nil] at hk
    split
    · next t₂ h₂ =>
      rw [h₂] at hk
      exact ⟨⟨k, hk⟩, fun h => by cases h⟩
    · next t₂ h₂ =>
      rw [h₂] at hk hload
      dsimp only
      rw [resyncEvents_recompute, lastBulkResync_recompute]
      exact ⟨⟨k, hk⟩, fun _ => hload rfl⟩

/-! ## Runs -/

/-- What a tick reads off the monotonic clock for its decision and its stamp, in order. -/
def tickReads (env : TickEnv) (t : Task) : List ℕ :=
  match env.info, env.txids with
  | .ok info, .ok txids =>
    match decision env t info txids with
    | some (.bulkResync _) => [env.decisionNow, env.resyncStamp]
    | _ => [env.decisionNow]
  | _, _ => []

def steadyReads (cfg : SyncConfig) : List TickEnv → Task → List ℕ
  | [], _ => []
  | env :: ticks, t => tickReads env t ++ steadyReads cfg ticks (steadyTick cfg env t)

/-- What a run reads: the stamp of the initial load, then what each tick reads. -/
def clockReads (cfg : SyncConfig) (network : Network) (env : StartupEnv) (ticks : List TickEnv) : List ℕ :=
  match startup cfg env (Task.init network) with
  | (false, _) => []
  | (true, t) => t.lastBulkResync :: steadyReads cfg ticks t

theorem Resyncs.reads (h : Resyncs env t) : tickReads env t = [env.decisionNow, env.resyncStamp] := by
  obtain ⟨info, txids, reason, hi, ht, hd⟩ := h
  simp only [tickReads, hi, ht, hd]

/-- The stamps so far are a cooldown apart, from the instant `start` on. -/
structure Spaced (start : ℕ) (before : List ResyncEvent) (stamps : List ℕ) (t : Task) : Prop where
  events : t.resyncEvents = stamps.flatMap (fun s => [.downloaded, .started s]) ++ before
  apart : Apart resyncCooldown stamps
  first : ∀ s ∈ stamps, start + resyncCooldown ≤ s
  latest : ∀ s ∈ stamps, s ≤ t.lastBulkResync
  later : start ≤ t.lastBulkResync

theorem Spaced.tick {start : ℕ} {before : List ResyncEvent} {stamps : List ℕ} (h : Spaced start before stamps t)
    (hclock : Resyncs env t → env.decisionNow ≤ env.resyncStamp) :
    ∃ stamps', Spaced start before stamps' (steadyTick cfg env t) := by
  rcases tick_events cfg env t with ⟨hev, hlast⟩ | ⟨hr, hcool, hev, hlast⟩
  · exact ⟨stamps, hev.trans h.events, h.apart, h.first, hlast ▸ h.latest, hlast ▸ h.later⟩
  · have hnow := hclock hr
    have hstart := h.later
    refine ⟨env.resyncStamp :: stamps, ?_, ?_, fun s hs => ?_, fun s hs => ?_, ?_⟩
    · rw [hev, h.events]
      rfl
    · refine List.pairwise_cons.2 ⟨fun s hs => ?_, h.apart⟩
      have := h.latest s hs
      omega
    · rcases List.mem_cons.1 hs with rfl | hs
      · omega
      · exact h.first s hs
    · rw [hlast]
      rcases List.mem_cons.1 hs with rfl | hs
      · exact le_rfl
      · have := h.latest s hs
        omega
    · rw [hlast]
      omega

theorem Spaced.run {start : ℕ} {before : List ResyncEvent} : ∀ {ticks : List TickEnv} {stamps : List ℕ} {t : Task},
    Spaced start before stamps t → (steadyReads cfg ticks t).Pairwise (· ≤ ·) →
      ∃ stamps', Spaced start before stamps' (steadyRun cfg ticks t)
  | [], stamps, _, h, _ => ⟨stamps, h⟩
  | env :: ticks, stamps, t, h, hclock => by
    rw [steadyReads, List.pairwise_append] at hclock
    have hnow : Resyncs env t → env.decisionNow ≤ env.resyncStamp := fun hr => by
      have hpair := hclock.1
      rw [hr.reads] at hpair
      exact List.rel_of_pairwise_cons hpair List.mem_cons_self
    obtain ⟨stamps₁, h₁⟩ : ∃ stamps', Spaced start before stamps' (steadyTick cfg env t) := h.tick hnow
    have hrun : steadyRun cfg (env :: ticks) t = steadyRun cfg ticks (steadyTick cfg env t) := rfl
    rw [hrun]
    exact Spaced.run h₁ hclock.2.1

/-- **Resyncs are rate limited**: on a monotone clock, whatever the node answers, the verbose downloads after startup are
those of the desync-triggered resyncs, one each; their start stamps are a cooldown apart, the first of them a cooldown
after the stamp of the initial load; and a window of length `L` holds at most `L / resyncCooldown + 1` stamps. -/
theorem resync_rate_limit (cfg : SyncConfig) (network : Network) (env : StartupEnv) (ticks : List TickEnv)
    (hclock : (clockReads cfg network env ticks).Pairwise (· ≤ ·)) : ∃ stamps : List ℕ,
      (run cfg network env ticks).resyncEvents = stamps.flatMap (fun s => [.downloaded, .started s]) ++
        (startup cfg env (Task.init network)).2.resyncEvents ∧
      (∀ e ∈ (startup cfg env (Task.init network)).2.resyncEvents, e = .downloaded) ∧
      stamps.Pairwise (fun later earlier => earlier + resyncCooldown ≤ later) ∧
      (∀ s ∈ stamps, ∃ pre load post, env.loads = pre ++ load :: post ∧ load.Succeeds ∧ (∀ e ∈ pre, ¬ e.Succeeds) ∧
        load.stamp + resyncCooldown ≤ s) ∧
      ∀ a L, (stamps.filter (fun s => decide (a ≤ s ∧ s ≤ a + L))).length ≤ L / resyncCooldown + 1 := by
  obtain ⟨⟨k, hk⟩, hload⟩ := startup_events cfg env network
  have hdown : ∀ e ∈ (startup cfg env (Task.init network)).2.resyncEvents, e = .downloaded := fun e he => by
    rw [hk] at he
    exact List.eq_of_mem_replicate he
  rw [run_of_startup]
  cases hs : (startup cfg env (Task.init network)).1 with
  | false => exact ⟨[], rfl, hdown, List.Pairwise.nil, fun s hs => absurd hs List.not_mem_nil, fun a L => Nat.zero_le _⟩
  | true =>
    obtain ⟨pre, load, post, hloads, hsucc, hpre, hstamp⟩ := hload hs
    have hreads : (steadyReads cfg ticks (startup cfg env (Task.init network)).2).Pairwise (· ≤ ·) := by
      unfold clockReads at hclock
      split at hclock
      · next h => rw [h] at hs; cases hs
      · next h => rw [h]; exact hclock.of_cons
    have hstart : Spaced load.stamp (startup cfg env (Task.init network)).2.resyncEvents []
        (startup cfg env (Task.init network)).2 :=
      ⟨rfl, List.Pairwise.nil, fun s hs => absurd hs List.not_mem_nil, fun s hs => absurd hs List.not_mem_nil, hstamp.ge⟩
    obtain ⟨stamps, h⟩ := hstart.run hreads
    exact ⟨stamps, h.events, hdown, h.apart, fun s hs => ⟨pre, load, post, hloads, hsucc, hpre, h.first s hs⟩,
      h.apart.length_window_le (by decide)⟩

/-- A node that reports `loaded = false` on every tick. -/
theorem resync_rate_limit_loadingEnv : ∃ stamps : List ℕ,
    (run idleConfig .bitcoin idleStartup [{ loadingEnv with decisionNow := 5 }, loadingEnv, loadingEnv]).resyncEvents =
      stamps.flatMap (fun s => [.downloaded, .started s]) ++
        (startup idleConfig idleStartup (Task.init .bitcoin)).2.resyncEvents ∧
    stamps.Pairwise (fun later earlier => earlier + resyncCooldown ≤ later) := by
  obtain ⟨stamps, hev, -, hap, -⟩ := resync_rate_limit idleConfig .bitcoin idleStartup
    [{ loadingEnv with decisionNow := 5 }, loadingEnv, loadingEnv] (by decide +kernel)
  exact ⟨stamps, hev, hap⟩

end Sync
end Satya
