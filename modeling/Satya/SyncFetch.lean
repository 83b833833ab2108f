import Satya.Config
import Satya.SyncDrain
import Satya.SyncReload
/-!
# SyncFetch — the fetches in flight (`fetch_new_entries`)

The results of the requests come off a stream, each once and in the order of completion; the stream itself is a parameter
(`BufferUnordered`).  The loop awaits them one by one, and past the budget it drains what a poll has ready.  Whatever it
takes so is an order of the candidates and a cut-off (`exists_order`), so a run with its fetches in flight is a run of the
loop over these (`concurrent_run`).
-/
namespace Satya
namespace Sync

/-! ## The stream -/

/-- What `buffer_unordered(concurrency)` documents of the stream of results, which are named by their transactions.  A
poll is `none` where nothing is ready and `some none` once the stream ended; as every request ends, a stream that is
awaited is ready in the end, where at least one may be in flight. -/
structure BufferUnordered (concurrency : ℕ) where
  Stream : Type
  start : List Txid → Stream
  outstanding : Stream → List Txid
  Poll : Stream → Option (Option Txid) → Stream → Prop
  start_outstanding : ∀ candidates, (outstanding (start candidates)).Perm candidates
  poll_ready : ∀ {s s' x}, Poll s (some (some x)) s' → (outstanding s).Perm (x :: outstanding s')
  poll_ended : ∀ {s s'}, Poll s (some none) s' → outstanding s = []
  poll_pending : ∀ {s s'}, Poll s none s' → (outstanding s).Perm (outstanding s')
  exists_poll : ∀ s, ∃ r s', Poll s r s'
  exists_ready : 0 < concurrency → ∀ s, ∃ s', Relation.ReflTransGen (fun s s' => Poll s none s') s s' ∧
    ∃ r s'', Poll s' (some r) s''

variable {concurrency : ℕ}

/-- `next().await`: polls until one is ready. -/
def BufferUnordered.Next (stream : BufferUnordered concurrency) (s : stream.Stream) (r : Option Txid)
    (s'' : stream.Stream) : Prop :=
  ∃ s', Relation.ReflTransGen (fun s s' => stream.Poll s none s') s s' ∧ stream.Poll s' (some r) s''

section Stream

variable {stream : BufferUnordered concurrency} {s s' : stream.Stream}

theorem outstanding_pending (h : Relation.ReflTransGen (fun s s' => stream.Poll s none s') s s') :
    (stream.outstanding s).Perm (stream.outstanding s') := by
  induction h with
  | refl => exact List.Perm.refl _
  | tail _ hpoll ih => exact ih.trans (stream.poll_pending hpoll)

theorem outstanding_next {x : Txid} (h : stream.Next s (some x) s') :
    (stream.outstanding s).Perm (x :: stream.outstanding s') := by
  obtain ⟨between, hpending, hpoll⟩ := h
  exact (outstanding_pending hpending).trans (stream.poll_ready hpoll)

theorem outstanding_ended (h : stream.Next s none s') : stream.outstanding s = [] := by
  obtain ⟨between, hpending, hpoll⟩ := h
  have hperm := outstanding_pending hpending
  rw [stream.poll_ended hpoll] at hperm
  exact hperm.eq_nil

theorem exists_next (hpos : 0 < concurrency) (s : stream.Stream) : ∃ r s', stream.Next s r s' := by
  obtain ⟨between, hpending, r, s', hpoll⟩ := stream.exists_ready hpos s
  exact ⟨r, s', between, hpending, hpoll⟩

end Stream

/-! ### The buffer

A stream that does so: it asks for the next candidates while there is room, and yields what is in flight in any order. -/

structure Buffer (concurrency : ℕ) where
  pending : List Txid
  inFlight : List Txid
  cap : inFlight.length ≤ concurrency

namespace Buffer

def start (candidates : List Txid) : Buffer concurrency := ⟨candidates, [], Nat.zero_le _⟩

def fill (b : Buffer concurrency) : Buffer concurrency where
  pending := b.pending.drop (concurrency - b.inFlight.length)
  inFlight := b.inFlight ++ b.pending.take (concurrency - b.inFlight.length)
  cap := by
    have hcap := b.cap
    rw [List.length_append, List.length_take]
    omega

def take (b : Buffer concurrency) (x : Txid) : Buffer concurrency :=
  ⟨b.pending, b.inFlight.erase x, List.length_erase_le.trans b.cap⟩

def outstanding (b : Buffer concurrency) : List Txid := b.inFlight ++ b.pending

inductive Poll (b : Buffer concurrency) : Option (Option Txid) → Buffer concurrency → Prop
  | ready (x : Txid) : x ∈ b.fill.inFlight → Poll b (some (some x)) (b.fill.take x)
  | ended : b.fill.outstanding = [] → Poll b (some none) b.fill
  | pending : b.fill.outstanding ≠ [] → Poll b none b.fill

theorem outstanding_fill (b : Buffer concurrency) : b.fill.outstanding = b.outstanding := by
  rw [outstanding, fill, outstanding, List.append_assoc, List.take_append_drop]

theorem outstanding_take {b : Buffer concurrency} {x : Txid} (hx : x ∈ b.inFlight) :
    b.outstanding.Perm (x :: (b.take x).outstanding) :=
  (List.perm_cons_erase hx).append_right b.pending

theorem fill_inFlight_ne_nil (hpos : 0 < concurrency) {b : Buffer concurrency} (h : b.fill.outstanding ≠ []) :
    b.fill.inFlight ≠ [] := by
  intro hnil
  obtain ⟨hempty, hnone⟩ : b.inFlight = [] ∧ b.pending.take (concurrency - b.inFlight.length) = [] :=
    List.append_eq_nil_iff.1 hnil
  rw [hempty, List.take_eq_nil_iff] at hnone
  rcases hnone with hroom | hpending
  · exact absurd hroom (Nat.sub_ne_zero_of_lt hpos)
  · exact h (by rw [outstanding_fill, outstanding, hempty, hpending]; rfl)

end Buffer

def buffered (concurrency : ℕ) : BufferUnordered concurrency where
  Stream := Buffer concurrency
  start := Buffer.start
  outstanding := Buffer.outstanding
  Poll := Buffer.Poll
  start_outstanding candidates := List.Perm.refl candidates
  poll_ready := by
    intro b b' x h
    cases h with
    | ready x hx => exact b.outstanding_fill ▸ Buffer.outstanding_take hx
  poll_ended := by
    intro b b' h
    cases h with
    | ended h => exact b.outstanding_fill ▸ h
  poll_pending := by
    intro b b' h
    cases h with
    | pending => rw [b.outstanding_fill]
  exists_poll b := by
    by_cases h : b.fill.outstanding = []
    · exact ⟨_, _, .ended h⟩
    · exact ⟨_, _, .pending h⟩
  exists_ready hpos b := by
    refine ⟨b, .refl, ?_⟩
    by_cases h : b.fill.outstanding = []
    · exact ⟨_, _, .ended h⟩
    · obtain ⟨x, hx⟩ := List.exists_mem_of_ne_nil _ (Buffer.fill_inFlight_ne_nil hpos h)
      exact ⟨_, _, .ready x hx⟩

/-! ## The loop over it -/

namespace BufferUnordered

variable (stream : BufferUnordered concurrency) (cfg : SyncConfig) (env : TickEnv)

/-- The drain: `while let Some(Some(..)) = results.next().now_or_never()`. -/
inductive Drains : stream.Stream → FetchBatch × Task → FetchBatch × Task → Prop
  | item {s s' : stream.Stream} {x : Txid} {p q : FetchBatch × Task} : stream.Poll s (some (some x)) s' →
      Drains s' (receive env p x) q → Drains s p q
  | stop {s s' : stream.Stream} {r : Option (Option Txid)} {p : FetchBatch × Task} : stream.Poll s r s' →
      (∀ x, r ≠ some (some x)) → Drains s p p

/-- The loop: `while let Some(..) = results.next().await`. -/
inductive Consumes : stream.Stream → FetchBatch × Task → FetchBatch × Task → Prop
  | item {s s' : stream.Stream} {x : Txid} {p q : FetchBatch × Task} : stream.Next s (some x) s' →
      env.elapsed x ≤ cfg.tickBudget → Consumes s' (receive env p x) q → Consumes s p q
  -- past the budget: what is ready is drained, and the rest dropped with the stream
  | bail {s s' : stream.Stream} {x : Txid} {p q : FetchBatch × Task} : stream.Next s (some x) s' →
      cfg.tickBudget < env.elapsed x → stream.Drains env s' (receive env p x) q → Consumes s p q
  | ended {s s' : stream.Stream} {p : FetchBatch × Task} : stream.Next s none s' → Consumes s p p

/-- `fetch_new_entries` over the stream. -/
inductive Fetches (newTxids : List Txid) (maxPerTick : ℕ) (t : Task) : FetchBatchResult × Task → Prop
  | intro {p : FetchBatch × Task} :
      stream.Consumes cfg env (stream.start (newTxids.take maxPerTick)) (FetchBatch.empty, t) p →
      Fetches newTxids maxPerTick t
        (⟨p.1.fetched, p.1.fetchErrors, decide (p.1.resolved < (newTxids.take maxPerTick).length)⟩, p.2)

end BufferUnordered

/-- Two ticks that meet the same, the order of the results and what is ready at the cut-off apart. -/
structure Reordered (env env' : TickEnv) : Prop where
  info : env'.info = env.info
  txids : env'.txids = env.txids
  decisionNow : env'.decisionNow = env.decisionNow
  resyncStamp : env'.resyncStamp = env.resyncStamp
  bulk : env'.bulk = env.bulk
  diffOrder : env'.diffOrder = env.diffOrder
  entry : env'.entry = env.entry
  elapsed : env'.elapsed = env.elapsed
  tip : env'.tip = env.tip
  syncNow : env'.syncNow = env.syncNow
  recompute : env'.recompute = env.recompute

theorem Reordered.refl (env : TickEnv) : Reordered env env := ⟨rfl, rfl, rfl, rfl, rfl, rfl, rfl, rfl, rfl, rfl, rfl⟩

/-- The tick whose results complete in another order, with other results ready at the cut-off. -/
def TickEnv.reordered (env : TickEnv) (candidates order : List Txid) (h : order.Perm candidates) (ready : ℕ) : TickEnv :=
  { env with
    completion := fun l => if l = candidates then order else l
    completion_perm := fun l => by
      split
      · next heq => exact heq ▸ h
      · exact List.Perm.refl l
    ready }

theorem reordered_reordered (env : TickEnv) (candidates order : List Txid) (h : order.Perm candidates) (ready : ℕ) :
    Reordered env (env.reordered candidates order h ready) :=
  ⟨rfl, rfl, rfl, rfl, rfl, rfl, rfl, rfl, rfl, rfl, rfl⟩

section Fetch

variable {stream : BufferUnordered concurrency} {cfg : SyncConfig} {env env' : TickEnv} {s : stream.Stream}
  {p q : FetchBatch × Task}

theorem Reordered.receive (h : Reordered env env') : Sync.receive env' = Sync.receive env := by
  funext p x
  rw [Sync.receive, Sync.receive, h.entry]

theorem exists_drained (h : stream.Drains env s p q) :
    ∃ drained left : List Txid, (drained ++ left).Perm (stream.outstanding s) ∧ q = drained.foldl (receive env) p := by
  induction h with
  | @item s s' x p q hpoll _ ih =>
    obtain ⟨drained, left, hperm, rfl⟩ := ih
    exact ⟨x :: drained, left, (hperm.cons x).trans (stream.poll_ready hpoll).symm, rfl⟩
  | @stop s s' r p _ _ => exact ⟨[], stream.outstanding s, List.Perm.refl _, rfl⟩

/-- **What the loop takes off a stream is an order and a cut-off.** -/
theorem exists_order (h : stream.Consumes cfg env s p q) :
    ∃ (order : List Txid) (ready : ℕ), order.Perm (stream.outstanding s) ∧
      ∀ env', Reordered env env' → env'.ready = ready → fetchLoop cfg env' order p = q := by
  induction h with
  | @item s s' x p q hnext hin _ ih =>
    obtain ⟨order, ready, hperm, hloop⟩ := ih
    refine ⟨x :: order, ready, (hperm.cons x).trans (outstanding_next hnext).symm, fun env' henv hready => ?_⟩
    rw [fetchLoop, henv.elapsed, if_neg (not_lt.2 hin), henv.receive]
    exact hloop env' henv hready
  | @bail s s' x p q hnext hlate hdrains =>
    obtain ⟨drained, left, hperm, rfl⟩ := exists_drained hdrains
    refine ⟨x :: (drained ++ left), drained.length, (hperm.cons x).trans (outstanding_next hnext).symm,
      fun env' henv hready => ?_⟩
    rw [fetchLoop, henv.elapsed, if_pos hlate, henv.receive, hready, List.take_left' rfl]
  | @ended s s' p hnext =>
    refine ⟨[], 0, ?_, fun env' _ _ => rfl⟩
    rw [outstanding_ended hnext]

theorem exists_fetchNewEntries {newTxids : List Txid} {maxPerTick : ℕ} {t : Task} {fetched : FetchBatchResult × Task}
    (h : stream.Fetches cfg env newTxids maxPerTick t fetched) :
    ∃ (order : List Txid) (hperm : order.Perm (newTxids.take maxPerTick)) (ready : ℕ),
      fetchNewEntries cfg (env.reordered (newTxids.take maxPerTick) order hperm ready) newTxids maxPerTick t = fetched := by
  obtain ⟨hconsumes⟩ := h
  obtain ⟨order, ready, hperm, hloop⟩ := exists_order hconsumes
  refine ⟨order, hperm.trans (stream.start_outstanding _), ready, ?_⟩
  have hcompletion : (env.reordered (newTxids.take maxPerTick) order (hperm.trans (stream.start_outstanding _))
      ready).completion (newTxids.take maxPerTick) = order := if_pos rfl
  rw [fetchNewEntries, hcompletion, hloop _ (reordered_reordered env _ order _ ready) rfl]

/-! ### It ends -/

theorem exists_drains (s : stream.Stream) (p : FetchBatch × Task) : ∃ q, stream.Drains env s p q := by
  obtain ⟨r, s', hpoll⟩ := stream.exists_poll s
  by_cases h : ∃ x, r = some (some x)
  · obtain ⟨x, rfl⟩ := h
    have hlen := (stream.poll_ready hpoll).length_eq
    obtain ⟨q, hq⟩ := exists_drains s' (receive env p x)
    exact ⟨q, .item hpoll hq⟩
  · exact ⟨p, .stop hpoll (fun x heq => h ⟨x, heq⟩)⟩
termination_by (stream.outstanding s).length
decreasing_by
  rw [hlen]
  exact Nat.lt_succ_self _

/-- **The fetch ends**, where at least one request may be in flight. -/
theorem exists_consumes (hpos : 0 < concurrency) (s : stream.Stream) (p : FetchBatch × Task) :
    ∃ q, stream.Consumes cfg env s p q := by
  obtain ⟨r, s', hnext⟩ := exists_next hpos s
  match r, hnext with
  | none, hnext => exact ⟨p, .ended hnext⟩
  | some x, hnext =>
    have hlen := (outstanding_next hnext).length_eq
    rcases Nat.lt_or_ge cfg.tickBudget (env.elapsed x) with hlate | hin
    · obtain ⟨q, hq⟩ := exists_drains s' (receive env p x)
      exact ⟨q, .bail hnext hlate hq⟩
    · obtain ⟨q, hq⟩ := exists_consumes hpos s' (receive env p x)
      exact ⟨q, .item hnext hin hq⟩
termination_by (stream.outstanding s).length
decreasing_by
  rw [hlen]
  exact Nat.lt_succ_self _

end Fetch

theorem fetchConcurrency_pos (cli : Cli) : 0 < (Config.fromEnv cli).fetchConcurrency :=
  Nat.lt_of_lt_of_le Nat.zero_lt_one (Nat.le_max_right _ _)

/-! ## Ticks and runs -/

/-- The incremental path once its fetches ended. -/
def finishIncrement (cfg : SyncConfig) (env : TickEnv) (info : MempoolInfo) (nodeTxids : Finset Txid)
    (fetched : FetchBatchResult × Task) (t : Task) : Task :=
  let cacheLen := t.shared.txs.keys.card
  let diff := computeDiff env.diffOrder t.shared.txs.keys nodeTxids
  let (res, t) := fetched
  let t := t.emit (.reply (.tipHeight env.tip))
  let backlog := isBacklog diff.new.length maxNewFetchPerTick res.fetchErrors res.incomplete
  let t := t.emit (.summary (projectedMempoolSize cacheLen diff.gone.length res.fetched.length) backlog)
  let t := applyTick env info res.fetched backlog t
  if backlog then t else maybeRecomputeFees cfg env.recompute false t

/-- A steady tick with its fetches in flight. -/
inductive ConcurrentTick (stream : BufferUnordered concurrency) (cfg : SyncConfig) (env : TickEnv) (t : Task) :
    Task → Prop
  | increments {info : MempoolInfo} {txids : List Txid} {fetched : FetchBatchResult × Task} : env.info = .ok info →
      env.txids = .ok txids → decision env t info txids = none →
      stream.Fetches cfg env (newTxids env t txids.toFinset) maxNewFetchPerTick
        (removeGone (goneTxids env t txids.toFinset) (listed env t)) fetched →
      ConcurrentTick stream cfg env t (finishIncrement cfg env info txids.toFinset fetched (listed env t))
  | other : (∀ txids, ¬ Increments env t txids) → ConcurrentTick stream cfg env t (steadyTick cfg env t)

inductive ConcurrentRun (stream : BufferUnordered concurrency) (cfg : SyncConfig) : List TickEnv → Task → Task → Prop
  | nil (t : Task) : ConcurrentRun stream cfg [] t t
  | cons {env : TickEnv} {ticks : List TickEnv} {t t' t'' : Task} : ConcurrentTick stream cfg env t t' →
      ConcurrentRun stream cfg ticks t' t'' → ConcurrentRun stream cfg (env :: ticks) t t''

section Run

variable {stream : BufferUnordered concurrency} {cfg : SyncConfig} {env : TickEnv} {ticks : List TickEnv} {t t' : Task}

/-- **A tick with its fetches in flight is a tick of the loop.** -/
theorem ConcurrentTick.eq (h : ConcurrentTick stream cfg env t t') :
    ∃ env', Reordered env env' ∧ t' = steadyTick cfg env' t := by
  cases h with
  | other _ => exact ⟨env, Reordered.refl env, rfl⟩
  | @increments info txids fetched hi ht hd hfetches =>
    obtain ⟨order, hperm, ready, hfetch⟩ := exists_fetchNewEntries hfetches
    refine ⟨_, reordered_reordered env _ order hperm ready, ?_⟩
    have hinc : Increments (env.reordered _ order hperm ready) t txids := ⟨info, hi, ht, hd⟩
    obtain ⟨info', hi', heq⟩ := hinc.eq cfg
    have hinfo : info' = info := Except.ok.inj (hi'.symm.trans hi)
    rw [heq, hinfo, ← hfetch]
    rfl

theorem ConcurrentRun.eq (h : ConcurrentRun stream cfg ticks t t') :
    ∃ ticks', List.Forall₂ Reordered ticks ticks' ∧ t' = steadyRun cfg ticks' t := by
  induction h with
  | nil t => exact ⟨[], List.Forall₂.nil, rfl⟩
  | cons htick _ ih =>
    obtain ⟨env', henv, rfl⟩ := htick.eq
    obtain ⟨ticks', hticks, rfl⟩ := ih
    exact ⟨env' :: ticks', List.Forall₂.cons henv hticks, rfl⟩

theorem exists_concurrentTick (hpos : 0 < concurrency) (cfg : SyncConfig) (env : TickEnv) (t : Task) :
    ∃ t', ConcurrentTick stream cfg env t t' := by
  by_cases h : ∃ txids, Increments env t txids
  · obtain ⟨txids, info, hi, ht, hd⟩ := h
    obtain ⟨p, hp⟩ := @exists_consumes concurrency stream cfg env hpos
      (stream.start ((newTxids env t txids.toFinset).take maxNewFetchPerTick))
      (FetchBatch.empty, removeGone (goneTxids env t txids.toFinset) (listed env t))
    exact ⟨_, .increments hi ht hd (.intro hp)⟩
  · exact ⟨_, .other (fun txids hinc => h ⟨txids, hinc⟩)⟩

theorem exists_concurrentRun (hpos : 0 < concurrency) (cfg : SyncConfig) : ∀ (ticks : List TickEnv) (t : Task),
    ∃ t', ConcurrentRun stream cfg ticks t t'
  | [], t => ⟨t, .nil t⟩
  | env :: ticks, t => by
    obtain ⟨next, htick⟩ := @exists_concurrentTick concurrency stream hpos cfg env t
    obtain ⟨t', hrun⟩ := exists_concurrentRun hpos cfg ticks next
    exact ⟨t', .cons htick hrun⟩

end Run

/-- **A run with its fetches in flight is a run of the loop**: whatever the concurrency, in whatever order the results
come off the stream and wherever the budget cuts them off, it ends, and ends as the loop does for some order and
cut-off. -/
theorem concurrent_run (cli : Cli) (stream : BufferUnordered (Config.fromEnv cli).fetchConcurrency) (cfg : SyncConfig)
    (network : Network) (env : StartupEnv) (ticks : List TickEnv)
    (hs : (startup cfg env (Task.init network)).1 = true) :
    (∃ t', ConcurrentRun stream cfg ticks (startup cfg env (Task.init network)).2 t') ∧
      ∀ t', ConcurrentRun stream cfg ticks (startup cfg env (Task.init network)).2 t' →
        ∃ ticks', List.Forall₂ Reordered ticks ticks' ∧ t' = run cfg network env ticks' := by
  refine ⟨exists_concurrentRun (fetchConcurrency_pos cli) cfg ticks _, fun t' h => ?_⟩
  obtain ⟨ticks', hticks, rfl⟩ := h.eq
  exact ⟨ticks', hticks, by rw [run_of_startup, hs, if_pos rfl]⟩

theorem concurrent_run_pair :
    (∃ t', ConcurrentRun (buffered (Config.fromEnv {}).fetchConcurrency) idleConfig [pairEnv, pairEnv]
      (startup idleConfig idleStartup (Task.init .bitcoin)).2 t') ∧
      ∀ t', ConcurrentRun (buffered (Config.fromEnv {}).fetchConcurrency) idleConfig [pairEnv, pairEnv]
        (startup idleConfig idleStartup (Task.init .bitcoin)).2 t' →
        ∃ ticks', List.Forall₂ Reordered [pairEnv, pairEnv] ticks' ∧ t' = run idleConfig .bitcoin idleStartup ticks' :=
  concurrent_run {} (buffered _) idleConfig .bitcoin idleStartup [pairEnv, pairEnv] rfl

end Sync
end Satya
