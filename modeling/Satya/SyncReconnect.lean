import Satya.RpcAuth
import Satya.SyncReload
/-!
# SyncReconnect — rotated credentials (`sync/mod.rs`, `reconnect_on_error`)

The loop reconnects after a failed call of the startup gate, of a bulk load or at the head of a tick, and then reads the
cookie again.  A run is its attempts, and the client changes only between them (`run_eq_attempts`); a node that restarts
and rotates its cookie does not wedge the loop (`refusals_bounded`).
-/
namespace Satya
namespace Sync

open Rpc (Auth Client resolveAuth)

/-! ## What reconnects -/

/-- The error a bulk resync ends with. -/
def bulkError (env : BulkEnv) : Option RpcError :=
  match env.verbose with
  | .error e => some e
  | .ok _ =>
    match env.info with
    | .error e => some e
    | .ok _ =>
      match env.tip with
      | .error e => some e
      | .ok _ => none

/-- The error that a tick hands to `reconnect_on_error`; those of the fetches and of `tip_height` are not handed on. -/
def tickError (env : TickEnv) (t : Task) : Option RpcError :=
  match env.info with
  | .error e => some e
  | .ok info =>
    match env.txids with
    | .error e => some e
    | .ok txids =>
      match decision env t info txids with
      | some (.bulkResync _) => bulkError env.bulk
      | _ => none

/-- The pieces of a run between which the client may change. -/
inductive Attempt where
  | info (r : Except RpcError MempoolInfo)
  | load (env : LoadEnv)
  | recompute (backdated : ℕ) (env : RecomputeEnv)
  | tick (env : TickEnv)

def Attempt.run (cfg : SyncConfig) : Attempt → Task → Task
  | .info r, t => t.emit (.reply (.mempoolInfo r))
  | .load env, t =>
    match bulkResync env.bulk t with
    | (some _, t) => applyBulkSuccess env.syncNow { t with lastBulkResync := env.stamp }
    | (none, t) => t
  | .recompute backdated env, t => maybeRecomputeFees cfg env true { t with lastFeeRecompute := backdated }
  | .tick env, t => steadyTick cfg env t

def Attempt.error (t : Task) : Attempt → Option RpcError
  | .info (.error e) => some e
  | .info (.ok _) => none
  | .load env => bulkError env.bulk
  | .recompute _ _ => none
  | .tick env => tickError env t

def reconnectOnError (client : Client) (e : RpcError) (readToString : String → Except String String) (built : Bool) :
    Client :=
  if e.isReconnectable then (client.reconnect readToString built).2 else client

/-! ## The run of startup and ticks as attempts -/

def infoAttempts : List (Except RpcError MempoolInfo) → List Attempt
  | [] => []
  | r :: rs => .info r :: if reportsLoaded r then [] else infoAttempts rs

def loadAttempts : List LoadEnv → List Attempt
  | [] => []
  | env :: envs => .load env :: if bulkError env.bulk = none then [] else loadAttempts envs

def StartupEnv.attempts (cfg : SyncConfig) (env : StartupEnv) (ticks : List TickEnv) : List Attempt :=
  infoAttempts env.infos ++ if env.infos.any reportsLoaded then
    loadAttempts env.loads ++ if env.loads.any (fun load => bulkError load.bulk = none) then
      .recompute (if cfg.feeRecomputeMinInterval ≤ env.now then env.now - cfg.feeRecomputeMinInterval else env.fallback)
        env.recompute :: ticks.map .tick
    else []
  else []

def runAttempts (cfg : SyncConfig) (attempts : List Attempt) (t : Task) : Task :=
  attempts.foldl (fun t a => a.run cfg t) t

variable {cfg : SyncConfig} {network : Network}

theorem runAttempts_append (as bs : List Attempt) (t : Task) :
    runAttempts cfg (as ++ bs) t = runAttempts cfg bs (runAttempts cfg as t) :=
  List.foldl_append

theorem runAttempts_ticks : ∀ (ticks : List TickEnv) (t : Task),
    runAttempts cfg (ticks.map .tick) t = steadyRun cfg ticks t
  | [], _ => rfl
  | tick :: ticks, t => runAttempts_ticks ticks (steadyTick cfg tick t)

theorem waitUntilMempoolLoaded_eq : ∀ (infos : List (Except RpcError MempoolInfo)) (t : Task),
    waitUntilMempoolLoaded infos t = (infos.any reportsLoaded, runAttempts cfg (infoAttempts infos) t)
  | [], _ => rfl
  | r :: rs, t => by
    have hrest := waitUntilMempoolLoaded_eq rs (t.emit (.reply (.mempoolInfo r)))
    unfold waitUntilMempoolLoaded infoAttempts
    rw [List.any_cons]
    cases hr : reportsLoaded r with
    | true => rfl
    | false => exact hrest

theorem bulkError_eq_none_iff {env : BulkEnv} :
    bulkError env = none ↔ ∃ entries info tip, env.verbose = .ok entries ∧ env.info = .ok info ∧ env.tip = .ok tip := by
  unfold bulkError
  cases env.verbose <;> cases env.info <;> cases env.tip <;> simp

theorem bulkError_eq_none_iff_isSome (env : BulkEnv) (t : Task) :
    bulkError env = none ↔ (bulkResync env t).1.isSome = true := by
  have hpath := bulkResync_path env t
  rw [bulkError_eq_none_iff]
  generalize bulkResync env t = p at hpath
  cases hpath with
  | verboseFailed e hv => simp [hv]
  | infoFailed entries e hv hi => simp [hi]
  | tipFailed entries info e hv hi ht => simp [ht]
  | loaded entries info tip hv hi ht => simp [hv, hi, ht]

theorem initialBulkLoad_eq : ∀ (loads : List LoadEnv) (t : Task), initialBulkLoad loads t =
    (loads.any (fun load => decide (bulkError load.bulk = none)), runAttempts cfg (loadAttempts loads) t)
  | [], _ => rfl
  | env :: loads, t => by
    have hsome := bulkError_eq_none_iff_isSome env.bulk t
    have hrun : runAttempts cfg (loadAttempts (env :: loads)) t =
        runAttempts cfg (if bulkError env.bulk = none then [] else loadAttempts loads)
          (match bulkResync env.bulk t with
            | (some _, t) => applyBulkSuccess env.syncNow { t with lastBulkResync := env.stamp }
            | (none, t) => t) := rfl
    rw [hrun, initialBulkLoad, List.any_cons]
    cases hres : bulkResync env.bulk t with
    | mk count t' =>
      rw [hres] at hsome
      cases count with
      | none =>
        have hne : ¬ bulkError env.bulk = none := fun h => by simpa using hsome.1 h
        rw [if_neg hne, decide_eq_false hne, Bool.false_or]
        exact initialBulkLoad_eq loads t'
      | some count =>
        have heq : bulkError env.bulk = none := hsome.2 rfl
        rw [if_pos heq, decide_eq_true heq, Bool.true_or]
        rfl

/-- **A run of the loop is its attempts**, one after another. -/
theorem run_eq_attempts (env : StartupEnv) (ticks : List TickEnv) :
    run cfg network env ticks = runAttempts cfg (env.attempts cfg ticks) (Task.init network) := by
  rw [run, startup, @waitUntilMempoolLoaded_eq cfg, StartupEnv.attempts, runAttempts_append]
  cases env.infos.any reportsLoaded with
  | false => rfl
  | true =>
    dsimp only
    rw [if_pos rfl, runAttempts_append, @initialBulkLoad_eq cfg]
    cases env.loads.any (fun load => decide (bulkError load.bulk = none)) with
    | false => rfl
    | true => exact (runAttempts_ticks ticks _).symm

/-! ## Sessions -/

def Reply.refused : Reply → Bool
  | .mempoolInfo (.error .auth) => true
  | .rawMempoolTxids (.error .auth) => true
  | .rawMempoolVerbose (.error .auth) => true
  | .mempoolEntry _ (.error .auth) => true
  | .tipHeight (.error .auth) => true
  | _ => false

/-- One attempt and what is around it: the credentials that the node accepts at each call, newest first as the replies
are, and those at its end, where the cookie is read and the HTTP client is built if the loop reconnects. -/
structure Moment where
  attempt : Attempt
  accepted : List Auth
  after : Auth
  readToString : String → Except String String
  built : Bool

structure Session where
  client : Client
  task : Task

def Session.step (cfg : SyncConfig) (s : Session) (m : Moment) : Session where
  client := match m.attempt.error s.task with
    | some e => reconnectOnError s.client e m.readToString m.built
    | none => s.client
  task := m.attempt.run cfg s.task

def Session.run (cfg : SyncConfig) (s : Session) (ms : List Moment) : Session := ms.foldl (Session.step cfg) s

def Session.received (cfg : SyncConfig) (s : Session) (m : Moment) : List Reply :=
  repliesSince s.task (m.attempt.run cfg s.task)

/-- The node refuses a call exactly when the client's credentials are not those that it accepts then. -/
def Guarded (cfg : SyncConfig) (s : Session) (m : Moment) : Prop :=
  List.Forall₂ (fun r a => r.refused = true ↔ s.client.auth ≠ a) (s.received cfg m) m.accepted

def GuardedRun (cfg : SyncConfig) : Session → List Moment → Prop
  | _, [] => True
  | s, m :: ms => Guarded cfg s m ∧ GuardedRun cfg (s.step cfg m) ms

/-- How many attempts had a call refused. -/
def refusedAttempts (cfg : SyncConfig) : Session → List Moment → ℕ
  | _, [] => 0
  | s, m :: ms => (if (s.received cfg m).any Reply.refused then 1 else 0) + refusedAttempts cfg (s.step cfg m) ms

/-- Whether the node accepted `a` throughout. -/
def Moment.steady (m : Moment) (a : Auth) : Bool := m.accepted.all (fun x => x = a) && decide (m.after = a)

/-- The attempts before or during which the node's credentials changed. -/
def rotations : Auth → List Moment → ℕ
  | _, [] => 0
  | a, m :: ms => (if m.steady a then 0 else 1) + rotations m.after ms

def Session.reconnects (s : Session) (m : Moment) : Bool := (m.attempt.error s.task).any RpcError.isReconnectable

/-- Whether a reconnect after the attempt gets at the credentials that the node accepts. -/
def Session.readable (s : Session) (m : Moment) : Bool :=
  decide (resolveAuth s.client.cfg m.readToString = .ok m.after) && m.built

def vainReconnects (cfg : SyncConfig) : Session → List Moment → ℕ
  | _, [] => 0
  | s, m :: ms => (if s.reconnects m && !s.readable m then 1 else 0) + vainReconnects cfg (s.step cfg m) ms

/-! ## The first call of an attempt -/

def Attempt.first : Attempt → Option Reply
  | .info r => some (.mempoolInfo r)
  | .load env => some (.rawMempoolVerbose env.bulk.verbose)
  | .recompute _ _ => none
  | .tick env => some (.mempoolInfo env.info)

theorem bulkResync_replies (env : BulkEnv) (t : Task) : (bulkResync env t).2.replies = bulkReplies env ++ t.replies := by
  have hpath := bulkResync_path env t
  unfold bulkReplies
  generalize bulkResync env t = p at hpath
  cases hpath with
  | verboseFailed e hv => rw [hv]; rfl
  | infoFailed entries e hv hi => rw [hv, hi]; rfl
  | tipFailed entries info e hv hi ht => rw [hv, hi]; rfl
  | loaded entries info tip hv hi ht => rw [hv, hi]; rfl

theorem verbose_mem_bulkReplies (env : BulkEnv) : Reply.rawMempoolVerbose env.verbose ∈ bulkReplies env := by
  unfold bulkReplies
  cases env.verbose with
  | error e => exact List.mem_singleton_self _
  | ok entries => cases env.info <;> simp

theorem steadyTick_received (env : TickEnv) (t : Task) :
    ∃ new, (steadyTick cfg env t).replies = new ++ t.replies ∧ Reply.mempoolInfo env.info ∈ new := by
  have hpath := steadyTick_path cfg env t
  have hlisted : (listed env t).replies = [.rawMempoolTxids env.txids, .mempoolInfo env.info] ++ t.replies := rfl
  generalize steadyTick cfg env t = t' at hpath
  cases hpath with
  | infoFailed e hi => exact ⟨[.mempoolInfo env.info], rfl, List.mem_singleton_self _⟩
  | txidsFailed info e hi ht => exact ⟨[.rawMempoolTxids env.txids, .mempoolInfo env.info], hlisted, by simp⟩
  | waits info txids reason hi ht hd =>
    exact ⟨[.rawMempoolTxids env.txids, .mempoolInfo env.info], hlisted, by simp⟩
  | resyncs info txids reason hi ht hd =>
    refine ⟨bulkReplies env.bulk ++ [.rawMempoolTxids env.txids, .mempoolInfo env.info], ?_, by simp⟩
    rw [List.append_assoc, ← hlisted]
    by_cases h : bulkError env.bulk = none
    · obtain ⟨entries, info, tip, hv, hi, ht⟩ := bulkError_eq_none_iff.1 h
      exact (resyncTick_loaded cfg hv hi ht).2.2.2
    · exact (resyncTick_failed cfg (fun h' => h (bulkError_eq_none_iff.2 h'))).2
  | increments info txids hi ht hd =>
    refine ⟨.tipHeight env.tip :: (received cfg env (listed env t) txids.toFinset).reverse.map
      (fun txid => Reply.mempoolEntry txid (env.entry txid)) ++ [.rawMempoolTxids env.txids, .mempoolInfo env.info], ?_,
      by simp⟩
    rw [incrementalTick_replies, List.append_assoc, ← hlisted]

/-- **An attempt receives the reply to its first call**, and nothing if it makes none. -/
theorem Attempt.run_replies (a : Attempt) (t : Task) : ∃ new, (a.run cfg t).replies = new ++ t.replies ∧
    (∀ r, a.first = some r → r ∈ new) ∧ (a.first = none → new = []) := by
  cases a with
  | info r => exact ⟨[.mempoolInfo r], rfl, by simp [Attempt.first], by simp [Attempt.first]⟩
  | load env =>
    have hreplies : ((Attempt.load env).run cfg t).replies = bulkReplies env.bulk ++ t.replies := by
      rw [← bulkResync_replies, Attempt.run]
      rcases bulkResync env.bulk t with ⟨_ | count, t'⟩ <;> rfl
    refine ⟨bulkReplies env.bulk, hreplies, ?_, by simp [Attempt.first]⟩
    rintro r hr
    cases hr
    exact verbose_mem_bulkReplies env.bulk
  | recompute backdated env => exact ⟨[], maybeRecomputeFees_replies env true _, by simp [Attempt.first], fun _ => rfl⟩
  | tick env =>
    obtain ⟨new, hreplies, hmem⟩ := steadyTick_received env t
    refine ⟨new, hreplies, ?_, by simp [Attempt.first]⟩
    rintro r hr
    cases hr
    exact hmem

/-- A refused first call ends the attempt, and its error reaches the reconnect. -/
theorem error_of_refused {a : Attempt} {r : Reply} (t : Task) (hfirst : a.first = some r) (hr : r.refused = true) :
    a.error t = some .auth := by
  cases a with
  | info x =>
    cases hfirst
    match x, hr with
    | .error .auth, _ => rfl
  | load env =>
    cases hfirst
    match hv : env.bulk.verbose, hr with
    | .error .auth, _ => simp [Attempt.error, bulkError, hv]
  | recompute backdated env => cases hfirst
  | tick env =>
    cases hfirst
    match hi : env.info, hr with
    | .error .auth, _ => simp [Attempt.error, tickError, hi]

/-! ## Recovery -/

theorem step_client_of_idle {s : Session} {m : Moment} (h : s.reconnects m = false) : (s.step cfg m).client = s.client := by
  unfold Session.reconnects at h
  unfold Session.step
  dsimp only
  cases herror : m.attempt.error s.task with
  | none => rfl
  | some e =>
    rw [herror, Option.any_some] at h
    show reconnectOnError s.client e m.readToString m.built = s.client
    rw [reconnectOnError, h, if_neg Bool.false_ne_true]

theorem step_auth_of_reconnects {s : Session} {m : Moment} (h : s.reconnects m = true) (hread : s.readable m = true) :
    (s.step cfg m).client.auth = m.after := by
  rw [Session.readable, Bool.and_eq_true, decide_eq_true_eq] at hread
  unfold Session.reconnects at h
  unfold Session.step
  dsimp only
  cases herror : m.attempt.error s.task with
  | none =>
    rw [herror] at h
    cases h
  | some e =>
    rw [herror, Option.any_some] at h
    show (reconnectOnError s.client e m.readToString m.built).auth = m.after
    rw [reconnectOnError, h, if_pos rfl, Client.reconnect, hread.1, hread.2]
    rfl

/-- Of two lists that go together, what holds of the whole of the second is met by all of the first. -/
theorem forall_of_forall₂ {α β : Type*} {R : α → β → Prop} {P : β → Prop} {Q : α → Prop}
    (hR : ∀ x y, R x y → P y → Q x) {l : List α} {l' : List β} (h : List.Forall₂ R l l') (hP : ∀ y ∈ l', P y) :
    ∀ x ∈ l, Q x := by
  induction h with
  | nil => exact fun x hx => absurd hx (List.not_mem_nil)
  | cons hxy _ ih =>
    intro x hx
    obtain rfl | hx := List.mem_cons.1 hx
    · exact hR _ _ hxy (hP _ List.mem_cons_self)
    · exact ih (fun y hy => hP y (List.mem_cons_of_mem _ hy)) x hx

/-- **What one attempt costs**: the debt is 1 while the client's credentials are not those that the node accepts. -/
theorem step_refused (s : Session) (m : Moment) (a : Auth) (hguard : Guarded cfg s m) :
    (if (s.received cfg m).any Reply.refused then 1 else 0) +
        (if (s.step cfg m).client.auth = m.after then 0 else 1) ≤
      (if s.client.auth = a then 0 else 1) + 2 * (if m.steady a then 0 else 1) +
        (if s.reconnects m && !s.readable m then 1 else 0) := by
  by_cases hsteady : m.steady a = true
  · rw [Moment.steady, Bool.and_eq_true, List.all_eq_true, decide_eq_true_eq] at hsteady
    obtain ⟨haccepted, hafter⟩ := hsteady
    have hrefused : ∀ r ∈ s.received cfg m, r.refused = true ↔ s.client.auth ≠ a :=
      forall_of_forall₂ (P := fun x => x = a) (fun r x h hx => hx ▸ h) hguard
        (fun x hx => of_decide_eq_true (haccepted x hx))
    by_cases hauth : s.client.auth = a
    · -- nothing is refused, and only a bad read can take the credentials away
      have hnone : (s.received cfg m).any Reply.refused = false := by
        rw [List.any_eq_false]
        exact fun r hr h => (hrefused r hr).1 h hauth
      rw [hnone]
      cases hrec : s.reconnects m with
      | false =>
        rw [step_client_of_idle hrec, if_pos (hauth.trans hafter.symm)]
        simp
      | true =>
        cases hread : s.readable m with
        | true =>
          rw [if_pos (step_auth_of_reconnects hrec hread)]
          simp
        | false =>
          simp only [Bool.not_false, Bool.and_self, if_true, Bool.false_eq_true, if_false]
          split_ifs <;> omega
    · obtain ⟨new, hnew, hmem, hempty⟩ := @Attempt.run_replies cfg m.attempt s.task
      have hreceived : s.received cfg m = new := repliesSince_of_append hnew
      rw [if_neg hauth]
      cases hfirst : m.attempt.first with
      | none =>
        rw [hreceived, hempty hfirst]
        simp only [List.any_nil, Bool.false_eq_true, if_false]
        split_ifs <;> omega
      | some r =>
        -- the first call is refused: it is the only one, and its error reaches the reconnect
        have hr : r.refused = true := (hrefused r (hreceived ▸ hmem r hfirst)).2 hauth
        have hrec : s.reconnects m = true := by
          rw [Session.reconnects, error_of_refused s.task hfirst hr]
          rfl
        cases hread : s.readable m with
        | true =>
          rw [if_pos (step_auth_of_reconnects hrec hread)]
          split_ifs <;> omega
        | false =>
          simp only [hrec, Bool.not_false, Bool.and_self, if_true]
          split_ifs <;> omega
  · rw [Bool.not_eq_true] at hsteady
    simp only [hsteady, Bool.false_eq_true, if_false]
    split_ifs <;> omega

theorem run_refused : ∀ (ms : List Moment) (s : Session) (a : Auth), GuardedRun cfg s ms →
    refusedAttempts cfg s ms ≤
      (if s.client.auth = a then 0 else 1) + 2 * rotations a ms + vainReconnects cfg s ms
  | [], _, _, _ => Nat.zero_le _
  | m :: ms, s, a, hguard => by
    have hstep := step_refused s m a hguard.1
    have hrest := run_refused ms (s.step cfg m) m.after hguard.2
    rw [refusedAttempts, rotations, vainReconnects]
    omega

theorem session_task : ∀ (ms : List Moment) (s : Session),
    (s.run cfg ms).task = runAttempts cfg (ms.map Moment.attempt) s.task
  | [], _ => rfl
  | m :: ms, s => session_task ms (s.step cfg m)

/-- **The loop does not wedge on refused credentials.**  In any run whose node refuses exactly the calls with credentials
that it does not accept at that moment, the attempts with a refused call are at most two for each change of the node's
credentials, and one for each reconnect that does not get at them. -/
theorem refusals_bounded (cfg : SyncConfig) (network : Network) (env : StartupEnv) (ticks : List TickEnv)
    (client : Client) (ms : List Moment) (hms : ms.map Moment.attempt = env.attempts cfg ticks)
    (hguard : GuardedRun cfg ⟨client, Task.init network⟩ ms) :
    (Session.run cfg ⟨client, Task.init network⟩ ms).task = run cfg network env ticks ∧
      refusedAttempts cfg ⟨client, Task.init network⟩ ms ≤
        2 * rotations client.auth ms + vainReconnects cfg ⟨client, Task.init network⟩ ms := by
  refine ⟨?_, ?_⟩
  · rw [session_task, hms, run_eq_attempts]
  · have h := run_refused ms ⟨client, Task.init network⟩ client.auth hguard
    rwa [if_pos rfl, Nat.zero_add] at h

/-- What the cookie of a restarted node says. -/
def restartedCookie : String → Except String String := fun _ => .ok "__cookie__:b7\n"

/-- A node that restarts after the cold load: the first tick is refused, the second is not. -/
def restartMoments : List Moment :=
  let old : Auth := .basic "__cookie__" "a1"
  let new : Auth := .basic "__cookie__" "b7"
  [⟨.info (.ok ⟨some true, 1000⟩), [old], old, restartedCookie, true⟩,
    ⟨.load ⟨⟨.ok [], .ok ⟨some true, 1000⟩, .ok 7⟩, 0, 5⟩, [old, old, old], old, restartedCookie, true⟩,
    ⟨.recompute 0 idleStartup.recompute, [], old, restartedCookie, true⟩,
    ⟨.tick { idleEnv with info := .error .auth }, [new], new, restartedCookie, true⟩,
    ⟨.tick idleEnv, [new, new, new], new, restartedCookie, true⟩]

theorem guardedRun_restart : GuardedRun idleConfig
    ⟨⟨some (.cookie ".cookie"), .basic "__cookie__" "a1"⟩, Task.init .bitcoin⟩ restartMoments := by
  refine ⟨?_, ?_, ?_, ?_, ?_, trivial⟩
  · exact .cons (by decide) .nil
  · exact .cons (by decide) (.cons (by decide) (.cons (by decide) .nil))
  · exact .nil
  · exact .cons (by decide) .nil
  · exact .cons (by decide) (.cons (by decide) (.cons (by decide) .nil))

theorem refusals_bounded_restart :
    (Session.run idleConfig ⟨⟨some (.cookie ".cookie"), .basic "__cookie__" "a1"⟩, Task.init .bitcoin⟩
        restartMoments).task =
      run idleConfig .bitcoin idleStartup [{ idleEnv with info := .error .auth }, idleEnv] ∧
    refusedAttempts idleConfig ⟨⟨some (.cookie ".cookie"), .basic "__cookie__" "a1"⟩, Task.init .bitcoin⟩
        restartMoments ≤
      2 * rotations (.basic "__cookie__" "a1") restartMoments +
        vainReconnects idleConfig ⟨⟨some (.cookie ".cookie"), .basic "__cookie__" "a1"⟩, Task.init .bitcoin⟩
          restartMoments :=
  refusals_bounded idleConfig .bitcoin idleStartup [{ idleEnv with info := .error .auth }, idleEnv]
    ⟨some (.cookie ".cookie"), .basic "__cookie__" "a1"⟩ restartMoments rfl guardedRun_restart

end Sync
end Satya
