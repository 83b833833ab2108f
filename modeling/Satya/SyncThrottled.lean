import Satya.SimNetwork
import Satya.SyncDiff
/-!
# SyncThrottled — the sync loop behind a budget

A tick costs a call for every new transaction and two that it cannot do without, so what one budget a second lets
through bounds what a tick can catch up with (`throttled_tick`).
-/
namespace Satya
namespace Sim

open Sync (Reply TickEnv Task SyncConfig Increments steadyTick repliesSince received fetchedEntry listed)

/-- A call as it comes to the gate, with the reply the loop received of it; a call cancelled in flight has none. -/
abbrev Issued := Arrival × Option Reply

/-- A call that the gate refuses is answered with an error. -/
def Throttled (profile : NetworkProfile) : Limiter → List Issued → Prop
  | _, [] => True
  | limiter, (c, reply) :: issued =>
    (passes (gate profile c limiter).1 = false → ∀ r, reply = some r → r.failed) ∧
      Throttled profile (gate profile c limiter).2 issued

def succeeded : Reply → Bool
  | .mempoolInfo r => r.isOk
  | .rawMempoolTxids r => r.isOk
  | .rawMempoolVerbose r => r.isOk
  | .mempoolEntry _ r => r.isOk
  | .tipHeight r => r.isOk

theorem succeeded_eq_false {r : Reply} (h : r.failed) : succeeded r = false := by
  cases r <;> obtain ⟨e, rfl⟩ := h <;> rfl

variable {profile : NetworkProfile} {limit : ℕ} {cfg : SyncConfig} {env : TickEnv} {t : Task}

/-- **What succeeded has passed the gate.** -/
theorem countP_succeeded_le : ∀ (issued : List Issued) (limiter : Limiter), Throttled profile limiter issued →
    (issued.filterMap Prod.snd).countP succeeded ≤ (passedTimes profile limiter (issued.map Prod.fst)).length
  | [], _, _ => Nat.zero_le _
  | (c, reply) :: issued, limiter, ⟨hrefused, hrest⟩ => by
    have ih := countP_succeeded_le issued _ hrest
    have hcons : passedTimes profile limiter (((c, reply) :: issued).map Prod.fst) =
        if passes (gate profile c limiter).1 then
          c.now :: passedTimes profile (gate profile c limiter).2 (issued.map Prod.fst)
        else passedTimes profile (gate profile c limiter).2 (issued.map Prod.fst) := rfl
    rw [hcons]
    cases reply with
    | none =>
      rw [List.filterMap_cons_none rfl]
      split
      · exact ih.trans (Nat.le_succ _)
      · exact ih
    | some r =>
      have hreply : ((c, some r) :: issued).filterMap Prod.snd = r :: issued.filterMap Prod.snd := rfl
      rw [hreply, List.countP_cons]
      by_cases hpass : passes (gate profile c limiter).1 = true
      · rw [if_pos hpass, List.length_cons]
        split <;> omega
      · rw [if_neg hpass, succeeded_eq_false (hrefused (by simpa using hpass) r rfl)]
        exact ih

/-- **Within `k` seconds at most `k + 1` budgets of calls succeed.** -/
theorem succeeded_le_budget (hlimit : profile.reqPerSec = some limit) {limiter : Limiter} {issued : List Issued}
    (h : Throttled profile limiter issued) (hclock : (issued.map (fun c => c.1.now)).Pairwise (· ≤ ·)) {a k : ℕ}
    (hwithin : ∀ c ∈ issued, a ≤ c.1.now ∧ c.1.now < a + k * second) :
    (issued.filterMap Prod.snd).countP succeeded ≤ (k + 1) * limit := by
  have htimes : (keptTimes profile (issued.map Prod.fst)).Sublist (issued.map (fun c => c.1.now)) := by
    have hsub := keptTimes_sublist profile (issued.map Prod.fst)
    rwa [List.map_map] at hsub
  have hall : (limiter.admitted second limit (keptTimes profile (issued.map Prod.fst))).filter
      (fun s => decide (a ≤ s ∧ s < a + k * second)) =
      limiter.admitted second limit (keptTimes profile (issued.map Prod.fst)) := by
    refine List.filter_eq_self.2 (fun s hs => ?_)
    obtain ⟨c, hc, rfl⟩ := List.mem_map.1 (htimes.subset ((FixedWindow.admitted_sublist _ _).subset hs))
    exact decide_eq_true (hwithin c hc)
  have hbudget := @FixedWindow.length_admitted_le second limit (by decide) a k _ limiter
    (hclock.sublist htimes)
  rw [hall, ← passedTimes_eq hlimit] at hbudget
  exact (countP_succeeded_le issued limiter h).trans hbudget

/-! ## One tick -/

theorem length_fetched_le (env : TickEnv) : ∀ l : List Txid, (l.filterMap (fetchedEntry env)).length ≤
    (l.map (fun x => Reply.mempoolEntry x (env.entry x))).countP succeeded
  | [] => Nat.zero_le _
  | x :: l => by
    have ih := length_fetched_le env l
    rw [List.map_cons, List.countP_cons]
    unfold fetchedEntry at ih ⊢
    cases hx : env.entry x with
    | error e =>
      rw [List.filterMap_cons_none (by rw [hx])]
      exact ih.trans (Nat.le_add_right _ _)
    | ok o =>
      have hok : succeeded (Reply.mempoolEntry x (.ok o)) = true := rfl
      rw [if_pos hok]
      cases o with
      | none =>
        rw [List.filterMap_cons_none (by rw [hx])]
        exact ih.trans (Nat.le_add_right _ _)
      | some e =>
        rw [List.filterMap_cons_some (by rw [hx]), List.length_cons]
        exact Nat.succ_le_succ ih

/-- The two calls every incremental tick needs, and its fetches. -/
theorem succeeded_increment {txids : List Txid} (h : Increments env t txids) :
    ((received cfg env t txids.toFinset).map (fun x => Reply.mempoolEntry x (env.entry x))).countP succeeded + 2 ≤
      (repliesSince t (steadyTick cfg env t)).countP succeeded := by
  obtain ⟨info, hinfo, htxids, -⟩ := id h
  obtain ⟨info', hinfo', heq⟩ := h.eq cfg
  have hlast : [Reply.rawMempoolTxids env.txids, .mempoolInfo env.info].countP succeeded = 2 := by
    rw [htxids, hinfo]
    rfl
  rw [heq, Sync.repliesSince_increment, List.countP_append, hlast, List.countP_cons, List.map_reverse, List.countP_reverse]
  split <;> omega

theorem missing_of_increment {txids : List Txid} (h : Increments env t txids) :
    (txids.toFinset \ t.shared.txs.keys).card ≤ (txids.toFinset \ (steadyTick cfg env t).shared.txs.keys).card +
      ((received cfg env t txids.toFinset).filterMap (fetchedEntry env)).length := by
  obtain ⟨info, -, heq⟩ := h.eq cfg
  have hsub : txids.toFinset \ t.shared.txs.keys ⊆ (txids.toFinset \ (steadyTick cfg env t).shared.txs.keys) ∪
      (((received cfg env t txids.toFinset).filterMap (fetchedEntry env)).map Prod.fst).toFinset := by
    intro x hx
    obtain ⟨hl, hnew⟩ := Finset.mem_sdiff.1 hx
    by_cases hk : x ∈ (steadyTick cfg env t).shared.txs.keys
    · rw [heq, (Sync.incrementalTick_shared cfg env info txids.toFinset (listed env t)).1, Sync.mem_keys_tickTxs] at hk
      rcases hk with ⟨hk, -⟩ | ⟨hr, entry, he⟩
      · exact absurd hk hnew
      · refine Finset.mem_union_right _ (List.mem_toFinset.2 (List.mem_map.2 ⟨(x, MempoolTx.ofEntry entry), ?_, rfl⟩))
        exact Sync.mem_fetched.2 ⟨hr, entry, he, rfl⟩
    · exact Finset.mem_union_left _ (Finset.mem_sdiff.2 ⟨hl, hk⟩)
  refine (Finset.card_le_card hsub).trans ((Finset.card_union_le _ _).trans (Nat.add_le_add_left ?_ _))
  exact (List.toFinset_card_le _).trans (List.length_map _).le

/-- Without a backlog every new transaction was asked for, and no answer was an error. -/
theorem succeeded_of_caughtUp {txids : List Txid} (h : Increments env t txids)
    (hup : (steadyTick cfg env t).shared.caughtUp = true) :
    ((received cfg env t txids.toFinset).map (fun x => Reply.mempoolEntry x (env.entry x))).countP succeeded =
      (txids.toFinset \ t.shared.txs.keys).card := by
  obtain ⟨info, -, heq⟩ := h.eq cfg
  rw [heq, (Sync.incrementalTick_shared cfg env info txids.toFinset (listed env t)).2.1, Bool.not_eq_true'] at hup
  have hmem := fun x => Sync.mem_received_of_not_backlog hup (x := x)
  have hok := (Sync.tickBacklog_eq_false_iff.1 hup).2.1
  have hperm : (received cfg env t txids.toFinset).Perm (Sync.newTxids env t txids.toFinset) :=
    (List.perm_ext_iff_of_nodup (Sync.nodup_received cfg env t _) (Sync.nodup_newTxids env t _)).2 hmem
  rw [List.countP_eq_length.2, List.length_map, hperm.length_eq, Sync.length_newTxids]
  intro r hr
  obtain ⟨x, hx, rfl⟩ := List.mem_map.1 hr
  cases he : env.entry x with
  | error e => exact absurd he (hok x ((hmem x).1 hx) e)
  | ok o => rfl

/-- **What a throttled tick can catch up with**: of an incremental tick whose calls come within `k` seconds, the new
transactions less the budget of `k + 1` seconds, bar the two calls every tick needs, are still missing when it ends, and
when it ends caught up there were no more than these. -/
theorem throttled_tick (cfg : SyncConfig) (env : TickEnv) (t : Task) (txids : List Txid) (h : Increments env t txids)
    (profile : NetworkProfile) (limit : ℕ) (hlimit : profile.reqPerSec = some limit) (limiter : Limiter)
    (issued : List Issued) (hissued : Throttled profile limiter issued)
    (hreplies : (issued.filterMap Prod.snd).Perm (repliesSince t (steadyTick cfg env t)))
    (hclock : (issued.map (fun c => c.1.now)).Pairwise (· ≤ ·)) (a k : ℕ)
    (hwithin : ∀ c ∈ issued, a ≤ c.1.now ∧ c.1.now < a + k * second) :
    (txids.toFinset \ t.shared.txs.keys).card + 2 ≤
      (txids.toFinset \ (steadyTick cfg env t).shared.txs.keys).card + (k + 1) * limit ∧
    ((steadyTick cfg env t).shared.caughtUp = true →
      (txids.toFinset \ t.shared.txs.keys).card + 2 ≤ (k + 1) * limit) := by
  have hbudget := succeeded_le_budget hlimit hissued hclock hwithin
  have hreceived := @succeeded_increment cfg _ _ _ h
  rw [hreplies.countP_eq] at hbudget
  refine ⟨?_, fun hup => ?_⟩
  · have hmissing := @missing_of_increment cfg _ _ _ h
    have hfetched := length_fetched_le env (received cfg env t txids.toFinset)
    omega
  · rw [succeeded_of_caughtUp h hup] at hreceived
    exact hreceived.trans hbudget

/-- Two new transactions, and a tip height that the gate refuses. -/
def refusedTipEnv : TickEnv := { Sync.pairEnv with tip := .error (.httpStatus 429 "") }

/-- Two calls within each of two seconds, and one too many. -/
def refusedTipIssued : List Issued :=
  [(⟨5, 0⟩, some (.mempoolInfo refusedTipEnv.info)), (⟨5, 0⟩, some (.rawMempoolTxids refusedTipEnv.txids)),
    (⟨second + 5, 0⟩, some (.mempoolEntry 10 (refusedTipEnv.entry 10))),
    (⟨second + 5, 0⟩, some (.mempoolEntry 11 (refusedTipEnv.entry 11))),
    (⟨second + 6, 0⟩, some (.tipHeight refusedTipEnv.tip))]

theorem throttled_tick_refusedTipEnv :
    (([10, 11] : List Txid).toFinset \ (Task.init .bitcoin).shared.txs.keys).card + 2 ≤
      (([10, 11] : List Txid).toFinset \
        (steadyTick Sync.idleConfig refusedTipEnv (Task.init .bitcoin)).shared.txs.keys).card + (2 + 1) * 2 ∧
    ((steadyTick Sync.idleConfig refusedTipEnv (Task.init .bitcoin)).shared.caughtUp = true →
      (([10, 11] : List Txid).toFinset \ (Task.init .bitcoin).shared.txs.keys).card + 2 ≤ (2 + 1) * 2) := by
  have hinc : Increments refusedTipEnv (Task.init .bitcoin) [10, 11] := ⟨⟨some true, 1000⟩, rfl, rfl, by decide⟩
  have hreceived : received Sync.idleConfig refusedTipEnv (Task.init .bitcoin) ([10, 11] : List Txid).toFinset =
      [10, 11] := by
    decide +kernel
  have hreplies : (refusedTipIssued.filterMap Prod.snd).Perm
      (repliesSince (Task.init .bitcoin) (steadyTick Sync.idleConfig refusedTipEnv (Task.init .bitcoin))) := by
    obtain ⟨info, -, heq⟩ := hinc.eq Sync.idleConfig
    rw [heq, Sync.repliesSince_increment, hreceived]
    exact (List.reverse_perm _).symm
  have hthrottled : Throttled twoPerSecond (Limiter.new 5) refusedTipIssued := by
    refine ⟨fun hpass => absurd hpass (by decide), fun hpass => absurd hpass (by decide), fun hpass => absurd hpass (by decide),
      fun hpass => absurd hpass (by decide), fun _ r hr => ?_, trivial⟩
    exact Option.some.inj hr ▸ ⟨_, rfl⟩
  exact throttled_tick Sync.idleConfig refusedTipEnv (Task.init .bitcoin) [10, 11] hinc twoPerSecond 2 rfl (Limiter.new 5)
    refusedTipIssued hthrottled hreplies (by decide) 0 2 (by decide)

end Sim
end Satya
