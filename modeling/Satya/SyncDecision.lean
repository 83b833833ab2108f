import Mathlib.Algebra.Order.Group.Nat
import Mathlib.Tactic.Cases
/-!
# SyncDecision — the pure decisions of the sync loop (`sync/decision.rs`)

An instant is a count of nanoseconds of the monotonic clock.
-/
namespace Satya
namespace Sync

def massDropMinCacheSize : ℕ := 100

def massDropInverse : ℕ := 5

def resyncCooldown : ℕ := 60 * 10 ^ 9

def maxNewFetchPerTick : ℕ := 2000

def isMassDrop (cacheLen nodeTxidCount : ℕ) : Bool :=
  decide (massDropMinCacheSize ≤ cacheLen) && decide (nodeTxidCount * massDropInverse < cacheLen)

/-- Whether the last bulk resync is within the cooldown of `now`; `duration_since` saturates at zero. -/
def resyncCoolingDown (last : Option ℕ) (now : ℕ) : Bool := last.any (fun t => decide (now - t < resyncCooldown))

/-- The text an action carries, `node_not_loaded` or `mass_drop`. -/
inductive DesyncReason where
  | nodeNotLoaded
  | massDrop
deriving DecidableEq

inductive DesyncAction where
  | waitCooldown (reason : DesyncReason)
  | bulkResync (reason : DesyncReason)
deriving DecidableEq

def decideDesync (loaded : Bool) (cacheLen nodeTxidCount : ℕ) (coolingDown : Bool) : Option DesyncAction :=
  if loaded && !isMassDrop cacheLen nodeTxidCount then none
  else
    let reason : DesyncReason := if !loaded then .nodeNotLoaded else .massDrop
    some (if coolingDown then .waitCooldown reason else .bulkResync reason)

def isBacklog (newCount maxPerTick fetchErrors : ℕ) (incomplete : Bool) : Bool :=
  decide (maxPerTick < newCount) || decide (0 < fetchErrors) || incomplete

/-- The subtraction does not saturate in the source; `gone` never exceeds `cacheLen` there. -/
def projectedMempoolSize (cacheLen gone fetched : ℕ) : ℕ := cacheLen - gone + fetched

theorem isBacklog_eq_false_iff {newCount maxPerTick fetchErrors : ℕ} {incomplete : Bool} :
    isBacklog newCount maxPerTick fetchErrors incomplete = false ↔
      newCount ≤ maxPerTick ∧ fetchErrors = 0 ∧ incomplete = false := by
  simp [isBacklog, and_assoc]

theorem decideDesync_eq_none_iff {loaded : Bool} {cacheLen nodeTxidCount : ℕ} {coolingDown : Bool} :
    decideDesync loaded cacheLen nodeTxidCount coolingDown = none ↔
      loaded = true ∧ isMassDrop cacheLen nodeTxidCount = false := by
  unfold decideDesync
  cases loaded <;> cases isMassDrop cacheLen nodeTxidCount <;> simp

end Sync
end Satya
