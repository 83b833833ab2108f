import Satya.Mempool
/-!
# Http — what the readers are answered (`http.rs`)

Both handlers read the shared state once, under the read lock.
-/
namespace Satya
namespace Http

open Fees (FeeEstimate)

structure Health where
  caughtUp : Bool
  mempoolSize : ℕ
  tipHeight : ℕ
  mempoolMinFeeSatVb : ℚ
  network : Network
  lastSyncOk : Option ℕ
  ageSecs : Option ℕ

/-- `later.duration_since(earlier).ok()`, in whole seconds. -/
def secsSince (later earlier : ℤ) : Option ℕ :=
  if earlier ≤ later then some ((later - earlier).toNat / 10 ^ 9) else none

def health (now : ℤ) (s : MempoolState) : Health where
  caughtUp := s.caughtUp
  mempoolSize := s.txs.keys.card
  tipHeight := s.tipHeight
  mempoolMinFeeSatVb := s.mempoolMinFeeSatVb
  network := s.network
  lastSyncOk := s.lastSyncOk.bind (fun t => secsSince t 0)
  ageSecs := s.lastSyncOk.bind (fun t => secsSince now t)

/-- `GET /fees`: the cached estimate, or `none` for a 503. -/
def fees (s : MempoolState) : Option FeeEstimate :=
  match s.feeEstimate with
  | some est => if s.caughtUp then some est else none
  | none => none

theorem fees_eq_some {s : MempoolState} {est : FeeEstimate} :
    fees s = some est ↔ s.feeEstimate = some est ∧ s.caughtUp = true := by
  unfold fees
  cases s.feeEstimate <;> cases s.caughtUp <;> simp

theorem fees_of_not_caughtUp {s : MempoolState} (h : s.caughtUp = false) : fees s = none := by
  unfold fees
  rw [h]
  cases s.feeEstimate <;> rfl

end Http
end Satya
