import Mathlib.Data.Fin.Basic
import Mathlib.Algebra.NeZero
import Mathlib.Algebra.Order.Ring.Nat
/-!
# Rpc — the node's answers (`rpc.rs`)

The decoded replies the sync loop consumes.  Amounts are satoshis.  What a transport failure or a decode failure carries
is opaque to every caller and is left out.
-/
namespace Satya

/-- A transaction id: its 32 bytes, read as a big-endian number, so that the byte order is the numeric order. -/
abbrev Txid := Fin (2 ^ 256)

instance neZeroTxid : NeZero (2 ^ 256) := ⟨Nat.ne_of_gt (Nat.two_pow_pos 256)⟩

inductive Network where
  | bitcoin | testnet | testnet4 | signet | regtest
deriving DecidableEq

inductive RpcError where
  | http
  | auth
  | httpStatus (status : ℕ) (body : String)
  | rpc (code : ℤ) (message : String)
  | bodyTooLarge (limit : ℕ)
  | decode
deriving DecidableEq

def RpcError.isReconnectable : RpcError → Bool
  | .auth | .http | .httpStatus _ _ => true
  | _ => false

/-- `getmempoolinfo`, the fields used. -/
structure MempoolInfo where
  loaded : Option Bool
  mempoolminfee : ℕ
deriving DecidableEq

structure MempoolEntryFees where
  base : ℕ
  ancestor : ℕ
  descendant : ℕ
deriving DecidableEq

/-- One `getmempoolentry` / `getrawmempool true` entry, the fields used. -/
structure MempoolEntry where
  vsize : ℕ
  weight : Option ℕ
  depends : List Txid
  fees : MempoolEntryFees
  ancestorsize : ℕ
  descendantsize : ℕ
  time : Option ℕ
deriving DecidableEq

end Satya
