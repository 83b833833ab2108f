import Mathlib.Data.Fintype.Card
import Mathlib.Data.Rat.Defs
import Mathlib.Algebra.Field.Rat
import Mathlib.Logic.Relation
/-!
# GbtInput — what the projector is handed (`gbt.rs`)

The input `Vec<GbtTx>` has dense uids and parent indices in range; both are carried by the type `Txs`, so an index of
the projector never panics.  Sats and weight units are naturals, rates are exact rationals (the code's `f64`).
-/
namespace Satya
namespace Gbt

/-- Consensus block weight limit (weight units). -/
def maxBlockWeight : ℕ := 4000000

/-- Weight held back for the coinbase / block overhead. -/
def blockReservedWeight : ℕ := 4000

/-- Number of projected blocks: all but the last are weight-limited. -/
def maxBlocks : ℕ := 8

/-- Consecutive non-fitting packages before a bounded block is declared full. -/
def failureLimit : ℕ := 1000

structure Limits where
  maxBlocks : ℕ
  maxBlockWeight : ℕ
  reserved : ℕ

def defaultLimits : Limits := ⟨maxBlocks, maxBlockWeight, blockReservedWeight⟩

structure GbtTx (n : ℕ) where
  uid : Fin n
  order : ℕ
  fee : ℕ
  weight : ℕ
  parents : List (Fin n)

/-- The projector's input: the transaction at index `i` has uid `i`. -/
structure Txs (n : ℕ) where
  tx : Fin n → GbtTx n
  dense : ∀ i, (tx i).uid = i

/-- sat/vB from sats and weight units. -/
def rate (fee weight : ℕ) : ℚ := if weight = 0 then 0 else 4 * (fee : ℚ) / (weight : ℚ)

variable {n : ℕ}

/-- `p` is a direct in-set parent of `c`. -/
def Txs.Parent (txs : Txs n) (c p : Fin n) : Prop := p ∈ (txs.tx c).parents

/-- `a` is a transitive in-set ancestor of `u`: one or more parent edges lead from `u` to `a`. -/
def Txs.Ancestor (txs : Txs n) : Fin n → Fin n → Prop := Relation.TransGen txs.Parent

def Txs.Acyclic (txs : Txs n) : Prop := ∀ u, ¬ txs.Ancestor u u

instance (txs : Txs n) (c p : Fin n) : Decidable (txs.Parent c p) :=
  inferInstanceAs (Decidable (p ∈ (txs.tx c).parents))

theorem Txs.Parent.ancestor {txs : Txs n} {c p : Fin n} (h : txs.Parent c p) : txs.Ancestor c p :=
  Relation.TransGen.single h

theorem Txs.Ancestor.trans {txs : Txs n} {u v w : Fin n} (h : txs.Ancestor u v) (h' : txs.Ancestor v w) :
    txs.Ancestor u w :=
  Relation.TransGen.trans h h'

theorem Txs.ancestor_iff {txs : Txs n} {u a : Fin n} :
    txs.Ancestor u a ↔ ∃ p, txs.Parent u p ∧ (a = p ∨ txs.Ancestor p a) := by
  unfold Txs.Ancestor
  rw [Relation.TransGen.head'_iff]
  simp only [Relation.reflTransGen_iff_eq_or_transGen]

theorem Txs.acyclic_of_rank {txs : Txs n} (r : Fin n → ℕ) (h : ∀ c p, txs.Parent c p → r p < r c) : txs.Acyclic := by
  have hlt : ∀ u a, txs.Ancestor u a → r a < r u := by
    intro u a hua
    induction hua with
    | single hp => exact h _ _ hp
    | tail _ hp ih => exact (h _ _ hp).trans ih
  exact fun u hu => lt_irrefl _ (hlt u u hu)

end Gbt
end Satya
