import Mathlib.Data.Prod.Lex
import Mathlib.Data.List.Sort
import Mathlib.Algebra.Order.Ring.Rat
import Mathlib.Algebra.Order.AbsoluteValue.Basic
import Satya.GbtAncestors
import Satya.MaxHeap
import Satya.Walk
/-!
# GbtProject — the packing loop (`score_of`, `refresh_descendants`, `project_with`)

The loop is `packStep`, one iteration of `while let Some(item) = heap.pop()`, on an explicit state `Packing` that holds
the loop's local variables.  `packLoop` iterates it; `packStep_decreases` is why that ends.
-/
namespace Satya
namespace Gbt

variable {n : ℕ}

structure Audit (n : ℕ) where
  order : ℕ
  fee : ℕ
  weight : ℕ
  ancestors : List (Fin n)
  children : List (Fin n)

/-- The reverse edges, pushed transaction by transaction. -/
def childrenOf (txs : Txs n) : Fin n → List (Fin n) :=
  (List.finRange n).foldl (fun children i =>
    (txs.tx i).parents.foldl (fun children p =>
      Function.update children p (children p ++ [(txs.tx i).uid])) children) (fun _ => [])

def auditsOf (ord : HashOrder n) (txs : Txs n) (i : Fin n) : Audit n where
  order := (txs.tx i).order
  fee := (txs.tx i).fee
  weight := (txs.tx i).weight
  ancestors := ancestorsOf ord txs i
  children := childrenOf txs i

/-- Current score: `min(own_rate, package_rate)` over the not-yet-used ancestors. -/
def scoreOf (audits : Fin n → Audit n) (used : Fin n → Bool) (uid : Fin n) : ℚ :=
  let a := audits uid
  let own := rate a.fee a.weight
  let sums := a.ancestors.foldl (fun (acc : ℕ × ℕ) an =>
    if used an then acc else (acc.1 + (audits an).fee, acc.2 + (audits an).weight)) (a.fee, a.weight)
  min own (rate sums.1 sums.2)

structure HeapItem (n : ℕ) where
  score : ℚ
  order : ℕ
  uid : Fin n
deriving DecidableEq

/-- `HeapItem::cmp`: higher score first, ties to the smaller `order`, then to the smaller `uid`. -/
def HeapItem.cmp (a b : HeapItem n) : Ordering :=
  (compare a.score b.score).then ((compare b.order a.order).then (compare b.uid a.uid))

/-- The key whose lexicographic order is `cmp`. -/
def HeapItem.key (a : HeapItem n) : ℚ ×ₗ (ℕᵒᵈ ×ₗ (Fin n)ᵒᵈ) :=
  toLex (a.score, toLex (OrderDual.toDual a.order, OrderDual.toDual a.uid))

theorem HeapItem.key_injective : Function.Injective (HeapItem.key (n := n)) := by
  rintro ⟨s, o, u⟩ ⟨s', o', u'⟩ h
  simp only [HeapItem.key, EmbeddingLike.apply_eq_iff_eq, Prod.mk.injEq] at h
  obtain ⟨rfl, rfl, rfl⟩ := h
  rfl

instance : LinearOrder (HeapItem n) := LinearOrder.lift' HeapItem.key HeapItem.key_injective

theorem HeapItem.le_iff {a b : HeapItem n} : a ≤ b ↔ a.score < b.score ∨ (a.score = b.score ∧
    (b.order < a.order ∨ (a.order = b.order ∧ b.uid ≤ a.uid))) := by
  show a.key ≤ b.key ↔ _
  simp only [HeapItem.key, Prod.Lex.toLex_le_toLex, OrderDual.toDual_lt_toDual, OrderDual.toDual_le_toDual,
    EmbeddingLike.apply_eq_iff_eq]

/-- **The order of the heap is the source's comparison.** -/
theorem HeapItem.cmp_ne_gt_iff {a b : HeapItem n} : a.cmp b ≠ .gt ↔ a ≤ b := by
  rw [HeapItem.le_iff, HeapItem.cmp]
  rcases lt_trichotomy a.score b.score with h | h | h
  · simp [compare_lt_iff_lt.2 h, h]
  · rcases lt_trichotomy b.order a.order with ho | ho | ho
    · simp [h, compare_lt_iff_lt.2 ho, ho]
    · rw [h, ho]
      simp [compare_le_iff_le]
    · simp [h, compare_gt_iff_gt.2 ho, ho.not_gt, ho.ne]
  · simp [compare_gt_iff_gt.2 h, h.not_gt, h.ne']

theorem HeapItem.score_le {a b : HeapItem n} (h : a ≤ b) : a.score ≤ b.score := by
  rcases HeapItem.le_iff.1 h with h | h
  · exact h.le
  · exact h.1.le

/-- The entry pushed for `uid`: its score from the `used` flags of the moment. -/
def freshItem (audits : Fin n → Audit n) (used : Fin n → Bool) (uid : Fin n) : HeapItem n :=
  ⟨scoreOf audits used uid, (audits uid).order, uid⟩

/-- Re-push refreshed scores for the whole descendant closure of `pkg`. -/
def refreshDescendants (audits : Fin n → Audit n) (used : Fin n → Bool) (pkg : List (Fin n))
    (heap : MaxHeap (HeapItem n)) : MaxHeap (HeapItem n) :=
  walkFrom (fun d => (audits d).children)
    (fun heap d => if used d then heap else heap.push (freshItem audits used d)) pkg heap

/-- The comparison that orders a package: ancestor count, then `order`, then `uid`. -/
def pkgLe (audits : Fin n → Audit n) (a b : Fin n) : Prop :=
  (audits a).ancestors.length < (audits b).ancestors.length ∨
    ((audits a).ancestors.length = (audits b).ancestors.length ∧
      ((audits a).order < (audits b).order ∨ ((audits a).order = (audits b).order ∧ a ≤ b)))

instance (audits : Fin n → Audit n) : DecidableRel (pkgLe audits) := fun a b => by
  unfold pkgLe; infer_instance

/-- The package of `uid`: its not-yet-used ancestors, roots first, then `uid`. -/
def packageOf (audits : Fin n → Audit n) (used : Fin n → Bool) (uid : Fin n) : List (Fin n) :=
  ((audits uid).ancestors.filter (fun a => !used a)).insertionSort (pkgLe audits) ++ [uid]

def weightSum (audits : Fin n → Audit n) (l : List (Fin n)) : ℕ := (l.map (fun m => (audits m).weight)).sum

def feeSum (audits : Fin n → Audit n) (l : List (Fin n)) : ℕ := (l.map (fun m => (audits m).fee)).sum

/-- The local variables of the pop loop. -/
structure Packing (n : ℕ) where
  used : Fin n → Bool
  heap : MaxHeap (HeapItem n)
  blocks : List (List (Fin n))
  effectiveRates : Fin n → Option ℚ
  curBlock : List (Fin n)
  blockWeight : ℕ
  overflow : List (Fin n)
  failures : ℕ

def Packing.start (audits : Fin n → Audit n) (lim : Limits) : Packing n where
  used _ := false
  heap := MaxHeap.empty.pushAll ((List.finRange n).map (freshItem audits (fun _ => false)))
  blocks := []
  effectiveRates _ := none
  curBlock := []
  blockWeight := lim.reserved
  overflow := []
  failures := 0

def Packing.bounded (lim : Limits) (s : Packing n) : Prop := s.blocks.length < lim.maxBlocks - 1

instance (lim : Limits) (s : Packing n) : Decidable (s.bounded lim) :=
  inferInstanceAs (Decidable (_ < _))

/-- A package of weight `w` is held back: it does not fit the partial block.  The `u64` sum saturates in the source; past
`u64` it exceeds any `u32` limit, as the exact sum does. -/
def Packing.mustHold (lim : Limits) (s : Packing n) (w : ℕ) : Prop :=
  s.bounded lim ∧ s.curBlock ≠ [] ∧ lim.maxBlockWeight < s.blockWeight + w

instance (lim : Limits) (s : Packing n) (w : ℕ) : Decidable (s.mustHold lim w) :=
  inferInstanceAs (Decidable (_ ∧ _ ∧ _))

def Packing.hold (s : Packing n) (uid : Fin n) : Packing n :=
  { s with overflow := s.overflow ++ [uid], failures := s.failures + 1 }

/-- The `for &m in &pkg` loop that places a package at its cluster rate. -/
def Packing.place (audits : Fin n → Audit n) (r : ℚ) (s : Packing n) (pkg : List (Fin n)) : Packing n :=
  pkg.foldl (fun s m =>
    { s with
      used := Function.update s.used m true
      curBlock := s.curBlock ++ [m]
      blockWeight := s.blockWeight + (audits m).weight
      effectiveRates := Function.update s.effectiveRates m (some r) }) s

/-- Place the package and refresh its descendants. -/
def Packing.take (audits : Fin n → Audit n) (s : Packing n) (pkg : List (Fin n)) : Packing n :=
  let s := s.place audits (rate (feeSum audits pkg) (weightSum audits pkg)) pkg
  { s with heap := refreshDescendants audits s.used pkg s.heap, failures := 0 }

/-- Close the open block and requeue the overflow. -/
def Packing.close (audits : Fin n → Audit n) (lim : Limits) (s : Packing n) : Packing n :=
  { s with
    blocks := s.blocks ++ [s.curBlock]
    curBlock := []
    blockWeight := lim.reserved
    failures := 0
    heap := s.heap.pushAll (s.overflow.map (freshItem audits s.used))
    overflow := [] }

def Packing.mustClose (lim : Limits) (s : Packing n) : Prop :=
  s.bounded lim ∧ (failureLimit < s.failures ∨ s.heap.isEmpty = true) ∧ s.curBlock ≠ []

instance (lim : Limits) (s : Packing n) : Decidable (s.mustClose lim) :=
  inferInstanceAs (Decidable (_ ∧ _ ∧ _))

/-- Finalize the current bounded block when it is effectively full or the heap is drained. -/
def Packing.finalize (audits : Fin n → Audit n) (lim : Limits) (s : Packing n) : Packing n :=
  if s.mustClose lim then s.close audits lim else s

/-- How far a popped score may be from the current one without being stale. -/
def staleTolerance : ℚ := 1 / 1000000000

/-- The popped entry no longer carries its transaction's score. -/
def HeapItem.stale (audits : Fin n → Audit n) (used : Fin n → Bool) (item : HeapItem n) : Prop :=
  staleTolerance < |scoreOf audits used item.uid - item.score|

instance (audits : Fin n → Audit n) (used : Fin n → Bool) (item : HeapItem n) : Decidable (item.stale audits used) :=
  inferInstanceAs (Decidable (_ < _))

/-- One iteration of the pop loop; `none` once the heap is drained. -/
def packStep (audits : Fin n → Audit n) (lim : Limits) (s : Packing n) : Option (Packing n) :=
  match s.heap.pop with
  | none => none
  | some (item, heap) =>
    let s := { s with heap := heap }
    if s.used item.uid then some s
    else if item.stale audits s.used then
      some { s with heap := s.heap.push (freshItem audits s.used item.uid) }
    else
      let pkg := packageOf audits s.used item.uid
      let s := if s.mustHold lim (weightSum audits pkg) then s.hold item.uid else s.take audits pkg
      some (s.finalize audits lim)

end Gbt
end Satya
