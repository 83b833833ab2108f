import Mathlib.Algebra.Order.BigOperators.Group.List
import Mathlib.Tactic.Linarith
import Satya.GbtBlocks
/-!
# GbtGreedy — the lazily refreshed heap selects greedily

The popped entry is a greatest one, and it is processed only within `staleTolerance` of its transaction's current
score; the transactions whose current score some entry carries are therefore not better by more than that.
-/
namespace Satya
namespace Gbt

open StateTransition (Reaches)

variable {n : ℕ} {audits : Fin n → Audit n} {lim : Limits}

/-- The next iteration adds the package of `leader` to the open block. -/
def Packing.Adds (audits : Fin n → Audit n) (lim : Limits) (s : Packing n) (leader : Fin n) : Prop :=
  ∃ item rest, s.heap.pop = some (item, rest) ∧ item.uid = leader ∧ s.used leader = false ∧
    ¬ item.stale audits s.used ∧ ¬ s.mustHold lim (weightSum audits (packageOf audits s.used leader))

/-- Some heap entry of `u` carries its exact current score. -/
def Packing.HasExactEntry (audits : Fin n → Audit n) (s : Packing n) (u : Fin n) : Prop :=
  ∃ item ∈ s.heap, item.uid = u ∧ item.score = scoreOf audits s.used u

theorem exists_step_of_adds {s : Packing n} {leader : Fin n} (h : s.Adds audits lim leader) : ∃ s', packStep audits lim s = some s' := by
  obtain ⟨item, rest, hp, rfl, hu, hst, hm⟩ := h
  exact ⟨_, packStep_of_processed (Processed.take hp hu hst hm)⟩

/-- **An iteration that adds a package appends it to what is placed.** -/
theorem placed_of_adds {s s' : Packing n} {leader : Fin n} (h : s.Adds audits lim leader)
    (hstep : packStep audits lim s = some s') : s'.placed = s.placed ++ packageOf audits s.used leader := by
  obtain ⟨item, rest, hp, rfl, hu, hst, hm⟩ := h
  have hturn : packStep audits lim s =
      some ((Packing.take audits { s with heap := rest } (packageOf audits s.used item.uid)).finalize audits lim) :=
    packStep_turn.2 ⟨item, rest, hp, Turn.take hu hst hm⟩
  rw [hturn, Option.some.injEq] at hstep
  rw [← hstep, placed_finalize, placed_take]
  rfl

/-- **Every other iteration places nothing.** -/
theorem placed_of_not_adds {s s' : Packing n} (h : ∀ leader, ¬ s.Adds audits lim leader)
    (hstep : packStep audits lim s = some s') : s'.placed = s.placed := by
  obtain ⟨item, rest, hp, ht⟩ := packStep_turn.1 hstep
  cases ht with
  | discard hu => rfl
  | requeue hu hst => rfl
  | hold hu hst hm => rw [placed_finalize]; rfl
  | take hu hst hm => exact absurd ⟨item, rest, hp, rfl, hu, hst, hm⟩ (h item.uid)

theorem hasExactEntry_of_fresh {s : Packing n} {u : Fin n} (h : freshItem audits s.used u ∈ s.heap) :
    s.HasExactEntry audits u := ⟨_, h, rfl, rfl⟩

theorem scoreOf_le_of_pop {s : Packing n} {item : HeapItem n} {rest : MaxHeap (HeapItem n)} {u : Fin n}
    (hp : s.heap.pop = some (item, rest)) (hu : s.HasExactEntry audits u) : scoreOf audits s.used u ≤ item.score := by
  obtain ⟨e, he, -, hs⟩ := hu
  rw [← hs]
  exact HeapItem.score_le (MaxHeap.le_of_pop hp he)

/-- A processed entry is within the tolerance of the current score. -/
theorem score_le_of_not_stale {used : Fin n → Bool} {item : HeapItem n} (h : ¬ item.stale audits used) :
    item.score - staleTolerance ≤ scoreOf audits used item.uid := by
  have := (abs_le.1 (not_lt.1 h)).1
  linarith

/-- **The lazily refreshed heap selects greedily**: at every loop head an unused transaction is in the overflow queue or
has an entry with its exact current score, and the leader of an added package is within the tolerance of every unused
transaction that is not in the queue or has such an entry. -/
theorem greedy_selection (ord : HashOrder n) (txs : Txs n) (lim : Limits) (s : Packing n)
    (h : LoopHead ord txs lim s) :
    (∀ u, s.used u = false → u ∈ s.overflow ∨ s.HasExactEntry (auditsOf ord txs) u) ∧
    (∀ leader, s.Adds (auditsOf ord txs) lim leader → ∀ u, s.used u = false →
      (u ∉ s.overflow ∨ s.HasExactEntry (auditsOf ord txs) u) →
      scoreOf (auditsOf ord txs) s.used u - staleTolerance ≤ scoreOf (auditsOf ord txs) s.used leader) := by
  have hexact : ∀ u, s.used u = false → u ∈ s.overflow ∨ s.HasExactEntry (auditsOf ord txs) u := fun u hu =>
    (fresh_loopHead h u hu).imp_right hasExactEntry_of_fresh
  refine ⟨hexact, ?_⟩
  rintro leader ⟨item, rest, hp, rfl, -, hst, -⟩ u hu hor
  have hentry : s.HasExactEntry (auditsOf ord txs) u := by
    rcases hor with ho | he
    · exact (hexact u hu).resolve_left ho
    · exact he
  have h1 := scoreOf_le_of_pop hp hentry
  have h2 := score_le_of_not_stale hst
  linarith

/-- **A member's own package lies within the package it is placed in.** -/
theorem packageOf_subset (hc : Closed audits) {used : Fin n → Bool} {u m : Fin n} (hm : m ∈ packageOf audits used u) :
    packageOf audits used m ⊆ packageOf audits used u := by
  intro a ha
  rcases mem_packageOf.1 ha with ⟨ham, hau⟩ | rfl
  · rcases mem_packageOf.1 hm with ⟨hmu, -⟩ | rfl
    · exact mem_packageOf.2 (Or.inl ⟨hc.trans hmu ham, hau⟩)
    · exact ha
  · exact hm

theorem weightSum_le_of_subset (audits : Fin n → Audit n) {l l' : List (Fin n)} (hnd : l.Nodup) (hsub : l ⊆ l') :
    weightSum audits l ≤ weightSum audits l' := by
  obtain ⟨m, hm, hml⟩ := hnd.subperm hsub
  rw [← weightSum_perm hm]
  exact (hml.map _).sum_le_sum (fun _ _ => Nat.zero_le _)

theorem mem_packageOf_unused {used : Fin n → Bool} {u m : Fin n} (hu : used u = false)
    (hm : m ∈ packageOf audits used u) : used m = false := by
  rcases mem_packageOf.1 hm with ⟨-, h⟩ | rfl
  · exact h
  · exact hu

/-- **Every member of a package about to be added has an exact entry on the heap**: what the overflow queue holds without
one does not fit, and neither would a package around it. -/
theorem hasExactEntry_of_adds {ord : HashOrder n} {txs : Txs n} (hac : txs.Acyclic) {s : Packing n}
    (h : LoopHead ord txs lim s) {leader : Fin n} (hadds : s.Adds (auditsOf ord txs) lim leader) {m : Fin n}
    (hm : m ∈ packageOf (auditsOf ord txs) s.used leader) : freshItem (auditsOf ord txs) s.used m ∈ s.heap := by
  obtain ⟨item, rest, -, -, hu, -, hfit⟩ := hadds
  have hmu : s.used m = false := mem_packageOf_unused hu hm
  rcases fresh_loopHead h m hmu with ho | he
  · rcases parked_loopHead h m ho hmu with hbig | he
    · obtain ⟨hb, hcur⟩ := tidy_loopHead h (List.ne_nil_of_mem ho)
      have hle := weightSum_le_of_subset (auditsOf ord txs) (packageOf_nodup (auditsOf_closed ord hac) m)
        (packageOf_subset (auditsOf_closed ord hac) hm)
      exact absurd ⟨hb, hcur, by omega⟩ hfit
    · exact he
  · exact he

/-- **A package pays at least what any transaction with an exact entry scores**, within the tolerance. -/
theorem score_le_clusterRate {ord : HashOrder n} {txs : Txs n} {s : Packing n} {leader : Fin n}
    (hadds : s.Adds (auditsOf ord txs) lim leader) {m : Fin n} (hexact : s.HasExactEntry (auditsOf ord txs) m) :
    scoreOf (auditsOf ord txs) s.used m - staleTolerance ≤
      clusterRate (auditsOf ord txs) (packageOf (auditsOf ord txs) s.used leader) := by
  obtain ⟨item, rest, hp, rfl, -, hst, -⟩ := hadds
  have h1 := scoreOf_le_of_pop hp hexact
  have h2 := score_le_of_not_stale hst
  have h3 := scoreOf_le_packageRate (auditsOf ord txs) s.used item.uid
  unfold clusterRate
  linarith

/-- A parent without fee, its rich child, a second child that becomes too heavy for the block, and a lone one. -/
def siblingTxs : Txs 4 where
  tx
    | 0 => ⟨0, 0, 0, 2, []⟩
    | 1 => ⟨1, 1, 30, 1, [0]⟩
    | 2 => ⟨2, 2, 20, 8, [0]⟩
    | 3 => ⟨3, 3, 9, 4, []⟩
  dense := by decide

/-- Two blocks, the first one of weight ten. -/
def tenLimits : Limits := ⟨2, 10, 0⟩

theorem greedy_selection_siblingTxs :
    scoreOf (auditsOf (.ascending 4) siblingTxs) (fun _ => false) 2 - staleTolerance ≤
      scoreOf (auditsOf (.ascending 4) siblingTxs) (fun _ => false) 1 := by
  have hitems : (Packing.start (auditsOf (.ascending 4) siblingTxs) tenLimits).heap.items =
      [⟨40, 1, 1⟩, ⟨9, 3, 3⟩, ⟨8, 2, 2⟩, ⟨0, 0, 0⟩] := by decide +kernel
  obtain ⟨rest, hp, -⟩ := MaxHeap.pop_of_items hitems
  exact (greedy_selection (.ascending 4) siblingTxs tenLimits _ Relation.ReflTransGen.refl).2 1
    ⟨_, rest, hp, rfl, rfl, by decide +kernel, by decide +kernel⟩ 2 rfl (Or.inl (by decide +kernel))

/-- **A held transaction with a stale entry left on the heap is passed over**: when uid 3 is added, uid 2 has a higher
current score and a heap entry, and is in the overflow queue. -/
theorem siblingTxs_passes_over : ∃ s, LoopHead (.ascending 4) siblingTxs tenLimits s ∧
    s.Adds (auditsOf (.ascending 4) siblingTxs) tenLimits 3 ∧ s.used 2 = false ∧ (∃ item ∈ s.heap, item.uid = 2) ∧
    scoreOf (auditsOf (.ascending 4) siblingTxs) s.used 3 <
      scoreOf (auditsOf (.ascending 4) siblingTxs) s.used 2 - staleTolerance := by
  refine ⟨packIter (auditsOf (.ascending 4) siblingTxs) tenLimits 2
    (Packing.start (auditsOf (.ascending 4) siblingTxs) tenLimits), reaches_packIter 2 _, ?_, ?_, ?_, ?_⟩
  · have hitems : (packIter (auditsOf (.ascending 4) siblingTxs) tenLimits 2
        (Packing.start (auditsOf (.ascending 4) siblingTxs) tenLimits)).heap.items =
        [⟨9, 3, 3⟩, ⟨8, 2, 2⟩, ⟨0, 0, 0⟩] := by decide +kernel
    obtain ⟨rest, hp, -⟩ := MaxHeap.pop_of_items hitems
    exact ⟨_, rest, hp, rfl, by decide +kernel, by decide +kernel, by decide +kernel⟩
  · decide +kernel
  · exact ⟨⟨8, 2, 2⟩, by rw [← MaxHeap.mem_items]; decide +kernel, rfl⟩
  · decide +kernel

end Gbt
end Satya
