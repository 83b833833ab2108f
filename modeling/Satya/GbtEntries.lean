import Mathlib.Algebra.BigOperators.Group.Finset.Basic
import Mathlib.Algebra.Order.BigOperators.Group.Finset
import Satya.GbtInvariant
/-!
# GbtEntries — how often a transaction waits

A transaction waits once for each entry of it on the heap and once for each time it is in the overflow queue.  It starts
with one entry and gains one only when a package with an ancestor of it is placed, so it waits at most once more than it
has placed ancestors (`counted_loopHead`).  One without parents and children waits until it is placed and never again
(`lone_loopHead`).
-/
namespace Satya
namespace Gbt

variable {n : ℕ} {audits : Fin n → Audit n} {lim : Limits} {used : Fin n → Bool}

/-! ## Entries -/

/-- The transactions that have an entry on the heap or are in the overflow queue, once for each time they are. -/
def Packing.waiting (s : Packing n) : List (Fin n) := s.heap.items.map HeapItem.uid ++ s.overflow

theorem pushAll_perm {α : Type} [LinearOrder α] : ∀ (xs : List α) (h : MaxHeap α),
    (h.pushAll xs).items.Perm (xs ++ h.items)
  | [], h => by rw [MaxHeap.pushAll_nil, List.nil_append]
  | x :: xs, h => by
    rw [MaxHeap.pushAll_cons]
    refine (pushAll_perm xs (h.push x)).trans (((h.push_perm x).append_left xs).trans ?_)
    exact List.perm_middle

theorem map_uid_freshItem (l : List (Fin n)) : (l.map (freshItem audits used)).map HeapItem.uid = l := by
  rw [List.map_map]
  exact List.map_id _

theorem waiting_start : (Packing.start audits lim).waiting.Perm (List.finRange n) := by
  have hperm := (pushAll_perm ((List.finRange n).map (freshItem audits (fun _ => false))) MaxHeap.empty).map HeapItem.uid
  rw [show (MaxHeap.empty : MaxHeap (HeapItem n)).items = [] from rfl, List.append_nil, map_uid_freshItem] at hperm
  rw [Packing.waiting, show (Packing.start audits lim).overflow = [] from rfl, List.append_nil]
  exact hperm

theorem waiting_pop {s : Packing n} {item : HeapItem n} {rest : MaxHeap (HeapItem n)}
    (hp : s.heap.pop = some (item, rest)) : s.waiting = item.uid :: ({ s with heap := rest } : Packing n).waiting := by
  rw [Packing.waiting, MaxHeap.pop_perm hp]
  rfl

theorem waiting_requeue (s : Packing n) (rest : MaxHeap (HeapItem n)) (u : Fin n) :
    ({ s with heap := rest.push (freshItem audits s.used u) } : Packing n).waiting.Perm
      (u :: ({ s with heap := rest } : Packing n).waiting) :=
  ((rest.push_perm _).map HeapItem.uid).append_right s.overflow

theorem waiting_hold (s : Packing n) (u : Fin n) : (s.hold u).waiting.Perm (u :: s.waiting) := by
  rw [Packing.waiting, Packing.hold, ← List.append_assoc]
  exact List.perm_append_singleton _ _

theorem waiting_finalize (s : Packing n) : (s.finalize audits lim).waiting.Perm s.waiting := by
  rcases finalize_cases audits lim s with ⟨-, e⟩ | ⟨-, e⟩
  · rw [e, Packing.waiting, Packing.close, List.append_nil, Packing.waiting]
    refine ((pushAll_perm _ _).map HeapItem.uid).trans ?_
    rw [List.map_append, map_uid_freshItem]
    exact List.perm_append_comm
  · rw [e]

/-- Placing a package adds one entry for each unused descendant. -/
theorem waiting_take (audits : Fin n → Audit n) (s : Packing n) (pkg : List (Fin n)) : ∃ ds : List (Fin n), ds.Nodup ∧
    (∀ d ∈ ds, (s.take audits pkg).used d = false ∧ ∃ m ∈ pkg, Relation.TransGen (Child audits) m d) ∧
    (s.take audits pkg).waiting.Perm (ds ++ s.waiting) := by
  have hpush : ∀ (vs : List (Fin n)) (heap : MaxHeap (HeapItem n)) (used : Fin n → Bool),
      (vs.foldl (fun heap d => if used d then heap else heap.push (freshItem audits used d)) heap).items.Perm
        ((vs.filter (fun d => !used d)).map (freshItem audits used) ++ heap.items) := by
    intro vs
    induction vs with
    | nil => exact fun heap used => List.Perm.refl _
    | cons d vs ih =>
      intro heap used
      rw [List.foldl_cons]
      refine (ih _ used).trans ?_
      cases hd : used d with
      | true => rw [if_pos rfl, List.filter_cons_of_neg (by simp [hd])]
      | false =>
        rw [if_neg Bool.false_ne_true, List.filter_cons_of_pos (by simp [hd]), List.map_cons, List.cons_append]
        exact ((heap.push_perm _).append_left _).trans List.perm_middle
  obtain ⟨vs, e, hnodup, hvs⟩ := walkFrom_eq_foldl (fun d => (audits d).children)
    (fun heap d => if (s.take audits pkg).used d then heap
      else heap.push (freshItem audits (s.take audits pkg).used d)) pkg s.heap
  refine ⟨vs.filter (fun d => !(s.take audits pkg).used d), hnodup.filter _, fun d hd => ?_, ?_⟩
  · rw [List.mem_filter] at hd
    exact ⟨by simpa using hd.2, (hvs d).1 hd.1⟩
  · have hitems : (s.take audits pkg).heap.items.Perm
        ((vs.filter (fun d => !(s.take audits pkg).used d)).map (freshItem audits (s.take audits pkg).used) ++
          s.heap.items) := by
      have hheap : (s.take audits pkg).heap = refreshDescendants audits (s.take audits pkg).used pkg s.heap := by
        rw [take_heap, take_used]
      rw [hheap, refreshDescendants, e]
      exact hpush vs s.heap _
    have huids := (hitems.map HeapItem.uid).append_right s.overflow
    rw [List.map_append, map_uid_freshItem, List.append_assoc] at huids
    rw [Packing.waiting, take_overflow]
    exact huids

/-- How many ancestors of `u` are placed. -/
def Packing.usedAncestors (audits : Fin n → Audit n) (s : Packing n) (u : Fin n) : ℕ := (audits u).ancestors.countP s.used

/-- Each transaction waits at most once more than it has placed ancestors. -/
def Packing.Counted (audits : Fin n → Audit n) (s : Packing n) : Prop :=
  ∀ u, s.waiting.count u ≤ 1 + s.usedAncestors audits u

theorem usedAncestors_take_le (audits : Fin n → Audit n) (s : Packing n) (pkg : List (Fin n)) (u : Fin n) :
    s.usedAncestors audits u ≤ (s.take audits pkg).usedAncestors audits u :=
  List.countP_mono_left (fun _ _ ha => take_used_iff.2 (Or.inl ha))

/-- **Placing an unused ancestor raises the count of the placed ones.** -/
theorem usedAncestors_take_lt {s : Packing n} {pkg : List (Fin n)} {u m : Fin n} (hm : m ∈ pkg) (hu : s.used m = false)
    (ha : m ∈ (audits u).ancestors) : s.usedAncestors audits u < (s.take audits pkg).usedAncestors audits u := by
  unfold Packing.usedAncestors
  rw [List.countP_eq_countP_filter_add _ (s.take audits pkg).used s.used]
  have hkept : ((audits u).ancestors.filter s.used).countP (s.take audits pkg).used =
      (audits u).ancestors.countP s.used := by
    rw [List.countP_eq_length.2 (fun a hmem => take_used_iff.2 (Or.inl (List.mem_filter.1 hmem).2)),
      List.countP_eq_length_filter]
  have hnew : 0 < ((audits u).ancestors.filter (fun a => !s.used a)).countP (s.take audits pkg).used := by
    rw [List.countP_pos_iff]
    exact ⟨m, List.mem_filter.2 ⟨ha, by simp [hu]⟩, take_used_iff.2 (Or.inr hm)⟩
  omega

theorem counted_of_perm {s t : Packing n} (h : s.Counted audits) (hperm : t.waiting.Perm s.waiting)
    (hused : t.used = s.used) : t.Counted audits := by
  intro u
  rw [hperm.count_eq, Packing.usedAncestors, hused]
  exact h u

section Projection

variable {ord : HashOrder n} {txs : Txs n}

theorem ancestor_of_child (hac : txs.Acyclic) {a u : Fin n} (h : Relation.TransGen (Child (auditsOf ord txs)) a u) :
    a ∈ (auditsOf ord txs u).ancestors := by
  have hswap : Relation.TransGen (Function.swap txs.Parent) a u :=
    Relation.TransGen.mono (fun x y hxy => mem_childrenOf.1 hxy) a u h
  exact (mem_ancestors_iff hac).2 (Relation.transGen_swap.1 hswap)

theorem counted_take (hac : txs.Acyclic) {s : Packing n} {item : HeapItem n} {rest : MaxHeap (HeapItem n)}
    (h : s.Counted (auditsOf ord txs)) (hp : s.heap.pop = some (item, rest)) (hu : s.used item.uid = false) :
    (Packing.take (auditsOf ord txs) { s with heap := rest }
      (packageOf (auditsOf ord txs) s.used item.uid)).Counted (auditsOf ord txs) := by
  intro u
  obtain ⟨ds, hnodup, hds, hperm⟩ := waiting_take (auditsOf ord txs) { s with heap := rest }
    (packageOf (auditsOf ord txs) s.used item.uid)
  have hcount := h u
  rw [waiting_pop hp, List.count_cons] at hcount
  have hsame : ({ s with heap := rest } : Packing n).usedAncestors (auditsOf ord txs) u =
      s.usedAncestors (auditsOf ord txs) u := rfl
  rw [hperm.count_eq, List.count_append]
  by_cases hmem : u ∈ ds
  · obtain ⟨-, m, hm, hchild⟩ := hds u hmem
    have hmu : s.used m = false := by
      rcases mem_packageOf.1 hm with ⟨-, hmu⟩ | rfl
      · exact hmu
      · exact hu
    have hlt := usedAncestors_take_lt (s := { s with heap := rest }) hm hmu (ancestor_of_child hac hchild)
    rw [List.count_eq_one_of_mem hnodup hmem]
    omega
  · have hle := usedAncestors_take_le (auditsOf ord txs) { s with heap := rest }
      (packageOf (auditsOf ord txs) s.used item.uid) u
    rw [List.count_eq_zero_of_not_mem hmem]
    omega

/-- **One iteration keeps the counts.** -/
theorem counted_step (hac : txs.Acyclic) {s s' : Packing n} (h : s.Counted (auditsOf ord txs))
    (hstep : packStep (auditsOf ord txs) lim s = some s') : s'.Counted (auditsOf ord txs) := by
  obtain ⟨item, rest, hp, ht⟩ := packStep_turn.1 hstep
  have hpop := waiting_pop hp
  cases ht with
  | discard _ =>
    intro u
    have hcount := h u
    rw [hpop, List.count_cons] at hcount
    exact (Nat.le_add_right _ _).trans hcount
  | requeue _ _ => exact counted_of_perm h (hpop ▸ waiting_requeue s rest item.uid) rfl
  | hold _ _ _ =>
    refine counted_of_perm h ((waiting_finalize _).trans ?_) (finalize_used _)
    rw [hpop]
    exact waiting_hold { s with heap := rest } item.uid
  | take hu _ _ => exact counted_of_perm (counted_take hac h hp hu) (waiting_finalize _) (finalize_used _)

theorem counted_start : (Packing.start (auditsOf ord txs) lim).Counted (auditsOf ord txs) := by
  intro u
  rw [waiting_start.count_eq, List.count_eq_one_of_mem (List.nodup_finRange n) (List.mem_finRange u)]
  exact Nat.le_add_right 1 _

theorem counted_loopHead (hac : txs.Acyclic) {s : Packing n} (h : LoopHead ord txs lim s) :
    s.Counted (auditsOf ord txs) :=
  reaches_keeps h counted_start (fun _ _ ha hs => counted_step hac ha hs)

/-- No in-set parents and no in-set children. -/
structure Lone (audits : Fin n → Audit n) (u : Fin n) : Prop where
  ancestors : (audits u).ancestors = []
  children : (audits u).children = []

theorem Lone.not_child {u d : Fin n} (h : Lone audits u) : ¬ Relation.TransGen (Child audits) u d := by
  intro hchild
  obtain ⟨c, hc, -⟩ := Relation.TransGen.head'_iff.1 hchild
  rw [Child, h.children] at hc
  exact List.not_mem_nil hc

/-- **A lone transaction that is placed has nothing left that waits.** -/
theorem lone_step (hac : txs.Acyclic) {u : Fin n} (hl : Lone (auditsOf ord txs) u) {s s' : Packing n}
    (hs : LoopHead ord txs lim s) (h : s.used u = true → u ∉ s.waiting)
    (hstep : packStep (auditsOf ord txs) lim s = some s') : s'.used u = true → u ∉ s'.waiting := by
  obtain ⟨item, rest, hp, ht⟩ := packStep_turn.1 hstep
  have hpop := waiting_pop hp
  rw [hpop, List.mem_cons, not_or] at h
  cases ht with
  | discard _ => exact fun hu => (h hu).2
  | requeue _ _ =>
    intro hu hmem
    rcases List.mem_cons.1 ((waiting_requeue s rest item.uid).mem_iff.1 hmem) with heq | hmem
    · exact (h hu).1 heq
    · exact (h hu).2 hmem
  | hold _ _ _ =>
    intro hu hmem
    rw [finalize_used] at hu
    rw [(waiting_finalize _).mem_iff, (waiting_hold { s with heap := rest } item.uid).mem_iff, List.mem_cons] at hmem
    exact hmem.elim (h hu).1 (h hu).2
  | take hi _ _ =>
    intro hu hmem
    obtain ⟨ds, -, hds, hperm⟩ := waiting_take (auditsOf ord txs) { s with heap := rest }
      (packageOf (auditsOf ord txs) s.used item.uid)
    rw [finalize_used] at hu
    rw [(waiting_finalize _).mem_iff, hperm.mem_iff, List.mem_append] at hmem
    have hds' : u ∉ ds := fun hd => by
      rw [(hds u hd).1] at hu
      cases hu
    rcases take_used_iff.1 hu with hused | hpkg
    · exact (h hused).2 (hmem.resolve_left hds')
    · -- only its own entry places it, and that was the only one
      have hself : u = item.uid := by
        rcases mem_packageOf.1 hpkg with ⟨hanc, -⟩ | rfl
        · exact absurd (auditsOf_linked ord txs item.uid u hanc) hl.not_child
        · rfl
      have hcount := counted_loopHead hac hs u
      rw [hpop, ← hself, List.count_cons_self, Packing.usedAncestors, hl.ancestors, List.countP_nil] at hcount
      exact List.count_eq_zero.1 (Nat.le_zero.1 (Nat.le_of_succ_le_succ hcount)) (hmem.resolve_left hds')

theorem lone_loopHead (hac : txs.Acyclic) {u : Fin n} (hl : Lone (auditsOf ord txs) u) {s : Packing n}
    (h : LoopHead ord txs lim s) : s.used u = true → u ∉ s.waiting := by
  induction h with
  | refl => exact fun hu => absurd hu Bool.false_ne_true
  | tail hreach hstep ih => exact lone_step hac hl hreach ih hstep

/-- **No popped entry is of a placed lone transaction.** -/
theorem unused_of_pop_lone (hac : txs.Acyclic) {s : Packing n} (h : LoopHead ord txs lim s) {item : HeapItem n}
    {rest : MaxHeap (HeapItem n)} (hp : s.heap.pop = some (item, rest)) (hl : Lone (auditsOf ord txs) item.uid) :
    s.used item.uid = false := by
  by_contra hu
  have hmem := lone_loopHead hac hl h (by simpa using hu)
  rw [waiting_pop hp] at hmem
  exact hmem List.mem_cons_self

end Projection

end Gbt
end Satya
