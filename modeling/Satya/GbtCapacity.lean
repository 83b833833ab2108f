import Satya.GbtNextBlock
/-!
# GbtCapacity — what a transaction is paid for, and how full a block is

A placed transaction keeps the rate of its package, and that is not less than what it scored when it was placed
(`placed_at_least_score`).  A weight-limited block keeps its limit unless it is one package forced into an empty block
(`blocks_within_capacity`); one that is closed because the heap is drained leaves out nothing that would have fitted
(`exhausted_block_maximal`).
-/
namespace Satya
namespace Gbt

open StateTransition (Reaches)

variable {n : ℕ} {audits : Fin n → Audit n} {lim : Limits} {ord : HashOrder n} {txs : Txs n} {s s' t : Packing n}

/-! ## Rates -/

/-- **A rate is never overwritten.** -/
theorem rate_kept (h : LoopHead ord txs lim s) (hrun : Reaches (packStep (auditsOf ord txs) lim) s t) {u : Fin n} {q : ℚ}
    (hq : s.effectiveRates u = some q) : t.effectiveRates u = some q := by
  induction hrun with
  | refl => exact hq
  | @tail a b ha hstep ih =>
    have hacc : a.Accounts (auditsOf ord txs) lim := accounts_loopHead (h.trans ha)
    have hu : a.used u = true := by
      rw [hacc.used_iff, ← hacc.rated_iff, ih]
      rfl
    exact (rates_step hstep hu).trans ih

theorem rate_final (h : LoopHead ord txs lim s) {u : Fin n} (hu : s.used u = true) :
    (projectWith ord txs lim).effectiveRates u = s.effectiveRates u := by
  have hacc := accounts_loopHead h
  obtain ⟨q, hq⟩ := Option.isSome_iff_exists.1 ((hacc.rated_iff u).2 ((hacc.used_iff u).1 hu))
  rw [projectWith_effectiveRates, hq]
  exact rate_kept h (reaches_packed h) hq

/-- What has a rate and no ancestor is paid its own rate, within the tolerance. -/
theorem pays_root (hac : txs.Acyclic) {x : Fin n} (hx : (auditsOf ord txs x).ancestors = [])
    (h : LoopHead ord txs lim s) (hu : s.used x = true) :
    s.Pays (rate (auditsOf ord txs x).fee (auditsOf ord txs x).weight - staleTolerance) x := by
  induction h with
  | refl => exact absurd hu Bool.false_ne_true
  | @tail a b ha hstep ih =>
    have ha' : LoopHead ord txs lim a := ha
    cases hau : a.used x with
    | true => exact pays_step (accounts_loopHead ha') hstep (ih hau)
    | false => exact pays_of_newly_used hac ha' hx hstep hau hu

theorem ancestors_of_root (hac : txs.Acyclic) {x : Fin n} (hx : ∀ p, ¬ txs.Parent x p) :
    (auditsOf ord txs x).ancestors = [] := by
  refine List.eq_nil_iff_forall_not_mem.2 (fun a ha => ?_)
  obtain ⟨p, hp, -⟩ := Txs.ancestor_iff.1 ((mem_ancestors_iff hac).1 ha)
  exact hx p hp

/-- **CPFP never lowers a transaction**: every member of an added package is paid, for good, at least what it scored
before the step, within the tolerance; what has no parents is paid at least its own rate. -/
theorem placed_at_least_score (ord : HashOrder n) (txs : Txs n) (lim : Limits) (hac : txs.Acyclic) :
    (∀ (s s' : Packing n) (leader : Fin n), LoopHead ord txs lim s → s.Adds (auditsOf ord txs) lim leader →
      packStep (auditsOf ord txs) lim s = some s' → ∀ m ∈ packageOf (auditsOf ord txs) s.used leader,
        ∃ q, s'.effectiveRates m = some q ∧ (projectWith ord txs lim).effectiveRates m = some q ∧
          scoreOf (auditsOf ord txs) s.used m - staleTolerance ≤ q) ∧
    (∀ u q, (∀ p, ¬ txs.Parent u p) → (projectWith ord txs lim).effectiveRates u = some q →
      rate (txs.tx u).fee (txs.tx u).weight - staleTolerance ≤ q) := by
  refine ⟨fun s s' leader h hadds hstep m hm => ?_, fun u q hroot hq => ?_⟩
  · obtain ⟨q, hq, hle⟩ := pays_of_adds hac h hadds hstep hm (Or.inl rfl)
    have h' : LoopHead ord txs lim s' := h.tail hstep
    have hu : s'.used m = true := by
      rw [(accounts_loopHead h').used_iff, placed_of_adds hadds hstep]
      exact List.mem_append_right _ hm
    exact ⟨q, hq, (rate_final h' hu).trans hq, hle⟩
  · rw [projectWith_effectiveRates] at hq
    have hfin := loopHead_packed ord txs lim
    have hu : (packed ord txs lim).used u = true := by
      rw [(accounts_loopHead hfin).used_iff, ← (accounts_loopHead hfin).rated_iff, hq]
      rfl
    obtain ⟨q', hq', hle⟩ := pays_root hac (ancestors_of_root hac hroot) hfin hu
    rw [hq, Option.some.injEq] at hq'
    rw [hq']
    exact hle

theorem placed_at_least_score_siblingTxs :
    ∃ s', packStep (auditsOf (.ascending 4) siblingTxs) tenLimits
        (Packing.start (auditsOf (.ascending 4) siblingTxs) tenLimits) = some s' ∧
      ∃ q, s'.effectiveRates 0 = some q ∧
        (projectWith (.ascending 4) siblingTxs tenLimits).effectiveRates 0 = some q ∧ 0 - staleTolerance ≤ q := by
  have hitems : (Packing.start (auditsOf (.ascending 4) siblingTxs) tenLimits).heap.items =
      [⟨40, 1, 1⟩, ⟨9, 3, 3⟩, ⟨8, 2, 2⟩, ⟨0, 0, 0⟩] := by decide +kernel
  obtain ⟨rest, hp, -⟩ := MaxHeap.pop_of_items hitems
  have hstale : ¬ (⟨40, 1, 1⟩ : HeapItem 4).stale (auditsOf (.ascending 4) siblingTxs) (fun _ => false) := by
    decide +kernel
  have hfits : ¬ (Packing.start (auditsOf (.ascending 4) siblingTxs) tenLimits).mustHold tenLimits
      (weightSum (auditsOf (.ascending 4) siblingTxs)
        (packageOf (auditsOf (.ascending 4) siblingTxs) (fun _ => false) 1)) := by decide +kernel
  have hstep := packStep_of_processed (Processed.take hp rfl hstale hfits)
  have h := (placed_at_least_score (.ascending 4) siblingTxs tenLimits (Txs.acyclic_of_rank Fin.val (by decide))).1
    _ _ 1 Relation.ReflTransGen.refl ⟨_, rest, hp, rfl, rfl, hstale, hfits⟩ hstep 0 (by decide +kernel)
  have hscore : scoreOf (auditsOf (.ascending 4) siblingTxs)
      (Packing.start (auditsOf (.ascending 4) siblingTxs) tenLimits).used 0 = 0 := by decide +kernel
  rw [hscore] at h
  exact ⟨_, hstep, h⟩

/-! ## Capacity -/

/-- `block` is one package that the loop forced into the empty block after the blocks `earlier`. -/
def Forced (ord : HashOrder n) (txs : Txs n) (lim : Limits) (earlier : List (List (Fin n))) (block : List (Fin n)) :
    Prop :=
  ∃ s u, LoopHead ord txs lim s ∧ s.blocks = earlier ∧ s.curBlock = [] ∧ s.Adds (auditsOf ord txs) lim u ∧
    block = packageOf (auditsOf ord txs) s.used u

def FitsOrForced (ord : HashOrder n) (txs : Txs n) (lim : Limits) (earlier : List (List (Fin n)))
    (block : List (Fin n)) : Prop :=
  lim.reserved + weightSum (auditsOf ord txs) block ≤ lim.maxBlockWeight ∨ Forced ord txs lim earlier block

/-- The closed blocks are weight-limited and hold something, and they and a weight-limited open block keep the limit or
were forced. -/
structure Packing.Within (ord : HashOrder n) (txs : Txs n) (lim : Limits) (s : Packing n) : Prop where
  length : s.blocks.length ≤ lim.maxBlocks - 1
  closed : ∀ i b, s.blocks[i]? = some b → b ≠ [] ∧ FitsOrForced ord txs lim (s.blocks.take i) b
  isOpen : s.bounded lim → s.curBlock ≠ [] → FitsOrForced ord txs lim s.blocks s.curBlock

theorem getElem?_concat {α : Type*} {l : List α} {x b : α} {i : ℕ} (h : (l ++ [x])[i]? = some b) :
    (l[i]? = some b ∧ (l ++ [x]).take i = l.take i) ∨ (i = l.length ∧ b = x ∧ (l ++ [x]).take i = l) := by
  rcases lt_trichotomy i l.length with hlt | rfl | hgt
  · rw [List.getElem?_append_left hlt] at h
    exact Or.inl ⟨h, List.take_append_of_le_length hlt.le⟩
  · rw [List.getElem?_append_right le_rfl, Nat.sub_self, List.getElem?_cons_zero, Option.some.injEq] at h
    exact Or.inr ⟨rfl, h.symm, List.take_left⟩
  · rw [List.getElem?_eq_none (by rw [List.length_append, List.length_singleton]; omega)] at h
    cases h

theorem within_close (h : s.Within ord txs lim) (hb : s.bounded lim) (hc : s.curBlock ≠ []) :
    (s.close (auditsOf ord txs) lim).Within ord txs lim where
  length := by
    have : s.blocks.length < lim.maxBlocks - 1 := hb
    simp only [Packing.close, List.length_append, List.length_singleton]
    omega
  closed i b hi := by
    simp only [Packing.close] at hi ⊢
    rcases getElem?_concat hi with ⟨hi, ht⟩ | ⟨rfl, rfl, ht⟩
    · rw [ht]
      exact h.closed i b hi
    · rw [ht]
      exact ⟨hc, h.isOpen hb hc⟩
  isOpen _ hne := absurd rfl hne

theorem within_finalize (h : s.Within ord txs lim) : (s.finalize (auditsOf ord txs) lim).Within ord txs lim := by
  rcases finalize_cases (auditsOf ord txs) lim s with ⟨hc, e⟩ | ⟨-, e⟩
  · rw [e]
    exact within_close h hc.1 hc.2.2
  · rwa [e]

/-- **A package is added to a block it fits, or to an empty one.** -/
theorem within_processed (hs : LoopHead ord txs lim s) (h : s.Within ord txs lim)
    (ht : Processed (auditsOf ord txs) lim s t) : t.Within ord txs lim := by
  cases ht with
  | hold hp hu hst hm => exact ⟨h.length, h.closed, h.isOpen⟩
  | @take item rest hp hu hst hm =>
    refine ⟨by simpa using h.length, fun i b hi => ?_, fun hb _ => ?_⟩
    · rw [take_blocks] at hi ⊢
      exact h.closed i b hi
    · rw [take_blocks, take_curBlock]
      have hb' : s.bounded lim := by simpa [Packing.bounded] using hb
      by_cases hc : s.curBlock = []
      · refine Or.inr ⟨s, item.uid, hs, rfl, hc, ⟨item, rest, hp, rfl, hu, hst, hm⟩, ?_⟩
        simp only [hc, List.nil_append]
      · refine Or.inl ?_
        have hfit := not_lt.1 (fun hlt => hm ⟨hb', hc, hlt⟩)
        rw [(accounts_loopHead hs).weight] at hfit
        rw [weightSum_append, ← add_assoc]
        exact hfit

theorem within_step (hs : LoopHead ord txs lim s) (h : s.Within ord txs lim)
    (hstep : packStep (auditsOf ord txs) lim s = some s') : s'.Within ord txs lim := by
  obtain ⟨item, rest, hp, ht⟩ := packStep_turn.1 hstep
  cases ht with
  | discard hu => exact ⟨h.length, h.closed, h.isOpen⟩
  | requeue hu hst => exact ⟨h.length, h.closed, h.isOpen⟩
  | hold hu hst hm => exact within_finalize (within_processed hs h (Processed.hold hp hu hst hm))
  | take hu hst hm => exact within_finalize (within_processed hs h (Processed.take hp hu hst hm))

theorem within_loopHead (h : LoopHead ord txs lim s) : s.Within ord txs lim := by
  induction h with
  | refl => exact ⟨Nat.zero_le _, (fun i b hi => by cases hi), fun _ hc => absurd rfl hc⟩
  | tail ha hstep ih => exact within_step ha ih hstep

/-- A forced block is one transaction after its ancestors that no earlier block holds. -/
theorem mem_package_of_forced (hac : txs.Acyclic) {earlier : List (List (Fin n))} {block : List (Fin n)}
    (h : Forced ord txs lim earlier block) : ∃ u pre, block = pre ++ [u] ∧ u ∉ earlier.flatten ∧ block.Nodup ∧
      ∀ a, a ∈ pre ↔ txs.Ancestor u a ∧ a ∉ earlier.flatten := by
  obtain ⟨s, u, hs, rfl, hc, ⟨item, rest, -, rfl, hu, -⟩, rfl⟩ := h
  have hplaced : ∀ a, s.used a = false ↔ a ∉ s.blocks.flatten := by
    intro a
    have := (accounts_loopHead hs).used_iff a
    rw [Packing.placed, hc, List.append_nil] at this
    rw [← this, Bool.not_eq_true]
  refine ⟨item.uid, _, rfl, (hplaced _).1 hu, packageOf_nodup (auditsOf_closed ord hac) _, fun a => ?_⟩
  rw [List.mem_insertionSort, List.mem_filter, mem_ancestors_iff hac, Bool.not_eq_true', hplaced]

/-- **Block capacity**: no block is empty, there are at most `max 1 maxBlocks`, and every weight-limited one keeps the
limit or is a single package that was forced into an empty block. -/
theorem blocks_within_capacity (ord : HashOrder n) (txs : Txs n) (lim : Limits) (hac : txs.Acyclic) :
    (∀ b ∈ (projectWith ord txs lim).blocks, b ≠ []) ∧
    (projectWith ord txs lim).blocks.length ≤ max 1 lim.maxBlocks ∧
    ∀ i b, i < lim.maxBlocks - 1 → (projectWith ord txs lim).blocks[i]? = some b →
      lim.reserved + (b.map (fun u => (txs.tx u).weight)).sum ≤ lim.maxBlockWeight ∨
        (Forced ord txs lim ((projectWith ord txs lim).blocks.take i) b ∧
          ∃ u pre, b = pre ++ [u] ∧ u ∉ ((projectWith ord txs lim).blocks.take i).flatten ∧ b.Nodup ∧
            ∀ a, a ∈ pre ↔ txs.Ancestor u a ∧ a ∉ ((projectWith ord txs lim).blocks.take i).flatten) := by
  have h := within_loopHead (loopHead_packed ord txs lim)
  have hforced : ∀ earlier b, FitsOrForced ord txs lim earlier b →
      lim.reserved + (b.map (fun u => (txs.tx u).weight)).sum ≤ lim.maxBlockWeight ∨
        (Forced ord txs lim earlier b ∧ ∃ u pre, b = pre ++ [u] ∧ u ∉ earlier.flatten ∧ b.Nodup ∧
          ∀ a, a ∈ pre ↔ txs.Ancestor u a ∧ a ∉ earlier.flatten) := fun earlier b hb =>
    hb.imp_right (fun hf => ⟨hf, mem_package_of_forced hac hf⟩)
  have hlen := h.length
  rw [projectWith_eq, Packing.result]
  by_cases hc : (packed ord txs lim).curBlock = []
  · simp only [if_pos hc]
    refine ⟨fun b hb => ?_, by omega, fun i b _ hi => hforced _ _ (h.closed i b hi).2⟩
    obtain ⟨i, hi⟩ := List.mem_iff_getElem?.1 hb
    exact (h.closed i b hi).1
  · simp only [if_neg hc]
    refine ⟨fun b hb => ?_, ?_, fun i b hlt hi => ?_⟩
    · rcases List.mem_append.1 hb with hb | hb
      · obtain ⟨i, hi⟩ := List.mem_iff_getElem?.1 hb
        exact (h.closed i b hi).1
      · rw [List.mem_singleton.1 hb]
        exact hc
    · rw [List.length_append, List.length_singleton]
      omega
    · rcases getElem?_concat hi with ⟨hi, ht⟩ | ⟨rfl, rfl, ht⟩
      · rw [ht]
        exact hforced _ _ (h.closed i b hi).2
      · rw [ht]
        exact hforced _ _ (h.isOpen hlt hc)

theorem blocks_within_capacity_siblingTxs :
    (projectWith (.ascending 4) siblingTxs tenLimits).blocks.length ≤ max 1 tenLimits.maxBlocks :=
  (blocks_within_capacity (.ascending 4) siblingTxs tenLimits (Txs.acyclic_of_rank Fin.val (by decide))).2.1

/-! ## Maximality -/

/-- Nothing unused would have fitted the open block: neither alone nor with its unused ancestors. -/
def Packing.Maximal (audits : Fin n → Audit n) (lim : Limits) (s : Packing n) : Prop :=
  s.blockWeight = lim.reserved + weightSum audits s.curBlock ∧
    ∀ u, s.used u = false → lim.maxBlockWeight < s.blockWeight + weightSum audits (packageOf audits s.used u)

/-- **A drained heap leaves only what does not fit**: everything unused is held back, and nothing held back was
refreshed since. -/
theorem maximal_of_drained (ha : s.Accounts audits lim) (hf : s.Fresh audits) (hp : s.Parked audits lim)
    (hd : s.heap.isEmpty = true) : s.Maximal audits lim := by
  refine ⟨ha.weight, fun u hu => ?_⟩
  have hnot : freshItem audits s.used u ∉ s.heap := MaxHeap.isEmpty_iff.1 hd _
  have hover : u ∈ s.overflow := (hf u hu).resolve_right hnot
  exact (hp u hover hu).resolve_right hnot

/-- **A block closed by exhaustion is maximal**, when an iteration closes it and when it is left open at the end. -/
theorem exhausted_block_maximal (ord : HashOrder n) (txs : Txs n) (lim : Limits) (hac : txs.Acyclic) :
    (∀ s t, LoopHead ord txs lim s → Processed (auditsOf ord txs) lim s t → t.mustClose lim →
      t.heap.isEmpty = true → t.failures ≤ failureLimit →
        packStep (auditsOf ord txs) lim s = some (t.close (auditsOf ord txs) lim) ∧
          t.Maximal (auditsOf ord txs) lim) ∧
    ((packed ord txs lim).bounded lim → (packed ord txs lim).curBlock ≠ [] →
      (packed ord txs lim).Maximal (auditsOf ord txs) lim) ∧
    ∀ (used : Fin n → Bool) (u m : Fin n), m ∈ packageOf (auditsOf ord txs) used u ↔
      m = u ∨ (txs.Ancestor u m ∧ used m = false) := by
  have hl := auditsOf_linked ord txs
  refine ⟨fun s t hs ht hc hd _ => ⟨?_, ?_⟩, fun _ _ => ?_, fun used u m => ?_⟩
  · rw [packStep_of_processed ht, Packing.finalize, if_pos hc]
  · exact maximal_of_drained (accounts_processed (accounts_loopHead hs) ht)
      (fresh_processed hl (fresh_loopHead hs) ht) (parked_processed hl (parked_loopHead hs) ht) hd
  · have hs := loopHead_packed ord txs lim
    exact maximal_of_drained (accounts_loopHead hs) (fresh_loopHead hs) (parked_loopHead hs) (packed_heap ord txs lim)
  · rw [mem_packageOf, mem_ancestors_iff hac, or_comm]

/-- Two transactions that do not fit one block of weight ten. -/
def pairTxs : Txs 2 where
  tx
    | 0 => ⟨0, 0, 30, 6, []⟩
    | 1 => ⟨1, 1, 20, 6, []⟩
  dense := by decide

theorem exhausted_block_maximal_pairTxs : ∃ s t : Packing 2, LoopHead (.ascending 2) pairTxs tenLimits s ∧
    packStep (auditsOf (.ascending 2) pairTxs) tenLimits s =
      some (t.close (auditsOf (.ascending 2) pairTxs) tenLimits) ∧
    t.used 1 = false ∧ t.Maximal (auditsOf (.ascending 2) pairTxs) tenLimits := by
  generalize hs : packIter (auditsOf (.ascending 2) pairTxs) tenLimits 1
    (Packing.start (auditsOf (.ascending 2) pairTxs) tenLimits) = s
  have hhead : LoopHead (.ascending 2) pairTxs tenLimits s := hs ▸ reaches_packIter 1 _
  have hitems : s.heap.items = [⟨40 / 3, 1, 1⟩] := by subst hs; decide +kernel
  have hused : s.used 1 = false := by subst hs; decide +kernel
  have hstale : ¬ (⟨40 / 3, 1, 1⟩ : HeapItem 2).stale (auditsOf (.ascending 2) pairTxs) s.used := by
    subst hs; decide +kernel
  have hhold : s.mustHold tenLimits (weightSum (auditsOf (.ascending 2) pairTxs)
      (packageOf (auditsOf (.ascending 2) pairTxs) s.used 1)) := by subst hs; decide +kernel
  have hfew : s.failures + 1 ≤ failureLimit := by subst hs; decide +kernel
  obtain ⟨rest, hp, hrest⟩ := MaxHeap.pop_of_items hitems
  have hdrained : rest.isEmpty = true := by rw [MaxHeap.isEmpty, hrest]; rfl
  have h := (exhausted_block_maximal (.ascending 2) pairTxs tenLimits (Txs.acyclic_of_rank Fin.val (by decide))).1
    s _ hhead (Processed.hold hp hused hstale hhold) ⟨hhold.1, Or.inr hdrained, hhold.2.1⟩ hdrained hfew
  exact ⟨s, _, hhead, h.1, hused, h.2⟩

end Gbt
end Satya
