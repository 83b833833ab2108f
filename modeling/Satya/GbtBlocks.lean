import Satya.GbtInvariant
/-!
# GbtBlocks — the projected blocks: valid, ordered, and what they miss

On an acyclic input the concatenated blocks repeat nothing and list every transaction after its ancestors
(`blocks_valid`).  They miss a transaction only when the loop drains its heap on an entry of a used transaction while the
overflow queue holds something (`leavesBehind_iff`): that iteration skips the finalisation that requeues it.
-/
namespace Satya
namespace Gbt

open StateTransition (Reaches)

variable {n : ℕ} {audits : Fin n → Audit n} {lim : Limits}

/-! ## Order inside a package -/

theorem Closed.length_lt (hc : Closed audits) {u a : Fin n} (h : a ∈ (audits u).ancestors) :
    (audits a).ancestors.length < (audits u).ancestors.length := by
  have hnd : (a :: (audits a).ancestors).Nodup := List.nodup_cons.2 ⟨hc.irrefl a, hc.nodup a⟩
  have hsub : a :: (audits a).ancestors ⊆ (audits u).ancestors := by
    intro b hb
    rcases List.mem_cons.1 hb with rfl | hb
    · exact h
    · exact hc.trans h hb
  have := (hnd.subperm hsub).length_le
  rwa [List.length_cons] at this

instance (audits : Fin n → Audit n) : Std.Total (pkgLe audits) := ⟨fun a b => by unfold pkgLe; omega⟩

instance (audits : Fin n → Audit n) : IsTrans (Fin n) (pkgLe audits) := ⟨fun a b c => by unfold pkgLe; omega⟩

variable {used : Fin n → Bool}

theorem packageOf_nodup (hc : Closed audits) (u : Fin n) : (packageOf audits used u).Nodup := by
  rw [(packageOf_perm u).nodup_iff, List.nodup_cons]
  exact ⟨fun h => hc.irrefl u (List.mem_of_mem_filter h), (hc.nodup u).filter _⟩

/-- **Sorting by ancestor count is a topological sort**: no later member of a package is an ancestor of an earlier one. -/
theorem packageOf_pairwise (used : Fin n → Bool) (hc : Closed audits) (u : Fin n) :
    (packageOf audits used u).Pairwise (fun a b => b ∉ (audits a).ancestors) := by
  rw [packageOf, List.pairwise_append]
  refine ⟨(List.pairwise_insertionSort (pkgLe audits) _).imp (fun {a b} hab hb => ?_), List.pairwise_singleton _ _,
    fun a ha b hb hba => ?_⟩
  · have := hc.length_lt hb
    unfold pkgLe at hab
    omega
  · rw [List.mem_singleton] at hb
    subst hb
    have hau := (List.mem_filter.1 ((List.mem_insertionSort _).1 ha)).1
    exact hc.irrefl b (hc.trans hau hba)

/-- **The members of a package lie between their ancestors**: an ancestor of a member is used or an earlier member. -/
theorem packageOf_ancestor (hc : Closed audits) {u m a : Fin n} (pre : List (Fin n)) {post : List (Fin n)}
    (hpkg : packageOf audits used u = pre ++ m :: post) (ha : a ∈ (audits m).ancestors) (hu : used a = false) :
    a ∈ pre := by
  have hm : m ∈ packageOf audits used u := by rw [hpkg]; exact List.mem_append_right _ List.mem_cons_self
  have hau : a ∈ (audits u).ancestors := by
    rcases mem_packageOf.1 hm with ⟨hm, -⟩ | rfl
    · exact hc.trans hm ha
    · exact ha
  have hap : a ∈ packageOf audits used u := mem_packageOf.2 (Or.inl ⟨hau, hu⟩)
  have hpw := packageOf_pairwise used hc u
  rw [hpkg] at hap hpw
  rcases List.mem_append.1 hap with h | h
  · exact h
  · rcases List.mem_cons.1 h with rfl | h
    · exact absurd ha (hc.irrefl a)
    · exact absurd ha ((List.pairwise_cons.1 (List.pairwise_append.1 hpw).2.1).1 a h)

/-! ## Order over the whole run -/

/-- No repetition, and every transaction after its ancestors. -/
structure OrderedList (audits : Fin n → Audit n) (l : List (Fin n)) : Prop where
  nodup : l.Nodup
  ancestors : ∀ pre u post, l = pre ++ u :: post → ∀ a ∈ (audits u).ancestors, a ∈ pre

/-- **Placing a package keeps the order.** -/
theorem ordered_take (hc : Closed audits) {s : Packing n} (ha : s.Accounts audits lim)
    (h : OrderedList audits s.placed) {u : Fin n} (hu : s.used u = false) :
    OrderedList audits (s.placed ++ packageOf audits s.used u) where
  nodup := by
    rw [List.nodup_append]
    refine ⟨h.nodup, packageOf_nodup hc u, fun x hx y hy hxy => ?_⟩
    subst hxy
    have hux := (ha.used_iff x).2 hx
    rcases mem_packageOf.1 hy with ⟨-, hf⟩ | rfl
    · rw [hf] at hux; cases hux
    · rw [hu] at hux; cases hux
  ancestors := by
    intro pre m post hsplit a hanc
    rcases List.append_eq_append_iff.1 hsplit with ⟨mid, rfl, hpkg⟩ | ⟨mid, hpl, hmid⟩
    · cases hused : s.used a with
      | true => exact List.mem_append_left _ ((ha.used_iff a).1 hused)
      | false => exact List.mem_append_right _ (packageOf_ancestor hc _ hpkg hanc hused)
    · cases mid with
      | nil =>
        rw [List.append_nil] at hpl
        rw [List.nil_append] at hmid
        cases hused : s.used a with
        | true => exact hpl ▸ (ha.used_iff a).1 hused
        | false => exact absurd (packageOf_ancestor hc [] hmid.symm hanc hused) List.not_mem_nil
      | cons x mid =>
        simp only [List.cons_append, List.cons.injEq] at hmid
        exact h.ancestors pre m mid (by rw [hpl, hmid.1]) a hanc

theorem ordered_step (hc : Closed audits) {s s' : Packing n} (ha : s.Accounts audits lim)
    (h : OrderedList audits s.placed) (hstep : packStep audits lim s = some s') : OrderedList audits s'.placed := by
  obtain ⟨item, rest, hp, ht⟩ := packStep_turn.1 hstep
  have hrest : ({ s with heap := rest } : Packing n).Accounts audits lim := ⟨ha.used_iff, ha.rated_iff, ha.weight⟩
  cases ht with
  | discard hu => exact h
  | requeue hu hst => exact h
  | hold hu hst hm => rw [placed_finalize]; exact h
  | take hu hst hm =>
    rw [placed_finalize, placed_take]
    exact ordered_take hc hrest h hu

theorem ordered_loopHead {ord : HashOrder n} {txs : Txs n} (hac : txs.Acyclic) {s : Packing n}
    (h : LoopHead ord txs lim s) : OrderedList (auditsOf ord txs) s.placed := by
  refine (reaches_keeps (P := fun s => s.Accounts (auditsOf ord txs) lim ∧ OrderedList (auditsOf ord txs) s.placed)
    h ⟨accounts_start, List.nodup_nil, fun pre u post hs => ?_⟩
    (fun a b hab hs => ⟨accounts_step hab.1 hs, ordered_step (auditsOf_closed ord hac) hab.1 hab.2 hs⟩)).2
  simp [Packing.start, Packing.placed] at hs

/-- **Projected blocks are valid and in topological order**: no uid twice, every ancestor before its descendants, and
the rated uids are exactly the placed ones. -/
theorem blocks_valid (ord : HashOrder n) (txs : Txs n) (lim : Limits) (hac : txs.Acyclic) :
    (projectWith ord txs lim).blocks.flatten.Nodup ∧
    (∀ pre u post, (projectWith ord txs lim).blocks.flatten = pre ++ u :: post →
      ∀ a, txs.Ancestor u a → a ∈ pre) ∧
    ∀ u, ((projectWith ord txs lim).effectiveRates u).isSome = true ↔
      u ∈ (projectWith ord txs lim).blocks.flatten := by
  have hord := ordered_loopHead hac (loopHead_packed ord txs lim)
  rw [projectWith_flatten, projectWith_effectiveRates]
  refine ⟨hord.nodup, fun pre u post hs a hua => ?_, (accounts_loopHead (loopHead_packed ord txs lim)).rated_iff⟩
  exact hord.ancestors pre u post hs a ((mem_ancestors_iff hac).2 hua)

/-- A poor parent, its rich child, and a heavy transaction that does not fit beside them. -/
def heavyTxs : Txs 3 where
  tx
    | 0 => ⟨0, 0, 250, 1000, []⟩
    | 1 => ⟨1, 1, 25000, 1000, [0]⟩
    | 2 => ⟨2, 2, 10000000, 3995000, []⟩
  dense := by decide

theorem heavyTxs_acyclic : heavyTxs.Acyclic := Txs.acyclic_of_rank Fin.val (by decide)

theorem blocks_valid_heavyTxs :
    (projectWith (.ascending 3) heavyTxs defaultLimits).blocks.flatten.Nodup ∧
    (∀ pre u post, (projectWith (.ascending 3) heavyTxs defaultLimits).blocks.flatten = pre ++ u :: post →
      ∀ a, heavyTxs.Ancestor u a → a ∈ pre) ∧
    ∀ u, ((projectWith (.ascending 3) heavyTxs defaultLimits).effectiveRates u).isSome = true ↔
      u ∈ (projectWith (.ascending 3) heavyTxs defaultLimits).blocks.flatten :=
  blocks_valid (.ascending 3) heavyTxs defaultLimits heavyTxs_acyclic

/-! ## What the blocks miss -/

/-- The next iteration drains the heap on an entry of a used transaction: it skips the finalisation. -/
def Packing.DrainsSkipping (s : Packing n) : Prop :=
  ∃ item rest, s.heap.pop = some (item, rest) ∧ rest.isEmpty = true ∧ s.used item.uid = true

/-- **A skipped finalisation ends the loop** with the overflow queue and the flags as they are. -/
theorem packLoop_of_drainsSkipping {s : Packing n} (h : s.DrainsSkipping) :
    (packLoop audits lim s).overflow = s.overflow ∧ (packLoop audits lim s).used = s.used := by
  obtain ⟨item, rest, hp, hr, hu⟩ := h
  have hstep : packStep audits lim s = some { s with heap := rest } :=
    packStep_turn.2 ⟨item, rest, hp, Turn.discard hu⟩
  rw [packLoop_of_some hstep, packLoop_of_none (packStep_eq_none.2 hr)]
  exact ⟨rfl, rfl⟩

/-- **An iteration that drains the heap leaves the overflow queue empty, or skipped the finalisation.** -/
theorem drainsSkipping_of_step {s s' : Packing n} (ht : s.Tidy lim) (hstep : packStep audits lim s = some s')
    (hd : s'.heap.isEmpty = true) (ho : s'.overflow ≠ []) :
    s.DrainsSkipping ∧ s'.overflow = s.overflow ∧ s'.used = s.used := by
  obtain ⟨item, rest, hp, hturn⟩ := packStep_turn.1 hstep
  -- an iteration that processed its entry closes the open block when the heap is drained
  have hfin : ∀ t : Packing n, t.curBlock ≠ [] → (t.overflow ≠ [] → t.bounded lim) →
      (t.finalize audits lim).heap.isEmpty = true → (t.finalize audits lim).overflow ≠ [] → False := by
    intro t hcur hb hh hov
    rcases finalize_cases audits lim t with ⟨-, e⟩ | ⟨hnc, e⟩
    · rw [e] at hov; exact hov rfl
    · rw [e] at hh hov
      exact hnc ⟨hb hov, Or.inr hh, hcur⟩
  cases hturn with
  | discard hu => exact ⟨⟨item, rest, hp, hd, hu⟩, rfl, rfl⟩
  | requeue hu hst => rw [MaxHeap.isEmpty_push] at hd; cases hd
  | hold hu hst hm => exact (hfin (Packing.hold { s with heap := rest } item.uid) hm.2.1 (fun _ => hm.1) hd ho).elim
  | take hu hst hm =>
    refine (hfin (Packing.take audits { s with heap := rest } _) ?_ (fun hov => ?_) hd ho).elim
    · rw [take_curBlock]
      exact List.append_ne_nil_of_right_ne_nil _ (List.ne_nil_of_mem (self_mem_packageOf _))
    · rw [take_overflow] at hov
      simpa [Packing.bounded] using (ht hov).1

/-- **The overflow queue ends non-empty exactly when some iteration drains the heap skipping the finalisation with the
queue non-empty**; that iteration is the last. -/
theorem packed_overflow (ord : HashOrder n) (txs : Txs n) (lim : Limits) (hne : (packed ord txs lim).overflow ≠ []) :
    ∃ s, LoopHead ord txs lim s ∧ s.DrainsSkipping ∧ s.overflow = (packed ord txs lim).overflow ∧
      s.used = (packed ord txs lim).used := by
  rcases Relation.ReflTransGen.cases_tail (loopHead_packed ord txs lim) with h | ⟨s, hs, hstep⟩
  · rw [h] at hne; exact absurd rfl hne
  · have hkey := drainsSkipping_of_step (tidy_loopHead hs) hstep (packed_heap ord txs lim) hne
    exact ⟨s, hs, hkey.1, hkey.2.1.symm, hkey.2.2.symm⟩

theorem packed_of_loopHead {ord : HashOrder n} {txs : Txs n} {s : Packing n} (h : LoopHead ord txs lim s) :
    packed ord txs lim = packLoop (auditsOf ord txs) lim s :=
  packLoop_eq_of_reaches h

theorem reaches_packed {ord : HashOrder n} {txs : Txs n} {s : Packing n} (h : LoopHead ord txs lim s) :
    Reaches (packStep (auditsOf ord txs) lim) s (packed ord txs lim) := by
  rw [packed_of_loopHead h]
  exact (packLoop_spec s).1

theorem unused_mem_overflow (ord : HashOrder n) (txs : Txs n) (lim : Limits) {u : Fin n}
    (hu : (packed ord txs lim).used u = false) : u ∈ (packed ord txs lim).overflow :=
  (fresh_loopHead (loopHead_packed ord txs lim) u hu).resolve_right
    (MaxHeap.isEmpty_iff.1 (packed_heap ord txs lim) _)

/-- `u` is left behind: an iteration drains the heap skipping the finalisation while `u` waits in the overflow queue. -/
def LeavesBehind (ord : HashOrder n) (txs : Txs n) (lim : Limits) (u : Fin n) : Prop :=
  ∃ s, LoopHead ord txs lim s ∧ s.DrainsSkipping ∧ u ∈ s.overflow ∧ s.used u = false

/-- **The transactions left behind are the ones that end unplaced.** -/
theorem leavesBehind_iff (ord : HashOrder n) (txs : Txs n) (lim : Limits) (u : Fin n) :
    LeavesBehind ord txs lim u ↔ (packed ord txs lim).used u = false := by
  constructor
  · rintro ⟨s, hs, hd, -, hu⟩
    rwa [packed_of_loopHead hs, (packLoop_of_drainsSkipping hd).2]
  · intro hu
    have hmem := unused_mem_overflow ord txs lim hu
    obtain ⟨s, hs, hd, he, hused⟩ := packed_overflow ord txs lim (List.ne_nil_of_mem hmem)
    exact ⟨s, hs, hd, he ▸ hmem, hused ▸ hu⟩

theorem mem_projectWith_iff (ord : HashOrder n) (txs : Txs n) (lim : Limits) (u : Fin n) :
    ((∃ b ∈ (projectWith ord txs lim).blocks, u ∈ b) ∧ ((projectWith ord txs lim).effectiveRates u).isSome = true) ↔
      (packed ord txs lim).used u = true := by
  have hacc := accounts_loopHead (loopHead_packed ord txs lim)
  rw [← List.mem_flatten, projectWith_flatten, projectWith_effectiveRates, hacc.rated_iff, and_self, hacc.used_iff]

end Gbt
end Satya
