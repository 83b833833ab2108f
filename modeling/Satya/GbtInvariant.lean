import Satya.GbtStep
/-!
# GbtInvariant — what holds at every loop head

Three invariants, each from one lemma about an iteration: the unplaced transactions are all still reachable through
the heap or the overflow queue (`Fresh`), the queue is empty unless a bounded block is open (`Tidy`), and the flags,
the rates and the running weight say what the blocks hold (`Accounts`).  The first needs only that a listed ancestor
leads to its descendants through the `children` edges (`Linked`), which the audits satisfy on every parent relation.
-/
namespace Satya
namespace Gbt

open StateTransition (Reaches)

variable {n : ℕ} {audits : Fin n → Audit n} {lim : Limits}

/-! ## The audits -/

def Child (audits : Fin n → Audit n) (a b : Fin n) : Prop := b ∈ (audits a).children

/-- Every listed ancestor leads to its descendant through the `children` edges. -/
def Linked (audits : Fin n → Audit n) : Prop :=
  ∀ u, ∀ a ∈ (audits u).ancestors, Relation.TransGen (Child audits) a u

/-- The `ancestors` column is the strict order of an acyclic relation. -/
structure Closed (audits : Fin n → Audit n) : Prop where
  nodup : ∀ u, (audits u).ancestors.Nodup
  irrefl : ∀ u, u ∉ (audits u).ancestors
  trans : ∀ {u a b}, a ∈ (audits u).ancestors → b ∈ (audits a).ancestors → b ∈ (audits u).ancestors

theorem mem_foldl_update (f : Fin n → Fin n) (c p : Fin n) : ∀ (ps : List (Fin n)) (i : Fin n)
    (children : Fin n → List (Fin n)),
    c ∈ ps.foldl (fun children q => Function.update children q (children q ++ [f i])) children p ↔
      c ∈ children p ∨ (p ∈ ps ∧ c = f i)
  | [], i, children => by simp
  | q :: ps, i, children => by
    rw [List.foldl_cons, mem_foldl_update f c p ps]
    by_cases hqp : p = q
    · subst hqp; simp; tauto
    · simp [hqp]

theorem mem_childrenOf {txs : Txs n} {p c : Fin n} : c ∈ childrenOf txs p ↔ txs.Parent c p := by
  have hloop : ∀ (is : List (Fin n)) (children : Fin n → List (Fin n)),
      c ∈ is.foldl (fun children i => (txs.tx i).parents.foldl (fun children p =>
        Function.update children p (children p ++ [(txs.tx i).uid])) children) children p ↔
        c ∈ children p ∨ ∃ i ∈ is, p ∈ (txs.tx i).parents ∧ c = (txs.tx i).uid := by
    intro is
    induction is with
    | nil => simp
    | cons i is ih =>
      intro children
      rw [List.foldl_cons, ih, mem_foldl_update (fun i => (txs.tx i).uid) c p]
      simp only [List.exists_mem_cons_iff, or_assoc]
  rw [childrenOf, hloop]
  simp only [List.not_mem_nil, List.mem_finRange, true_and, false_or, txs.dense]
  exact ⟨fun ⟨i, hp, hc⟩ => hc ▸ hp, fun h => ⟨c, h, rfl⟩⟩

theorem auditsOf_linked (ord : HashOrder n) (txs : Txs n) : Linked (auditsOf ord txs) := by
  intro u a ha
  have hanc : Relation.TransGen txs.Parent u a := (ancestorsOf_spec ord txs u).ancestor a ha
  have hchild : ∀ x y, Function.swap txs.Parent x y → Child (auditsOf ord txs) x y := fun x y h => mem_childrenOf.2 h
  exact Relation.TransGen.mono hchild a u (Relation.transGen_swap.2 hanc)

theorem mem_ancestors_iff {ord : HashOrder n} {txs : Txs n} (hac : txs.Acyclic) {u a : Fin n} :
    a ∈ (auditsOf ord txs u).ancestors ↔ txs.Ancestor u a :=
  ⟨(ancestorsOf_spec ord txs u).ancestor a, (ancestorsOf_spec ord txs u).complete hac a⟩

theorem auditsOf_closed (ord : HashOrder n) {txs : Txs n} (hac : txs.Acyclic) : Closed (auditsOf ord txs) where
  nodup u := (ancestorsOf_spec ord txs u).nodup
  irrefl u h := hac u ((mem_ancestors_iff hac).1 h)
  trans h h' := (mem_ancestors_iff hac).2 (((mem_ancestors_iff hac).1 h).trans ((mem_ancestors_iff hac).1 h'))

/-! ## Unplaced transactions stay reachable -/

/-- Every unused transaction is in the overflow queue or has a heap entry that carries its current score. -/
def Packing.Fresh (audits : Fin n → Audit n) (s : Packing n) : Prop :=
  ∀ u, s.used u = false → u ∈ s.overflow ∨ freshItem audits s.used u ∈ s.heap

theorem fresh_start : (Packing.start audits lim).Fresh audits := fun u _ =>
  Or.inr (MaxHeap.mem_pushAll.2 (Or.inl (List.mem_map_of_mem (List.mem_finRange u))))

theorem fresh_close {s : Packing n} (h : s.Fresh audits) :
    ∀ u, s.used u = false → freshItem audits s.used u ∈ (s.close audits lim).heap := by
  intro u hu
  rw [Packing.close, MaxHeap.mem_pushAll]
  rcases h u hu with h | h
  · exact Or.inl (List.mem_map_of_mem h)
  · exact Or.inr h

theorem fresh_finalize {s : Packing n} (h : s.Fresh audits) : (s.finalize audits lim).Fresh audits := by
  rcases finalize_cases audits lim s with ⟨-, e⟩ | ⟨-, e⟩
  · rw [e]; exact fun u hu => Or.inr (fresh_close h u hu)
  · rw [e]; exact h

/-- **After a package is placed**, an unused transaction keeps its current score unless it descends from a member, and
then it has an entry with the new one. -/
theorem fresh_take (hl : Linked audits) {s : Packing n} {pkg : List (Fin n)} {u : Fin n}
    (hu : (s.take audits pkg).used u = false) :
    freshItem audits (s.take audits pkg).used u ∈ (s.take audits pkg).heap ∨
      ((∀ a ∈ (audits u).ancestors, s.used a = (s.take audits pkg).used a) ∧
        freshItem audits (s.take audits pkg).used u = freshItem audits s.used u) := by
  by_cases hanc : ∃ a ∈ (audits u).ancestors, a ∈ pkg
  · obtain ⟨a, ha, hap⟩ := hanc
    refine Or.inl ?_
    rw [take_heap, mem_refreshDescendants]
    rw [take_used] at hu ⊢
    exact Or.inr ⟨u, rfl, hu, a, hap, hl u a ha⟩
  · have hsame : ∀ a ∈ (audits u).ancestors, s.used a = (s.take audits pkg).used a := by
      intro a ha
      have hap : a ∉ pkg := fun h => hanc ⟨a, ha, h⟩
      simp [take_used, hap]
    exact Or.inr ⟨hsame, (freshItem_congr hsame).symm⟩

theorem mem_take_heap {s : Packing n} {pkg : List (Fin n)} {x : HeapItem n} (h : x ∈ s.heap) :
    x ∈ (s.take audits pkg).heap := by
  rw [take_heap, mem_refreshDescendants]
  exact Or.inl h

theorem fresh_rest {s : Packing n} (h : s.Fresh audits) {item : HeapItem n} {rest : MaxHeap (HeapItem n)}
    (hp : s.heap.pop = some (item, rest)) {u : Fin n} (hu : s.used u = false) (hne : u ≠ item.uid) :
    u ∈ s.overflow ∨ freshItem audits s.used u ∈ rest := by
  rcases h u hu with h | h
  · exact Or.inl h
  · refine Or.inr (((MaxHeap.mem_of_pop hp).1 h).resolve_left (fun he => hne ?_))
    rw [← he]; rfl

theorem fresh_processed (hl : Linked audits) {s t : Packing n} (h : s.Fresh audits)
    (ht : Processed audits lim s t) : t.Fresh audits := by
  intro u huu
  cases ht with
  | @hold item rest hp hu hst hm =>
    by_cases hne : u = item.uid
    · exact Or.inl (List.mem_append_right _ (by simp [hne]))
    · rcases fresh_rest h hp huu hne with h | h
      · exact Or.inl (List.mem_append_left _ h)
      · exact Or.inr h
  | @take item rest hp hu hst hm =>
    have hun := take_unused_iff.1 huu
    have hne : u ≠ item.uid := fun he => hun.2 (he ▸ self_mem_packageOf _)
    rcases fresh_take hl huu with hh | ⟨-, he⟩
    · exact Or.inr hh
    · rcases fresh_rest h hp hun.1 hne with h | h
      · exact Or.inl (by rwa [take_overflow])
      · exact Or.inr (by rw [he]; exact mem_take_heap h)

/-- **One iteration keeps the unplaced transactions reachable.** -/
theorem fresh_step (hl : Linked audits) {s s' : Packing n} (h : s.Fresh audits)
    (hstep : packStep audits lim s = some s') : s'.Fresh audits := by
  obtain ⟨item, rest, hp, ht⟩ := packStep_turn.1 hstep
  cases ht with
  | discard hu => exact fun u huu => fresh_rest h hp huu (fun he => by rw [he, hu] at huu; cases huu)
  | requeue hu hst =>
    intro u huu
    by_cases hne : u = item.uid
    · rw [hne]; exact Or.inr (MaxHeap.mem_push.2 (Or.inl rfl))
    · rcases fresh_rest h hp huu hne with h | h
      · exact Or.inl h
      · exact Or.inr (MaxHeap.mem_push.2 (Or.inr h))
  | hold hu hst hm => exact fresh_finalize (fresh_processed hl h (Processed.hold hp hu hst hm))
  | take hu hst hm => exact fresh_finalize (fresh_processed hl h (Processed.take hp hu hst hm))

theorem fresh_loopHead {ord : HashOrder n} {txs : Txs n} {s : Packing n} (h : LoopHead ord txs lim s) :
    s.Fresh (auditsOf ord txs) :=
  reaches_keeps h fresh_start (fun _ _ ha hs => fresh_step (auditsOf_linked ord txs) ha hs)

/-! ## The overflow queue -/

/-- Something is held back only while a bounded block is open and holds something. -/
def Packing.Tidy (lim : Limits) (s : Packing n) : Prop := s.overflow ≠ [] → s.bounded lim ∧ s.curBlock ≠ []

theorem tidy_finalize {s : Packing n} (h : s.Tidy lim) : (s.finalize audits lim).Tidy lim := by
  rcases finalize_cases audits lim s with ⟨-, e⟩ | ⟨-, e⟩
  · rw [e]; exact fun ho => absurd rfl ho
  · rw [e]; exact h

theorem tidy_step {s s' : Packing n} (h : s.Tidy lim) (hstep : packStep audits lim s = some s') : s'.Tidy lim := by
  obtain ⟨item, rest, hp, ht⟩ := packStep_turn.1 hstep
  cases ht with
  | discard hu => exact h
  | requeue hu hst => exact h
  | hold hu hst hm => exact tidy_finalize (fun _ => ⟨hm.1, hm.2.1⟩)
  | take hu hst hm =>
    refine tidy_finalize (fun ho => ?_)
    rw [take_overflow] at ho
    obtain ⟨hb, hc⟩ := h ho
    refine ⟨?_, by simp [hc]⟩
    simpa [Packing.bounded] using hb

theorem tidy_loopHead {ord : HashOrder n} {txs : Txs n} {s : Packing n} (h : LoopHead ord txs lim s) : s.Tidy lim :=
  reaches_keeps h (fun ho => absurd rfl ho) (fun _ _ ha hs => tidy_step ha hs)

/-- What is held back does not fit, or has been refreshed since. -/
def Packing.Parked (audits : Fin n → Audit n) (lim : Limits) (s : Packing n) : Prop :=
  ∀ o ∈ s.overflow, s.used o = false →
    lim.maxBlockWeight < s.blockWeight + weightSum audits (packageOf audits s.used o) ∨
      freshItem audits s.used o ∈ s.heap

theorem parked_finalize {s : Packing n} (h : s.Parked audits lim) : (s.finalize audits lim).Parked audits lim := by
  rcases finalize_cases audits lim s with ⟨-, e⟩ | ⟨-, e⟩
  · rw [e]; exact fun o ho => absurd ho List.not_mem_nil
  · rw [e]; exact h

theorem parked_rest {s : Packing n} (h : s.Parked audits lim) {item : HeapItem n} {rest : MaxHeap (HeapItem n)}
    (hp : s.heap.pop = some (item, rest)) {o : Fin n} (ho : o ∈ s.overflow) (hu : s.used o = false)
    (hne : freshItem audits s.used o ≠ item) :
    lim.maxBlockWeight < s.blockWeight + weightSum audits (packageOf audits s.used o) ∨
      freshItem audits s.used o ∈ rest :=
  (h o ho hu).imp_right (fun he => ((MaxHeap.mem_of_pop hp).1 he).resolve_left hne)

theorem parked_processed (hl : Linked audits) {s t : Packing n} (h : s.Parked audits lim)
    (ht : Processed audits lim s t) : t.Parked audits lim := by
  intro o ho hou
  cases ht with
  | @hold item rest hp hu hst hm =>
    by_cases hne : o = item.uid
    · rw [hne]; exact Or.inl hm.2.2
    · have hos : o ∈ s.overflow := (List.mem_append.1 ho).resolve_right (fun h => hne (List.mem_singleton.1 h))
      exact parked_rest h hp hos hou (fun he => hne (by rw [← he]; rfl))
  | @take item rest hp hu hst hm =>
    rw [take_overflow] at ho
    have hun := take_unused_iff.1 hou
    have hne : o ≠ item.uid := fun he => hun.2 (he ▸ self_mem_packageOf _)
    rcases fresh_take hl hou with hh | ⟨hsame, he⟩
    · exact Or.inr hh
    · rw [he, ← packageOf_congr hsame, take_blockWeight]
      rcases parked_rest h hp ho hun.1 (fun he => hne (by rw [← he]; rfl)) with h | h
      · exact Or.inl (h.trans_le (Nat.add_le_add_right (Nat.le_add_right _ _) _))
      · exact Or.inr (mem_take_heap h)

theorem parked_step (hl : Linked audits) {s s' : Packing n} (h : s.Parked audits lim)
    (hstep : packStep audits lim s = some s') : s'.Parked audits lim := by
  obtain ⟨item, rest, hp, ht⟩ := packStep_turn.1 hstep
  cases ht with
  | discard hu =>
    intro o ho hou
    refine parked_rest h hp ho hou (fun he => ?_)
    rw [← he, freshItem_uid] at hu
    exact Bool.false_ne_true (hou.symm.trans hu)
  | requeue hu hst =>
    intro o ho hou
    refine (parked_rest h hp ho hou (fun he => ?_)).imp_right (fun h => MaxHeap.mem_push.2 (Or.inr h))
    rw [← he] at hst
    exact not_stale_freshItem o hst
  | hold hu hst hm => exact parked_finalize (parked_processed hl h (Processed.hold hp hu hst hm))
  | take hu hst hm => exact parked_finalize (parked_processed hl h (Processed.take hp hu hst hm))

theorem parked_loopHead {ord : HashOrder n} {txs : Txs n} {s : Packing n} (h : LoopHead ord txs lim s) :
    s.Parked (auditsOf ord txs) lim :=
  reaches_keeps h (fun _ ho => absurd ho List.not_mem_nil)
    (fun _ _ ha hs => parked_step (auditsOf_linked ord txs) ha hs)

/-! ## Entries -/

def Packing.placed (s : Packing n) : List (Fin n) := s.blocks.flatten ++ s.curBlock

/-- The flags and the rates are those of the placed transactions, and the running weight is the open block's. -/
structure Packing.Accounts (audits : Fin n → Audit n) (lim : Limits) (s : Packing n) : Prop where
  used_iff : ∀ u, s.used u = true ↔ u ∈ s.placed
  rated_iff : ∀ u, (s.effectiveRates u).isSome = true ↔ u ∈ s.placed
  weight : s.blockWeight = lim.reserved + weightSum audits s.curBlock

theorem accounts_start : (Packing.start audits lim).Accounts audits lim where
  used_iff u := by simp [Packing.start, Packing.placed]
  rated_iff u := by simp [Packing.start, Packing.placed]
  weight := rfl

theorem placed_close (s : Packing n) : (s.close audits lim).placed = s.placed := by
  simp [Packing.close, Packing.placed]

theorem placed_finalize (s : Packing n) : (s.finalize audits lim).placed = s.placed := by
  rcases finalize_cases audits lim s with ⟨-, e⟩ | ⟨-, e⟩
  · rw [e, placed_close]
  · rw [e]

@[simp] theorem finalize_effectiveRates (s : Packing n) :
    (s.finalize audits lim).effectiveRates = s.effectiveRates := by
  rcases finalize_cases audits lim s with ⟨-, e⟩ | ⟨-, e⟩
  · rw [e]; rfl
  · rw [e]

theorem placed_take (s : Packing n) (pkg : List (Fin n)) : (s.take audits pkg).placed = s.placed ++ pkg := by
  simp [Packing.placed]

theorem accounts_finalize {s : Packing n} (h : s.Accounts audits lim) :
    (s.finalize audits lim).Accounts audits lim where
  used_iff u := by rw [finalize_used, placed_finalize, h.used_iff]
  rated_iff u := by rw [finalize_effectiveRates, placed_finalize, h.rated_iff]
  weight := by
    rcases finalize_cases audits lim s with ⟨-, e⟩ | ⟨-, e⟩
    · rw [e]; rfl
    · rw [e]; exact h.weight

theorem accounts_take {s : Packing n} (h : s.Accounts audits lim) (pkg : List (Fin n)) :
    (s.take audits pkg).Accounts audits lim where
  used_iff u := by rw [take_used_iff, placed_take, List.mem_append, h.used_iff]
  rated_iff u := by
    rw [take_effectiveRates, placed_take, List.mem_append, ← h.rated_iff]
    by_cases hu : u ∈ pkg <;> simp [hu]
  weight := by rw [take_blockWeight, take_curBlock, weightSum_append, h.weight, add_assoc]

theorem accounts_processed {s t : Packing n} (h : s.Accounts audits lim) (ht : Processed audits lim s t) :
    t.Accounts audits lim := by
  cases ht with
  | hold hp hu hst hm => exact ⟨h.used_iff, h.rated_iff, h.weight⟩
  | @take item rest hp hu hst hm =>
    have hrest : ({ s with heap := rest } : Packing n).Accounts audits lim := ⟨h.used_iff, h.rated_iff, h.weight⟩
    exact accounts_take hrest _

theorem accounts_step {s s' : Packing n} (h : s.Accounts audits lim) (hstep : packStep audits lim s = some s') :
    s'.Accounts audits lim := by
  obtain ⟨item, rest, hp, ht⟩ := packStep_turn.1 hstep
  cases ht with
  | discard hu => exact ⟨h.used_iff, h.rated_iff, h.weight⟩
  | requeue hu hst => exact ⟨h.used_iff, h.rated_iff, h.weight⟩
  | hold hu hst hm => exact accounts_finalize (accounts_processed h (Processed.hold hp hu hst hm))
  | take hu hst hm => exact accounts_finalize (accounts_processed h (Processed.take hp hu hst hm))

theorem accounts_loopHead {ord : HashOrder n} {txs : Txs n} {s : Packing n} (h : LoopHead ord txs lim s) :
    s.Accounts (auditsOf ord txs) lim :=
  reaches_keeps h accounts_start (fun _ _ ha hs => accounts_step ha hs)

/-! ## The result -/

theorem flatten_result (s : Packing n) : s.result.blocks.flatten = s.placed := by
  unfold Packing.result Packing.placed
  by_cases hc : s.curBlock = []
  · simp [hc]
  · simp [hc]

/-- **The projection is the final loop state's**, the empty input included. -/
theorem projectWith_eq (ord : HashOrder n) (txs : Txs n) (lim : Limits) :
    projectWith ord txs lim = (packed ord txs lim).result := by
  unfold projectWith
  split
  · rename_i hn
    subst hn
    have hstart : packed ord txs lim = Packing.start (auditsOf ord txs) lim :=
      packLoop_of_none (packStep_eq_none.2 (by simp [Packing.start]; rfl))
    rw [hstart]
    simp [Packing.result, Packing.start]
  · rfl

theorem projectWith_flatten (ord : HashOrder n) (txs : Txs n) (lim : Limits) :
    (projectWith ord txs lim).blocks.flatten = (packed ord txs lim).placed := by
  rw [projectWith_eq, flatten_result]

theorem projectWith_effectiveRates (ord : HashOrder n) (txs : Txs n) (lim : Limits) :
    (projectWith ord txs lim).effectiveRates = (packed ord txs lim).effectiveRates := by
  rw [projectWith_eq]; rfl

end Gbt
end Satya
