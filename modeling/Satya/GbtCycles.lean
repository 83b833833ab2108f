import Satya.GbtGreedy
/-!
# GbtCycles — what a cyclic parent relation does

The guard of `build_ancestors` answers an empty list for a uid on the recursion stack, but that uid has been put into the
set before the call.  What a call leaves out is therefore always visible: a list that misses an ancestor holds a uid that
was on the stack, and that uid's own list takes it in (`buildAncestors_explores`).  So some uid lists itself exactly when
the relation is cyclic (`self_listed_iff`), and its package counts it twice.
-/
namespace Satya
namespace Gbt

open StateTransition (Reaches)

variable {n : ℕ} {txs : Txs n} {ord : HashOrder n}

/-! ## What a call leaves out -/

/-- Memoised, or on the recursion stack. -/
def Dfs.Known (st : Dfs n) (u : Fin n) : Prop := st.visiting u = true ∨ (st.memo u).isSome = true

/-- `M` holds of a uid on the stack, or wherever `R` does. -/
def Covers (visiting : Fin n → Bool) (M R : Fin n → Prop) : Prop := (∃ g, M g ∧ visiting g = true) ∨ ∀ a, R a → M a

structure Dfs.Explored (txs : Txs n) (st : Dfs n) : Prop where
  known : ∀ u l, st.memo u = some l → ∀ a ∈ l, st.Known a
  covers : ∀ u l, st.memo u = some l → Covers st.visiting (· ∈ l) (txs.Ancestor u)

def Dfs.SelfListed (st : Dfs n) : Prop := ∃ v l, st.memo v = some l ∧ v ∈ l

/-- What a call or a loop does to the vectors: no flag and no memoised list changes, and nothing on the stack is
memoised. -/
structure Dfs.Keeps (st st' : Dfs n) : Prop where
  visiting : st'.visiting = st.visiting
  memo : ∀ u l, st.memo u = some l → st'.memo u = some l
  stacked : ∀ u, st.visiting u = true → st'.memo u = st.memo u

theorem Dfs.Keeps.refl (st : Dfs n) : st.Keeps st := ⟨rfl, fun _ _ h => h, fun _ _ => rfl⟩

theorem Dfs.Keeps.trans {st st₁ st₂ : Dfs n} (h : st.Keeps st₁) (h' : st₁.Keeps st₂) : st.Keeps st₂ where
  visiting := h'.visiting.trans h.visiting
  memo u l hu := h'.memo u l (h.memo u l hu)
  stacked u hu := (h'.stacked u (by rwa [h.visiting])).trans (h.stacked u hu)

theorem Dfs.Keeps.known {st st' : Dfs n} (h : st.Keeps st') {u : Fin n} (hu : st.Known u) : st'.Known u := by
  rcases hu with hu | hu
  · exact Or.inl (by rwa [h.visiting])
  · obtain ⟨l, hl⟩ := Option.isSome_iff_exists.1 hu
    exact Or.inr (by rw [h.memo u l hl]; rfl)

theorem Dfs.Keeps.selfListed {st st' : Dfs n} (h : st.Keeps st') (hs : st.SelfListed) : st'.SelfListed := by
  obtain ⟨v, l, hl, hv⟩ := hs
  exact ⟨v, l, h.memo v l hl, hv⟩

/-- What one call for `uid` leaves, from vectors `st` to vectors `st'`. -/
structure CallExplores (txs : Txs n) (uid : Fin n) (st : Dfs n) (l : List (Fin n)) (st' : Dfs n) : Prop where
  keeps : st.Keeps st'
  answer : st'.memo uid = some l ∨ (st.visiting uid = true ∧ l = [])
  explored : st.Explored txs → st'.SelfListed ∨
    (st'.Explored txs ∧ ∀ u l', st'.memo u = some l' → st.memo u = some l' ∨ l' ⊆ l)

/-- What the loop over the parents `ps` leaves, from `set` and `st` to `set'` and `st'`. -/
structure LoopExplores (txs : Txs n) (ps : List (Fin n)) (set : Finset (Fin n)) (st : Dfs n) (set' : Finset (Fin n))
    (st' : Dfs n) : Prop where
  keeps : st.Keeps st'
  subset : set ⊆ set'
  listed : ∀ p ∈ ps, p ∈ set'
  explored : st.Explored txs → (∀ a ∈ set, st.Known a) → st'.SelfListed ∨
    (st'.Explored txs ∧ (∀ a ∈ set', st'.Known a) ∧
      (∀ u l', st'.memo u = some l' → st.memo u = some l' ∨ ∀ a ∈ l', a ∈ set') ∧
      Covers st'.visiting (· ∈ set') (fun a => ∃ p ∈ ps, a = p ∨ txs.Ancestor p a))

section Parent

variable {p : Fin n} {l : List (Fin n)} {st st₁ st' : Dfs n}

theorem CallExplores.self_known (spec : CallExplores txs p st l st₁) : st₁.Known p := by
  rcases spec.answer with hans | ⟨hv, -⟩
  · exact Or.inr (by rw [hans]; rfl)
  · exact Or.inl (by rwa [spec.keeps.visiting])

theorem CallExplores.answer_known (spec : CallExplores txs p st l st₁) (hex : st₁.Explored txs) : ∀ a ∈ l, st₁.Known a := by
  rcases spec.answer with hans | ⟨-, rfl⟩
  · exact hex.known p l hans
  · exact fun a ha => absurd ha List.not_mem_nil

/-- **A parent and its answer cover the parent's ancestors**: a guarded call leaves the parent itself, which is on the
stack. -/
theorem CallExplores.covers (spec : CallExplores txs p st l st₁) (hex : st₁.Explored txs) {set : Finset (Fin n)}
    (hp : p ∈ set) (hl : ∀ a ∈ l, a ∈ set) : Covers st₁.visiting (· ∈ set) (fun a => a = p ∨ txs.Ancestor p a) := by
  rcases spec.answer with hans | ⟨hv, -⟩
  · refine (hex.covers p l hans).imp (fun ⟨g, hg, hgv⟩ => ⟨g, hl g hg, hgv⟩) (fun hanc a ha => ?_)
    rcases ha with rfl | ha
    · exact hp
    · exact hl a (hanc a ha)
  · exact Or.inl ⟨p, hp, by rwa [spec.keeps.visiting]⟩

end Parent

theorem parentLoop_explores {call : Fin n → Dfs n → Option (List (Fin n) × Dfs n)}
    (hcall : ∀ p st l st', call p st = some (l, st') → CallExplores txs p st l st') :
    ∀ (ps : List (Fin n)) (set : Finset (Fin n)) (st : Dfs n) (set' : Finset (Fin n)) (st' : Dfs n),
      parentLoop call ps set st = some (set', st') → LoopExplores txs ps set st set' st'
  | [], set, st, set', st', h => by
    simp only [parentLoop, Option.some.injEq, Prod.mk.injEq] at h
    obtain ⟨rfl, rfl⟩ := h
    refine ⟨Dfs.Keeps.refl st, Finset.Subset.refl set, fun p hp => absurd hp List.not_mem_nil, fun hex hk => ?_⟩
    refine Or.inr ⟨hex, hk, fun u l' hl => Or.inl hl, Or.inr (fun a ha => ?_)⟩
    obtain ⟨p, hp, -⟩ := ha
    cases hp
  | p :: ps, set, st, set', st', h => by
    unfold parentLoop at h
    cases hp : call p st with
    | none => rw [hp] at h; cases h
    | some r =>
      obtain ⟨l, st₁⟩ := r
      rw [hp] at h
      have spec := hcall p st l st₁ hp
      have hrest := parentLoop_explores hcall ps _ st₁ set' st' h
      have hset : ∀ a, a ∈ l ∨ a = p ∨ a ∈ set → a ∈ set' := fun a ha => hrest.subset (mem_insertAnswer.2 ha)
      refine ⟨spec.keeps.trans hrest.keeps, fun a ha => hset a (Or.inr (Or.inr ha)), fun q hq => ?_, fun hex hk => ?_⟩
      · rcases List.mem_cons.1 hq with rfl | hq
        · exact hset q (Or.inr (Or.inl rfl))
        · exact hrest.listed q hq
      rcases spec.explored hex with hself | ⟨hex₁, hnew₁⟩
      · exact Or.inl (hrest.keeps.selfListed hself)
      have hknown : ∀ a ∈ l.foldl (fun s a => insert a s) (insert p set), st₁.Known a := by
        intro a ha
        rcases mem_insertAnswer.1 ha with ha | rfl | ha
        · exact spec.answer_known hex₁ a ha
        · exact spec.self_known
        · exact spec.keeps.known (hk a ha)
      rcases hrest.explored hex₁ hknown with hself | ⟨hex', hknown', hnew', hcov⟩
      · exact Or.inl hself
      refine Or.inr ⟨hex', hknown', fun u l' hl => ?_, ?_⟩
      · rcases hnew' u l' hl with hl | hl
        · exact (hnew₁ u l' hl).imp_right (fun hsub a ha => hset a (Or.inl (hsub ha)))
        · exact Or.inr hl
      rcases hcov with hstack | hall
      · exact Or.inl hstack
      have hparent := spec.covers hex₁ (hset p (Or.inr (Or.inl rfl))) (fun a ha => hset a (Or.inl ha))
      rw [← hrest.keeps.visiting] at hparent
      refine hparent.imp_right (fun hanc a ha => ?_)
      obtain ⟨q, hq, ha⟩ := ha
      rcases List.mem_cons.1 hq with rfl | hq
      · exact hanc a ha
      · exact hall a ⟨q, hq, ha⟩

/-! ## Leaving the stack -/

theorem Dfs.Explored.enter {st : Dfs n} (hex : st.Explored txs) (uid : Fin n) : (st.enter uid).Explored txs := by
  have hup : ∀ a, st.visiting a = true → Function.update st.visiting uid true a = true := by
    intro a ha
    by_cases hau : a = uid
    · rw [hau, Function.update_self]
    · rwa [Function.update_of_ne hau]
  exact ⟨fun u l hl a ha => (hex.known u l hl a ha).imp_left (hup a),
    fun u l hl => (hex.covers u l hl).imp_left (fun ⟨g, hg, hgv⟩ => ⟨g, hg, hup g hgv⟩)⟩

section Leave

variable {uid : Fin n} {st st₁ : Dfs n} {set : Finset (Fin n)} {v : List (Fin n)}

theorem LoopExplores.visiting_of_ne
    (h : LoopExplores txs (txs.tx uid).parents ∅ (st.enter uid) set st₁)
    {a : Fin n} (ha : st₁.visiting a = true) (hu : a ≠ uid) : st.visiting a = true := by
  have hvis : st₁.visiting = Function.update st.visiting uid true := h.keeps.visiting
  rwa [hvis, Function.update_of_ne hu] at ha

theorem LoopExplores.visiting_record (hv : st.visiting uid = false)
    (h : LoopExplores txs (txs.tx uid).parents ∅ (st.enter uid) set st₁) :
    (st₁.record uid v).visiting = st.visiting := by
  have hvis : st₁.visiting = Function.update st.visiting uid true := h.keeps.visiting
  show Function.update st₁.visiting uid false = st.visiting
  rw [hvis, Function.update_idem, ← hv, Function.update_eq_self]

/-- No list of the loop's is overwritten. -/
theorem LoopExplores.memo_record_of_some (hm : st.memo uid = none)
    (h : LoopExplores txs (txs.tx uid).parents ∅ (st.enter uid) set st₁)
    {u : Fin n} {l : List (Fin n)} (hl : st₁.memo u = some l) : (st₁.record uid v).memo u = some l := by
  have hnone : st₁.memo uid = none := (h.keeps.stacked uid (by simp [Dfs.enter])).trans hm
  have hu : u ≠ uid := fun heq => by
    rw [heq, hnone] at hl
    cases hl
  exact (Function.update_of_ne hu _ _).trans hl

theorem LoopExplores.keeps_record (hm : st.memo uid = none) (hv : st.visiting uid = false)
    (h : LoopExplores txs (txs.tx uid).parents ∅ (st.enter uid) set st₁) :
    st.Keeps (st₁.record uid v) where
  visiting := h.visiting_record hv
  memo u l hl := h.memo_record_of_some hm (h.keeps.memo u l hl)
  stacked u hu := by
    have hne : u ≠ uid := fun heq => by rw [heq, hv] at hu; cases hu
    exact (Function.update_of_ne hne _ _).trans (h.keeps.stacked u (by simpa [Dfs.enter, hne] using hu))

theorem LoopExplores.known_record (hv : st.visiting uid = false)
    (h : LoopExplores txs (txs.tx uid).parents ∅ (st.enter uid) set st₁)
    {a : Fin n} (ha : st₁.Known a) : (st₁.record uid v).Known a := by
  by_cases hau : a = uid
  · exact Or.inr (by simp [Dfs.record, hau])
  · refine ha.imp (fun hva => ?_) (fun hma => ?_)
    · rw [h.visiting_record hv]
      exact h.visiting_of_ne hva hau
    · exact (congrArg Option.isSome (Function.update_of_ne hau _ _)).trans hma

/-- **A list that does not hold `uid` covers what it did**: no uid it holds has left the stack. -/
theorem LoopExplores.covers_record (hv : st.visiting uid = false)
    (h : LoopExplores txs (txs.tx uid).parents ∅ (st.enter uid) set st₁)
    {M R : Fin n → Prop} (hM : ¬ M uid) (hcov : Covers st₁.visiting M R) : Covers (st₁.record uid v).visiting M R := by
  rw [h.visiting_record hv]
  exact hcov.imp_left (fun ⟨g, hg, hgv⟩ => ⟨g, hg, h.visiting_of_ne hgv (fun heq => hM (heq ▸ hg))⟩)

/-- Leaving the stack: what is left out because of `uid` itself has `uid` in the list of `uid`. -/
theorem LoopExplores.leave (hm : st.memo uid = none) (hv : st.visiting uid = false)
    (h : LoopExplores txs (txs.tx uid).parents ∅ (st.enter uid) set st₁)
    (hmem : ∀ a, a ∈ v ↔ a ∈ set) : CallExplores txs uid st v (st₁.record uid v) := by
  have hown : (st₁.record uid v).memo uid = some v := Function.update_self _ _ _
  refine ⟨h.keeps_record hm hv, Or.inl hown, fun hex => ?_⟩
  rcases h.explored (hex.enter uid) (fun a ha => absurd ha (Finset.notMem_empty a)) with
    ⟨w, l, hl, hw⟩ | ⟨hex₁, hknown, hnew, hcov⟩
  · exact Or.inl ⟨w, l, h.memo_record_of_some hm hl, hw⟩
  by_cases hself : uid ∈ set
  · exact Or.inl ⟨uid, v, hown, (hmem uid).2 hself⟩
  refine Or.inr ⟨⟨fun u l hl a ha => ?_, fun u l hl => ?_⟩, fun u l hl => ?_⟩
  · refine h.known_record hv ?_
    rcases Dfs.memo_record hl with ⟨-, rfl⟩ | ⟨-, hl⟩
    · exact hknown a ((hmem a).1 ha)
    · exact hex₁.known u l hl a ha
  · rcases Dfs.memo_record hl with ⟨rfl, rfl⟩ | ⟨-, hl⟩
    · refine h.covers_record hv (fun hm => hself ((hmem u).1 hm)) ?_
      refine hcov.imp (fun ⟨g, hg, hgv⟩ => ⟨g, (hmem g).2 hg, hgv⟩) (fun hall a ha => ?_)
      exact (hmem a).2 (hall a (Txs.ancestor_iff.1 ha))
    · -- a list that holds `uid` is older than the call or part of what `uid` collects
      refine h.covers_record hv (fun hg => ?_) (hex₁.covers u l hl)
      rcases hnew u l hl with hold | hsub
      · rcases hex.known u l hold uid hg with hva | hma
        · rw [hv] at hva; cases hva
        · rw [hm] at hma; cases hma
      · exact hself (hsub uid hg)
  · rcases Dfs.memo_record hl with ⟨-, rfl⟩ | ⟨-, hl⟩
    · exact Or.inr (List.Subset.refl l)
    · exact (hnew u l hl).imp_right (fun hsub a ha => (hmem a).2 (hsub a ha))

end Leave

/-- **One call, from any vectors**: a list that misses an ancestor holds a uid on the stack, unless some uid lists
itself. -/
theorem buildAncestors_explores (ord : HashOrder n) (txs : Txs n) : ∀ (fuel : ℕ) (uid : Fin n) (st : Dfs n)
    (l : List (Fin n)) (st' : Dfs n), buildAncestors ord txs fuel uid st = some (l, st') → CallExplores txs uid st l st'
  | 0, _, _, _, _, h => by cases h
  | fuel + 1, uid, st, l, st', h => by
    unfold buildAncestors at h
    cases hm : st.memo uid with
    | some a =>
      simp only [hm, Option.some.injEq, Prod.mk.injEq] at h
      obtain ⟨rfl, rfl⟩ := h
      exact ⟨Dfs.Keeps.refl st, Or.inl hm, fun hex => Or.inr ⟨hex, fun u l' hl => Or.inl hl⟩⟩
    | none =>
      cases hv : st.visiting uid with
      | true =>
        simp only [hm, hv, if_true, Option.some.injEq, Prod.mk.injEq] at h
        obtain ⟨rfl, rfl⟩ := h
        exact ⟨Dfs.Keeps.refl st, Or.inr ⟨hv, rfl⟩, fun hex => Or.inr ⟨hex, fun u l' hl => Or.inl hl⟩⟩
      | false =>
        simp only [hm, hv, Bool.false_eq_true, if_false] at h
        cases hp : parentLoop (buildAncestors ord txs fuel) (txs.tx uid).parents ∅
            { st with visiting := Function.update st.visiting uid true } with
        | none => rw [hp] at h; cases h
        | some r =>
          obtain ⟨set, st₁⟩ := r
          simp only [hp, Option.some.injEq, Prod.mk.injEq] at h
          obtain ⟨rfl, rfl⟩ := h
          have spec := parentLoop_explores (buildAncestors_explores ord txs fuel) _ _ _ _ _ hp
          exact spec.leave hm hv (ord.mem_iff uid set)

theorem ancestorLoop_explores (ord : HashOrder n) (txs : Txs n) : ∀ (uids : List (Fin n)) (st : Dfs n)
    (ancestors table : Fin n → List (Fin n)) (st' : Dfs n), ancestorLoop ord txs uids st ancestors = some (table, st') →
      st.visiting = (fun _ => false) → st.Keeps st' ∧ (st.Explored txs → st'.SelfListed ∨ st'.Explored txs) ∧
        ∀ u, (u ∈ uids → st'.memo u = some (table u)) ∧ (u ∉ uids → table u = ancestors u)
  | [], st, ancestors, table, st', h, _ => by
    simp only [ancestorLoop, Option.some.injEq, Prod.mk.injEq] at h
    obtain ⟨rfl, rfl⟩ := h
    exact ⟨Dfs.Keeps.refl st, Or.inr, fun u => ⟨fun hu => absurd hu List.not_mem_nil, fun _ => rfl⟩⟩
  | uid :: uids, st, ancestors, table, st', h, hv => by
    unfold ancestorLoop at h
    cases hp : buildAncestors ord txs (n + 1) uid st with
    | none => rw [hp] at h; cases h
    | some r =>
      obtain ⟨l, st₁⟩ := r
      rw [hp] at h
      have spec := buildAncestors_explores ord txs (n + 1) uid st l st₁ hp
      obtain ⟨hkeeps, hex, htab⟩ := ancestorLoop_explores ord txs uids st₁ _ table st' h (spec.keeps.visiting.trans hv)
      refine ⟨spec.keeps.trans hkeeps, fun hst => ?_, fun u => ⟨fun hu => ?_, fun hu => ?_⟩⟩
      · rcases spec.explored hst with hself | ⟨hst₁, -⟩
        · exact Or.inl (hkeeps.selfListed hself)
        · exact hex hst₁
      · by_cases hin : u ∈ uids
        · exact (htab u).1 hin
        · obtain rfl : u = uid := (List.mem_cons.1 hu).resolve_right hin
          rw [(htab u).2 hin, Function.update_self]
          refine hkeeps.memo u l (spec.answer.resolve_right (fun hstk => ?_))
          rw [hv] at hstk
          exact absurd hstk.1 Bool.false_ne_true
      · rw [List.mem_cons, not_or] at hu
        rw [(htab u).2 hu.2, Function.update_of_ne hu.1]

/-- **Some uid is among its own listed ancestors exactly when the parent relation is cyclic.** -/
theorem self_listed_iff (ord : HashOrder n) (txs : Txs n) : (∃ u, u ∈ ancestorsOf ord txs u) ↔ ¬ txs.Acyclic := by
  constructor
  · rintro ⟨u, hu⟩ hac
    exact hac u ((ancestorsOf_spec ord txs u).ancestor u hu)
  · intro hcyc
    by_contra hnone
    obtain ⟨p, hp⟩ := Option.isSome_iff_exists.1 (ancestorLoop_isSome ord txs)
    have htable : ancestorsOf ord txs = p.1 := by simp [ancestorsOf, hp]
    have hstart : (Dfs.start n).Explored txs := ⟨fun _ _ h => (by cases h), fun _ _ h => (by cases h)⟩
    obtain ⟨hkeeps, hex, htab⟩ := ancestorLoop_explores ord txs _ _ _ p.1 p.2 hp rfl
    have hmemo : ∀ u, p.2.memo u = some (ancestorsOf ord txs u) := fun u => by
      rw [htable]
      exact (htab u).1 (List.mem_finRange u)
    refine hcyc (fun u hu => ?_)
    rcases hex hstart with ⟨w, l, hl, hw⟩ | hfin
    · rw [hmemo w, Option.some.injEq] at hl
      exact hnone ⟨w, hl ▸ hw⟩
    · rcases hfin.covers u _ (hmemo u) with ⟨g, -, hg⟩ | hall
      · rw [hkeeps.visiting] at hg
        cases hg
      · exact hnone ⟨u, hall u hu⟩

/-! ## What is placed twice -/

/-- **A package counts its own transaction twice exactly when that transaction lists itself.** -/
theorem packageOf_nodup_iff (ord : HashOrder n) (txs : Txs n) {used : Fin n → Bool} {u : Fin n} (hu : used u = false) :
    (packageOf (auditsOf ord txs) used u).Nodup ↔ u ∉ ancestorsOf ord txs u := by
  have hnd : ((auditsOf ord txs u).ancestors.filter (fun a => !used a)).Nodup :=
    (ancestorsOf_spec ord txs u).nodup.filter _
  have hmem : u ∈ (auditsOf ord txs u).ancestors.filter (fun a => !used a) ↔ u ∈ ancestorsOf ord txs u := by
    rw [List.mem_filter, hu]
    exact and_iff_left rfl
  rw [(packageOf_perm u).nodup_iff, List.nodup_cons, hmem]
  exact and_iff_left hnd

variable {lim : Limits} {audits : Fin n → Audit n} {s s' t : Packing n}

theorem placed_grows_step (hstep : packStep audits lim s = some s') : s.placed <+: s'.placed := by
  by_cases h : ∃ leader, s.Adds audits lim leader
  · obtain ⟨leader, hadds⟩ := h
    rw [placed_of_adds hadds hstep]
    exact List.prefix_append _ _
  · rw [placed_of_not_adds (fun leader hadds => h ⟨leader, hadds⟩) hstep]

/-- **What is placed stays placed.** -/
theorem placed_grows (h : Reaches (packStep audits lim) s t) : s.placed <+: t.placed := by
  induction h with
  | refl => exact List.prefix_rfl
  | tail _ hstep ih => exact ih.trans (placed_grows_step hstep)

theorem placed_disjoint_packageOf (ha : s.Accounts audits lim) {u : Fin n} (hu : s.used u = false) :
    s.placed.Disjoint (packageOf audits s.used u) := by
  intro a hplaced hpkg
  have hused := (ha.used_iff a).2 hplaced
  rw [mem_packageOf_unused hu hpkg] at hused
  cases hused

/-- **An added package keeps the placed list free of duplicates exactly when it is free of them itself.** -/
theorem placed_nodup_of_adds (ha : s.Accounts audits lim) (hnd : s.placed.Nodup) {leader : Fin n}
    (hadds : s.Adds audits lim leader) (hstep : packStep audits lim s = some s') :
    s'.placed.Nodup ↔ (packageOf audits s.used leader).Nodup := by
  have hu : s.used leader = false := by
    obtain ⟨-, -, -, -, hu, -⟩ := hadds
    exact hu
  have hdisj := placed_disjoint_packageOf ha hu
  rw [placed_of_adds hadds hstep, List.nodup_append']
  exact ⟨fun h => h.2.1, fun h => ⟨hnd, h, hdisj⟩⟩

theorem placed_nodup_loopHead {ord : HashOrder n} {txs : Txs n}
    (hnone : ∀ s u, LoopHead ord txs lim s → s.Adds (auditsOf ord txs) lim u → u ∉ ancestorsOf ord txs u)
    (hs : LoopHead ord txs lim s) : s.placed.Nodup := by
  induction hs with
  | refl => exact List.nodup_nil
  | @tail a b ha hstep ih =>
    by_cases h : ∃ leader, a.Adds (auditsOf ord txs) lim leader
    · obtain ⟨leader, hadds⟩ := h
      have hu : a.used leader = false := by
        obtain ⟨-, -, -, -, hu, -⟩ := hadds
        exact hu
      rw [placed_nodup_of_adds (accounts_loopHead ha) ih hadds hstep, packageOf_nodup_iff ord txs hu]
      exact hnone a leader ha hadds
    · rwa [placed_of_not_adds (fun leader hadds => h ⟨leader, hadds⟩) hstep]

/-- **The blocks hold each uid once exactly when no added leader lists itself.** -/
theorem blocks_nodup_iff (ord : HashOrder n) (txs : Txs n) (lim : Limits) :
    (projectWith ord txs lim).blocks.flatten.Nodup ↔
      ∀ s u, LoopHead ord txs lim s → s.Adds (auditsOf ord txs) lim u → u ∉ ancestorsOf ord txs u := by
  rw [projectWith_flatten]
  constructor
  · intro hnd s u hs hadds
    obtain ⟨s', hstep⟩ := exists_step_of_adds hadds
    have hs' : LoopHead ord txs lim s' := hs.tail hstep
    have hnd' : s'.placed.Nodup := hnd.sublist (placed_grows (reaches_packed hs')).sublist
    rw [placed_of_adds hadds hstep] at hnd'
    obtain ⟨-, -, -, -, hu, -⟩ := hadds
    exact (packageOf_nodup_iff ord txs hu).1 (List.nodup_append'.1 hnd').2.1
  · exact fun hnone => placed_nodup_loopHead hnone (loopHead_packed ord txs lim)

/-- **Duplicates come from cycles only, and from every cycle**: no uid is placed twice and no package of an unplaced
transaction counts one of its members twice exactly when the parent relation is acyclic; on a cyclic one the blocks still
hold each uid once as long as no uid that lists itself leads an added package. -/
theorem counted_once_iff_acyclic (ord : HashOrder n) (txs : Txs n) (lim : Limits) :
    (((projectWith ord txs lim).blocks.flatten.Nodup ∧
      ∀ s u, LoopHead ord txs lim s → s.used u = false → (packageOf (auditsOf ord txs) s.used u).Nodup) ↔
        txs.Acyclic) ∧
    ((projectWith ord txs lim).blocks.flatten.Nodup ↔
      ∀ s u, LoopHead ord txs lim s → s.Adds (auditsOf ord txs) lim u → u ∉ ancestorsOf ord txs u) := by
  refine ⟨⟨fun ⟨_, hpkg⟩ => ?_, fun hac => ⟨?_, fun s u _ hu => ?_⟩⟩, blocks_nodup_iff ord txs lim⟩
  · by_contra hcyc
    obtain ⟨u, hu⟩ := (self_listed_iff ord txs).2 hcyc
    exact (packageOf_nodup_iff ord txs rfl).1 (hpkg _ u Relation.ReflTransGen.refl rfl) hu
  · refine (blocks_nodup_iff ord txs lim).2 (fun s u _ _ hu => ?_)
    exact hac u ((ancestorsOf_spec ord txs u).ancestor u hu)
  · refine (packageOf_nodup_iff ord txs hu).2 (fun hmem => ?_)
    exact hac u ((ancestorsOf_spec ord txs u).ancestor u hmem)

/-- One transaction that depends on itself. -/
def selfTxs : Txs 1 where
  tx _ := ⟨0, 0, 1000, 400, [0]⟩
  dense := by decide

theorem packed_selfTxs : packed (.ascending 1) selfTxs defaultLimits = packIter (auditsOf (.ascending 1) selfTxs)
    defaultLimits 1 (Packing.start (auditsOf (.ascending 1) selfTxs) defaultLimits) :=
  packLoop_eq_packIter 1 (by decide +kernel)

theorem selfTxs_placed_twice : (projectWith (.ascending 1) selfTxs defaultLimits).blocks = [[0, 0]] ∧
    feeSum (auditsOf (.ascending 1) selfTxs) (packageOf (auditsOf (.ascending 1) selfTxs) (fun _ => false) 0) = 2000 := by
  rw [projectWith_eq, packed_selfTxs]
  decide +kernel

end Gbt
end Satya
