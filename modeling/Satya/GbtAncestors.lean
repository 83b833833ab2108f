import Satya.GbtInput
/-!
# GbtAncestors — the memoised ancestor closure (`build_ancestors`)

`buildAncestors` is the recursion of the source over the shared `memo` and `visiting` vectors; its fuel bounds the
recursion depth, and running out is `none`.  A depth of `n + 1` is never exceeded (`buildAncestors_spec`): every nested
call marks one more uid as being visited.  What the lists hold: only true ancestors, without repetition, on every
parent relation; all of them when the relation is acyclic.

A `HashSet` is a `Finset`; the order in which one is drained into a `Vec` is arbitrary and may differ from one set to
the next (`HashOrder`).
-/
namespace Satya
namespace Gbt

variable {n : ℕ}

/-- The order in which the set collected for each uid is drained. -/
structure HashOrder (n : ℕ) where
  toList : Fin n → Finset (Fin n) → List (Fin n)
  nodup : ∀ u s, (toList u s).Nodup
  mem_iff : ∀ u s x, x ∈ toList u s ↔ x ∈ s

def HashOrder.ascending (n : ℕ) : HashOrder n where
  toList _ s := (List.finRange n).filter (· ∈ s)
  nodup _ _ := (List.nodup_finRange n).filter _
  mem_iff _ s x := by simp

/-- The two vectors every call shares. -/
structure Dfs (n : ℕ) where
  memo : Fin n → Option (List (Fin n))
  visiting : Fin n → Bool

def Dfs.start (n : ℕ) : Dfs n := ⟨fun _ => none, fun _ => false⟩

/-- The `for &p in &txs[uid].parents` loop, over what a nested call computes. -/
def parentLoop (call : Fin n → Dfs n → Option (List (Fin n) × Dfs n)) :
    List (Fin n) → Finset (Fin n) → Dfs n → Option (Finset (Fin n) × Dfs n)
  | [], set, st => some (set, st)
  | p :: ps, set, st =>
    match call p st with
    | none => none
    | some (as, st) => parentLoop call ps (as.foldl (fun s a => insert a s) (insert p set)) st

def buildAncestors (ord : HashOrder n) (txs : Txs n) : ℕ → Fin n → Dfs n → Option (List (Fin n) × Dfs n)
  | 0, _, _ => none
  | fuel + 1, uid, st =>
    match st.memo uid with
    | some a => some (a, st)
    | none =>
      -- a back-edge onto the recursion stack is treated as absent
      if st.visiting uid then some ([], st)
      else
        let st := { st with visiting := Function.update st.visiting uid true }
        match parentLoop (buildAncestors ord txs fuel) (txs.tx uid).parents ∅ st with
        | none => none
        | some (set, st) =>
          let v := ord.toList uid set
          some (v, ⟨Function.update st.memo uid (some v), Function.update st.visiting uid false⟩)

/-- The `for uid in 0..n` loop that fills `audits[uid].ancestors`. -/
def ancestorLoop (ord : HashOrder n) (txs : Txs n) :
    List (Fin n) → Dfs n → (Fin n → List (Fin n)) → Option ((Fin n → List (Fin n)) × Dfs n)
  | [], st, ancestors => some (ancestors, st)
  | uid :: uids, st, ancestors =>
    match buildAncestors ord txs (n + 1) uid st with
    | none => none
    | some (anc, st) => ancestorLoop ord txs uids st (Function.update ancestors uid anc)

/-! ## What a call keeps and answers -/

/-- Every memoised list is free of repetition and holds ancestors only. -/
def Dfs.Sound (txs : Txs n) (st : Dfs n) : Prop :=
  ∀ u l, st.memo u = some l → l.Nodup ∧ ∀ a ∈ l, txs.Ancestor u a

def Dfs.Complete (txs : Txs n) (st : Dfs n) : Prop :=
  ∀ u l, st.memo u = some l → ∀ a, txs.Ancestor u a → a ∈ l

theorem Dfs.sound_start (txs : Txs n) : (Dfs.start n).Sound txs := fun _ _ h => by cases h

theorem Dfs.complete_start (txs : Txs n) : (Dfs.start n).Complete txs := fun _ _ h => by cases h

/-- The vectors with `uid` on the stack. -/
def Dfs.enter (st : Dfs n) (uid : Fin n) : Dfs n := { st with visiting := Function.update st.visiting uid true }

/-- The vectors after `uid` has left the stack with its list `v`. -/
def Dfs.record (st : Dfs n) (uid : Fin n) (v : List (Fin n)) : Dfs n :=
  ⟨Function.update st.memo uid (some v), Function.update st.visiting uid false⟩

theorem Dfs.memo_record {st : Dfs n} {uid u : Fin n} {v l : List (Fin n)} (h : (st.record uid v).memo u = some l) :
    (u = uid ∧ l = v) ∨ (u ≠ uid ∧ st.memo u = some l) := by
  rw [Dfs.record] at h
  dsimp only at h
  by_cases hu : u = uid
  · subst hu
    rw [Function.update_self, Option.some.injEq] at h
    exact Or.inl ⟨rfl, h.symm⟩
  · rw [Function.update_of_ne hu] at h
    exact Or.inr ⟨hu, h⟩

/-- How many uids are not on the recursion stack. -/
def Dfs.idle (st : Dfs n) : ℕ := (Finset.univ.filter (fun u => st.visiting u = false)).card

theorem Dfs.idle_enter (st : Dfs n) (uid : Fin n) (h : st.visiting uid = false) :
    (st.enter uid).idle + 1 = st.idle := by
  have hsplit : Finset.univ.filter (fun u => st.visiting u = false) =
      insert uid (Finset.univ.filter (fun u => Function.update st.visiting uid true u = false)) := by
    ext u
    by_cases hu : u = uid
    · subst hu; simp [h]
    · simp [hu]
  rw [Dfs.idle, Dfs.idle, Dfs.enter, hsplit, Finset.card_insert_of_notMem (by simp)]

theorem idle_of_unvisited {st : Dfs n} (h : st.visiting = (fun _ => false)) : st.idle < n + 1 := by
  have : st.idle = n := by simp [Dfs.idle, h]
  omega

theorem mem_foldl_insert {α : Type*} [DecidableEq α] : ∀ (l : List α) (s : Finset α) (x : α),
    x ∈ l.foldl (fun s a => insert a s) s ↔ x ∈ l ∨ x ∈ s
  | [], s, x => by simp
  | a :: l, s, x => by
    rw [List.foldl_cons, mem_foldl_insert l, Finset.mem_insert, List.mem_cons]
    tauto

/-- The loop's set after the answer `l` for `p`. -/
theorem mem_insertAnswer {p a : Fin n} {l : List (Fin n)} {set : Finset (Fin n)} :
    a ∈ l.foldl (fun s a => insert a s) (insert p set) ↔ a ∈ l ∨ a = p ∨ a ∈ set := by
  rw [mem_foldl_insert, Finset.mem_insert]

/-- What one call answers for `uid`, from vectors `st` to vectors `st'`. -/
structure CallSpec (txs : Txs n) (uid : Fin n) (st : Dfs n) (l : List (Fin n)) (st' : Dfs n) : Prop where
  visiting : st'.visiting = st.visiting
  sound : st'.Sound txs
  nodup : l.Nodup
  ancestor : ∀ a ∈ l, txs.Ancestor uid a
  complete : txs.Acyclic → st.Complete txs → (∀ v, st.visiting v = true → txs.Ancestor v uid) →
    st'.Complete txs ∧ ∀ a, txs.Ancestor uid a → a ∈ l

/-- **The parent loop**, once every nested call meets its specification. -/
theorem parentLoop_spec (txs : Txs n) (uid : Fin n) (call : Fin n → Dfs n → Option (List (Fin n) × Dfs n)) (k : ℕ)
    (hcall : ∀ p st, st.idle < k → st.Sound txs → ∃ l st', call p st = some (l, st') ∧ CallSpec txs p st l st') :
    ∀ (ps : List (Fin n)) (set : Finset (Fin n)) (st : Dfs n), st.idle < k → st.Sound txs →
      ∃ set' st', parentLoop call ps set st = some (set', st') ∧ st'.visiting = st.visiting ∧ st'.Sound txs ∧
        (∀ a ∈ set', a ∈ set ∨ ∃ p ∈ ps, a = p ∨ txs.Ancestor p a) ∧
        (txs.Acyclic → st.Complete txs → (∀ p ∈ ps, ∀ v, st.visiting v = true → txs.Ancestor v p) →
          st'.Complete txs ∧ ∀ a, a ∈ set ∨ (∃ p ∈ ps, a = p ∨ txs.Ancestor p a) → a ∈ set')
  | [], set, st, _, hs => ⟨set, st, rfl, rfl, hs, fun a ha => Or.inl ha, fun _ hc _ => ⟨hc, fun a ha => by
      rcases ha with ha | ⟨p, hp, -⟩
      · exact ha
      · cases hp⟩⟩
  | p :: ps, set, st, hk, hs => by
    obtain ⟨l, st₁, hl, spec⟩ := hcall p st hk hs
    have hk₁ : st₁.idle < k := by rwa [Dfs.idle, spec.visiting, ← Dfs.idle]
    obtain ⟨set', st', hr, hv, hs', hsub, hsup⟩ := parentLoop_spec txs uid call k hcall ps
      (l.foldl (fun s a => insert a s) (insert p set)) st₁ hk₁ spec.sound
    refine ⟨set', st', by simp only [parentLoop, hl, hr], hv.trans spec.visiting, hs', fun a ha => ?_, ?_⟩
    · rcases hsub a ha with ha | ⟨q, hq, hqa⟩
      · rcases mem_insertAnswer.1 ha with ha | rfl | ha
        · exact Or.inr ⟨p, List.mem_cons_self, Or.inr (spec.ancestor a ha)⟩
        · exact Or.inr ⟨a, List.mem_cons_self, Or.inl rfl⟩
        · exact Or.inl ha
      · exact Or.inr ⟨q, List.mem_cons_of_mem _ hq, hqa⟩
    · intro hac hc hstk
      obtain ⟨hc₁, hall⟩ := spec.complete hac hc (hstk p List.mem_cons_self)
      obtain ⟨hc', hin⟩ := hsup hac hc₁ (fun q hq v hqv =>
        hstk q (List.mem_cons_of_mem _ hq) v (by rwa [spec.visiting] at hqv))
      refine ⟨hc', fun a ha => hin a ?_⟩
      rw [mem_insertAnswer]
      rcases ha with ha | ⟨q, hq, hqa⟩
      · exact Or.inl (Or.inr (Or.inr ha))
      · rcases List.mem_cons.1 hq with rfl | hq
        · rcases hqa with rfl | hqa
          · exact Or.inl (Or.inr (Or.inl rfl))
          · exact Or.inl (Or.inl (hall a hqa))
        · exact Or.inr ⟨q, hq, hqa⟩

/-- **One call, from any vectors**: with more fuel than idle uids it answers, restores the flags, and its list is sound;
on an acyclic relation, called below its descendants only, the list is the whole ancestor set. -/
theorem buildAncestors_spec (ord : HashOrder n) (txs : Txs n) : ∀ (fuel : ℕ) (uid : Fin n) (st : Dfs n),
    st.idle < fuel → st.Sound txs → ∃ l st', buildAncestors ord txs fuel uid st = some (l, st') ∧
      CallSpec txs uid st l st'
  | 0, _, _, h, _ => absurd h (Nat.not_lt_zero _)
  | fuel + 1, uid, st, hf, hs => by
    unfold buildAncestors
    cases hm : st.memo uid with
    | some a =>
      exact ⟨a, st, rfl, rfl, hs, (hs uid a hm).1, (hs uid a hm).2, fun _ hc _ => ⟨hc, hc uid a hm⟩⟩
    | none =>
      cases hv : st.visiting uid with
      | true =>
        refine ⟨[], st, by simp, rfl, hs, List.nodup_nil, fun a ha => absurd ha List.not_mem_nil, fun hac hc hstk => ?_⟩
        -- on an acyclic relation the stack never meets itself
        exact absurd (hstk uid hv) (hac uid)
      | false =>
        have hidle := st.idle_enter uid hv
        obtain ⟨set, st₁, hr, hv₁, hs₁, hsub, hsup⟩ := parentLoop_spec txs uid (buildAncestors ord txs fuel) fuel
          (buildAncestors_spec ord txs fuel) (txs.tx uid).parents ∅ (st.enter uid) (by omega) hs
        have hanc : ∀ a ∈ ord.toList uid set, txs.Ancestor uid a := by
          intro a ha
          rcases hsub a ((ord.mem_iff uid set a).1 ha) with ha | ⟨p, hp, hpa⟩
          · simp at ha
          · exact Txs.ancestor_iff.2 ⟨p, hp, hpa⟩
        refine ⟨ord.toList uid set, st₁.record uid (ord.toList uid set), ?_, ?_, ?_, ord.nodup uid set, hanc, ?_⟩
        · rw [Dfs.enter] at hr
          simp only [Bool.false_eq_true, if_false, hr]
          rfl
        · show Function.update st₁.visiting uid false = st.visiting
          rw [hv₁, Dfs.enter, Function.update_idem, ← hv, Function.update_eq_self]
        · intro u l hl
          rcases Dfs.memo_record hl with ⟨rfl, rfl⟩ | ⟨-, hl⟩
          · exact ⟨ord.nodup u set, hanc⟩
          · exact hs₁ u l hl
        · intro hac hc hstk
          have hstk' : ∀ p ∈ (txs.tx uid).parents, ∀ v, Function.update st.visiting uid true v = true →
              txs.Ancestor v p := by
            intro p hp v hvv
            have hup : txs.Ancestor uid p := Txs.Parent.ancestor hp
            by_cases hu : v = uid
            · exact hu ▸ hup
            · exact (hstk v (by simpa [hu] using hvv)).trans hup
          obtain ⟨hc₁, hin⟩ := hsup hac hc hstk'
          have hall : ∀ a, txs.Ancestor uid a → a ∈ ord.toList uid set := fun a ha =>
            (ord.mem_iff uid set a).2 (hin a (Or.inr (Txs.ancestor_iff.1 ha)))
          refine ⟨fun u l hl => ?_, hall⟩
          rcases Dfs.memo_record hl with ⟨rfl, rfl⟩ | ⟨-, hl⟩
          · exact hall
          · exact hc₁ u l hl

/-! ## Fuel -/

theorem parentLoop_mono {call call' : Fin n → Dfs n → Option (List (Fin n) × Dfs n)}
    (h : ∀ p st r, call p st = some r → call' p st = some r) : ∀ (ps : List (Fin n)) (set : Finset (Fin n)) (st : Dfs n)
    (r : Finset (Fin n) × Dfs n), parentLoop call ps set st = some r → parentLoop call' ps set st = some r
  | [], _, _, _, hr => hr
  | p :: ps, set, st, r, hr => by
    unfold parentLoop at hr ⊢
    cases hp : call p st with
    | none => rw [hp] at hr; cases hr
    | some q =>
      rw [hp] at hr
      rw [h p st q hp]
      exact parentLoop_mono h ps _ q.2 r hr

/-- **An answer does not depend on the fuel.** -/
theorem buildAncestors_mono (ord : HashOrder n) (txs : Txs n) : ∀ (fuel fuel' : ℕ) (uid : Fin n) (st : Dfs n)
    (r : List (Fin n) × Dfs n), fuel ≤ fuel' → buildAncestors ord txs fuel uid st = some r →
      buildAncestors ord txs fuel' uid st = some r
  | 0, _, _, _, _, _, h => by cases h
  | fuel + 1, 0, _, _, _, hle, _ => absurd hle (Nat.not_succ_le_zero fuel)
  | fuel + 1, fuel' + 1, uid, st, r, hle, h => by
    unfold buildAncestors at h ⊢
    cases hm : st.memo uid with
    | some a => rw [hm] at h; exact h
    | none =>
      rw [hm] at h
      cases hv : st.visiting uid with
      | true => rw [hv] at h; exact h
      | false =>
        simp only [hv, Bool.false_eq_true, if_false] at h ⊢
        cases hp : parentLoop (buildAncestors ord txs fuel) (txs.tx uid).parents ∅
            { st with visiting := Function.update st.visiting uid true } with
        | none => rw [hp] at h; cases h
        | some p =>
          rw [hp] at h
          rw [parentLoop_mono (fun p st r => buildAncestors_mono ord txs fuel fuel' p st r (Nat.le_of_succ_le_succ hle))
            _ _ _ p hp]
          exact h

/-! ## The outer loop -/

structure AncestorSpec (txs : Txs n) (uid : Fin n) (l : List (Fin n)) : Prop where
  nodup : l.Nodup
  ancestor : ∀ a ∈ l, txs.Ancestor uid a
  complete : txs.Acyclic → ∀ a, txs.Ancestor uid a → a ∈ l

/-- **The outer loop** leaves no flag set and fills every visited uid's list. -/
theorem ancestorLoop_spec (ord : HashOrder n) (txs : Txs n) : ∀ (uids : List (Fin n)) (st : Dfs n)
    (ancestors : Fin n → List (Fin n)), st.visiting = (fun _ => false) → st.Sound txs →
      (txs.Acyclic → st.Complete txs) →
      ∃ table st', ancestorLoop ord txs uids st ancestors = some (table, st') ∧ st'.visiting = (fun _ => false) ∧
        st'.Sound txs ∧ (txs.Acyclic → st'.Complete txs) ∧
        ∀ u, (u ∈ uids → AncestorSpec txs u (table u)) ∧ (u ∉ uids → table u = ancestors u)
  | [], st, ancestors, hv, hs, hc =>
    ⟨ancestors, st, rfl, hv, hs, hc, fun u => ⟨fun h => absurd h List.not_mem_nil, fun _ => rfl⟩⟩
  | uid :: uids, st, ancestors, hv, hs, hc => by
    obtain ⟨l, st₁, hl, spec⟩ := buildAncestors_spec ord txs (n + 1) uid st (idle_of_unvisited hv) hs
    have hstk : ∀ v, st.visiting v = true → txs.Ancestor v uid := fun v hvv => by rw [hv] at hvv; cases hvv
    have hspec : AncestorSpec txs uid l :=
      ⟨spec.nodup, spec.ancestor, fun hac => (spec.complete hac (hc hac) hstk).2⟩
    obtain ⟨table, st', hr, hv', hs', hc', htab⟩ := ancestorLoop_spec ord txs uids st₁ (Function.update ancestors uid l)
      (spec.visiting.trans hv) spec.sound (fun hac => (spec.complete hac (hc hac) hstk).1)
    refine ⟨table, st', by simp only [ancestorLoop, hl, hr], hv', hs', hc', fun u => ⟨fun hu => ?_, fun hu => ?_⟩⟩
    · by_cases hin : u ∈ uids
      · exact (htab u).1 hin
      · have hu : u = uid := (List.mem_cons.1 hu).resolve_right hin
        subst hu
        rw [(htab u).2 hin, Function.update_self]
        exact hspec
    · rw [List.mem_cons, not_or] at hu
      rw [(htab u).2 hu.2, Function.update_of_ne hu.1]

theorem ancestorLoop_isSome (ord : HashOrder n) (txs : Txs n) :
    (ancestorLoop ord txs (List.finRange n) (Dfs.start n) (fun _ => [])).isSome = true := by
  obtain ⟨table, st', h, -⟩ := ancestorLoop_spec ord txs (List.finRange n) (Dfs.start n) (fun _ => []) rfl
    (Dfs.sound_start txs) (fun _ => Dfs.complete_start txs)
  rw [h]; rfl

def ancestorsOf (ord : HashOrder n) (txs : Txs n) : Fin n → List (Fin n) :=
  ((ancestorLoop ord txs (List.finRange n) (Dfs.start n) (fun _ => [])).get (ancestorLoop_isSome ord txs)).1

theorem ancestorsOf_spec (ord : HashOrder n) (txs : Txs n) (u : Fin n) : AncestorSpec txs u (ancestorsOf ord txs u) := by
  obtain ⟨table, st', h, -, -, -, htab⟩ := ancestorLoop_spec ord txs (List.finRange n) (Dfs.start n) (fun _ => []) rfl
    (Dfs.sound_start txs) (fun _ => Dfs.complete_start txs)
  have : ancestorsOf ord txs = table := by simp [ancestorsOf, h]
  rw [this]
  exact (htab u).1 (List.mem_finRange u)

theorem ancestorLoop_concat {ord : HashOrder n} {txs : Txs n} {uid : Fin n} : ∀ {uids : List (Fin n)} {st st₁ st₂ : Dfs n}
    {ancestors table : Fin n → List (Fin n)} {l : List (Fin n)},
    ancestorLoop ord txs uids st ancestors = some (table, st₁) → buildAncestors ord txs (n + 1) uid st₁ = some (l, st₂) →
      ancestorLoop ord txs (uids ++ [uid]) st ancestors = some (Function.update table uid l, st₂)
  | [], st, st₁, st₂, ancestors, table, l, h, hcall => by
    simp only [ancestorLoop, Option.some.injEq, Prod.mk.injEq] at h
    obtain ⟨rfl, rfl⟩ := h
    simp [ancestorLoop, hcall]
  | v :: uids, st, st₁, st₂, ancestors, table, l, h, hcall => by
    rw [List.cons_append, ancestorLoop]
    rw [ancestorLoop] at h
    cases hv : buildAncestors ord txs (n + 1) v st with
    | none => rw [hv] at h; cases h
    | some p =>
      rw [hv] at h
      exact ancestorLoop_concat h hcall

/-- **The closure is exact on an acyclic relation**: after the calls for the uids before it, the call for each uid leaves
no flag set and answers the set of its ancestors, each once and never the uid itself. -/
theorem ancestor_closure_exact (ord : HashOrder n) (txs : Txs n) (hac : txs.Acyclic) :
    (∀ pre uid post, List.finRange n = pre ++ uid :: post → ∃ table st l st',
      ancestorLoop ord txs pre (Dfs.start n) (fun _ => []) = some (table, st) ∧
      buildAncestors ord txs (n + 1) uid st = some (l, st') ∧
      ancestorLoop ord txs (pre ++ [uid]) (Dfs.start n) (fun _ => []) = some (Function.update table uid l, st') ∧
      st'.visiting = (fun _ => false) ∧ l.Nodup ∧ uid ∉ l ∧ ∀ a, a ∈ l ↔ txs.Ancestor uid a) ∧
    ∀ uid, (ancestorsOf ord txs uid).Nodup ∧ uid ∉ ancestorsOf ord txs uid ∧
      ∀ a, a ∈ ancestorsOf ord txs uid ↔ txs.Ancestor uid a := by
  refine ⟨fun pre uid post _ => ?_, fun uid => ?_⟩
  · obtain ⟨table, st, hloop, hv, hs, hc, -⟩ := ancestorLoop_spec ord txs pre (Dfs.start n) (fun _ => []) rfl
      (Dfs.sound_start txs) (fun _ => Dfs.complete_start txs)
    obtain ⟨l, st', hcall, spec⟩ := buildAncestors_spec ord txs (n + 1) uid st (idle_of_unvisited hv) hs
    have hstk : ∀ v, st.visiting v = true → txs.Ancestor v uid := fun v hvv => by rw [hv] at hvv; cases hvv
    have hall := (spec.complete hac (hc hac) hstk).2
    exact ⟨table, st, l, st', hloop, hcall, ancestorLoop_concat hloop hcall, spec.visiting.trans hv, spec.nodup,
      fun hm => hac uid (spec.ancestor uid hm), fun a => ⟨spec.ancestor a, hall a⟩⟩
  · have spec := ancestorsOf_spec ord txs uid
    exact ⟨spec.nodup, fun hm => hac uid (spec.ancestor uid hm), fun a => ⟨spec.ancestor a, spec.complete hac a⟩⟩

/-- A diamond, whose last transaction lists a parent twice, and a lone transaction. -/
def diamondTxs : Txs 5 where
  tx
    | 0 => ⟨0, 0, 100, 400, []⟩
    | 1 => ⟨1, 1, 100, 400, [0]⟩
    | 2 => ⟨2, 2, 100, 400, [0]⟩
    | 3 => ⟨3, 3, 100, 400, [1, 2, 1]⟩
    | 4 => ⟨4, 4, 100, 400, []⟩
  dense := by decide

theorem ancestor_closure_exact_diamondTxs : 3 ∉ ancestorsOf (.ascending 5) diamondTxs 3 ∧
    ∀ a, a ∈ ancestorsOf (.ascending 5) diamondTxs 3 ↔ diamondTxs.Ancestor 3 a :=
  ((ancestor_closure_exact (.ascending 5) diamondTxs (Txs.acyclic_of_rank Fin.val (by decide))).2 3).2

end Gbt
end Satya
