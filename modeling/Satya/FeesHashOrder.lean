import Satya.GbtBlocks
import Satya.Mempool
/-!
# FeesHashOrder — the estimate does not depend on hash iteration order

Two runs that drain their hash sets in different orders are compared.  The memoised closures agree up to a permutation,
on every parent relation (`buildAncestors_perm`); audits that agree up to a permutation of their ancestors give the same
scores, packages and iterations (`AuditsPerm.packStep_eq`), because a package is sorted by a total order and sums do not
see one.  The rows of a snapshot are sorted by txid, which no two of them share (`snapshotRows_eq`).
-/
namespace Satya
namespace Gbt

open StateTransition (Reaches)

variable {n : ℕ} {ord ord' : HashOrder n} {txs : Txs n} {lim : Limits}

/-! ## The ancestor closure -/

/-- The same flags, and the same memoised sets. -/
structure Dfs.Perm (st st' : Dfs n) : Prop where
  visiting : st.visiting = st'.visiting
  memo : ∀ u, Option.Rel List.Perm (st.memo u) (st'.memo u)

/-- The answers of two calls: the same list up to order, from vectors that agree to vectors that agree. -/
def CallPerm (r r' : Option (List (Fin n) × Dfs n)) : Prop :=
  Option.Rel (fun p p' => p.1.Perm p'.1 ∧ p.2.Perm p'.2) r r'

theorem foldl_insert_perm {l l' : List (Fin n)} (h : l.Perm l') (s : Finset (Fin n)) :
    l.foldl (fun s a => insert a s) s = l'.foldl (fun s a => insert a s) s := by
  ext x
  rw [mem_foldl_insert, mem_foldl_insert, h.mem_iff]

theorem HashOrder.toList_perm (ord ord' : HashOrder n) (u : Fin n) (s : Finset (Fin n)) :
    (ord.toList u s).Perm (ord'.toList u s) := by
  rw [List.perm_ext_iff_of_nodup (ord.nodup u s) (ord'.nodup u s)]
  intro x
  rw [ord.mem_iff, ord'.mem_iff]

theorem parentLoop_perm {call call' : Fin n → Dfs n → Option (List (Fin n) × Dfs n)}
    (hcall : ∀ p st st', st.Perm st' → CallPerm (call p st) (call' p st')) :
    ∀ (ps : List (Fin n)) (set : Finset (Fin n)) (st st' : Dfs n), st.Perm st' →
      Option.Rel (fun r r' => r.1 = r'.1 ∧ r.2.Perm r'.2) (parentLoop call ps set st) (parentLoop call' ps set st')
  | [], _, _, _, h => Option.Rel.some ⟨rfl, h⟩
  | p :: ps, set, st, st', h => by
    have hp := hcall p st st' h
    unfold parentLoop
    generalize call p st = r at hp ⊢
    generalize call' p st' = r' at hp ⊢
    cases hp with
    | none => exact Option.Rel.none
    | @some q q' hrel =>
      dsimp only
      rw [foldl_insert_perm hrel.1]
      exact parentLoop_perm hcall ps _ q.2 q'.2 hrel.2

theorem Dfs.Perm.record {st st' : Dfs n} (h : st.Perm st') (uid : Fin n) {v v' : List (Fin n)} (hv : v.Perm v') :
    (st.record uid v).Perm (st'.record uid v') := by
  unfold Dfs.record
  refine ⟨by rw [h.visiting], fun u => ?_⟩
  by_cases hu : u = uid
  · subst hu
    simp only [Function.update_self]
    exact Option.Rel.some hv
  · simp only [Function.update_of_ne hu]
    exact h.memo u

/-- **One call, under two orders**, from vectors that agree. -/
theorem buildAncestors_perm (ord ord' : HashOrder n) (txs : Txs n) : ∀ (fuel : ℕ) (uid : Fin n) (st st' : Dfs n),
    st.Perm st' → CallPerm (buildAncestors ord txs fuel uid st) (buildAncestors ord' txs fuel uid st')
  | 0, _, _, _, _ => Option.Rel.none
  | fuel + 1, uid, st, st', h => by
    have hmemo := h.memo uid
    unfold buildAncestors
    generalize st.memo uid = m at hmemo ⊢
    generalize st'.memo uid = m' at hmemo ⊢
    cases hmemo with
    | some hperm => exact Option.Rel.some ⟨hperm, h⟩
    | none =>
      dsimp only
      rw [← h.visiting]
      split
      · exact Option.Rel.some ⟨List.Perm.nil, h⟩
      · have hloop := parentLoop_perm (buildAncestors_perm ord ord' txs fuel) (txs.tx uid).parents ∅
          { st with visiting := Function.update st.visiting uid true }
          { st' with visiting := Function.update st.visiting uid true } ⟨rfl, h.memo⟩
        generalize parentLoop (buildAncestors ord txs fuel) (txs.tx uid).parents ∅
          { st with visiting := Function.update st.visiting uid true } = r at hloop ⊢
        generalize parentLoop (buildAncestors ord' txs fuel) (txs.tx uid).parents ∅
          { st' with visiting := Function.update st.visiting uid true } = r' at hloop ⊢
        cases hloop with
        | none => exact Option.Rel.none
        | @some p p' hrel =>
          obtain ⟨set, st₁⟩ := p
          obtain ⟨set', st₁'⟩ := p'
          obtain ⟨hset, hst⟩ := hrel
          cases hset
          exact Option.Rel.some ⟨ord.toList_perm ord' uid set, hst.record uid (ord.toList_perm ord' uid set)⟩

theorem ancestorLoop_perm (ord ord' : HashOrder n) (txs : Txs n) : ∀ (uids : List (Fin n)) (st st' : Dfs n)
    (table table' : Fin n → List (Fin n)), st.Perm st' → (∀ u, (table u).Perm (table' u)) →
      Option.Rel (fun r r' => ∀ u, (r.1 u).Perm (r'.1 u)) (ancestorLoop ord txs uids st table)
        (ancestorLoop ord' txs uids st' table')
  | [], _, _, _, _, _, ht => Option.Rel.some ht
  | uid :: uids, st, st', table, table', h, ht => by
    have hcall := buildAncestors_perm ord ord' txs (n + 1) uid st st' h
    unfold ancestorLoop
    generalize buildAncestors ord txs (n + 1) uid st = r at hcall ⊢
    generalize buildAncestors ord' txs (n + 1) uid st' = r' at hcall ⊢
    cases hcall with
    | none => exact Option.Rel.none
    | @some p p' hrel =>
      refine ancestorLoop_perm ord ord' txs uids p.2 p'.2 _ _ hrel.2 (fun u => ?_)
      by_cases hu : u = uid
      · subst hu
        simp only [Function.update_self]
        exact hrel.1
      · simp only [Function.update_of_ne hu]
        exact ht u

/-- **The `ancestors` column is the same set of uids under every order**, for cyclic relations too. -/
theorem ancestorsOf_perm (ord ord' : HashOrder n) (txs : Txs n) (u : Fin n) :
    (ancestorsOf ord txs u).Perm (ancestorsOf ord' txs u) := by
  have hstart : (Dfs.start n).Perm (Dfs.start n) := ⟨rfl, fun _ => Option.Rel.none⟩
  have h := ancestorLoop_perm ord ord' txs (List.finRange n) (Dfs.start n) (Dfs.start n) (fun _ => []) (fun _ => [])
    hstart (fun _ => List.Perm.nil)
  obtain ⟨p, hp⟩ := Option.isSome_iff_exists.1 (ancestorLoop_isSome ord txs)
  obtain ⟨p', hp'⟩ := Option.isSome_iff_exists.1 (ancestorLoop_isSome ord' txs)
  have htable : ancestorsOf ord txs = p.1 := by simp [ancestorsOf, hp]
  have htable' : ancestorsOf ord' txs = p'.1 := by simp [ancestorsOf, hp']
  rw [hp, hp'] at h
  rw [htable, htable']
  cases h with
  | some hrel => exact hrel u

/-! ## Audits that agree up to the order of the ancestors -/

structure AuditsPerm (audits audits' : Fin n → Audit n) : Prop where
  order : ∀ u, (audits u).order = (audits' u).order
  fee : ∀ u, (audits u).fee = (audits' u).fee
  weight : ∀ u, (audits u).weight = (audits' u).weight
  children : ∀ u, (audits u).children = (audits' u).children
  ancestors : ∀ u, (audits u).ancestors.Perm (audits' u).ancestors

theorem auditsOf_perm (ord ord' : HashOrder n) (txs : Txs n) : AuditsPerm (auditsOf ord txs) (auditsOf ord' txs) :=
  ⟨fun _ => rfl, fun _ => rfl, fun _ => rfl, fun _ => rfl, ancestorsOf_perm ord ord' txs⟩

namespace AuditsPerm

variable {audits audits' : Fin n → Audit n}

theorem symm (h : AuditsPerm audits audits') : AuditsPerm audits' audits :=
  ⟨fun u => (h.order u).symm, fun u => (h.fee u).symm, fun u => (h.weight u).symm, fun u => (h.children u).symm,
    fun u => (h.ancestors u).symm⟩

theorem weightSum_eq (h : AuditsPerm audits audits') : weightSum audits = weightSum audits' := by
  funext l
  simp only [weightSum, h.weight]

theorem feeSum_eq (h : AuditsPerm audits audits') : feeSum audits = feeSum audits' := by
  funext l
  simp only [feeSum, h.fee]

theorem pkgLe_eq (h : AuditsPerm audits audits') : pkgLe audits = pkgLe audits' := by
  funext a b
  simp only [pkgLe, (h.ancestors _).length_eq, h.order]

theorem pkgLe_antisymm (audits : Fin n → Audit n) {a b : Fin n} (h : pkgLe audits a b) (h' : pkgLe audits b a) :
    a = b := by
  unfold pkgLe at h h'
  omega

/-- **A package is the same list**: it is sorted by a total order. -/
theorem packageOf_eq (h : AuditsPerm audits audits') : packageOf audits = packageOf audits' := by
  funext used u
  have hperm : ((audits u).ancestors.filter (fun a => !used a)).Perm
      ((audits' u).ancestors.filter (fun a => !used a)) := (h.ancestors u).filter _
  have hsorted : (((audits u).ancestors.filter (fun a => !used a)).insertionSort (pkgLe audits)).Pairwise
      (pkgLe audits') :=
    (List.pairwise_insertionSort (pkgLe audits) _).imp (fun {a b} hab => h.pkgLe_eq ▸ hab)
  have hmerged : (((audits u).ancestors.filter (fun a => !used a)).insertionSort (pkgLe audits)).Perm
      (((audits' u).ancestors.filter (fun a => !used a)).insertionSort (pkgLe audits')) :=
    (List.perm_insertionSort _ _).trans (hperm.trans (List.perm_insertionSort _ _).symm)
  unfold packageOf
  rw [List.Perm.eq_of_pairwise (fun a b _ _ hab hba => pkgLe_antisymm audits' hab hba) hsorted
    (List.pairwise_insertionSort (pkgLe audits') _) hmerged]

theorem scoreOf_eq (h : AuditsPerm audits audits') : scoreOf audits = scoreOf audits' := by
  funext used u
  rw [Gbt.scoreOf_eq, Gbt.scoreOf_eq, h.packageOf_eq, h.feeSum_eq, h.weightSum_eq, h.fee, h.weight]

theorem freshItem_eq (h : AuditsPerm audits audits') : freshItem audits = freshItem audits' := by
  funext used u
  rw [freshItem, freshItem, h.scoreOf_eq, h.order]

theorem take_eq (h : AuditsPerm audits audits') (s : Packing n) (pkg : List (Fin n)) :
    s.take audits pkg = s.take audits' pkg := by
  have hplace : ∀ r, s.place audits r pkg = s.place audits' r pkg := by
    intro r
    simp only [place_eq, h.weightSum_eq]
  have hchildren : (fun d => (audits d).children) = fun d => (audits' d).children := funext h.children
  unfold Packing.take refreshDescendants
  rw [hplace, h.feeSum_eq, h.weightSum_eq, hchildren, h.freshItem_eq]

theorem finalize_eq (h : AuditsPerm audits audits') (s : Packing n) : s.finalize audits lim = s.finalize audits' lim := by
  unfold Packing.finalize Packing.close
  rw [h.freshItem_eq]

theorem stale_iff (h : AuditsPerm audits audits') {item : HeapItem n} {used : Fin n → Bool} :
    item.stale audits used ↔ item.stale audits' used := by
  unfold HeapItem.stale
  rw [h.scoreOf_eq]

theorem turn (h : AuditsPerm audits audits') {s t : Packing n} {item : HeapItem n} {rest : MaxHeap (HeapItem n)}
    (ht : Turn audits lim s item rest t) : Turn audits' lim s item rest t := by
  cases ht with
  | discard hu => exact Turn.discard hu
  | requeue hu hst =>
    rw [h.freshItem_eq]
    exact Turn.requeue hu (h.stale_iff.1 hst)
  | hold hu hst hm =>
    rw [h.packageOf_eq, h.weightSum_eq] at hm
    rw [h.finalize_eq]
    exact Turn.hold hu (fun hs => hst (h.stale_iff.2 hs)) hm
  | take hu hst hm =>
    rw [h.packageOf_eq, h.weightSum_eq] at hm
    rw [h.finalize_eq, h.take_eq, h.packageOf_eq]
    exact Turn.take hu (fun hs => hst (h.stale_iff.2 hs)) hm

theorem packStep_eq (h : AuditsPerm audits audits') : packStep audits lim = packStep audits' lim := by
  funext s
  refine Option.ext (fun t => ?_)
  rw [packStep_turn, packStep_turn]
  exact ⟨fun ⟨item, rest, hp, ht⟩ => ⟨item, rest, hp, h.turn ht⟩,
    fun ⟨item, rest, hp, ht⟩ => ⟨item, rest, hp, h.symm.turn ht⟩⟩

theorem packLoop_eq (h : AuditsPerm audits audits') (s : Packing n) : packLoop audits lim s = packLoop audits' lim s := by
  have hspec : Reaches (packStep audits lim) s (packLoop audits lim s) ∧ (packLoop audits lim s).heap.isEmpty = true :=
    packLoop_spec s
  obtain ⟨hreach, hdone⟩ := hspec
  rw [h.packStep_eq] at hreach
  rw [packLoop_eq_of_reaches hreach, packLoop_of_none (packStep_eq_none.2 hdone)]

end AuditsPerm

/-- **The projection does not depend on the order in which the ancestor sets are drained.** -/
theorem projectWith_hashOrder (ord ord' : HashOrder n) (txs : Txs n) (lim : Limits) :
    projectWith ord txs lim = projectWith ord' txs lim := by
  have h := auditsOf_perm ord ord' txs
  have hstart : Packing.start (auditsOf ord txs) lim = Packing.start (auditsOf ord' txs) lim := by
    unfold Packing.start
    rw [h.freshItem_eq]
  unfold projectWith packed
  rw [hstart, h.packLoop_eq]

end Gbt

namespace Fees

open Gbt

def projectedBlocks (snapshot : List SnapshotTx) (ord : HashOrder snapshot.length) : List (List Txid) :=
  (project ord (snapshotToGbt snapshot)).blocks.map (fun b => b.map (fun u => (snapshot.get u).txid))

def projectedRates (snapshot : List SnapshotTx) (ord : HashOrder snapshot.length) : List (Txid × Option ℚ) :=
  (List.finRange snapshot.length).map (fun u =>
    ((snapshot.get u).txid, (project ord (snapshotToGbt snapshot)).effectiveRates u))

theorem project_hashOrder {snapshot : List SnapshotTx} (ord ord' : HashOrder snapshot.length) :
    project ord (snapshotToGbt snapshot) = project ord' (snapshotToGbt snapshot) :=
  projectWith_hashOrder ord ord' _ _

/-- **The rows do not depend on the iteration order of the cache**: no two of them share a txid. -/
theorem snapshotRows_eq (iter iter' : SetOrder Txid) (txs : TxCache) : snapshotRows iter txs = snapshotRows iter' txs := by
  have hrows : ∀ l : List SnapshotTx, (∀ row ∈ l, ∃ tx, txs.lookup row.txid = some tx ∧ row = rowOf row.txid tx) →
      l = (l.map SnapshotTx.txid).filterMap (fun txid => (txs.lookup txid).map (rowOf txid)) := by
    intro l
    induction l with
    | nil => exact fun _ => rfl
    | cons row l ih =>
      intro h
      obtain ⟨tx, htx, hrow⟩ := h row List.mem_cons_self
      rw [List.map_cons, List.filterMap_cons_some (by rw [htx, Option.map_some, ← hrow]),
        ← ih (fun r hr => h r (List.mem_cons_of_mem row hr))]
  rw [hrows (snapshotRows iter txs) (fun row h => mem_snapshotRows.1 h),
    hrows (snapshotRows iter' txs) (fun row h => mem_snapshotRows.1 h), map_txid_snapshotRows_congr rfl]

/-- **The estimate does not depend on hash iteration order**: neither that of the cache nor those of the ancestor sets
show in the projected blocks, the effective rates or the tiers. -/
theorem estimate_hashOrder (txs : TxCache) (minFee : ℚ) (now now' : ℕ) (iter iter' : SetOrder Txid)
    (order order' : ∀ n, HashOrder n) :
    snapshotRows iter txs = snapshotRows iter' txs ∧
    projectedBlocks (snapshotRows iter txs) (order _) = projectedBlocks (snapshotRows iter' txs) (order' _) ∧
    projectedRates (snapshotRows iter txs) (order _) = projectedRates (snapshotRows iter' txs) (order' _) ∧
    { computeEstimate (snapshotRows iter txs) (order _) minFee now with computedAt := 0 } =
      { computeEstimate (snapshotRows iter' txs) (order' _) minFee now' with computedAt := 0 } := by
  rw [snapshotRows_eq iter iter' txs]
  refine ⟨rfl, ?_, ?_, ?_⟩
  · rw [projectedBlocks, projectedBlocks, project_hashOrder (order _) (order' _)]
  · rw [projectedRates, projectedRates, project_hashOrder (order _) (order' _)]
  · rw [computeEstimate, computeEstimate, project_hashOrder (order _) (order' _)]
    rfl

end Fees
end Satya
