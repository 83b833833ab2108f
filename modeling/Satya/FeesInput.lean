import Satya.FeesHashOrder
import Satya.FeesView
/-!
# FeesInput — the estimate depends on what the projector is told, and on nothing else

`GbtView` forgets in which order a transaction lists its parents and what it lists outside the snapshot.  On acyclic
snapshots without repeated parents the estimate is a function of it (`estimate_of_gbtView`): the ancestor closure is the
same set, and so are the children, in the same order.
-/
namespace Satya
namespace Gbt

variable {n : ℕ}

/-! ## Inputs that list their parents in another order -/

/-- The same transactions, up to the order of each one's parents. -/
structure ParentsPerm (txs txs' : Txs n) : Prop where
  order : ∀ i, (txs.tx i).order = (txs'.tx i).order
  fee : ∀ i, (txs.tx i).fee = (txs'.tx i).fee
  weight : ∀ i, (txs.tx i).weight = (txs'.tx i).weight
  parents : ∀ i, (txs.tx i).parents.Perm (txs'.tx i).parents

variable {txs txs' : Txs n}

theorem ParentsPerm.parent (h : ParentsPerm txs txs') : txs.Parent = txs'.Parent := by
  funext c p
  exact propext (h.parents c).mem_iff

theorem ParentsPerm.acyclic (h : ParentsPerm txs txs') (hac : txs.Acyclic) : txs'.Acyclic := by
  unfold Txs.Acyclic Txs.Ancestor at hac ⊢
  rwa [h.parent] at hac

/-- Pushing one child onto several lists does not depend on the order of the lists. -/
theorem foldl_push_perm (c : Fin n) {ps ps' : List (Fin n)} (h : ps.Perm ps') (children : Fin n → List (Fin n)) :
    ps.foldl (fun children p => Function.update children p (children p ++ [c])) children =
      ps'.foldl (fun children p => Function.update children p (children p ++ [c])) children := by
  refine h.foldl_eq' (fun p _ q _ z => ?_) children
  by_cases hpq : p = q
  · rw [hpq]
  · rw [Function.update_of_ne (Ne.symm hpq), Function.update_of_ne hpq, Function.update_comm hpq]

theorem ParentsPerm.children (h : ParentsPerm txs txs') : childrenOf txs = childrenOf txs' := by
  unfold childrenOf
  congr 1
  funext children i
  rw [txs.dense, txs'.dense]
  exact foldl_push_perm i (h.parents i) children

theorem ParentsPerm.audits (h : ParentsPerm txs txs') (hac : txs.Acyclic) (ord ord' : HashOrder n) :
    AuditsPerm (auditsOf ord txs) (auditsOf ord' txs') where
  order := h.order
  fee := h.fee
  weight := h.weight
  children u := congrFun h.children u
  ancestors u := by
    have hclosed := auditsOf_closed ord hac
    have hclosed' := auditsOf_closed ord' (h.acyclic hac)
    refine (List.perm_ext_iff_of_nodup (hclosed.nodup u) (hclosed'.nodup u)).2 (fun a => ?_)
    rw [mem_ancestors_iff hac, mem_ancestors_iff (h.acyclic hac), Txs.Ancestor, Txs.Ancestor, h.parent]

/-- **The projection does not depend on the order in which parents are listed.** -/
theorem projectWith_parentsPerm (h : ParentsPerm txs txs') (hac : txs.Acyclic) (ord ord' : HashOrder n) (lim : Limits) :
    projectWith ord txs lim = projectWith ord' txs' lim := by
  have haudits := h.audits hac ord ord'
  have hstart : Packing.start (auditsOf ord txs) lim = Packing.start (auditsOf ord' txs') lim := by
    unfold Packing.start
    rw [haudits.freshItem_eq]
  unfold projectWith packed
  rw [hstart, haudits.packLoop_eq]

/-! ## Inputs of provably equal length -/

/-- `ParentsPerm` across an equality of lengths. -/
structure SameInput {n m : ℕ} (h : n = m) (txs : Txs n) (txs' : Txs m) : Prop where
  order : ∀ i, (txs.tx i).order = (txs'.tx (i.cast h)).order
  fee : ∀ i, (txs.tx i).fee = (txs'.tx (i.cast h)).fee
  weight : ∀ i, (txs.tx i).weight = (txs'.tx (i.cast h)).weight
  parents : ∀ i, ((txs.tx i).parents.map (Fin.cast h)).Perm (txs'.tx (i.cast h)).parents

theorem SameInput.effectiveRates {m : ℕ} {h : n = m} {txs : Txs n} {txs' : Txs m} (hsame : SameInput h txs txs')
    (hac : txs.Acyclic) (ord : HashOrder n) (ord' : HashOrder m) (lim : Limits) (i : Fin n) :
    (projectWith ord txs lim).effectiveRates i = (projectWith ord' txs' lim).effectiveRates (i.cast h) := by
  subst h
  have hperm : ParentsPerm txs txs' :=
    ⟨hsame.order, hsame.fee, hsame.weight, fun i => by simpa using hsame.parents i⟩
  rw [projectWith_parentsPerm hperm hac ord ord']
  rfl

theorem map_cast_finRange {m : ℕ} (h : n = m) : (List.finRange n).map (Fin.cast h) = List.finRange m := by
  subst h
  simp

end Gbt

namespace Fees

open Gbt

theorem nodup_parents {snapshot : List SnapshotTx} {i : Fin snapshot.length} (h : (snapshot.get i).depends.Nodup) :
    ((snapshotToGbt snapshot).tx i).parents.Nodup := by
  refine List.Nodup.filterMap (fun d d' p hp hp' => ?_) h
  rw [← txid_of_uidOf hp, ← txid_of_uidOf hp']

theorem get_txid_injective {snapshot : List SnapshotTx} (h : (snapshot.map SnapshotTx.txid).Nodup)
    {i j : Fin snapshot.length} (hij : (snapshot.get i).txid = (snapshot.get j).txid) : i = j := by
  have hrow : snapshot.get i = snapshot.get j :=
    List.inj_on_of_nodup_map h (List.get_mem snapshot i) (List.get_mem snapshot j) hij
  exact List.nodup_iff_injective_get.1 h.of_map hrow

/-- A snapshot whose `depends` follow an acyclic relation gives the projector an acyclic input. -/
theorem acyclic_of_depends {snapshot : List SnapshotTx} {Spends : Txid → Txid → Prop}
    (hacyclic : ∀ x, ¬ Relation.TransGen Spends x x) (hdepends : ∀ row ∈ snapshot, ∀ p ∈ row.depends, Spends row.txid p) :
    (snapshotToGbt snapshot).Acyclic := by
  intro u hu
  refine hacyclic _ (Relation.TransGen.lift (fun i => (snapshot.get i).txid) (fun c p hp => ?_) u u hu)
  obtain ⟨d, hd, huid⟩ := List.mem_filterMap.1 (show p ∈ ((snapshotToGbt snapshot).tx c).parents from hp)
  rw [Function.onFun, txid_of_uidOf huid]
  exact hdepends _ (List.get_mem snapshot c) d hd

/-- **Snapshots that tell the projector the same** are the same input to it, position by position. -/
theorem sameInput_of_gbtView {s s' : List SnapshotTx} (hview : gbtView s = gbtView s')
    (hnodup : (s'.map SnapshotTx.txid).Nodup) (hd : ∀ row ∈ s, row.depends.Nodup) (hd' : ∀ row ∈ s', row.depends.Nodup) :
    ∃ h : s.length = s'.length, SameInput h (snapshotToGbt s) (snapshotToGbt s') ∧
      ∀ i, (s.get i).weight = (s'.get (i.cast h)).weight := by
  have hlen : s.length = s'.length := by
    have := congrArg List.length hview
    simpa [gbtView] using this
  rw [gbtView, gbtView, ← map_cast_finRange hlen, List.map_map] at hview
  have hall := fun i => List.map_inj_left.1 hview i (List.mem_finRange i)
  simp only [Function.comp_apply, GbtView.mk.injEq] at hall
  refine ⟨hlen, ⟨fun i => ?_, fun i => (hall i).2.1, fun i => (hall i).2.2.1, fun i => ?_⟩, fun i => (hall i).2.2.1⟩
  · exact congrArg orderPrefix (hall i).1
  · have hnd : (((snapshotToGbt s).tx i).parents.map (Fin.cast hlen)).Nodup :=
      (nodup_parents (hd _ (List.get_mem s i))).map (Fin.cast_injective hlen)
    refine (List.perm_ext_iff_of_nodup hnd (nodup_parents (hd' _ (List.get_mem s' (i.cast hlen))))).2 (fun p => ?_)
    -- a parent is told by its txid, which no two positions share
    have hmem : ∀ {r : List SnapshotTx} (hr : (r.map SnapshotTx.txid).Nodup) (q : Fin r.length) (ps : List (Fin r.length)),
        q ∈ ps ↔ (r.get q).txid ∈ (ps.map (fun p => (r.get p).txid)).toFinset := by
      intro r hr q ps
      rw [List.mem_toFinset, List.mem_map]
      constructor
      · exact fun h => ⟨q, h, rfl⟩
      · rintro ⟨x, hx, heq⟩
        rwa [← get_txid_injective hr heq]
    rw [hmem hnodup p, hmem hnodup p, ← (hall i).2.2.2, List.map_map]
    have htxid : ((fun p => (s'.get p).txid) ∘ Fin.cast hlen) = fun p => (s.get p).txid :=
      funext (fun q => (hall q).1.symm)
    rw [htxid]

/-- **Snapshots that tell the projector the same give the same estimate.** -/
theorem estimate_of_gbtView {s s' : List SnapshotTx} (hview : gbtView s = gbtView s')
    (hnodup : (s'.map SnapshotTx.txid).Nodup) (hd : ∀ row ∈ s, row.depends.Nodup) (hd' : ∀ row ∈ s', row.depends.Nodup)
    (hac : (snapshotToGbt s).Acyclic) (ord : HashOrder s.length) (ord' : HashOrder s'.length) (minFee : ℚ) (now : ℕ) :
    computeEstimate s ord minFee now = computeEstimate s' ord' minFee now := by
  obtain ⟨hlen, hsame, hweight⟩ := sameInput_of_gbtView hview hnodup hd hd'
  have hrates : rateWeights s (project ord (snapshotToGbt s)) = rateWeights s' (project ord' (snapshotToGbt s')) := by
    rw [rateWeights, rateWeights, ← map_cast_finRange hlen, List.filterMap_map]
    refine List.filterMap_congr (fun i _ => ?_)
    rw [Function.comp_apply, project, hsame.effectiveRates hac ord ord', hweight i]
    rfl
  rw [computeEstimate, computeEstimate, hrates]

end Fees
end Satya
