import Satya.Mempool
/-!
# FeesView — what the projector is told about a cache

`snapshot_to_gbt` names transactions by their position in the snapshot.  Read back as txids, its output is a list of
`GbtView`s; two caches give the same list when they hold the same txids with the same fees, weights and in-set parents
(`gbtView_eq_iff`).
-/
namespace Satya
namespace Fees

open Gbt

/-- A projector input with its uids read back as txids. -/
structure GbtView where
  txid : Txid
  fee : ℕ
  weight : ℕ
  parents : Finset Txid
deriving DecidableEq

/-- The output of `snapshot_to_gbt`, transaction by transaction. -/
def gbtView (snapshot : List SnapshotTx) : List GbtView :=
  (List.finRange snapshot.length).map (fun i =>
    { txid := (snapshot.get i).txid
      fee := ((snapshotToGbt snapshot).tx i).fee
      weight := ((snapshotToGbt snapshot).tx i).weight
      parents := (((snapshotToGbt snapshot).tx i).parents.map (fun p => (snapshot.get p).txid)).toFinset })

/-! ## Uids -/

theorem isSome_uidOf_foldl (snapshot : List SnapshotTx) (d : Txid) : ∀ (is : List (Fin snapshot.length))
    (m : Txid → Option (Fin snapshot.length)),
    (m d).isSome = true ∨ (∃ i ∈ is, (snapshot.get i).txid = d) →
      (is.foldl (fun m i => Function.update m (snapshot.get i).txid (some i)) m d).isSome = true
  | [], _, h => h.resolve_right (fun ⟨_, hi, _⟩ => List.not_mem_nil hi)
  | j :: is, m, h => by
    rw [List.foldl_cons]
    refine isSome_uidOf_foldl snapshot d is _ ?_
    by_cases hj : d = (snapshot.get j).txid
    · rw [hj, Function.update_self]
      exact Or.inl rfl
    · rw [Function.update_of_ne hj]
      refine h.imp_right (fun ⟨i, hi, hd⟩ => ?_)
      rcases List.mem_cons.1 hi with rfl | hi
      · exact absurd hd.symm hj
      · exact ⟨i, hi, hd⟩

/-- **A txid has a uid exactly when it is in the snapshot.** -/
theorem uidOf_isSome_iff {snapshot : List SnapshotTx} {d : Txid} :
    (∃ i, uidOf snapshot d = some i) ↔ d ∈ snapshot.map SnapshotTx.txid := by
  constructor
  · rintro ⟨i, hi⟩
    rw [← txid_of_uidOf hi]
    exact List.mem_map_of_mem (List.get_mem snapshot i)
  · intro hd
    obtain ⟨row, hrow, rfl⟩ := List.mem_map.1 hd
    obtain ⟨i, rfl⟩ := List.get_of_mem hrow
    exact Option.isSome_iff_exists.1
      (isSome_uidOf_foldl snapshot _ _ _ (Or.inr ⟨i, List.mem_finRange i, rfl⟩))

/-- **The resolved parents, read back**: the `depends` that are in the snapshot. -/
theorem toFinset_parents (snapshot : List SnapshotTx) (i : Fin snapshot.length) :
    (((snapshotToGbt snapshot).tx i).parents.map (fun p => (snapshot.get p).txid)).toFinset =
      (snapshot.get i).depends.toFinset ∩ (snapshot.map SnapshotTx.txid).toFinset := by
  ext d
  rw [List.mem_toFinset, Finset.mem_inter, List.mem_toFinset, List.mem_toFinset, ← uidOf_isSome_iff]
  constructor
  · intro h
    obtain ⟨p, hp, rfl⟩ := List.mem_map.1 h
    obtain ⟨d, hd, hu⟩ := List.mem_filterMap.1 hp
    rw [txid_of_uidOf hu]
    exact ⟨hd, p, hu⟩
  · rintro ⟨hd, p, hu⟩
    exact List.mem_map.2 ⟨p, List.mem_filterMap.2 ⟨d, hd, hu⟩, txid_of_uidOf hu⟩

/-! ## Caches -/

theorem map_finRange_get {α : Type} (f : SnapshotTx → α) (snapshot : List SnapshotTx) :
    (List.finRange snapshot.length).map (fun i => f (snapshot.get i)) = snapshot.map f := by
  have h := congrArg (List.map f) (List.map_get_finRange snapshot)
  rw [List.map_map] at h
  exact h

/-- How a cached transaction looks to the projector, among the txids `keys`. -/
def viewOf (keys : Finset Txid) (txid : Txid) (tx : MempoolTx) : GbtView :=
  ⟨txid, tx.fee, tx.weight, tx.depends.toFinset ∩ keys⟩

theorem gbtView_snapshotRows (ord : SetOrder Txid) (txs : TxCache) :
    (gbtView (snapshotRows ord txs)).map some =
      ((snapshotRows ord txs).map SnapshotTx.txid).map (fun x => (txs.lookup x).map (viewOf txs.keys x)) := by
  have hkeys : ((snapshotRows ord txs).map SnapshotTx.txid).toFinset = txs.keys :=
    Finset.ext (fun x => by rw [List.mem_toFinset, mem_txid_snapshotRows])
  rw [gbtView, List.map_map, List.map_map, ← map_finRange_get]
  refine List.map_congr_left (fun i _ => ?_)
  obtain ⟨tx, htx, hrow⟩ := mem_snapshotRows.1 (List.get_mem (snapshotRows ord txs) i)
  simp only [Function.comp_apply]
  rw [htx, toFinset_parents, hkeys]
  simp only [snapshotToGbt]
  rw [hrow]
  rfl

/-- **Two caches look alike to the projector** exactly when they hold the same txids, and each looks alike. -/
theorem gbtView_eq_iff (ord ord' : SetOrder Txid) (txs txs' : TxCache) :
    gbtView (snapshotRows ord txs) = gbtView (snapshotRows ord' txs') ↔
      txs.keys = txs'.keys ∧ ∀ x ∈ txs.keys,
        (txs.lookup x).map (viewOf txs.keys x) = (txs'.lookup x).map (viewOf txs'.keys x) := by
  have hinj : gbtView (snapshotRows ord txs) = gbtView (snapshotRows ord' txs') ↔
      (gbtView (snapshotRows ord txs)).map some = (gbtView (snapshotRows ord' txs')).map some :=
    (List.map_injective_iff.2 (Option.some_injective _)).eq_iff.symm
  have htxid : ∀ (o : SetOrder Txid) (c : TxCache),
      (gbtView (snapshotRows o c)).map GbtView.txid = (snapshotRows o c).map SnapshotTx.txid := by
    intro o c
    rw [gbtView, List.map_map, ← map_finRange_get]
    rfl
  constructor
  · intro h
    have hkeys : txs.keys = txs'.keys := by
      ext x
      rw [← @mem_txid_snapshotRows ord txs x, ← @mem_txid_snapshotRows ord' txs' x, ← htxid, ← htxid, h]
    refine ⟨hkeys, fun x hx => ?_⟩
    rw [hinj, gbtView_snapshotRows, gbtView_snapshotRows, ← @map_txid_snapshotRows_congr ord ord' _ _ hkeys] at h
    exact List.map_inj_left.1 h x (mem_txid_snapshotRows.2 hx)
  · rintro ⟨hkeys, hview⟩
    rw [hinj, gbtView_snapshotRows, gbtView_snapshotRows, ← @map_txid_snapshotRows_congr ord ord' _ _ hkeys]
    exact List.map_congr_left (fun x hx => hview x (mem_txid_snapshotRows.1 hx))

end Fees
end Satya
