import Satya.Collections
import Satya.Fees
/-!
# Mempool — the shared state (`mempool.rs`)

The cache maps a txid to what was fetched for it.  A cached entry is a snapshot: its `depends` is what the node reported
when the entry was fetched.  The estimator reads the cache through `snapshotRows`.
-/
namespace Satya

open Fees (SnapshotTx FeeEstimate)

def u32Max : ℕ := 2 ^ 32 - 1

/-- `u32::try_from(x).unwrap_or(u32::MAX)`. -/
def clampU32 (x : ℕ) : ℕ := min x u32Max

structure MempoolTx where
  vsize : ℕ
  weight : ℕ
  fee : ℕ
  depends : List Txid
  ancestorFee : ℕ
  ancestorVsize : ℕ
  descendantFee : ℕ
  descendantVsize : ℕ
  firstSeen : ℕ
deriving DecidableEq

/-- `From<&MempoolEntry>`: saturating `u32` casts, and `vsize * 4` for an absent weight. -/
def MempoolTx.ofEntry (entry : MempoolEntry) : MempoolTx where
  vsize := clampU32 entry.vsize
  weight := match entry.weight with
    | some w => clampU32 w
    | none => clampU32 (clampU32 entry.vsize * 4)
  fee := entry.fees.base
  depends := entry.depends
  ancestorFee := entry.fees.ancestor
  ancestorVsize := clampU32 entry.ancestorsize
  descendantFee := entry.fees.descendant
  descendantVsize := clampU32 entry.descendantsize
  firstSeen := entry.time.getD 0

/-- Minimum mempool-acceptance fee rate, in sat/vB. -/
def minFeeSatVb (info : MempoolInfo) : ℚ := info.mempoolminfee / 1000

abbrev TxCache := Finmap (fun _ : Txid => MempoolTx)

/-- What the sync task writes and the HTTP readers read, under one lock.  A system time is in nanoseconds from the Unix
epoch. -/
structure MempoolState where
  txs : TxCache
  mempoolMinFeeSatVb : ℚ
  tipHeight : ℕ
  network : Network
  caughtUp : Bool
  lastSyncOk : Option ℤ
  feeEstimate : Option FeeEstimate

def MempoolState.new (network : Network) : MempoolState where
  txs := ∅
  mempoolMinFeeSatVb := 0
  tipHeight := 0
  network := network
  caughtUp := false
  lastSyncOk := none
  feeEstimate := none

structure Diff where
  new : List Txid
  gone : List Txid

def computeDiff (ord : SetOrder Txid) (cacheKeys nodeTxids : Finset Txid) : Diff where
  new := ord.toList (nodeTxids \ cacheKeys)
  gone := ord.toList (cacheKeys \ nodeTxids)

/-- The cache that a verbose dump is collected into. -/
def collectDump (entries : List (Txid × MempoolEntry)) : TxCache :=
  insertAll ∅ (entries.map (fun e => (e.1, MempoolTx.ofEntry e.2)))

theorem keys_collectDump (entries : List (Txid × MempoolEntry)) :
    (collectDump entries).keys = (entries.map Prod.fst).toFinset := by
  rw [collectDump, keys_insertAll, Finmap.keys_empty, Finset.empty_union, List.map_map]
  rfl

theorem lookup_collectDump {entries : List (Txid × MempoolEntry)} {a : Txid} {tx : MempoolTx}
    (h : (collectDump entries).lookup a = some tx) : ∃ e, (a, e) ∈ entries ∧ tx = MempoolTx.ofEntry e := by
  rcases lookup_insertAll _ _ h with h | ⟨-, h⟩
  · obtain ⟨⟨b, e⟩, he, heq⟩ := List.mem_map.1 h
    rw [Prod.mk.injEq] at heq
    exact ⟨e, heq.1 ▸ he, heq.2.symm⟩
  · rw [Finmap.lookup_empty] at h
    cases h

/-! ## The estimator's snapshot -/

/-- The tuple that `maybe_recompute_fees` copies for one cached transaction. -/
def rowOf (txid : Txid) (tx : MempoolTx) : SnapshotTx := ⟨txid, tx.fee, tx.weight, tx.depends⟩

/-- The rows of a cache in one of its iteration orders. -/
def iterRows (ord : SetOrder Txid) (txs : TxCache) : List SnapshotTx :=
  (ord.toList txs.keys).filterMap (fun txid => (txs.lookup txid).map (rowOf txid))

/-- `snapshot.sort_by_key(|a| a.0)`. -/
def snapshotRows (ord : SetOrder Txid) (txs : TxCache) : List SnapshotTx :=
  (iterRows ord txs).insertionSort (fun a b => a.txid ≤ b.txid)

theorem mem_iterRows {ord : SetOrder Txid} {txs : TxCache} {row : SnapshotTx} :
    row ∈ iterRows ord txs ↔ ∃ tx, txs.lookup row.txid = some tx ∧ row = rowOf row.txid tx := by
  constructor
  · intro h
    obtain ⟨txid, -, hrow⟩ := List.mem_filterMap.1 h
    obtain ⟨tx, htx, rfl⟩ := Option.map_eq_some_iff.1 hrow
    exact ⟨tx, htx, rfl⟩
  · rintro ⟨tx, htx, hrow⟩
    refine List.mem_filterMap.2 ⟨row.txid, ?_, by rw [htx, Option.map_some, ← hrow]⟩
    rw [ord.mem_iff, Finmap.mem_keys]
    exact Finmap.mem_of_lookup_eq_some htx

theorem mem_snapshotRows {ord : SetOrder Txid} {txs : TxCache} {row : SnapshotTx} :
    row ∈ snapshotRows ord txs ↔ ∃ tx, txs.lookup row.txid = some tx ∧ row = rowOf row.txid tx := by
  rw [snapshotRows, (List.perm_insertionSort _ _).mem_iff, mem_iterRows]

theorem map_txid_iterRows (ord : SetOrder Txid) (txs : TxCache) :
    (iterRows ord txs).map SnapshotTx.txid = ord.toList txs.keys := by
  have hall : ∀ l : List Txid, (∀ x ∈ l, x ∈ txs.keys) →
      (l.filterMap (fun txid => (txs.lookup txid).map (rowOf txid))).map SnapshotTx.txid = l := by
    intro l
    induction l with
    | nil => exact fun _ => rfl
    | cons x l ih =>
      intro h
      obtain ⟨tx, htx⟩ := Finmap.mem_iff.1 (Finmap.mem_keys.1 (h x List.mem_cons_self))
      rw [List.filterMap_cons_some (by rw [htx]; rfl), List.map_cons,
        ih (fun y hy => h y (List.mem_cons_of_mem x hy))]
      rfl
  exact hall _ (fun x hx => (ord.mem_iff _ x).1 hx)

instance totalTxidLe : Std.Total (fun a b : SnapshotTx => a.txid ≤ b.txid) := ⟨fun a b => le_total a.txid b.txid⟩

instance transTxidLe : IsTrans SnapshotTx (fun a b => a.txid ≤ b.txid) := ⟨fun _ _ _ h h' => le_trans h h'⟩

theorem nodup_txid_snapshotRows (ord : SetOrder Txid) (txs : TxCache) :
    ((snapshotRows ord txs).map SnapshotTx.txid).Nodup := by
  refine (((List.perm_insertionSort _ _).map SnapshotTx.txid).nodup_iff).2 ?_
  rw [map_txid_iterRows]
  exact ord.nodup _

theorem mem_txid_snapshotRows {ord : SetOrder Txid} {txs : TxCache} {x : Txid} :
    x ∈ (snapshotRows ord txs).map SnapshotTx.txid ↔ x ∈ txs.keys := by
  rw [snapshotRows, ((List.perm_insertionSort _ _).map SnapshotTx.txid).mem_iff, map_txid_iterRows, ord.mem_iff]

/-- **The txids of a snapshot are the ascending keys of the cache**, whatever its iteration order. -/
theorem map_txid_snapshotRows_congr {ord ord' : SetOrder Txid} {txs txs' : TxCache} (h : txs.keys = txs'.keys) :
    (snapshotRows ord txs).map SnapshotTx.txid = (snapshotRows ord' txs').map SnapshotTx.txid := by
  refine eq_of_sorted_nodup (List.pairwise_map.2 (List.pairwise_insertionSort _ _))
    (List.pairwise_map.2 (List.pairwise_insertionSort _ _)) (nodup_txid_snapshotRows ord txs)
    (nodup_txid_snapshotRows ord' txs') (fun x => ?_)
  rw [mem_txid_snapshotRows, mem_txid_snapshotRows, h]

end Satya
