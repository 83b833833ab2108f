import Mathlib.Data.Set.Basic
import Satya.MockNode
/-!
# MockNodeFrame — what a call leaves alone

A transaction that stays keeps what it was generated with, and nothing but a drawn txid enters the mempool; the tip, the
floor and the configuration change only where a call says so (`call_frame`).  Fresh txids are not needed for it.
-/
namespace Satya
namespace Sim

open MockNode

/-- What an entry keeps while its transaction stays. -/
structure OwnData where
  vsize : ℕ
  weight : Option ℕ
  base : ℕ
  time : Option ℕ
deriving DecidableEq

def ownData (e : MempoolEntry) : OwnData := ⟨e.vsize, e.weight, e.fees.base, e.time⟩

/-- Every entry of `txs'` is one of a drawn txid or has the data it had in `txs`. -/
def Inherits {α : Type} (data : MempoolEntry → α) (drawn : Set Txid) (txs txs' : EntryMap) : Prop :=
  ∀ t e', txs'.lookup t = some e' → t ∈ drawn ∨ ∃ e, txs.lookup t = some e ∧ data e' = data e

/-- What no update of an arrival or a removal touches. -/
def KeptByChurn {α : Type} (data : MempoolEntry → α) : Prop :=
  ∀ vsize base add e, data (adjustTotals vsize base add e) = data e

/-- What no update of a block touches. -/
structure KeptByMining {α : Type} (data : MempoolEntry → α) : Prop where
  rerooted : ∀ e, data (MockNode.rerooted e) = data e
  withParent : ∀ p e, data (MockNode.withParent p e) = data e

theorem ownData_keptByChurn : KeptByChurn ownData := fun _ _ add _ => by cases add <;> rfl

theorem depends_keptByChurn : KeptByChurn MempoolEntry.depends := fun _ _ add _ => by cases add <;> rfl

theorem ownData_keptByMining : KeptByMining ownData := ⟨fun _ => rfl, fun _ _ => rfl⟩

variable {α : Type} {data : MempoolEntry → α} {drawn : Set Txid} {txs txs' txs'' : EntryMap}
  {node node' node'' : MockNode}

theorem Inherits.refl (data : MempoolEntry → α) (drawn : Set Txid) (txs : EntryMap) : Inherits data drawn txs txs :=
  fun _ e he => Or.inr ⟨e, he, rfl⟩

theorem Inherits.insert (h : Inherits data drawn txs txs') {t : Txid} {e : MempoolEntry}
    (ht : t ∈ drawn ∨ ∃ e₀, txs.lookup t = some e₀ ∧ data e = data e₀) : Inherits data drawn txs (txs'.insert t e) := by
  intro a e' ha
  by_cases hat : a = t
  · rw [hat, Finmap.lookup_insert, Option.some.injEq] at ha
    rw [hat, ← ha]
    exact ht
  · rw [Finmap.lookup_insert_of_ne _ hat] at ha
    exact h a e' ha

theorem Inherits.erase (h : Inherits data drawn txs txs') (t : Txid) : Inherits data drawn txs (txs'.erase t) := by
  intro a e ha
  by_cases hat : a = t
  · rw [hat, Finmap.lookup_erase] at ha
    cases ha
  · rw [Finmap.lookup_erase_ne hat] at ha
    exact h a e ha

theorem Inherits.modify (h : Inherits data drawn txs txs') {f : MempoolEntry → MempoolEntry}
    (hf : ∀ e, data (f e) = data e) (t : Txid) : Inherits data drawn txs (modify f txs' t) := by
  unfold Sim.modify
  cases ht : txs'.lookup t with
  | none => exact h
  | some e => exact h.insert ((h t e ht).imp_right (fun ⟨e₀, he₀, hdata⟩ => ⟨e₀, he₀, (hf e).trans hdata⟩))

theorem Inherits.modifyAll {f : MempoolEntry → MempoolEntry} (hf : ∀ e, data (f e) = data e) :
    ∀ (keys : List Txid) {txs' : EntryMap}, Inherits data drawn txs txs' →
      Inherits data drawn txs (keys.foldl (Sim.modify f) txs')
  | [], _, h => h
  | t :: keys, _, h => modifyAll hf keys (h.modify hf t)

theorem Inherits.removeAll (h : Inherits data drawn txs txs') (keys : List Txid) :
    Inherits data drawn txs (removeAll txs' keys) := by
  intro a e ha
  rw [lookup_removeAll] at ha
  split at ha
  · cases ha
  · exact h a e ha

theorem Inherits.repairBelow (hkept : KeptByMining data) {children : ChildMap} : ∀ (fuel : ℕ) (parent : Txid)
    {txs' txs'' : EntryMap}, Inherits data drawn txs txs' → MockNode.repairBelow children fuel parent txs' = some txs'' →
      Inherits data drawn txs txs''
  | 0, _, _, _, _, hrun => by cases hrun
  | fuel + 1, parent, txs', txs'', h, hrun => by
    unfold MockNode.repairBelow at hrun
    cases hchild : children.lookup parent with
    | none =>
      rw [hchild] at hrun
      exact Option.some.inj hrun ▸ h
    | some child =>
      rw [hchild] at hrun
      obtain ⟨p, -, hrun⟩ := Option.bind_eq_some_iff.1 hrun
      have hchild := h.modify (hkept.withParent p) child
      exact repairBelow hkept fuel child hchild hrun

theorem Inherits.repairAll (hkept : KeptByMining data) {children : ChildMap} {fuel : ℕ} : ∀ (roots : List Txid)
    {txs' txs'' : EntryMap},
    Inherits data drawn txs txs' → MockNode.repairAll children fuel roots txs' = some txs'' → Inherits data drawn txs txs''
  | [], _, _, h, hrun => Option.some.inj hrun ▸ h
  | root :: roots, _, _, h, hrun => by
    unfold MockNode.repairAll at hrun
    obtain ⟨mid, hstep, hrun⟩ := Option.bind_eq_some_iff.1 hrun
    exact repairAll hkept roots (h.repairBelow hkept fuel root hstep) hrun

/-! ## The parts of a call -/

/-- `node'` has the settings of `node`, and its entries come from `node` or from a drawn txid. -/
structure Steady {α : Type} (data : MempoolEntry → α) (drawn : Set Txid) (node node' : MockNode) : Prop where
  tip : node'.tipHeight = node.tipHeight
  minFee : node'.minFee = node.minFee
  reloading : node'.reloading = node.reloading
  cfg : node'.cfg = node.cfg
  inherits : Inherits data drawn node.txs node'.txs

theorem Steady.refl (data : MempoolEntry → α) (drawn : Set Txid) (node : MockNode) : Steady data drawn node node :=
  ⟨rfl, rfl, rfl, rfl, Inherits.refl data drawn node.txs⟩

theorem Steady.adjustDescendantTotals (hkept : KeptByChurn data) (h : Steady data drawn node node') {start : Txid}
    {vsize base : ℕ} {add : Bool}
    (hrun : node'.adjustDescendantTotals start vsize base add = some node'') : Steady data drawn node node'' := by
  obtain ⟨above, -, hrun⟩ := Option.bind_eq_some_iff.1 hrun
  obtain rfl := Option.some.inj hrun
  exact ⟨h.tip, h.minFee, h.reloading, h.cfg, Inherits.modifyAll (hkept vsize base add) _ h.inherits⟩

theorem Steady.addArrival (hkept : KeptByChurn data) (h : Steady data drawn node node') {d : ArrivalDraw}
    (hd : d.raw ∈ drawn) (hrun : node'.addArrival d = some node'') : Steady data drawn node node'' := by
  unfold MockNode.addArrival at hrun
  obtain ⟨parent, -, hrun⟩ := Option.bind_eq_some_iff.1 hrun
  cases parent with
  | none =>
    obtain rfl := Option.some.inj hrun
    exact ⟨h.tip, h.minFee, h.reloading, h.cfg, h.inherits.insert (Or.inl hd)⟩
  | some parent =>
    obtain ⟨p, -, hrun⟩ := Option.bind_eq_some_iff.1 hrun
    refine Steady.adjustDescendantTotals hkept ?_ hrun
    exact ⟨h.tip, h.minFee, h.reloading, h.cfg, h.inherits.insert (Or.inl hd)⟩

theorem Steady.addArrivals (hkept : KeptByChurn data) {draw : ℕ → ArrivalDraw} : ∀ (n : ℕ) {node' node'' : MockNode},
    Steady data drawn node node' → (∀ i < n, (draw i).raw ∈ drawn) → MockNode.addArrivals draw n node' = some node'' →
      Steady data drawn node node''
  | 0, _, _, h, _, hrun => Option.some.inj hrun ▸ h
  | n + 1, _, _, h, hdraw, hrun => by
    unfold MockNode.addArrivals at hrun
    obtain ⟨mid, hstep, hrun⟩ := Option.bind_eq_some_iff.1 hrun
    exact addArrivals hkept n (h.addArrival hkept (hdraw n (Nat.lt_succ_self n)) hstep)
      (fun i hi => hdraw i (Nat.lt_succ_of_lt hi)) hrun

theorem Steady.removeLeaf (hkept : KeptByChurn data) (h : Steady data drawn node node') {leaf : Txid}
    (hrun : node'.removeLeaf leaf = some node'') : Steady data drawn node node'' := by
  unfold MockNode.removeLeaf at hrun
  split at hrun
  · exact Option.some.inj hrun ▸ h
  · split at hrun
    · exact Option.some.inj hrun ▸ h
    · have hgone := h.inherits.erase leaf
      dsimp only at hrun
      split at hrun
      · obtain rfl := Option.some.inj hrun
        exact ⟨h.tip, h.minFee, h.reloading, h.cfg, hgone⟩
      · refine Steady.adjustDescendantTotals hkept ?_ hrun
        exact ⟨h.tip, h.minFee, h.reloading, h.cfg, hgone⟩

theorem Steady.evictLeaves (hkept : KeptByChurn data) {order : ℕ → SetOrder Txid} : ∀ (n : ℕ) {node' node'' : MockNode},
    Steady data drawn node node' → MockNode.evictLeaves order n node' = some node'' → Steady data drawn node node''
  | 0, _, _, h, hrun => Option.some.inj hrun ▸ h
  | n + 1, _, _, h, hrun => by
    unfold MockNode.evictLeaves at hrun
    split at hrun
    · exact Option.some.inj hrun ▸ h
    · obtain ⟨leaf, -, hrun⟩ := Option.bind_eq_some_iff.1 hrun
      obtain ⟨mid, hstep, hrun⟩ := Option.bind_eq_some_iff.1 hrun
      exact evictLeaves hkept n (h.removeLeaf hkept hstep) hrun

theorem Steady.confirmSet (hkept : KeptByMining data) (h : Steady data drawn node node') {order setOrder : SetOrder Txid}
    {set : Finset Txid} (hrun : node'.confirmSet order setOrder set = some node'') : Steady data drawn node node'' := by
  obtain ⟨txs, hrepair, hrun⟩ := Option.bind_eq_some_iff.1 hrun
  obtain rfl := Option.some.inj hrun
  have hroots := Inherits.modifyAll hkept.rerooted (node'.orphaned order set) h.inherits
  exact ⟨h.tip, h.minFee, h.reloading, h.cfg, Inherits.repairAll hkept _ (hroots.removeAll _) hrepair⟩

/-! ## Calls -/

/-- The txids a call may bring in. -/
def MockNode.Call.draws (cfg : ChurnConfig) : Call → Set Txid
  | .advance _ draw => {t | ∃ i < cfg.arrivalsPerTick, (draw i).raw = t}
  | _ => ∅

/-- What a call does to the settings. -/
def MockNode.settled (node : MockNode) : Call → MockNode
  | .advance _ _ => { node with reloading := false }
  | .massDrop _ _ => node
  | .reload => { node with reloading := true }
  | .mineBlock _ _ => { node with tipHeight := node.tipHeight + 1 }

theorem churn_frame (hkept : KeptByChurn data) {c : Call} (hblock : ∀ order setOrder, c ≠ .mineBlock order setOrder)
    (hrun : node.call c = some node') : Steady data (c.draws node.cfg) (node.settled c) node' := by
  cases c with
  | advance order draw =>
    obtain ⟨mid, hevict, hrun⟩ := Option.bind_eq_some_iff.1 hrun
    have hmid := Steady.evictLeaves hkept _
      (Steady.refl data (Call.draws node.cfg (.advance order draw)) { node with reloading := false }) hevict
    exact hmid.addArrivals hkept _ (fun i hi => ⟨i, hi, rfl⟩) hrun
  | massDrop order fraction => exact Steady.evictLeaves hkept _ (Steady.refl data _ _) hrun
  | reload => exact Option.some.inj hrun ▸ Steady.refl data _ _
  | mineBlock order setOrder => exact absurd rfl (hblock order setOrder)

/-- **A call moves the settings where it says so**, and what it leaves in the mempool was there or was drawn. -/
theorem call_frame {c : Call} (hrun : node.call c = some node') :
    Steady ownData (c.draws node.cfg) (node.settled c) node' := by
  by_cases hblock : ∀ order setOrder, c ≠ .mineBlock order setOrder
  · exact churn_frame ownData_keptByChurn hblock hrun
  · push Not at hblock
    obtain ⟨order, setOrder, rfl⟩ := hblock
    obtain ⟨confirmed, -, hrun⟩ := Option.bind_eq_some_iff.1 hrun
    exact (Steady.refl ownData _ { node with tipHeight := node.tipHeight + 1 }).confirmSet ownData_keptByMining hrun

theorem minFee_call {c : Call} (hrun : node.call c = some node') : node'.minFee = node.minFee := by
  rw [(call_frame hrun).minFee]
  cases c <;> rfl

theorem inherits_call {c : Call} (hrun : node.call c = some node') :
    Inherits ownData (c.draws node.cfg) node.txs node'.txs := by
  have h := (call_frame hrun).inherits
  cases c <;> exact h

theorem minFee_callAll : ∀ (calls : List Call) {node node' : MockNode}, callAll calls node = some node' →
    node'.minFee = node.minFee
  | [], _, _, hrun => by rw [Option.some.inj hrun]
  | c :: calls, _, _, hrun => by
    unfold callAll at hrun
    obtain ⟨mid, hstep, hrun⟩ := Option.bind_eq_some_iff.1 hrun
    rw [minFee_callAll calls hrun, minFee_call hstep]

/-- **The floor never moves.** -/
theorem minFee_run {cfg : ChurnConfig} {draw : ℕ → ArrivalDraw} {initialSize : ℕ} {calls : List Call}
    (hrun : run cfg draw initialSize calls = some node) : node.minFee = 1000 := by
  obtain ⟨start, hnew, hrun⟩ := Option.bind_eq_some_iff.1 hrun
  have hstart := (Steady.refl ownData Set.univ (empty cfg)).addArrivals ownData_keptByChurn initialSize
    (fun _ _ => Set.mem_univ _) hnew
  rw [minFee_callAll calls hrun, hstart.minFee]
  rfl

end Sim
end Satya
