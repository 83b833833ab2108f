import Satya.MockNode
/-!
# MockNodeEntries — what every entry of a simulated node has

A property that every generated entry has and every update of an entry keeps is one of all entries after every run,
whatever is drawn: fresh txids are not needed for it.
-/
namespace Satya
namespace Sim

open MockNode

/-- Generated entries have `P` and updates keep it. -/
structure Lasting (P : MempoolEntry → Prop) : Prop where
  generated : ∀ satVb d, P (genStandaloneEntry satVb d).2
  attached : ∀ e parent size fee, P e →
    P { e with depends := [parent], ancestorsize := size, fees := { e.fees with ancestor := fee } }
  adjusted : ∀ vsize base add e, P e → P (adjustTotals vsize base add e)
  rerooted : ∀ e, P e → P (rerooted e)
  withParent : ∀ p e, P e → P (withParent p e)

def AllEntries (P : MempoolEntry → Prop) (txs : EntryMap) : Prop := ∀ t e, txs.lookup t = some e → P e

variable {P : MempoolEntry → Prop} {txs : EntryMap} {node node' : MockNode}

theorem AllEntries.insert (h : AllEntries P txs) {t : Txid} {e : MempoolEntry} (he : P e) :
    AllEntries P (txs.insert t e) := by
  intro a e' ha
  by_cases hat : a = t
  · rw [hat, Finmap.lookup_insert, Option.some.injEq] at ha
    exact ha ▸ he
  · rw [Finmap.lookup_insert_of_ne _ hat] at ha
    exact h a e' ha

theorem AllEntries.erase (h : AllEntries P txs) (t : Txid) : AllEntries P (txs.erase t) := by
  intro a e ha
  by_cases hat : a = t
  · rw [hat, Finmap.lookup_erase] at ha
    cases ha
  · rw [Finmap.lookup_erase_ne hat] at ha
    exact h a e ha

theorem AllEntries.modify (h : AllEntries P txs) {f : MempoolEntry → MempoolEntry} (hf : ∀ e, P e → P (f e))
    (t : Txid) : AllEntries P (modify f txs t) := by
  unfold Sim.modify
  cases ht : txs.lookup t with
  | none => exact h
  | some e => exact h.insert (hf e (h t e ht))

theorem AllEntries.modifyAll {f : MempoolEntry → MempoolEntry} (hf : ∀ e, P e → P (f e)) : ∀ (keys : List Txid)
    {txs : EntryMap}, AllEntries P txs → AllEntries P (keys.foldl (Sim.modify f) txs)
  | [], _, h => h
  | t :: keys, _, h => modifyAll hf keys (h.modify hf t)

theorem AllEntries.removeAll (h : AllEntries P txs) (keys : List Txid) : AllEntries P (removeAll txs keys) := by
  intro a e ha
  rw [lookup_removeAll] at ha
  split at ha
  · cases ha
  · exact h a e ha

theorem AllEntries.repairBelow (hP : Lasting P) {children : ChildMap} : ∀ (fuel : ℕ) (parent : Txid)
    {txs txs' : EntryMap}, AllEntries P txs → repairBelow children fuel parent txs = some txs' → AllEntries P txs'
  | 0, _, _, _, _, hrun => by cases hrun
  | fuel + 1, parent, txs, txs', h, hrun => by
    unfold MockNode.repairBelow at hrun
    cases hchild : children.lookup parent with
    | none =>
      rw [hchild] at hrun
      exact Option.some.inj hrun ▸ h
    | some child =>
      rw [hchild] at hrun
      obtain ⟨p, -, hrun⟩ := Option.bind_eq_some_iff.1 hrun
      exact repairBelow hP fuel child (h.modify (hP.withParent p) child) hrun

theorem AllEntries.repairAll (hP : Lasting P) {children : ChildMap} {fuel : ℕ} : ∀ (roots : List Txid)
    {txs txs' : EntryMap}, AllEntries P txs → repairAll children fuel roots txs = some txs' → AllEntries P txs'
  | [], _, _, h, hrun => Option.some.inj hrun ▸ h
  | root :: roots, _, _, h, hrun => by
    unfold MockNode.repairAll at hrun
    obtain ⟨mid, hstep, hrun⟩ := Option.bind_eq_some_iff.1 hrun
    exact repairAll hP roots (AllEntries.repairBelow hP fuel root h hstep) hrun

/-! ## Steps -/

theorem Lasting.adjustDescendantTotals (hP : Lasting P) (h : AllEntries P node.txs) {start : Txid} {vsize base : ℕ}
    {add : Bool} (hrun : node.adjustDescendantTotals start vsize base add = some node') : AllEntries P node'.txs := by
  obtain ⟨above, -, hrun⟩ := Option.bind_eq_some_iff.1 hrun
  obtain rfl := Option.some.inj hrun
  exact AllEntries.modifyAll (hP.adjusted vsize base add) _ h

theorem Lasting.addArrival (hP : Lasting P) (h : AllEntries P node.txs) {d : ArrivalDraw}
    (hrun : node.addArrival d = some node') : AllEntries P node'.txs := by
  unfold MockNode.addArrival at hrun
  obtain ⟨parent, -, hrun⟩ := Option.bind_eq_some_iff.1 hrun
  cases parent with
  | none =>
    obtain rfl := Option.some.inj hrun
    exact h.insert (hP.generated _ d)
  | some parent =>
    obtain ⟨p, -, hrun⟩ := Option.bind_eq_some_iff.1 hrun
    refine hP.adjustDescendantTotals ?_ hrun
    exact h.insert (hP.attached _ parent _ _ (hP.generated node.cfg.fee.maxSatVb d))

theorem Lasting.addArrivals (hP : Lasting P) {draw : ℕ → ArrivalDraw} : ∀ (n : ℕ) {node node' : MockNode},
    AllEntries P node.txs → MockNode.addArrivals draw n node = some node' → AllEntries P node'.txs
  | 0, _, _, h, hrun => Option.some.inj hrun ▸ h
  | n + 1, _, _, h, hrun => by
    unfold MockNode.addArrivals at hrun
    obtain ⟨mid, hstep, hrun⟩ := Option.bind_eq_some_iff.1 hrun
    exact hP.addArrivals n (hP.addArrival h hstep) hrun

theorem Lasting.removeLeaf (hP : Lasting P) (h : AllEntries P node.txs) {leaf : Txid}
    (hrun : node.removeLeaf leaf = some node') : AllEntries P node'.txs := by
  unfold MockNode.removeLeaf at hrun
  split at hrun
  · exact Option.some.inj hrun ▸ h
  · split at hrun
    · exact Option.some.inj hrun ▸ h
    · dsimp only at hrun
      split at hrun
      · obtain rfl := Option.some.inj hrun
        exact h.erase leaf
      · exact hP.adjustDescendantTotals (h.erase leaf) hrun

theorem Lasting.evictLeaves (hP : Lasting P) {order : ℕ → SetOrder Txid} : ∀ (n : ℕ) {node node' : MockNode},
    AllEntries P node.txs → MockNode.evictLeaves order n node = some node' → AllEntries P node'.txs
  | 0, _, _, h, hrun => Option.some.inj hrun ▸ h
  | n + 1, node, _, h, hrun => by
    unfold MockNode.evictLeaves at hrun
    split at hrun
    · exact Option.some.inj hrun ▸ h
    · obtain ⟨leaf, -, hrun⟩ := Option.bind_eq_some_iff.1 hrun
      obtain ⟨mid, hstep, hrun⟩ := Option.bind_eq_some_iff.1 hrun
      exact hP.evictLeaves n (hP.removeLeaf h hstep) hrun

theorem Lasting.confirmSet (hP : Lasting P) (h : AllEntries P node.txs) {order setOrder : SetOrder Txid}
    {set : Finset Txid} (hrun : node.confirmSet order setOrder set = some node') : AllEntries P node'.txs := by
  obtain ⟨txs, hrepair, hrun⟩ := Option.bind_eq_some_iff.1 hrun
  obtain rfl := Option.some.inj hrun
  exact AllEntries.repairAll hP _ ((AllEntries.modifyAll hP.rerooted _ h).removeAll _) hrepair

/-! ## Runs -/

theorem Lasting.call (hP : Lasting P) (h : AllEntries P node.txs) {c : Call} (hrun : node.call c = some node') :
    AllEntries P node'.txs := by
  cases c with
  | advance order draw =>
    obtain ⟨mid, hevict, hrun⟩ := Option.bind_eq_some_iff.1 hrun
    have hstart : AllEntries P { node with reloading := false }.txs := h
    exact hP.addArrivals _ (hP.evictLeaves _ hstart hevict) hrun
  | massDrop order fraction => exact hP.evictLeaves _ h hrun
  | reload => exact Option.some.inj hrun ▸ h
  | mineBlock order setOrder =>
    obtain ⟨confirmed, -, hrun⟩ := Option.bind_eq_some_iff.1 hrun
    have hstart : AllEntries P { node with tipHeight := node.tipHeight + 1 }.txs := h
    exact hP.confirmSet hstart hrun

theorem Lasting.callAll (hP : Lasting P) : ∀ (calls : List Call) {node node' : MockNode}, AllEntries P node.txs →
    MockNode.callAll calls node = some node' → AllEntries P node'.txs
  | [], _, _, h, hrun => Option.some.inj hrun ▸ h
  | c :: calls, _, _, h, hrun => by
    unfold MockNode.callAll at hrun
    obtain ⟨mid, hstep, hrun⟩ := Option.bind_eq_some_iff.1 hrun
    exact hP.callAll calls (hP.call h hstep) hrun

/-- **A lasting property is one of every entry after every run.** -/
theorem Lasting.run (hP : Lasting P) {cfg : ChurnConfig} {draw : ℕ → ArrivalDraw} {initialSize : ℕ} {calls : List Call}
    (hrun : MockNode.run cfg draw initialSize calls = some node) : AllEntries P node.txs := by
  obtain ⟨first, hnew, hrun⟩ := Option.bind_eq_some_iff.1 hrun
  have hempty : AllEntries P (MockNode.empty cfg).txs := fun t e he => by
    rw [show (MockNode.empty cfg).txs = ∅ from rfl, Finmap.lookup_empty] at he
    cases he
  exact hP.callAll calls (hP.addArrivals initialSize hempty hnew) hrun

end Sim
end Satya
