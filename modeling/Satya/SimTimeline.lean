import Satya.MockNodeCounts
import Satya.MockNodeFrame
/-!
# SimTimeline — the simulated node over time

At every moment the node stands still or takes one call, and no txid is drawn a second time.  While a transaction is in
the mempool nothing of its own changes, and of its parents it loses exactly those that have left (`lasting_entry`).
-/
namespace Satya
namespace Sim

open MockNode (Call)

/-- A node from moment to moment; a drawn txid was in the mempool at no moment before. -/
structure Timeline (nodes : ℕ → MockNode) : Prop where
  start : ∃ cfg draw initialSize calls, MockNode.runFresh cfg draw initialSize calls = true ∧
    MockNode.run cfg draw initialSize calls = some (nodes 0)
  step : ∀ m, nodes (m + 1) = nodes m ∨ ∃ c, (nodes m).callFresh c = true ∧ (nodes m).call c = some (nodes (m + 1)) ∧
    ∀ t ∈ c.draws (nodes m).cfg, ∀ k ≤ m, t ∉ (nodes k).txs

variable {node node' : MockNode} {C : Forest} {nodes : ℕ → MockNode}

/-! ## One call -/

theorem Describes.parent_present (h : Describes node C) {t p : Txid} {e : MempoolEntry} (he : node.txs.lookup t = some e)
    (hp : p ∈ e.depends) : p ∈ node.txs := by
  rcases h.truthful.one_parent t e he with hnil | ⟨q, hq, hmem⟩
  · rw [hnil] at hp
    cases hp
  · rw [hq, List.mem_singleton] at hp
    exact hp ▸ hmem

/-- A block takes the parents that it confirms, and no others. -/
theorem Describes.depends_mined (h : Describes node C) {order setOrder : SetOrder Txid}
    (hrun : node.mineBlock order setOrder = some node') {t : Txid} {e e' : MempoolEntry}
    (he : node.txs.lookup t = some e) (he' : node'.txs.lookup t = some e') (p : Txid) :
    p ∈ e'.depends ↔ p ∈ e.depends ∧ p ∈ node'.txs := by
  obtain ⟨mined, set, -, hset, hmine, h', -, -⟩ := h.mineBlock order setOrder
  rw [hrun, Option.some.injEq] at hmine
  subst hmine
  obtain ⟨pre, x, post, hat', rfl, rfl⟩ := h'.spot he'
  obtain ⟨top, hat, htop, -, -⟩ := (Chains.at_cut hset).1 hat'
  have hentry := h.entry hat
  rw [he, Option.some.injEq] at hentry
  rw [hentry]
  show p ∈ parentOf pre ↔ p ∈ parentOf (top ++ pre) ∧ p ∈ node'.txs
  cases pre with
  | nil =>
    refine iff_of_false (fun hp => by cases hp) ?_
    rintro ⟨hp, hmem⟩
    rw [List.append_nil] at hp
    obtain ⟨above, y, rfl, rfl⟩ := mem_parentOf.1 hp
    have hgone := htop y (by simp)
    have hleft := (h.mem_cut hset).1 (h'.holds_iff.2 hmem)
    exact hleft.2 (by simpa [confirmedIn] using hgone)
  | cons y pre =>
    rw [parentOf_append (List.cons_ne_nil y pre), iff_self_and]
    exact fun hp => h'.parent_present he' hp

/-- **A transaction that stays loses exactly the parents that leave.** -/
theorem Describes.depends_call (h : Describes node C) {c : Call} (hfresh : node.callFresh c = true)
    (hrun : node.call c = some node') {t : Txid} (ht : t ∉ c.draws node.cfg) {e e' : MempoolEntry}
    (he : node.txs.lookup t = some e) (he' : node'.txs.lookup t = some e') (p : Txid) :
    p ∈ e'.depends ↔ p ∈ e.depends ∧ p ∈ node'.txs := by
  by_cases hblock : ∀ order setOrder, c ≠ .mineBlock order setOrder
  · obtain ⟨node'', C', hrun', h', -⟩ := h.call hfresh
    rw [hrun, Option.some.injEq] at hrun'
    subst hrun'
    have hframe := (churn_frame depends_keptByChurn hblock hrun).inherits t e' he'
    have hsame : (node.settled c).txs = node.txs := by cases c <;> rfl
    rw [hsame] at hframe
    obtain ⟨e₀, he₀, hdepends⟩ := hframe.resolve_left ht
    rw [he, Option.some.injEq] at he₀
    subst he₀
    rw [hdepends, iff_self_and, ← hdepends]
    exact fun hp => h'.parent_present he' hp
  · push Not at hblock
    obtain ⟨order, setOrder, rfl⟩ := hblock
    exact h.depends_mined hrun he he' p

/-! ## Moments -/

namespace Timeline

theorem describes (h : Timeline nodes) : ∀ m, ∃ C, Describes (nodes m) C
  | 0 => by
    obtain ⟨cfg, draw, initialSize, calls, hfresh, hrun⟩ := h.start
    obtain ⟨node, C, hrun', hC, -⟩ := run_describes hfresh
    rw [hrun, Option.some.injEq] at hrun'
    exact hrun' ▸ ⟨C, hC⟩
  | m + 1 => by
    obtain ⟨C, hC⟩ := h.describes m
    rcases h.step m with heq | ⟨c, hfresh, hrun, -⟩
    · exact heq ▸ ⟨C, hC⟩
    · obtain ⟨node', C', hrun', hC', -⟩ := hC.call hfresh
      rw [hrun, Option.some.injEq] at hrun'
      exact hrun' ▸ ⟨C', hC'⟩

/-- What is in the mempool at the next moment and was there before it: it was there at this moment. -/
theorem entered (h : Timeline nodes) {j m : ℕ} (hj : j ≤ m) {t : Txid} (hold : t ∈ (nodes j).txs) {e' : MempoolEntry}
    (he' : (nodes (m + 1)).txs.lookup t = some e') : ∃ e, (nodes m).txs.lookup t = some e ∧ ownData e' = ownData e ∧
      ∀ p, p ∈ e'.depends ↔ p ∈ e.depends ∧ p ∈ (nodes (m + 1)).txs := by
  obtain ⟨C, hC⟩ := h.describes m
  rcases h.step m with heq | ⟨c, hfresh, hrun, hnew⟩
  · rw [heq] at he' ⊢
    exact ⟨e', he', rfl, fun p => (iff_self_and.2 (fun hp => hC.parent_present he' hp))⟩
  · have hdrawn : t ∉ c.draws (nodes m).cfg := fun ht => hnew t ht j hj hold
    obtain ⟨e, he, hdata⟩ := (inherits_call hrun t e' he').resolve_left hdrawn
    exact ⟨e, he, hdata, hC.depends_call hfresh hrun hdrawn he he'⟩

/-- **Nothing returns.** -/
theorem between (h : Timeline nodes) {j k : ℕ} (hjk : j ≤ k) {t : Txid} (hj : t ∈ (nodes j).txs) : ∀ {m : ℕ}, k ≤ m →
    t ∈ (nodes m).txs → t ∈ (nodes k).txs := by
  intro m hkm
  induction m, hkm using Nat.le_induction with
  | base => exact id
  | succ m hkm ih =>
    intro hm
    obtain ⟨e', he'⟩ := Finmap.mem_iff.1 hm
    obtain ⟨e, he, -⟩ := h.entered (hjk.trans hkm) hj he'
    exact ih (Finmap.mem_of_lookup_eq_some he)

/-- **While a transaction is in the mempool nothing of its own changes**, and its parents are those it had that are still
there. -/
theorem lasting_entry (h : Timeline nodes) {j : ℕ} {t : Txid} {e : MempoolEntry} (he : (nodes j).txs.lookup t = some e) :
    ∀ {m : ℕ}, j ≤ m → ∀ e', (nodes m).txs.lookup t = some e' →
      ownData e' = ownData e ∧ ∀ p, p ∈ e'.depends ↔ p ∈ e.depends ∧ p ∈ (nodes m).txs := by
  intro m hjm
  obtain ⟨C, hC⟩ := h.describes j
  have hpresent : ∀ p ∈ e.depends, p ∈ (nodes j).txs := fun p hp => hC.parent_present he hp
  induction m, hjm using Nat.le_induction with
  | base =>
    intro e' he'
    rw [he, Option.some.injEq] at he'
    exact he' ▸ ⟨rfl, fun p => iff_self_and.2 (hpresent p)⟩
  | succ m hjm ih =>
    intro e'' he''
    obtain ⟨e', he', hdata, hdepends⟩ := h.entered hjm (Finmap.mem_of_lookup_eq_some he) he''
    obtain ⟨hdata', hdepends'⟩ := ih e' he'
    refine ⟨hdata.trans hdata', fun p => ?_⟩
    rw [hdepends, hdepends', and_assoc]
    refine and_congr_right (fun hp => and_iff_right_of_imp (fun hlater => ?_))
    exact h.between hjm (hpresent p hp) (Nat.le_succ m) hlater

end Timeline

end Sim
end Satya
