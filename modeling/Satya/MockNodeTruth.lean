import Mathlib.Algebra.BigOperators.Group.Finset.Basic
import Satya.MockNodeMining
/-!
# MockNodeTruth — the simulated mempool stays truthful

`Truthful` reads a node's maps alone: single present parents, a reverse index that agrees, no cycle, aggregates that are
the sums they stand for, chains no longer than configured.  Every run of calls keeps it, because it keeps chains.
-/
namespace Satya
namespace Sim

open Relation (TransGen ReflTransGen)

namespace MockNode

def DependsOn (node : MockNode) (t p : Txid) : Prop := ∃ e, node.txs.lookup t = some e ∧ p ∈ e.depends

def HasChild (node : MockNode) (p c : Txid) : Prop := node.children.lookup p = some c

open Classical in
noncomputable def withAncestors (node : MockNode) (t : Txid) : Finset Txid :=
  node.txs.keys.filter (fun a => ReflTransGen node.DependsOn t a)

open Classical in
noncomputable def withDescendants (node : MockNode) (t : Txid) : Finset Txid :=
  node.txs.keys.filter (fun d => ReflTransGen node.DependsOn d t)

def vsizeOf (node : MockNode) (t : Txid) : ℕ := ((node.txs.lookup t).map MempoolEntry.vsize).getD 0

def baseOf (node : MockNode) (t : Txid) : ℕ := ((node.txs.lookup t).map (fun e => e.fees.base)).getD 0

structure Truthful (node : MockNode) : Prop where
  one_parent : ∀ t e, node.txs.lookup t = some e → e.depends = [] ∨ ∃ p, e.depends = [p] ∧ p ∈ node.txs
  child_iff : ∀ p c, node.children.lookup p = some c ↔ ∃ e, node.txs.lookup c = some e ∧ e.depends = [p]
  acyclic_depends : ∀ t, ¬ TransGen node.DependsOn t t
  acyclic_children : ∀ t, ¬ TransGen node.HasChild t t
  ancestors : ∀ t e, node.txs.lookup t = some e →
    e.ancestorsize = ∑ a ∈ node.withAncestors t, node.vsizeOf a ∧
    e.fees.ancestor = ∑ a ∈ node.withAncestors t, node.baseOf a
  descendants : ∀ t e, node.txs.lookup t = some e →
    e.descendantsize = ∑ d ∈ node.withDescendants t, node.vsizeOf d ∧
    e.fees.descendant = ∑ d ∈ node.withDescendants t, node.baseOf d
  chain_le : ∀ l : List Txid, l.IsChain node.DependsOn → l.length ≤ max 1 node.cfg.maxChain

end MockNode

variable {node : MockNode} {C : Forest} {pre post : List Tx} {x : Tx}

/-! ## Chains are truthful -/

theorem Describes.dependsOn_iff (h : Describes node C) {t p : Txid} : node.DependsOn t p ↔ C.Under t p := by
  constructor
  · rintro ⟨e, he, hp⟩
    obtain ⟨pre, x, post, hat, rfl, rfl⟩ := h.spot he
    exact hat.under_iff.2 (mem_parentOf.1 hp)
  · intro hunder
    obtain ⟨pre, x, post, hat, rfl⟩ := hunder.holds
    exact ⟨entryAt pre x post, h.entry hat, mem_parentOf.2 (hat.under_iff.1 hunder)⟩

theorem Describes.dependsOn_eq (h : Describes node C) : node.DependsOn = C.Under := by
  funext t p
  exact propext h.dependsOn_iff

theorem depends_eq_singleton {p : Txid} : (entryAt pre x post).depends = [p] ↔ p ∈ parentOf pre := by
  show parentOf pre = [p] ↔ p ∈ parentOf pre
  rcases List.eq_nil_or_concat' pre with rfl | ⟨above, q, rfl⟩
  · simp
  · simp [eq_comm]

theorem Describes.hasChild_iff (h : Describes node C) {p c : Txid} : node.HasChild p c ↔ C.Under c p := by
  constructor
  · intro hchild
    have hp : C.Holds p := by
      by_contra hn
      rw [MockNode.HasChild, h.child_none hn] at hchild
      cases hchild
    obtain ⟨pre, x, post, hat, rfl⟩ := hp
    rw [MockNode.HasChild, h.child hat] at hchild
    cases post with
    | nil => cases hchild
    | cons y post => exact ⟨pre, x, y, post, hat, by simpa using hchild, rfl⟩
  · rintro ⟨pre, p, x, post, hat, rfl, rfl⟩
    exact h.child hat

theorem sum_line {f : Txid → ℕ} {g : Tx → ℕ} {part line : List Tx} (hn : (line.map Tx.txid).Nodup)
    (hsub : part.Sublist line) (hf : ∀ y ∈ line, f y.txid = g y) {s : Finset Txid}
    (hs : ∀ k, k ∈ s ↔ k ∈ part.map Tx.txid) : ∑ k ∈ s, f k = (part.map g).sum := by
  have hset : s = (part.map Tx.txid).toFinset := by
    ext k
    rw [hs, List.mem_toFinset]
  rw [hset, List.sum_toFinset f (hn.sublist (hsub.map _)), List.map_map]
  exact congrArg List.sum (List.map_congr_left (fun y hy => hf y (hsub.subset hy)))

theorem Describes.mem_withAncestors (h : Describes node C) (hat : C.At pre x post) (k : Txid) :
    k ∈ node.withAncestors x.txid ↔ k ∈ (pre ++ [x]).map Tx.txid := by
  classical
  unfold MockNode.withAncestors
  rw [Finset.mem_filter, h.dependsOn_eq, hat.ancestors_self_iff, Finmap.mem_keys, and_iff_right_iff_imp]
  intro hk
  refine h.holds_iff.1 (Chains.holds_iff.2 ⟨_, hat, ?_⟩)
  exact (((List.singleton_sublist.2 List.mem_cons_self).append_left pre).map _).subset hk

theorem Describes.mem_withDescendants (h : Describes node C) (hat : C.At pre x post) (k : Txid) :
    k ∈ node.withDescendants x.txid ↔ k ∈ (x :: post).map Tx.txid := by
  classical
  unfold MockNode.withDescendants
  rw [Finset.mem_filter, h.dependsOn_eq, hat.descendants_self_iff, Finmap.mem_keys, and_iff_right_iff_imp]
  intro hk
  refine h.holds_iff.1 (Chains.holds_iff.2 ⟨_, hat, ?_⟩)
  exact ((List.sublist_append_right pre (x :: post)).map _).subset hk

theorem Describes.vsizeOf_line (h : Describes node C) (hat : C.At pre x post) :
    ∀ y ∈ pre ++ x :: post, node.vsizeOf y.txid = y.vsize := by
  intro y hy
  obtain ⟨above, below, -, haty⟩ := Chains.at_of_mem hat hy
  unfold MockNode.vsizeOf
  rw [h.entry haty]
  rfl

theorem Describes.baseOf_line (h : Describes node C) (hat : C.At pre x post) :
    ∀ y ∈ pre ++ x :: post, node.baseOf y.txid = y.base := by
  intro y hy
  obtain ⟨above, below, -, haty⟩ := Chains.at_of_mem hat hy
  unfold MockNode.baseOf
  rw [h.entry haty]
  rfl

/-- **A node whose maps hold chains is truthful.** -/
theorem Describes.truthful (h : Describes node C) : node.Truthful where
  one_parent t e he := by
    obtain ⟨pre, x, post, hat, rfl, rfl⟩ := h.spot he
    rcases List.eq_nil_or_concat' pre with rfl | ⟨above, p, rfl⟩
    · exact Or.inl rfl
    · exact Or.inr ⟨p.txid, parentOf_concat above p, h.holds_iff.1 hat.last.holds⟩
  child_iff p c := by
    refine h.hasChild_iff.trans (h.dependsOn_iff.symm.trans ⟨?_, ?_⟩)
    · rintro ⟨e, he, hp⟩
      obtain ⟨pre, x, post, hat, rfl, rfl⟩ := h.spot he
      exact ⟨_, he, depends_eq_singleton.2 hp⟩
    · rintro ⟨e, he, hp⟩
      exact ⟨e, he, by rw [hp]; exact List.mem_singleton_self p⟩
  acyclic_depends t := by
    rw [h.dependsOn_eq]
    exact Chains.not_transGen_self t
  acyclic_children t := by
    have hswap : node.HasChild = Function.swap C.Under := by
      funext p c
      exact propext h.hasChild_iff
    rw [hswap, Relation.transGen_swap]
    exact Chains.not_transGen_self t
  ancestors t e he := by
    obtain ⟨pre, x, post, hat, rfl, rfl⟩ := h.spot he
    have hsub : (pre ++ [x]).Sublist (pre ++ x :: post) :=
      (List.singleton_sublist.2 List.mem_cons_self).append_left pre
    rw [sum_line hat.nodup hsub (h.vsizeOf_line hat) (h.mem_withAncestors hat),
      sum_line hat.nodup hsub (h.baseOf_line hat) (h.mem_withAncestors hat)]
    exact ⟨by simp [entryAt, sizeOf, Nat.add_comm], by simp [entryAt, feeOf, Nat.add_comm]⟩
  descendants t e he := by
    obtain ⟨pre, x, post, hat, rfl, rfl⟩ := h.spot he
    have hsub : (x :: post).Sublist (pre ++ x :: post) := List.sublist_append_right pre (x :: post)
    rw [sum_line hat.nodup hsub (h.vsizeOf_line hat) (h.mem_withDescendants hat),
      sum_line hat.nodup hsub (h.baseOf_line hat) (h.mem_withDescendants hat)]
    exact ⟨by simp [entryAt, sizeOf], by simp [entryAt, feeOf]⟩
  chain_le l hl := by
    rw [h.dependsOn_eq] at hl
    cases l with
    | nil => exact Nat.zero_le _
    | cons t l =>
      cases l with
      | nil => exact le_max_left _ _
      | cons p l =>
        obtain ⟨pre, x, post, hat, rfl⟩ := (List.isChain_cons_cons.1 hl).1.holds
        have hwalk := Chains.At.length_walk_le (p :: l) hat hl
        have hlen := h.short hat
        rw [List.length_append, List.length_cons] at hlen
        rw [List.length_cons]
        omega

/-! ## Runs -/

/-- **A tick evicts and adds exactly its counts.** -/
theorem Describes.advance (h : Describes node C) {order : ℕ → SetOrder Txid} {draw : ℕ → ArrivalDraw}
    (hfresh : node.callFresh (.advance order draw) = true) :
    ∃ node' C', node.advance order draw = some node' ∧ Describes node' C' ∧ node'.cfg = node.cfg ∧
      node'.txs.keys.card = (node.txs.keys.card - node.cfg.evictionsPerTick) + node.cfg.arrivalsPerTick := by
  obtain ⟨mid, Cmid, hevict, hmid, hcfg, hgone⟩ := (h.setReloading false).evictLeaves order node.cfg.evictionsPerTick
  have harrive : MockNode.arrivalsFresh draw node.cfg.arrivalsPerTick mid = true := by
    have hall : (MockNode.evictLeaves order node.cfg.evictionsPerTick { node with reloading := false }).all
      (MockNode.arrivalsFresh draw node.cfg.arrivalsPerTick) = true := hfresh
    rwa [hevict] at hall
  obtain ⟨node', C', hrun, h', hcfg', hcard⟩ := hmid.addArrivals node.cfg.arrivalsPerTick harrive
  refine ⟨node', C', ?_, h', hcfg'.trans hcfg, by rw [hcard, hgone]⟩
  unfold MockNode.advance
  rw [hevict]
  exact hrun

/-- **A call keeps the maps in chains**, and never fails. -/
theorem Describes.call (h : Describes node C) {c : MockNode.Call} (hfresh : node.callFresh c = true) :
    ∃ node' C', node.call c = some node' ∧ Describes node' C' ∧ node'.cfg = node.cfg := by
  cases c with
  | advance order draw =>
    obtain ⟨node', C', hrun, h', hcfg, -⟩ := h.advance hfresh
    exact ⟨node', C', hrun, h', hcfg⟩
  | massDrop order fraction =>
    obtain ⟨node', C', hevict, h', hcfg, -⟩ := h.evictLeaves order (MockNode.dropTarget node.txs.keys.card fraction)
    exact ⟨node', C', hevict, h', hcfg⟩
  | reload => exact ⟨_, C, rfl, h.setReloading true, rfl⟩
  | mineBlock order setOrder =>
    obtain ⟨node', set, -, -, hrun, h', hcfg, -⟩ := h.mineBlock order setOrder
    exact ⟨node', _, hrun, h', hcfg⟩

theorem Describes.callAll : ∀ (calls : List MockNode.Call) {node : MockNode} {C : Forest}, Describes node C →
    MockNode.callsFresh calls node = true →
      ∃ node' C', MockNode.callAll calls node = some node' ∧ Describes node' C' ∧ node'.cfg = node.cfg
  | [], node, C, h, _ => ⟨node, C, rfl, h, rfl⟩
  | c :: calls, node, C, h, hfresh => by
    unfold MockNode.callsFresh at hfresh
    rw [Bool.and_eq_true] at hfresh
    obtain ⟨mid, Cmid, hstep, hmid, hcfg⟩ := h.call hfresh.1
    rw [hstep] at hfresh
    obtain ⟨node', C', hrun, h', hcfg'⟩ := hmid.callAll calls hfresh.2
    refine ⟨node', C', ?_, h', hcfg'.trans hcfg⟩
    unfold MockNode.callAll
    rw [hstep]
    exact hrun

/-- Every run of calls ends, in a node whose maps hold chains. -/
theorem run_describes {cfg : ChurnConfig} {draw : ℕ → ArrivalDraw} {initialSize : ℕ} {calls : List MockNode.Call}
    (hfresh : MockNode.runFresh cfg draw initialSize calls = true) :
    ∃ node C, MockNode.run cfg draw initialSize calls = some node ∧ Describes node C ∧ node.cfg = cfg := by
  unfold MockNode.runFresh at hfresh
  rw [Bool.and_eq_true] at hfresh
  obtain ⟨first, Cfirst, hnew, hfirst, hcfg, -⟩ := (describes_empty cfg).addArrivals initialSize hfresh.1
  have hnew' : MockNode.new draw initialSize cfg = some first := hnew
  rw [hnew'] at hfresh
  obtain ⟨node, C, hrun, h, hcfg'⟩ := hfirst.callAll calls hfresh.2
  refine ⟨node, C, ?_, h, hcfg'.trans hcfg⟩
  unfold MockNode.run
  rw [hnew']
  exact hrun

/-- **The simulated mempool stays truthful** over every sequence of calls, whatever is drawn and in whatever order the
maps are iterated, as long as the generated txids are fresh; and every call returns. -/
theorem mempool_truthful (cfg : ChurnConfig) (draw : ℕ → ArrivalDraw) (initialSize : ℕ) (calls : List MockNode.Call)
    (hfresh : MockNode.runFresh cfg draw initialSize calls = true) :
    ∃ node, MockNode.run cfg draw initialSize calls = some node ∧ node.cfg = cfg ∧ node.Truthful := by
  obtain ⟨node, C, hrun, h, hcfg⟩ := run_describes hfresh
  exact ⟨node, hrun, hcfg, h.truthful⟩

/-- A child whenever one can be attached, in chains of at most twelve. -/
def chainCfg : ChurnConfig := ⟨2, 1, ⟨1, 100⟩, 1, 12⟩

/-- The draws of a batch of arrivals whose txids start at `first`, ten of which fill a block. -/
def batchDraw (first i : ℕ) : ArrivalDraw where
  coin := 0
  order := SetOrder.ascending Txid
  index _ _ := 0
  index_lt _ _ h := h
  spread := 5
  raw := Fin.ofNat _ (first + i)
  vsize := 100000
  vsize_mem := by decide

def batchCalls : List MockNode.Call :=
  [.advance (fun _ => SetOrder.ascending Txid) (batchDraw 200),
    .mineBlock (SetOrder.ascending Txid) (SetOrder.ascending Txid), .reload,
    .advance (fun _ => SetOrder.ascending Txid) (batchDraw 300), .massDrop (fun _ => SetOrder.ascending Txid) (1 / 4)]

theorem mempool_truthful_batch :
    MockNode.runFresh chainCfg (batchDraw 100) 12 batchCalls = true ∧
      ∃ node, MockNode.run chainCfg (batchDraw 100) 12 batchCalls = some node ∧ node.cfg = chainCfg ∧ node.Truthful :=
  have hfresh : MockNode.runFresh chainCfg (batchDraw 100) 12 batchCalls = true := by decide +kernel
  ⟨hfresh, mempool_truthful chainCfg (batchDraw 100) 12 batchCalls hfresh⟩

end Sim
end Satya
