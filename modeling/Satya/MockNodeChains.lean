import Mathlib.Algebra.BigOperators.Group.List.Basic
import Satya.Chains
import Satya.MockNode
/-!
# MockNodeChains — the mempool as chains

The abstract mempool: chains of transactions, a parent above its child.  `Describes` says which chains a node's two maps
hold; a walk along the maps then runs along a chain.
-/
namespace Satya
namespace Sim

/-- A transaction without what depends on its chain. -/
structure Tx where
  txid : Txid
  vsize : ℕ
  base : ℕ

def sizeOf (l : List Tx) : ℕ := (l.map Tx.vsize).sum

def feeOf (l : List Tx) : ℕ := (l.map Tx.base).sum

@[simp] theorem sizeOf_nil : sizeOf [] = 0 := rfl

@[simp] theorem sizeOf_cons (x : Tx) (l : List Tx) : sizeOf (x :: l) = x.vsize + sizeOf l := by simp [sizeOf]

@[simp] theorem sizeOf_append (l l' : List Tx) : sizeOf (l ++ l') = sizeOf l + sizeOf l' := by simp [sizeOf]

@[simp] theorem feeOf_nil : feeOf [] = 0 := rfl

@[simp] theorem feeOf_cons (x : Tx) (l : List Tx) : feeOf (x :: l) = x.base + feeOf l := by simp [feeOf]

@[simp] theorem feeOf_append (l l' : List Tx) : feeOf (l ++ l') = feeOf l + feeOf l' := by simp [feeOf]

def parentOf (pre : List Tx) : List Txid := (pre.getLast?.map Tx.txid).toList

@[simp] theorem parentOf_nil : parentOf [] = [] := rfl

@[simp] theorem parentOf_concat (pre : List Tx) (p : Tx) : parentOf (pre ++ [p]) = [p.txid] := by simp [parentOf]

theorem parentOf_append {l l' : List Tx} (h : l' ≠ []) : parentOf (l ++ l') = parentOf l' := by
  rcases List.eq_nil_or_concat' l' with rfl | ⟨above, p, rfl⟩
  · exact absurd rfl h
  · rw [← List.append_assoc, parentOf_concat, parentOf_concat]

theorem mem_parentOf {pre : List Tx} {k : Txid} : k ∈ parentOf pre ↔ ∃ above p, pre = above ++ [p] ∧ p.txid = k := by
  rcases List.eq_nil_or_concat' pre with rfl | ⟨above, p, rfl⟩
  · simp
  · rw [parentOf_concat, List.mem_singleton]
    constructor
    · rintro rfl
      exact ⟨above, p, rfl, rfl⟩
    · rintro ⟨above', p', heq, rfl⟩
      obtain rfl : p = p' := by simpa using (List.append_inj' heq rfl).2
      rfl

/-- The entry of `x` below `pre` and above `post`. -/
def entryAt (pre : List Tx) (x : Tx) (post : List Tx) : MempoolEntry where
  vsize := x.vsize
  weight := some (x.vsize * 4)
  depends := parentOf pre
  fees := { base := x.base, ancestor := x.base + feeOf pre, descendant := x.base + feeOf post }
  ancestorsize := x.vsize + sizeOf pre
  descendantsize := x.vsize + sizeOf post
  time := some 1700000000

abbrev Forest := Chains Tx.txid

/-- The maps hold exactly these chains, none longer than the configuration allows. -/
structure Describes (node : MockNode) (C : Forest) : Prop where
  entry : ∀ {pre x post}, C.At pre x post → node.txs.lookup x.txid = some (entryAt pre x post)
  child : ∀ {pre x post}, C.At pre x post → node.children.lookup x.txid = post.head?.map Tx.txid
  entry_none : ∀ {t}, ¬ C.Holds t → node.txs.lookup t = none
  child_none : ∀ {t}, ¬ C.Holds t → node.children.lookup t = none
  short : ∀ {pre x post}, C.At pre x post → (pre ++ x :: post).length ≤ max 1 node.cfg.maxChain

variable {node : MockNode} {C : Forest} {pre post : List Tx} {x : Tx}

theorem Describes.holds_iff (h : Describes node C) {t : Txid} : C.Holds t ↔ t ∈ node.txs := by
  constructor
  · rintro ⟨pre, x, post, hat, rfl⟩
    exact Finmap.mem_of_lookup_eq_some (h.entry hat)
  · intro ht
    by_contra hn
    exact Finmap.lookup_eq_none.1 (h.entry_none hn) ht

/-- **The entry of a txid is the entry of its spot.** -/
theorem Describes.spot (h : Describes node C) {t : Txid} {e : MempoolEntry} (he : node.txs.lookup t = some e) :
    ∃ pre x post, C.At pre x post ∧ x.txid = t ∧ e = entryAt pre x post := by
  obtain ⟨pre, x, post, hat, rfl⟩ := h.holds_iff.2 (Finmap.mem_of_lookup_eq_some he)
  refine ⟨pre, x, post, hat, rfl, ?_⟩
  rw [h.entry hat, Option.some.injEq] at he
  exact he.symm

theorem describes_empty (cfg : ChurnConfig) : Describes (MockNode.empty cfg) Chains.none where
  entry h := absurd h (Set.notMem_empty _)
  child h := absurd h (Set.notMem_empty _)
  entry_none _ := Finmap.lookup_empty _
  child_none _ := Finmap.lookup_empty _
  short h := absurd h (Set.notMem_empty _)

theorem Describes.setReloading (h : Describes node C) (b : Bool) : Describes { node with reloading := b } C :=
  ⟨h.entry, h.child, h.entry_none, h.child_none, h.short⟩

theorem Describes.setTip (h : Describes node C) (n : ℕ) : Describes { node with tipHeight := n } C :=
  ⟨h.entry, h.child, h.entry_none, h.child_none, h.short⟩

/-! ## Walks -/

/-- The entries of a line point upwards. -/
def LinkedUp (txs : EntryMap) (line : List Tx) : Prop :=
  ∀ above y below, line = above ++ y :: below →
    (txs.lookup y.txid).map MempoolEntry.depends = some (parentOf above)

theorem LinkedUp.upper {txs : EntryMap} {line rest : List Tx} (h : LinkedUp txs (line ++ rest)) : LinkedUp txs line := by
  intro above y below hline
  exact h above y (below ++ rest) (by rw [hline, List.append_assoc, List.cons_append])

theorem LinkedUp.mem {txs : EntryMap} {line : List Tx} (h : LinkedUp txs line) {y : Tx} (hy : y ∈ line) :
    y.txid ∈ txs := by
  obtain ⟨above, below, hline⟩ := List.append_of_mem hy
  obtain ⟨e, he, -⟩ := Option.map_eq_some_iff.1 (h above y below hline)
  exact Finmap.mem_of_lookup_eq_some he

/-- **A walk up a linked line yields what is above, nearest first.** -/
theorem ancestorsWalk_linked {txs : EntryMap} : ∀ (pre : List Tx) (x : Tx) (fuel : ℕ), LinkedUp txs (pre ++ [x]) →
    pre.length < fuel → MockNode.ancestorsWalk txs fuel x.txid = some (pre.reverse.map Tx.txid) := by
  intro pre
  induction pre using List.reverseRecOn with
  | nil =>
    intro x fuel h hf
    obtain ⟨fuel, rfl⟩ := Nat.exists_eq_succ_of_ne_zero (Nat.ne_of_gt hf)
    obtain ⟨e, he, hdep⟩ := Option.map_eq_some_iff.1 (h [] x [] rfl)
    unfold MockNode.ancestorsWalk
    rw [he]
    dsimp only
    rw [hdep]
    rfl
  | append_singleton pre p ih =>
    intro x fuel h hf
    rw [List.length_append, List.length_singleton] at hf
    obtain ⟨fuel, rfl⟩ := Nat.exists_eq_succ_of_ne_zero (Nat.ne_of_gt (Nat.zero_lt_of_lt hf))
    obtain ⟨e, he, hdep⟩ := Option.map_eq_some_iff.1 (h (pre ++ [p]) x [] rfl)
    rw [parentOf_concat] at hdep
    have hp : p.txid ∈ txs := h.upper.mem (by simp)
    unfold MockNode.ancestorsWalk
    rw [he]
    dsimp only
    rw [hdep, List.head?_cons]
    dsimp only
    rw [if_pos hp, ih p fuel h.upper (by omega)]
    simp

theorem Describes.linkedUp (h : Describes node C) (hat : C.At pre x post) : LinkedUp node.txs (pre ++ x :: post) := by
  intro above y below hline
  have hat' : C.At above y below := by
    unfold Chains.At at hat ⊢
    rwa [← hline]
  rw [h.entry hat', Option.map_some]
  rfl

theorem length_le_keys {txs : EntryMap} {line : List Tx} (hn : (line.map Tx.txid).Nodup)
    (hmem : ∀ y ∈ line, y.txid ∈ txs) : line.length ≤ txs.keys.card := by
  rw [← List.length_map (f := Tx.txid), ← List.toFinset_card_of_nodup hn]
  apply Finset.card_le_card
  intro t ht
  obtain ⟨y, hy, rfl⟩ := List.mem_map.1 (List.mem_toFinset.1 ht)
  exact Finmap.mem_keys.2 (hmem y hy)

theorem Describes.length_lt_fuel (h : Describes node C) (hat : C.At pre x post) :
    (pre ++ x :: post).length < node.fuel := by
  have hle := length_le_keys hat.nodup (fun y hy => (h.linkedUp hat).mem hy)
  unfold MockNode.fuel
  omega

theorem Describes.ancestorsOf (h : Describes node C) (hat : C.At pre x post) :
    node.ancestorsOf x.txid = some (pre.reverse.map Tx.txid) := by
  have hlink := h.linkedUp hat
  rw [← List.singleton_append, ← List.append_assoc] at hlink
  have hlen := h.length_lt_fuel hat
  rw [List.length_append, List.length_cons] at hlen
  exact ancestorsWalk_linked pre x _ hlink.upper (by omega)

/-- **The descent from a transaction ends at the last of its chain.** -/
theorem descend_last {children : ChildMap}
    (hchild : ∀ {pre x post}, C.At pre x post → children.lookup x.txid = post.head?.map Tx.txid) :
    ∀ (post : List Tx) (pre : List Tx) (x : Tx) (fuel : ℕ), C.At pre x post → post.length < fuel →
      ∃ c t, pre ++ x :: post = c ++ [t] ∧ MockNode.descend children fuel x.txid = some t.txid
  | [], pre, x, fuel, hat, hf => by
    obtain ⟨fuel, rfl⟩ := Nat.exists_eq_succ_of_ne_zero (Nat.ne_of_gt hf)
    refine ⟨pre, x, rfl, ?_⟩
    unfold MockNode.descend
    rw [hchild hat]
    rfl
  | y :: post, pre, x, fuel, hat, hf => by
    rw [List.length_cons] at hf
    obtain ⟨fuel, rfl⟩ := Nat.exists_eq_succ_of_ne_zero (Nat.ne_of_gt (Nat.zero_lt_of_lt hf))
    obtain ⟨c, t, hline, hleaf⟩ := descend_last hchild post (pre ++ [x]) y fuel hat.next (by omega)
    refine ⟨c, t, by rw [← hline]; simp, ?_⟩
    unfold MockNode.descend
    rw [hchild hat, List.head?_cons, Option.map_some]
    exact hleaf

/-! ## Updates in place -/

theorem lookup_modify (f : MempoolEntry → MempoolEntry) (txs : EntryMap) (k a : Txid) :
    (modify f txs k).lookup a = if a = k then (txs.lookup a).map f else txs.lookup a := by
  unfold modify
  by_cases hak : a = k
  · subst hak
    rw [if_pos rfl]
    cases hl : txs.lookup a with
    | none => exact hl
    | some e => exact Finmap.lookup_insert _
  · rw [if_neg hak]
    cases txs.lookup k with
    | none => rfl
    | some e => exact Finmap.lookup_insert_of_ne _ hak

theorem lookup_modifyAll (f : MempoolEntry → MempoolEntry) (a : Txid) : ∀ (keys : List Txid) (txs : EntryMap),
    keys.Nodup → (keys.foldl (modify f) txs).lookup a = if a ∈ keys then (txs.lookup a).map f else txs.lookup a
  | [], _, _ => by simp
  | k :: keys, txs, hn => by
    rw [List.nodup_cons] at hn
    rw [List.foldl_cons, lookup_modifyAll f a keys _ hn.2, lookup_modify]
    by_cases hak : a = k
    · subst hak
      rw [if_neg hn.1, if_pos rfl, if_pos List.mem_cons_self]
    · simp [hak]

/-- What an adjustment of the descendant totals does to a node: a pass over one line from its last transaction up. -/
theorem adjustDescendantTotals_linked {pre : List Tx} {p : Tx} (hlink : LinkedUp node.txs (pre ++ [p]))
    (hn : ((pre ++ [p]).map Tx.txid).Nodup) (vsize base : ℕ) (add : Bool) :
    ∃ txs, node.adjustDescendantTotals p.txid vsize base add = some { node with txs := txs } ∧
      ∀ a, txs.lookup a = if a ∈ (pre ++ [p]).map Tx.txid then
        (node.txs.lookup a).map (MockNode.adjustTotals vsize base add) else node.txs.lookup a := by
  have hlen := length_le_keys hn (fun y hy => hlink.mem hy)
  rw [List.length_append, List.length_singleton] at hlen
  have hwalk : node.ancestorsOf p.txid = some (pre.reverse.map Tx.txid) :=
    ancestorsWalk_linked pre p _ hlink (by unfold MockNode.fuel; omega)
  have hkeys : p.txid :: pre.reverse.map Tx.txid = ((pre ++ [p]).map Tx.txid).reverse := by simp
  refine ⟨_, by unfold MockNode.adjustDescendantTotals; rw [hwalk]; rfl, fun a => ?_⟩
  rw [hkeys, lookup_modifyAll _ _ _ _ (List.nodup_reverse.2 hn)]
  simp only [List.mem_reverse]

end Sim
end Satya
