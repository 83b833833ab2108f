import Satya.MockNodeChains
/-!
# MockNodeChurn — arrivals and evictions on chains

An arrival is a new chain or one more transaction at the end of a chain; an eviction takes the last one of a chain.
-/
namespace Satya
namespace Sim

variable {node : MockNode} {C : Forest} {pre post : List Tx} {x p t : Tx}

def arrivalTx (satVb : ℕ) (d : ArrivalDraw) : Tx := ⟨d.raw, d.vsize, min (satVb * d.vsize) u64Max⟩

theorem genStandaloneEntry_eq (satVb : ℕ) (d : ArrivalDraw) :
    MockNode.genStandaloneEntry satVb d = ((arrivalTx satVb d).txid, entryAt [] (arrivalTx satVb d) []) := rfl

theorem adjustTotals_add (pre : List Tx) (x : Tx) (post : List Tx) (t : Tx) :
    MockNode.adjustTotals t.vsize t.base true (entryAt pre x post) = entryAt pre x (post ++ [t]) := by
  simp [MockNode.adjustTotals, entryAt, Nat.add_assoc]

theorem adjustTotals_sub (pre : List Tx) (x : Tx) (post : List Tx) (t : Tx) :
    MockNode.adjustTotals t.vsize t.base false (entryAt pre x (post ++ [t])) = entryAt pre x post := by
  simp [MockNode.adjustTotals, entryAt, ← Nat.add_assoc]

/-! ## Arrivals -/

/-- **A standalone arrival is a new chain.** -/
theorem Describes.standalone (h : Describes node C) (ht : ¬ C.Holds t.txid) :
    Describes { node with txs := node.txs.insert t.txid (entryAt [] t []) } (C.plant t ht) where
  entry {pre x post} hat := by
    rcases Chains.at_plant.1 hat with ⟨rfl, rfl, rfl⟩ | hat
    · exact Finmap.lookup_insert _
    · exact (Finmap.lookup_insert_of_ne _ (hat.ne_of_not_holds ht)).trans (h.entry hat)
  child {pre x post} hat := by
    rcases Chains.at_plant.1 hat with ⟨rfl, rfl, rfl⟩ | hat
    · exact h.child_none ht
    · exact h.child hat
  entry_none {k} hk := by
    rw [Chains.holds_plant, not_or] at hk
    exact (Finmap.lookup_insert_of_ne _ hk.1).trans (h.entry_none hk.2)
  child_none {k} hk := by
    rw [Chains.holds_plant, not_or] at hk
    exact h.child_none hk.2
  short {pre x post} hat := by
    rcases Chains.at_plant.1 hat with ⟨rfl, rfl, rfl⟩ | hat
    · exact le_max_left _ _
    · exact h.short hat

/-- The maps after a transaction has joined the end of a chain. -/
theorem Describes.extended (h : Describes node C) (hline : pre ++ [p] ∈ C.lines)
    (hlen : pre.length + 1 < node.cfg.maxChain) (ht : ¬ C.Holds t.txid) {txs : EntryMap} {children : ChildMap}
    (htxs : ∀ a, txs.lookup a = if a ∈ (pre ++ [p]).map Tx.txid then
      (node.txs.lookup a).map (MockNode.adjustTotals t.vsize t.base true) else
      if a = t.txid then some (entryAt (pre ++ [p]) t []) else node.txs.lookup a)
    (hchildren : ∀ a, children.lookup a = if a = p.txid then some t.txid else node.children.lookup a) :
    Describes { node with txs := txs, children := children } (C.extend (pre ++ [p]) hline t ht) where
  entry {above x below} hx := by
    show txs.lookup x.txid = _
    rw [htxs]
    rcases Chains.at_extend.1 hx with ⟨hx, hother⟩ | ⟨rfl, rfl, rfl⟩ | ⟨below, rfl, hcut⟩
    · rw [if_neg (hx.not_mem_line hline hother), if_neg (hx.ne_of_not_holds ht), h.entry hx]
    · rw [if_neg (fun hm => ht (Chains.holds_iff.2 ⟨_, hline, hm⟩)), if_pos rfl]
    · have hx : C.At above x below := by unfold Chains.At; rwa [← hcut]
      rw [if_pos (by rw [hcut]; simp), h.entry hx, Option.map_some, adjustTotals_add]
  child {above x below} hx := by
    have hat : C.At pre p [] := hline
    show children.lookup x.txid = _
    rw [hchildren]
    rcases Chains.at_extend.1 hx with ⟨hx, hother⟩ | ⟨rfl, rfl, rfl⟩ | ⟨below, rfl, hcut⟩
    · have hne : x.txid ≠ p.txid := fun heq => hx.not_mem_line hline hother (by simp [heq])
      rw [if_neg hne, h.child hx]
    · rw [if_neg (Ne.symm (hat.ne_of_not_holds ht)), h.child_none ht]
      rfl
    · have hx : C.At above x below := by unfold Chains.At; rwa [← hcut]
      cases below with
      | nil =>
        obtain ⟨-, hx'⟩ := List.append_inj' hcut rfl
        obtain rfl : p = x := by simpa using hx'
        rw [if_pos rfl]
        rfl
      | cons y below =>
        have hne : x.txid ≠ p.txid := fun heq => by
          obtain ⟨-, -, hnil⟩ := hx.unique hat heq
          cases hnil
        rw [if_neg hne, h.child hx]
        rfl
  entry_none {k} hk := by
    show txs.lookup k = none
    rw [Chains.holds_extend, not_or] at hk
    have hmem : k ∉ (pre ++ [p]).map Tx.txid := fun hm => hk.2 (Chains.holds_iff.2 ⟨_, hline, hm⟩)
    rw [htxs, if_neg hmem, if_neg hk.1, h.entry_none hk.2]
  child_none {k} hk := by
    have hat : C.At pre p [] := hline
    show children.lookup k = none
    rw [Chains.holds_extend, not_or] at hk
    have hne : k ≠ p.txid := fun heq => hk.2 (heq ▸ hat.holds)
    rw [hchildren, if_neg hne, h.child_none hk.2]
  short {above x below} hx := by
    rcases hx with ⟨hx, -⟩ | hx
    · exact h.short hx
    · rw [hx, List.length_append, List.length_append, List.length_singleton, List.length_singleton]
      exact (Nat.succ_le_of_lt hlen).trans (le_max_right _ _)

/-- **A child is one more transaction at the end of its parent's chain.** -/
theorem Describes.attachChild (h : Describes node C) (hline : pre ++ [p] ∈ C.lines)
    (hlen : pre.length + 1 < node.cfg.maxChain) {d : ArrivalDraw} (ht : ¬ C.Holds (arrivalTx node.cfg.fee.maxSatVb d).txid) :
    ∃ node', node.attachChild d p.txid = some node' ∧ node'.cfg = node.cfg ∧
      Describes node' (C.extend (pre ++ [p]) hline (arrivalTx node.cfg.fee.maxSatVb d) ht) := by
  generalize htx : arrivalTx node.cfg.fee.maxSatVb d = t at ht
  have hat : C.At pre p [] := hline
  let linked : MockNode :=
    { node with
      txs := node.txs.insert t.txid (entryAt (pre ++ [p]) t [])
      children := node.children.insert p.txid t.txid }
  have hcall : node.attachChild d p.txid = linked.adjustDescendantTotals p.txid t.vsize t.base true := by
    have hchild : entryAt (pre ++ [p]) t [] =
        { entryAt [] t [] with
          depends := [p.txid]
          ancestorsize := (entryAt [] t []).vsize + (entryAt pre p []).ancestorsize
          fees := { (entryAt [] t []).fees with
            ancestor := (entryAt [] t []).fees.base + (entryAt pre p []).fees.ancestor } } := by
      simp [entryAt, Nat.add_comm]
    unfold MockNode.attachChild
    rw [genStandaloneEntry_eq, htx, h.entry hat]
    simp only [Option.bind_eq_bind, Option.bind_some]
    rw [← hchild]
    rfl
  have hne : ∀ a ∈ (pre ++ [p]).map Tx.txid, a ≠ t.txid := fun a ha heq =>
    ht (Chains.holds_iff.2 ⟨_, hline, heq ▸ ha⟩)
  have hlink : LinkedUp linked.txs (pre ++ [p]) := by
    intro above y below hcut
    have hy : y.txid ∈ (pre ++ [p]).map Tx.txid := by rw [hcut]; simp
    rw [show linked.txs.lookup y.txid = node.txs.lookup y.txid from Finmap.lookup_insert_of_ne _ (hne _ hy)]
    exact h.linkedUp hat above y below hcut
  obtain ⟨txs, hadjust, hlookup⟩ := adjustDescendantTotals_linked hlink hat.nodup t.vsize t.base true
  refine ⟨_, hcall.trans hadjust, rfl, h.extended hline hlen ht (fun a => ?_) (fun a => ?_)⟩
  · rw [hlookup]
    by_cases hm : a ∈ (pre ++ [p]).map Tx.txid
    · rw [if_pos hm, if_pos hm]
      exact congrArg _ (Finmap.lookup_insert_of_ne _ (hne a hm))
    · rw [if_neg hm, if_neg hm]
      by_cases ha : a = t.txid
      · rw [if_pos ha, ha]
        exact Finmap.lookup_insert _
      · rw [if_neg ha]
        exact Finmap.lookup_insert_of_ne _ ha
  · by_cases ha : a = p.txid
    · rw [if_pos ha, ha]
      exact Finmap.lookup_insert _
    · rw [if_neg ha]
      exact Finmap.lookup_insert_of_ne _ ha

theorem mem_parentOf_iff_last (hline : pre ++ [t] ∈ C.lines) {above below : List Tx} (hat : C.At above x below) :
    x.txid ∈ parentOf pre ↔ pre = above ++ [x] := by
  constructor
  · intro hm
    obtain ⟨above', p, rfl, hp⟩ := mem_parentOf.1 hm
    have hat' : C.At above' p [t] := by
      unfold Chains.At
      rwa [List.append_assoc] at hline
    obtain ⟨rfl, rfl, -⟩ := hat.unique hat' hp.symm
    rfl
  · rintro rfl
    simp

/-- The maps after the last transaction of a chain has left them. -/
theorem Describes.shortened (h : Describes node C) (hline : pre ++ [t] ∈ C.lines) {txs : EntryMap} {children : ChildMap}
    (htxs : ∀ a, txs.lookup a = if a ∈ pre.map Tx.txid then
      (node.txs.lookup a).map (MockNode.adjustTotals t.vsize t.base false) else
      if a = t.txid then none else node.txs.lookup a)
    (hchildren : ∀ a, children.lookup a = if a ∈ parentOf pre then none else node.children.lookup a) :
    Describes { node with txs := txs, children := children } (C.shorten pre t hline) where
  entry {above x below} hx := by
    show txs.lookup x.txid = _
    rw [htxs]
    rcases Chains.at_shorten.1 hx with ⟨hx, hother⟩ | rfl
    · have hmem := hx.not_mem_line hline hother
      rw [List.map_append, List.mem_append, not_or, List.map_singleton, List.mem_singleton] at hmem
      rw [if_neg hmem.1, if_neg hmem.2, h.entry hx]
    · have hx : C.At above x (below ++ [t]) := by unfold Chains.At; rwa [List.append_assoc] at hline
      rw [if_pos (by simp), h.entry hx, Option.map_some, adjustTotals_sub]
  child {above x below} hx := by
    show children.lookup x.txid = _
    rw [hchildren]
    rcases Chains.at_shorten.1 hx with ⟨hx, hother⟩ | rfl
    · have hmem := hx.not_mem_line hline hother
      have hlast : x.txid ∉ parentOf pre := fun hm => hmem (by simp [(mem_parentOf_iff_last hline hx).1 hm])
      rw [if_neg hlast, h.child hx]
    · have hx : C.At above x (below ++ [t]) := by unfold Chains.At; rwa [List.append_assoc] at hline
      cases below with
      | nil => rw [if_pos (by simp)]; rfl
      | cons y below =>
        have hlast : x.txid ∉ parentOf (above ++ x :: y :: below) := fun hm => by
          simpa using (mem_parentOf_iff_last hline hx).1 hm
        rw [if_neg hlast, h.child hx]
        rfl
  entry_none {k} hk := by
    have hat : C.At pre t [] := hline
    show txs.lookup k = none
    rw [htxs]
    rw [Chains.holds_shorten, not_and] at hk
    by_cases hkt : k = t.txid
    · rw [if_neg (hkt ▸ hat.not_mem_pre), if_pos hkt]
    · have hmem : k ∉ pre.map Tx.txid := fun hm =>
        hk hkt (Chains.holds_iff.2 ⟨_, hline, by rw [List.map_append]; exact List.mem_append_left _ hm⟩)
      rw [if_neg hmem, if_neg hkt, h.entry_none (hk hkt)]
  child_none {k} hk := by
    have hat : C.At pre t [] := hline
    show children.lookup k = none
    rw [hchildren]
    rw [Chains.holds_shorten, not_and] at hk
    split
    · rfl
    · by_cases hkt : k = t.txid
      · rw [hkt, h.child hat]
        rfl
      · exact h.child_none (hk hkt)
  short {above x below} hx := by
    rcases Chains.at_shorten.1 hx with ⟨hx, -⟩ | rfl
    · exact h.short hx
    · have hle := h.short (show C.At (above ++ x :: below) t [] from hline)
      rw [List.length_append, List.length_singleton] at hle
      exact Nat.le_of_succ_le hle

/-- **An eviction of the last transaction of a chain.** -/
theorem Describes.removeLeaf (h : Describes node C) (hline : pre ++ [t] ∈ C.lines) :
    ∃ node', node.removeLeaf t.txid = some node' ∧ node'.cfg = node.cfg ∧ Describes node' (C.shorten pre t hline) := by
  have hat : C.At pre t [] := hline
  have hleaf : t.txid ∉ node.children := Finmap.lookup_eq_none.1 (h.child hat)
  unfold MockNode.removeLeaf
  rw [if_neg hleaf, h.entry hat]
  dsimp only
  rcases List.eq_nil_or_concat' pre with rfl | ⟨above, p, rfl⟩
  · refine ⟨_, rfl, rfl, h.shortened hline (fun a => ?_) (fun a => rfl)⟩
    by_cases ha : a = t.txid
    · rw [ha, Finmap.lookup_erase]
      simp
    · rw [Finmap.lookup_erase_ne ha]
      simp [ha]
  · let removed : MockNode :=
      { node with txs := node.txs.erase t.txid, children := node.children.erase p.txid }
    have hne : ∀ y ∈ above ++ [p], y.txid ≠ t.txid := fun y hy heq => hat.not_mem_pre (heq ▸ List.mem_map_of_mem hy)
    have hlink : LinkedUp removed.txs (above ++ [p]) := by
      intro pre' y post' hcut
      rw [show removed.txs.lookup y.txid = node.txs.lookup y.txid from
        Finmap.lookup_erase_ne (hne y (by rw [hcut]; simp))]
      exact (h.linkedUp hat).upper pre' y post' hcut
    obtain ⟨txs, hadjust, hlookup⟩ := adjustDescendantTotals_linked hlink hat.nodup_pre t.vsize t.base false
    have hhead : (entryAt (above ++ [p]) t []).depends.head? = some p.txid := by simp [entryAt]
    rw [hhead]
    refine ⟨_, hadjust, rfl, h.shortened hline (fun a => ?_) (fun a => ?_)⟩
    · rw [hlookup]
      by_cases hm : a ∈ (above ++ [p]).map Tx.txid
      · obtain ⟨y, hy, rfl⟩ := List.mem_map.1 hm
        rw [if_pos hm, if_pos hm]
        exact congrArg _ (Finmap.lookup_erase_ne (hne y hy))
      · rw [if_neg hm, if_neg hm]
        by_cases ha : a = t.txid
        · rw [if_pos ha, ha]
          exact Finmap.lookup_erase _ _
        · rw [if_neg ha]
          exact Finmap.lookup_erase_ne ha
    · rw [parentOf_concat]
      by_cases ha : a = p.txid
      · rw [if_pos (by simp [ha]), ha]
        exact Finmap.lookup_erase _ _
      · rw [if_neg (by simp [ha])]
        exact Finmap.lookup_erase_ne ha

/-! ## Choosing a parent -/

/-- A parent that a child may extend: the last transaction of a chain that is not full. -/
def Extendable (node : MockNode) (C : Forest) (t : Txid) : Prop :=
  ∃ pre p, pre ++ [p] ∈ C.lines ∧ p.txid = t ∧ pre.length + 1 < node.cfg.maxChain

theorem Describes.eligible (h : Describes node C) : ∀ (keys : List Txid), (∀ t ∈ keys, t ∈ node.txs) →
    ∃ l, node.eligible keys = some l ∧ ∀ t ∈ l, t ∈ node.txs ∧ Extendable node C t
  | [], _ => ⟨[], rfl, fun _ ht => absurd ht List.not_mem_nil⟩
  | t :: keys, hkeys => by
    obtain ⟨l, hl, hmem⟩ := h.eligible keys (fun k hk => hkeys k (List.mem_cons_of_mem t hk))
    unfold MockNode.eligible
    by_cases hchild : t ∈ node.children
    · rw [if_pos hchild]
      exact ⟨l, hl, hmem⟩
    · rw [if_neg hchild]
      obtain ⟨pre, x, post, hat, rfl⟩ := h.holds_iff.2 (hkeys t List.mem_cons_self)
      obtain rfl : post = [] := by
        have := h.child hat
        rw [Finmap.lookup_eq_none.2 hchild] at this
        simpa using this.symm
      rw [h.ancestorsOf hat, hl]
      simp only [Option.bind_eq_bind, Option.bind_some, List.length_map, List.length_reverse]
      by_cases hlen : pre.length + 1 < node.cfg.maxChain
      · rw [if_pos hlen]
        refine ⟨_, rfl, fun k hk => ?_⟩
        rcases List.mem_cons.1 hk with rfl | hk
        · exact ⟨hkeys _ List.mem_cons_self, pre, x, hat, rfl, hlen⟩
        · exact hmem k hk
      · rw [if_neg hlen]
        exact ⟨l, rfl, hmem⟩

theorem keepBest_mem {l : List Txid} {best : Option (ℕ × Txid)} {r : ℕ} {t : Txid} (ht : t ∈ l)
    (hbest : ∀ b ∈ best, b.2 ∈ l) : (MockNode.keepBest best r t).2 ∈ l := by
  unfold MockNode.keepBest
  cases best with
  | none => exact ht
  | some b =>
    dsimp only
    split
    · exact hbest b rfl
    · exact ht

theorem sampleBest_mem {l : List Txid} {index : ℕ → ℕ} (hl : ∀ t ∈ l, t ∈ node.txs) (hindex : ∀ i, index i < l.length) :
    ∀ (is : List ℕ) (best : Option (ℕ × Txid)), (∀ b ∈ best, b.2 ∈ l) →
      ∃ r, node.sampleBest l index is best = some r ∧ ∀ b ∈ r, b.2 ∈ l
  | [], best, hbest => ⟨best, rfl, hbest⟩
  | i :: is, best, hbest => by
    have hi := hindex i
    have ht : l[index i] ∈ l := List.getElem_mem hi
    obtain ⟨e, he⟩ := Finmap.mem_iff.1 (hl _ ht)
    obtain ⟨r, hr, hmem⟩ := sampleBest_mem hl hindex is (some (MockNode.keepBest best (ownRateSatVb e) l[index i]))
      (fun b hb => Option.some.inj hb ▸ keepBest_mem ht hbest)
    refine ⟨r, ?_, hmem⟩
    unfold MockNode.sampleBest
    rw [List.getElem?_eq_getElem hi]
    simp only [Option.bind_eq_bind, Option.bind_some, he]
    exact hr

/-- **A picked parent can be extended**, and picking never fails. -/
theorem Describes.pickParent (h : Describes node C) (d : ArrivalDraw) :
    ∃ r, node.pickParent d = some r ∧ ∀ t ∈ r, Extendable node C t := by
  unfold MockNode.pickParent
  by_cases hmax : node.cfg.maxChain < 2
  · rw [if_pos hmax]
    exact ⟨none, rfl, fun t ht => by cases ht⟩
  · rw [if_neg hmax]
    obtain ⟨l, hl, hmem⟩ := h.eligible (d.order.toList node.txs.keys)
      (fun t ht => Finmap.mem_keys.1 ((d.order.mem_iff _ t).1 ht))
    rw [hl]
    simp only [Option.bind_eq_bind, Option.bind_some]
    by_cases hnil : l = []
    · subst hnil
      exact ⟨none, rfl, fun t ht => by cases ht⟩
    · obtain ⟨r, hr, hbest⟩ := sampleBest_mem (fun t ht => (hmem t ht).1)
        (fun i => d.index_lt l.length i (List.length_pos_iff.2 hnil)) (List.range (min l.length 8)) none
        (fun b hb => by cases hb)
      rw [hr]
      refine ⟨_, rfl, fun t ht => ?_⟩
      obtain ⟨b, hb, rfl⟩ := Option.map_eq_some_iff.1 ht
      exact (hmem _ (hbest b hb)).2

theorem Describes.attachParent (h : Describes node C) (d : ArrivalDraw) :
    ∃ r, node.attachParent d = some r ∧ ∀ t ∈ r, Extendable node C t := by
  unfold MockNode.attachParent
  split
  · exact h.pickParent d
  · exact ⟨none, rfl, fun t ht => by cases ht⟩

/-! ## Steps and runs -/

theorem Describes.keys_insert {node' : MockNode} {C' : Forest} (h : Describes node C) (h' : Describes node' C')
    {k : Txid} (hk : ∀ a, C'.Holds a ↔ a = k ∨ C.Holds a) : node'.txs.keys = insert k node.txs.keys := by
  ext a
  rw [Finset.mem_insert, Finmap.mem_keys, Finmap.mem_keys, ← h.holds_iff, ← h'.holds_iff, hk]

theorem Describes.keys_erase {node' : MockNode} {C' : Forest} (h : Describes node C) (h' : Describes node' C')
    {k : Txid} (hk : ∀ a, C'.Holds a ↔ a ≠ k ∧ C.Holds a) : node'.txs.keys = node.txs.keys.erase k := by
  ext a
  rw [Finset.mem_erase, Finmap.mem_keys, Finmap.mem_keys, ← h.holds_iff, ← h'.holds_iff, hk]

/-- **One arrival adds its transaction to the chains.** -/
theorem Describes.addArrival (h : Describes node C) {d : ArrivalDraw} (hd : d.raw ∉ node.txs) :
    ∃ node' C', node.addArrival d = some node' ∧ Describes node' C' ∧ node'.cfg = node.cfg ∧
      node'.txs.keys = insert d.raw node.txs.keys := by
  have hnew : ¬ C.Holds d.raw := fun hk => hd (h.holds_iff.1 hk)
  let t := arrivalTx (MockNode.sampleFeeRate node.cfg.fee d.spread) d
  let added : MockNode := { node with txs := node.txs.insert t.txid (entryAt [] t []) }
  have hstandalone : ∃ node' C', some added = some node' ∧ Describes node' C' ∧ node'.cfg = node.cfg ∧
      node'.txs.keys = insert d.raw node.txs.keys := by
    have hadded : Describes added (C.plant t hnew) := h.standalone hnew
    exact ⟨_, _, rfl, hadded, rfl, h.keys_insert hadded (fun a => Chains.holds_plant)⟩
  obtain ⟨r, hr, hext⟩ := h.attachParent d
  unfold MockNode.addArrival
  simp only [Option.bind_eq_bind, hr, Option.bind_some]
  cases r with
  | none => exact hstandalone
  | some parent =>
    obtain ⟨pre, p, hline, rfl, hlen⟩ := hext parent rfl
    obtain ⟨node', hcall, hcfg, hd'⟩ := h.attachChild hline hlen hnew
    exact ⟨node', _, hcall, hd', hcfg, h.keys_insert hd' (fun a => Chains.holds_extend)⟩

theorem Describes.addArrivals {draw : ℕ → ArrivalDraw} : ∀ (n : ℕ) {node : MockNode} {C : Forest}, Describes node C →
    MockNode.arrivalsFresh draw n node = true → ∃ node' C', MockNode.addArrivals draw n node = some node' ∧
      Describes node' C' ∧ node'.cfg = node.cfg ∧ node'.txs.keys.card = node.txs.keys.card + n
  | 0, node, C, h, _ => ⟨node, C, rfl, h, rfl, rfl⟩
  | n + 1, node, C, h, hfresh => by
    unfold MockNode.arrivalsFresh at hfresh
    rw [Bool.and_eq_true, decide_eq_true_eq] at hfresh
    obtain ⟨mid, Cmid, hstep, hmid, hcfg, hkeys⟩ := h.addArrival hfresh.1
    rw [hstep] at hfresh
    obtain ⟨node', C', hrun, h', hcfg', hcard⟩ := hmid.addArrivals n hfresh.2
    refine ⟨node', C', ?_, h', hcfg'.trans hcfg, ?_⟩
    · unfold MockNode.addArrivals
      rw [hstep]
      exact hrun
    · rw [hcard, hkeys, Finset.card_insert_of_notMem (fun hm => hfresh.1 (Finmap.mem_keys.1 hm))]
      omega

/-- **The descent from any key ends at a leaf, and removing that leaf takes exactly it.** -/
theorem Describes.evictOne (h : Describes node C) {start : Txid} (hstart : start ∈ node.txs) :
    ∃ leaf mid C', MockNode.descend node.children node.fuel start = some leaf ∧ leaf ∈ node.txs ∧
      leaf ∉ node.children ∧ node.removeLeaf leaf = some mid ∧ Describes mid C' ∧ mid.cfg = node.cfg ∧
      mid.txs.keys = node.txs.keys.erase leaf := by
  obtain ⟨pre, x, post, hat, rfl⟩ := h.holds_iff.2 hstart
  have hlen := h.length_lt_fuel hat
  rw [List.length_append, List.length_cons] at hlen
  obtain ⟨c, t, hcut, hleaf⟩ := descend_last h.child post pre x node.fuel hat (by omega)
  have hline : c ++ [t] ∈ C.lines := hcut ▸ hat
  have hlast : C.At c t [] := hline
  obtain ⟨mid, hstep, hcfg, hmid⟩ := h.removeLeaf hline
  exact ⟨t.txid, mid, _, hleaf, h.holds_iff.1 hlast.holds, Finmap.lookup_eq_none.1 (h.child hlast), hstep, hmid, hcfg,
    h.keys_erase hmid (fun a => Chains.holds_shorten)⟩

/-- **Each eviction takes exactly one transaction while there is one.** -/
theorem Describes.evictLeaves (order : ℕ → SetOrder Txid) : ∀ (n : ℕ) {node : MockNode} {C : Forest},
    Describes node C → ∃ node' C', MockNode.evictLeaves order n node = some node' ∧
      Describes node' C' ∧ node'.cfg = node.cfg ∧ node'.txs.keys.card = node.txs.keys.card - n
  | 0, node, C, h => ⟨node, C, rfl, h, rfl, rfl⟩
  | n + 1, node, C, h => by
    unfold MockNode.evictLeaves
    cases hhead : ((order n).toList node.txs.keys).head? with
    | none =>
      have hempty : node.txs.keys = ∅ := Finset.eq_empty_of_forall_notMem (fun a ha => by
        have := ((order n).mem_iff _ a).2 ha
        rw [List.head?_eq_none_iff.1 hhead] at this
        exact absurd this List.not_mem_nil)
      exact ⟨node, C, rfl, h, rfl, by rw [hempty]; simp⟩
    | some start =>
      have hstart : start ∈ node.txs := Finmap.mem_keys.1 (((order n).mem_iff _ start).1 (List.mem_of_head? hhead))
      obtain ⟨leaf, mid, Cmid, hleaf, hmem, -, hstep, hmid, hcfg, hkeys⟩ := h.evictOne hstart
      obtain ⟨node', C', hrun, h', hcfg', hcard⟩ := hmid.evictLeaves order n
      refine ⟨node', C', ?_, h', hcfg'.trans hcfg, ?_⟩
      · simp only [Option.bind_eq_bind, hleaf, Option.bind_some, hstep]
        exact hrun
      · rw [hcard, hkeys, Finset.card_erase_of_mem (Finmap.mem_keys.2 hmem)]
        omega

end Sim
end Satya
