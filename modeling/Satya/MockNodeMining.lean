import Satya.MockNodeChurn
/-!
# MockNodeMining — confirmation on chains

A confirmed set that is closed under ancestors takes the top off every chain.  What is left of a chain has a new root,
and the walk down from it puts right what the entries below still count of the confirmed ones.
-/
namespace Satya
namespace Sim

variable {node : MockNode} {C : Forest} {pre post : List Tx} {x p t : Tx}

/-! ## The walk down from a new root -/

/-- An entry whose ancestor aggregates may be outdated. -/
def stale (a f : ℕ) (e : MempoolEntry) : MempoolEntry :=
  { e with ancestorsize := a, fees := { e.fees with ancestor := f } }

theorem withParent_stale (pre : List Tx) (p x : Tx) (rest post : List Tx) (a f : ℕ) :
    MockNode.withParent (entryAt pre p rest) (stale a f (entryAt (pre ++ [p]) x post)) = entryAt (pre ++ [p]) x post := by
  simp [MockNode.withParent, stale, entryAt, Nat.add_comm]

def LinkedDown (children : ChildMap) (C : Forest) : Prop :=
  ∀ pre x post, C.At pre x post → children.lookup x.txid = post.head?.map Tx.txid

/-- **The walk down repairs what is below and touches nothing else.** -/
theorem repairBelow_spec {children : ChildMap} (hlink : LinkedDown children C) :
    ∀ (post pre : List Tx) (x : Tx) (txs : EntryMap) (fuel : ℕ), C.At pre x post →
      txs.lookup x.txid = some (entryAt pre x post) →
      (∀ mid y below, post = mid ++ y :: below →
        ∃ a f, txs.lookup y.txid = some (stale a f (entryAt (pre ++ x :: mid) y below))) → post.length < fuel →
      ∃ txs', MockNode.repairBelow children fuel x.txid txs = some txs' ∧
        (∀ mid y below, post = mid ++ y :: below → txs'.lookup y.txid = some (entryAt (pre ++ x :: mid) y below)) ∧
        ∀ k, k ∉ post.map Tx.txid → txs'.lookup k = txs.lookup k
  | [], pre, x, txs, fuel, hat, _, _, hf => by
    obtain ⟨fuel, rfl⟩ := Nat.exists_eq_succ_of_ne_zero (Nat.ne_of_gt hf)
    refine ⟨txs, ?_, fun mid y below hcut => absurd hcut (by simp), fun _ _ => rfl⟩
    unfold MockNode.repairBelow
    rw [hlink pre x [] hat]
    rfl
  | y :: post, pre, x, txs, fuel, hat, hx, hstale, hf => by
    rw [List.length_cons] at hf
    obtain ⟨fuel, rfl⟩ := Nat.exists_eq_succ_of_ne_zero (Nat.ne_of_gt (Nat.zero_lt_of_lt hf))
    let next := modify (MockNode.withParent (entryAt pre x (y :: post))) txs y.txid
    have hnot : y.txid ∉ post.map Tx.txid := hat.next.not_mem_post
    have hframe : ∀ k, k ≠ y.txid → next.lookup k = txs.lookup k := fun k hk => by
      rw [lookup_modify, if_neg hk]
    have hy : next.lookup y.txid = some (entryAt (pre ++ [x]) y post) := by
      obtain ⟨a, f, hold⟩ := hstale [] y post rfl
      rw [lookup_modify, if_pos rfl, hold, Option.map_some, withParent_stale]
    have hbelow : ∀ mid z below, post = mid ++ z :: below →
        ∃ a f, next.lookup z.txid = some (stale a f (entryAt ((pre ++ [x]) ++ y :: mid) z below)) := by
      intro mid z below hcut
      obtain ⟨a, f, hold⟩ := hstale (y :: mid) z below (by rw [hcut]; rfl)
      have hne : z.txid ≠ y.txid := fun heq => hnot (by rw [← heq, hcut]; simp)
      exact ⟨a, f, by rw [hframe _ hne, hold, List.append_assoc]; rfl⟩
    obtain ⟨txs', hrun, hexact, hrest⟩ :=
      repairBelow_spec hlink post (pre ++ [x]) y next fuel hat.next hy hbelow (by omega)
    refine ⟨txs', ?_, fun mid z below hcut => ?_, fun k hk => ?_⟩
    · unfold MockNode.repairBelow
      rw [hlink pre x (y :: post) hat, hx]
      exact hrun
    · cases mid with
      | nil =>
        rw [List.nil_append, List.cons.injEq] at hcut
        obtain ⟨rfl, rfl⟩ := hcut
        rw [hrest _ hnot, hy]
      | cons w mid =>
        rw [List.cons_append, List.cons.injEq] at hcut
        obtain ⟨rfl, hcut⟩ := hcut
        rw [hexact mid z below hcut, List.append_assoc]
        rfl
    · rw [List.map_cons, List.mem_cons, not_or] at hk
      rw [hrest k hk.2, hframe k hk.1]

/-- The root of the line of a spot. -/
def rootOf : List Tx → Tx → Txid
  | [], x => x.txid
  | r :: _, _ => r.txid

/-- Every entry is right except on the lines whose root is still to be walked from, and there only the ancestor
aggregates below the root are outdated. -/
def Repairing (C : Forest) (txs : EntryMap) (todo : List Txid) : Prop :=
  ∀ pre x post, C.At pre x post →
    ((rootOf pre x ∉ todo ∨ pre = []) → txs.lookup x.txid = some (entryAt pre x post)) ∧
    ∃ a f, txs.lookup x.txid = some (stale a f (entryAt pre x post))

theorem stale_self (pre : List Tx) (x : Tx) (post : List Tx) :
    stale (x.vsize + sizeOf pre) (x.base + feeOf pre) (entryAt pre x post) = entryAt pre x post := rfl

/-- **Once every new root is walked from, every entry is right.** -/
theorem repairAll_spec {children : ChildMap} {fuel : ℕ} (hlink : LinkedDown children C)
    (hfuel : ∀ pre x post, C.At pre x post → post.length < fuel) : ∀ (todo : List Txid) (txs : EntryMap),
    (∀ r ∈ todo, ∃ x post, C.At [] x post ∧ x.txid = r) → Repairing C txs todo →
      ∃ txs', MockNode.repairAll children fuel todo txs = some txs' ∧
        (∀ pre x post, C.At pre x post → txs'.lookup x.txid = some (entryAt pre x post)) ∧
        ∀ k, ¬ C.Holds k → txs'.lookup k = txs.lookup k
  | [], txs, _, hrep => ⟨txs, rfl, fun pre x post hat => (hrep pre x post hat).1 (Or.inl List.not_mem_nil), fun _ _ => rfl⟩
  | r :: todo, txs, hroots, hrep => by
    obtain ⟨x, post, hat, rfl⟩ := hroots r List.mem_cons_self
    have hbelow : ∀ mid y below, post = mid ++ y :: below →
        ∃ a f, txs.lookup y.txid = some (stale a f (entryAt ([] ++ x :: mid) y below)) := by
      rintro mid y below rfl
      exact (hrep _ y below hat.down).2
    obtain ⟨mid, hstep, hexact, hrest⟩ := repairBelow_spec hlink post [] x txs fuel hat
      ((hrep [] x post hat).1 (Or.inr rfl)) hbelow (hfuel [] x post hat)
    have hmid : Repairing C mid todo := by
      intro pre y below hy
      by_cases hm : y.txid ∈ post.map Tx.txid
      · -- on the line just repaired
        obtain ⟨z, hz, hkey⟩ := List.mem_map.1 hm
        obtain ⟨above, below', rfl⟩ := List.append_of_mem hz
        obtain ⟨rfl, rfl, rfl⟩ := hy.unique hat.down hkey.symm
        have hright := hexact above y below rfl
        exact ⟨fun _ => hright, _, _, hright.trans (congrArg some (stale_self _ _ _).symm)⟩
      · rw [hrest _ hm]
        refine ⟨fun hroot => (hrep pre y below hy).1 ?_, (hrep pre y below hy).2⟩
        rcases hroot with hroot | hnil
        · cases pre with
          | nil => exact Or.inr rfl
          | cons w above =>
            refine Or.inl (fun hin => ?_)
            rcases List.mem_cons.1 hin with heq | hin
            · have hw : C.At [] w (above ++ y :: below) := hy
              obtain ⟨-, rfl, rfl⟩ := hw.unique hat heq
              exact hm (by simp)
            · exact hroot hin
        · exact Or.inr hnil
    obtain ⟨txs', hrun, hright, hframe⟩ :=
      repairAll_spec hlink hfuel todo mid (fun r hr => hroots r (List.mem_cons_of_mem _ hr)) hmid
    refine ⟨txs', ?_, hright, fun k hk => ?_⟩
    · unfold MockNode.repairAll
      rw [hstep]
      exact hrun
    · rw [hframe k hk, hrest k (fun hm => hk (Chains.holds_iff.2 ⟨_, hat, List.mem_cons_of_mem _ hm⟩))]

/-! ## Confirmation -/

def confirmedIn (set : Finset Txid) (x : Tx) : Bool := decide (x.txid ∈ set)

theorem nodup_orphaned (node : MockNode) (order : SetOrder Txid) (set : Finset Txid) :
    (node.orphaned order set).Nodup := (order.nodup _).filter _

theorem Describes.mem_orphaned (h : Describes node C) (hat : C.At pre x post) (order : SetOrder Txid)
    (set : Finset Txid) : x.txid ∈ node.orphaned order set ↔ x.txid ∉ set ∧ ∃ t ∈ parentOf pre, t ∈ set := by
  have hkey : x.txid ∈ node.txs.keys := Finmap.mem_keys.2 (h.holds_iff.1 hat.holds)
  have hdepends : (entryAt pre x post).depends = parentOf pre := rfl
  unfold MockNode.orphaned
  rw [List.mem_filter, order.mem_iff, h.entry hat, Option.any_some, hdepends]
  rcases List.eq_nil_or_concat' pre with rfl | ⟨above, p, rfl⟩
  · simp
  · simp [hkey]

/-- An orphan is what its line starts with after the cut. -/
theorem Describes.orphaned_root (h : Describes node C) {set : Finset Txid} (hset : C.Closed (confirmedIn set))
    (order : SetOrder Txid) : ∀ r ∈ node.orphaned order set,
      ∃ x post, (C.cut (confirmedIn set)).At [] x post ∧ x.txid = r := by
  intro r hr
  have hmem : r ∈ node.txs := Finmap.mem_keys.1 ((order.mem_iff _ r).1 (List.mem_of_mem_filter hr))
  obtain ⟨pre, x, post, hat, rfl⟩ := h.holds_iff.2 hmem
  obtain ⟨hgone, t, ht, htset⟩ := (h.mem_orphaned hat order set).1 hr
  obtain ⟨above, p, rfl, rfl⟩ := mem_parentOf.1 ht
  have hp : confirmedIn set p = true := by simpa [confirmedIn] using htset
  have htop : ∀ y ∈ above ++ [p], confirmedIn set y = true := by
    intro y hy
    rcases List.mem_append.1 hy with hy | hy
    · exact hset hat.last hp y hy
    · exact List.mem_singleton.1 hy ▸ hp
  refine ⟨x, post, (Chains.at_cut hset).2 ⟨above ++ [p], by rwa [List.append_nil], htop, ?_, ?_⟩, rfl⟩
  · exact fun y hy => absurd hy List.not_mem_nil
  · simpa [confirmedIn] using hgone

/-- The entries before the walks: what is confirmed is gone, and a new root has forgotten what was above it. -/
theorem Describes.repairing_kept (h : Describes node C) {set : Finset Txid} (hset : C.Closed (confirmedIn set))
    (order setOrder : SetOrder Txid) : Repairing (C.cut (confirmedIn set))
      (removeAll ((node.orphaned order set).foldl (modify MockNode.rerooted) node.txs) (setOrder.toList set))
      (node.orphaned order set) := by
  intro pre x post hx
  obtain ⟨top, hat, htop, hpre, hgone⟩ := (Chains.at_cut hset).1 hx
  simp only [confirmedIn, decide_eq_true_eq, decide_eq_false_iff_not] at htop hpre hgone
  rw [lookup_removeSet, if_neg hgone, lookup_modifyAll _ _ _ _ (nodup_orphaned node order set), h.entry hat]
  have hroot : x.txid ∈ node.orphaned order set ↔ top ≠ [] ∧ pre = [] := by
    rw [h.mem_orphaned hat]
    rcases List.eq_nil_or_concat' pre with rfl | ⟨above, p, rfl⟩
    · rcases List.eq_nil_or_concat' top with rfl | ⟨above, p, rfl⟩
      · simp
      · simp [hgone, htop p (by simp)]
    · rw [← List.append_assoc, parentOf_concat]
      simp [hpre p (by simp)]
  rcases List.eq_nil_or_concat' top with rfl | ⟨above, p, rfl⟩
  · have hexact : some (entryAt ([] ++ pre) x post) = some (entryAt pre x post) := rfl
    rw [if_neg (fun hm => (hroot.1 hm).1 rfl)]
    exact ⟨fun _ => hexact, _, _, hexact.trans (congrArg some (stale_self _ _ _).symm)⟩
  · cases pre with
    | nil =>
      have hexact : (some (entryAt (above ++ [p] ++ []) x post)).map MockNode.rerooted = some (entryAt [] x post) := rfl
      rw [if_pos (hroot.2 ⟨by simp, rfl⟩)]
      exact ⟨fun _ => hexact, _, _, hexact.trans (congrArg some (stale_self _ _ _).symm)⟩
    | cons w pre =>
      rw [if_neg (fun hm => by cases (hroot.1 hm).2)]
      refine ⟨fun hleft => ?_, _, _, congrArg some (?_ : entryAt (above ++ [p] ++ w :: pre) x post = stale
        (x.vsize + sizeOf (above ++ [p] ++ w :: pre)) (x.base + feeOf (above ++ [p] ++ w :: pre)) _)⟩
      · -- the root of the line is one of the orphans
        rcases hleft with hleft | hnil
        · have hw : C.At (above ++ [p]) w (pre ++ x :: post) := hat.up
          refine absurd ((h.mem_orphaned hw order set).2 ⟨hpre w List.mem_cons_self, p.txid, ?_, htop p (by simp)⟩) hleft
          rw [parentOf_concat]
          exact List.mem_singleton_self _
        · cases hnil
      · unfold stale entryAt
        rw [parentOf_append (List.cons_ne_nil w pre)]

/-- **Confirming a closed set takes the top off every chain.** -/
theorem Describes.confirmSet (h : Describes node C) {set : Finset Txid} (hset : C.Closed (confirmedIn set))
    (order setOrder : SetOrder Txid) :
    ∃ node', node.confirmSet order setOrder set = some node' ∧ node'.cfg = node.cfg ∧
      node'.tipHeight = node.tipHeight ∧ Describes node' (C.cut (confirmedIn set)) := by
  have hcut : ∀ {pre x post}, (C.cut (confirmedIn set)).At pre x post →
      ∃ top, C.At (top ++ pre) x post ∧ x.txid ∉ set := by
    intro pre x post hx
    obtain ⟨top, hat, -, -, hgone⟩ := (Chains.at_cut hset).1 hx
    exact ⟨top, hat, by simpa [confirmedIn] using hgone⟩
  have hlost : ∀ {k}, ¬ (C.cut (confirmedIn set)).Holds k → k ∉ set → ¬ C.Holds k := by
    rintro k hk hkset ⟨pre, x, post, hat, rfl⟩
    exact hk ((Chains.holds_cut hset).2 ⟨pre, x, post, hat, by simpa [confirmedIn] using hkset, rfl⟩)
  have hlink : LinkedDown (removeAll node.children (setOrder.toList set)) (C.cut (confirmedIn set)) := by
    intro pre x post hx
    obtain ⟨top, hat, hgone⟩ := hcut hx
    rw [lookup_removeSet, if_neg hgone, h.child hat]
  have hfuel : ∀ pre x post, (C.cut (confirmedIn set)).At pre x post → post.length < node.fuel := by
    intro pre x post hx
    obtain ⟨top, hat, -⟩ := hcut hx
    have hlen := h.length_lt_fuel hat
    rw [List.length_append, List.length_cons] at hlen
    omega
  obtain ⟨txs, hrun, hexact, hframe⟩ :=
    repairAll_spec hlink hfuel _ _ (h.orphaned_root hset order) (h.repairing_kept hset order setOrder)
  refine ⟨{ node with txs := txs, children := removeAll node.children (setOrder.toList set) }, ?_, rfl, rfl, ?_⟩
  · unfold MockNode.confirmSet
    simp only [Option.bind_eq_bind, hrun, Option.bind_some]
  · refine ⟨fun hx => hexact _ _ _ hx, fun hx => hlink _ _ _ hx, fun {k} hk => ?_, fun {k} hk => ?_, fun hx => ?_⟩
    · show txs.lookup k = none
      rw [hframe k hk, lookup_removeSet]
      split
      · rfl
      · next hm =>
        rw [lookup_modifyAll _ _ _ _ (nodup_orphaned node order set), h.entry_none (hlost hk hm)]
        simp
    · show (removeAll node.children (setOrder.toList set)).lookup k = none
      rw [lookup_removeSet]
      split
      · rfl
      · next hm => exact h.child_none (hlost hk hm)
    · obtain ⟨top, hat, -⟩ := hcut hx
      have hlen := h.short hat
      simp only [List.length_append] at hlen ⊢
      exact le_trans (by omega) hlen

/-! ## Filling a block -/

theorem packageWeight_isSome : ∀ (pkg : List Txid), (∀ t ∈ pkg, t ∈ node.txs) →
    ∃ weight, node.packageWeight pkg = some weight
  | [], _ => ⟨0, rfl⟩
  | t :: pkg, hpkg => by
    obtain ⟨weight, hweight⟩ := packageWeight_isSome pkg (fun k hk => hpkg k (List.mem_cons_of_mem t hk))
    obtain ⟨e, he⟩ := Finmap.mem_iff.1 (hpkg t List.mem_cons_self)
    refine ⟨e.weight.getD (e.vsize * 4) + weight, ?_⟩
    unfold MockNode.packageWeight
    rw [he, hweight]
    rfl

/-- A package with all its unconfirmed ancestors keeps the confirmed set closed. -/
theorem closed_package {confirmed : Finset Txid} (hset : C.Closed (confirmedIn confirmed)) (hat : C.At pre x post) :
    C.Closed (confirmedIn (confirmed ∪
      (x.txid :: (pre.reverse.map Tx.txid).filter (fun a => decide (a ∉ confirmed))).toFinset)) := by
  intro above y below hy hgone z hz
  simp only [confirmedIn, decide_eq_true_eq, Finset.mem_union, List.mem_toFinset, List.mem_cons, List.mem_filter] at hgone ⊢
  have habove : z.txid ∈ pre.map Tx.txid → z.txid ∈ confirmed ∨ z.txid = x.txid ∨
      z.txid ∈ pre.reverse.map Tx.txid ∧ z.txid ∉ confirmed := by
    intro hm
    by_cases hc : z.txid ∈ confirmed
    · exact Or.inl hc
    · exact Or.inr (Or.inr ⟨by simpa using hm, hc⟩)
  rcases hgone with hc | heq | ⟨hm, -⟩
  · exact Or.inl (by simpa [confirmedIn] using hset hy (by simpa [confirmedIn] using hc) z hz)
  · obtain ⟨rfl, -, -⟩ := hy.unique hat heq
    exact habove (List.mem_map_of_mem hz)
  · rw [List.map_reverse, List.mem_reverse] at hm
    obtain ⟨w, hw, hkey⟩ := List.mem_map.1 hm
    obtain ⟨top, mid, rfl⟩ := List.append_of_mem hw
    obtain ⟨rfl, -, -⟩ := hy.unique hat.up hkey.symm
    exact habove (List.mem_map_of_mem (List.mem_append_left _ hz))

/-- A package's transactions are present, none is confirmed, and none is in it twice. -/
theorem Describes.package (h : Describes node C) (hat : C.At pre x post) {confirmed : Finset Txid}
    (hc : x.txid ∉ confirmed) :
    (x.txid :: (pre.reverse.map Tx.txid).filter (fun a => decide (a ∉ confirmed))).Nodup ∧
      ∀ k ∈ x.txid :: (pre.reverse.map Tx.txid).filter (fun a => decide (a ∉ confirmed)), k ∈ node.txs ∧ k ∉ confirmed := by
  constructor
  · rw [List.map_reverse, List.nodup_cons]
    refine ⟨fun hm => hat.not_mem_pre (List.mem_reverse.1 (List.mem_of_mem_filter hm)), ?_⟩
    exact (List.nodup_reverse.2 hat.nodup_pre).filter _
  · intro k hk
    rcases List.mem_cons.1 hk with rfl | hk
    · exact ⟨h.holds_iff.1 hat.holds, hc⟩
    · obtain ⟨hm, hkc⟩ := List.mem_filter.1 hk
      rw [List.map_reverse, List.mem_reverse] at hm
      refine ⟨h.holds_iff.1 (Chains.holds_iff.2 ⟨_, hat, ?_⟩), of_decide_eq_true hkc⟩
      rw [List.map_append]
      exact List.mem_append_left _ hm

/-- **The confirmed set is closed under ancestors**, and filling a block never fails. -/
theorem Describes.fillBlock (h : Describes node C) : ∀ (ranked : List (ℕ × Txid)) (used : ℕ) (confirmed : Finset Txid),
    (∀ r ∈ ranked, r.2 ∈ node.txs) → C.Closed (confirmedIn confirmed) →
      ∃ set, node.fillBlock ranked used confirmed = some set ∧ C.Closed (confirmedIn set)
  | [], _, confirmed, _, hset => ⟨confirmed, rfl, hset⟩
  | (rate, t) :: ranked, used, confirmed, hranked, hset => by
    have hrest : ∀ r ∈ ranked, r.2 ∈ node.txs := fun r hr => hranked r (List.mem_cons_of_mem _ hr)
    unfold MockNode.fillBlock
    by_cases hc : t ∈ confirmed
    · rw [if_pos hc]
      exact h.fillBlock ranked used confirmed hrest hset
    · rw [if_neg hc]
      obtain ⟨pre, x, post, hat, rfl⟩ := h.holds_iff.2 (hranked (rate, t) List.mem_cons_self)
      obtain ⟨weight, hweight⟩ := packageWeight_isSome _ (fun k hk => ((h.package hat hc).2 k hk).1)
      simp only [Option.bind_eq_bind, h.ancestorsOf hat, Option.bind_some, hweight]
      split
      · exact h.fillBlock ranked used confirmed hrest hset
      · exact h.fillBlock ranked _ _ hrest (closed_package hset hat)

theorem mem_of_mem_rankedTxs {order : SetOrder Txid} {r : ℕ × Txid} (hr : r ∈ node.rankedTxs order) : r.2 ∈ node.txs := by
  unfold MockNode.rankedTxs at hr
  rw [List.mem_insertionSort] at hr
  obtain ⟨t, -, hrow⟩ := List.mem_filterMap.1 hr
  obtain ⟨e, he, rfl⟩ := Option.map_eq_some_iff.1 hrow
  exact Finmap.mem_of_lookup_eq_some he

/-- **A mined block takes the top off every chain.** -/
theorem Describes.mineBlock (h : Describes node C) (order setOrder : SetOrder Txid) :
    ∃ node' set, node.fillBlock (node.rankedTxs order) 0 ∅ = some set ∧ C.Closed (confirmedIn set) ∧
      node.mineBlock order setOrder = some node' ∧ Describes node' (C.cut (confirmedIn set)) ∧ node'.cfg = node.cfg ∧
      node'.tipHeight = node.tipHeight + 1 := by
  have hnone : C.Closed (confirmedIn ∅) := fun _ hgone => by simp [confirmedIn] at hgone
  obtain ⟨set, hfill, hset⟩ := h.fillBlock (node.rankedTxs order) 0 ∅ (fun r hr => mem_of_mem_rankedTxs hr) hnone
  obtain ⟨node', hrun, hcfg, htip, h'⟩ := (h.setTip (node.tipHeight + 1)).confirmSet hset order setOrder
  refine ⟨node', set, hfill, hset, ?_, h', hcfg, htip⟩
  unfold MockNode.mineBlock
  simp only [Option.bind_eq_bind, hfill, Option.bind_some]
  exact hrun

end Sim
end Satya
