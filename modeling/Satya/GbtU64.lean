import Mathlib.Algebra.Order.BigOperators.Group.Finset
import Satya.GbtBlocks
import Satya.GbtCycles
import Satya.WrappingSum
/-!
# GbtU64 — the packing loop on machine integers

The sums of `score_of` and of a package, and the running block weight, are `u64` accumulators that wrap.  `packStep64` is
the iteration with those; everything else is the loop's own.  Where no accumulator of a score wraps, and there is room for
every package in the running weight, the iteration is `packStep` (`packStep64_eq`), and so the run is.
-/
namespace Satya
namespace Gbt

open StateTransition (Reaches)

/-! ## The loop -/

variable {n : ℕ}

/-- `pf` and `pw` of `score_of`. -/
def scoreSums64 (audits : Fin n → Audit n) (used : Fin n → Bool) (uid : Fin n) : ℕ × ℕ :=
  (audits uid).ancestors.foldl (fun (acc : ℕ × ℕ) an =>
    if used an then acc else (add64 acc.1 (audits an).fee, add64 acc.2 (audits an).weight))
    ((audits uid).fee, (audits uid).weight)

def scoreOf64 (audits : Fin n → Audit n) (used : Fin n → Bool) (uid : Fin n) : ℚ :=
  min (rate (audits uid).fee (audits uid).weight)
    (rate (scoreSums64 audits used uid).1 (scoreSums64 audits used uid).2)

def freshItem64 (audits : Fin n → Audit n) (used : Fin n → Bool) (uid : Fin n) : HeapItem n :=
  ⟨scoreOf64 audits used uid, (audits uid).order, uid⟩

def refreshDescendants64 (audits : Fin n → Audit n) (used : Fin n → Bool) (pkg : List (Fin n))
    (heap : MaxHeap (HeapItem n)) : MaxHeap (HeapItem n) :=
  walkFrom (fun d => (audits d).children)
    (fun heap d => if used d then heap else heap.push (freshItem64 audits used d)) pkg heap

def HeapItem.stale64 (audits : Fin n → Audit n) (used : Fin n → Bool) (item : HeapItem n) : Prop :=
  staleTolerance < |scoreOf64 audits used item.uid - item.score|

instance (audits : Fin n → Audit n) (used : Fin n → Bool) (item : HeapItem n) : Decidable (item.stale64 audits used) :=
  inferInstanceAs (Decidable (_ < _))

/-- `pkg_weight` -/
def weightSum64 (audits : Fin n → Audit n) (l : List (Fin n)) : ℕ := sum64 0 (l.map (fun m => (audits m).weight))

/-- `pkg_fee` -/
def feeSum64 (audits : Fin n → Audit n) (l : List (Fin n)) : ℕ := sum64 0 (l.map (fun m => (audits m).fee))

def Packing.start64 (audits : Fin n → Audit n) (lim : Limits) : Packing n :=
  { Packing.start audits lim with
    heap := MaxHeap.empty.pushAll ((List.finRange n).map (freshItem64 audits (fun _ => false))) }

/-- The one sum that saturates. -/
def Packing.mustHold64 (lim : Limits) (s : Packing n) (w : ℕ) : Prop :=
  s.bounded lim ∧ s.curBlock ≠ [] ∧ lim.maxBlockWeight < min (s.blockWeight + w) (2 ^ 64 - 1)

instance (lim : Limits) (s : Packing n) (w : ℕ) : Decidable (s.mustHold64 lim w) :=
  inferInstanceAs (Decidable (_ ∧ _ ∧ _))

def Packing.place64 (audits : Fin n → Audit n) (r : ℚ) (s : Packing n) (pkg : List (Fin n)) : Packing n :=
  pkg.foldl (fun s m =>
    { s with
      used := Function.update s.used m true
      curBlock := s.curBlock ++ [m]
      blockWeight := add64 s.blockWeight (audits m).weight
      effectiveRates := Function.update s.effectiveRates m (some r) }) s

def Packing.take64 (audits : Fin n → Audit n) (s : Packing n) (pkg : List (Fin n)) : Packing n :=
  let s := s.place64 audits (rate (feeSum64 audits pkg) (weightSum64 audits pkg)) pkg
  { s with heap := refreshDescendants64 audits s.used pkg s.heap, failures := 0 }

def Packing.close64 (audits : Fin n → Audit n) (lim : Limits) (s : Packing n) : Packing n :=
  { s with
    blocks := s.blocks ++ [s.curBlock]
    curBlock := []
    blockWeight := lim.reserved
    failures := 0
    heap := s.heap.pushAll (s.overflow.map (freshItem64 audits s.used))
    overflow := [] }

def Packing.finalize64 (audits : Fin n → Audit n) (lim : Limits) (s : Packing n) : Packing n :=
  if s.mustClose lim then s.close64 audits lim else s

def packStep64 (audits : Fin n → Audit n) (lim : Limits) (s : Packing n) : Option (Packing n) :=
  match s.heap.pop with
  | none => none
  | some (item, heap) =>
    let s := { s with heap := heap }
    if s.used item.uid then some s
    else if item.stale64 audits s.used then
      some { s with heap := s.heap.push (freshItem64 audits s.used item.uid) }
    else
      let pkg := packageOf audits s.used item.uid
      let s := if s.mustHold64 lim (weightSum64 audits pkg) then s.hold item.uid else s.take64 audits pkg
      some (s.finalize64 audits lim)

def LoopHead64 (ord : HashOrder n) (txs : Txs n) (lim : Limits) (s : Packing n) : Prop :=
  Reaches (packStep64 (auditsOf ord txs) lim) (Packing.start64 (auditsOf ord txs) lim) s

/-! ## Where nothing wraps -/

variable {audits : Fin n → Audit n} {lim : Limits} {used : Fin n → Bool}

/-- What `score_of` adds to a transaction's own fee and weight. -/
def unusedAncestors (audits : Fin n → Audit n) (used : Fin n → Bool) (u : Fin n) : List (Fin n) :=
  (audits u).ancestors.filter (fun a => !used a)

theorem scoreSums64_eq (audits : Fin n → Audit n) (used : Fin n → Bool) (u : Fin n) : scoreSums64 audits used u =
    (sum64 (audits u).fee ((unusedAncestors audits used u).map (fun a => (audits a).fee)),
      sum64 (audits u).weight ((unusedAncestors audits used u).map (fun a => (audits a).weight))) := by
  have hloop : ∀ (l : List (Fin n)) (acc : ℕ × ℕ),
      l.foldl (fun (acc : ℕ × ℕ) an =>
        if used an then acc else (add64 acc.1 (audits an).fee, add64 acc.2 (audits an).weight)) acc =
      (sum64 acc.1 ((l.filter (fun a => !used a)).map (fun a => (audits a).fee)),
        sum64 acc.2 ((l.filter (fun a => !used a)).map (fun a => (audits a).weight))) := by
    intro l
    induction l with
    | nil => exact fun acc => rfl
    | cons a l ih =>
      intro acc
      rw [List.foldl_cons, ih]
      cases ha : used a with
      | true => simp [ha]
      | false => simp [ha, sum64]
  exact hloop _ _

/-- No score's sums reach `2 ^ 64`, whatever is used. -/
structure ScoresFit (audits : Fin n → Audit n) : Prop where
  fee : ∀ used u, (audits u).fee + feeSum audits (unusedAncestors audits used u) < 2 ^ 64
  weight : ∀ used u, (audits u).weight + weightSum audits (unusedAncestors audits used u) < 2 ^ 64

theorem feeSum_packageOf (audits : Fin n → Audit n) (used : Fin n → Bool) (u : Fin n) :
    feeSum audits (packageOf audits used u) = (audits u).fee + feeSum audits (unusedAncestors audits used u) := by
  rw [feeSum_perm (packageOf_perm u), feeSum, List.map_cons, List.sum_cons]
  rfl

theorem weightSum_packageOf (audits : Fin n → Audit n) (used : Fin n → Bool) (u : Fin n) :
    weightSum audits (packageOf audits used u) = (audits u).weight + weightSum audits (unusedAncestors audits used u) := by
  rw [weightSum_perm (packageOf_perm u), weightSum_cons]
  rfl

section ScoresFit

variable (hfit : ScoresFit audits)

include hfit

theorem ScoresFit.scoreOf64_eq (used : Fin n → Bool) (u : Fin n) : scoreOf64 audits used u = scoreOf audits used u := by
  rw [scoreOf64, scoreSums64_eq, sum64_eq (hfit.fee used u), sum64_eq (hfit.weight used u), scoreOf_eq,
    feeSum_packageOf, weightSum_packageOf]
  rfl

theorem ScoresFit.freshItem64_eq (used : Fin n → Bool) : freshItem64 audits used = freshItem audits used := by
  funext u
  rw [freshItem64, freshItem, hfit.scoreOf64_eq]

theorem ScoresFit.refreshDescendants64_eq (used : Fin n → Bool) (pkg : List (Fin n)) (heap : MaxHeap (HeapItem n)) :
    refreshDescendants64 audits used pkg heap = refreshDescendants audits used pkg heap := by
  rw [refreshDescendants64, refreshDescendants, hfit.freshItem64_eq]

theorem ScoresFit.stale64_iff {item : HeapItem n} : item.stale64 audits used ↔ item.stale audits used := by
  rw [HeapItem.stale64, HeapItem.stale, hfit.scoreOf64_eq]

theorem ScoresFit.finalize64_eq (s : Packing n) : s.finalize64 audits lim = s.finalize audits lim := by
  rw [Packing.finalize64, Packing.finalize, Packing.close64, Packing.close, hfit.freshItem64_eq]

theorem ScoresFit.feeSum64_eq (u : Fin n) :
    feeSum64 audits (packageOf audits used u) = feeSum audits (packageOf audits used u) := by
  have h := hfit.fee used u
  rw [← feeSum_packageOf] at h
  rw [feeSum64, sum64_eq (by rwa [Nat.zero_add]), Nat.zero_add]
  rfl

theorem ScoresFit.weightSum64_eq (u : Fin n) :
    weightSum64 audits (packageOf audits used u) = weightSum audits (packageOf audits used u) := by
  have h := hfit.weight used u
  rw [← weightSum_packageOf] at h
  rw [weightSum64, sum64_eq (by rwa [Nat.zero_add]), Nat.zero_add]
  rfl

theorem ScoresFit.start64_eq : Packing.start64 audits lim = Packing.start audits lim := by
  rw [Packing.start64, hfit.freshItem64_eq]
  rfl

end ScoresFit

/-- **A package is placed exactly** when the running weight has room for it. -/
theorem place64_eq (r : ℚ) : ∀ (pkg : List (Fin n)) (s : Packing n), s.blockWeight + weightSum audits pkg < 2 ^ 64 →
    s.place64 audits r pkg = s.place audits r pkg
  | [], _, _ => rfl
  | m :: pkg, s, h => by
    rw [weightSum_cons, ← add_assoc] at h
    have hm : add64 s.blockWeight (audits m).weight = s.blockWeight + (audits m).weight :=
      add64_eq ((Nat.le_add_right _ _).trans_lt h)
    rw [Packing.place64, Packing.place, List.foldl_cons, List.foldl_cons, hm]
    exact place64_eq r pkg _ h

theorem mustHold64_iff (hlim : lim.maxBlockWeight < 2 ^ 64 - 1) (s : Packing n) (w : ℕ) :
    s.mustHold64 lim w ↔ s.mustHold lim w := by
  rw [Packing.mustHold64, Packing.mustHold, lt_min_iff]
  refine and_congr_right (fun _ => and_congr_right (fun _ => ?_))
  exact and_iff_left hlim

/-- **The machine's iteration is the exact one** where no score wraps and the running weight has room for every package. -/
theorem packStep64_eq (hfit : ScoresFit audits) (hlim : lim.maxBlockWeight < 2 ^ 64 - 1) {s : Packing n}
    (hroom : ∀ u, s.used u = false → s.blockWeight + weightSum audits (packageOf audits s.used u) < 2 ^ 64) :
    packStep64 audits lim s = packStep audits lim s := by
  unfold packStep64 packStep
  cases hp : s.heap.pop with
  | none => rfl
  | some p =>
    obtain ⟨item, rest⟩ := p
    dsimp only
    cases hu : s.used item.uid with
    | true => rfl
    | false =>
      have htake : Packing.take64 audits { s with heap := rest } (packageOf audits s.used item.uid) =
          Packing.take audits { s with heap := rest } (packageOf audits s.used item.uid) := by
        have hroom' : ({ s with heap := rest } : Packing n).blockWeight +
            weightSum audits (packageOf audits s.used item.uid) < 2 ^ 64 := hroom item.uid hu
        rw [Packing.take64, Packing.take, hfit.feeSum64_eq, hfit.weightSum64_eq, place64_eq _ _ _ hroom',
          hfit.refreshDescendants64_eq]
      simp only [hfit.stale64_iff, hfit.freshItem64_eq, hfit.weightSum64_eq, mustHold64_iff hlim, htake,
        hfit.finalize64_eq]

/-! ## What the weights and the fees allow -/

/-- `u32` weights and uids. -/
structure Txs.U32 (txs : Txs n) : Prop where
  length : n < 2 ^ 32
  weight : ∀ u, (txs.tx u).weight < 2 ^ 32

/-- Every fee stays below `2 ^ 64` when the fees of its ancestors are added to it. -/
def Txs.FeesFit (txs : Txs n) : Prop :=
  ∀ (u : Fin n) (l : Finset (Fin n)), (∀ a ∈ l, txs.Ancestor u a) → (txs.tx u).fee + ∑ a ∈ l, (txs.tx a).fee < 2 ^ 64

variable {ord : HashOrder n} {txs : Txs n}

theorem Txs.U32.weightSum_lt (h : txs.U32) (ord : HashOrder n) {l : List (Fin n)} (hnd : l.Nodup) :
    2 ^ 32 + weightSum (auditsOf ord txs) l < 2 ^ 64 := by
  refine sum_small ?_ (fun x hx => ?_)
  · rw [List.length_map]
    exact (hnd.length_le_card.trans_eq (Fintype.card_fin n)).trans_lt h.length
  · obtain ⟨m, -, rfl⟩ := List.mem_map.1 hx
    exact h.weight m

/-- **No score wraps.** -/
theorem scoresFit (h : txs.U32) (hac : txs.Acyclic) (hfee : txs.FeesFit) : ScoresFit (auditsOf ord txs) where
  fee used u := by
    have hnd : (unusedAncestors (auditsOf ord txs) used u).Nodup := ((auditsOf_closed ord hac).nodup u).filter _
    have hsum : feeSum (auditsOf ord txs) (unusedAncestors (auditsOf ord txs) used u) =
        ∑ a ∈ (unusedAncestors (auditsOf ord txs) used u).toFinset, (txs.tx a).fee :=
      (List.sum_toFinset _ hnd).symm
    rw [hsum]
    refine hfee u _ (fun a ha => ?_)
    exact (mem_ancestors_iff hac).1 (List.mem_of_mem_filter (List.mem_toFinset.1 ha))
  weight used u := by
    have hnd : (packageOf (auditsOf ord txs) used u).Nodup := packageOf_nodup (auditsOf_closed ord hac) u
    have := h.weightSum_lt ord hnd
    rw [← weightSum_packageOf]
    omega

/-- **The running weight has room for every package**: the open block and the package share no transaction. -/
theorem room (h : txs.U32) (hac : txs.Acyclic) (hres : lim.reserved < 2 ^ 32) {s : Packing n}
    (hs : LoopHead ord txs lim s) {u : Fin n} (hu : s.used u = false) :
    s.blockWeight + weightSum (auditsOf ord txs) (packageOf (auditsOf ord txs) s.used u) < 2 ^ 64 := by
  have ha := accounts_loopHead hs
  have hplaced : s.placed.Nodup := placed_nodup_loopHead (fun _ v _ _ hv => (auditsOf_closed ord hac).irrefl v hv) hs
  have hdisj : s.curBlock.Disjoint (packageOf (auditsOf ord txs) s.used u) :=
    List.disjoint_of_subset_left (List.subset_append_right _ _) (placed_disjoint_packageOf ha hu)
  have hnd : (s.curBlock ++ packageOf (auditsOf ord txs) s.used u).Nodup :=
    List.nodup_append'.2 ⟨(List.nodup_append'.1 hplaced).2.1, packageOf_nodup (auditsOf_closed ord hac) u, hdisj⟩
  have := h.weightSum_lt ord hnd
  rw [weightSum_append] at this
  rw [ha.weight]
  omega

/-! ## The run -/

theorem reaches_congr {σ : Type*} {f g : σ → Option σ} {a b : σ} (h : ∀ c, Reaches g a c → f c = g c) :
    Reaches f a b ↔ Reaches g a b := by
  constructor
  · intro hr
    induction hr with
    | refl => exact Relation.ReflTransGen.refl
    | tail _ hstep ih => exact ih.tail ((h _ ih) ▸ hstep)
  · intro hr
    induction hr with
    | refl => exact Relation.ReflTransGen.refl
    | tail hr hstep ih => exact ih.tail (by rw [h _ hr]; exact hstep)

/-- **The machine's loop runs through the states of the exact loop.** -/
theorem loopHead64_iff (h : txs.U32) (hac : txs.Acyclic) (hfee : txs.FeesFit) (hres : lim.reserved < 2 ^ 32)
    (hlim : lim.maxBlockWeight < 2 ^ 64 - 1) {s : Packing n} : LoopHead64 ord txs lim s ↔ LoopHead ord txs lim s := by
  have hfit : ScoresFit (auditsOf ord txs) := scoresFit h hac hfee
  rw [LoopHead64, hfit.start64_eq]
  exact reaches_congr (fun t ht => packStep64_eq hfit hlim (fun u hu => room h hac hres ht hu))

/-- The accumulators at a loop head: the scores', and every package's, alone and on top of the open block. -/
structure Packing.SumsFit (audits : Fin n → Audit n) (s : Packing n) : Prop where
  pf : ∀ u, Fits (audits u).fee ((unusedAncestors audits s.used u).map (fun a => (audits a).fee))
  pw : ∀ u, Fits (audits u).weight ((unusedAncestors audits s.used u).map (fun a => (audits a).weight))
  pkgFee : ∀ u, s.used u = false → Fits 0 ((packageOf audits s.used u).map (fun m => (audits m).fee))
  pkgWeight : ∀ u, s.used u = false → Fits 0 ((packageOf audits s.used u).map (fun m => (audits m).weight))
  blockWeight : ∀ u, s.used u = false → Fits s.blockWeight ((packageOf audits s.used u).map (fun m => (audits m).weight))

theorem sumsFit_loopHead (h : txs.U32) (hac : txs.Acyclic) (hfee : txs.FeesFit) (hres : lim.reserved < 2 ^ 32)
    {s : Packing n} (hs : LoopHead ord txs lim s) : s.SumsFit (auditsOf ord txs) := by
  have hfit : ScoresFit (auditsOf ord txs) := scoresFit h hac hfee
  refine ⟨fun u => fits_iff.2 (hfit.fee _ u), fun u => fits_iff.2 (hfit.weight _ u), fun u _ => fits_iff.2 ?_,
    fun u hu => fits_iff.2 ?_, fun u hu => fits_iff.2 (room h hac hres hs hu)⟩
  · have := hfit.fee s.used u
    rwa [← feeSum_packageOf, ← Nat.zero_add (feeSum _ _)] at this
  · exact (Nat.add_le_add_right (Nat.zero_le _) _).trans_lt (room h hac hres hs hu)

/-- **The first scores already add up every transaction's fee and those of its ancestors.** -/
theorem feesFit_of_start64 (hac : txs.Acyclic)
    (h : (Packing.start64 (auditsOf ord txs) lim).SumsFit (auditsOf ord txs)) : txs.FeesFit := by
  intro u l hl
  have hpf := fits_iff.1 (h.pf u)
  have hall : unusedAncestors (auditsOf ord txs) (Packing.start64 (auditsOf ord txs) lim).used u =
      (auditsOf ord txs u).ancestors := List.filter_eq_self.2 (fun _ _ => rfl)
  rw [hall] at hpf
  have hsub : l ⊆ (auditsOf ord txs u).ancestors.toFinset :=
    fun a ha => List.mem_toFinset.2 ((mem_ancestors_iff hac).2 (hl a ha))
  have hsum : ∑ a ∈ (auditsOf ord txs u).ancestors.toFinset, (txs.tx a).fee =
      ((auditsOf ord txs u).ancestors.map (fun a => (auditsOf ord txs a).fee)).sum :=
    List.sum_toFinset _ ((auditsOf_closed ord hac).nodup u)
  have hle : ∑ a ∈ l, (txs.tx a).fee ≤ ∑ a ∈ (auditsOf ord txs u).ancestors.toFinset, (txs.tx a).fee :=
    Finset.sum_le_sum_of_subset hsub
  rw [hsum] at hle
  exact (Nat.add_le_add_left hle _).trans_lt hpf

end Gbt
end Satya
