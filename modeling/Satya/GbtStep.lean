import Mathlib.Computability.StateTransition
import Mathlib.Data.List.Sort
import Satya.GbtProject
/-!
# GbtStep — what one iteration of the packing loop does

One specification for each operation of the loop, `packStep_turn` for the iteration as a whole, and the measure that
every iteration decreases: an unused transaction is placed, or the open block closes, or an entry leaves the heap, or a
stale entry becomes a fresh one.
-/
namespace Satya
namespace Gbt

open StateTransition (Reaches)

variable {n : ℕ} {audits : Fin n → Audit n} {lim : Limits} {used : Fin n → Bool}

/-! ## Packages and scores -/

theorem mem_packageOf {u m : Fin n} :
    m ∈ packageOf audits used u ↔ (m ∈ (audits u).ancestors ∧ used m = false) ∨ m = u := by
  simp [packageOf, (List.perm_insertionSort (pkgLe audits) _).mem_iff]

theorem self_mem_packageOf (u : Fin n) : u ∈ packageOf audits used u := mem_packageOf.2 (Or.inr rfl)

theorem packageOf_perm (u : Fin n) :
    (packageOf audits used u).Perm (u :: (audits u).ancestors.filter (fun a => !used a)) := by
  rw [packageOf]
  exact (List.perm_append_singleton u _).trans ((List.perm_insertionSort (pkgLe audits) _).cons u)

@[simp] theorem weightSum_nil : weightSum audits [] = 0 := rfl

@[simp] theorem weightSum_cons (m : Fin n) (l : List (Fin n)) :
    weightSum audits (m :: l) = (audits m).weight + weightSum audits l := by simp [weightSum]

@[simp] theorem weightSum_append (l l' : List (Fin n)) :
    weightSum audits (l ++ l') = weightSum audits l + weightSum audits l' := by simp [weightSum]

theorem weightSum_perm {l l' : List (Fin n)} (h : l.Perm l') : weightSum audits l = weightSum audits l' :=
  (h.map _).sum_eq

theorem feeSum_perm {l l' : List (Fin n)} (h : l.Perm l') : feeSum audits l = feeSum audits l' :=
  (h.map _).sum_eq

theorem scoreSums_eq : ∀ (l : List (Fin n)) (acc : ℕ × ℕ),
    l.foldl (fun (acc : ℕ × ℕ) an => if used an then acc else (acc.1 + (audits an).fee, acc.2 + (audits an).weight)) acc
      = (acc.1 + feeSum audits (l.filter (fun a => !used a)), acc.2 + weightSum audits (l.filter (fun a => !used a)))
  | [], acc => by simp [feeSum, weightSum]
  | a :: l, acc => by
    rw [List.foldl_cons, scoreSums_eq l]
    cases ha : used a with
    | true => simp [ha]
    | false => simp [ha, feeSum, weightSum, add_assoc]

/-- **The score is the lower of the own rate and the rate of the package that would be placed.** -/
theorem scoreOf_eq (u : Fin n) : scoreOf audits used u = min (rate (audits u).fee (audits u).weight)
    (rate (feeSum audits (packageOf audits used u)) (weightSum audits (packageOf audits used u))) := by
  rw [feeSum_perm (packageOf_perm u), weightSum_perm (packageOf_perm u)]
  simp only [scoreOf, scoreSums_eq, feeSum, weightSum, List.map_cons, List.sum_cons]

theorem scoreOf_le_packageRate (audits : Fin n → Audit n) (used : Fin n → Bool) (u : Fin n) : scoreOf audits used u ≤
    rate (feeSum audits (packageOf audits used u)) (weightSum audits (packageOf audits used u)) := by
  rw [scoreOf_eq]
  exact min_le_right _ _

theorem filter_unused_congr {used' : Fin n → Bool} {l : List (Fin n)} (h : ∀ a ∈ l, used a = used' a) :
    l.filter (fun a => !used a) = l.filter (fun a => !used' a) :=
  List.filter_congr (fun a ha => by rw [h a ha])

theorem packageOf_congr {used' : Fin n → Bool} {u : Fin n} (h : ∀ a ∈ (audits u).ancestors, used a = used' a) :
    packageOf audits used u = packageOf audits used' u := by
  rw [packageOf, packageOf, filter_unused_congr h]

theorem scoreOf_congr {used' : Fin n → Bool} {u : Fin n} (h : ∀ a ∈ (audits u).ancestors, used a = used' a) :
    scoreOf audits used u = scoreOf audits used' u := by
  rw [scoreOf_eq, scoreOf_eq, packageOf_congr h]

theorem packageOf_root {x : Fin n} (hx : (audits x).ancestors = []) :
    packageOf audits used x = [x] := by simp [packageOf, hx]

theorem scoreOf_root {x : Fin n} (hx : (audits x).ancestors = []) :
    scoreOf audits used x = rate (audits x).fee (audits x).weight := by
  rw [scoreOf_eq, packageOf_root hx]
  simp [feeSum, weightSum]

@[simp] theorem freshItem_uid (u : Fin n) : (freshItem audits used u).uid = u := rfl

theorem freshItem_congr {used' : Fin n → Bool} {u : Fin n} (h : ∀ a ∈ (audits u).ancestors, used a = used' a) :
    freshItem audits used u = freshItem audits used' u := by
  rw [freshItem, freshItem, scoreOf_congr h]

theorem not_stale_freshItem (u : Fin n) : ¬ (freshItem audits used u).stale audits used := by
  simp [HeapItem.stale, freshItem, staleTolerance]

/-! ## The operations -/

/-- Refreshing pushes one entry for every unused descendant of the package, and nothing else. -/
theorem mem_refreshDescendants {pkg : List (Fin n)} {heap : MaxHeap (HeapItem n)} {x : HeapItem n} :
    x ∈ refreshDescendants audits used pkg heap ↔ x ∈ heap ∨ ∃ d, x = freshItem audits used d ∧ used d = false ∧
      ∃ m ∈ pkg, Relation.TransGen (fun a b => b ∈ (audits a).children) m d := by
  obtain ⟨vs, e, -, hvs⟩ := walkFrom_eq_foldl (fun d => (audits d).children)
    (fun heap d => if used d then heap else heap.push (freshItem audits used d)) pkg heap
  have hfold : ∀ (l : List (Fin n)) (heap : MaxHeap (HeapItem n)),
      x ∈ l.foldl (fun heap d => if used d then heap else heap.push (freshItem audits used d)) heap ↔
        x ∈ heap ∨ ∃ d ∈ l, x = freshItem audits used d ∧ used d = false := by
    intro l
    induction l with
    | nil => simp
    | cons d l ih =>
      intro heap
      rw [List.foldl_cons, ih]
      cases hd : used d with
      | true => simp [hd]
      | false => simp [hd, or_assoc, or_left_comm]
  rw [refreshDescendants, e, hfold]
  refine or_congr Iff.rfl ⟨fun ⟨d, hd, h1, h2⟩ => ⟨d, h1, h2, (hvs d).1 hd⟩, fun ⟨d, h1, h2, h3⟩ => ?_⟩
  exact ⟨d, (hvs d).2 h3, h1, h2⟩

theorem place_eq (r : ℚ) : ∀ (pkg : List (Fin n)) (s : Packing n), s.place audits r pkg =
    { s with
      used := fun u => s.used u || decide (u ∈ pkg)
      curBlock := s.curBlock ++ pkg
      blockWeight := s.blockWeight + weightSum audits pkg
      effectiveRates := fun u => if u ∈ pkg then some r else s.effectiveRates u }
  | [], s => by simp [Packing.place]
  | m :: pkg, s => by
    have hstep : s.place audits r (m :: pkg) = Packing.place audits r
        { s with
          used := Function.update s.used m true
          curBlock := s.curBlock ++ [m]
          blockWeight := s.blockWeight + (audits m).weight
          effectiveRates := Function.update s.effectiveRates m (some r) } pkg := rfl
    rw [hstep, place_eq r pkg]
    have hu : (fun u => Function.update s.used m true u || decide (u ∈ pkg)) =
        fun u => s.used u || decide (u ∈ m :: pkg) := by
      funext u
      by_cases hum : u = m
      · subst hum; simp
      · simp [hum]
    have hr : (fun u => if u ∈ pkg then some r else Function.update s.effectiveRates m (some r) u) =
        fun u => if u ∈ m :: pkg then some r else s.effectiveRates u := by
      funext u
      by_cases hum : u = m
      · subst hum; simp
      · simp [hum]
    simp only [hu, hr, List.append_assoc, List.singleton_append, weightSum_cons, add_assoc]

/-- The rate every member of a placed package is given. -/
def clusterRate (audits : Fin n → Audit n) (pkg : List (Fin n)) : ℚ := rate (feeSum audits pkg) (weightSum audits pkg)

section Take

variable (s : Packing n) (pkg : List (Fin n))

theorem take_used : (s.take audits pkg).used = fun u => s.used u || decide (u ∈ pkg) := by
  simp [Packing.take, place_eq]

theorem take_heap : (s.take audits pkg).heap =
    refreshDescendants audits (fun u => s.used u || decide (u ∈ pkg)) pkg s.heap := by
  simp [Packing.take, place_eq]

@[simp] theorem take_blocks : (s.take audits pkg).blocks = s.blocks := by simp [Packing.take, place_eq]

@[simp] theorem take_overflow : (s.take audits pkg).overflow = s.overflow := by simp [Packing.take, place_eq]

@[simp] theorem take_curBlock : (s.take audits pkg).curBlock = s.curBlock ++ pkg := by simp [Packing.take, place_eq]

@[simp] theorem take_blockWeight : (s.take audits pkg).blockWeight = s.blockWeight + weightSum audits pkg := by
  simp [Packing.take, place_eq]

theorem take_effectiveRates : (s.take audits pkg).effectiveRates =
    fun u => if u ∈ pkg then some (clusterRate audits pkg) else s.effectiveRates u := by
  simp [Packing.take, place_eq, clusterRate]

end Take

theorem take_used_iff {s : Packing n} {pkg : List (Fin n)} {u : Fin n} :
    (s.take audits pkg).used u = true ↔ s.used u = true ∨ u ∈ pkg := by
  simp [take_used]

theorem take_unused_iff {s : Packing n} {pkg : List (Fin n)} {u : Fin n} :
    (s.take audits pkg).used u = false ↔ s.used u = false ∧ u ∉ pkg := by
  simp [take_used]

/-! ## One iteration -/

/-- What an iteration may do with the popped `item`, once `rest` is left on the heap. -/
inductive Turn (audits : Fin n → Audit n) (lim : Limits) (s : Packing n) (item : HeapItem n)
    (rest : MaxHeap (HeapItem n)) : Packing n → Prop
  /-- the transaction is used already -/
  | discard : s.used item.uid = true → Turn audits lim s item rest { s with heap := rest }
  /-- the entry is stale and pushed again with the current score -/
  | requeue : s.used item.uid = false → item.stale audits s.used →
      Turn audits lim s item rest { s with heap := rest.push (freshItem audits s.used item.uid) }
  /-- the package does not fit the partial block -/
  | hold : s.used item.uid = false → ¬ item.stale audits s.used →
      s.mustHold lim (weightSum audits (packageOf audits s.used item.uid)) →
      Turn audits lim s item rest ((Packing.hold { s with heap := rest } item.uid).finalize audits lim)
  /-- the package is placed -/
  | take : s.used item.uid = false → ¬ item.stale audits s.used →
      ¬ s.mustHold lim (weightSum audits (packageOf audits s.used item.uid)) →
      Turn audits lim s item rest
        ((Packing.take audits { s with heap := rest } (packageOf audits s.used item.uid)).finalize audits lim)

/-- **Everything one iteration can do.** -/
theorem packStep_turn {s s' : Packing n} : packStep audits lim s = some s' ↔
    ∃ item rest, s.heap.pop = some (item, rest) ∧ Turn audits lim s item rest s' := by
  unfold packStep
  cases hp : s.heap.pop with
  | none => simp
  | some p =>
    obtain ⟨item, rest⟩ := p
    have hmust : ∀ w, ({ s with heap := rest } : Packing n).mustHold lim w ↔ s.mustHold lim w := fun w => Iff.rfl
    simp only [Option.some.injEq, Prod.mk.injEq]
    constructor
    · intro h
      refine ⟨item, rest, ⟨rfl, rfl⟩, ?_⟩
      by_cases hu : s.used item.uid = true
      · rw [if_pos hu, Option.some.injEq] at h
        exact h ▸ Turn.discard hu
      have hu' : s.used item.uid = false := by simpa using hu
      rw [if_neg hu] at h
      by_cases hst : item.stale audits s.used
      · rw [if_pos hst, Option.some.injEq] at h
        exact h ▸ Turn.requeue hu' hst
      rw [if_neg hst, Option.some.injEq] at h
      by_cases hm : s.mustHold lim (weightSum audits (packageOf audits s.used item.uid))
      · rw [if_pos ((hmust _).2 hm)] at h
        exact h ▸ Turn.hold hu' hst hm
      · rw [if_neg (fun h' => hm ((hmust _).1 h'))] at h
        exact h ▸ Turn.take hu' hst hm
    · rintro ⟨item', rest', ⟨rfl, rfl⟩, ht⟩
      cases ht with
      | discard hu => rw [if_pos hu]
      | requeue hu hst => rw [if_neg (by simp [hu]), if_pos hst]
      | hold hu hst hm => rw [if_neg (by simp [hu]), if_neg hst, if_pos ((hmust _).2 hm)]
      | take hu hst hm => rw [if_neg (by simp [hu]), if_neg hst, if_neg (fun h' => hm ((hmust _).1 h'))]

/-- What an iteration hands to the finalisation: the package of the popped entry held back, or placed. -/
inductive Processed (audits : Fin n → Audit n) (lim : Limits) (s : Packing n) : Packing n → Prop
  /-- the package does not fit the partial block -/
  | hold {item rest} : s.heap.pop = some (item, rest) → s.used item.uid = false → ¬ item.stale audits s.used →
      s.mustHold lim (weightSum audits (packageOf audits s.used item.uid)) →
      Processed audits lim s (Packing.hold { s with heap := rest } item.uid)
  /-- the package is placed -/
  | take {item rest} : s.heap.pop = some (item, rest) → s.used item.uid = false → ¬ item.stale audits s.used →
      ¬ s.mustHold lim (weightSum audits (packageOf audits s.used item.uid)) →
      Processed audits lim s (Packing.take audits { s with heap := rest } (packageOf audits s.used item.uid))

theorem packStep_of_processed {s t : Packing n} (h : Processed audits lim s t) :
    packStep audits lim s = some (t.finalize audits lim) := by
  cases h with
  | hold hp hu hst hm => exact packStep_turn.2 ⟨_, _, hp, Turn.hold hu hst hm⟩
  | take hp hu hst hm => exact packStep_turn.2 ⟨_, _, hp, Turn.take hu hst hm⟩

theorem packStep_eq_none {s : Packing n} : packStep audits lim s = none ↔ s.heap.isEmpty = true := by
  rw [← MaxHeap.pop_eq_none]
  unfold packStep
  cases hp : s.heap.pop with
  | none => simp
  | some p =>
    simp only [reduceCtorEq, iff_false]
    split
    · simp
    · split <;> simp

/-- **Closing changes the block list, the heap and the counters, or nothing.** -/
theorem finalize_cases (audits : Fin n → Audit n) (lim : Limits) (s : Packing n) :
    (s.mustClose lim ∧ s.finalize audits lim = s.close audits lim) ∨
      (¬ s.mustClose lim ∧ s.finalize audits lim = s) := by
  by_cases h : s.mustClose lim
  · exact Or.inl ⟨h, if_pos h⟩
  · exact Or.inr ⟨h, if_neg h⟩

/-! ## The loop ends -/

def Packing.unusedCount (s : Packing n) : ℕ := (Finset.univ.filter (fun u => s.used u = false)).card

def Packing.openBlock (s : Packing n) : ℕ := if s.curBlock = [] then 0 else 1

def Packing.staleCount (audits : Fin n → Audit n) (s : Packing n) : ℕ :=
  s.heap.items.countP (fun item => decide (item.stale audits s.used))

/-- What every iteration decreases, lexicographically. -/
def Packing.measure (audits : Fin n → Audit n) (s : Packing n) : ℕ ×ₗ (ℕ ×ₗ ℕ) :=
  toLex (s.unusedCount, toLex (s.openBlock, 2 * s.heap.size + s.staleCount audits))

@[simp] theorem finalize_used (s : Packing n) : (s.finalize audits lim).used = s.used := by
  rcases finalize_cases audits lim s with ⟨-, h⟩ | ⟨-, h⟩
  · rw [h]; rfl
  · rw [h]

theorem unusedCount_take_lt {s : Packing n} {pkg : List (Fin n)} {u : Fin n} (hu : s.used u = false) (hm : u ∈ pkg) :
    (s.take audits pkg).unusedCount < s.unusedCount := by
  refine Finset.card_lt_card (Finset.ssubset_iff_of_subset (fun v hv => ?_) |>.2 ⟨u, by simpa using hu, ?_⟩)
  · simp only [Finset.mem_filter, Finset.mem_univ, true_and] at hv ⊢
    exact (take_unused_iff.1 hv).1
  · simp [take_used, hm]

theorem finalize_measure_le (s : Packing n) : (s.finalize audits lim).measure audits ≤ s.measure audits := by
  rcases finalize_cases audits lim s with ⟨hc, h⟩ | ⟨-, h⟩
  · rw [h]
    refine le_of_lt (Prod.Lex.toLex_lt_toLex.2 (Or.inr ⟨rfl, Prod.Lex.toLex_lt_toLex.2 (Or.inl ?_)⟩))
    simp [Packing.openBlock, Packing.close, hc.2.2]
  · rw [h]

/-- **Every iteration decreases the measure.** -/
theorem packStep_decreases {s s' : Packing n} (h : packStep audits lim s = some s') :
    s'.measure audits < s.measure audits := by
  obtain ⟨item, rest, hp, ht⟩ := packStep_turn.1 h
  have hsize := MaxHeap.size_of_pop hp
  have hitems := MaxHeap.pop_perm hp
  have hcount : rest.items.countP (fun i => decide (i.stale audits s.used)) ≤ s.staleCount audits := by
    rw [Packing.staleCount, hitems, List.countP_cons]
    omega
  -- an entry that only leaves the heap decreases the last component
  have hshrink : ∀ t : Packing n, t.used = s.used → t.curBlock = s.curBlock → t.heap = rest →
      t.measure audits < s.measure audits := by
    intro t hu hb hh
    refine Prod.Lex.toLex_lt_toLex.2 (Or.inr ⟨by simp [Packing.unusedCount, hu], ?_⟩)
    refine Prod.Lex.toLex_lt_toLex.2 (Or.inr ⟨by simp [Packing.openBlock, hb], ?_⟩)
    have hst : t.staleCount audits ≤ s.staleCount audits := by rw [Packing.staleCount, hu, hh]; exact hcount
    rw [hh, hsize]
    omega
  cases ht with
  | discard hu => exact hshrink _ rfl rfl rfl
  | requeue hu hst =>
    refine Prod.Lex.toLex_lt_toLex.2 (Or.inr ⟨rfl, Prod.Lex.toLex_lt_toLex.2 (Or.inr ⟨rfl, ?_⟩)⟩)
    -- the stale entry is replaced by a fresh one
    have hnew : (rest.push (freshItem audits s.used item.uid)).items.countP
        (fun i => decide (i.stale audits s.used)) = rest.items.countP (fun i => decide (i.stale audits s.used)) := by
      rw [(rest.push_perm _).countP_eq, List.countP_cons, if_neg (by simpa using not_stale_freshItem item.uid)]
      omega
    have hold : s.staleCount audits = rest.items.countP (fun i => decide (i.stale audits s.used)) + 1 := by
      rw [Packing.staleCount, hitems, List.countP_cons, if_pos (by simpa using hst)]
    simp only [Packing.staleCount, hnew, MaxHeap.size_push]
    rw [hsize, ← Packing.staleCount, hold]
    omega
  | hold hu hst hm =>
    exact lt_of_le_of_lt (finalize_measure_le _) (hshrink _ rfl rfl rfl)
  | take hu hst hm =>
    refine lt_of_le_of_lt (finalize_measure_le _) (Prod.Lex.toLex_lt_toLex.2 (Or.inl ?_))
    exact unusedCount_take_lt (s := { s with heap := rest }) hu (self_mem_packageOf _)

def packLoop (audits : Fin n → Audit n) (lim : Limits) (s : Packing n) : Packing n :=
  match _h : packStep audits lim s with
  | none => s
  | some s' => packLoop audits lim s'
termination_by s.measure audits
decreasing_by exact packStep_decreases _h

theorem packLoop_of_none {s : Packing n} (h : packStep audits lim s = none) : packLoop audits lim s = s := by
  rw [packLoop]
  split
  · rfl
  · rename_i s' hs; rw [h] at hs; cases hs

theorem packLoop_of_some {s s' : Packing n} (h : packStep audits lim s = some s') :
    packLoop audits lim s = packLoop audits lim s' := by
  rw [packLoop]
  split
  · rename_i hs; rw [h] at hs; cases hs
  · rename_i t hs; rw [h, Option.some.injEq] at hs; rw [hs]

/-- **The loop reaches its result by iterations and stops there with the heap drained.** -/
theorem packLoop_spec (s : Packing n) :
    Reaches (packStep audits lim) s (packLoop audits lim s) ∧ (packLoop audits lim s).heap.isEmpty = true := by
  cases h : packStep audits lim s with
  | none =>
    rw [packLoop_of_none h]
    exact ⟨Relation.ReflTransGen.refl, packStep_eq_none.1 h⟩
  | some s' =>
    rw [packLoop_of_some h]
    obtain ⟨h1, h2⟩ := packLoop_spec s'
    exact ⟨Relation.ReflTransGen.head h h1, h2⟩
termination_by s.measure audits
decreasing_by exact packStep_decreases h

theorem packLoop_eq_of_reaches {s t : Packing n} (h : Reaches (packStep audits lim) s t) :
    packLoop audits lim s = packLoop audits lim t := by
  induction h with
  | refl => rfl
  | tail _ hstep ih => rw [ih]; exact packLoop_of_some hstep

/-- What the start establishes and every iteration keeps holds at every loop head. -/
theorem reaches_keeps {P : Packing n → Prop} {s t : Packing n} (h : Reaches (packStep audits lim) s t) (h0 : P s)
    (hstep : ∀ a b, P a → packStep audits lim a = some b → P b) : P t := by
  induction h with
  | refl => exact h0
  | tail _ hs ih => exact hstep _ _ ih hs

/-- At most `k` iterations, for evaluating runs. -/
def packIter (audits : Fin n → Audit n) (lim : Limits) : ℕ → Packing n → Packing n
  | 0, s => s
  | k + 1, s => match packStep audits lim s with
    | none => s
    | some s' => packIter audits lim k s'

theorem reaches_packIter : ∀ (k : ℕ) (s : Packing n), Reaches (packStep audits lim) s (packIter audits lim k s)
  | 0, _ => Relation.ReflTransGen.refl
  | k + 1, s => by
    unfold packIter
    split
    · exact Relation.ReflTransGen.refl
    · rename_i s' h
      exact Relation.ReflTransGen.head h (reaches_packIter k s')

theorem exists_packIter_of_reaches {s t : Packing n} (h : Reaches (packStep audits lim) s t) :
    ∃ k, t = packIter audits lim k s := by
  induction h using Relation.ReflTransGen.head_induction_on with
  | refl => exact ⟨0, rfl⟩
  | head hstep _ ih =>
    obtain ⟨k, hk⟩ := ih
    exact ⟨k + 1, by rw [hk, packIter, Option.mem_def.1 hstep]⟩

theorem packLoop_eq_packIter {s : Packing n} (k : ℕ) (h : (packIter audits lim k s).heap.isEmpty = true) :
    packLoop audits lim s = packIter audits lim k s := by
  rw [packLoop_eq_of_reaches (reaches_packIter k s), packLoop_of_none (packStep_eq_none.2 h)]

/-! ## The projection -/

/-- Result of a projection run: the projected blocks, the next one first, and the rate of every placed uid. -/
structure Projection (n : ℕ) where
  blocks : List (List (Fin n))
  effectiveRates : Fin n → Option ℚ

/-- The statement after the loop: the last block is pushed when it holds something. -/
def Packing.result (s : Packing n) : Projection n where
  blocks := if s.curBlock = [] then s.blocks else s.blocks ++ [s.curBlock]
  effectiveRates := s.effectiveRates

def packed (ord : HashOrder n) (txs : Txs n) (lim : Limits) : Packing n :=
  packLoop (auditsOf ord txs) lim (Packing.start (auditsOf ord txs) lim)

def projectWith (ord : HashOrder n) (txs : Txs n) (lim : Limits) : Projection n :=
  if n = 0 then ⟨[], fun _ => none⟩ else (packed ord txs lim).result

def project (ord : HashOrder n) (txs : Txs n) : Projection n := projectWith ord txs defaultLimits

/-- The loop heads of a run: the states before an iteration, and the final one. -/
def LoopHead (ord : HashOrder n) (txs : Txs n) (lim : Limits) (s : Packing n) : Prop :=
  Reaches (packStep (auditsOf ord txs) lim) (Packing.start (auditsOf ord txs) lim) s

theorem loopHead_packed (ord : HashOrder n) (txs : Txs n) (lim : Limits) : LoopHead ord txs lim (packed ord txs lim) :=
  (packLoop_spec _).1

theorem packed_heap (ord : HashOrder n) (txs : Txs n) (lim : Limits) :
    (packed ord txs lim).heap.isEmpty = true :=
  (packLoop_spec _).2

/-- **The projection terminates**, on cyclic parent relations too: every call of `build_ancestors` answers, whatever the
fuel beyond its depth; no refresh walk and no pop loop goes on forever, from any state; and the pop loop drains the heap
after finitely many iterations. -/
theorem projection_terminates (ord : HashOrder n) (txs : Txs n) (lim : Limits) :
    (∀ pre uid post, List.finRange n = pre ++ uid :: post → ∃ table st,
      ancestorLoop ord txs pre (Dfs.start n) (fun _ => []) = some (table, st) ∧
      ∃ r, ∀ fuel, n < fuel → buildAncestors ord txs fuel uid st = some r) ∧
    WellFounded (fun w' w : Finset (Fin n) × List (Fin n) => walkStep (fun d => (auditsOf ord txs d).children) w = some w') ∧
    WellFounded (fun s' s : Packing n => packStep (auditsOf ord txs) lim s = some s') ∧
    ∃ k, (packIter (auditsOf ord txs) lim k (Packing.start (auditsOf ord txs) lim)).heap.isEmpty = true ∧
      packIter (auditsOf ord txs) lim k (Packing.start (auditsOf ord txs) lim) = packed ord txs lim := by
  refine ⟨fun pre uid post _ => ?_, walkStep_wellFounded _, ?_, ?_⟩
  · obtain ⟨table, st, hloop, hv, hs, -, -⟩ := ancestorLoop_spec ord txs pre (Dfs.start n) (fun _ => []) rfl
      (Dfs.sound_start txs) (fun _ => Dfs.complete_start txs)
    obtain ⟨l, st', hcall, -⟩ := buildAncestors_spec ord txs (n + 1) uid st (idle_of_unvisited hv) hs
    exact ⟨table, st, hloop, (l, st'), fun fuel hf => buildAncestors_mono ord txs (n + 1) fuel uid st _ hf hcall⟩
  · exact Subrelation.wf (fun h => packStep_decreases h) (InvImage.wf (Packing.measure (auditsOf ord txs)) wellFounded_lt)
  · obtain ⟨k, hk⟩ := exists_packIter_of_reaches (loopHead_packed ord txs lim)
    exact ⟨k, hk ▸ packed_heap ord txs lim, hk.symm⟩

end Gbt
end Satya
