import Mathlib.Algebra.Order.Group.Nat
import Mathlib.Data.List.Basic
import Mathlib.Data.List.Induction
import Mathlib.Data.Nat.Init
import Mathlib.Order.Basic
import Mathlib.Tactic.Ring
/-!
# FixedWindow — a limiter with a fixed window

At most `limit` calls are admitted in a window; the first call a period or more after a window's start opens the next
one.  Over any `k` periods at most `k + 1` windows let calls pass (`length_admitted_le`), and a refusal means that `limit` calls
were admitted within the last period (`full_of_refused`).
-/
namespace Satya

/-- When the window opened, and how many calls it has admitted. -/
structure FixedWindow where
  start : ℕ
  count : ℕ
deriving DecidableEq

namespace FixedWindow

variable (period limit : ℕ)

/-- The window that a call at `now` meets. -/
def roll (w : FixedWindow) (now : ℕ) : FixedWindow := if period ≤ now - w.start then ⟨now, 0⟩ else w

/-- Whether a call is admitted, and the window after it. -/
def pass (w : FixedWindow) (now : ℕ) : Bool × FixedWindow :=
  let w := w.roll period now
  if limit ≤ w.count then (false, w) else (true, { w with count := w.count + 1 })

/-- The window after calls at `times`. -/
def after (w : FixedWindow) (times : List ℕ) : FixedWindow := times.foldl (fun w t => (w.pass period limit t).2) w

/-- The admitted ones of calls at `times`. -/
def admitted : FixedWindow → List ℕ → List ℕ
  | _, [] => []
  | w, t :: times =>
    let r := w.pass period limit t
    if r.1 then t :: admitted r.2 times else admitted r.2 times

variable {period limit} {w : FixedWindow}

/-- **The two outcomes of a call.** -/
theorem pass_cases (period limit : ℕ) (w : FixedWindow) (now : ℕ) :
    (limit ≤ (w.roll period now).count ∧ w.pass period limit now = (false, w.roll period now)) ∨
      ((w.roll period now).count < limit ∧
        w.pass period limit now = (true, ⟨(w.roll period now).start, (w.roll period now).count + 1⟩)) := by
  by_cases h : limit ≤ (w.roll period now).count
  · exact Or.inl ⟨h, by rw [pass, if_pos h]⟩
  · exact Or.inr ⟨not_le.1 h, by rw [pass, if_neg h]⟩

theorem admitted_append (w : FixedWindow) : ∀ (l l' : List ℕ),
    w.admitted period limit (l ++ l') = w.admitted period limit l ++ (w.after period limit l).admitted period limit l' := by
  intro l
  induction l generalizing w with
  | nil => exact fun l' => rfl
  | cons t l ih =>
    intro l'
    rw [List.cons_append, admitted, admitted, ih]
    split <;> rfl

theorem admitted_sublist : ∀ (times : List ℕ) (w : FixedWindow), (w.admitted period limit times).Sublist times
  | [], _ => List.Sublist.slnil
  | t :: times, w => by
    unfold admitted
    dsimp only
    split
    · exact (admitted_sublist times _).cons_cons t
    · exact (admitted_sublist times _).cons t

/-! ## The bound -/

/-- What a window may still let pass before `stop`: the rest of its own budget and a budget for each window that can still
open. -/
def budget (period limit : ℕ) (w : FixedWindow) (stop : ℕ) : ℕ :=
  (limit - w.count) + limit * ((stop - w.start - 1) / period)

theorem budget_roll_le (w : FixedWindow) (limit : ℕ) (hp : 0 < period) {now stop : ℕ} (hlt : now < stop) :
    budget period limit (w.roll period now) stop ≤ budget period limit w stop := by
  unfold roll
  split
  · next h =>
    have hdiv : (stop - now - 1) / period + 1 ≤ (stop - w.start - 1) / period := by
      rw [← Nat.add_div_right _ hp]
      exact Nat.div_le_div_right (by omega)
    have hmul : limit * ((stop - now - 1) / period) + limit ≤ limit * ((stop - w.start - 1) / period) := by
      rw [← Nat.mul_succ]
      exact Nat.mul_le_mul_left limit hdiv
    unfold budget
    dsimp only
    omega
  · exact le_refl _

theorem filter_before_eq_nil {stop t : ℕ} {times : List ℕ} (hle : stop ≤ t) (hs : (t :: times).Pairwise (· ≤ ·))
    (w : FixedWindow) : (w.admitted period limit (t :: times)).filter (fun s => decide (s < stop)) = [] := by
  refine List.filter_eq_nil_iff.2 (fun s hmem => ?_)
  have hts : t ≤ s := by
    rcases List.mem_cons.1 ((admitted_sublist _ w).subset hmem) with rfl | hin
    · exact le_refl _
    · exact List.rel_of_pairwise_cons hs hin
  simpa using le_trans hle hts

/-- **Before `stop` a window admits no more than its budget.** -/
theorem length_admitted_before (hp : 0 < period) (stop : ℕ) : ∀ (times : List ℕ) (w : FixedWindow),
    times.Pairwise (· ≤ ·) →
      ((w.admitted period limit times).filter (fun t => decide (t < stop))).length ≤ budget period limit w stop
  | [], _, _ => Nat.zero_le _
  | t :: times, w, hs => by
    rcases le_or_gt stop t with hle | hlt
    · rw [filter_before_eq_nil hle hs]
      exact Nat.zero_le _
    · have hroll := budget_roll_le w limit hp hlt
      have hrest := fun w' => length_admitted_before hp stop times w' hs.of_cons
      unfold admitted
      rcases pass_cases period limit w t with ⟨-, heq⟩ | ⟨hcount, heq⟩
      · rw [heq]
        exact le_trans (hrest _) hroll
      · have hafter := hrest ⟨(w.roll period t).start, (w.roll period t).count + 1⟩
        have hspent : budget period limit ⟨(w.roll period t).start, (w.roll period t).count + 1⟩ stop + 1 =
            budget period limit (w.roll period t) stop := by
          unfold budget
          dsimp only
          omega
        rw [heq]
        dsimp only
        rw [if_pos rfl, List.filter_cons_of_pos (by simpa using hlt), List.length_cons]
        omega

theorem roll_roll (w : FixedWindow) (hp : 0 < period) (now : ℕ) :
    (w.roll period now).roll period now = w.roll period now := by
  by_cases h : period ≤ now - w.start
  · have hnew : w.roll period now = ⟨now, 0⟩ := if_pos h
    rw [hnew]
    exact if_neg (by dsimp only; omega)
  · have hsame : w.roll period now = w := if_neg h
    rw [hsame, hsame]

theorem admitted_roll (w : FixedWindow) (hp : 0 < period) (t : ℕ) (times : List ℕ) :
    (w.roll period t).admitted period limit (t :: times) = w.admitted period limit (t :: times) := by
  rw [admitted, admitted, pass, pass, roll_roll w hp]

/-- A window met at or after `a` has `k + 1` budgets for the `k` periods from `a`. -/
theorem budget_met_le (hp : 0 < period) {a k t : ℕ} (ha : a ≤ t) :
    budget period limit (w.roll period t) (a + k * period) ≤ (k + 1) * limit := by
  have hdiv : (a + k * period - (w.roll period t).start - 1) / period ≤ k := by
    have hstart : a < (w.roll period t).start + period := by
      unfold roll
      split
      · dsimp only
        omega
      · next h => omega
    rw [Nat.div_le_iff_le_mul_add_pred hp, Nat.mul_comm]
    omega
  have hmul := Nat.mul_le_mul_left limit hdiv
  have hk : (k + 1) * limit = limit + limit * k := by ring
  unfold budget
  omega

/-- **Over any `k` periods at most `k + 1` limits are admitted**, whatever the calls and the window they start from. -/
theorem length_admitted_le (hp : 0 < period) (a k : ℕ) : ∀ (times : List ℕ) (w : FixedWindow),
    times.Pairwise (· ≤ ·) →
      ((w.admitted period limit times).filter (fun t => decide (a ≤ t ∧ t < a + k * period))).length ≤ (k + 1) * limit
  | [], _, _ => Nat.zero_le _
  | t :: times, w, hs => by
    rcases lt_or_ge t a with hlt | hge
    · have hrest := fun w' => length_admitted_le hp a k times w' hs.of_cons
      have hout : ¬ (a ≤ t ∧ t < a + k * period) := by omega
      unfold admitted
      dsimp only
      split
      · rw [List.filter_cons_of_neg (by simpa using hout)]
        exact hrest _
      · exact hrest _
    · have hbefore := @length_admitted_before period limit hp (a + k * period) (t :: times) (w.roll period t) hs
      rw [admitted_roll w hp] at hbefore
      refine le_trans (List.Sublist.length_le ?_) (le_trans hbefore (budget_met_le hp hge))
      exact List.monotone_filter_right _ (fun s hin => by simp only [decide_eq_true_eq] at hin ⊢; exact hin.2)

/-! ## Refusals -/

theorem after_concat (w : FixedWindow) (times : List ℕ) (t : ℕ) :
    w.after period limit (times ++ [t]) = ((w.after period limit times).pass period limit t).2 := by
  rw [after, List.foldl_append]
  rfl

theorem admitted_concat (w : FixedWindow) (times : List ℕ) (t : ℕ) :
    w.admitted period limit (times ++ [t]) = w.admitted period limit times ++
      if ((w.after period limit times).pass period limit t).1 then [t] else [] := by
  rw [admitted_append]
  rfl

theorem roll_start_le {now n : ℕ} (hw : w.start ≤ n) (hn : now ≤ n) : (w.roll period now).start ≤ n := by
  unfold roll
  split
  · exact hn
  · exact hw

theorem after_start_le {n : ℕ} (hw : w.start ≤ n) (times : List ℕ) (hn : ∀ t ∈ times, t ≤ n) :
    (w.after period limit times).start ≤ n := by
  induction times using List.reverseRecOn with
  | nil => exact hw
  | append_singleton times t ih =>
    have hbefore := ih (fun s hs => hn s (List.mem_append_left _ hs))
    have hroll := @roll_start_le period _ _ _ hbefore (hn t (by simp))
    rw [after_concat]
    rcases pass_cases period limit (w.after period limit times) t with ⟨-, heq⟩ | ⟨-, heq⟩
    · rw [heq]
      exact hroll
    · rw [heq]
      exact hroll

/-- **What a window counts was admitted since it opened.** -/
theorem count_le_length_admitted (hcount : w.count = 0) (times : List ℕ) (hs : (w.start :: times).Pairwise (· ≤ ·)) :
    (w.after period limit times).count ≤
      ((w.admitted period limit times).filter (fun t => decide ((w.after period limit times).start ≤ t))).length := by
  induction times using List.reverseRecOn with
  | nil => exact hcount.le
  | append_singleton times t ih =>
    rw [← List.cons_append, List.pairwise_append] at hs
    have hle : ∀ s ∈ w.start :: times, s ≤ t := fun s hs' => hs.2.2 s hs' t List.mem_cons_self
    have hstart : (w.after period limit times).start ≤ t :=
      after_start_le (hle _ List.mem_cons_self) times (fun s hs' => hle s (List.mem_cons_of_mem _ hs'))
    have hroll : ((w.after period limit times).roll period t).count ≤ ((w.admitted period limit times).filter
        (fun s => decide (((w.after period limit times).roll period t).start ≤ s))).length := by
      unfold roll
      split
      · exact Nat.zero_le _
      · exact ih hs.1
    have ht := @roll_start_le period _ _ _ hstart (le_refl t)
    rw [after_concat, admitted_concat]
    rcases pass_cases period limit (w.after period limit times) t with ⟨-, heq⟩ | ⟨-, heq⟩
    · rw [heq]
      simpa using hroll
    · rw [heq]
      dsimp only
      rw [if_pos rfl, List.filter_append, List.length_append, List.filter_cons_of_pos (by simpa using ht)]
      exact Nat.succ_le_succ hroll

/-- **A refusal means a full window**: since a period before it the limit was admitted. -/
theorem full_of_refused (hcount : w.count = 0) {times : List ℕ} {now : ℕ}
    (hs : (w.start :: (times ++ [now])).Pairwise (· ≤ ·))
    (hrefused : ((w.after period limit times).pass period limit now).1 = false) :
    limit ≤ ((w.admitted period limit times).filter (fun t => decide (now < t + period))).length := by
  rw [← List.cons_append, List.pairwise_append] at hs
  rcases pass_cases period limit (w.after period limit times) now with ⟨hfull, -⟩ | ⟨-, heq⟩
  · by_cases hopen : period ≤ now - (w.after period limit times).start
    · have hzero : ((w.after period limit times).roll period now).count = 0 := by rw [roll, if_pos hopen]
      exact (hfull.trans hzero.le).trans (Nat.zero_le _)
    · rw [roll, if_neg hopen] at hfull
      refine le_trans hfull (le_trans (count_le_length_admitted hcount times hs.1) (List.Sublist.length_le ?_))
      refine List.monotone_filter_right _ (fun t ht => ?_)
      rw [decide_eq_true_eq] at ht ⊢
      omega
  · rw [heq] at hrefused
    cases hrefused

end FixedWindow
end Satya
