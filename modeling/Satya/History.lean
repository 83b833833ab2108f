import Mathlib.Data.List.Infix
/-!
# History — what readers of a shared state can observe

One writer changes a shared state in atomic sections; every section leaves an entry with the state after it.  A history
is listed newest first, so its moments are its suffixes: a reader that takes the lock between two sections sees the
state of some suffix.
-/
namespace Satya

universe u v

/-- One atomic step of the writer: what it did, and the shared state after it. -/
structure Entry (L : Type u) (S : Type v) where
  label : L
  after : S

abbrev History (L : Type u) (S : Type v) := List (Entry L S)

namespace History

variable {L : Type u} {S : Type v} {s₀ : S}

/-- The shared state at the end of a history that starts in `s₀`. -/
def stateAt (s₀ : S) : History L S → S
  | [] => s₀
  | e :: _ => e.after

@[simp] theorem stateAt_nil : stateAt s₀ ([] : History L S) = s₀ := rfl

@[simp] theorem stateAt_cons (e : Entry L S) (h : History L S) : stateAt s₀ (e :: h) = e.after := rfl

def Always (P : History L S → Prop) (h : History L S) : Prop := ∀ m, m <:+ h → P m

theorem always_nil {P : History L S → Prop} : Always P [] ↔ P [] :=
  ⟨fun h => h [] (List.suffix_refl []), fun h m hm => by rwa [List.eq_nil_of_suffix_nil hm]⟩

theorem always_cons {P : History L S → Prop} {e : Entry L S} {h : History L S} :
    Always P (e :: h) ↔ P (e :: h) ∧ Always P h := by
  constructor
  · exact fun hall => ⟨hall _ (List.suffix_refl _), fun m hm => hall m (hm.trans (List.suffix_cons e h))⟩
  · rintro ⟨he, hall⟩ m hm
    rcases List.suffix_cons_iff.1 hm with rfl | hm
    · exact he
    · exact hall m hm

theorem Always.now {P : History L S → Prop} {h : History L S} (hall : Always P h) : P h := hall h (List.suffix_refl h)

/-- The latest moment whose last entry has a label in `q`. -/
def lastLabelled (q : L → Bool) : History L S → Option (History L S)
  | [] => none
  | e :: h => if q e.label then some (e :: h) else lastLabelled q h

theorem lastLabelled_suffix {q : L → Bool} {m : History L S} : ∀ {h : History L S},
    lastLabelled q h = some m → m <:+ h
  | [], h => by cases h
  | e :: h, hm => by
    unfold lastLabelled at hm
    split at hm
    · rw [Option.some.injEq] at hm
      exact hm ▸ List.suffix_refl _
    · exact (lastLabelled_suffix hm).trans (List.suffix_cons e h)

/-- The latest moment at which `p` changed from false to true. -/
def lastRise (p : S → Bool) (s₀ : S) : History L S → Option (History L S)
  | [] => none
  | e :: h => if p e.after && !p (stateAt s₀ h) then some (e :: h) else lastRise p s₀ h

theorem lastRise_cons_of_not {p : S → Bool} {e : Entry L S} {h : History L S}
    (hn : p e.after = true → p (stateAt s₀ h) = true) : lastRise p s₀ (e :: h) = lastRise p s₀ h := by
  rw [lastRise]
  cases he : p e.after with
  | false => simp
  | true => simp [hn he]

theorem lastRise_cons_of_rise {p : S → Bool} {e : Entry L S} {h : History L S} (he : p e.after = true)
    (hh : p (stateAt s₀ h) = false) : lastRise p s₀ (e :: h) = some (e :: h) := by
  rw [lastRise, he, hh]
  rfl

theorem lastRise_suffix {p : S → Bool} {r : History L S} : ∀ {h : History L S}, lastRise p s₀ h = some r → r <:+ h
  | [], h => by cases h
  | e :: h, hr => by
    unfold lastRise at hr
    split at hr
    · rw [Option.some.injEq] at hr
      exact hr ▸ List.suffix_refl _
    · exact (lastRise_suffix hr).trans (List.suffix_cons e h)

end History
end Satya
