import Mathlib.Data.Fintype.Card
import Mathlib.Logic.Relation
/-!
# Walk — a worklist over a finite graph

The loop `while let Some(v) = stack.pop()` that visits `v` and pushes those of its successors not seen before.
`walkFrom_eq_foldl` says what it amounts to: a fold of the visit over a list without repetition that holds exactly the
vertices one or more edges away from a root.
-/
namespace Satya

section Walk

variable {V : Type*} [DecidableEq V] {β : Type*}

/-- Push the vertices not yet seen, marking them seen. -/
def pushUnseen (cs : List V) (w : Finset V × List V) : Finset V × List V :=
  cs.foldl (fun w c => if c ∈ w.1 then w else (insert c w.1, c :: w.2)) w

/-- What pushing `cs` made of `seen` and `stack`. -/
structure Pushed [Fintype V] (cs : List V) (seen : Finset V) (stack : List V) (w : Finset V × List V)
    (fresh : List V) : Prop where
  stack_eq : w.2 = fresh ++ stack
  nodup : fresh.Nodup
  pushed : ∀ c ∈ fresh, c ∈ cs ∧ c ∉ seen
  seen_iff : ∀ c, c ∈ w.1 ↔ c ∈ fresh ∨ c ∈ seen
  all_seen : ∀ c ∈ cs, c ∈ w.1
  card : w.1ᶜ.card + w.2.length = seenᶜ.card + stack.length

section Pushed

variable [Fintype V] {cs fresh stack : List V} {seen : Finset V} {w : Finset V × List V} {c : V}

theorem Pushed.mem_stack (h : Pushed cs seen stack w fresh) : c ∈ w.2 ↔ c ∈ fresh ∨ c ∈ stack := by
  rw [h.stack_eq, List.mem_append]

theorem Pushed.skip (hc : c ∈ seen) (h : Pushed cs seen stack w fresh) : Pushed (c :: cs) seen stack w fresh where
  stack_eq := h.stack_eq
  nodup := h.nodup
  pushed x hx := ⟨List.mem_cons_of_mem _ (h.pushed x hx).1, (h.pushed x hx).2⟩
  seen_iff := h.seen_iff
  all_seen x hx := by
    rcases List.mem_cons.1 hx with rfl | hx
    · exact (h.seen_iff x).2 (Or.inr hc)
    · exact h.all_seen x hx
  card := h.card

theorem Pushed.push (hc : c ∉ seen) (h : Pushed cs (insert c seen) (c :: stack) w fresh) :
    Pushed (c :: cs) seen stack w (fresh ++ [c]) where
  stack_eq := by simp [h.stack_eq]
  nodup := by
    have hcf : c ∉ fresh := fun hf => (h.pushed c hf).2 (Finset.mem_insert_self c seen)
    rw [List.nodup_append]
    refine ⟨h.nodup, List.nodup_singleton c, fun a ha b hb => ?_⟩
    rintro rfl
    exact hcf (List.mem_singleton.1 hb ▸ ha)
  pushed x hx := by
    rcases List.mem_append.1 hx with hx | hx
    · exact ⟨List.mem_cons_of_mem _ (h.pushed x hx).1, fun hs => (h.pushed x hx).2 (Finset.mem_insert_of_mem hs)⟩
    · rw [List.mem_singleton.1 hx]
      exact ⟨List.mem_cons_self, hc⟩
  seen_iff x := by
    rw [h.seen_iff x, Finset.mem_insert, List.mem_append, List.mem_singleton, or_assoc]
  all_seen x hx := by
    rcases List.mem_cons.1 hx with rfl | hx
    · exact (h.seen_iff x).2 (Or.inr (Finset.mem_insert_self x seen))
    · exact h.all_seen x hx
  card := by
    have hcard : (insert c seen)ᶜ.card + 1 = seenᶜ.card := by
      rw [Finset.compl_insert, Finset.card_erase_add_one (Finset.mem_compl.2 hc)]
    rw [h.card, List.length_cons]
    omega

theorem Pushed.nodup_stack (h : Pushed cs seen stack w fresh) (hsub : ∀ v ∈ stack, v ∈ seen) (hnd : stack.Nodup) :
    w.2.Nodup := by
  rw [h.stack_eq, List.nodup_append]
  refine ⟨h.nodup, hnd, fun a ha b hb => ?_⟩
  rintro rfl
  exact (h.pushed a ha).2 (hsub a hb)

end Pushed

/-- What pushing adds: fresh vertices of the list, each once, now all seen. -/
theorem pushUnseen_spec [Fintype V] : ∀ (cs : List V) (seen : Finset V) (stack : List V),
    ∃ fresh : List V, Pushed cs seen stack (pushUnseen cs (seen, stack)) fresh
  | [], seen, stack => ⟨[], rfl, List.nodup_nil, fun c hc => absurd hc List.not_mem_nil, fun c => by simp [pushUnseen],
      fun c hc => absurd hc List.not_mem_nil, rfl⟩
  | c :: cs, seen, stack => by
    by_cases hc : c ∈ seen
    · have hcons : pushUnseen (c :: cs) (seen, stack) = pushUnseen cs (seen, stack) := by simp [pushUnseen, hc]
      obtain ⟨fresh, h⟩ := pushUnseen_spec cs seen stack
      rw [hcons]
      exact ⟨fresh, h.skip hc⟩
    · have hcons : pushUnseen (c :: cs) (seen, stack) = pushUnseen cs (insert c seen, c :: stack) := by
        simp [pushUnseen, hc]
      obtain ⟨fresh, h⟩ := pushUnseen_spec cs (insert c seen) (c :: stack)
      rw [hcons]
      exact ⟨fresh ++ [c], h.push hc⟩

/-- The worklist loop: `acc` is what the visits have built so far. -/
def walk [Fintype V] (next : V → List V) (visit : β → V → β) (seen : Finset V) (stack : List V) (acc : β) : β :=
  match stack with
  | [] => acc
  | v :: rest =>
    walk next visit (pushUnseen (next v) (seen, rest)).1 (pushUnseen (next v) (seen, rest)).2 (visit acc v)
termination_by seenᶜ.card + stack.length
decreasing_by
  obtain ⟨_, h⟩ := pushUnseen_spec (next v) seen rest
  rw [h.card, List.length_cons]
  omega

/-- One turn of the loop: the top of the stack is replaced by its successors not seen before. -/
def walkStep (next : V → List V) : Finset V × List V → Option (Finset V × List V)
  | (_, []) => none
  | (seen, v :: rest) => some (pushUnseen (next v) (seen, rest))

/-- **The loop ends**: every turn pops a vertex, and pushes only vertices that it newly marks. -/
theorem walkStep_wellFounded [Fintype V] (next : V → List V) :
    WellFounded (fun w' w : Finset V × List V => walkStep next w = some w') := by
  refine Subrelation.wf ?_ (measure (fun w : Finset V × List V => w.1ᶜ.card + w.2.length)).wf
  rintro w' ⟨seen, stack⟩ h
  cases stack with
  | nil => cases h
  | cons v rest =>
    rw [walkStep, Option.some.injEq] at h
    subst h
    obtain ⟨fresh, hp⟩ := pushUnseen_spec (next v) seen rest
    show (pushUnseen (next v) (seen, rest)).1ᶜ.card + (pushUnseen (next v) (seen, rest)).2.length <
      seenᶜ.card + (v :: rest).length
    rw [hp.card, List.length_cons]
    omega

/-- The walk started at the successors of `roots`. -/
def walkFrom [Fintype V] (next : V → List V) (visit : β → V → β) (roots : List V) (acc : β) : β :=
  walk next visit (roots.foldl (fun w r => pushUnseen (next r) w) (∅, [])).1
    (roots.foldl (fun w r => pushUnseen (next r) w) (∅, [])).2 acc

/-- What a walk from `seen` and `stack` visits: each vertex once, the stacked ones among them, none of the others seen
before, and closed under successors up to what was done before. -/
structure Walked (next : V → List V) (seen : Finset V) (stack vs : List V) : Prop where
  nodup : vs.Nodup
  stacked : ∀ v ∈ stack, v ∈ vs
  unseen : ∀ v ∈ vs, v ∈ stack ∨ v ∉ seen
  reached : ∀ v ∈ vs, ∃ r ∈ stack, Relation.ReflTransGen (fun a b => b ∈ next a) r v
  closed : ∀ v ∈ vs, ∀ c ∈ next v, c ∈ vs ∨ (c ∈ seen ∧ c ∉ stack)

/-- Visiting the top of the stack, then what the rest of the walk visits. -/
theorem Walked.cons [Fintype V] {next : V → List V} {seen : Finset V} {v : V} {rest vs fresh : List V}
    {w : Finset V × List V} (hp : Pushed (next v) seen rest w fresh) (hv : v ∈ seen) (hvr : v ∉ rest)
    (hw : Walked next w.1 w.2 vs) : Walked next seen (v :: rest) (v :: vs) where
  nodup := by
    have hvf : v ∉ fresh := fun h => (hp.pushed v h).2 hv
    refine List.nodup_cons.2 ⟨fun hmem => ?_, hw.nodup⟩
    rcases hw.unseen v hmem with h | h
    · exact (hp.mem_stack.1 h).elim hvf hvr
    · exact h ((hp.seen_iff v).2 (Or.inr hv))
  stacked x hx := by
    rcases List.mem_cons.1 hx with rfl | hx
    · exact List.mem_cons_self
    · exact List.mem_cons_of_mem _ (hw.stacked x (hp.mem_stack.2 (Or.inr hx)))
  unseen x hx := by
    rcases List.mem_cons.1 hx with rfl | hx
    · exact Or.inl List.mem_cons_self
    · rcases hw.unseen x hx with h | h
      · rcases hp.mem_stack.1 h with h | h
        · exact Or.inr (hp.pushed x h).2
        · exact Or.inl (List.mem_cons_of_mem _ h)
      · exact Or.inr (fun hxs => h ((hp.seen_iff x).2 (Or.inr hxs)))
  reached x hx := by
    rcases List.mem_cons.1 hx with rfl | hx
    · exact ⟨x, List.mem_cons_self, Relation.ReflTransGen.refl⟩
    · obtain ⟨r, hr, hrx⟩ := hw.reached x hx
      rcases hp.mem_stack.1 hr with hr | hr
      · exact ⟨v, List.mem_cons_self, Relation.ReflTransGen.head (hp.pushed r hr).1 hrx⟩
      · exact ⟨r, List.mem_cons_of_mem _ hr, hrx⟩
  closed x hx c hc := by
    -- what was done before the rest of the walk: `v`, or what was done before `v`
    have hdone : c ∈ w.1 → c ∉ w.2 → c = v ∨ (c ∈ seen ∧ c ∉ v :: rest) := by
      intro hc1 hc2
      rw [hp.mem_stack, not_or] at hc2
      have hcs : c ∈ seen := ((hp.seen_iff c).1 hc1).resolve_left hc2.1
      by_cases hcv : c = v
      · exact Or.inl hcv
      · exact Or.inr ⟨hcs, by simp [hcv, hc2.2]⟩
    have hcase : c ∈ vs ∨ (c ∈ w.1 ∧ c ∉ w.2) := by
      rcases List.mem_cons.1 hx with rfl | hx
      · by_cases hcw : c ∈ w.2
        · exact Or.inl (hw.stacked c hcw)
        · exact Or.inr ⟨hp.all_seen c hc, hcw⟩
      · exact hw.closed x hx c hc
    rcases hcase with h | ⟨hc1, hc2⟩
    · exact Or.inl (List.mem_cons_of_mem _ h)
    · rcases hdone hc1 hc2 with rfl | h
      · exact Or.inl List.mem_cons_self
      · exact Or.inr h

/-- **The walk is a fold over the vertices it visits.** -/
theorem walk_eq_foldl [Fintype V] (next : V → List V) (visit : β → V → β) (seen : Finset V) (stack : List V) (acc : β)
    (hsub : ∀ v ∈ stack, v ∈ seen) (hnd : stack.Nodup) :
    ∃ vs : List V, walk next visit seen stack acc = vs.foldl visit acc ∧ Walked next seen stack vs := by
  match stack with
  | [] =>
    refine ⟨[], ?_, List.nodup_nil, by simp, by simp, by simp, by simp⟩
    rw [walk]; rfl
  | v :: rest =>
    obtain ⟨fresh, hp⟩ := pushUnseen_spec (next v) seen rest
    rw [List.nodup_cons] at hnd
    generalize hw : pushUnseen (next v) (seen, rest) = w at hp
    have hrest : ∀ x ∈ rest, x ∈ seen := fun x hx => hsub x (List.mem_cons_of_mem _ hx)
    have hsub' : ∀ x ∈ w.2, x ∈ w.1 := by
      intro x hx
      rcases hp.mem_stack.1 hx with hx | hx
      · exact (hp.seen_iff x).2 (Or.inl hx)
      · exact (hp.seen_iff x).2 (Or.inr (hrest x hx))
    have hlt : w.1ᶜ.card + w.2.length < seenᶜ.card + (v :: rest).length := by
      rw [hp.card, List.length_cons]; omega
    obtain ⟨vs, e, hvs⟩ := walk_eq_foldl next visit w.1 w.2 (visit acc v) hsub' (hp.nodup_stack hrest hnd.2)
    exact ⟨v :: vs, by rw [walk, hw, e, List.foldl_cons], hvs.cons hp (hsub v List.mem_cons_self) hnd.1⟩
termination_by seenᶜ.card + stack.length

/-- What seeding the walk stacks: every successor of a root, each once. -/
theorem seed_spec [Fintype V] (next : V → List V) : ∀ (roots : List V) (w : Finset V × List V), (∀ v, v ∈ w.1 ↔ v ∈ w.2) →
    w.2.Nodup → (∀ v, v ∈ (roots.foldl (fun w r => pushUnseen (next r) w) w).1 ↔
        v ∈ (roots.foldl (fun w r => pushUnseen (next r) w) w).2) ∧
      (roots.foldl (fun w r => pushUnseen (next r) w) w).2.Nodup ∧
      ∀ v, v ∈ (roots.foldl (fun w r => pushUnseen (next r) w) w).2 ↔ v ∈ w.2 ∨ ∃ r ∈ roots, v ∈ next r
  | [], w, hw, hnd => ⟨hw, hnd, fun v => by simp⟩
  | r :: roots, (seen, stack), hw, hnd => by
    obtain ⟨fresh, hp⟩ := pushUnseen_spec (next r) seen stack
    rw [List.foldl_cons]
    generalize pushUnseen (next r) (seen, stack) = w at hp
    have hiff : ∀ v, v ∈ w.1 ↔ v ∈ w.2 := by
      intro v
      rw [hp.seen_iff v, hp.mem_stack, hw v]
    obtain ⟨k1, k2, k3⟩ := seed_spec next roots w hiff (hp.nodup_stack (fun v hv => (hw v).2 hv) hnd)
    refine ⟨k1, k2, fun v => ?_⟩
    have hmem : v ∈ w.2 ↔ v ∈ stack ∨ v ∈ next r := by
      refine ⟨fun h => (hp.mem_stack.1 h).elim (fun h => Or.inr (hp.pushed v h).1) Or.inl, fun h => ?_⟩
      rcases h with h | h
      · exact hp.mem_stack.2 (Or.inr h)
      · exact (hiff v).1 (hp.all_seen v h)
    rw [k3 v, hmem, List.exists_mem_cons_iff, or_assoc]

/-- **The walk from the successors of the roots is a fold over exactly the vertices one or more edges away.** -/
theorem walkFrom_eq_foldl [Fintype V] (next : V → List V) (visit : β → V → β) (roots : List V) (acc : β) :
    ∃ vs : List V, walkFrom next visit roots acc = vs.foldl visit acc ∧ vs.Nodup ∧
      ∀ v, v ∈ vs ↔ ∃ r ∈ roots, Relation.TransGen (fun a b => b ∈ next a) r v := by
  obtain ⟨s1, s2, s3⟩ := seed_spec next roots (∅, []) (by simp) List.nodup_nil
  generalize hw : roots.foldl (fun w r => pushUnseen (next r) w) (∅, []) = w at s1 s2 s3
  simp only [List.not_mem_nil, false_or] at s3
  obtain ⟨vs, e, hvs⟩ := walk_eq_foldl next visit w.1 w.2 acc (fun v hv => (s1 v).2 hv) s2
  have hclosed : ∀ v ∈ vs, ∀ c ∈ next v, c ∈ vs := fun v hv c hc =>
    (hvs.closed v hv c hc).resolve_right (fun h => h.2 ((s1 c).1 h.1))
  refine ⟨vs, by rw [walkFrom, hw, e], hvs.nodup, fun v => ⟨fun hv => ?_, fun ⟨r, hr, hrv⟩ => ?_⟩⟩
  · obtain ⟨x, hx, hxv⟩ := hvs.reached v hv
    obtain ⟨r, hr, hrx⟩ := (s3 x).1 hx
    exact ⟨r, hr, Relation.TransGen.head' hrx hxv⟩
  · induction hrv with
    | single h => exact hvs.stacked _ ((s3 _).2 ⟨r, hr, h⟩)
    | tail hrb h ih => exact hclosed _ (ih ⟨r, hr, hrb⟩) _ h

end Walk
end Satya
