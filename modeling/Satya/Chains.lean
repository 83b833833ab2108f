import Mathlib.Logic.Relation
import Mathlib.Data.Set.Basic
import Mathlib.Data.List.Basic
import Mathlib.Data.List.Induction
import Mathlib.Data.List.TakeWhile
/-!
# Chains — disjoint chains of keyed nodes

A forest in which every tree is a list, the root first, and no key stands twice.  The spot of a node is the list cut at
it: what is above, the node, what is below.
-/
namespace Satya

universe u v

variable {ν : Type u} {κ : Type v} {key : ν → κ}

/-- Disjoint chains: a key determines its spot. -/
structure Chains (key : ν → κ) where
  lines : Set (List ν)
  unique : ∀ {pre x post pre' x' post'}, pre ++ x :: post ∈ lines → pre' ++ x' :: post' ∈ lines → key x = key x' →
    pre = pre' ∧ x = x' ∧ post = post'

namespace Chains

variable {C : Chains key} {pre post : List ν} {x : ν} {k k' : κ}

def At (C : Chains key) (pre : List ν) (x : ν) (post : List ν) : Prop := pre ++ x :: post ∈ C.lines

def Holds (C : Chains key) (k : κ) : Prop := ∃ pre x post, C.At pre x post ∧ key x = k

/-- `k` stands directly under `k'`. -/
def Under (C : Chains key) (k k' : κ) : Prop := ∃ pre p x post, C.At pre p (x :: post) ∧ key x = k ∧ key p = k'

theorem At.unique {pre' post' : List ν} {x' : ν} (h : C.At pre x post) (h' : C.At pre' x' post') (hk : key x = key x') :
    pre = pre' ∧ x = x' ∧ post = post' := Chains.unique C h h' hk

theorem At.holds (h : C.At pre x post) : C.Holds (key x) := ⟨pre, x, post, h, rfl⟩

theorem At.up {mid : List ν} {p : ν} (h : C.At (pre ++ p :: mid) x post) : C.At pre p (mid ++ x :: post) := by
  unfold At at h ⊢
  rwa [List.append_assoc] at h

theorem At.down {mid : List ν} {y : ν} (h : C.At pre x (mid ++ y :: post)) : C.At (pre ++ x :: mid) y post := by
  unfold At at h ⊢
  rwa [List.append_assoc]

theorem At.last {p : ν} (h : C.At (pre ++ [p]) x post) : C.At pre p (x :: post) := h.up

theorem At.next {y : ν} (h : C.At pre x (y :: post)) : C.At (pre ++ [x]) y post := by
  unfold At at h ⊢
  rwa [List.append_assoc]

theorem at_of_mem {c : List ν} (hc : c ∈ C.lines) (hx : x ∈ c) : ∃ pre post, c = pre ++ x :: post ∧ C.At pre x post := by
  obtain ⟨pre, post, rfl⟩ := List.append_of_mem hx
  exact ⟨pre, post, rfl, hc⟩

/-- **No key stands twice on a line.** -/
theorem nodup_line {l : List ν} (hl : l ∈ C.lines) : (l.map key).Nodup := by
  rw [List.Nodup, List.pairwise_map, List.pairwise_iff_getElem]
  intro i j hi hj hij heq
  have hcut : ∀ (n : ℕ) (hn : n < l.length), C.At (l.take n) l[n] (l.drop (n + 1)) := fun n hn => by
    unfold At
    rwa [List.getElem_cons_drop, List.take_append_drop]
  have htake := congrArg List.length ((hcut i hi).unique (hcut j hj) heq).1
  rw [List.length_take, List.length_take] at htake
  omega

theorem At.nodup (h : C.At pre x post) : ((pre ++ x :: post).map key).Nodup := nodup_line h

theorem At.nodup_pre (h : C.At pre x post) : (pre.map key).Nodup := by
  have hn := h.nodup
  rw [List.map_append] at hn
  exact (List.nodup_append.1 hn).1

theorem At.not_mem_pre (h : C.At pre x post) : key x ∉ pre.map key := by
  have hn := h.nodup
  rw [List.map_append, List.map_cons, List.nodup_append] at hn
  exact fun hm => hn.2.2 _ hm _ List.mem_cons_self rfl

theorem At.not_mem_post (h : C.At pre x post) : key x ∉ post.map key := by
  have hn := h.nodup
  rw [List.map_append, List.map_cons, List.nodup_append] at hn
  exact (List.nodup_cons.1 hn.2.1).1

theorem holds_iff : C.Holds k ↔ ∃ c ∈ C.lines, k ∈ c.map key := by
  constructor
  · rintro ⟨pre, x, post, hat, rfl⟩
    exact ⟨pre ++ x :: post, hat, by simp⟩
  · rintro ⟨c, hc, hk⟩
    obtain ⟨x, hx, rfl⟩ := List.mem_map.1 hk
    obtain ⟨pre, post, -, hat⟩ := at_of_mem hc hx
    exact hat.holds

theorem At.ne_of_not_holds (h : C.At pre x post) (hk : ¬ C.Holds k) : key x ≠ k :=
  fun heq => hk ⟨pre, x, post, h, heq⟩

theorem At.not_mem_line {c : List ν} (h : C.At pre x post) (hc : c ∈ C.lines) (hne : pre ++ x :: post ≠ c) :
    key x ∉ c.map key := by
  intro hm
  obtain ⟨y, hy, hkey⟩ := List.mem_map.1 hm
  obtain ⟨above, below, rfl, hat⟩ := at_of_mem hc hy
  obtain ⟨rfl, rfl, rfl⟩ := h.unique hat hkey.symm
  exact hne rfl

/-! ## Ancestors and descendants -/

theorem Under.holds (h : C.Under k k') : C.Holds k := by
  obtain ⟨pre, p, x, post, hat, rfl, -⟩ := h
  exact hat.next.holds

theorem At.under_iff (h : C.At pre x post) : C.Under (key x) k ↔ ∃ above p, pre = above ++ [p] ∧ key p = k := by
  constructor
  · rintro ⟨above, p, y, below, hat, hkey, hp⟩
    exact ⟨above, p, (h.unique hat.next hkey.symm).1, hp⟩
  · rintro ⟨above, p, rfl, hp⟩
    exact ⟨above, p, x, post, h.last, rfl, hp⟩

theorem At.transGen_of_mem : ∀ (pre : List ν) {x : ν} {post : List ν}, C.At pre x post → k ∈ pre.map key →
    Relation.TransGen C.Under (key x) k := by
  intro pre
  induction pre using List.reverseRecOn with
  | nil => exact fun _ hk => absurd hk List.not_mem_nil
  | append_singleton pre p ih =>
    intro x post h hk
    have hunder : C.Under (key x) (key p) := h.under_iff.2 ⟨pre, p, rfl, rfl⟩
    rw [List.map_append, List.mem_append] at hk
    rcases hk with hk | hk
    · exact (ih h.last hk).head hunder
    · rw [List.map_singleton, List.mem_singleton] at hk
      exact hk ▸ Relation.TransGen.single hunder

/-- **The ancestors of a node are the nodes above it on its line.** -/
theorem At.ancestors_iff (h : C.At pre x post) : Relation.TransGen C.Under (key x) k ↔ k ∈ pre.map key := by
  constructor
  · intro hk
    induction hk with
    | single hk =>
      obtain ⟨above, p, rfl, rfl⟩ := h.under_iff.1 hk
      simp
    | tail _ hk ih =>
      obtain ⟨y, hy, rfl⟩ := List.mem_map.1 ih
      obtain ⟨pre', mid, rfl⟩ := List.append_of_mem hy
      obtain ⟨above, p, rfl, rfl⟩ := h.up.under_iff.1 hk
      simp
  · exact At.transGen_of_mem pre h

theorem At.ancestors_self_iff (h : C.At pre x post) :
    Relation.ReflTransGen C.Under (key x) k ↔ k ∈ (pre ++ [x]).map key := by
  rw [Relation.reflTransGen_iff_eq_or_transGen, h.ancestors_iff, List.map_append, List.mem_append, or_comm,
    List.map_singleton, List.mem_singleton]

/-- **The descendants of a node are the nodes below it on its line.** -/
theorem At.descendants_iff (h : C.At pre x post) : Relation.TransGen C.Under k (key x) ↔ k ∈ post.map key := by
  constructor
  · intro hk
    obtain ⟨k', hk', -⟩ := Relation.TransGen.head'_iff.1 hk
    obtain ⟨pre', y, post', hat, rfl⟩ := hk'.holds
    obtain ⟨x', hx', hkey⟩ := List.mem_map.1 (hat.ancestors_iff.1 hk)
    obtain ⟨above, mid, rfl⟩ := List.append_of_mem hx'
    obtain ⟨-, -, rfl⟩ := h.unique hat.up hkey.symm
    simp
  · intro hk
    obtain ⟨y, hy, rfl⟩ := List.mem_map.1 hk
    obtain ⟨mid, below, rfl⟩ := List.append_of_mem hy
    exact h.down.ancestors_iff.2 (by simp)

theorem At.descendants_self_iff (h : C.At pre x post) :
    Relation.ReflTransGen C.Under k (key x) ↔ k ∈ (x :: post).map key := by
  rw [Relation.reflTransGen_iff_eq_or_transGen, h.descendants_iff, List.map_cons, List.mem_cons, eq_comm]

theorem not_transGen_self (k : κ) : ¬ Relation.TransGen C.Under k k := by
  intro hk
  obtain ⟨k', hk', -⟩ := Relation.TransGen.head'_iff.1 hk
  obtain ⟨pre, x, post, hat, rfl⟩ := hk'.holds
  exact hat.not_mem_pre (hat.ancestors_iff.1 hk)

theorem At.length_walk_le : ∀ (l : List κ) {pre : List ν} {x : ν} {post : List ν}, C.At pre x post →
    (key x :: l).IsChain C.Under → l.length ≤ pre.length
  | [], _, _, _, _, _ => Nat.zero_le _
  | k :: l, _, x, post, h, hl => by
    rw [List.isChain_cons_cons] at hl
    obtain ⟨above, p, rfl, rfl⟩ := h.under_iff.1 hl.1
    have hrest := At.length_walk_le l h.last hl.2
    rw [List.length_cons, List.length_append, List.length_singleton]
    omega

/-! ## Operations -/

theorem append_cons_eq_singleton {t : ν} (h : pre ++ x :: post = [t]) : pre = [] ∧ x = t ∧ post = [] := by
  cases pre with
  | nil => simpa using h
  | cons p pre => simp at h

theorem append_cons_eq_concat {c : List ν} {t : ν} (h : pre ++ x :: post = c ++ [t]) :
    (pre = c ∧ x = t ∧ post = []) ∨ ∃ post', post = post' ++ [t] ∧ c = pre ++ x :: post' := by
  rcases List.eq_nil_or_concat' post with rfl | ⟨post', y, rfl⟩
  · obtain ⟨hpre, hx⟩ := List.append_inj' h rfl
    exact Or.inl ⟨hpre, by simpa using hx, rfl⟩
  · rw [← List.cons_append, ← List.append_assoc] at h
    obtain ⟨hc, hy⟩ := List.append_inj' h rfl
    obtain rfl : y = t := by simpa using hy
    exact Or.inr ⟨post', rfl, hc.symm⟩

def none : Chains key where
  lines := ∅
  unique h := absurd h (Set.notMem_empty _)

/-- A new chain of one node. -/
def plant (C : Chains key) (t : ν) (ht : ¬ C.Holds (key t)) : Chains key where
  lines := insert [t] C.lines
  unique {pre x post pre' x' post'} h h' hk := by
    rcases h with h | h <;> rcases h' with h' | h'
    · obtain ⟨rfl, rfl, rfl⟩ := append_cons_eq_singleton h
      obtain ⟨rfl, rfl, rfl⟩ := append_cons_eq_singleton h'
      exact ⟨rfl, rfl, rfl⟩
    · obtain ⟨rfl, rfl, rfl⟩ := append_cons_eq_singleton h
      exact absurd ⟨pre', x', post', h', hk.symm⟩ ht
    · obtain ⟨rfl, rfl, rfl⟩ := append_cons_eq_singleton h'
      exact absurd ⟨pre, x, post, h, hk⟩ ht
    · exact C.unique h h' hk

theorem at_plant {t : ν} {ht : ¬ C.Holds (key t)} :
    (C.plant t ht).At pre x post ↔ (pre = [] ∧ x = t ∧ post = []) ∨ C.At pre x post := by
  constructor
  · exact fun h => h.imp_left append_cons_eq_singleton
  · rintro (⟨rfl, rfl, rfl⟩ | h)
    · exact Or.inl rfl
    · exact Or.inr h

theorem holds_plant {t : ν} {ht : ¬ C.Holds (key t)} : (C.plant t ht).Holds k ↔ k = key t ∨ C.Holds k := by
  rw [holds_iff, holds_iff]
  constructor
  · rintro ⟨c, rfl | hc, hk⟩
    · exact Or.inl (by simpa using hk)
    · exact Or.inr ⟨c, hc, hk⟩
  · rintro (rfl | ⟨c, hc, hk⟩)
    · exact ⟨[t], Or.inl rfl, by simp⟩
    · exact ⟨c, Or.inr hc, hk⟩

/-- The chain `c` with `t` under its last node. -/
def extend (C : Chains key) (c : List ν) (hc : c ∈ C.lines) (t : ν) (ht : ¬ C.Holds (key t)) : Chains key where
  lines := {l | (l ∈ C.lines ∧ l ≠ c) ∨ l = c ++ [t]}
  unique {pre x post pre' x' post'} h h' hk := by
    have hother : ∀ {a b : List ν} {y y' : ν} {a' b' : List ν}, a ++ y :: b ∈ C.lines → a ++ y :: b ≠ c →
        a' ++ y' :: b' = c ++ [t] → key y ≠ key y' := by
      intro a b y y' a' b' hl hne heq hkey
      rcases append_cons_eq_concat heq with ⟨-, rfl, -⟩ | ⟨below, -, rfl⟩
      · exact ht ⟨a, y, b, hl, hkey⟩
      · obtain ⟨rfl, rfl, rfl⟩ := C.unique hl hc hkey
        exact hne rfl
    rcases h with ⟨h, hne⟩ | h <;> rcases h' with ⟨h', hne'⟩ | h'
    · exact C.unique h h' hk
    · exact absurd hk (hother h hne h')
    · exact absurd hk.symm (hother h' hne' h)
    · rcases append_cons_eq_concat h with ⟨rfl, rfl, rfl⟩ | ⟨below, rfl, hcut⟩ <;>
        rcases append_cons_eq_concat h' with ⟨rfl, rfl, rfl⟩ | ⟨below', rfl, hcut'⟩
      · exact ⟨rfl, rfl, rfl⟩
      · exact absurd ⟨pre', x', below', (show pre' ++ x' :: below' ∈ C.lines from hcut' ▸ hc), hk.symm⟩ ht
      · exact absurd ⟨pre, x, below, (show pre ++ x :: below ∈ C.lines from hcut ▸ hc), hk⟩ ht
      · obtain ⟨rfl, rfl, rfl⟩ := C.unique (hcut ▸ hc) (hcut' ▸ hc) hk
        exact ⟨rfl, rfl, rfl⟩

theorem at_extend {c : List ν} {hc : c ∈ C.lines} {t : ν} {ht : ¬ C.Holds (key t)} :
    (C.extend c hc t ht).At pre x post ↔ (C.At pre x post ∧ pre ++ x :: post ≠ c) ∨ (pre = c ∧ x = t ∧ post = []) ∨
      ∃ below, post = below ++ [t] ∧ c = pre ++ x :: below := by
  constructor
  · exact fun h => h.imp_right append_cons_eq_concat
  · rintro (h | ⟨rfl, rfl, rfl⟩ | ⟨below, rfl, rfl⟩)
    · exact Or.inl h
    · exact Or.inr rfl
    · exact Or.inr (by simp)

theorem holds_extend {c : List ν} {hc : c ∈ C.lines} {t : ν} {ht : ¬ C.Holds (key t)} :
    (C.extend c hc t ht).Holds k ↔ k = key t ∨ C.Holds k := by
  rw [holds_iff, holds_iff]
  constructor
  · rintro ⟨l, ⟨hl, -⟩ | rfl, hk⟩
    · exact Or.inr ⟨l, hl, hk⟩
    · rw [List.map_append, List.mem_append, List.map_singleton, List.mem_singleton] at hk
      exact hk.symm.imp_right (fun hk => ⟨c, hc, hk⟩)
  · rintro (rfl | ⟨l, hl, hk⟩)
    · exact ⟨c ++ [t], Or.inr rfl, by simp⟩
    · by_cases hlc : l = c
      · exact ⟨c ++ [t], Or.inr rfl, by rw [List.map_append]; exact List.mem_append_left _ (hlc ▸ hk)⟩
      · exact ⟨l, Or.inl ⟨hl, hlc⟩, hk⟩

/-- The chain `c ++ [t]` without its last node. -/
def shorten (C : Chains key) (c : List ν) (t : ν) (hc : c ++ [t] ∈ C.lines) : Chains key where
  lines := {l | (l ∈ C.lines ∧ l ≠ c ++ [t]) ∨ l = c}
  unique {pre x post pre' x' post'} h h' hk := by
    have hother : ∀ {a b : List ν} {y y' : ν} {a' b' : List ν}, a ++ y :: b ∈ C.lines → a ++ y :: b ≠ c ++ [t] →
        a' ++ y' :: b' = c → key y ≠ key y' := by
      intro a b y y' a' b' hl hne heq hkey
      have hin : a' ++ y' :: (b' ++ [t]) = c ++ [t] := by rw [← heq]; simp
      obtain ⟨rfl, rfl, rfl⟩ := C.unique hl (hin ▸ hc) hkey
      exact hne hin
    rcases h with ⟨h, hne⟩ | h <;> rcases h' with ⟨h', hne'⟩ | h'
    · exact C.unique h h' hk
    · exact absurd hk (hother h hne h')
    · exact absurd hk.symm (hother h' hne' h)
    · have hin : pre ++ x :: (post ++ [t]) = c ++ [t] := by rw [← h]; simp
      have hin' : pre' ++ x' :: (post' ++ [t]) = c ++ [t] := by rw [← h']; simp
      obtain ⟨hpre, hx, hpost⟩ := C.unique (hin ▸ hc) (hin' ▸ hc) hk
      exact ⟨hpre, hx, List.append_cancel_right hpost⟩

theorem at_shorten {c : List ν} {t : ν} {hc : c ++ [t] ∈ C.lines} :
    (C.shorten c t hc).At pre x post ↔ (C.At pre x post ∧ pre ++ x :: post ≠ c ++ [t]) ∨ pre ++ x :: post = c :=
  Iff.rfl

theorem holds_shorten {c : List ν} {t : ν} {hc : c ++ [t] ∈ C.lines} :
    (C.shorten c t hc).Holds k ↔ k ≠ key t ∧ C.Holds k := by
  constructor
  · rintro ⟨pre, x, post, hx, rfl⟩
    have hat : C.At c t [] := hc
    rcases at_shorten.1 hx with ⟨hx, hne⟩ | rfl
    · exact ⟨fun heq => hx.not_mem_line hc hne (by simp [heq]), hx.holds⟩
    · exact ⟨fun heq => hat.not_mem_pre (by simp [← heq]), hat.up.holds⟩
  · rintro ⟨hne, hk⟩
    obtain ⟨l, hl, hk⟩ := holds_iff.1 hk
    by_cases hlc : l = c ++ [t]
    · rw [hlc, List.map_append, List.mem_append, List.map_singleton, List.mem_singleton] at hk
      exact holds_iff.2 ⟨c, Or.inr rfl, hk.resolve_right hne⟩
    · exact holds_iff.2 ⟨l, Or.inl ⟨hl, hlc⟩, hk⟩

/-- Every chain without the nodes at its top that satisfy `gone`. -/
def cut (C : Chains key) (gone : ν → Bool) : Chains key where
  lines := {l | ∃ c ∈ C.lines, c.dropWhile gone = l}
  unique {pre x post pre' x' post'} h h' hk := by
    obtain ⟨c, hc, hl⟩ := h
    obtain ⟨c', hc', hl'⟩ := h'
    rw [← List.takeWhile_append_dropWhile (p := gone) (l := c), hl, ← List.append_assoc] at hc
    rw [← List.takeWhile_append_dropWhile (p := gone) (l := c'), hl', ← List.append_assoc] at hc'
    obtain ⟨habove, rfl, rfl⟩ := C.unique hc hc' hk
    have hcc : c = c' := by
      rw [← List.takeWhile_append_dropWhile (p := gone) (l := c),
        ← List.takeWhile_append_dropWhile (p := gone) (l := c'), hl, hl', ← List.append_assoc, ← List.append_assoc, habove]
    rw [hcc, hl'] at hl
    exact ⟨(List.append_cancel_right hl).symm, rfl, rfl⟩

/-- `gone` takes a node only with all above it. -/
def Closed (C : Chains key) (gone : ν → Bool) : Prop :=
  ∀ {pre x post}, C.At pre x post → gone x = true → ∀ y ∈ pre, gone y = true

theorem dropWhile_append_of_all {gone : ν → Bool} : ∀ {top l : List ν}, (∀ y ∈ top, gone y = true) →
    (top ++ l).dropWhile gone = l.dropWhile gone
  | [], _, _ => rfl
  | y :: top, l, h => by
    rw [List.cons_append, List.dropWhile_cons_of_pos (h y List.mem_cons_self),
      dropWhile_append_of_all (fun z hz => h z (List.mem_cons_of_mem y hz))]

/-- **After a closed cut a node stands where it stood, without the nodes above it that are gone.** -/
theorem at_cut {gone : ν → Bool} (hg : C.Closed gone) : (C.cut gone).At pre x post ↔
    ∃ top, C.At (top ++ pre) x post ∧ (∀ y ∈ top, gone y = true) ∧ (∀ y ∈ pre, gone y = false) ∧ gone x = false := by
  constructor
  · rintro ⟨c, hc, hl⟩
    have hcut := List.takeWhile_append_dropWhile (p := gone) (l := c)
    rw [hl, ← List.append_assoc] at hcut
    have hat : C.At (c.takeWhile gone ++ pre) x post := by unfold At; rwa [hcut]
    have htop : ∀ y ∈ c.takeWhile gone, gone y = true := fun y hy => List.mem_takeWhile_imp hy
    -- what is left starts with a node that is not gone, and closedness carries that down the line
    have hhead : ∀ y ∈ (pre ++ x :: post).head?, gone y = false := by
      intro y hy
      have := List.head?_dropWhile_not gone c
      rw [hl, Option.mem_def.1 hy] at this
      simpa using this
    have hpre : ∀ y ∈ pre ++ [x], gone y = false := by
      intro y hy
      obtain ⟨a, b, hab⟩ := List.append_of_mem hy
      have hline : pre ++ x :: post = a ++ y :: (b ++ post) := by
        rw [← List.singleton_append, ← List.append_assoc, hab, List.append_assoc, List.cons_append]
      have hy' : C.At (c.takeWhile gone ++ a) y (b ++ post) := by
        unfold At at hat ⊢
        rwa [List.append_assoc, ← hline, ← List.append_assoc]
      by_contra hgone
      rw [Bool.not_eq_false] at hgone
      rw [hline] at hhead
      cases a with
      | nil => rw [hhead y rfl] at hgone; cases hgone
      | cons z a =>
        have hz := hg hy' hgone z (by simp)
        rw [hhead z rfl] at hz
        cases hz
    exact ⟨c.takeWhile gone, hat, htop, fun y hy => hpre y (by simp [hy]), hpre x (by simp)⟩
  · rintro ⟨top, hat, htop, hpre, hx⟩
    refine ⟨(top ++ pre) ++ x :: post, hat, ?_⟩
    rw [List.append_assoc, dropWhile_append_of_all htop]
    cases pre with
    | nil => rw [List.nil_append, List.dropWhile_cons_of_neg (by simp [hx])]
    | cons z pre => rw [List.cons_append, List.dropWhile_cons_of_neg (by simp [hpre z])]

theorem holds_cut {gone : ν → Bool} (hg : C.Closed gone) :
    (C.cut gone).Holds k ↔ ∃ pre x post, C.At pre x post ∧ gone x = false ∧ key x = k := by
  constructor
  · rintro ⟨pre, x, post, hx, rfl⟩
    obtain ⟨top, hat, -, -, hgone⟩ := (at_cut hg).1 hx
    exact ⟨top ++ pre, x, post, hat, hgone, rfl⟩
  · rintro ⟨pre, x, post, hat, hgone, rfl⟩
    refine holds_iff.2 ⟨_, ⟨_, hat, rfl⟩, List.mem_map_of_mem ?_⟩
    have hmem : x ∈ pre ++ x :: post := by simp
    rw [← List.takeWhile_append_dropWhile (p := gone) (l := pre ++ x :: post), List.mem_append] at hmem
    refine hmem.resolve_left (fun hm => ?_)
    rw [List.mem_takeWhile_imp hm] at hgone
    cases hgone

end Chains

end Satya
