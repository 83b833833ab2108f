import Mathlib.Data.Finmap
import Mathlib.Data.List.Sort
import Mathlib.Data.Finset.Dedup
/-!
# Collections — hash sets and hash maps

A hash set is a `Finset`, a hash map a `Finmap`.  What the abstraction forgets is the order in which one is iterated;
`SetOrder` is such an order.  `removeAll` and `insertAll` are a loop of removals and a `collect` (or `extend`) into a
map.
-/
namespace Satya

universe u v

variable {α : Type u} {β : Type v}

/-! ## Iteration orders -/

/-- The order in which a hash set over `α` is iterated, one list for each set. -/
structure SetOrder (α : Type u) [DecidableEq α] where
  toList : Finset α → List α
  nodup : ∀ s, (toList s).Nodup
  mem_iff : ∀ s x, x ∈ toList s ↔ x ∈ s

theorem SetOrder.length_toList [DecidableEq α] (order : SetOrder α) (s : Finset α) : (order.toList s).length = s.card := by
  have hset : (order.toList s).toFinset = s := by
    ext x
    rw [List.mem_toFinset, order.mem_iff]
  rw [← List.toFinset_card_of_nodup (order.nodup s), hset]

section Ascending

variable [LinearOrder α]

instance totalLe : Std.Total (fun a b : α => a ≤ b) := ⟨le_total⟩

theorem eq_of_sorted_nodup {l l' : List α} (hs : l.Pairwise (· ≤ ·)) (hs' : l'.Pairwise (· ≤ ·)) (hn : l.Nodup)
    (hn' : l'.Nodup) (hmem : ∀ x, x ∈ l ↔ x ∈ l') : l = l' :=
  List.Perm.eq_of_pairwise (fun _ _ _ _ h h' => le_antisymm h h') hs hs' ((List.perm_ext_iff_of_nodup hn hn').2 hmem)

def ascendingList (s : Finset α) : List α :=
  s.val.liftOn (fun l => l.insertionSort (· ≤ ·)) (fun l l' h => by
    refine List.Perm.eq_of_pairwise (fun _ _ _ _ h h' => le_antisymm h h') (List.pairwise_insertionSort _ l)
      (List.pairwise_insertionSort _ l') ?_
    exact (List.perm_insertionSort _ l).trans (h.trans (List.perm_insertionSort _ l').symm))

theorem coe_ascendingList (s : Finset α) : (ascendingList s : Multiset α) = s.val := by
  obtain ⟨m, hm⟩ := s
  induction m using Quotient.inductionOn with
  | h l => exact Multiset.coe_eq_coe.2 (List.perm_insertionSort _ l)

theorem mem_ascendingList {s : Finset α} {x : α} : x ∈ ascendingList s ↔ x ∈ s := by
  rw [← Multiset.mem_coe, coe_ascendingList, Finset.mem_val]

def SetOrder.ascending (α : Type u) [LinearOrder α] : SetOrder α where
  toList := ascendingList
  nodup s := by rw [← Multiset.coe_nodup, coe_ascendingList]; exact s.nodup
  mem_iff _ _ := mem_ascendingList

end Ascending

/-! ## Bulk removal and insertion -/

section Maps

variable [DecidableEq α]

def removeAll (m : Finmap (fun _ : α => β)) (keys : List α) : Finmap (fun _ : α => β) :=
  keys.foldl (fun m a => m.erase a) m

def insertAll (m : Finmap (fun _ : α => β)) (entries : List (α × β)) : Finmap (fun _ : α => β) :=
  entries.foldl (fun m e => m.insert e.1 e.2) m

variable {m : Finmap (fun _ : α => β)}

theorem lookup_removeAll (a : α) : ∀ (keys : List α) (m : Finmap (fun _ : α => β)),
    (removeAll m keys).lookup a = if a ∈ keys then none else m.lookup a
  | [], _ => by simp [removeAll]
  | k :: keys, m => by
    rw [removeAll, List.foldl_cons, ← removeAll, lookup_removeAll a keys]
    by_cases hk : a ∈ keys
    · rw [if_pos hk, if_pos (List.mem_cons_of_mem k hk)]
    · rw [if_neg hk]
      by_cases ha : a = k
      · rw [ha, Finmap.lookup_erase, if_pos List.mem_cons_self]
      · rw [Finmap.lookup_erase_ne ha, if_neg (by simp [ha, hk])]

theorem lookup_removeSet (order : SetOrder α) (s : Finset α) (m : Finmap (fun _ : α => β)) (a : α) :
    (removeAll m (order.toList s)).lookup a = if a ∈ s then none else m.lookup a := by
  rw [lookup_removeAll]
  simp only [order.mem_iff]

theorem keys_removeAll : ∀ (keys : List α) (m : Finmap (fun _ : α => β)),
    (removeAll m keys).keys = m.keys \ keys.toFinset
  | [], m => by simp [removeAll]
  | k :: keys, m => by
    rw [removeAll, List.foldl_cons, ← removeAll, keys_removeAll keys, Finmap.keys_erase]
    ext x
    simp only [Finset.mem_sdiff, Finset.mem_erase, List.mem_toFinset, List.mem_cons, not_or]
    tauto

theorem keys_insert (a : α) (b : β) (m : Finmap (fun _ : α => β)) : (m.insert a b).keys = insert a m.keys := by
  ext x
  rw [Finmap.mem_keys, Finmap.mem_insert, Finset.mem_insert, Finmap.mem_keys]

theorem keys_insertAll : ∀ (entries : List (α × β)) (m : Finmap (fun _ : α => β)),
    (insertAll m entries).keys = m.keys ∪ (entries.map Prod.fst).toFinset
  | [], m => by simp [insertAll]
  | e :: entries, m => by
    rw [insertAll, List.foldl_cons, ← insertAll, keys_insertAll entries, keys_insert]
    ext x
    simp only [Finset.mem_union, Finset.mem_insert, List.map_cons, List.mem_toFinset, List.mem_cons]
    tauto

/-- Distinct new keys all count. -/
theorem card_keys_insertAll {entries : List (α × β)} (hnd : (entries.map Prod.fst).Nodup)
    (hnew : ∀ e ∈ entries, e.1 ∉ m.keys) : (insertAll m entries).keys.card = m.keys.card + entries.length := by
  have hdisj : Disjoint m.keys (entries.map Prod.fst).toFinset := by
    rw [Finset.disjoint_right]
    intro a ha
    obtain ⟨e, he, rfl⟩ := List.mem_map.1 (List.mem_toFinset.1 ha)
    exact hnew e he
  rw [keys_insertAll, Finset.card_union_of_disjoint hdisj, List.toFinset_card_of_nodup hnd, List.length_map]

theorem lookup_insertAll_of_notMem {a : α} : ∀ (entries : List (α × β)) (m : Finmap (fun _ : α => β)),
    a ∉ entries.map Prod.fst → (insertAll m entries).lookup a = m.lookup a
  | [], _, _ => rfl
  | e :: entries, m, h => by
    rw [List.map_cons, List.mem_cons, not_or] at h
    rw [insertAll, List.foldl_cons, ← insertAll, lookup_insertAll_of_notMem entries _ h.2,
      Finmap.lookup_insert_of_ne m h.1]

/-- **Where a value comes from after a bulk insertion**: a listed entry, or the map itself on an unlisted key. -/
theorem lookup_insertAll {a : α} {b : β} : ∀ (entries : List (α × β)) (m : Finmap (fun _ : α => β)),
    (insertAll m entries).lookup a = some b →
      (a, b) ∈ entries ∨ (a ∉ entries.map Prod.fst ∧ m.lookup a = some b)
  | [], _, h => Or.inr ⟨List.not_mem_nil, h⟩
  | e :: entries, m, h => by
    rw [insertAll, List.foldl_cons, ← insertAll] at h
    rcases lookup_insertAll entries _ h with h | ⟨hn, h⟩
    · exact Or.inl (List.mem_cons_of_mem e h)
    · by_cases ha : a = e.1
      · rw [ha, Finmap.lookup_insert, Option.some.injEq] at h
        exact Or.inl (by rw [ha, ← h]; exact List.mem_cons_self)
      · rw [Finmap.lookup_insert_of_ne m ha] at h
        exact Or.inr ⟨by simpa [ha] using hn, h⟩

end Maps

end Satya
