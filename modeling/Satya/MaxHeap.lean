import Mathlib.Data.List.Sort
/-!
# MaxHeap — a bag of keys with a greatest first

What a binary max-heap promises its user, and no more: `push` adds one copy of a key, `pop` removes one copy of a
greatest key.  The keys are kept in descending order, so `pop` reads the head; how an array realises this is not
modelled.  Over a linear order two keys that compare equal are one key, so the answer of `pop` is determined.
-/
namespace Satya

/-- The keys, greatest first. -/
structure MaxHeap (α : Type*) [LinearOrder α] where
  items : List α
  sorted : items.Pairwise (· ≥ ·)

namespace MaxHeap

variable {α : Type*} [LinearOrder α]

instance : Membership α (MaxHeap α) := ⟨fun h x => x ∈ h.items⟩

def empty : MaxHeap α := ⟨[], List.Pairwise.nil⟩

def push (h : MaxHeap α) (x : α) : MaxHeap α :=
  ⟨h.items.orderedInsert (· ≥ ·) x, h.sorted.orderedInsert x h.items⟩

def pushAll (h : MaxHeap α) (xs : List α) : MaxHeap α := xs.foldl push h

def pop (h : MaxHeap α) : Option (α × MaxHeap α) :=
  match h with
  | ⟨[], _⟩ => none
  | ⟨x :: xs, hs⟩ => some (x, ⟨xs, hs.of_cons⟩)

def size (h : MaxHeap α) : ℕ := h.items.length

def isEmpty (h : MaxHeap α) : Bool := h.items.isEmpty

theorem mem_items {h : MaxHeap α} {x : α} : x ∈ h.items ↔ x ∈ h := Iff.rfl

@[simp] theorem mem_push {h : MaxHeap α} {x y : α} : y ∈ h.push x ↔ y = x ∨ y ∈ h :=
  List.mem_orderedInsert _

theorem push_perm (h : MaxHeap α) (x : α) : (h.push x).items.Perm (x :: h.items) :=
  List.perm_orderedInsert _ _ _

@[simp] theorem size_push (h : MaxHeap α) (x : α) : (h.push x).size = h.size + 1 := by
  simpa [size] using (h.push_perm x).length_eq

@[simp] theorem isEmpty_push (h : MaxHeap α) (x : α) : (h.push x).isEmpty = false := by
  rw [isEmpty, List.isEmpty_eq_false_iff_exists_mem]
  exact ⟨x, mem_push.2 (Or.inl rfl)⟩

@[simp] theorem pushAll_nil (h : MaxHeap α) : h.pushAll [] = h := rfl

@[simp] theorem pushAll_cons (h : MaxHeap α) (x : α) (xs : List α) : h.pushAll (x :: xs) = (h.push x).pushAll xs := rfl

@[simp] theorem mem_pushAll : ∀ {xs : List α} {h : MaxHeap α} {y : α}, y ∈ h.pushAll xs ↔ y ∈ xs ∨ y ∈ h
  | [], h, y => by simp
  | x :: xs, h, y => by
    rw [pushAll_cons, mem_pushAll, mem_push, List.mem_cons]
    tauto

theorem isEmpty_iff {h : MaxHeap α} : h.isEmpty = true ↔ ∀ x, x ∉ h := by
  rw [isEmpty, List.isEmpty_iff, List.eq_nil_iff_forall_not_mem]
  rfl

theorem pop_eq_none {h : MaxHeap α} : h.pop = none ↔ h.isEmpty = true := by
  rcases h with ⟨_ | ⟨x, xs⟩, hs⟩ <;> simp [pop, isEmpty]

/-- **What `pop` answers**: the popped key and the rest are the heap. -/
theorem pop_perm {h h' : MaxHeap α} {x : α} (hp : h.pop = some (x, h')) : h.items = x :: h'.items := by
  rcases h with ⟨_ | ⟨y, ys⟩, hs⟩
  · cases hp
  · simp only [pop, Option.some.injEq, Prod.mk.injEq] at hp
    obtain ⟨rfl, rfl⟩ := hp
    rfl

theorem pop_of_items {h : MaxHeap α} {x : α} {xs : List α} (hi : h.items = x :: xs) :
    ∃ h', h.pop = some (x, h') ∧ h'.items = xs := by
  rcases h with ⟨_ | ⟨y, ys⟩, hs⟩
  · cases hi
  · simp only [List.cons.injEq] at hi
    obtain ⟨rfl, rfl⟩ := hi
    exact ⟨_, rfl, rfl⟩

theorem mem_of_pop {h h' : MaxHeap α} {x y : α} (hp : h.pop = some (x, h')) : y ∈ h ↔ y = x ∨ y ∈ h' := by
  rw [← mem_items, pop_perm hp, List.mem_cons, mem_items]

/-- **The popped key is a greatest one.** -/
theorem le_of_pop {h h' : MaxHeap α} {x y : α} (hp : h.pop = some (x, h')) (hy : y ∈ h) : y ≤ x := by
  have hs := h.sorted
  rw [pop_perm hp, List.pairwise_cons] at hs
  rcases (mem_of_pop hp).1 hy with rfl | hy
  · exact le_rfl
  · exact hs.1 y hy

theorem size_of_pop {h h' : MaxHeap α} {x : α} (hp : h.pop = some (x, h')) : h.size = h'.size + 1 := by
  rw [size, pop_perm hp, List.length_cons, size]

end MaxHeap
end Satya
