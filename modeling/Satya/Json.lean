import Mathlib.Data.Rat.Defs
import Mathlib.Algebra.Order.Ring.Nat
/-!
# Json — JSON values and how they are read

A parsed JSON document, numbers kept exact, and the pieces a derived deserialiser is made of.  A reader answers `none`
where the deserialiser reports an error.  What is read by way of `serde_json::Value` keeps of each name the last member
(`toValue`); what is read straight from the text rejects a name given twice.
-/
namespace Satya

inductive Json where
  | null
  | bool (b : Bool)
  | int (z : ℤ)
  | dec (q : ℚ)
  | str (s : String)
  | arr (items : List Json)
  | obj (fields : List (String × Json))

namespace Json

/-- A `u64`: an integer literal in range. -/
def asU64 : Json → Option ℕ
  | int z => if 0 ≤ z ∧ z < 2 ^ 64 then some z.toNat else none
  | _ => none

def asNumber : Json → Option ℚ
  | int z => some z
  | dec q => some q
  | _ => none

def asString : Json → Option String
  | str s => some s
  | _ => none

/-- An optional value: `null` is read as absent. -/
def asOption {α : Type} (read : Json → Option α) : Json → Option (Option α)
  | null => some none
  | j => (read j).map some

def readAll {α : Type} (read : Json → Option α) : List Json → Option (List α)
  | [] => some []
  | j :: items => do
    let a ← read j
    let rest ← readAll read items
    some (a :: rest)

def asList {α : Type} (read : Json → Option α) : Json → Option (List α)
  | arr items => readAll read items
  | _ => none

def valuesOf (names : List String) (fields : List (String × Json)) : List Json :=
  (fields.filter (fun f => decide (f.1 ∈ names))).map Prod.snd

/-- A required field: missing or given twice is an error. -/
def required {α : Type} (names : List String) (read : Json → Option α) (fields : List (String × Json)) : Option α :=
  match valuesOf names fields with
  | [j] => read j
  | _ => none

/-- An optional field: missing is read as absent. -/
def optional {α : Type} (names : List String) (read : Json → Option α) (fields : List (String × Json)) :
    Option (Option α) :=
  match valuesOf names fields with
  | [] => some none
  | [j] => asOption read j
  | _ => none

theorem required_of_values {α : Type} {names : List String} {read : Json → Option α} {fields : List (String × Json)}
    {j : Json} (h : valuesOf names fields = [j]) : required names read fields = read j := by
  unfold required
  rw [h]

theorem optional_of_values {α : Type} {names : List String} {read : Json → Option α} {fields : List (String × Json)}
    {j : Json} (h : valuesOf names fields = [j]) : optional names read fields = asOption read j := by
  unfold optional
  rw [h]

theorem optional_of_none {α : Type} {names : List String} {read : Json → Option α} {fields : List (String × Json)}
    (h : valuesOf names fields = []) : optional names read fields = some none := by
  unfold optional
  rw [h]

theorem asU64_int {n : ℕ} (h : n < 2 ^ 64) : asU64 (int n) = some n := by
  have hrange : (0 : ℤ) ≤ n ∧ (n : ℤ) < 2 ^ 64 := ⟨Int.natCast_nonneg n, by exact_mod_cast h⟩
  rw [asU64, if_pos hrange, Int.toNat_natCast]

def ofOption : Option ℕ → Json
  | some n => int n
  | none => null

theorem asOption_ofOption {o : Option ℕ} (h : ∀ n ∈ o, n < 2 ^ 64) : asOption asU64 (ofOption o) = some o := by
  cases o with
  | none => rfl
  | some n =>
    show (asU64 (int n)).map some = _
    rw [asU64_int (h n rfl)]
    rfl

/-- **A written list is read back** when its items are. -/
theorem readAll_map {α : Type} {read : Json → Option α} {write : α → Json} : ∀ (l : List α),
    (∀ a ∈ l, read (write a) = some a) → readAll read (l.map write) = some l
  | [], _ => rfl
  | a :: l, h => by
    rw [List.map_cons]
    unfold readAll
    rw [h a List.mem_cons_self, readAll_map l (fun b hb => h b (List.mem_cons_of_mem a hb))]
    rfl

/-! ## `serde_json::Value` -/

/-- `BTreeMap::insert`: in key order, a later member of a name replaces an earlier one. -/
def insertMember (m : String × Json) : List (String × Json) → List (String × Json)
  | [] => [m]
  | f :: fields =>
    if m.1 = f.1 then m :: fields
    else if m.1 < f.1 then m :: f :: fields
    else f :: insertMember m fields

def collectMembers (fields : List (String × Json)) : List (String × Json) :=
  fields.foldl (fun members m => insertMember m members) []

mutual

/-- A document as a `Value`, in which an object is a `BTreeMap`. -/
def toValue : Json → Json
  | .arr items => .arr (toValues items)
  | .obj fields => .obj (collectMembers (memberValues fields))
  | j => j

def toValues : List Json → List Json
  | [] => []
  | j :: items => toValue j :: toValues items

def memberValues : List (String × Json) → List (String × Json)
  | [] => []
  | (name, j) :: fields => (name, toValue j) :: memberValues fields

end

theorem toValues_eq_map : ∀ items : List Json, toValues items = items.map toValue
  | [] => rfl
  | j :: items => by rw [toValues, List.map_cons, toValues_eq_map items]

theorem memberValues_eq_map : ∀ fields : List (String × Json),
    memberValues fields = fields.map (fun f => (f.1, toValue f.2))
  | [] => rfl
  | (name, j) :: fields => by rw [memberValues, List.map_cons, memberValues_eq_map fields]

theorem insertMember_perm {m : String × Json} : ∀ {members : List (String × Json)}, m.1 ∉ members.map Prod.fst →
    (insertMember m members).Perm (m :: members)
  | [], _ => List.Perm.refl _
  | f :: fields, h => by
    rw [List.map_cons, List.mem_cons, not_or] at h
    rw [insertMember, if_neg h.1]
    split
    · exact List.Perm.refl _
    · exact ((insertMember_perm h.2).cons f).trans (List.Perm.swap m f fields)

/-- **Members of different names are all kept.** -/
theorem collectMembers_perm {fields : List (String × Json)} (h : (fields.map Prod.fst).Nodup) :
    (collectMembers fields).Perm fields := by
  have hfold : ∀ (fields members : List (String × Json)), ((fields ++ members).map Prod.fst).Nodup →
      (fields.foldl (fun members m => insertMember m members) members).Perm (fields ++ members) := by
    intro fields
    induction fields with
    | nil => exact fun members _ => List.Perm.refl _
    | cons f fields ih =>
      intro members hnd
      rw [List.cons_append, List.map_cons, List.nodup_cons, List.map_append, List.mem_append, not_or] at hnd
      have hins := insertMember_perm hnd.1.2
      have hkeys : ((fields ++ insertMember f members).map Prod.fst).Nodup := by
        have hperm : (fields ++ insertMember f members).Perm (f :: (fields ++ members)) :=
          (hins.append_left fields).trans List.perm_middle
        rw [(hperm.map Prod.fst).nodup_iff, List.map_cons, List.nodup_cons, List.map_append, List.mem_append, not_or]
        exact hnd
      rw [List.foldl_cons]
      exact (ih _ hkeys).trans ((hins.append_left fields).trans List.perm_middle)
  have hperm := hfold fields [] (by rwa [List.append_nil])
  rwa [List.append_nil] at hperm

theorem memberValues_fst (fields : List (String × Json)) : (memberValues fields).map Prod.fst = fields.map Prod.fst := by
  rw [memberValues_eq_map, List.map_map]
  rfl

/-- The members of an object that gives no name twice, as a `Value` has them. -/
theorem members_perm {fields : List (String × Json)} (h : (fields.map Prod.fst).Nodup) :
    (collectMembers (memberValues fields)).Perm (fields.map (fun f => (f.1, toValue f.2))) := by
  rw [← memberValues_eq_map]
  exact collectMembers_perm (by rwa [memberValues_fst])

theorem valuesOf_members_perm (names : List String) {fields : List (String × Json)} (h : (fields.map Prod.fst).Nodup) :
    (valuesOf names (collectMembers (memberValues fields))).Perm ((valuesOf names fields).map toValue) := by
  have hperm := ((members_perm h).filter (fun f => decide (f.1 ∈ names))).map Prod.snd
  rw [List.filter_map, List.map_map] at hperm
  unfold valuesOf
  rw [List.map_map]
  exact hperm

/-- **A name given once is read from the `Value`.** -/
theorem valuesOf_members {names : List String} {fields : List (String × Json)} (j : Json) (h : (fields.map Prod.fst).Nodup)
    (hv : valuesOf names fields = [j]) : valuesOf names (collectMembers (memberValues fields)) = [toValue j] := by
  have hperm := valuesOf_members_perm names h
  rw [hv] at hperm
  exact List.perm_singleton.1 hperm

theorem valuesOf_members_nil {names : List String} {fields : List (String × Json)} (h : (fields.map Prod.fst).Nodup)
    (hv : valuesOf names fields = []) : valuesOf names (collectMembers (memberValues fields)) = [] := by
  have hperm := valuesOf_members_perm names h
  rw [hv] at hperm
  exact List.perm_nil.1 hperm

theorem toValue_ofOption (o : Option ℕ) : toValue (ofOption o) = ofOption o := by
  cases o <;> rfl

theorem toValue_strings {α : Type} (f : α → String) (l : List α) :
    toValue (.arr (l.map (fun a => .str (f a)))) = .arr (l.map (fun a => .str (f a))) := by
  rw [toValue, toValues_eq_map, List.map_map]
  rfl

/-- Of two members of a name the last is kept. -/
example : toValue (.obj [("b", .int 1), ("a", .int 2), ("b", .null)]) = .obj [("a", .int 2), ("b", .null)] := rfl

end Json

end Satya
