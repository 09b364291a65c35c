import Mathlib.Data.List.Dedup
import ClassMachine.NameMap

/-!
# Maps have each name once

Entries are put in at the place of their names, so the names in a map that is made by putting in one
entry after another are in order and distinct. The size of such a map is the number of names that it
has a value for.
-/

namespace ClassMachine

namespace Bytes

theorem compare_eq_lt_trans {a b c : Bytes} (hab : compare a b = .lt) (hbc : compare b c = .lt) :
    compare a c = .lt := by
  induction a generalizing b c with
  | nil =>
    cases c with
    | nil => cases b <;> simp [compare] at hbc
    | cons z cs => rfl
  | cons x as ih =>
    cases b with
    | nil => simp [compare] at hab
    | cons y bs =>
      cases c with
      | nil => simp [compare] at hbc
      | cons z cs =>
        simp only [compare, UInt8.lt_iff_toNat_lt] at hab hbc ⊢
        grind

theorem compare_eq_gt_iff (a b : Bytes) : compare a b = .gt ↔ compare b a = .lt := by
  induction a generalizing b with
  | nil => cases b <;> simp [compare]
  | cons x as ih =>
    cases b with
    | nil => simp [compare]
    | cons y bs =>
      simp only [compare, UInt8.lt_iff_toNat_lt]
      grind

end Bytes

namespace NameMap

variable {α : Type} {map : NameMap α}

def names (map : NameMap α) : List Bytes :=
  map.entries.map Prod.fst

def Ordered (map : NameMap α) : Prop :=
  map.names.Pairwise fun a b => Bytes.compare a b = .lt

theorem ordered_empty : (empty : NameMap α).Ordered :=
  List.Pairwise.nil

theorem mem_names_insertEntry {name other : Bytes} {value : α} {entries : List (Bytes × α)}
    (h : other ∈ (insertEntry name value entries).map Prod.fst) :
    other = name ∨ other ∈ entries.map Prod.fst := by
  induction entries with
  | nil => simpa [insertEntry] using h
  | cons entry rest ih =>
    obtain ⟨key, old⟩ := entry
    simp only [insertEntry] at h
    split at h
    · simpa using h
    next heq =>
      simp only [List.map_cons, List.mem_cons] at h ⊢
      exact h.imp_right .inr
    next =>
      rw [List.map_cons, List.mem_cons] at h ⊢
      rcases h with h | h
      · exact .inr (.inl h)
      · exact (ih h).imp_right .inr

theorem Ordered.insert (h : map.Ordered) (name : Bytes) (value : α) :
    (map.insert name value).Ordered := by
  obtain ⟨entries⟩ := map
  simp only [Ordered, names, NameMap.insert] at h ⊢
  induction entries with
  | nil => exact List.pairwise_singleton ..
  | cons entry rest ih =>
    obtain ⟨key, old⟩ := entry
    obtain ⟨hkey, hrest⟩ := List.pairwise_cons.1 h
    simp only [insertEntry]
    split
    next hlt =>
      refine List.pairwise_cons.2 ⟨fun other hother => ?_, h⟩
      rcases List.mem_cons.1 hother with rfl | hother
      · exact hlt
      · exact Bytes.compare_eq_lt_trans hlt (hkey other hother)
    next heq =>
      obtain rfl := (Bytes.compare_eq_iff _ _).1 heq
      exact List.pairwise_cons.2 ⟨hkey, hrest⟩
    next hgt =>
      refine List.pairwise_cons.2 ⟨fun other hother => ?_, ih hrest⟩
      rcases mem_names_insertEntry hother with rfl | hother
      · exact (Bytes.compare_eq_gt_iff _ _).1 hgt
      · exact hkey other hother

theorem Ordered.nodup (h : map.Ordered) : map.names.Nodup := by
  refine List.Pairwise.imp (fun hlt heq => ?_) h
  rw [(Bytes.compare_eq_iff _ _).2 heq] at hlt
  contradiction

theorem mem_names_iff (map : NameMap α) (name : Bytes) :
    name ∈ map.names ↔ map.contains name = true := by
  obtain ⟨entries⟩ := map
  simp only [names, contains, get?]
  induction entries with
  | nil => simp
  | cons entry rest ih =>
    obtain ⟨key, old⟩ := entry
    rw [List.map_cons, List.mem_cons, List.lookup_cons]
    by_cases hkey : name = key
    · simp [hkey]
    · have hne : (name == key) = false := by simpa using hkey
      simp [hkey, hne, ih]

/-- The size of a map tells how many of the names it has a value for are different. -/
theorem Ordered.size_eq (h : map.Ordered) {wanted : List Bytes}
    (hwanted : ∀ name, map.contains name = true ↔ name ∈ wanted) :
    map.size = wanted.dedup.length := by
  have hperm : map.names.Perm wanted.dedup := by
    refine (List.perm_ext_iff_of_nodup h.nodup (List.nodup_dedup wanted)).2 fun name => ?_
    rw [mem_names_iff, hwanted, List.mem_dedup]
  rw [← hperm.length_eq, names, List.length_map, size]

end NameMap

end ClassMachine
