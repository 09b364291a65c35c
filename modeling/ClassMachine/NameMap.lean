import ClassMachine.Bytes

/-!
# Finite maps from names

A map from byte names is a list of entries in the order of their names, each name once, so maps
with the same content are equal and a listing is sorted.
-/

namespace ClassMachine

structure NameMap (α : Type) where
  entries : List (Bytes × α) := []
deriving Repr, DecidableEq, Inhabited

namespace NameMap

variable {α : Type}

def empty : NameMap α := {}

def get? (map : NameMap α) (name : Bytes) : Option α :=
  map.entries.lookup name

def contains (map : NameMap α) (name : Bytes) : Bool :=
  (map.get? name).isSome

def size (map : NameMap α) : Nat :=
  map.entries.length

/-- Puts an entry at the place of its name, over an older one of the same name. -/
def insertEntry (name : Bytes) (value : α) : List (Bytes × α) → List (Bytes × α)
  | [] => [(name, value)]
  | (other, old) :: rest =>
    match Bytes.compare name other with
    | .lt => (name, value) :: (other, old) :: rest
    | .eq => (name, value) :: rest
    | .gt => (other, old) :: insertEntry name value rest

def insert (map : NameMap α) (name : Bytes) (value : α) : NameMap α :=
  ⟨insertEntry name value map.entries⟩

theorem lookup_insertEntry (name other : Bytes) (value : α) (entries : List (Bytes × α)) :
    (insertEntry name value entries).lookup other =
      if other = name then some value else entries.lookup other := by
  induction entries with
  | nil =>
    by_cases h : other = name
    · simp [insertEntry, h]
    · have hn : (other == name) = false := by simpa using h
      simp [insertEntry, List.lookup_cons, h, hn]
  | cons entry rest ih =>
    obtain ⟨key, old⟩ := entry
    simp only [insertEntry]
    split
    · by_cases h : other = name
      · simp [h]
      · have hn : (other == name) = false := by simpa using h
        simp [List.lookup_cons, h, hn]
    · next heq =>
      obtain rfl := (Bytes.compare_eq_iff _ _).1 heq
      by_cases h : other = name
      · simp [h]
      · have hn : (other == name) = false := by simpa using h
        simp [List.lookup_cons, h, hn]
    · next hgt =>
      have hne : name ≠ key := fun he => by
        rw [(Bytes.compare_eq_iff name key).2 he] at hgt; contradiction
      by_cases hk : other = key
      · subst hk
        simp [hne.symm]
      · have : (other == key) = false := by simpa using hk
        simp [List.lookup_cons, this, ih]

@[simp] theorem get?_insert (map : NameMap α) (name other : Bytes) (value : α) :
    (map.insert name value).get? other = if other = name then some value else map.get? other :=
  lookup_insertEntry name other value map.entries

@[simp] theorem get?_empty (name : Bytes) : (empty : NameMap α).get? name = none := rfl

end NameMap

end ClassMachine
