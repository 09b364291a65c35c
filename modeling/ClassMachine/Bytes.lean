/-!
# Byte strings

Byte strings are lists, so reading them is structural recursion. Numbers are written in base 256
with the most significant byte first.
-/

namespace ClassMachine

abbrev Bytes := List UInt8

namespace Bytes

/-- The number that a byte string writes, most significant byte first. -/
def toNat (bytes : Bytes) : Nat :=
  bytes.foldl (fun n b => n * 256 + b.toNat) 0

/-- The last `width` base 256 digits of `n`, most significant first. -/
def ofNat : Nat → Nat → Bytes
  | 0, _ => []
  | width + 1, n => ofNat width (n / 256) ++ [n.toUInt8]

theorem length_ofNat (width n : Nat) : (ofNat width n).length = width := by
  induction width generalizing n with
  | zero => rfl
  | succ width ih => simp [ofNat, ih]

theorem toNat_append_singleton (bytes : Bytes) (b : UInt8) :
    toNat (bytes ++ [b]) = toNat bytes * 256 + b.toNat := by
  simp [toNat]

/-- The first `n` bytes and what follows them, if there are that many. -/
def split? : Nat → Bytes → Option (Bytes × Bytes)
  | 0, rest => some ([], rest)
  | _ + 1, [] => none
  | n + 1, b :: rest => (split? n rest).map fun (front, back) => (b :: front, back)

theorem split?_eq (n : Nat) (bytes : Bytes) :
    split? n bytes = if n ≤ bytes.length then some (bytes.take n, bytes.drop n) else none := by
  induction n generalizing bytes with
  | zero => simp [split?]
  | succ n ih =>
    cases bytes with
    | nil => simp [split?]
    | cons b rest => by_cases h : n ≤ rest.length <;> simp [split?, ih, h]

/-- The bytes before the first `delimiter` and those after it, if it occurs. -/
def cut? (delimiter : UInt8) : Bytes → Option (Bytes × Bytes)
  | [] => none
  | b :: rest =>
    if b = delimiter then some ([], rest)
    else (cut? delimiter rest).map fun (front, back) => (b :: front, back)

/-- Lexicographic order; a proper initial part comes first. -/
def compare : Bytes → Bytes → Ordering
  | [], [] => .eq
  | [], _ :: _ => .lt
  | _ :: _, [] => .gt
  | a :: as, b :: bs => if a < b then .lt else if b < a then .gt else compare as bs

theorem compare_eq_iff (a b : Bytes) : compare a b = .eq ↔ a = b := by
  induction a generalizing b with
  | nil => cases b <;> simp [compare]
  | cons x as ih =>
    cases b with
    | nil => simp [compare]
    | cons y bs =>
      by_cases hlt : x < y
      · simp [compare, hlt, UInt8.ne_of_lt hlt]
      · by_cases hgt : y < x
        · simp [compare, hlt, hgt, (UInt8.ne_of_lt hgt).symm]
        · have : x = y := UInt8.le_antisymm (UInt8.not_lt.1 hgt) (UInt8.not_lt.1 hlt)
          simp [compare, this, ih]

end Bytes

end ClassMachine
