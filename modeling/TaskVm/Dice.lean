/-!
# Dice

Random choice as a sequence of faces fixed in advance and a count of how many have been
seen. Whatever is said of all sequences is said of every way the choices may fall.
-/

namespace TaskVm

/-- A sequence of faces and how many of them have been thrown. -/
structure Dice where
  face : Nat → Nat := fun _ => 0
  thrown : Nat := 0

namespace Dice

instance : Inhabited Dice := ⟨{}⟩

/-- A number below `n`, which must not be 0, and the dice after the throw. -/
def roll (d : Dice) (n : Nat) : Nat × Dice :=
  (d.face d.thrown % n, { d with thrown := d.thrown + 1 })

/-- A throw is below its bound. -/
theorem roll_lt (d : Dice) {n : Nat} (h : 0 < n) : (d.roll n).1 < n := Nat.mod_lt _ h

/-- The faces of a linear congruential generator, for a reproducible sequence. -/
def seededFace (seed : Nat) : Nat → Nat
  | 0 => (seed * 6364136223846793005 + 1442695040888963407) % 0x10000000000000000 / 2048
  | n + 1 => ((seededFace seed n * 2048 + seed) * 6364136223846793005 + 1442695040888963407) %
      0x10000000000000000 / 2048

/-- Dice that fall the same way for the same seed. -/
def ofSeed (seed : Nat) : Dice := { face := seededFace seed }

end Dice

end TaskVm
