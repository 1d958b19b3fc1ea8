/-!
# Binary floating-point numbers of 64 bits

The nonnegative numbers of the format binary64 and its rounded arithmetic, computed exactly on
natural numbers. A finite number is a whole multiple of the smallest positive one, `2 ^ -1074`,
so it is held as that multiple.

## Main definitions

* `Binary64.ofRatio` — the number nearest to a quotient; of two nearest ones the even one.
* `Binary64.add`, `Binary64.mul` — the exact result, rounded once.
* `Binary64.toNat` — the nearest whole number; halves go up.
-/

namespace RoomAudio

/-- A nonnegative number of the format binary64. -/
inductive Binary64 where
  /-- The number `units * 2 ^ -1074`. -/
  | finite (units : Nat)
  | infinite
  deriving DecidableEq, Repr

namespace Binary64

def unitsOfOne : Nat := Nat.pow 2 1074

/-- The first multiple that is too large to be finite. -/
def limit : Nat := Nat.pow 2 (1024 + 1074)

/-- The whole number nearest to `n / d`; a tie goes to the even neighbour. -/
def roundHalfEven (n d : Nat) : Nat :=
  let q := n / d
  let r := n % d
  if 2 * r < d then q else if d < 2 * r then q + 1 else q + q % 2

/-- The spacing of the numbers around `units`: 53 significant bits are kept. -/
def spacing (units : Nat) : Nat := Nat.pow 2 (units.log2 - 52)

def round (n d : Nat) : Binary64 :=
  let step := spacing (n / d)
  let units := roundHalfEven n (d * step) * step
  if units < limit then .finite units else .infinite

def ofRatio (n d : Nat) : Binary64 := round (n * unitsOfOne) d

def ofNat (n : Nat) : Binary64 := ofRatio n 1

def add : Binary64 → Binary64 → Binary64
  | .finite a, .finite b => round (a + b) 1
  | _, _ => .infinite

/-- The rounded product with a positive number. -/
def mul : Binary64 → Binary64 → Binary64
  | .finite a, .finite b => round (a * b) unitsOfOne
  | _, _ => .infinite

/-- Whether `x` is larger than the finite number `y`. -/
def exceeds : Binary64 → Binary64 → Bool
  | .finite a, .finite b => b < a
  | .infinite, .finite _ => true
  | _, .infinite => false

/-- The whole number nearest to a finite number; halves go up. -/
def toNat : Binary64 → Nat
  | .finite a => (2 * a + unitsOfOne) / (2 * unitsOfOne)
  | .infinite => 0

def isFinite : Binary64 → Bool
  | .finite _ => true
  | .infinite => false

end Binary64

end RoomAudio
