/-!
# The shortest decimal of a binary number

A finite floating-point value is `m · 2^q`. Every real number nearer to it than to its neighbours
reads back as this value; these reals form its rounding interval, whose ends belong to it if `m`
is even. `shortest` takes the coarsest grid of powers of ten that has a point in the interval, and
on that grid the point nearest to the value.
-/

namespace DialogueScript.Decimal

/-- A positive value `m · 2^q`. At a power of two the neighbour below is only half as far away as
the neighbour above, which `narrowBelow` tells. -/
structure Binary where
  m : Nat
  q : Int
  narrowBelow : Bool

/-- The number `digits · 10^scale`. -/
structure Number where
  digits : Nat
  scale : Int
deriving DecidableEq, Repr

/-- The magnitude of a finite value. -/
def Binary.ofFloat (x : Float) : Binary :=
  let bits : Nat := x.toBits.toNat
  let exponent : Nat := bits / Nat.pow 2 52 % Nat.pow 2 11
  let fraction : Nat := bits % Nat.pow 2 52
  if exponent = 0 then ⟨fraction, -1074, false⟩
  else ⟨Nat.pow 2 52 + fraction, (exponent : Int) - 1075, fraction == 0 && 1 < exponent⟩

/-- The multiple of `10^scale` that is nearest to the value among those in its rounding interval;
of two that are equally near, the even multiple. All lengths are measured in quarters of `2^q`,
`unit` to the grid's `step`. -/
def Binary.pointOn? (x : Binary) (scale : Int) : Option Nat :=
  let unit := Nat.pow 2 (x.q - 2).toNat * Nat.pow 10 (-scale).toNat
  let step := Nat.pow 2 (2 - x.q).toNat * Nat.pow 10 scale.toNat
  let low := (if x.narrowBelow then 4 * x.m - 1 else 4 * x.m - 2) * unit
  let high := (4 * x.m + 2) * unit
  let inside (d : Nat) : Bool :=
    if x.m % 2 = 0 then low ≤ d * step && d * step ≤ high
    else low < d * step && d * step < high
  let value := 4 * x.m * unit
  let below := value / step
  let nearest :=
    match compare (2 * value) ((2 * below + 1) * step) with
    | .lt => below
    | .gt => below + 1
    | .eq => if below % 2 = 0 then below else below + 1
  if inside nearest then some nearest
  else [below, below + 1].find? inside

/-- The scales of all finite values, the coarsest first. -/
def scales : List Int := (List.range 634).map fun i : Nat => (309 : Int) - i

/-- A value that no grid catches would be written out exactly. -/
def Binary.exact (x : Binary) : Number :=
  ⟨x.m * Nat.pow 2 x.q.toNat * Nat.pow 5 (-x.q).toNat, min x.q 0⟩

def Binary.shortest (x : Binary) : Number :=
  (scales.findSome? fun s => (x.pointOn? s).map (⟨·, s⟩)).getD x.exact

end DialogueScript.Decimal
