/-!
# Decimal text of a binary floating point number

A magnitude is a natural number times a power of two, as in the 64-bit format of IEEE 754.
`ofRatio` rounds a quotient to the nearest such number, and to the even one of two that are equally
near. `shortest` finds the fewest decimal digits that round back to the number, and of these the
nearest to it; `text` lays the digits out.
-/

namespace BuildChain

/-- The magnitude `mantissa * 2 ^ exponent`. -/
structure Binary64 where
  mantissa : Nat
  exponent : Int
deriving DecidableEq

namespace Binary64

def zero : Binary64 := ⟨0, 0⟩

/-- The numerator and denominator of `num / den * 2 ^ e`. -/
def scale (num den : Nat) (e : Int) : Nat × Nat :=
  if 0 ≤ e then (num * Nat.pow 2 e.toNat, den) else (num, den * Nat.pow 2 (-e).toNat)

/-- The quotient rounded to the nearest number, half to even. -/
def roundDiv (num den : Nat) : Nat :=
  let q := num / den
  let r := num % den
  if den < 2 * r || (den == 2 * r && q % 2 == 1) then q + 1 else q

/-- Rounds at a fixed exponent; a mantissa of 54 bits moves up to the next exponent. -/
def roundAt (num den : Nat) (e : Int) : Binary64 :=
  let (n, d) := scale num den (-e)
  let m := roundDiv n d
  if m = Nat.pow 2 53 then ⟨Nat.pow 2 52, e + 1⟩ else ⟨m, e⟩

/-- Rounds a quotient to 53 bits, or to fewer below the smallest normal number; nothing comes out
above the largest number of the format. -/
def ofRatio (num den : Nat) : Option Binary64 :=
  if num = 0 then some zero
  else
    let guess : Int := (Nat.log2 num : Int) - Nat.log2 den - 52
    let (n, d) := scale num den (-guess)
    let e := max (if n / d < Nat.pow 2 52 then guess - 1 else guess) (-1074)
    let x := roundAt num den e
    if 971 < x.exponent then none else some x

def ofNat (n : Nat) : Option Binary64 := ofRatio n 1

def isZero (x : Binary64) : Bool := x.mantissa == 0

/-- The value as a quotient. -/
def ratio (x : Binary64) : Nat × Nat := scale x.mantissa 1 x.exponent

def mul (x y : Binary64) : Option Binary64 :=
  ofRatio (x.ratio.1 * y.ratio.1) (x.ratio.2 * y.ratio.2)

def div (x y : Binary64) : Option Binary64 :=
  ofRatio (x.ratio.1 * y.ratio.2) (x.ratio.2 * y.ratio.1)

/-! ## The fewest digits -/

/-- Whether a quotient rounds to the number: it lies between the midpoints to both neighbours, which
belong to the number when its mantissa is even. -/
def near (x : Binary64) (num den : Nat) : Bool :=
  let below := if x.mantissa = Nat.pow 2 52 && -1074 < x.exponent then 1 else 2
  let (lo, d) := scale (4 * x.mantissa - below) 4 x.exponent
  let (hi, _) := scale (4 * x.mantissa + 2) 4 x.exponent
  if x.mantissa % 2 = 0 then lo * den ≤ num * d && num * d ≤ hi * den
  else lo * den < num * d && num * d < hi * den

/-- The quotient `n * 10 ^ k`. -/
def power10 (n : Nat) (k : Int) : Nat × Nat :=
  if 0 ≤ k then (n * Nat.pow 10 k.toNat, 1) else (n, Nat.pow 10 (-k).toNat)

/-- The multiple of `10 ^ k` nearest to the number, if one of its two neighbours rounds to it. -/
def onGrid (x : Binary64) (k : Int) : Option Nat :=
  let (num, den) := x.ratio
  let (up, down) := power10 1 k
  let n := num * down / (den * up)
  let fits (n : Nat) : Bool := near x (power10 n k).1 (power10 n k).2
  let twice := 2 * (num * down) - 2 * n * (den * up)
  match fits n && 0 < n, fits (n + 1) with
  | true, true =>
    if twice < den * up || (twice == den * up && n % 2 == 0) then some n else some (n + 1)
  | true, false => some n
  | false, true => some (n + 1)
  | false, false => none

/-- Searches the grids from coarse to fine. -/
def search (x : Binary64) : Nat → Int → Nat × Int
  | 0, k => (0, k)
  | fuel + 1, k =>
    match onGrid x k with
    | some n => (n, k)
    | none => search x fuel (k - 1)

/-- The digits `n` and the power of ten `k` of the shortest decimal `n * 10 ^ k`. -/
def shortest (x : Binary64) : Nat × Int :=
  if x.isZero then (0, 0) else search x 700 309

/-! ## Layout -/

def zeros (n : Int) : String := String.ofList (List.replicate n.toNat '0')

/-- Up to sixteen digits stand before the point and up to four zeros directly after it; beyond that
an exponent is written, always with its sign. A number always shows that it is no integer. -/
def text (x : Binary64) : String :=
  let (n, k) := x.shortest
  let digits := toString n
  let point : Int := digits.length + k
  if n = 0 then "0.0"
  else if 0 ≤ k && point ≤ 16 then digits ++ zeros k ++ ".0"
  else if 0 < point && point ≤ 16 then
    String.ofList (digits.toList.take point.toNat) ++ "." ++
      String.ofList (digits.toList.drop point.toNat)
  else if -5 < point && point ≤ 0 then "0." ++ zeros (-point) ++ digits
  else
    let fraction := digits.toList.drop 1
    String.ofList (digits.toList.take 1) ++
      (if fraction.isEmpty then "" else "." ++ String.ofList fraction) ++
      (if 0 < point then "e+" else "e") ++ toString (point - 1)

end Binary64

end BuildChain
