import Quorum.Number.Double

/-!
# Decimal text of doubles

`shortest` finds the fewest decimal digits that read back as a given double:
it walks decimal grids from coarse to fine and stops at the first one with a
point that rounds to the double, taking the nearer of two; a `Tie` says which of
two that are equally near. A `Layout` says how the digits are set: which
exponents are written positionally and how the others look. `read` is the
inverse: the double nearest to a decimal text.
-/

namespace Quorum

/-- A positive decimal `digits * 10 ^ scale`. -/
structure Decimal where
  digits : Nat
  scale : Int
  deriving DecidableEq, Repr

namespace Decimal

/-- A whole number times `2 ^ exponent`, compared with points `c * 10 ^ scale` of a decimal grid
after both are scaled to naturals: `grid` is one step of the grid, `unit` one of `2 ^ exponent`. -/
structure Scales where
  grid : Nat
  unit : Nat

def scales (exponent scale : Int) : Scales :=
  ⟨Nat.pow 10 scale.toNat <<< (-exponent).toNat, Nat.pow 10 (-scale).toNat <<< exponent.toNat⟩

/-- Whether a scaled point lies in the interval of reals that round to the double with
significand `m`, in quarters of its unit. The ends round to even significands. -/
def rounds (m : Nat) (narrow : Bool) (unit point : Nat) : Bool :=
  let low := (4 * m - if narrow then 1 else 2) * unit
  let high := (4 * m + 2) * unit
  if m % 2 = 0 then low ≤ point && point ≤ high else low < point && point < high

/-- Which of two points is taken that are equally near. -/
inductive Tie where
  | toEven
  | upward
  deriving DecidableEq, Repr

/-- Whether the point above `below` is taken. -/
def Tie.takesAbove : Tie → Nat → Bool
  | toEven, below => below % 2 == 1
  | upward, _ => true

/-- The point of the grid of step `10 ^ scale` that reads back as the double, if there is one. -/
def pick (tie : Tie) (m : Nat) (exponent : Int) (narrow : Bool) (scale : Int) : Option Nat :=
  let s := scales (exponent - 2) scale
  let value := 4 * m * s.unit
  let below := value / s.grid
  let above := below + 1
  let lowHit := rounds m narrow s.unit (below * s.grid)
  let highHit := rounds m narrow s.unit (above * s.grid)
  if lowHit && highHit then
    let toBelow := value - below * s.grid
    let toAbove := above * s.grid - value
    if toAbove < toBelow || toAbove == toBelow && tie.takesAbove below then some above
    else some below
  else if lowHit then some below
  else if highHit then some above
  else none

/-- Tries ever finer grids; `steps` bounds how many. -/
def search (tie : Tie) (m : Nat) (exponent : Int) (narrow : Bool) : Nat → Int → Decimal
  | 0, scale => ⟨m, scale⟩
  | steps + 1, scale =>
    match pick tie m exponent narrow scale with
    | some digits => ⟨digits, scale⟩
    | none => search tie m exponent narrow steps (scale - 1)

/-- The fewest digits that read back as the finite positive double `x`, of those the nearest. -/
def shortest (tie : Tie) (x : Double) : Decimal :=
  let m := x.significand
  let narrow := m == Double.implicitBit && 1 < x.magnitude / Double.implicitBit
  let start := ((m.log2 : Int) + x.exponent) * 30103 / 100000 + 2
  search tie m x.exponent narrow 24 start

/-- How a double is written. -/
structure Layout where
  tie : Tie
  /-- Decimal exponents of the first digit that are written positionally. -/
  positional : Int → Bool
  /-- Text after a whole number written positionally. -/
  wholeEnd : String
  infinity : String
  notANumber : String

def digitText (n : Nat) : List Char := Nat.toDigits 10 n

/-- The digits with a point after the first `whole` of them, zeros filling the gaps. -/
def positionalText (layout : Layout) (digits : List Char) (whole : Int) : String :=
  if whole ≤ 0 then
    String.ofList ('0' :: '.' :: (List.replicate (-whole).toNat '0' ++ digits))
  else if digits.length ≤ whole then
    String.ofList (digits ++ List.replicate (whole.toNat - digits.length) '0') ++ layout.wholeEnd
  else
    String.ofList (digits.take whole.toNat ++ '.' :: digits.drop whole.toNat)

/-- One digit before the point, the exponent with its sign. -/
def scientificText (digits : List Char) (exponent : Int) : String :=
  let mantissa := match digits with
    | [] => []
    | [d] => [d]
    | d :: rest => d :: '.' :: rest
  String.ofList (mantissa ++ 'e' :: (if exponent < 0 then '-' else '+') ::
    digitText exponent.natAbs)

def Layout.text (layout : Layout) (x : Double) : String :=
  if x.isNaN then layout.notANumber
  else
    let sign := if x.isNegative then "-" else ""
    if !x.isFinite then sign ++ layout.infinity
    else if x.isZero then sign ++ "0" ++ layout.wholeEnd
    else
      let d := shortest layout.tie x
      let digits := digitText d.digits
      let exponent := (digits.length : Int) - 1 + d.scale
      sign ++ if layout.positional exponent then positionalText layout digits (exponent + 1)
        else scientificText digits exponent

/-- The plain layout never uses an exponent and writes whole numbers without a point. -/
def plain : Layout := ⟨.upward, fun _ => true, "", "inf", "NaN"⟩

def isDigit (c : Char) : Bool := '0' ≤ c && c ≤ '9'

def digitValue (c : Char) : Nat := c.toNat - '0'.toNat

def value (digits : List Char) : Nat := digits.foldl (fun n c => 10 * n + digitValue c) 0

/-- The double nearest to `value digits * 10 ^ scale`; far out scales are zero or infinite without
computing the power. -/
def nearest (negative : Bool) (digits : List Char) (scale : Int) : Double :=
  let significant := digits.dropWhile (· == '0')
  let first := (significant.length : Int) + scale
  if significant.isEmpty || first < -400 then Double.ofMagnitude negative 0
  else if 400 < first then Double.inf negative
  else Double.ofDecimal negative (value significant) scale

/-- The digits of an exponent after its optional sign. -/
def readExponent : List Char → Option Int
  | '+' :: ds => whole ds
  | '-' :: ds => (whole ds).map (-·)
  | ds => whole ds
where
  whole (ds : List Char) : Option Int :=
    if ds.isEmpty || !ds.all isDigit then none else some (value ds)

/-- Digits with an optional point and exponent; a digit stands on at least one side of the point. -/
def readUnsigned (negative : Bool) (s : List Char) : Option Double :=
  let whole := s.takeWhile isDigit
  let rest := s.dropWhile isDigit
  let (fraction, rest) := match rest with
    | '.' :: r => (r.takeWhile isDigit, r.dropWhile isDigit)
    | r => ([], r)
  if whole.isEmpty && fraction.isEmpty then none
  else
    let exponent := match rest with
      | [] => some 0
      | c :: r => if c == 'e' || c == 'E' then readExponent r else none
    exponent.map fun e => nearest negative (whole ++ fraction) (e - fraction.length)

/-- Reads a decimal text, `inf`, `infinity` or `nan` in any case, with an optional sign. -/
def read (s : List Char) : Option Double :=
  let (negative, body) := match s with
    | '-' :: r => (true, r)
    | '+' :: r => (false, r)
    | r => (false, r)
  let lower := String.ofList (body.map Char.toLower)
  if lower == "inf" || lower == "infinity" then some (Double.inf negative)
  else if lower == "nan" then some Double.nan
  else readUnsigned negative body

end Decimal

end Quorum
