/-!
# Punycode labels

A label with characters beyond ASCII may be written in ASCII: the plain characters,
a hyphen, and the others as differences in a number system whose digits adapt to
what came before. `decode?` is the characters of such a label.
-/

namespace Quorum.Punycode

def digit? (c : Char) : Option Nat :=
  if 'a' ≤ c && c ≤ 'z' then some (c.toNat - 97)
  else if 'A' ≤ c && c ≤ 'Z' then some (c.toNat - 65)
  else if '0' ≤ c && c ≤ '9' then some (c.toNat - 48 + 26)
  else none

/-- From which value on a digit at place `k` is not the last one. -/
def threshold (k bias : Nat) : Nat :=
  if k ≤ bias then 1 else if bias + 26 ≤ k then 26 else k - bias

/-- Divides a difference until it is small, counting the places. -/
def settle (delta k : Nat) : Nat × Nat :=
  if 455 < delta then settle (delta / 35) (k + 36) else (delta, k)
termination_by delta
decreasing_by omega

def adapt (delta points : Nat) (first : Bool) : Nat :=
  let d := if first then delta / 700 else delta / 2
  let (d, k) := settle (d + d / points) 0
  k + 36 * d / (d + 38)

/-- Reads one difference: its value and what follows. -/
def difference : Nat → Nat → Nat → Nat → List Char → Option (Nat × List Char)
  | _, _, _, _, [] => none
  | i, weight, k, bias, c :: rest => do
    let d ← digit? c
    let i := i + d * weight
    let t := threshold k bias
    if d < t then return (i, rest) else difference i (weight * (36 - t)) (k + 36) bias rest

/-- Puts the characters that the differences stand for into the plain ones. -/
def fill : Nat → Nat → Nat → Nat → List Char → List Char → Option (List Char)
  | _, _, _, _, out, [] => some out
  | 0, _, _, _, _, _ => none
  | fuel + 1, n, i, bias, out, s => do
    let (j, rest) ← difference i 1 36 bias s
    let points := out.length + 1
    let code := n + j / points
    if 0x10FFFF < code then none
    else
      let at' := j % points
      let out := out.take at' ++ Char.ofNat code :: out.drop at'
      fill fuel code (at' + 1) (adapt (j - i) points (i == 0)) out rest

/-- The part before the last hyphen, if there is one, and the part behind it. -/
def splitLast (s : List Char) : List Char × List Char :=
  let tail := (s.reverse.takeWhile (· != '-')).reverse
  (s.take (s.length - tail.length - 1), tail)

def decode? (s : List Char) : Option (List Char) :=
  let (plain, coded) := splitLast s
  fill (coded.length + 1) 128 0 72 plain coded

end Quorum.Punycode
