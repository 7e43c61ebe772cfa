/-!
# How alike two words are

Two letters of two words match if they are the same and not too far apart. The
likeness of two words is the mean of three shares: of the letters of each word that
match, and of the matches that come in the same order. It is kept as a fraction.
-/

namespace Quorum.Likeness

/-- Takes the first letter equal to `c` out of the places from `low` to `high`, none of which may
be taken already. -/
def claim (c : Char) (low high : Nat) : Nat → List (Char × Bool) → Option (List (Char × Bool))
  | _, [] => none
  | i, (d, taken) :: rest =>
    if low ≤ i && i ≤ high && !taken && c == d then some ((d, true) :: rest)
    else (claim c low high (i + 1) rest).map ((d, taken) :: ·)

/-- The letters of the first word that match, and the second word with its matches marked. -/
def pairs (range : Nat) : Nat → List Char → List (Char × Bool) → List Char × List (Char × Bool)
  | _, [], marks => ([], marks)
  | i, c :: rest, marks =>
    match claim c (i - range) (i + range) 0 marks with
    | some marks => let (cs, marks) := pairs range (i + 1) rest marks; (c :: cs, marks)
    | none => pairs range (i + 1) rest marks

/-- The likeness of two words as a numerator and a denominator; words without a match have none. -/
def ratio (a b : List Char) : Nat × Nat :=
  let range := max a.length b.length / 2 - 1
  let (matchesA, marks) := pairs range 0 a (b.map (·, false))
  let matchesB := (marks.filter (·.2)).map (·.1)
  let m := matchesA.length
  let moved := ((matchesA.zip matchesB).countP fun (x, y) => x != y) / 2
  if m = 0 then (0, 1)
  else
    (m * b.length * m + m * a.length * m + (m - moved) * a.length * b.length,
     3 * a.length * b.length * m)

/-- Whether the first of two fractions is at most the second. -/
def le (x y : Nat × Nat) : Bool := x.1 * y.2 ≤ y.1 * x.2

/-- The word most like a given one, if it is more like it than seven to ten; of equals the last. -/
def closest? (word : String) (words : List String) : Option String :=
  let rated := words.map fun w => (ratio word.toList w.toList, w)
  let near := rated.filter fun r => !le r.1 (7, 10)
  (near.foldl (fun best r =>
    match best with
    | some b => if le b.1 r.1 then some r else some b
    | none => some r) (none : Option ((Nat × Nat) × String))).map (·.2)

end Quorum.Likeness
