/-!
# Similar words

The Jaro similarity of two words, which decides whether a mistyped word is taken for one of the known ones.  The
threshold of seven tenths can be met exactly, as by three matches in order between words of five and six characters.
Such a pair is decided by the rounding of the sum, so the sum is taken in floating point from left to right.
-/

namespace Typeahead.CommandLine

/-- For each character of the first word in turn, the first place of the second word, within `range` of its own and
not used before, that holds the same character. -/
def matchPlaces (range : Nat) (second : List Char) (place : Nat) (used : List Nat) : List Char → List (Char × Nat)
  | [] => []
  | c :: rest =>
    let fits (x : Char × Nat) : Bool :=
      x.1 == c && decide (place ≤ x.2 + range) && decide (x.2 ≤ place + range) && !used.contains x.2
    match second.zipIdx.find? fits with
    | some (_, j) => (c, j) :: matchPlaces range second (place + 1) (j :: used) rest
    | none => matchPlaces range second (place + 1) used rest

/-- The similarity of two words, from 0 to 1: the mean of the shares of matching characters in either word and of
the share of matches that are in order. -/
def similarity (a b : List Char) : Float :=
  if a.isEmpty && b.isEmpty then 1
  else
    let found := matchPlaces (max a.length b.length / 2 - 1) b 0 [] a
    let inOrder := (found.map (·.2)).mergeSort (fun i j => decide (i ≤ j))
    let counterparts := inOrder.map fun j => b.getD j ' '
    let misplaced := ((found.map (·.1)).zip counterparts).countP fun (x, y) => x != y
    let share (n whole : Nat) : Float := n.toFloat / whole.toFloat
    let n := found.length
    if n = 0 then 0 else (share n a.length + share n b.length + share (n - misplaced / 2) n) / 3

/-- Whether one word is taken for a mistyped form of the other. -/
def similar (a b : List Char) : Bool := decide (0.7 < similarity a b)

end Typeahead.CommandLine
