/-!
# Ranges of code points

A property of characters is an ascending list of `CodeRange`s and a mapping of characters an ascending list of
`CaseRun`s.  Both are searched from the left and the search stops at the first entry beyond the code point, so
looking up a small code point is cheap.
-/

namespace Typeahead.Text

/-- The code points from `first` to `last`, both included. -/
structure CodeRange where
  first : Nat
  last : Nat
  deriving Repr, DecidableEq

/-- Whether `code` lies in one of the ascending ranges. -/
def CodeRange.covers : List CodeRange → Nat → Bool
  | [], _ => false
  | r :: rs, code => if code < r.first then false else if code ≤ r.last then true else covers rs code

/-- Every `stride`-th code point from `first` to `last`, mapped at a constant distance: `first` goes to `image`. -/
structure CaseRun where
  first : Nat
  last : Nat
  stride : Nat
  image : Nat
  deriving Repr, DecidableEq

/-- The image of `code` under the ascending runs, if one of them maps it. -/
def CaseRun.image? : List CaseRun → Nat → Option Nat
  | [], _ => none
  | r :: rs, code =>
    if code < r.first then none
    else if code ≤ r.last then
      if (code - r.first) % r.stride = 0 then some (r.image + (code - r.first)) else none
    else image? rs code

end Typeahead.Text
