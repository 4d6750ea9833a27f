/-!
# Data values

The values that configuration and definition files are made of.  A file in either of two formats is read into a
`Value`; from there on records, lists and choices are read in the same way for both.
-/

namespace Typeahead.Data

/-- A value of a data file.  Tables keep their entries in the order in which they were written. -/
inductive Value where
  | null
  | bool (b : Bool)
  | int (i : Int)
  /-- A number with a fraction or an exponent, as it was written; `representable` tells whether it is in the range
  of double precision. -/
  | real (text : String) (representable : Bool)
  /-- A date, a time or both, as it was written. -/
  | datetime (text : String)
  | string (s : String)
  | array (items : List Value)
  | table (entries : List (String × Value))
  deriving Repr, Inhabited

/-- The formats of data files.  They differ in how a choice without content is written, in whether a record written
as a list may have more items than fields, and in whether numbers that nobody asks for are looked at. -/
inductive Format where
  | json
  | toml
  deriving Repr, DecidableEq

/-- Whether a value stands for no content. -/
def Format.isUnit : Format → Value → Bool
  | json, .null => true
  | toml, .table [] => true
  | toml, .array [] => true
  | _, _ => false

mutual

/-- Whether all integers of a value lie between two bounds and all its other numbers are in the range of double
precision. -/
def Value.numbersWithin (least greatest : Int) : Value → Bool
  | .int i => least ≤ i && i ≤ greatest
  | .real _ representable => representable
  | .array items => Value.itemsWithin least greatest items
  | .table entries => Value.entriesWithin least greatest entries
  | _ => true

/-- Whether the numbers of each item are within the bounds. -/
def Value.itemsWithin (least greatest : Int) : List Value → Bool
  | [] => true
  | v :: vs => Value.numbersWithin least greatest v && Value.itemsWithin least greatest vs

/-- Whether the numbers of each entry are within the bounds. -/
def Value.entriesWithin (least greatest : Int) : List (String × Value) → Bool
  | [] => true
  | (_, v) :: rest => Value.numbersWithin least greatest v && Value.entriesWithin least greatest rest

end

/-- Whether a value can be passed over.  In TOML its integers must fit into 128 bits. -/
def Format.canSkip : Format → Value → Bool
  | json, _ => true
  | toml, v => v.numbersWithin (-Int.pow 2 127) (Int.pow 2 128 - 1)

/-- Whether a value can be set aside until it is known what it is for.  In TOML its integers must fit into
64 bits. -/
def Format.canKeep : Format → Value → Bool
  | json, _ => true
  | toml, v => v.numbersWithin (-Int.pow 2 63) (Int.pow 2 64 - 1)

namespace Value

/-- The text of a string value. -/
def string? : Value → Option String
  | string s => some s
  | _ => none

/-- The truth value of a Boolean value. -/
def bool? : Value → Option Bool
  | bool b => some b
  | _ => none

/-- The items of an array. -/
def items? : Value → Option (List Value)
  | array items => some items
  | _ => none

/-- The texts of an array of strings. -/
def strings? (v : Value) : Option (List String) := v.items?.bind (·.mapM string?)

/-- The largest count. -/
def maxCount : Nat := Nat.pow 2 64 - 1

/-- The number of a count: an integer from 0 to `maxCount`. -/
def count? : Value → Option Nat
  | int i => if 0 ≤ i ∧ i ≤ maxCount then some i.toNat else none
  | _ => none

/-- The fields of a record.  A record is a table, whose other entries are passed over, or the list of its fields in
their fixed order.  Items behind the last field are not looked at. -/
def record? (format : Format) (fields : List String) : Value → Option (List (String × Value))
  | table entries =>
    if entries.all fun (name, v) => fields.contains name || format.canSkip v then some entries else none
  | array items => if format = .json ∧ fields.length < items.length then none else some (fields.zip items)
  | datetime _ => some []
  | _ => none

/-- The name of a choice without content. -/
def choice? (format : Format) : Value → Option String
  | string s => some s
  | table [(name, content)] => if format.isUnit content then some name else none
  | _ => none

/-- The value of a field that must be there. -/
def required {α : Type} (entries : List (String × Value)) (name : String) (read : Value → Option α) : Option α :=
  (entries.lookup name).bind read

/-- The value of a field that may be left out. -/
def optional {α : Type} (entries : List (String × Value)) (name : String) (default : α)
    (read : Value → Option α) : Option α :=
  match entries.lookup name with
  | none => some default
  | some v => read v

end Value

end Typeahead.Data
