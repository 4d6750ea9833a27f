import Typeahead.Data.Value

/-!
# Documents

A TOML document is a sequence of statements: entries, and headers that open a table or one more table of an
array.  `assemble?` builds the table that the statements describe.  It refuses to define a key twice and to add to
a table that is closed: one written inline, one opened by a header before, or, for a header, one made by dotted
keys.
-/

namespace Typeahead.Data.Toml

/-- A statement of a document. -/
inductive Statement where
  | entry (path : List String) (v : Value)
  /-- Opens a table. -/
  | table (path : List String)
  /-- Opens one more table of an array. -/
  | tables (path : List String)
  deriving Repr

/-- How a table came into being, which decides what may be added to it. -/
inductive Origin where
  /-- By its own header. -/
  | header
  /-- By the header of a table inside it. -/
  | path
  /-- By a dotted key. -/
  | dotted
  deriving Repr, DecidableEq

/-- A node of a document under construction. -/
inductive Node where
  /-- A value to which nothing can be added. -/
  | closed (v : Value)
  | table (origin : Origin) (entries : List (String × Node))
  /-- An array of tables, the last one first. -/
  | tables (items : List (List (String × Node)))
  deriving Repr

mutual

/-- The value of a finished node. -/
def Node.toValue : Node → Value
  | .closed v => v
  | .table _ entries => .table (Node.toEntries entries)
  | .tables items => .array (Node.toTables items).reverse

/-- The entries of a finished table. -/
def Node.toEntries : List (String × Node) → List (String × Value)
  | [] => []
  | (key, node) :: rest => (key, Node.toValue node) :: Node.toEntries rest

/-- The tables of a finished array, in the given order. -/
def Node.toTables : List (List (String × Node)) → List Value
  | [] => []
  | entries :: rest => .table (Node.toEntries entries) :: Node.toTables rest

end

/-- Replaces the node of a key; a new key comes last. -/
def setNode (key : String) (node : Node) : List (String × Node) → List (String × Node)
  | [] => [(key, node)]
  | (k, n) :: rest => if k = key then (k, node) :: rest else (k, n) :: setNode key node rest

/-- Adds an entry below a dotted path to a table.  The table that gets the entry must itself be made by dotted keys,
unless it is the one that the path starts from; on the way there the path may lead through tables made by headers of
tables inside them and through the last table of an array. -/
def insertValue? (v : Value) : List String → List (String × Node) → Option (List (String × Node))
  | [], _ => none
  | [key], entries => if (entries.lookup key).isSome then none else some (entries ++ [(key, .closed v)])
  | key :: next :: path, entries =>
    match entries.lookup key with
    | none => (insertValue? v (next :: path) []).map fun es => entries ++ [(key, .table .dotted es)]
    | some (.table .dotted inner) =>
      (insertValue? v (next :: path) inner).map fun es => setNode key (.table .dotted es) entries
    | some (.table .path inner) =>
      if path.isEmpty then none
      else (insertValue? v (next :: path) inner).map fun es => setNode key (.table .path es) entries
    | some (.tables (last :: items)) =>
      if path.isEmpty then none
      else (insertValue? v (next :: path) last).map fun es => setNode key (.tables (es :: items)) entries
    | some _ => none

/-- Adds entries one after the other. -/
def insertEntries? (section_ : List (List String × Value)) (entries : List (String × Node)) :
    Option (List (String × Node)) :=
  section_.foldlM (fun entries (path, v) => insertValue? v path entries) entries

/-- Adds the entries of a section to the table that its header names; `isArray` tells whether the header opens
one more table of an array. -/
def insertSection? (isArray : Bool) (section_ : List (List String × Value)) :
    List String → List (String × Node) → Option (List (String × Node))
  | [], _ => none
  | [key], entries =>
    match isArray, entries.lookup key with
    | false, none => (insertEntries? section_ []).map fun es => entries ++ [(key, .table .header es)]
    | false, some (.table .path inner) =>
      (insertEntries? section_ inner).map fun es => setNode key (.table .header es) entries
    | true, none => (insertEntries? section_ []).map fun es => entries ++ [(key, .tables [es])]
    | true, some (.tables items) =>
      (insertEntries? section_ []).map fun es => setNode key (.tables (es :: items)) entries
    | _, _ => none
  | key :: next :: path, entries =>
    match entries.lookup key with
    | none => (insertSection? isArray section_ (next :: path) []).map fun es => entries ++ [(key, .table .path es)]
    | some (.table origin inner) =>
      (insertSection? isArray section_ (next :: path) inner).map fun es => setNode key (.table origin es) entries
    | some (.tables (last :: items)) =>
      (insertSection? isArray section_ (next :: path) last).map fun es => setNode key (.tables (es :: items)) entries
    | some _ => none

/-- The entries before the first header, and the rest from that header on. -/
def leadingEntries : List Statement → List (List String × Value) × List Statement
  | .entry path v :: rest =>
    let (section_, rest) := leadingEntries rest
    ((path, v) :: section_, rest)
  | statements => ([], statements)

/-- No statements are gained when leading entries are taken off. -/
theorem length_leadingEntries_le (statements : List Statement) :
    (leadingEntries statements).2.length ≤ statements.length := by
  fun_induction leadingEntries statements with
  | case1 path v rest section_ rest' h ih => simp_all; omega
  | case2 => simp

/-- Adds section after section. -/
def insertSections? (statements : List Statement) (entries : List (String × Node)) :
    Option (List (String × Node)) :=
  match statements with
  | [] => some entries
  | .table path :: rest => do
    let entries ← insertSection? false (leadingEntries rest).1 path entries
    insertSections? (leadingEntries rest).2 entries
  | .tables path :: rest => do
    let entries ← insertSection? true (leadingEntries rest).1 path entries
    insertSections? (leadingEntries rest).2 entries
  | .entry _ _ :: _ => none
termination_by statements.length
decreasing_by
  all_goals
    have := length_leadingEntries_le rest
    simp
    omega

/-- The table that statements describe. -/
def assemble? (statements : List Statement) : Option Value := do
  let entries ← insertEntries? (leadingEntries statements).1 []
  let entries ← insertSections? (leadingEntries statements).2 entries
  pure (Node.table .header entries).toValue

/-- The table that the entries of an inline table describe. -/
def inlineTable? (entries : List (List String × Value)) : Option Value := do
  let entries ← insertEntries? entries []
  pure (Node.table .header entries).toValue

end Typeahead.Data.Toml
