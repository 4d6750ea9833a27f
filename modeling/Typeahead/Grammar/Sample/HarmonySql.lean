import Typeahead.Grammar.Declarations

/-!
# A sample grammar

A small query language over a vocabulary of tables and columns:

    statement    : FROM table SELECT columns where_clause? ;
    columns      : STAR | column (COMMA column)* ;
    where_clause : WHERE condition ((AND | OR) condition)* ;
    condition    : column operator value ;
    operator     : EQ | NEQ | LT | GT | LTE | GTE | LIKE ;
    value        : ID | NUMBER | STRING ;
-/

namespace Typeahead.Sample

/-- The tables of the sample. -/
def tables : List String := ["PROFILE_TABLE", "REF_TABLE_1", "US_FORT_WORTH_CUSTOMERS", "US_DALLAS_CUSTOMERS"]

/-- The columns of the sample. -/
def columns : List String := ["LAST_NAME", "FIRST_NAME", "REGION", "STATE"]

/-- The declarations of the sample grammar over some tables and columns. -/
def harmonySqlOver (tables columns : List String) : Declarations :=
  let token (name : String) : PhrasePattern := .atom name
  let rule (name : String) : PhrasePattern := .ref name
  ({} : Declarations)
    |>.skip "WS" (.many1 (.inClass "\\s\\t\\r\\n"))
    |>.keyword "FROM" "FROM"
    |>.keyword "SELECT" "SELECT"
    |>.keyword "WHERE" "WHERE"
    |>.keyword "AND" "AND"
    |>.keyword "OR" "OR"
    |>.keyword "LIKE" "LIKE"
    |>.literals "EQ" ["EQ", "="]
    |>.literals "NEQ" ["NEQ", "!="]
    |>.literals "LTE" ["LTE", "<="]
    |>.literals "GTE" ["GTE", ">="]
    |>.literals "LT" ["LT", "<"]
    |>.literals "GT" ["GT", ">"]
    |>.token "COMMA" (.literal ",")
    |>.token "STAR" (.literal "*")
    |>.literals "TABLE_NAME" tables
    |>.literals "COLUMN_NAME" columns
    |>.token "NUMBER" (.many1 (.inClass "0-9"))
    |>.token "STRING" (.seq [.literal "'", .many (.notInClass "'"), .literal "'"])
    |>.token "ID" (.seq [.inClass "A-Za-z_", .many (.inClass "A-Za-z0-9_")])
    |>.rule "statement"
      (.seq [token "FROM", rule "table", token "SELECT", rule "columns", .optional (rule "where_clause")])
    |>.rule "table" (token "TABLE_NAME")
    |>.rule "columns"
      (.alt [token "STAR", .seq [rule "column", .many (.seq [token "COMMA", rule "column"])]])
    |>.rule "column" (token "COLUMN_NAME")
    |>.rule "where_clause"
      (.seq [token "WHERE", rule "condition",
        .many (.seq [.alt [token "AND", token "OR"], rule "condition"])])
    |>.rule "condition" (.seq [rule "column", rule "operator", rule "value"])
    |>.rule "operator" (.alt (["EQ", "NEQ", "LT", "GT", "LTE", "GTE", "LIKE"].map token))
    |>.rule "value" (.alt (["ID", "NUMBER", "STRING"].map token))
    |>.startAt "statement"

/-- The declarations of the sample grammar. -/
def harmonySql : Declarations := harmonySqlOver tables columns

end Typeahead.Sample
