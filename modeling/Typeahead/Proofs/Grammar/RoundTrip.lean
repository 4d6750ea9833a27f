import Mathlib
import Typeahead.Grammar.Definition
import Typeahead.Proofs.Data.Rearrangement

/-!
# Definitions survive being written and read

Each pattern, token, fragment, rule and definition is read back from the value it is written to, however the entries of
the tables in this value are ordered (`GrammarDefinition.ofValue?_toValue`).
-/

namespace Typeahead

open Data Value

variable {v : Value}

/-! ### Patterns -/

mutual

theorem LexicalForm.ofValue?_of_rearranges (p : LexicalForm) {v : Value} (h : p.toValue.Rearranges v) :
    LexicalForm.ofValue? v = some p := by
  match p with
  | .literal text | .caseless text | .inClass text | .notInClass text | .fragment text =>
    obtain ⟨_, rfl, rfl⟩ := rearranges_singleton_iff.1 h
    rw [LexicalForm.ofValue?]
    rfl
  | .seq ps | .alt ps =>
    obtain ⟨_, rfl, ws, rfl, hws⟩ := rearranges_singleton_iff.1 h
    rw [LexicalForm.ofValue?, LexicalForm.ofItems?, LexicalForm.ofValues?_of_rearranges ps hws]
    rfl
  | .optional p | .many p | .many1 p =>
    obtain ⟨w, rfl, hw⟩ := rearranges_singleton_iff.1 h
    rw [LexicalForm.ofValue?, LexicalForm.ofValue?_of_rearranges p hw]
    rfl

theorem LexicalForm.ofValues?_of_rearranges (ps : List LexicalForm) {vs : List Value}
    (h : RearrangesItems (LexicalForm.toValues ps) vs) : LexicalForm.ofValues? vs = some ps := by
  match ps with
  | [] =>
    cases h
    rw [LexicalForm.ofValues?]
  | p :: ps =>
    obtain ⟨w, rest, rfl, hw, hrest⟩ := h
    rw [LexicalForm.ofValues?, LexicalForm.ofValue?_of_rearranges p hw, LexicalForm.ofValues?_of_rearranges ps hrest]
    rfl

end

mutual

theorem PhraseForm.ofValue?_of_rearranges (format : Format) (p : PhraseForm) {v : Value}
    (h : p.toValue.Rearranges v) : PhraseForm.ofValue? format v = some p := by
  match p with
  | .token name | .rule name =>
    obtain ⟨_, rfl, rfl⟩ := rearranges_singleton_iff.1 h
    rw [PhraseForm.ofValue?]
    rfl
  | .seq ps | .alt ps =>
    obtain ⟨_, rfl, ws, rfl, hws⟩ := rearranges_singleton_iff.1 h
    rw [PhraseForm.ofValue?, PhraseForm.ofItems?, PhraseForm.ofValues?_of_rearranges format ps hws]
    rfl
  | .optional p | .many p | .many1 p =>
    obtain ⟨w, rfl, hw⟩ := rearranges_singleton_iff.1 h
    rw [PhraseForm.ofValue?, PhraseForm.ofValue?_of_rearranges format p hw]
    rfl
  | .empty =>
    obtain rfl : v = .string "empty" := h
    rw [PhraseForm.ofValue?]

theorem PhraseForm.ofValues?_of_rearranges (format : Format) (ps : List PhraseForm) {vs : List Value}
    (h : RearrangesItems (PhraseForm.toValues ps) vs) : PhraseForm.ofValues? format vs = some ps := by
  match ps with
  | [] =>
    cases h
    rw [PhraseForm.ofValues?]
  | p :: ps =>
    obtain ⟨w, rest, rfl, hw, hrest⟩ := h
    rw [PhraseForm.ofValues?, PhraseForm.ofValue?_of_rearranges format p hw,
      PhraseForm.ofValues?_of_rearranges format ps hrest]
    rfl

end

/-! ### Tokens -/

mutual

/-- A lexical pattern is written without numbers. -/
theorem LexicalForm.numbersWithin_toValue (least greatest : Int) (p : LexicalForm) :
    p.toValue.numbersWithin least greatest = true := by
  match p with
  | .literal text | .caseless text | .inClass text | .notInClass text | .fragment text => rfl
  | .seq ps | .alt ps =>
    have hps := LexicalForm.itemsWithin_toValues least greatest ps
    simp only [LexicalForm.toValue, numbersWithin, entriesWithin, hps, Bool.and_true]
  | .optional p | .many p | .many1 p =>
    have hp := LexicalForm.numbersWithin_toValue least greatest p
    simp only [LexicalForm.toValue, numbersWithin, entriesWithin, hp, Bool.and_true]

theorem LexicalForm.itemsWithin_toValues (least greatest : Int) (ps : List LexicalForm) :
    itemsWithin least greatest (LexicalForm.toValues ps) = true := by
  match ps with
  | [] => rfl
  | p :: ps =>
    rw [LexicalForm.toValues, itemsWithin, LexicalForm.numbersWithin_toValue least greatest p,
      LexicalForm.itemsWithin_toValues least greatest ps]
    rfl

end

/-- Texts that are written one by one are read back. -/
private theorem strings?_of_rearranges {texts : List String} {w : Value}
    (h : (Value.array (texts.map .string)).Rearranges w) : w.strings? = some texts := by
  obtain ⟨ws, rfl, hws⟩ := h
  refine mapM_of_rearranges (fun text _ w hw => ?_) hws
  obtain rfl : w = .string text := hw
  rfl

/-- What tells how a token is spelled is written without numbers. -/
private theorem TokenForm.numbersWithin_toEntry (least greatest : Int) (f : TokenForm) :
    f.toEntry.2.numbersWithin least greatest = true := by
  cases f with
  | keyword spelling => rfl
  | literals spellings =>
    show itemsWithin least greatest (spellings.map .string) = true
    induction spellings with
    | nil => rfl
    | cons s spellings ih => exact ih
  | pattern p => exact p.numbersWithin_toValue least greatest

/-- What tells how a token is spelled can be set aside until it is looked for. -/
private theorem TokenForm.canKeep_of_rearranges (format : Format) (f : TokenForm) {w : Value}
    (h : f.toEntry.2.Rearranges w) : format.canKeep w = true := by
  cases format with
  | json => rfl
  | toml => exact (numbersWithin_of_rearranges _ h).trans (f.numbersWithin_toEntry _ _)

/-- How a token is spelled is read back from the entries of the token. -/
private theorem TokenForm.ofEntries?_of_rearranges (f : TokenForm) {w name skip : Value}
    {entries : List (String × Value)} (h : f.toEntry.2.Rearranges w)
    (hlookup : ∀ key, entries.lookup key = [("name", name), ("skip", skip), (f.toEntry.1, w)].lookup key) :
    TokenForm.ofEntries? entries = some f := by
  unfold TokenForm.ofEntries?
  -- the keys that are looked for before that of `f` are not there
  cases f with
  | keyword spelling =>
    obtain rfl : w = .string spelling := h
    rw [hlookup "keyword"]
    rfl
  | literals spellings =>
    rw [hlookup "keyword", hlookup "literals"]
    exact congrArg (Option.map _) (strings?_of_rearranges h)
  | pattern p =>
    rw [hlookup "keyword", hlookup "literals", hlookup "pattern"]
    exact congrArg (Option.map _) (p.ofValue?_of_rearranges h)

private theorem TokenForm.nodup_keys (f : TokenForm) : ["name", "skip", f.toEntry.1].Nodup := by
  cases f <;> simp [TokenForm.toEntry]

/-- A token is read back: its name, whether it is skipped and how it is spelled share one table. -/
theorem TokenDefinition.ofValue?_of_rearranges (format : Format) (t : TokenDefinition) {v : Value}
    (h : t.toValue.Rearranges v) : TokenDefinition.ofValue? format v = some t := by
  obtain ⟨fs, entries, rfl, ⟨_, _, rfl, rfl, _, _, rfl, rfl, w, _, rfl, hw, rfl⟩, hp⟩ := h
  replace hp : [("name", .string t.name), ("skip", .bool t.skip), (t.form.toEntry.1, w)].Perm entries := hp
  have hlookup := lookup_of_perm hp t.form.nodup_keys
  have hkeep := t.form.canKeep_of_rearranges format hw
  have hname : required entries "name" string? = some t.name := by
    rw [required, hlookup]
    rfl
  have hskip : Value.optional entries "skip" false bool? = some t.skip := by
    rw [Value.optional, hlookup]
    rfl
  rw [TokenDefinition.ofValue?, ← hp.all_eq, hname, hskip, t.form.ofEntries?_of_rearranges hw hlookup]
  simp [hkeep]

/-! ### Fragments, rules and whole definitions -/

/-- A table with the fields of a record and no other entries is this record. -/
private theorem record?_of_perm (format : Format) {fs entries : List (String × Value)} (hp : fs.Perm entries) :
    (Value.table entries).record? format (fs.map (·.1)) = some entries := by
  refine if_pos ?_
  rw [← hp.all_eq, List.all_eq_true]
  rintro ⟨name, v⟩ he
  have hmem : name ∈ fs.map (·.1) := List.mem_map_of_mem he
  simp only [List.contains_iff_mem.2 hmem, Bool.true_or]

theorem FragmentDefinition.ofValue?_of_rearranges (format : Format) (f : FragmentDefinition) {v : Value}
    (h : f.toValue.Rearranges v) : FragmentDefinition.ofValue? format v = some f := by
  obtain ⟨fs, entries, rfl, ⟨_, _, rfl, rfl, w, _, rfl, hw, rfl⟩, hp⟩ := h
  have hlookup := lookup_of_perm hp (by simp)
  have hname : required entries "name" string? = some f.name := by
    rw [required, hlookup]
    rfl
  have hpattern : required entries "pattern" LexicalForm.ofValue? = some f.pattern := by
    rw [required, hlookup]
    exact f.pattern.ofValue?_of_rearranges hw
  have hrecord : (Value.table entries).record? format ["name", "pattern"] = some entries := record?_of_perm format hp
  simp only [FragmentDefinition.ofValue?, hrecord, Option.bind_eq_bind, Option.bind_some, hname, hpattern,
    Option.pure_def]

theorem RuleDefinition.ofValue?_of_rearranges (format : Format) (r : RuleDefinition) {v : Value}
    (h : r.toValue.Rearranges v) : RuleDefinition.ofValue? format v = some r := by
  obtain ⟨fs, entries, rfl, ⟨_, _, rfl, rfl, w, _, rfl, hw, rfl⟩, hp⟩ := h
  have hlookup := lookup_of_perm hp (by simp)
  have hname : required entries "name" string? = some r.name := by
    rw [required, hlookup]
    rfl
  have hbody : required entries "body" (PhraseForm.ofValue? format) = some r.body := by
    rw [required, hlookup]
    exact r.body.ofValue?_of_rearranges format hw
  have hrecord : (Value.table entries).record? format ["name", "body"] = some entries := record?_of_perm format hp
  simp only [RuleDefinition.ofValue?, hrecord, Option.bind_eq_bind, Option.bind_some, hname, hbody, Option.pure_def]

/-- A list of a definition is read back if each of its items is. -/
private theorem list_of_rearranges {α : Type} {write : α → Value} {read : Value → Option α} {l : List α}
    {entries : List (String × Value)} {name : String} {ws : List Value}
    (hlookup : entries.lookup name = some (.array ws)) (hws : RearrangesItems (l.map write) ws)
    (hread : ∀ a w, (write a).Rearranges w → read w = some a) :
    (Value.optional entries name [] fun v => v.items?.bind (·.mapM read)) = some l := by
  rw [Value.optional, hlookup]
  exact mapM_of_rearranges (fun a _ => hread a) hws

/-- A definition is read back from the value it is written to, in either format, and the entries of the tables in this
value may be put in any order before. -/
theorem GrammarDefinition.ofValue?_toValue (format : Format) (d : GrammarDefinition) :
    GrammarDefinition.ofValue? format d.toValue = some d ∧
      ∀ v, d.toValue.Rearranges v → GrammarDefinition.ofValue? format v = some d := by
  have hread : ∀ v, d.toValue.Rearranges v → GrammarDefinition.ofValue? format v = some d := by
    -- `fs` are the four entries as they are written, `entries` the same in another order
    rintro v ⟨fs, entries, rfl, ⟨_, _, rfl, rfl, _, _, rfl, ⟨ts, rfl, hts⟩, _, _, rfl, ⟨gs, rfl, hgs⟩,
      _, _, rfl, ⟨rs, rfl, hrs⟩, rfl⟩, hp⟩
    have hlookup := lookup_of_perm hp (by simp)
    have hstart : required entries "start" string? = some d.start := by
      rw [required, hlookup]
      rfl
    have htokens := list_of_rearranges (hlookup "tokens") hts
      fun t _ hw => t.ofValue?_of_rearranges format hw
    have hfragments := list_of_rearranges (hlookup "fragments") hgs
      fun f _ hw => f.ofValue?_of_rearranges format hw
    have hrules := list_of_rearranges (hlookup "rules") hrs
      fun r _ hw => r.ofValue?_of_rearranges format hw
    have hrecord : (Value.table entries).record? format ["start", "tokens", "fragments", "rules"] = some entries :=
      record?_of_perm format hp
    simp only [GrammarDefinition.ofValue?, hrecord, Option.bind_eq_bind, Option.bind_some, hstart, htokens,
      hfragments, hrules, Option.pure_def]
  exact ⟨hread _ (rearranges_refl _), hread⟩

/-- A definition of lists of numbers. -/
def numberLists : GrammarDefinition where
  start := "list"
  tokens := [⟨"NUMBER", false, .pattern (.many1 (.inClass "0-9"))⟩, ⟨"BLANK", true, .literals [" ", "\t"]⟩]
  fragments := []
  rules := [⟨"list", .alt [.empty, .seq [.token "NUMBER", .optional (.rule "list")]]⟩]

/-- The definition of lists of numbers with its rules first, with the pattern of a number before its name, and with
the name of a rule behind its body. -/
def numberListsValue : Value :=
  .table
    [("rules", .array [.table
      [("body", .table [("alt", .array
        [.string "empty",
         .table [("seq", .array [.table [("token", .string "NUMBER")],
           .table [("optional", .table [("rule", .string "list")])]])]])]),
       ("name", .string "list")]]),
     ("fragments", .array []),
     ("tokens", .array
       [.table [("pattern", .table [("many1", .table [("class", .string "0-9")])]), ("skip", .bool false),
         ("name", .string "NUMBER")],
        .table [("name", .string "BLANK"), ("skip", .bool true), ("literals", .array [.string " ", .string "\t"])]]),
     ("start", .string "list")]

theorem GrammarDefinition.ofValue?_numberLists :
    numberLists.toValue.Rearranges numberListsValue ∧
      ofValue? .toml numberListsValue = some numberLists := by
  have h : numberLists.toValue.Rearranges numberListsValue := by
    refine ⟨_, _, rfl, ⟨_, _, rfl, rearranges_refl _, _, _, rfl, ⟨_, rfl, _, _, rfl, ?_, _, _, rfl, ?_, rfl⟩,
      _, _, rfl, rearranges_refl _, _, _, rfl, ⟨_, rfl, _, _, rfl, ?_, rfl⟩, rfl⟩, (List.reverse_perm _).symm⟩
    · exact ⟨_, _, rfl, rearrangesEntries_refl _, (List.reverse_perm _).symm⟩
    · exact rearranges_refl _
    · exact ⟨_, _, rfl, rearrangesEntries_refl _, (List.reverse_perm _).symm⟩
  exact ⟨h, (GrammarDefinition.ofValue?_toValue .toml numberLists).2 numberListsValue h⟩

end Typeahead
