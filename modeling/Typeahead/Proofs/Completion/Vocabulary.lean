import Typeahead.Proofs.Completion.Composition
import Typeahead.Proofs.Completion.HarmonySql

/-!
# The sample grammar over any vocabulary

The sample grammar can be built over all tables and columns whose names are identifiers and not words of the language,
and its statements are accepted (`harmonySqlOver_accepts`).  Only two tokens depend on the vocabulary, so the others are
looked at once, without any vocabulary.  Names, blanks and commas have no characters in common, and no token begins with
one of them and goes on to another (`not_viable_of_apart`), which is why a name ends where it should.  A name that could
be a table or a column is read as a table, because tables are declared first, so the first such column is reported.
-/

namespace Typeahead.Sample

open Declarations

/-! ### Vocabularies -/

/-- The characters that a name begins with. -/
def letters : List Char := "ABCDEFGHIJKLMNOPQRSTUVWXYZabcdefghijklmnopqrstuvwxyz_".toList

/-- The characters of a name. -/
def nameChars : List Char := letters ++ "0123456789".toList

/-- The text is a letter with letters and digits behind it. -/
def IsIdentifier (name : String) : Prop :=
  ∃ c cs, name.toList = c :: cs ∧ c ∈ letters ∧ ∀ x ∈ cs, x ∈ nameChars

/-- The words of the language. -/
def reserved : List String :=
  ["FROM", "SELECT", "WHERE", "AND", "OR", "LIKE", "EQ", "NEQ", "LT", "GT", "LTE", "GTE"]

/-- Names that tables or columns may have: not too many identifiers, none of them a word of the language in any letter
case. -/
structure IsVocabulary (names : List String) : Prop where
  length_le : names.length ≤ 200
  identifier : ∀ name ∈ names, IsIdentifier name
  free : ∀ name ∈ names, Text.uppercase name ∉ reserved

/-- What may stand between two columns. -/
def separators : List String := [",", " ,", ", ", " , "]

/-- The statement that selects some columns of a table. -/
def statement (table separator : String) (chosen : List String) : String :=
  "FROM " ++ table ++ " SELECT " ++ separator.intercalate chosen ++ " "

variable {tables columns names : List String} {name : String} {kind : TokenKind} {t : TokenDecl}

theorem IsIdentifier.exists_cons (h : IsIdentifier name) :
    ∃ c cs, name.toList = c :: cs ∧ ∀ x ∈ c :: cs, x ∈ nameChars := by
  obtain ⟨c, cs, hname, hc, hcs⟩ := h
  exact ⟨c, cs, hname, List.forall_mem_cons.2 ⟨List.mem_append_left _ hc, hcs⟩⟩

theorem IsIdentifier.mem_nameChars (h : IsIdentifier name) {x : Char} (hx : x ∈ name.toList) : x ∈ nameChars := by
  obtain ⟨c, cs, hname, hcs⟩ := h.exists_cons
  rw [hname] at hx
  exact hcs x hx

/-! ### The tokens -/

/-- The sample grammar without any names. -/
private def nameless : Declarations := harmonySqlOver [] []

/-- Tables and columns stand among the tokens of the grammar without names. -/
private theorem tokens_eq : (harmonySqlOver tables columns).tokens =
    (nameless.tokens.set 15 ⟨"TABLE_NAME", .literals tables, false⟩).set 16
      ⟨"COLUMN_NAME", .literals columns, false⟩ := rfl

private theorem mem_tokens (ht : IsVocabulary tables) (hc : IsVocabulary columns)
    (h : t ∈ (harmonySqlOver tables columns).tokens) :
    t ∈ nameless.tokens ∨ ∃ names, IsVocabulary names ∧ t.body = .literals names := by
  rw [tokens_eq] at h
  rcases List.mem_or_eq_of_mem_set h with h | rfl
  · rcases List.mem_or_eq_of_mem_set h with h | rfl
    · exact Or.inl h
    · exact Or.inr ⟨tables, ht, rfl⟩
  · exact Or.inr ⟨columns, hc, rfl⟩

private theorem getElem?_tokens (hk : kind < 15) :
    (harmonySqlOver tables columns).tokens[kind]? = nameless.tokens[kind]? := by
  rw [tokens_eq, List.getElem?_set_ne (Nat.ne_of_gt (Nat.lt_succ_of_lt hk)), List.getElem?_set_ne (Nat.ne_of_gt hk)]

/-- All tokens but the first are kept. -/
private theorem not_skips (hne : kind ≠ 0) : ¬ (harmonySqlOver tables columns).Skips kind := by
  rintro ⟨t, hget, hskip⟩
  have hskips : (harmonySqlOver tables columns).tokens.map (·.skip) = true :: List.replicate 19 false := rfl
  have hk : ((harmonySqlOver tables columns).tokens.map (·.skip))[kind]? = some true := by
    rw [List.getElem?_map, hget, Option.map_some, hskip]
  obtain ⟨k, rfl⟩ := Nat.exists_eq_succ_of_ne_zero hne
  rw [hskips, List.getElem?_cons_succ] at hk
  exact Bool.noConfusion (List.eq_of_mem_replicate (List.mem_of_getElem? hk))

/-! ### Classes of characters -/

/-- The characters of names, blanks and commas. -/
private def classes : List (List Char) := [nameChars, [' '], [',']]

/-- Whether the leaves of a pattern are atoms that accept no character of the list. -/
private def avoids (xs : List Char) (p : LexPattern) : Bool :=
  p.leaves.all fun
    | .inl a => xs.all fun x => !decide (a.Accepts x)
    | .inr _ => false

/-- Whether a pattern begins with an atom that accepts no character of the list. -/
private def beginsOutside (xs : List Char) : LexPattern → Bool
  | .seq (.atom a :: _) => xs.all fun x => !decide (a.Accepts x)
  | _ => false

/-- No token begins in one class and goes on to another. -/
private theorem nameless_classes : classes.all (fun first => classes.all fun second => first == second ||
    nameless.tokens.all fun t => avoids second t.body || avoids first t.body || beginsOutside first t.body) = true := by
  decide +kernel

/-- Only names have the characters of names. -/
private theorem classes_disjoint :
    classes.all (fun xs => xs == nameChars || xs.all (!nameChars.contains ·)) = true := by
  cbv

private theorem not_mem_nameChars {xs : List Char} (hxs : xs ∈ classes) (hne : xs ≠ nameChars) {x : Char}
    (hx : x ∈ xs) : x ∉ nameChars := by
  have h := List.all_eq_true.1 classes_disjoint xs hxs
  simp only [Bool.or_eq_true, beq_iff_eq, List.all_eq_true, Bool.not_eq_true', List.contains_eq_mem,
    decide_eq_false_iff_not] at h
  exact h.resolve_left hne x hx

/-- The characters are of different classes. -/
private def Apart (x y : Char) : Prop :=
  ∃ first ∈ classes, ∃ second ∈ classes, first ≠ second ∧ x ∈ first ∧ y ∈ second

private instance (x y : Char) : Decidable (Apart x y) :=
  inferInstanceAs (Decidable (∃ first ∈ classes, ∃ second ∈ classes, first ≠ second ∧ x ∈ first ∧ y ∈ second))

variable {d : Declarations} {p : LexPattern} {xs w : List Char} {x y : Char}

private theorem apart_name (hx : x ∈ nameChars) (hy : y = ' ' ∨ y = ',') : Apart x y ∧ Apart y x := by
  have hname : nameChars ∈ classes := by decide
  rcases hy with rfl | rfl
  · exact ⟨⟨nameChars, hname, [' '], by decide, by decide, hx, by decide⟩,
      ⟨[' '], by decide, nameChars, hname, by decide, by decide, hx⟩⟩
  · exact ⟨⟨nameChars, hname, [','], by decide, by decide, hx, by decide⟩,
      ⟨[','], by decide, nameChars, hname, by decide, by decide, hx⟩⟩

private theorem not_viable_of_avoids (h : avoids xs p = true) (hx : x ∈ xs) (hw : x ∈ w) :
    ¬ d.lexicalSystem.Viable [p] w := by
  refine RuleSystem.not_viable_of_leaves (fun leaf hleaf => ?_) hw
  have hatom := List.all_eq_true.1 h leaf hleaf
  cases leaf with
  | inl a =>
    simp only [List.all_eq_true, Bool.not_eq_true', decide_eq_false_iff_not] at hatom
    exact ⟨a, rfl, hatom x hx⟩
  | inr r => cases hatom

private theorem not_viable_of_beginsOutside (h : beginsOutside xs p = true) (hx : x ∈ xs) :
    ¬ d.lexicalSystem.Viable [p] (x :: w) := by
  unfold beginsOutside at h
  split at h
  · simp only [List.all_eq_true, Bool.not_eq_true', decide_eq_false_iff_not] at h
    exact fun hv => h x hx (RuleSystem.accepts_of_viable_seq hv)
  · cases h

/-- Names have no other characters. -/
private theorem not_viable_names (hnames : ∀ name ∈ names, IsIdentifier name) (hx : x ∉ nameChars) (hw : x ∈ w) :
    ¬ d.lexicalSystem.Viable [.literals names] w := by
  refine RuleSystem.not_viable_of_leaves (fun leaf hleaf => ?_) hw
  obtain ⟨name, hname, c, hc, rfl⟩ := mem_leaves_literals hleaf
  refine ⟨_, rfl, ?_⟩
  rintro rfl
  exact hx ((hnames name hname).mem_nameChars hc)

/-- No token begins in one class and goes on to another, whatever the vocabulary. -/
private theorem not_viable_of_apart (ht : IsVocabulary tables) (hc : IsVocabulary columns) (h : Apart x y) (hw : y ∈ w)
    (hmem : t ∈ (harmonySqlOver tables columns).tokens) :
    ¬ (harmonySqlOver tables columns).lexicalSystem.Viable [t.body] (x :: w) := by
  obtain ⟨first, hfirst, second, hsecond, hne, hx, hy⟩ := h
  rcases mem_tokens ht hc hmem with hmem | ⟨names, hnames, hbody⟩
  · have h := List.all_eq_true.1 (List.all_eq_true.1 nameless_classes first hfirst) second hsecond
    rw [Bool.or_eq_true, beq_iff_eq] at h
    have hchecked := List.all_eq_true.1 (h.resolve_left hne) t hmem
    rw [Bool.or_eq_true, Bool.or_eq_true] at hchecked
    rcases hchecked with (h | h) | h
    · exact not_viable_of_avoids h hy (List.mem_cons_of_mem x hw)
    · exact not_viable_of_avoids h hx List.mem_cons_self
    · exact not_viable_of_beginsOutside h hx
  · rw [hbody]
    by_cases hfirst' : first = nameChars
    · have hsecond' : second ≠ nameChars := fun h => hne (hfirst'.trans h.symm)
      exact not_viable_names hnames.identifier (not_mem_nameChars hsecond hsecond' hy) (List.mem_cons_of_mem x hw)
    · exact not_viable_names hnames.identifier (not_mem_nameChars hfirst hfirst' hx) List.mem_cons_self

/-- A word is closed by a character of another class. -/
private theorem closes_of_apart (ht : IsVocabulary tables) (hc : IsVocabulary columns) (h : Apart x y)
    (hspells : (harmonySqlOver tables columns).Spells kind (x :: w))
    (hlowest : ∀ kind', (harmonySqlOver tables columns).Spells kind' (x :: w) → kind ≤ kind') :
    (harmonySqlOver tables columns).Closes kind (x :: w) y :=
  ⟨List.cons_ne_nil x w, hspells, hlowest, fun _ hmem =>
    not_viable_of_apart ht hc h (List.mem_append_right w (List.mem_singleton.2 rfl)) hmem⟩

/-! ### Words of the language -/

/-- The words that a selection is made of, besides names. -/
private def fixedWords : List (TokenKind × String) := [(0, " "), (1, "FROM"), (2, "SELECT"), (13, ",")]

/-- Each of these words is a text of its token and of no token before it. -/
private theorem nameless_words : fixedWords.all (fun (kind, word) =>
    (nameless.tokens.zipIdx.take (kind + 1)).all fun (t, kind') => t.body.refFree &&
      (nameless.lexicalSystem.residuals word.toList [t.body]).any Pattern.allNullable == (kind' == kind)) = true := by
  decide +kernel

/-- Without references it makes no difference which declarations a text is read with. -/
private theorem residuals_eq (d d' : Declarations) (w : List Char) (F : Form LexAtom String) :
    d.lexicalSystem.residuals w F = d'.lexicalSystem.residuals w F := by
  induction w generalizing F with
  | nil => rfl
  | cons x w ih =>
    rw [RuleSystem.residuals, RuleSystem.residuals]
    simp only [ih]
    rfl

private theorem spells_word {word : String} (h : (kind, word) ∈ fixedWords) :
    (harmonySqlOver tables columns).Spells kind word.toList ∧
      ∀ kind', (harmonySqlOver tables columns).Spells kind' word.toList → kind ≤ kind' := by
  have hlt : kind < 15 := (by decide : ∀ x ∈ fixedWords, x.1 < 15) _ h
  have hchecked : ∀ {kind' t}, nameless.tokens[kind']? = some t → kind' ≤ kind →
      ((harmonySqlOver tables columns).lexicalSystem.Derives [t.body] word.toList ↔ kind' = kind) := by
    intro kind' t hk hle
    have htake : (t, kind') ∈ nameless.tokens.zipIdx.take (kind + 1) := by
      refine List.mem_iff_getElem?.2 ⟨kind', ?_⟩
      rw [List.getElem?_take_of_lt (Nat.lt_succ_of_le hle), List.getElem?_zipIdx, hk, Nat.zero_add]
      rfl
    have hspec := List.all_eq_true.1 (List.all_eq_true.1 nameless_words _ h) _ htake
    rw [Bool.and_eq_true, beq_iff_eq, residuals_eq _ (harmonySqlOver tables columns),
      ← Pattern.allRefFree_singleton] at hspec
    obtain ⟨hfree, hspec⟩ := hspec
    rw [RuleSystem.derives_iff_residuals hfree, ← List.any_eq_true, hspec, beq_iff_eq]
  constructor
  · have hlength : kind < nameless.tokens.length := Nat.lt_trans hlt (by decide)
    have hk := List.getElem?_eq_getElem hlength
    exact ⟨_, (getElem?_tokens hlt).trans hk, (hchecked hk (Nat.le_refl kind)).2 rfl⟩
  · rintro kind' ⟨t, hk, hd⟩
    by_contra hle
    rw [getElem?_tokens (Nat.lt_trans (Nat.lt_of_not_le hle) hlt)] at hk
    exact hle (Nat.le_of_eq ((hchecked hk (Nat.le_of_not_le hle)).1 hd).symm)

private theorem closes_word (ht : IsVocabulary tables) (hc : IsVocabulary columns) (kind : TokenKind) (word : String)
    (h : (kind, word) ∈ fixedWords) (hcons : word.toList = x :: w) (hy : Apart x y) :
    (harmonySqlOver tables columns).Closes kind word.toList y := by
  obtain ⟨hspells, hlowest⟩ := spells_word h
  rw [hcons] at hspells hlowest ⊢
  exact closes_of_apart ht hc hy hspells hlowest

/-! ### Names -/

/-- The keywords of the language. -/
private def keywords : List String := ["FROM", "SELECT", "WHERE", "AND", "OR", "LIKE"]

/-- The words for comparisons, each with its sign. -/
private def comparisons : List (String × String) :=
  [("EQ", "="), ("NEQ", "!="), ("LTE", "<="), ("GTE", ">="), ("LT", "<"), ("GT", ">")]

/-- The tokens before tables and columns. -/
private theorem take_tokens : nameless.tokens.take 15 =
    ⟨"WS", .many1 (.atom blankAtom), true⟩ :: (keywords.map fun word => ⟨word, .caseless word, false⟩) ++
      (comparisons.map fun (word, sign) => ⟨word, .literals [word, sign], false⟩) ++
      [⟨"COMMA", .literal ",", false⟩, ⟨"STAR", .literal "*", false⟩] := rfl

private theorem avoids_others : avoids nameChars (.many1 (.atom blankAtom)) = true ∧
    avoids nameChars (.literal ",") = true ∧ avoids nameChars (.literal "*") = true := by
  decide +kernel

/-- The characters of names that a letter of a keyword stands for are the two cases of this letter. -/
private theorem uppercase_keywords : keywords.all (fun word => reserved.contains word && word.toList.all fun c =>
    Text.isAlphabetic c && nameChars.all fun x =>
      !(Text.CharSet.anyCase c).contains x || Text.uppercaseChar x == [c]) = true := by
  decide +kernel

private theorem uppercase_comparisons : comparisons.all (fun (word, sign) => reserved.contains (Text.uppercase word) &&
    sign.toList.any (!nameChars.contains ·)) = true := by
  cbv

private theorem flatMap_uppercaseChar {cs u : List Char}
    (h : List.Forall₂ (fun c x =>
      if Text.isAlphabetic c then (Text.CharSet.anyCase c).contains x = true else x = c) cs u)
    (hcs : ∀ c ∈ cs, Text.isAlphabetic c = true ∧
      ∀ x ∈ nameChars, (Text.CharSet.anyCase c).contains x = false ∨ Text.uppercaseChar x = [c])
    (hu : ∀ x ∈ u, x ∈ nameChars) : u.flatMap Text.uppercaseChar = cs := by
  induction h with
  | nil => rfl
  | @cons c x cs u hx _ ih =>
    obtain ⟨⟨halphabetic, hcase⟩, hcs⟩ := List.forall_mem_cons.1 hcs
    obtain ⟨hxname, hu⟩ := List.forall_mem_cons.1 hu
    rw [if_pos halphabetic] at hx
    have himage : Text.uppercaseChar x = [c] :=
      (hcase x hxname).resolve_left fun hnot => Bool.false_ne_true (hnot.symm.trans hx)
    rw [List.flatMap_cons, himage, ih hcs hu]
    rfl

/-- An identifier that a keyword derives is reserved. -/
private theorem mem_reserved_of_caseless {word : String} (hword : word ∈ keywords) (hname : IsIdentifier name)
    (h : d.lexicalSystem.Derives [.caseless word] name.toList) : Text.uppercase name ∈ reserved := by
  have hspec := List.all_eq_true.1 uppercase_keywords word hword
  simp only [Bool.and_eq_true, List.contains_eq_mem, decide_eq_true_eq, List.all_eq_true, Bool.or_eq_true,
    Bool.not_eq_true', beq_iff_eq] at hspec
  obtain ⟨hreserved, hletters⟩ := hspec
  rw [Text.uppercase, flatMap_uppercaseChar (derives_caseless_iff.1 h) hletters fun x => hname.mem_nameChars,
    String.ofList_toList]
  exact hreserved

/-- An identifier that a comparison derives is reserved. -/
private theorem mem_reserved_of_comparison {word sign : String} (hword : (word, sign) ∈ comparisons)
    (hname : IsIdentifier name) (h : d.lexicalSystem.Derives [.literals [word, sign]] name.toList) :
    Text.uppercase name ∈ reserved := by
  have hspec := List.all_eq_true.1 uppercase_comparisons _ hword
  simp only [Bool.and_eq_true, List.contains_eq_mem, decide_eq_true_eq, List.any_eq_true, Bool.not_eq_true',
    decide_eq_false_iff_not] at hspec
  obtain ⟨hreserved, x, hx, hout⟩ := hspec
  obtain ⟨text, htext, heq⟩ := derives_literals_iff.1 h
  obtain rfl := String.toList_injective heq
  rcases List.mem_pair.1 htext with rfl | rfl
  · exact hreserved
  · exact absurd (hname.mem_nameChars hx) hout

/-- No token before tables and columns derives an identifier that is not reserved. -/
private theorem not_spells_name (hname : IsIdentifier name) (hfree : Text.uppercase name ∉ reserved) (hk : kind < 15) :
    ¬ (harmonySqlOver tables columns).Spells kind name.toList := by
  rintro ⟨t, hget, hd⟩
  have hmem : t ∈ nameless.tokens.take 15 := by
    rw [getElem?_tokens hk] at hget
    exact List.mem_iff_getElem?.2 ⟨kind, by rw [List.getElem?_take_of_lt hk, hget]⟩
  obtain ⟨c, cs, hcons, hchars⟩ := hname.exists_cons
  have havoids : ∀ {p : LexPattern}, avoids nameChars p = true →
      ¬ (harmonySqlOver tables columns).lexicalSystem.Derives [p] name.toList := by
    intro p hp hd
    rw [hcons] at hd
    exact not_viable_of_avoids hp (hchars c List.mem_cons_self) List.mem_cons_self ⟨[], hd⟩
  obtain ⟨hblanks, hcomma, hstar⟩ := avoids_others
  rw [take_tokens] at hmem
  rcases List.mem_append.1 hmem with hmem | hmem
  · rcases List.mem_append.1 hmem with hmem | hmem
    · rcases List.mem_cons.1 hmem with rfl | hmem
      · exact havoids hblanks hd
      · obtain ⟨word, hword, rfl⟩ := List.mem_map.1 hmem
        exact hfree (mem_reserved_of_caseless hword hname hd)
    · obtain ⟨⟨word, sign⟩, hword, rfl⟩ := List.mem_map.1 hmem
      exact hfree (mem_reserved_of_comparison hword hname hd)
  · rcases List.mem_pair.1 hmem with rfl | rfl
    · exact havoids hcomma hd
    · exact havoids hstar hd

/-- The kind of token that a name is read as. -/
private def nameKind (tables : List String) (name : String) : TokenKind := if name ∈ tables then 15 else 16

/-- A name together with the kind that it is read as. -/
private def nameWord (tables : List String) (name : String) : TokenKind × String := (nameKind tables name, name)

private theorem nameKind_ne_zero (tables : List String) (name : String) : nameKind tables name ≠ 0 := by
  unfold nameKind
  split <;> decide

/-- A name is closed by a blank or a comma. -/
private theorem closes_name (ht : IsVocabulary tables) (hc : IsVocabulary columns)
    (hname : name ∈ tables ∨ name ∈ columns) (hy : y = ' ' ∨ y = ',') :
    (harmonySqlOver tables columns).Closes (nameKind tables name) name.toList y := by
  have hidentifier : IsIdentifier name := hname.elim (ht.identifier name) (hc.identifier name)
  have hfree : Text.uppercase name ∉ reserved := hname.elim (ht.free name) (hc.free name)
  have hspells : (harmonySqlOver tables columns).Spells (nameKind tables name) name.toList := by
    unfold nameKind
    split
    · rename_i htable
      exact ⟨_, rfl, derives_literals_iff.2 ⟨name, htable, rfl⟩⟩
    · rename_i htable
      exact ⟨_, rfl, derives_literals_iff.2 ⟨name, hname.resolve_left htable, rfl⟩⟩
  have hlowest : ∀ kind', (harmonySqlOver tables columns).Spells kind' name.toList → nameKind tables name ≤ kind' := by
    intro kind' hs
    have hle : 15 ≤ kind' := Nat.le_of_not_lt fun hlt => not_spells_name hidentifier hfree hlt hs
    unfold nameKind
    split
    · exact hle
    · rename_i htable
      refine Nat.lt_of_le_of_ne hle ?_
      rintro rfl
      obtain ⟨t, hk, hd⟩ := hs
      cases hk
      obtain ⟨text, htext, heq⟩ := derives_literals_iff.1 hd
      exact htable (String.toList_injective heq ▸ htext)
  obtain ⟨c, cs, hcons, hchars⟩ := hidentifier.exists_cons
  rw [hcons] at hspells hlowest ⊢
  have hcname : c ∈ nameChars := hchars c List.mem_cons_self
  exact closes_of_apart ht hc (apart_name hcname hy).1 hspells hlowest

/-! ### The grammar -/

/-- The tokens can be resolved, with few states, and match no empty text. -/
private theorem nameless_bodies : nameless.tokens.all (fun t => t.body.refFree && !t.body.nullable &&
    (resolveLexical nameless.lexicalNames t.name t.body).toOption.any fun p =>
      p.refFree && decide (p.stateCount ≤ 202)) = true := by
  decide +kernel

private theorem not_derives_nilOver (ht : IsVocabulary tables) (hc : IsVocabulary columns)
    (hmem : t ∈ (harmonySqlOver tables columns).tokens) :
    ¬ (harmonySqlOver tables columns).lexicalSystem.Derives [t.body] [] := by
  rcases mem_tokens ht hc hmem with hmem | ⟨names, hnames, hbody⟩
  · have hspec := List.all_eq_true.1 nameless_bodies t hmem
    simp only [Bool.and_eq_true, Bool.not_eq_true', ← Pattern.allRefFree_singleton] at hspec
    obtain ⟨⟨hfree, hnullable⟩, -⟩ := hspec
    rw [RuleSystem.derives_nil_iff_allNullable hfree, Pattern.allNullable, hnullable]
    exact Bool.false_ne_true
  · rw [hbody, derives_literals_iff]
    rintro ⟨name, hname, hnil⟩
    obtain ⟨c, cs, hcons, -⟩ := (hnames.identifier name hname).exists_cons
    rw [hcons] at hnil
    cases hnil

/-- Each token is resolved to a pattern of which few states are met at a time. -/
private theorem exists_resolved_crowds (ht : IsVocabulary tables) (hc : IsVocabulary columns)
    (hmem : t ∈ (harmonySqlOver tables columns).tokens) :
    ∃ p, resolveLexical nameless.lexicalNames t.name t.body = .ok p ∧ Network.Crowds 202 p := by
  rcases mem_tokens ht hc hmem with hmem | ⟨names, hnames, hbody⟩
  · have hspec := List.all_eq_true.1 nameless_bodies t hmem
    simp only [Bool.and_eq_true] at hspec
    obtain ⟨p, hp, hfree⟩ := except_exists_of_any (A := ResolvedPattern Char Text.CharSet)
      (p := fun p => p.refFree = true ∧ p.stateCount ≤ 202) (by simpa using hspec.2)
    exact ⟨p, hp, .any hfree.1 hfree.2⟩
  · have hlength := hnames.length_le
    rw [hbody, resolveLexical_literals]
    refine ⟨_, rfl, .words _ ?_⟩
    rw [List.length_map]
    omega

/-- The lexical network can be built, and few of its states are met at a time. -/
private theorem exists_lexicalOver (ht : IsVocabulary tables) (hc : IsVocabulary columns) :
    ∃ net pace, (harmonySqlOver tables columns).buildLexical = .ok net ∧ net.Paced pace ∧
      (∀ k < 20, pace[2 * k]? = some (some 0)) ∧ ∀ n, Network.width pace n < 100000 := by
  have hbodies : ∀ x ∈ (harmonySqlOver tables columns).lexicalBodies,
      ∃ p, resolveLexical nameless.lexicalNames x.1 x.2 = .ok p ∧ Network.Crowds 202 p := by
    intro x hx
    rcases List.mem_append.1 hx with hx | hx
    · obtain ⟨t, hmem, rfl⟩ := List.mem_map.1 hx
      exact exists_resolved_crowds ht hc hmem
    · cases hx
  obtain ⟨ps, hps, hcrowds⟩ := exists_resolveBodies_eq_ok hbodies
  have hlength : ps.length = 20 := (length_of_resolveBodies hps).symm
  have hnames : nameless.lexicalNames.length = 20 := rfl
  obtain ⟨pace, hpaced, hstarts, hwidth⟩ :=
    Network.exists_paced_layOutBodies nameless.lexicalNames hcrowds (Nat.le_of_eq (hlength.trans hnames.symm))
  refine ⟨_, pace, ?_, hpaced, fun k hk => hstarts k (hnames ▸ hk), fun n => ?_⟩
  · have htokens : checkDistinct .duplicateToken [] (nameless.tokens.map (·.name)) = .ok () := by cbv
    unfold buildLexical
    simp only [except_bind_eq_ok]
    exact ⟨(), htokens, (), rfl, ps, hps, rfl⟩
  · have hle := hwidth n
    rw [hlength, hnames] at hle
    omega

/-- Where the first column is read. -/
private def columnsOf (net : PhraseNetwork) : List Configuration := net.advance {} [.initial 0] [1, 15, 2]

/-- Where further columns are read. -/
private def moreColumnsOf (net : PhraseNetwork) : List Configuration := net.advance {} (columnsOf net) [16, 13]

/-- Only columns are read as columns; the statement can end behind each of them, and behind a comma there is another. -/
private def ReadsColumns (net : PhraseNetwork) : Prop :=
  ∀ configs ∈ [columnsOf net, moreColumnsOf net], net.advance {} configs [15] = [] ∧
    (net.closure {} (net.advance {} configs [16])).acceptsEnd = true ∧
      net.advance {} configs [16, 13] = moreColumnsOf net

private instance (net : PhraseNetwork) : Decidable (ReadsColumns net) :=
  inferInstanceAs (Decidable (∀ configs ∈ [columnsOf net, moreColumnsOf net], net.advance {} configs [15] = [] ∧
    (net.closure {} (net.advance {} configs [16])).acceptsEnd = true ∧
      net.advance {} configs [16, 13] = moreColumnsOf net))

/-- The phrase network does not depend on the vocabulary. -/
private theorem exists_phraseOver (tables columns : List String) :
    ∃ net, (harmonySqlOver tables columns).buildPhrase = .ok net ∧ ReadsColumns net := by
  have h : ∃ net, nameless.buildPhrase = .ok net ∧ ReadsColumns net := except_exists_of_any (by cbv)
  exact h

/-- The sample grammar can be built over any vocabulary, and no scan is cut short. -/
private theorem exists_grammarOver (ht : IsVocabulary tables) (hc : IsVocabulary columns) :
    ∃ g, (harmonySqlOver tables columns).build = .ok g ∧ (∀ cs, (g.scan {} cs).stats.Complete) ∧
      ReadsColumns g.phrase ∧ g.startRule = 0 := by
  obtain ⟨lexical, pace, hl, hpaced, hstarts, hwidth⟩ := exists_lexicalOver ht hc
  obtain ⟨phrase, hp, hcolumns⟩ := exists_phraseOver tables columns
  have hstart : (nameless.rules.map (·.1)).idxOf? "statement" = some 0 := by cbv
  obtain ⟨g, hg, rfl, rfl, hrule⟩ := exists_build_eq_ok (d := harmonySqlOver tables columns) rfl hl hp hstart
    fun t hmem => not_derives_nilOver ht hc hmem
  refine ⟨g, hg, fun cs => ?_, hcolumns, hrule⟩
  exact Grammar.complete_scan_of_paced (built_of_build hg) hpaced hstarts (by decide) hwidth cs

/-! ### Statements -/

/-- Behind some columns, each with a comma, further columns are read. -/
private theorem advance_before {net : PhraseNetwork} (h : ReadsColumns net) (before : List String)
    {configs : List Configuration} (hconfigs : configs ∈ [columnsOf net, moreColumnsOf net]) :
    net.advance {} configs (before.flatMap fun _ => [16, 13]) ∈ [columnsOf net, moreColumnsOf net] := by
  induction before generalizing configs with
  | nil => exact hconfigs
  | cons name before ih =>
    obtain ⟨-, -, hmore⟩ := h configs hconfigs
    rw [List.flatMap_cons, Network.advance_append, hmore]
    exact ih (List.mem_pair.2 (Or.inr rfl))

/-- Behind these columns the statement can end with another one, and cannot go on with a table. -/
private theorem advance_columns {net : PhraseNetwork} (h : ReadsColumns net) (before : List String) :
    net.advance {} [.initial 0] ([1, 15, 2] ++ before.flatMap fun _ => [16, 13]) ≠ [] ∧
    net.advance {} [.initial 0] ([1, 15, 2] ++ (before.flatMap fun _ => [16, 13]) ++ [15]) = [] ∧
    (net.closure {} (net.advance {} [.initial 0]
      ([1, 15, 2] ++ (before.flatMap fun _ => [16, 13]) ++ [16]))).acceptsEnd = true := by
  obtain ⟨htable, hcolumn, -⟩ := h _ (advance_before h before (List.mem_pair.2 (Or.inl rfl)))
  have hend : (net.closure {} (net.advance {} [.initial 0]
      ([1, 15, 2] ++ (before.flatMap fun _ => [16, 13]) ++ [16]))).acceptsEnd = true := by
    rw [Network.advance_append, Network.advance_append]
    exact hcolumn
  refine ⟨Network.advance_ne_nil_of_append (Network.ne_nil_of_acceptsEnd hend), ?_, hend⟩
  rw [Network.advance_append, Network.advance_append]
  exact htable

/-- A last blank is dropped. -/
private theorem munches_blank : (harmonySqlOver tables columns).Munches [' '] 0 1 := by
  have hword : (0, " ") ∈ fixedWords := by decide
  refine ⟨⟨Nat.one_pos, Nat.le_refl 1, (spells_word hword).1⟩, fun kind n hm => ?_⟩
  rcases Nat.lt_or_eq_of_le hm.2.1 with hlt | rfl
  · exact Or.inl hlt
  · exact Or.inr ⟨rfl, Nat.zero_le kind⟩

/-- The words that a statement is read as. -/
private def statementWords (tables : List String) (table : String) (chosen : List String) :
    List (TokenKind × String) :=
  (1, "FROM") :: (15, table) :: (2, "SELECT") :: (chosen.map (nameWord tables)).intersperse (13, ",")

private theorem exists_intersperse_append {A : Type} (separator : A) (l : List A) (a : A) (l' : List A) :
    ∃ rest, (l ++ a :: l').intersperse separator = l.flatMap (fun b => [b, separator]) ++ a :: rest ∧
      (l' = [] → rest = []) := by
  induction l with
  | nil =>
    cases l' with
    | nil => exact ⟨[], rfl, id⟩
    | cons b l' => exact ⟨separator :: (b :: l').intersperse separator, rfl, nofun⟩
  | cons b l ih =>
    obtain ⟨rest, hrest, hnil⟩ := ih
    obtain ⟨c, cs, hcons⟩ := List.exists_cons_of_ne_nil (List.append_ne_nil_of_right_ne_nil l (List.cons_ne_nil a l'))
    refine ⟨rest, ?_, hnil⟩
    rw [List.cons_append, hcons, List.intersperse_cons_cons, ← hcons, hrest]
    rfl

/-- The words up to the first column that could be a table. -/
private theorem exists_statementWords (table : String) {before : List String} (hbefore : ∀ c ∈ before, c ∉ tables)
    (name : String) (after : List String) :
    ∃ read rest, statementWords tables table (before ++ name :: after) = read ++ nameWord tables name :: rest ∧
      (after = [] → rest = []) ∧ read.length = 3 + 2 * before.length ∧
      read.map (·.1) = [1, 15, 2] ++ before.flatMap fun _ => [16, 13] := by
  obtain ⟨rest, hrest, hnil⟩ := exists_intersperse_append (13, ",") (before.map (nameWord tables))
    (nameWord tables name) (after.map (nameWord tables))
  refine ⟨(1, "FROM") :: (15, table) :: (2, "SELECT") :: (before.map (nameWord tables)).flatMap fun b => [b, (13, ",")],
    rest, ?_, fun hafter => hnil (by rw [hafter, List.map_nil]), ?_, ?_⟩
  · rw [statementWords, List.map_append, List.map_cons, hrest]
    rfl
  · have hpairs : ((before.map (nameWord tables)).flatMap fun b => [b, (13, ",")]).length = 2 * before.length := by
      simp [List.length_flatMap, Function.comp_def, Nat.mul_comm]
    rw [List.length_cons, List.length_cons, List.length_cons, hpairs]
    omega
  · rw [List.map_cons, List.map_cons, List.map_cons, List.map_flatMap, List.flatMap_map]
    refine congrArg ([1, 15, 2] ++ ·) (List.flatMap_congr fun c hc => ?_)
    rw [nameWord, nameKind, if_neg (hbefore c hc)]
    rfl

section Composing

variable (ht : IsVocabulary tables) (hc : IsVocabulary columns) {rest : List Char} {read : List (TokenKind × String)}
include ht hc

private theorem composed_blank (hx : Apart ' ' x) (h : (harmonySqlOver tables columns).Composed (x :: rest) read) :
    (harmonySqlOver tables columns).Composed (' ' :: x :: rest) read :=
  .dropped (u := [' ']) (closes_word ht hc 0 " " (by decide) rfl hx) ⟨_, rfl, rfl⟩ h

/-- Between two names a separator is read as a comma. -/
private theorem exists_composed_separator {separator : String} (hs : separator ∈ separators) (hx : x ∈ nameChars)
    (h : (harmonySqlOver tables columns).Composed (x :: rest) read) :
    ∃ y rest', separator.toList ++ x :: rest = y :: rest' ∧ (y = ' ' ∨ y = ',') ∧
      (harmonySqlOver tables columns).Composed (y :: rest') ((13, ",") :: read) := by
  have hcomma : ∀ {x rest}, Apart ',' x → (harmonySqlOver tables columns).Composed (x :: rest) read →
      (harmonySqlOver tables columns).Composed (',' :: x :: rest) ((13, ",") :: read) := by
    intro x rest hx h
    have hkept := Composed.kept (closes_word ht hc 13 "," (by decide) rfl hx) (not_skips (by decide)) h
    exact hkept
  have hblank := composed_blank ht hc (apart_name hx (Or.inl rfl)).2 h
  have hdirect := hcomma (apart_name hx (Or.inr rfl)).2 h
  have hspaced := hcomma (by decide) hblank
  have hlist : separator = "," ∨ separator = " ," ∨ separator = ", " ∨ separator = " , " := by
    simpa [separators] using hs
  rcases hlist with rfl | rfl | rfl | rfl
  · exact ⟨_, _, rfl, Or.inr rfl, hdirect⟩
  · exact ⟨_, _, rfl, Or.inl rfl, composed_blank ht hc (by decide) hdirect⟩
  · exact ⟨_, _, rfl, Or.inr rfl, hspaced⟩
  · exact ⟨_, _, rfl, Or.inl rfl, composed_blank ht hc (by decide) hspaced⟩

/-- The end of a statement is composed of the columns and the separators. -/
private theorem exists_composed_columns {separator : String} (hs : separator ∈ separators) {chosen : List String}
    (hchosen : ∀ name ∈ chosen, name ∈ columns) (hne : chosen ≠ []) :
    ∃ x rest, (separator.intercalate chosen ++ " ").toList = x :: rest ∧ x ∈ nameChars ∧
      (harmonySqlOver tables columns).Composed (x :: rest) ((chosen.map (nameWord tables)).intersperse (13, ",")) := by
  induction chosen with
  | nil => exact absurd rfl hne
  | cons name chosen ih =>
    obtain ⟨hname, hrest⟩ := List.forall_mem_cons.1 hchosen
    obtain ⟨c, cs, hcons, hchars⟩ := (hc.identifier name hname).exists_cons
    have hkept : ∀ {y rest read}, y = ' ' ∨ y = ',' → (harmonySqlOver tables columns).Composed (y :: rest) read →
        (harmonySqlOver tables columns).Composed (c :: (cs ++ y :: rest)) (nameWord tables name :: read) := by
      intro y rest read hy h
      rw [← List.cons_append, ← hcons]
      exact .kept (closes_name ht hc (Or.inr hname) hy) (not_skips (nameKind_ne_zero tables name)) h
    cases chosen with
    | nil =>
      refine ⟨c, cs ++ [' '], ?_, hchars c List.mem_cons_self, ?_⟩
      · rw [String.intercalate_singleton, String.toList_append, hcons]
        rfl
      · exact hkept (Or.inl rfl) (.ending munches_blank ⟨_, rfl, rfl⟩)
    | cons next chosen =>
      obtain ⟨x, rest, hlist, hx, hcomposed⟩ := ih hrest (List.cons_ne_nil _ _)
      obtain ⟨y, rest', hsep, hy, hcomposed⟩ := exists_composed_separator ht hc hs hx hcomposed
      refine ⟨c, cs ++ y :: rest', ?_, hchars c List.mem_cons_self, hkept hy hcomposed⟩
      rw [String.intercalate_cons_cons, String.append_assoc, String.append_assoc, String.toList_append,
        String.toList_append, hlist, hsep, hcons]
      rfl

private theorem composed_statement {table separator : String} (htable : table ∈ tables) (hs : separator ∈ separators)
    {chosen : List String} (hchosen : ∀ name ∈ chosen, name ∈ columns) (hne : chosen ≠ []) :
    (harmonySqlOver tables columns).Composed (statement table separator chosen).toList
      (statementWords tables table chosen) := by
  obtain ⟨x, rest, hlist, hx, hcolumns⟩ := exists_composed_columns ht hc hs hchosen hne
  obtain ⟨c, cs, hcons, hchars⟩ := (ht.identifier table htable).exists_cons
  have hblank := composed_blank ht hc (apart_name hx (Or.inl rfl)).2 hcolumns
  have hselect := Composed.kept (closes_word ht hc 2 "SELECT" (by decide) rfl (by decide)) (not_skips (by decide))
    hblank
  have hname := Composed.kept (closes_name ht hc (Or.inl htable) (Or.inl rfl))
    (not_skips (nameKind_ne_zero tables table)) (composed_blank ht hc (by decide) hselect)
  rw [nameKind, if_pos htable, hcons] at hname
  have hfrom := Composed.kept (closes_word ht hc 1 "FROM" (by decide) rfl (by decide)) (not_skips (by decide))
    (composed_blank ht hc (apart_name (hchars c List.mem_cons_self) (Or.inl rfl)).2 hname)
  have htext : (statement table separator chosen).toList =
      "FROM ".toList ++ (c :: cs ++ (" SELECT ".toList ++ x :: rest)) := by
    rw [statement, String.append_assoc, String.append_assoc, String.append_assoc, String.toList_append,
      String.toList_append, String.toList_append, hcons, hlist]
  rw [htext]
  exact hfrom

end Composing

section Requests

variable (ht : IsVocabulary tables) (hc : IsVocabulary columns) {g : Grammar}
  (hg : (harmonySqlOver tables columns).build = .ok g) (hz : ∀ cs, (g.scan {} cs).stats.Complete)
  (hreads : ReadsColumns g.phrase) (hrule : g.startRule = 0) {table separator : String} (htable : table ∈ tables)
  (hs : separator ∈ separators) (case : CasePreference)
include ht hc hg hz hreads hrule htable hs

/-- A statement is accepted if no column could be a table. -/
private theorem exists_report_of_statement {chosen : List String} (hne : chosen ≠ [])
    (hchosen : ∀ name ∈ chosen, name ∈ columns) (hapart : ∀ name ∈ chosen, name ∉ tables) :
    ∃ report, g.suggest ⟨case, {}⟩ (statement table separator chosen) = .ok report ∧
      report.unfinished = none ∧ report.acceptsEnd = true := by
  obtain ⟨before, name, rfl⟩ := (List.eq_nil_or_concat' chosen).resolve_left hne
  obtain ⟨hbefore, hname⟩ := List.forall_mem_append.1 hapart
  obtain ⟨read, rest, hwords, hrest, -, hkinds⟩ := exists_statementWords table hbefore name []
  have hcomposed := composed_statement ht hc htable hs hchosen hne
  rw [hwords, hrest rfl] at hcomposed
  obtain ⟨-, -, hend⟩ := advance_columns hreads before
  have hkind : (nameWord tables name).1 = 16 := if_neg (hname name List.mem_cons_self)
  have hadvance : g.phrase.advance {} [.initial (2 * g.startRule)] ((read ++ [nameWord tables name]).map (·.1)) =
      g.phrase.advance {} [.initial 0] ([1, 15, 2] ++ (before.flatMap fun _ => [16, 13]) ++ [16]) := by
    rw [hrule, List.map_append, hkinds, List.map_singleton, hkind]
  obtain ⟨report, hreport, hunfinished, haccepts⟩ := hcomposed.exists_report (built_of_build hg) ⟨case, {}⟩ hz
    (hadvance ▸ Network.ne_nil_of_acceptsEnd hend)
  exact ⟨report, hreport, hunfinished, by rw [haccepts, hadvance, hend]⟩

/-- The first column that could be a table is read as one and reported. -/
private theorem suggest_statement_eq_error (before : List String) (name : String) (after : List String)
    (hchosen : ∀ c ∈ before ++ name :: after, c ∈ columns) (hbefore : ∀ c ∈ before, c ∉ tables)
    (hname : name ∈ tables) : g.suggest ⟨case, {}⟩ (statement table separator (before ++ name :: after)) =
      .error (.noViableParse ⟨3 + 2 * before.length, name, "TABLE_NAME"⟩) := by
  obtain ⟨read, rest, hwords, -, hlength, hkinds⟩ := exists_statementWords table hbefore name after
  have hne : before ++ name :: after ≠ [] := List.append_ne_nil_of_right_ne_nil before (List.cons_ne_nil name after)
  have hcomposed := composed_statement ht hc htable hs hchosen hne
  rw [hwords, nameWord] at hcomposed
  obtain ⟨hread, hstuck, -⟩ := advance_columns hreads before
  have hkind : nameKind tables name = 15 := if_pos hname
  have hdisplay : g.displayName 15 = "TABLE_NAME" := by
    unfold Grammar.displayName
    rw [(built_of_build hg).tokens]
    rfl
  rw [hcomposed.suggest_eq_error (built_of_build hg) ⟨case, {}⟩ hz (by rwa [hrule, hkinds])
    (by rwa [hrule, hkinds, hkind]), hlength, hkind, hdisplay]

end Requests

/-- The sample grammar can be built over any tables and columns.  A statement that selects columns of a table is
accepted, and complete, unless one of the columns is also a table: the first such name is read as a table, and it is
reported that there is no parse. -/
theorem harmonySqlOver_accepts (ht : IsVocabulary tables) (hc : IsVocabulary columns) :
    ∃ g, (harmonySqlOver tables columns).build = .ok g ∧
      ∀ table ∈ tables, ∀ chosen : List String, chosen ≠ [] → (∀ name ∈ chosen, name ∈ columns) →
        ∀ separator ∈ separators, ∀ case : CasePreference,
          ((∀ name ∈ chosen, name ∉ tables) → ∃ report,
            g.suggest ⟨case, {}⟩ (statement table separator chosen) = .ok report ∧
              report.unfinished = none ∧ report.acceptsEnd = true) ∧
          ((∃ name ∈ chosen, name ∈ tables) → ∃ before name after,
            chosen = before ++ name :: after ∧ (∀ c ∈ before, c ∉ tables) ∧ name ∈ tables ∧
              g.suggest ⟨case, {}⟩ (statement table separator chosen) =
                .error (.noViableParse ⟨3 + 2 * before.length, name, "TABLE_NAME"⟩)) := by
  obtain ⟨g, hg, hz, hreads, hrule⟩ := exists_grammarOver ht hc
  refine ⟨g, hg, fun table htable chosen hne hchosen separator hs case => ⟨fun hapart => ?_, fun hshared => ?_⟩⟩
  · exact exists_report_of_statement ht hc hg hz hreads hrule htable hs case hne hchosen hapart
  · have hsome : (chosen.find? fun name => decide (name ∈ tables)).isSome = true := by simpa using hshared
    obtain ⟨name, hfind⟩ := Option.isSome_iff_exists.1 hsome
    obtain ⟨hname, before, after, rfl, hbefore⟩ := List.find?_eq_some_iff_append.1 hfind
    have hbefore' : ∀ c ∈ before, c ∉ tables := fun c hc => by simpa using hbefore c hc
    refine ⟨before, name, after, rfl, hbefore', of_decide_eq_true hname, ?_⟩
    exact suggest_statement_eq_error ht hc hg hz hreads hrule htable hs case before name after hchosen hbefore'
      (of_decide_eq_true hname)

private theorem isVocabulary_a : IsVocabulary ["a"] where
  length_le := by decide
  identifier := List.forall_mem_singleton.2 ⟨'a', [], rfl, by decide, nofun⟩
  free := by
    have hupper : Text.uppercase "a" = "A" := by cbv
    rw [List.forall_mem_singleton, hupper]
    decide

private theorem isVocabulary_bc : IsVocabulary ["b", "c1"] where
  length_le := by decide
  identifier := List.forall_mem_cons.2 ⟨⟨'b', [], rfl, by decide, nofun⟩, List.forall_mem_singleton.2
    ⟨'c', ['1'], rfl, by decide, List.forall_mem_singleton.2 (List.mem_append_right letters (by decide))⟩⟩
  free := by
    have hb : Text.uppercase "b" = "B" := by cbv
    have hc : Text.uppercase "c1" = "C1" := by cbv
    rw [List.forall_mem_cons, List.forall_mem_singleton, hb, hc]
    decide

/-- Two columns of a table are selected. -/
theorem harmonySqlOver_accepts_two_columns : ∃ g, (harmonySqlOver ["a"] ["b", "c1"]).build = .ok g ∧
    ∃ report, g.suggest {} "FROM a SELECT b , c1 " = .ok report ∧ report.unfinished = none ∧
      report.acceptsEnd = true := by
  obtain ⟨g, hg, haccepts⟩ := harmonySqlOver_accepts isVocabulary_a isVocabulary_bc
  obtain ⟨hreport, -⟩ :=
    haccepts "a" (by decide) ["b", "c1"] (by decide) (fun _ hname => hname) " , " (by decide) .asIs
  exact ⟨g, hg, hreport (by decide)⟩

/-- A column that has the name of a table cannot be selected. -/
theorem harmonySqlOver_rejects_shared_name : IsVocabulary ["a"] ∧ ∃ g, (harmonySqlOver ["a"] ["a"]).build = .ok g ∧
    g.suggest {} "FROM a SELECT a " = .error (.noViableParse ⟨3, "a", "TABLE_NAME"⟩) := by
  obtain ⟨g, hg, hz, hreads, hrule⟩ := exists_grammarOver isVocabulary_a isVocabulary_a
  have ha : "a" ∈ ["a"] := by decide
  have hcomma : "," ∈ separators := by decide
  refine ⟨isVocabulary_a, g, hg, ?_⟩
  exact suggest_statement_eq_error isVocabulary_a isVocabulary_a hg hz hreads hrule ha hcomma .asIs [] "a" []
    (fun _ hname => hname) nofun ha

end Typeahead.Sample
