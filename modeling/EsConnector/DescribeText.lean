import EsConnector.ArrowSanitizer

namespace EsConnector
set_option autoImplicit true

/-- The words of `_ARROW_HOSTILE_RE`. -/
def hostileTokens : List String := ["variant", "interval"]

/-- A token stands between two parts of a text: it is no part of a longer word. -/
structure WordAt (pre : List Char) (token : String) (post : List Char) : Prop where
  token : token ∈ hostileTokens
  before : ∀ b ∈ pre.getLast?, identifierChar b = false
  after : ∀ c ∈ post.head?, identifierChar c = false

theorem token_identifier {token : String} (h : token ∈ hostileTokens) :
    ∀ c ∈ token.toList, identifierChar c = true := by
  have hall : ∀ token ∈ hostileTokens, ∀ c ∈ token.toList, identifierChar c = true := by decide
  exact hall token h

theorem token_ne_nil {token : String} (h : token ∈ hostileTokens) : token.toList ≠ [] := by
  have hall : ∀ token ∈ hostileTokens, token.toList ≠ [] := by decide
  exact hall token h

theorem hostileAt_iff {cs : List Char} : hostileAt cs = true ↔
    ∃ token post, token ∈ hostileTokens ∧ cs = token.toList ++ post ∧
      ∀ c ∈ post.head?, identifierChar c = false ∧ c ≠ ':' := by
  simp only [hostileAt, List.any_eq_true, Bool.and_eq_true, List.isPrefixOf_iff_prefix]
  constructor
  · rintro ⟨token, htoken, ⟨post, rfl⟩, hafter⟩
    refine ⟨token, post, htoken, rfl, ?_⟩
    intro c hc
    rw [← String.length_toList, List.drop_left, hc] at hafter
    simpa using hafter
  · rintro ⟨token, post, htoken, rfl, hafter⟩
    refine ⟨token, htoken, List.prefix_append _ _, ?_⟩
    rw [← String.length_toList, List.drop_left]
    cases hc : post.head? with
    | none => rfl
    | some c => simpa using hafter c hc

/-- The search finds a token that is a word of its own and has no colon behind it. -/
theorem searchHostile_iff {before : Option Char} {cs : List Char} :
    searchHostile before cs = true ↔ ∃ pre token post, token ∈ hostileTokens ∧
      cs = pre ++ token.toList ++ post ∧
      (∀ b ∈ pre.getLast?.or before, identifierChar b = false) ∧
      ∀ c ∈ post.head?, identifierChar c = false ∧ c ≠ ':' := by
  induction cs generalizing before with
  | nil =>
    apply iff_of_false Bool.false_ne_true
    rintro ⟨pre, token, post, htoken, hcs, -⟩
    have hnil := List.append_eq_nil_iff.mp (List.append_eq_nil_iff.mp hcs.symm).1
    exact token_ne_nil htoken hnil.2
  | cons c rest ih =>
    rw [searchHostile, Bool.or_eq_true, Bool.and_eq_true, hostileAt_iff, ih]
    constructor
    · rintro (⟨hbefore, token, post, htoken, hcs, hafter⟩ | ⟨pre, token, post, htoken, rfl, hpre, hafter⟩)
      · refine ⟨[], token, post, htoken, hcs, fun b hb => ?_, hafter⟩
        have hb : before = some b := hb
        simpa [hb] using hbefore
      · refine ⟨c :: pre, token, post, htoken, rfl, ?_, hafter⟩
        rw [List.getLast?_cons]
        intro b hb
        apply hpre b
        cases hl : pre.getLast? <;> simp_all
    · rintro ⟨pre, token, post, htoken, hcs, hpre, hafter⟩
      cases pre with
      | nil =>
        refine .inl ⟨?_, token, post, htoken, hcs, hafter⟩
        cases before with
        | none => rfl
        | some b => simpa using hpre b rfl
      | cons a pre =>
        obtain ⟨rfl, rfl⟩ := List.cons.inj hcs
        refine .inr ⟨pre, token, post, htoken, rfl, ?_, hafter⟩
        rw [List.getLast?_cons] at hpre
        intro b hb
        apply hpre b
        cases hl : pre.getLast? <;> simp_all

section Separators

variable {s : Char}

theorem prefix_of_separator {token a b : List Char} (hs : s ∉ token)
    (h : token <+: a ++ s :: b) : token <+: a := by
  induction a generalizing token with
  | nil =>
    cases token with
    | nil => exact List.nil_prefix
    | cons c token =>
      obtain ⟨rfl, -⟩ := List.cons_prefix_cons.mp h
      exact absurd List.mem_cons_self hs
  | cons x a ih =>
    cases token with
    | nil => exact List.nil_prefix
    | cons c token =>
      obtain ⟨rfl, hrest⟩ := List.cons_prefix_cons.mp h
      have hfree : s ∉ token := fun hm => hs (List.mem_cons_of_mem _ hm)
      exact List.cons_prefix_cons.mpr ⟨rfl, ih hfree hrest⟩

theorem hostileAt_before (hs : identifierChar s = false) {a b : List Char} :
    hostileAt (a ++ s :: b) = true ↔ ∃ token rest, token ∈ hostileTokens ∧ a = token.toList ++ rest ∧
      ∀ c ∈ (rest ++ [s]).head?, identifierChar c = false ∧ c ≠ ':' := by
  rw [hostileAt_iff]
  constructor
  · rintro ⟨token, post, htoken, hcs, hafter⟩
    have hfree : s ∉ token.toList := by
      intro hmem
      rw [token_identifier htoken s hmem] at hs
      cases hs
    obtain ⟨rest, rfl⟩ := prefix_of_separator hfree ⟨post, hcs.symm⟩
    rw [List.append_assoc] at hcs
    obtain rfl := List.append_cancel_left hcs
    refine ⟨token, rest, htoken, rfl, ?_⟩
    cases rest <;> exact hafter
  · rintro ⟨token, rest, htoken, rfl, hafter⟩
    refine ⟨token, rest ++ s :: b, htoken, List.append_assoc .., ?_⟩
    cases rest <;> exact hafter

theorem hostileAt_separator (hs : identifierChar s = false) (a b : List Char) :
    hostileAt (a ++ s :: b) = hostileAt (a ++ [s]) := by
  rw [Bool.eq_iff_iff, hostileAt_before hs, hostileAt_before hs]

theorem searchHostile_separator (hs : identifierChar s = false) (before : Option Char)
    (a b : List Char) : searchHostile before (a ++ s :: b) =
      (searchHostile before (a ++ [s]) || searchHostile none b) := by
  induction a generalizing before with
  | nil =>
    have hat : hostileAt (s :: b) = hostileAt [s] := hostileAt_separator hs [] b
    have hnext : searchHostile (some s) b = searchHostile none b := by
      cases b with
      | nil => rfl
      | cons c b => simp only [searchHostile, Option.all_some, Option.all_none, hs, Bool.not_false]
    simp only [List.nil_append, searchHostile, hat, hnext, Bool.or_false]
  | cons c a ih =>
    rw [List.cons_append, List.cons_append, searchHostile, searchHostile, ih, Bool.or_assoc]
    have hat := hostileAt_separator hs (c :: a) b
    rw [List.cons_append, List.cons_append] at hat
    rw [hat]

theorem hostileAt_end (hs : identifierChar s = false) (hcolon : s ≠ ':') (a : List Char) :
    hostileAt (a ++ [s]) = hostileAt a := by
  rw [Bool.eq_iff_iff, hostileAt_before hs, hostileAt_iff]
  constructor
  · rintro ⟨token, rest, htoken, ha, hafter⟩
    refine ⟨token, rest, htoken, ha, ?_⟩
    intro c hc
    apply hafter c
    rw [List.head?_append, hc]
    rfl
  · rintro ⟨token, rest, htoken, ha, hafter⟩
    refine ⟨token, rest, htoken, ha, ?_⟩
    intro c hc
    cases rest with
    | nil =>
      cases hc
      exact ⟨hs, hcolon⟩
    | cons x rest => exact hafter c hc

theorem searchHostile_end (hs : identifierChar s = false) (hcolon : s ≠ ':')
    (before : Option Char) (a : List Char) :
    searchHostile before (a ++ [s]) = searchHostile before a := by
  induction a generalizing before with
  | nil =>
    have hat : hostileAt [s] = false := hostileAt_end hs hcolon []
    simp only [List.nil_append, searchHostile, hat, Bool.and_false, Bool.or_self]
  | cons c a ih =>
    have hat := hostileAt_end hs hcolon (c :: a)
    rw [List.cons_append] at hat
    rw [List.cons_append, searchHostile, searchHostile, ih, hat]

theorem searchHostile_parts (hs : identifierChar s = false) (hcolon : s ≠ ':')
    (a b : List Char) : searchHostile none (a ++ s :: b) =
      (searchHostile none a || searchHostile none b) := by
  rw [searchHostile_separator hs, searchHostile_end hs hcolon]

end Separators

/-- `str.lower`. -/
def lowered (s : String) : List Char := s.toList.flatMap pyLower

theorem lowered_append (s t : String) : lowered (s ++ t) = lowered s ++ lowered t := by
  rw [lowered, String.toList_append, List.flatMap_append]
  rfl

theorem typeIsArrowHostile_eq (s : String) : typeIsArrowHostile s = searchHostile none (lowered s) :=
  rfl

mutual

/-- The types at the leaves of a type. -/
def leafTypes : SparkType → List AtomicType
  | .atomic t => [t]
  | .array element => leafTypes element
  | .map key value => leafTypes key ++ leafTypes value
  | .struct fields => leafTypesOf fields

def leafTypesOf : Schema → List AtomicType
  | [] => []
  | (_, dt) :: fields => leafTypes dt ++ leafTypesOf fields

end

mutual

/-- The names of the struct fields within a type, those of map keys included. -/
def namesWithin : SparkType → List String
  | .atomic _ => []
  | .array element => namesWithin element
  | .map key value => namesWithin key ++ namesWithin value
  | .struct fields => namesWithinOf fields

def namesWithinOf : Schema → List String
  | [] => []
  | (name, dt) :: fields => name :: namesWithin dt ++ namesWithinOf fields

end

/-- What the search finds of a type: the name of a leaf, or a field name before its colon. -/
def foundWithin (leaves : List AtomicType) (names : List String) : Bool :=
  leaves.any (fun t => typeIsArrowHostile t.simpleString) ||
    names.any fun n => typeIsArrowHostile (n ++ ":")

theorem foundWithin_append (leaves leaves' : List AtomicType) (names names' : List String) :
    foundWithin (leaves ++ leaves') (names ++ names') =
      (foundWithin leaves names || foundWithin leaves' names') := by
  simp only [foundWithin, List.any_append]
  ac_rfl

theorem typeIsArrowHostile_parts {s : String} {c : Char} (hc : lowered s = [c])
    (hident : identifierChar c = false) (hcolon : c ≠ ':') (a b : String) :
    typeIsArrowHostile (a ++ s ++ b) = (typeIsArrowHostile a || typeIsArrowHostile b) := by
  simp only [typeIsArrowHostile_eq, lowered_append, hc, List.append_assoc, List.singleton_append]
  exact searchHostile_parts hident hcolon _ _

theorem typeIsArrowHostile_field (name text : String) : typeIsArrowHostile (name ++ ":" ++ text) =
    (typeIsArrowHostile (name ++ ":") || typeIsArrowHostile text) := by
  have hcolon : lowered ":" = [':'] := by decide
  simp only [typeIsArrowHostile_eq, lowered_append, hcolon, List.append_assoc,
    List.singleton_append]
  exact searchHostile_separator (by decide) none _ _

theorem typeIsArrowHostile_fields {fields : Schema}
    (h : ∀ f ∈ fields, typeIsArrowHostile f.2.simpleString =
      foundWithin (leafTypes f.2) (namesWithin f.2)) :
    typeIsArrowHostile (",".intercalate (fieldStrings fields)) =
      foundWithin (leafTypesOf fields) (namesWithinOf fields) := by
  induction fields with
  | nil => decide
  | cons f fields ih =>
    obtain ⟨name, dt⟩ := f
    have hfield : typeIsArrowHostile (name ++ ":" ++ dt.simpleString) =
        foundWithin (leafTypes dt) (name :: namesWithin dt) := by
      rw [typeIsArrowHostile_field, h (name, dt) List.mem_cons_self]
      simp only [foundWithin, List.any_cons]
      ac_rfl
    have hfields := ih fun f hf => h f (List.mem_cons_of_mem _ hf)
    rw [leafTypesOf, namesWithinOf, foundWithin_append, ← hfield, ← hfields, fieldStrings]
    cases fields with
    | nil =>
      rw [fieldStrings, String.intercalate_singleton, String.intercalate_nil]
      exact (Bool.or_false _).symm
    | cons f' fields =>
      obtain ⟨name', dt'⟩ := f'
      rw [fieldStrings, String.intercalate_cons_cons]
      exact typeIsArrowHostile_parts (c := ',') (by decide) (by decide) (by decide) _ _

/-- A container shows what is between its brackets. -/
theorem typeIsArrowHostile_brackets {front : String} {letters : List Char} (text : String)
    (hfront : lowered front = letters ++ ['<']) (hletters : searchHostile none letters = false) :
    typeIsArrowHostile (front ++ text ++ ">") = typeIsArrowHostile text := by
  have hback : lowered ">" = ['>'] := by decide
  simp only [typeIsArrowHostile_eq, lowered_append, hfront, hback, List.append_assoc,
    List.singleton_append]
  rw [List.cons_append, searchHostile_parts (by decide) (by decide), hletters, Bool.false_or,
    searchHostile_end (by decide) (by decide)]

/-- The text of a type tests as hostile exactly if the name of a leaf does, or a field name with its
colon. -/
theorem typeIsArrowHostile_text (dt : SparkType) : typeIsArrowHostile dt.simpleString =
    foundWithin (leafTypes dt) (namesWithin dt) := by
  induction dt with
  | atomic t => simp [SparkType.simpleString, leafTypes, namesWithin, foundWithin]
  | array element ih =>
    have hfront : lowered "array<" = "array".toList ++ ['<'] := by decide
    rw [SparkType.simpleString, typeIsArrowHostile_brackets _ hfront (by decide), ih]
    rfl
  | map key value ihk ihv =>
    have hfront : lowered "map<" = "map".toList ++ ['<'] := by decide
    have hpair : typeIsArrowHostile (key.simpleString ++ "," ++ value.simpleString) =
        (typeIsArrowHostile key.simpleString || typeIsArrowHostile value.simpleString) :=
      typeIsArrowHostile_parts (c := ',') (by decide) (by decide) (by decide) _ _
    rw [SparkType.simpleString, @String.append_assoc "map<", @String.append_assoc "map<",
      typeIsArrowHostile_brackets _ hfront (by decide), hpair, ihk, ihv, leafTypes, namesWithin,
      foundWithin_append]
  | struct fields ih =>
    have hfront : lowered "struct<" = "struct".toList ++ ['<'] := by decide
    rw [SparkType.simpleString, typeIsArrowHostile_brackets _ hfront (by decide),
      typeIsArrowHostile_fields ih]
    rfl

/-- The type is neither VARIANT nor an INTERVAL: neither word is in its name. -/
def AtomicType.Innocent (t : AtomicType) : Prop :=
  ∀ name, t = .other name → ∀ token ∈ hostileTokens, ∀ pre post,
    lowered name = pre ++ token.toList ++ post → ¬WordAt pre token post

/-- A field name has one of the tokens as a word, and goes on behind it with something other than a
colon. -/
def TokenInside (name : String) : Prop :=
  ∃ pre token c post, lowered name = pre ++ token.toList ++ c :: post ∧
    WordAt pre token (c :: post) ∧ c ≠ ':'

theorem AtomicType.Innocent.not_hostile {t : AtomicType} (h : t.Innocent) :
    typeIsArrowHostile t.simpleString = false := by
  by_cases ht : ∃ name, t = .other name
  · obtain ⟨name, rfl⟩ := ht
    apply Bool.eq_false_iff.mpr
    intro hfound
    rw [typeIsArrowHostile_eq, searchHostile_iff] at hfound
    obtain ⟨pre, token, post, htoken, hcs, hpre, hafter⟩ := hfound
    refine h name rfl token htoken pre post hcs ⟨htoken, fun b hb => hpre b ?_, fun c hc =>
      (hafter c hc).1⟩
    rw [hb]
    rfl
  · exact not_hostile_of_named fun name hname => ht ⟨name, hname⟩

theorem tokenInside_iff {name : String} :
    TokenInside name ↔ typeIsArrowHostile (name ++ ":") = true := by
  have hcolon : lowered ":" = [':'] := by decide
  rw [typeIsArrowHostile_eq, lowered_append, hcolon, searchHostile_iff]
  constructor
  · rintro ⟨pre, token, c, post, hcs, hword, hc⟩
    refine ⟨pre, token, c :: post ++ [':'], hword.token, ?_, fun b hb => hword.before b ?_, ?_⟩
    · rw [hcs, List.append_assoc _ (c :: post)]
    · rwa [Option.or_none] at hb
    · intro c' hc'
      cases hc'
      exact ⟨hword.after c rfl, hc⟩
  · rintro ⟨pre, token, post, htoken, hcs, hpre, hafter⟩
    rw [Option.or_none] at hpre
    rcases List.eq_nil_or_concat post with rfl | ⟨post, last, rfl⟩
    · -- the last letter of a token is no colon
      have hlast := congrArg List.getLast? hcs
      rw [List.append_nil, List.getLast?_concat,
        List.getLast?_append_of_ne_nil _ (token_ne_nil htoken)] at hlast
      have hmem := List.mem_of_getLast? hlast.symm
      have hident := token_identifier htoken ':' hmem
      cases hident
    · rw [List.concat_eq_append] at hafter
      rw [List.concat_eq_append, ← List.append_assoc] at hcs
      obtain ⟨hname, hend⟩ := List.append_inj' hcs rfl
      cases hend
      cases post with
      | nil => exact absurd rfl (hafter ':' rfl).2
      | cons c post =>
        have hc := hafter c rfl
        exact ⟨pre, token, c, post, hname, ⟨htoken, hpre, fun c' hc' => by cases hc'; exact hc.1⟩,
          hc.2⟩

instance (name : String) : Decidable (TokenInside name) := decidable_of_iff' _ tokenInside_iff

theorem foundWithin_names {leaves : List AtomicType} {names : List String}
    (h : ∀ t ∈ leaves, t.Innocent) :
    foundWithin leaves names = false ↔ ∀ n ∈ names, ¬TokenInside n := by
  have hleaves : leaves.any (fun t => typeIsArrowHostile t.simpleString) = false :=
    List.any_eq_false.mpr fun t ht => Bool.eq_false_iff.mp (h t ht).not_hostile
  simp only [foundWithin, hleaves, Bool.false_or, List.any_eq_false, tokenInside_iff]

/-- A type without VARIANT and INTERVAL tests as not hostile, and its columns are left alone, exactly
if none of its field names has a token inside. -/
theorem innocent_untouched_iff {dt : SparkType} (h : ∀ t ∈ leafTypes dt, t.Innocent) :
    (typeIsArrowHostile dt.simpleString = false ∧
      ∀ (schema : Schema) (name : String), ¬Sanitized schema (name, dt)) ↔
      ∀ n ∈ namesWithin dt, ¬TokenInside n := by
  rw [← foundWithin_names h, ← typeIsArrowHostile_text]
  constructor
  · exact And.left
  · intro hclean
    refine ⟨hclean, ?_⟩
    intro schema name hsanitized
    rw [hsanitized.hostile] at hclean
    cases hclean

/-- Names that have the tokens as parts of longer words, or at their ends. -/
def pollingType : SparkType :=
  .struct [("polling_interval", .atomic .int),
    ("my interval", .map (.atomic .string) (.struct [("variant", .atomic .double)]))]

theorem pollingType_untouched : typeIsArrowHostile pollingType.simpleString = false := by
  have hleaves : ∀ t ∈ leafTypes pollingType, t.Innocent := by
    intro t ht name hname
    subst hname
    simp [pollingType, leafTypes, leafTypesOf] at ht
  exact ((innocent_untouched_iff hleaves).mpr (by decide)).1

/-- A field name with a token before a hyphen makes a hostile type of a struct of strings. -/
theorem variantId_hostile : (∀ t ∈ leafTypes (.struct [("variant-id", .atomic .string)]), t.Innocent) ∧
    typeIsArrowHostile (SparkType.struct [("variant-id", .atomic .string)]).simpleString = true ∧
    Sanitized [("product", .struct [("variant-id", .atomic .string)])]
      ("product", .struct [("variant-id", .atomic .string)]) := by
  refine ⟨fun t ht name hname => ?_, by decide, by decide⟩
  subst hname
  simp [leafTypes, leafTypesOf] at ht

end EsConnector
