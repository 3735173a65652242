import Mathlib.Data.List.Basic

set_option autoImplicit true

/-- A JSON value. `F` is the type of the numbers with a fraction or an exponent. -/
inductive Json (F : Type) where
  | null
  | bool (b : Bool)
  | int (i : Int)
  | float (x : F)
  | str (s : String)
  | list (xs : List (Json F))
  | dict (items : List (String × Json F))

namespace Json

/-- What holds of all characters of a text is decided along the text. -/
instance (priority := high) decidableForallChar (p : Char → Prop) [DecidablePred p]
    (cs : List Char) : Decidable (∀ c ∈ cs, p c) := List.decidableBAll p cs

variable {F : Type}

def quote : Char := Char.ofNat 34

def backslash : Char := Char.ofNat 92

def openBrace : Char := Char.ofNat 123

def closeBrace : Char := Char.ofNat 125

/-- The characters of numbers, `null`, `true` and `false`. -/
def wordChar (c : Char) : Bool := c.isAlphanum || c == '.' || c == '-' || c == '+'

def natOf (cs : List Char) : Option Nat :=
  if cs ≠ [] ∧ cs.all Char.isDigit then some (Nat.ofDigitChars 10 cs 0) else none

def intOf : List Char → Option Int
  | [] => none
  | c :: cs => if c = '-' then (natOf cs).map fun (n : Nat) => -(n : Int) else (natOf (c :: cs)).map Int.ofNat

def intText (i : Int) : List Char :=
  if i < 0 then '-' :: Nat.toDigits 10 i.natAbs else Nat.toDigits 10 i.natAbs

/-- How the numbers that are not integers are written. -/
class FloatText (F : Type) where
  print : F → List Char
  parse : List Char → Option F
  parse_print : ∀ x, parse (print x) = some x
  wordChars : ∀ x, ∀ c ∈ print x, wordChar c = true
  not_word : ∀ x, print x ∉ [[], "null".toList, "true".toList, "false".toList]
  not_int : ∀ x, intOf (print x) = none

/-- The characters under 32 are written in hexadecimal. -/
def hexDigit (n : Nat) : Char := if n < 10 then Char.ofNat (48 + n) else Char.ofNat (87 + n)

def hexValue (c : Char) : Option Nat :=
  if c.isDigit then some (c.toNat - 48)
  else if 'a' ≤ c ∧ c ≤ 'f' then some (c.toNat - 87)
  else none

def escapeChar (c : Char) : List Char :=
  if c = quote ∨ c = backslash then [backslash, c]
  else if c.toNat < 32 then
    [backslash, 'u', '0', '0', hexDigit (c.toNat / 16), hexDigit (c.toNat % 16)]
  else [c]

def printString (s : String) : List Char :=
  quote :: s.toList.flatMap escapeChar ++ [quote]

/-- The part of a string after its opening quote, and what follows it. -/
def unescape : List Char → Option (List Char × List Char)
  | [] => none
  | c :: rest =>
    if c = quote then some ([], rest)
    else if c = backslash then
      match rest with
      | [] => none
      | d :: rest =>
        if d = 'u' then
          match rest with
          | h₃ :: h₂ :: h₁ :: h₀ :: rest => do
            let n := (← hexValue h₃) * 4096 + (← hexValue h₂) * 256 + (← hexValue h₁) * 16 +
              (← hexValue h₀)
            let (cs, rest) ← unescape rest
            return (Char.ofNat n :: cs, rest)
          | _ => none
        else if d = quote ∨ d = backslash then do
          let (cs, rest) ← unescape rest
          return (d :: cs, rest)
        else none
    else do
      let (cs, rest) ← unescape rest
      return (c :: cs, rest)

def parseString : List Char → Option (String × List Char)
  | [] => none
  | c :: rest =>
    if c = quote then (unescape rest).map fun (cs, rest) => (String.ofList cs, rest) else none

section Text

variable [FloatText F]

mutual

/-- The text of a value, without blanks. -/
def print : Json F → List Char
  | .null => "null".toList
  | .bool true => "true".toList
  | .bool false => "false".toList
  | .int i => intText i
  | .float x => FloatText.print x
  | .str s => printString s
  | .list [] => ['[', ']']
  | .list (x :: xs) => '[' :: print x ++ printMore xs
  | .dict [] => [openBrace, closeBrace]
  | .dict ((k, v) :: items) => openBrace :: printString k ++ ':' :: print v ++ printMoreFields items

def printMore : List (Json F) → List Char
  | [] => [']']
  | x :: xs => ',' :: print x ++ printMore xs

def printMoreFields : List (String × Json F) → List Char
  | [] => [closeBrace]
  | (k, v) :: items => ',' :: printString k ++ ':' :: print v ++ printMoreFields items

end

/-- The value of a word. -/
def wordValue (w : List Char) : Option (Json F) :=
  if w = "null".toList then some .null
  else if w = "true".toList then some (.bool true)
  else if w = "false".toList then some (.bool false)
  else match intOf w with
  | some i => some (.int i)
  | none => (FloatText.parse w).map .float

mutual

/-- The value at the front of a text, and what follows it. -/
def parseValue : Nat → List Char → Option (Json F × List Char)
  | 0, _ => none
  | _ + 1, [] => none
  | fuel + 1, c :: rest =>
    if c = quote then (unescape rest).map fun (cs, rest) => (.str (String.ofList cs), rest)
    else if c = '[' then
      if rest.head? = some ']' then some (.list [], rest.tail)
      else do
        let (x, rest) ← parseValue fuel rest
        let (xs, rest) ← parseMore fuel rest
        return (.list (x :: xs), rest)
    else if c = openBrace then
      if rest.head? = some closeBrace then some (.dict [], rest.tail)
      else do
        let (item, rest) ← parseField fuel rest
        let (items, rest) ← parseMoreFields fuel rest
        return (.dict (item :: items), rest)
    else (wordValue ((c :: rest).takeWhile wordChar)).map fun v => (v, (c :: rest).dropWhile wordChar)

def parseMore : Nat → List Char → Option (List (Json F) × List Char)
  | 0, _ => none
  | _ + 1, [] => none
  | fuel + 1, c :: rest =>
    if c = ']' then some ([], rest)
    else if c = ',' then do
      let (x, rest) ← parseValue fuel rest
      let (xs, rest) ← parseMore fuel rest
      return (x :: xs, rest)
    else none

def parseField : Nat → List Char → Option ((String × Json F) × List Char)
  | 0, _ => none
  | fuel + 1, cs => do
    let (k, rest) ← parseString cs
    if rest.head? = some ':' then
      let (v, rest) ← parseValue fuel rest.tail
      return ((k, v), rest)
    else none

def parseMoreFields : Nat → List Char → Option (List (String × Json F) × List Char)
  | 0, _ => none
  | _ + 1, [] => none
  | fuel + 1, c :: rest =>
    if c = closeBrace then some ([], rest)
    else if c = ',' then do
      let (item, rest) ← parseField fuel rest
      let (items, rest) ← parseMoreFields fuel rest
      return (item :: items, rest)
    else none

end

/-- The value of a whole text. -/
def parse (text : List Char) : Option (Json F) :=
  match parseValue text.length text with
  | some (v, []) => some v
  | _ => none

end Text

theorem natOf_toDigits (n : Nat) : natOf (Nat.toDigits 10 n) = some n := by
  have hne : Nat.toDigits 10 n ≠ [] := Nat.toDigits_ne_nil
  have hall : (Nat.toDigits 10 n).all Char.isDigit = true :=
    List.all_eq_true.mpr fun c hc => Nat.isDigit_of_mem_toDigits (by decide) (by decide) hc
  rw [natOf, if_pos ⟨hne, hall⟩, Nat.ofDigitChars_ten_toDigits]

theorem intOf_intText (i : Int) : intOf (intText i) = some i := by
  by_cases hi : i < 0
  · rw [intText, if_pos hi, intOf, if_pos rfl, natOf_toDigits, Option.map_some]
    congr 1
    omega
  · rw [intText, if_neg hi]
    cases hdigits : Nat.toDigits 10 i.natAbs with
    | nil => exact absurd hdigits Nat.toDigits_ne_nil
    | cons c cs =>
      have hc : c.isDigit = true := Nat.isDigit_of_mem_toDigits (by decide) (by decide)
        (hdigits ▸ List.mem_cons_self : c ∈ Nat.toDigits 10 i.natAbs)
      have hminus : c ≠ '-' := by
        intro rfl
        cases hc
      rw [intOf, if_neg hminus, ← hdigits, natOf_toDigits, Option.map_some]
      congr 1
      simp only [Int.ofNat_eq_natCast]
      omega

theorem hexValue_hexDigit : ∀ n < 16, hexValue (hexDigit n) = some n := by decide

theorem unescape_plain {c : Char} (hquote : c ≠ quote) (hbackslash : c ≠ backslash)
    (rest : List Char) :
    unescape (c :: rest) = (unescape rest).bind fun p => some (c :: p.1, p.2) := by
  rw [unescape.eq_def]
  dsimp only
  rw [if_neg hquote, if_neg hbackslash]
  rfl

theorem unescape_escaped {c : Char} (hc : c = quote ∨ c = backslash) (rest : List Char) :
    unescape (backslash :: c :: rest) = (unescape rest).bind fun p => some (c :: p.1, p.2) := by
  have hu : c ≠ 'u' := by
    intro rfl
    revert hc
    decide
  rw [unescape.eq_def]
  dsimp only
  rw [if_neg (by decide), if_pos rfl, if_neg hu, if_pos hc]
  rfl

theorem unescape_control {c : Char} (hc : c.toNat < 32) (rest : List Char) :
    unescape (backslash :: 'u' :: '0' :: '0' :: hexDigit (c.toNat / 16) ::
      hexDigit (c.toNat % 16) :: rest) = (unescape rest).bind fun p => some (c :: p.1, p.2) := by
  rw [unescape.eq_def]
  dsimp only
  rw [if_neg (by decide), if_pos rfl, if_pos rfl, hexValue_hexDigit _ (by omega),
    hexValue_hexDigit _ (by omega)]
  have hzero : hexValue '0' = some 0 := by decide
  have hchar : Char.ofNat (0 * 4096 + 0 * 256 + c.toNat / 16 * 16 + c.toNat % 16) = c := by
    rw [show 0 * 4096 + 0 * 256 + c.toNat / 16 * 16 + c.toNat % 16 = c.toNat by omega,
      Char.ofNat_toNat]
  simp only [hzero, Option.bind_eq_bind, Option.bind_some, hchar]
  rfl

/-- A character is read back from the way it is written in a string. -/
theorem unescape_escapeChar (c : Char) (rest : List Char) :
    unescape (escapeChar c ++ rest) =
      (unescape rest).bind fun p => some (c :: p.1, p.2) := by
  rw [escapeChar]
  split
  · rename_i hc
    exact unescape_escaped hc rest
  · rename_i hplain
    split
    · rename_i hc
      exact unescape_control hc rest
    · exact unescape_plain (fun h => hplain (.inl h)) (fun h => hplain (.inr h)) rest

theorem unescape_flatMap (cs rest : List Char) :
    unescape (cs.flatMap escapeChar ++ quote :: rest) = some (cs, rest) := by
  induction cs with
  | nil =>
    rw [List.flatMap_nil, List.nil_append, unescape.eq_def]
    exact if_pos rfl
  | cons c cs ih =>
    rw [List.flatMap_cons, List.append_assoc, unescape_escapeChar, ih]
    rfl

theorem parseString_printString (s : String) (rest : List Char) :
    parseString (printString s ++ rest) = some (s, rest) := by
  have hbody := unescape_flatMap s.toList rest
  simp only [printString, List.cons_append, List.append_assoc, List.nil_append, parseString, if_true,
    hbody, Option.map_some, String.ofList_toList]

section RoundTrip

variable [FloatText F]

/-- What follows a value does not go on with a word. -/
def Delimited (rest : List Char) : Prop := ∀ c ∈ rest.head?, wordChar c = false

theorem delimited_cons {c : Char} (hc : wordChar c = false) (rest : List Char) :
    Delimited (c :: rest) := by
  intro d hd
  cases hd
  exact hc

/-- A text that is a word, and its value. -/
structure IsWord (w : List Char) (v : Json F) : Prop where
  chars : ∀ c ∈ w, wordChar c = true
  value : wordValue w = some v
  ne_nil : w ≠ []

theorem parseValue_word {w : List Char} {v : Json F} (hw : IsWord w v) {fuel : Nat}
    (hfuel : w.length ≤ fuel) {rest : List Char} (hrest : Delimited rest) :
    parseValue fuel (w ++ rest) = some (v, rest) := by
  obtain ⟨c, cs, rfl⟩ := List.exists_cons_of_ne_nil hw.ne_nil
  obtain ⟨fuel, rfl⟩ : ∃ n, fuel = n + 1 := ⟨fuel - 1, by simp at hfuel; omega⟩
  have hc := hw.chars c List.mem_cons_self
  have hnot (d : Char) (hd : wordChar d = false) : c ≠ d := by
    intro rfl
    rw [hc] at hd
    cases hd
  have htake : (c :: (cs ++ rest)).takeWhile wordChar = c :: cs := by
    rw [← List.cons_append, List.takeWhile_append_of_pos hw.chars]
    cases rest with
    | nil => simp
    | cons d rest => rw [List.takeWhile_cons, hrest d rfl]; simp
  have hdrop : (c :: (cs ++ rest)).dropWhile wordChar = rest := by
    rw [← List.cons_append, List.dropWhile_append_of_pos hw.chars]
    cases rest with
    | nil => rfl
    | cons d rest => rw [List.dropWhile_cons, hrest d rfl]; simp
  rw [List.cons_append, parseValue, if_neg (hnot _ (by decide)), if_neg (hnot _ (by decide)),
    if_neg (hnot _ (by decide)), htake, hdrop, hw.value]
  rfl

theorem isWord_null : IsWord "null".toList (.null : Json F) := ⟨by decide, rfl, by decide⟩

theorem isWord_true : IsWord "true".toList (.bool true : Json F) := ⟨by decide, rfl, by decide⟩

theorem isWord_false : IsWord "false".toList (.bool false : Json F) := ⟨by decide, rfl, by decide⟩

theorem isWord_int (i : Int) : IsWord (intText i) (.int i : Json F) := by
  have hdigit (c) (hc : c ∈ Nat.toDigits 10 i.natAbs) : wordChar c = true := by
    have := Nat.isDigit_of_mem_toDigits (by decide) (by decide) hc
    simp [wordChar, Char.isAlphanum, this]
  have hne (w : List Char) (hw : intOf w = none) : intText i ≠ w := by
    intro rfl
    rw [intOf_intText] at hw
    cases hw
  refine ⟨?_, ?_, hne [] rfl⟩
  · intro c hc
    rw [intText] at hc
    split at hc
    · rcases List.mem_cons.mp hc with rfl | hc
      · decide
      · exact hdigit c hc
    · exact hdigit c hc
  · rw [wordValue, if_neg (hne _ (by decide)), if_neg (hne _ (by decide)), if_neg (hne _ (by decide)),
      intOf_intText]

theorem isWord_float (x : F) : IsWord (FloatText.print x) (.float x) := by
  obtain ⟨hnil, hnull, htrue, hfalse⟩ : FloatText.print x ≠ [] ∧ FloatText.print x ≠ "null".toList ∧
      FloatText.print x ≠ "true".toList ∧ FloatText.print x ≠ "false".toList := by
    simpa using FloatText.not_word x
  refine ⟨FloatText.wordChars x, ?_, hnil⟩
  rw [wordValue, if_neg hnull, if_neg htrue, if_neg hfalse, FloatText.not_int, FloatText.parse_print,
    Option.map_some]

omit [FloatText F] in
/-- Induction on a value, where an array has the hypothesis for its elements and an object for its
values. -/
@[elab_as_elim]
theorem induct {P : Json F → Prop} (null : P .null) (bool : ∀ b, P (.bool b)) (int : ∀ i, P (.int i))
    (float : ∀ x, P (.float x)) (str : ∀ s, P (.str s)) (list : ∀ xs, (∀ x ∈ xs, P x) → P (.list xs))
    (dict : ∀ items : List (String × Json F), (∀ e ∈ items, P e.2) → P (.dict items)) (j : Json F) :
    P j :=
  @Json.rec F P (fun xs => ∀ x ∈ xs, P x) (fun items => ∀ e ∈ items, P e.2) (fun e => P e.2)
    null bool int float str list dict (fun _ h => nomatch h)
    (fun _ _ hx hxs => List.forall_mem_cons.mpr ⟨hx, hxs⟩) (fun _ h => nomatch h)
    (fun _ _ he hes => List.forall_mem_cons.mpr ⟨he, hes⟩) (fun _ _ h => h) j

/-- A value is read back from the front of a text. -/
def Reads (j : Json F) : Prop :=
  ∀ fuel rest, (print j).length ≤ fuel → Delimited rest → parseValue fuel (print j ++ rest) = some (j, rest)

theorem delimited_more (xs : List (Json F)) (rest : List Char) :
    Delimited (printMore xs ++ rest) := by
  cases xs <;> exact delimited_cons (by decide) _

theorem parseMore_printMore {xs : List (Json F)} (h : ∀ x ∈ xs, Reads x) (fuel : Nat)
    (rest : List Char) (hfuel : (printMore xs).length ≤ fuel) :
    parseMore fuel (printMore xs ++ rest) = some (xs, rest) := by
  induction xs generalizing fuel with
  | nil =>
    obtain ⟨fuel, rfl⟩ : ∃ n, fuel = n + 1 := ⟨fuel - 1, by simp [printMore] at hfuel; omega⟩
    rw [printMore, List.singleton_append, parseMore, if_pos rfl]
  | cons x xs ih =>
    rw [printMore, List.cons_append, List.length_cons, List.length_append] at hfuel
    obtain ⟨fuel, rfl⟩ : ∃ n, fuel = n + 1 := ⟨fuel - 1, by omega⟩
    have hdelim := delimited_more xs rest
    rw [printMore, List.cons_append, List.cons_append, parseMore, if_neg (by decide), if_pos rfl,
      List.append_assoc, h x List.mem_cons_self fuel _ (by omega) hdelim]
    simp only [Option.bind_eq_bind, Option.bind_some]
    rw [ih (fun x hx => h x (List.mem_cons_of_mem _ hx)) fuel (by omega)]
    rfl

theorem printString_length (s : String) : 2 ≤ (printString s).length := by
  simp [printString]

theorem parseField_print {k : String} {v : Json F} (hv : Reads v) {fuel : Nat}
    (hfuel : (print v).length < fuel) {rest : List Char} (hrest : Delimited rest) :
    parseField fuel (printString k ++ ':' :: (print v ++ rest)) = some ((k, v), rest) := by
  obtain ⟨fuel, rfl⟩ : ∃ n, fuel = n + 1 := ⟨fuel - 1, by omega⟩
  rw [parseField, parseString_printString]
  simp only [Option.bind_eq_bind, Option.bind_some, List.head?_cons, if_true, List.tail_cons]
  rw [hv fuel rest (by omega) hrest]
  rfl

theorem delimited_moreFields (items : List (String × Json F)) (rest : List Char) :
    Delimited (printMoreFields items ++ rest) := by
  cases items with
  | nil => exact delimited_cons (by decide) _
  | cons e items =>
    rw [printMoreFields]
    exact delimited_cons (by decide) _

theorem parseMoreFields_print {items : List (String × Json F)} (h : ∀ e ∈ items, Reads e.2)
    (fuel : Nat) (rest : List Char) (hfuel : (printMoreFields items).length ≤ fuel) :
    parseMoreFields fuel (printMoreFields items ++ rest) = some (items, rest) := by
  induction items generalizing fuel with
  | nil =>
    obtain ⟨fuel, rfl⟩ : ∃ n, fuel = n + 1 := ⟨fuel - 1, by simp [printMoreFields] at hfuel; omega⟩
    rw [printMoreFields, List.singleton_append, parseMoreFields, if_pos rfl]
  | cons e items ih =>
    obtain ⟨k, v⟩ := e
    have hkey := printString_length k
    simp only [printMoreFields, List.cons_append, List.append_assoc, List.length_cons,
      List.length_append] at hfuel
    obtain ⟨fuel, rfl⟩ : ∃ n, fuel = n + 1 := ⟨fuel - 1, by omega⟩
    simp only [printMoreFields, List.cons_append, List.append_assoc]
    rw [parseMoreFields, if_neg (by decide), if_pos rfl,
      parseField_print (v := v) (h (k, v) List.mem_cons_self) (by omega)
        (delimited_moreFields items rest)]
    simp only [Option.bind_eq_bind, Option.bind_some]
    rw [ih (fun e he => h e (List.mem_cons_of_mem _ he)) fuel (by omega)]
    rfl

theorem IsWord.head {w : List Char} {v : Json F} (hw : IsWord w v) :
    ∃ c cs, w = c :: cs ∧ c ≠ ']' := by
  obtain ⟨c, cs, rfl⟩ := List.exists_cons_of_ne_nil hw.ne_nil
  refine ⟨c, cs, rfl, ?_⟩
  intro rfl
  exact absurd (hw.chars _ List.mem_cons_self) (by decide)

/-- No value starts as an empty array ends. -/
theorem print_head (j : Json F) : ∃ c cs, print j = c :: cs ∧ c ≠ ']' := by
  cases j with
  | null => exact (isWord_null (F := F)).head
  | bool b =>
    cases b
    · exact (isWord_false (F := F)).head
    · exact (isWord_true (F := F)).head
  | int i => exact (isWord_int (F := F) i).head
  | float x => exact (isWord_float x).head
  | str s => exact ⟨quote, _, rfl, by decide⟩
  | list xs => cases xs <;> exact ⟨'[', _, rfl, by decide⟩
  | dict items =>
    cases items with
    | nil => exact ⟨openBrace, _, rfl, by decide⟩
    | cons e items => exact ⟨openBrace, _, by rw [print, List.cons_append, List.cons_append], by decide⟩

/-- Every value is read back from its text. -/
theorem reads (j : Json F) : Reads j := by
  induction j using induct with
  | null => exact fun fuel rest hfuel hrest => parseValue_word isWord_null hfuel hrest
  | bool b =>
    cases b
    · exact fun fuel rest hfuel hrest => parseValue_word isWord_false hfuel hrest
    · exact fun fuel rest hfuel hrest => parseValue_word isWord_true hfuel hrest
  | int i => exact fun fuel rest hfuel hrest => parseValue_word (isWord_int i) hfuel hrest
  | float x => exact fun fuel rest hfuel hrest => parseValue_word (isWord_float x) hfuel hrest
  | str s =>
    intro fuel rest hfuel _
    obtain ⟨fuel, rfl⟩ : ∃ n, fuel = n + 1 := ⟨fuel - 1, by simp [print, printString] at hfuel; omega⟩
    have hbody := unescape_flatMap s.toList rest
    simp only [print, printString, List.cons_append, List.append_assoc, List.nil_append, parseValue,
      if_true, hbody, Option.map_some, String.ofList_toList]
  | list xs ih =>
    intro fuel rest hfuel _
    cases xs with
    | nil =>
      obtain ⟨fuel, rfl⟩ : ∃ n, fuel = n + 1 := ⟨fuel - 1, by simp [print] at hfuel; omega⟩
      rfl
    | cons x xs =>
      rw [print, List.cons_append, List.length_cons, List.length_append] at hfuel
      obtain ⟨fuel, rfl⟩ : ∃ n, fuel = n + 1 := ⟨fuel - 1, by omega⟩
      obtain ⟨c, cs, hprint, hc⟩ := print_head x
      have hhead : (print x ++ (printMore xs ++ rest)).head? ≠ some ']' := by
        rw [hprint]
        simpa using hc
      rw [print, List.cons_append, List.cons_append, List.append_assoc, parseValue,
        if_neg (by decide), if_pos rfl, if_neg hhead,
        ih x List.mem_cons_self fuel _ (by omega) (delimited_more xs rest)]
      simp only [Option.bind_eq_bind, Option.bind_some]
      rw [parseMore_printMore (fun x hx => ih x (List.mem_cons_of_mem _ hx)) fuel rest (by omega)]
      rfl
  | dict items ih =>
    intro fuel rest hfuel _
    cases items with
    | nil =>
      obtain ⟨fuel, rfl⟩ : ∃ n, fuel = n + 1 := ⟨fuel - 1, by simp [print] at hfuel; omega⟩
      rfl
    | cons e items =>
      obtain ⟨k, v⟩ := e
      have hkey := printString_length k
      simp only [print, List.cons_append, List.append_assoc, List.length_cons,
        List.length_append] at hfuel
      obtain ⟨fuel, rfl⟩ : ∃ n, fuel = n + 1 := ⟨fuel - 1, by omega⟩
      simp only [print, List.cons_append, List.append_assoc]
      have hhead : (printString k ++ ':' :: (print v ++ (printMoreFields items ++ rest))).head? ≠
          some closeBrace := by
        rw [printString]
        simp only [List.cons_append, List.head?_cons]
        decide
      rw [parseValue, if_neg (by decide), if_neg (by decide), if_pos rfl, if_neg hhead,
        parseField_print (v := v) (ih (k, v) List.mem_cons_self) (by omega)
          (delimited_moreFields items rest)]
      simp only [Option.bind_eq_bind, Option.bind_some]
      rw [parseMoreFields_print (fun e he => ih e (List.mem_cons_of_mem _ he)) fuel rest (by omega)]
      rfl

theorem parse_print (j : Json F) : parse (print j) = some j := by
  have h := reads j (print j).length [] (Nat.le_refl _) nofun
  rw [List.append_nil] at h
  rw [parse, h]

theorem newline_not_mem_escapeChar (c : Char) : '\n' ∉ escapeChar c := by
  have hhex : ∀ n < 16, hexDigit n ≠ '\n' := by decide
  rw [escapeChar]
  split
  · rename_i hc
    rcases hc with rfl | rfl <;> decide
  · split
    · rename_i hc
      have h₁ := hhex (c.toNat / 16) (by omega)
      have h₀ := hhex (c.toNat % 16) (by omega)
      simp [h₁.symm, h₀.symm]
      decide
    · rename_i hc
      rw [List.mem_singleton]
      intro rfl
      exact hc (by decide)

theorem newline_not_mem_printString (s : String) : '\n' ∉ printString s := by
  have hbody : '\n' ∉ s.toList.flatMap escapeChar := fun h => by
    obtain ⟨c, -, hc⟩ := List.mem_flatMap.mp h
    exact newline_not_mem_escapeChar c hc
  simp only [printString, List.mem_append, List.mem_cons, hbody, List.not_mem_nil]
  decide

theorem IsWord.newline_not_mem {w : List Char} {v : Json F} (hw : IsWord w v) : '\n' ∉ w := fun h =>
  absurd (hw.chars _ h) (by decide)

theorem newline_not_mem_printMore {xs : List (Json F)} (h : ∀ x ∈ xs, '\n' ∉ print x) :
    '\n' ∉ printMore xs := by
  induction xs with
  | nil =>
    rw [printMore]
    decide
  | cons x xs ih =>
    have hx := h x List.mem_cons_self
    have hxs := ih fun x hx => h x (List.mem_cons_of_mem _ hx)
    simp only [printMore, List.cons_append, List.mem_cons, List.mem_append, hx, hxs]
    decide

theorem newline_not_mem_printMoreFields {items : List (String × Json F)}
    (h : ∀ e ∈ items, '\n' ∉ print e.2) : '\n' ∉ printMoreFields items := by
  induction items with
  | nil =>
    rw [printMoreFields]
    decide
  | cons e items ih =>
    have he := h e List.mem_cons_self
    have hitems := ih fun e he => h e (List.mem_cons_of_mem _ he)
    have hkey := newline_not_mem_printString e.1
    simp only [printMoreFields, List.cons_append, List.append_assoc, List.mem_cons, List.mem_append,
      he, hitems, hkey]
    decide

/-- The text of a value is a single line. -/
theorem newline_not_mem_print (j : Json F) : '\n' ∉ print j := by
  induction j using induct with
  | null => exact (isWord_null (F := F)).newline_not_mem
  | bool b =>
    cases b
    · exact (isWord_false (F := F)).newline_not_mem
    · exact (isWord_true (F := F)).newline_not_mem
  | int i => exact (isWord_int (F := F) i).newline_not_mem
  | float x => exact (isWord_float x).newline_not_mem
  | str s => exact newline_not_mem_printString s
  | list xs ih =>
    cases xs with
    | nil =>
      rw [print]
      decide
    | cons x xs =>
      have hx := ih x List.mem_cons_self
      have hxs := newline_not_mem_printMore fun x hx => ih x (List.mem_cons_of_mem _ hx)
      simp only [print, List.cons_append, List.mem_cons, List.mem_append, hx, hxs]
      decide
  | dict items ih =>
    cases items with
    | nil =>
      rw [print]
      decide
    | cons e items =>
      have he := ih e List.mem_cons_self
      have hitems := newline_not_mem_printMoreFields fun e he => ih e (List.mem_cons_of_mem _ he)
      have hkey := newline_not_mem_printString e.1
      obtain ⟨k, v⟩ := e
      simp only [print, List.cons_append, List.append_assoc, List.mem_cons, List.mem_append, he,
        hitems, hkey]
      decide

end RoundTrip

end Json
