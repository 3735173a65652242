import EsConnector.DocumentIds

namespace EsConnector
set_option autoImplicit true

open Calendar

section Digits

theorem digits_isDigit (n : Nat) : ∀ c ∈ Nat.toDigits 10 n, c.isDigit = true :=
  fun _ hc => Nat.isDigit_of_mem_toDigits (by decide) (by decide) hc

theorem decimalDigit_of_isDigit {c : Char} (h : c.isDigit = true) :
    decimalDigit c = some (c.toNat - '0'.toNat) := by
  have hrange : 48 ≤ c.toNat ∧ c.toNat < 48 + 10 := by
    obtain ⟨hlo, hhi⟩ := Char.isDigit_iff_toNat.mp h
    exact ⟨hlo, Nat.lt_succ_of_le hhi⟩
  rw [decimalDigit, decimalZeros, List.find?_cons_of_pos]
  · rfl
  · rw [decide_eq_true hrange.1, decide_eq_true hrange.2]
    rfl

theorem pyDigits_of_digits {cs : List Char} (hcs : ∀ c ∈ cs, c.isDigit = true) {afterDigit : Bool}
    (hsome : cs ≠ [] ∨ afterDigit = true) (acc : Nat) :
    pyDigits acc afterDigit cs = some (Nat.ofDigitChars 10 cs acc) := by
  induction cs generalizing acc afterDigit with
  | nil => simp_all [pyDigits]
  | cons c cs ih =>
    have hc := hcs c List.mem_cons_self
    have hplain : c ≠ '_' := by
      intro rfl
      cases hc
    rw [pyDigits, if_neg hplain, decimalDigit_of_isDigit hc]
    dsimp only
    rw [ih (fun c h => hcs c (List.mem_cons_of_mem _ h)) (.inr rfl), Nat.ofDigitChars_cons,
      Nat.mul_comm]

theorem pyDigits_toDigits (n : Nat) : pyDigits 0 false (Nat.toDigits 10 n) = some n := by
  rw [pyDigits_of_digits (digits_isDigit n) (.inl Nat.toDigits_ne_nil), Nat.ofDigitChars_ten_toDigits]

theorem intText_chars (i : Int) : ∀ c ∈ Json.intText i, c = '-' ∨ c.isDigit = true := by
  rw [Json.intText]
  split
  · exact List.forall_mem_cons.mpr ⟨.inl rfl, fun c hc => .inr (digits_isDigit _ c hc)⟩
  · exact fun c hc => .inr (digits_isDigit _ c hc)

theorem pyStrip_intText (i : Int) : pyStrip (Json.intText i) = Json.intText i := by
  have hchars (c : Char) (hc : c ∈ Json.intText i) : pyIsSpace c = false := by
    rcases intText_chars i c hc with rfl | hdigit
    · decide
    · exact isAlphanum_not_space (by rw [Char.isAlphanum, hdigit, Bool.or_true])
  apply pyStrip_of_ends
  · exact fun c hc => hchars c (List.mem_of_mem_head? hc)
  · exact fun c hc => hchars c (List.mem_of_mem_getLast? hc)

theorem pySign_intText (i : Int) : pySign (Json.intText i) = (decide (i < 0), Nat.toDigits 10 i.natAbs) := by
  rw [Json.intText]
  split
  · rename_i hi
    rw [pySign, decide_eq_true hi]
  · rename_i hi
    rw [decide_eq_false hi]
    cases hdigits : Nat.toDigits 10 i.natAbs with
    | nil => rfl
    | cons c cs =>
      have hc := digits_isDigit i.natAbs c (hdigits ▸ List.mem_cons_self)
      rw [pySign]
      · intro rest h
        obtain ⟨rfl, -⟩ := List.cons.inj h
        exact absurd hc (by decide)
      · intro rest h
        obtain ⟨rfl, -⟩ := List.cons.inj h
        exact absurd hc (by decide)

theorem applySign_natAbs (i : Int) : applySign (decide (i < 0)) i.natAbs = i := by
  rw [applySign]
  split
  · next hneg =>
    have hlt := of_decide_eq_true hneg
    omega
  · next hneg =>
    have hge := of_decide_eq_false (Bool.eq_false_iff.mpr hneg)
    omega

variable {F : Type}

theorem pyIntOfString_intText (i : Int) :
    (pyIntOfString (String.ofList (Json.intText i)) : Except (PyError F) Int) = .ok i := by
  rw [pyIntOfString, String.toList_ofList, pyStrip_intText, pySign_intText]
  dsimp only
  rw [pyDigits_toDigits]
  dsimp only
  rw [applySign_natAbs]

theorem unsignedDecimal_digits (negative : Bool) (n : Nat) :
    unsignedDecimal negative (Nat.toDigits 10 n) = some (.finite negative n 0) := by
  have hdigits : ∀ c ∈ Nat.toDigits 10 n, isDecimalDigit c = true := fun c hc => by
    rw [isDecimalDigit, decimalDigit_of_isDigit (digits_isDigit n c hc)]
    rfl
  have htake : (Nat.toDigits 10 n).takeWhile isDecimalDigit = Nat.toDigits 10 n :=
    List.takeWhile_eq_self_iff.mpr hdigits
  have hdrop : (Nat.toDigits 10 n).dropWhile isDecimalDigit = [] :=
    List.dropWhile_eq_nil_iff.mpr hdigits
  rw [unsignedDecimal]
  dsimp only
  rw [htake, hdrop]
  dsimp only
  rw [List.append_nil, pyDigits_toDigits]
  rfl

theorem pyDecimalOfString_intText (i : Int) :
    (pyDecimalOfString (String.ofList (Json.intText i)) : Except (PyError F) PyDecimal) =
      .ok (.finite (decide (i < 0)) i.natAbs 0) := by
  have hclean : ((Json.intText i).filter (· ≠ '_')).map Char.toLower = Json.intText i := by
    have hchars := intText_chars i
    rw [List.filter_eq_self.mpr]
    · refine (List.map_congr_left fun c hc => ?_).trans (List.map_id _)
      rcases hchars c hc with rfl | hdigit
      · rfl
      · exact toLower_digit hdigit
    · intro c hc
      rcases hchars c hc with rfl | hdigit
      · rfl
      · apply decide_eq_true
        intro rfl
        cases hdigit
  have hword {word : List Char} {c : Char} (hc : c ∈ word) (hletter : c.isDigit = false) :
      ¬word <+: Nat.toDigits 10 i.natAbs := fun hfront => by
    rw [digits_isDigit _ c (hfront.subset hc)] at hletter
    cases hletter
  have hne {word : List Char} {c : Char} (hc : c ∈ word) (hletter : c.isDigit = false) :
      Nat.toDigits 10 i.natAbs ≠ word := fun he => hword hc hletter (he ▸ List.prefix_rfl)
  rw [pyDecimalOfString, String.toList_ofList, pyStrip_intText]
  dsimp only
  rw [hclean, pySign_intText]
  dsimp only
  rw [if_neg (not_or.mpr ⟨hne (c := 'i') (by decide) rfl, hne (c := 'i') (by decide) rfl⟩),
    if_neg (hword (c := 'n') (by decide) rfl), if_neg (hword (c := 'n') (by decide) rfl),
    unsignedDecimal_digits]

end Digits

section CastText

/-- A number with leading zeros up to a width. -/
def padded (width : Nat) (i : Int) : List Char :=
  let digits := Nat.toDigits 10 i.natAbs
  List.replicate (width - digits.length) '0' ++ digits

def civilText (c : Civil) : List Char :=
  padded 4 c.year ++ '-' :: padded 2 c.month ++ '-' :: padded 2 c.day

/-- The microseconds of a second, without the zeros at their end. -/
def fractionText (micros : Int) : List Char :=
  if micros = 0 then [] else '.' :: (padded 6 micros).rdropWhile (· = '0')

def clockText (w : WallClock) : List Char :=
  civilText w.civil ++ ' ' :: padded 2 w.hour ++ ':' :: padded 2 w.minute ++
    ':' :: padded 2 (w.second / 1000000) ++ fractionText (w.second % 1000000)

example : String.ofList (clockText (.ofMicros (-1500000))) = "1969-12-31 23:59:58.5" := by decide

/-- The forms of `cast(... as string)`, for dates in the years 1 to 9999. -/
def castForm : AtomicType → SparkValue F → String
  | .string, .string s => s
  | .boolean, .boolean b => if b then "true" else "false"
  | .date, .date days => String.ofList (civilText (civilOfDays days))
  | .timestampNtz, .timestampNtz micros => String.ofList (clockText (.ofMicros micros))
  | .decimal _ 0, .decimal unscaled 0 => String.ofList (Json.intText unscaled)
  | _, .integral i => String.ofList (Json.intText i)
  | _, _ => ""

end CastText

variable {F : Type} [PyFloat F] {r : Resolver} {J : SparkFunctions F}
  {parse : String → Option (Json F)} {json : SparkType → SparkValue F → Json F}
  {cfg : EsWriteConfig} {schema : Schema} {name : String} {t : AtomicType}

/-- The types of ids that a read can declare. -/
def readableId : AtomicType → Bool
  | .decimal precision scale => 0 < precision && scale == 0
  | t => idType t

theorem idType_of_readable (ht : readableId t = true) : idType t = true := by
  cases t <;> first | rfl | exact ht

theorem comesBack_of_readable (ht : readableId t = true) : comesBack t = true := by
  cases t with
  | decimal precision scale => exact (Bool.and_eq_true_iff.mp ht).2
  | other name => cases ht
  | _ => rfl

/-- `cast(... as string)` gives an id in its usual form. -/
def CastsUsually (J : SparkFunctions F) : Prop :=
  ∀ t, readableId t = true → ∀ v, InRange t v → t ≠ .timestamp →
    J.castString (.atomic t) v = castForm t v

/-- An instant of whole milliseconds. -/
def Aligned : SparkValue F → Prop
  | .timestamp micros => micros % 1000 = 0
  | .timestampNtz micros => micros % 1000 = 0
  | _ => True

/-- A document whose `_source` lacks the id is read back with the id that was written. -/
structure IdComesBack (J : SparkFunctions F) (parse : String → Option (Json F)) (r : Resolver)
    (cfg : EsWriteConfig) (schema : Schema) (name : String) (t : AtomicType) : Prop where
  dropped : ∀ (rows : List (Row F)) out line, preparedFrame J r ⟨schema, rows⟩ = .ok out →
    buildNdjson J r cfg out.schema = .ok line → ∀ row ∈ out.rows, ∀ text action source,
      lineOf line row = some text → decodeBody parse (requestBody [text]) = some [action] →
      action.source = some source → source.lookup name = none
  reads : ∀ (rows : List (Row F)) out line, (∀ row ∈ rows, CellsTyped OfType schema row) →
    preparedFrame J r ⟨schema, rows⟩ = .ok out → buildNdjson J r cfg out.schema = .ok line →
    ∀ (i : Nat) row text, rows[i]? = some row → InRange t (valueOf schema row name) →
      Aligned (valueOf schema row name) → out.rows[i]?.bind (lineOf line) = some text →
      ∀ source tokens, source.lookup name = none → (tokens.map Prod.fst).Nodup →
        (name, sparkTypeToken (.atomic t)) ∈ tokens →
        (∀ f ∈ tokens, f.1 ≠ name → ∃ v,
          coerceColumn source (lineId parse text) (some name) true f.1 f.2 = .ok v) →
        ∃ doc, coerceHit source (lineId parse text) tokens (some name) true = .ok doc ∧
          doc.lookup name = some (valueOf schema row name).toPython

theorem readPresent_intText {target : String} {lo hi i : Int}
    (hwidth : intWidthBounds.lookup target = some (lo, hi)) (h : lo ≤ i ∧ i ≤ hi) :
    readPresent target target (.str (String.ofList (Json.intText i)) : Json F) = .ok (.int i) := by
  rw [readPresent_width hwidth]
  simp [rejectNonScalar, coerceInt, pyInt, pyIntOfString_intText, h, pure, Except.pure, bind,
    Except.bind]

theorem epochMillis_intText {micros : Int} (h : datetimeMin ≤ micros ∧ micros ≤ datetimeMax)
    (haligned : micros % 1000 = 0) :
    epochMillisToDatetime (.str (String.ofList (Json.intText (micros / 1000))) : Json F) =
      .ok micros := by
  have hwhole : micros / 1000 * 1000 = micros := by omega
  simp [epochMillisToDatetime, pyInt, pyIntOfString_intText, hwhole, h, pure, Except.pure, bind,
    Except.bind]

/-- The text in the `_id` of a row. -/
def storedId (t : AtomicType) (v : SparkValue F) : String :=
  match v with
  | .timestamp micros => String.ofList (Json.intText (micros / 1000))
  | v => castForm t v

omit [PyFloat F] in
theorem storedId_of_named {v : SparkValue F} (hv : ∀ micros, v ≠ .timestamp micros) :
    storedId t v = castForm t v := by
  cases v with
  | timestamp micros => exact absurd rfl (hv micros)
  | _ => rfl

theorem coerceBoolean_castForm (target : String) (b : Bool) :
    coerceBoolean target (.str (castForm .boolean (.boolean b : SparkValue F)) : Json F) = .ok b := by
  have htrue : stripLower "true" ∈ boolTrueStrings := by decide
  have hfalse : stripLower "false" ∉ boolTrueStrings ∧ stripLower "false" ∈ boolFalseStrings := by
    decide
  cases b with
  | false =>
    rw [castForm, if_neg Bool.false_ne_true, coerceBoolean]
    rw [if_neg hfalse.1, if_pos hfalse.2]
  | true =>
    rw [castForm, if_pos rfl, coerceBoolean]
    rw [if_pos htrue]

/-- The text of an id is read as the id, unless it is a date. -/
theorem readCoerce_storedId (ht : readableId t = true) (hdate : isDateOrNtz t = false)
    {v : SparkValue F} (hv : InRange t v) (haligned : Aligned v) :
    readCoerce (sparkTypeToken (.atomic t)) (.str (storedId t v) : Json F) = .ok v.toPython := by
  rw [sparkTypeToken, readCoerce]
  apply readScalar_of_present (comesBack_of_readable ht) (by simp)
  cases t with
  | boolean =>
    cases v with
    | boolean b =>
      apply readPresent_boolean.trans
      rw [storedId_of_named (by simp), coerceBoolean_castForm]
      rfl
    | _ => cases hv
  | tinyint =>
    cases v with
    | integral i =>
      rw [storedId_of_named (by simp), castForm]
      exact readPresent_intText rfl hv
    | _ => cases hv
  | smallint =>
    cases v with
    | integral i =>
      rw [storedId_of_named (by simp), castForm]
      exact readPresent_intText rfl hv
    | _ => cases hv
  | int =>
    cases v with
    | integral i =>
      rw [storedId_of_named (by simp), castForm]
      exact readPresent_intText rfl hv
    | _ => cases hv
  | bigint =>
    cases v with
    | integral i =>
      rw [storedId_of_named (by simp), castForm]
      exact readPresent_intText rfl hv
    | _ => cases hv
  | decimal precision scale =>
    obtain rfl : scale = 0 := by simpa [comesBack] using comesBack_of_readable ht
    cases v with
    | decimal unscaled scale =>
      cases scale with
      | zero =>
        obtain ⟨rest, hrest⟩ := stripLower_decimal precision 0
        apply (readPresent_decimal ⟨rest, hrest.symm⟩).trans
        rw [storedId_of_named (by simp), castForm, pyDecimal, pyDecimalOfString_intText]
        rfl
      | succ scale => cases hv
    | _ => cases hv
  | string =>
    cases v with
    | string s =>
      rw [storedId_of_named (by simp), castForm]
      exact readPresent_string
    | _ => cases hv
  | timestamp =>
    cases v with
    | timestamp micros =>
      apply readPresent_timestamp.trans
      rw [storedId, epochMillis_intText hv haligned]
      rfl
    | _ => cases hv
  | date => cases hdate
  | timestampNtz => cases hdate
  | _ => cases ht

omit [PyFloat F] in
theorem ofType_of_inRange {v : SparkValue F} (hv : InRange t v) : OfType t v := by
  cases t with
  | decimal precision scale =>
    cases v with
    | decimal unscaled scale' => cases scale <;> cases scale' <;> first | rfl | cases hv
    | _ => cases scale <;> cases hv
  | _ => cases v <;> trivial

omit [PyFloat F] in
theorem readable_values (ht : readableId t = true) : ∃ v w : SparkValue F, InRange t v ∧
    InRange t w ∧ Aligned v ∧ Aligned w ∧ v.toPython ≠ w.toPython := by
  cases t with
  | boolean => exact ⟨.boolean true, .boolean false, trivial, trivial, trivial, trivial, by
      simp [SparkValue.toPython]⟩
  | tinyint => exact ⟨.integral 0, .integral 1, ⟨by decide, by decide⟩, ⟨by decide, by decide⟩, trivial,
      trivial, by
      simp [SparkValue.toPython]⟩
  | smallint => exact ⟨.integral 0, .integral 1, ⟨by decide, by decide⟩, ⟨by decide, by decide⟩, trivial,
      trivial, by
      simp [SparkValue.toPython]⟩
  | int => exact ⟨.integral 0, .integral 1, ⟨by decide, by decide⟩, ⟨by decide, by decide⟩, trivial,
      trivial, by
      simp [SparkValue.toPython]⟩
  | bigint => exact ⟨.integral 0, .integral 1, ⟨by decide, by decide⟩, ⟨by decide, by decide⟩, trivial,
      trivial, by
      simp [SparkValue.toPython]⟩
  | decimal precision scale =>
    obtain ⟨hprecision, hscale⟩ := Bool.and_eq_true_iff.mp ht
    obtain rfl : scale = 0 := by simpa using hscale
    have hten : 1 < 10 ^ precision := 
      Nat.one_lt_pow (Nat.ne_of_gt (of_decide_eq_true hprecision)) (by decide)
    exact ⟨.decimal 0 0, .decimal 1 0, Nat.lt_trans Nat.zero_lt_one hten, hten, trivial, trivial, by
      simp [SparkValue.toPython]⟩
  | string => exact ⟨.string "", .string "0", trivial, trivial, trivial, trivial, by
      simp [SparkValue.toPython]⟩
  | date => exact ⟨.date 0, .date 1, ⟨by decide, by decide⟩, ⟨by decide, by decide⟩, trivial,
      trivial, by
      simp [SparkValue.toPython]⟩
  | timestamp => exact ⟨.timestamp 0, .timestamp 1000, ⟨by decide, by decide⟩, ⟨by decide, by decide⟩,
      rfl, rfl, by
      simp [SparkValue.toPython]⟩
  | timestampNtz => exact ⟨.timestampNtz 0, .timestampNtz 1000, ⟨by decide, by decide⟩, ⟨by decide, by decide⟩,
      rfl, rfl, by
      simp [SparkValue.toPython]⟩
  | _ => cases ht

theorem castString_prepared (hcast : CastsUsually J) (ht : readableId t = true) {v : SparkValue F}
    (hv : InRange t v) :
    J.castString (preparedType schema (name, .atomic t)) (idLeaf (preparedType schema (name, .atomic t))
      (preparedValue J schema (name, .atomic t) v)) = storedId t v := by
  by_cases hstamp : t = .timestamp
  · subst hstamp
    have hnot : ¬Sanitized schema (name, .atomic .timestamp) := not_sanitized_idType rfl
    cases v with
    | timestamp micros =>
      have hrange : InRange .bigint (.integral (micros / 1000) : SparkValue F) := by
        simp only [InRange, datetimeMin, datetimeMax] at hv ⊢
        omega
      rw [preparedType, if_neg hnot, preparedValue, if_neg hnot]
      exact hcast .bigint rfl _ hrange (by simp)
    | _ => cases hv
  · obtain ⟨htype, hvalue⟩ := preparedId_of_idType J schema name
      (idType_of_readable ht) hstamp v
    rw [htype, hvalue, hcast t ht v hv hstamp, storedId_of_named]
    intro micros rfl
    cases t <;> first | exact hstamp rfl | cases hv | skip
    rename_i precision scale
    cases scale <;> cases hv

theorem mapM_named {α β ε : Type} {g : String × α → Except ε β} {xs : List (String × α)}
    (h : ∀ x ∈ xs, ∃ v, g x = .ok v) : ∃ out : List (String × β),
      (xs.mapM fun x => do return (x.1, ← g x)) = .ok out ∧ out.map Prod.fst = xs.map Prod.fst ∧
      ∀ x ∈ xs, ∃ v, g x = .ok v ∧ (x.1, v) ∈ out := by
  induction xs with
  | nil => exact ⟨[], rfl, rfl, fun _ hx => nomatch hx⟩
  | cons x xs ih =>
    obtain ⟨v, hv⟩ := h x List.mem_cons_self
    obtain ⟨out, hout, hnames, hmem⟩ := ih fun x hx => h x (List.mem_cons_of_mem _ hx)
    refine ⟨(x.1, v) :: out, ?_, by rw [List.map_cons, List.map_cons, hnames],
      List.forall_mem_cons.mpr ⟨⟨v, hv, List.mem_cons_self⟩, ?_⟩⟩
    · rw [List.mapM_cons, hv, hout]
      rfl
    · intro y hy
      obtain ⟨w, hw, hin⟩ := hmem y hy
      exact ⟨w, hw, List.mem_cons_of_mem _ hin⟩

theorem coerceHit_of_columns {source : List (String × Json F)} {docId idField : Option String}
    {includeId : Bool} {tokens : List (String × TypeToken)} (hnames : (tokens.map Prod.fst).Nodup)
    {token : TypeToken} (hmem : (name, token) ∈ tokens) {v : PyValue F}
    (hv : coerceColumn source docId idField includeId name token = .ok v)
    (hothers : ∀ f ∈ tokens, f.1 ≠ name →
      ∃ v, coerceColumn source docId idField includeId f.1 f.2 = .ok v) :
    ∃ doc, coerceHit source docId tokens idField includeId = .ok doc ∧ doc.lookup name = some v := by
  have hsame {f : String × TypeToken} (hf : f ∈ tokens) (hname : f.1 = name) : f.2 = token := by
    obtain ⟨_, sub⟩ := f
    obtain rfl := hname
    exact eq_of_count (List.nodup_iff_count.mp hnames _) hmem hf
  have hcoerced : ∀ f ∈ tokens, ∃ v, coerceColumn source docId idField includeId f.1 f.2 = .ok v := by
    intro f hf
    by_cases hname : f.1 = name
    · exact ⟨v, by rw [hname, hsame hf hname, hv]⟩
    · exact hothers f hf hname
  obtain ⟨columns, hcolumns, hfst, hin⟩ := mapM_named hcoerced
  obtain ⟨w, hw, hcolumn⟩ := hin _ hmem
  cases hv.symm.trans hw
  have hnodup : (columns.map Prod.fst).Nodup := hfst ▸ hnames
  refine ⟨columns, ?_, lookup_of_mem hnodup hcolumn⟩
  rw [coerceHit, hcolumns, ok_bind, dictOf_eq_self hnodup]
  rfl

theorem coerceColumn_id {source : List (String × Json F)} (hsource : source.lookup name = none)
    (id : String) (token : TypeToken) :
    coerceColumn source (some id) (some name) true name token = readCoerce token (.str id) := by
  rw [coerceColumn, if_pos ⟨rfl, rfl, hsource⟩]
  rfl

variable {line : Column F}

theorem dateText_refused (hdate : isDateOrNtz t = true) : ∃ v : SparkValue F, InRange t v ∧
    Aligned v ∧ t ≠ .timestamp ∧ ∀ value : PyValue F,
      readCoerce (sparkTypeToken (.atomic t)) (.str (castForm t v) : Json F) ≠ .ok value := by
  have hday : castForm .date (.date 0 : SparkValue F) = "1970-01-01" := by
    have hcivil : String.ofList (civilText (civilOfDays 0)) = "1970-01-01" := by decide
    exact hcivil
  have hclock : castForm .timestampNtz (.timestampNtz 0 : SparkValue F) = "1970-01-01 00:00:00" := by
    have hcivil : String.ofList (clockText (.ofMicros 0)) = "1970-01-01 00:00:00" := by decide
    exact hcivil
  have hrefused {s : String} (hs : pySign (pyStrip s.toList) = (false, s.toList))
      (hdigits : pyDigits 0 false s.toList = none) :
      epochMillisToDatetime (.str s : Json F) = .error .valueError := by
    rw [epochMillisToDatetime, pyInt, pyIntOfString, hs]
    dsimp only
    rw [hdigits]
    rfl
  cases t with
  | date =>
    refine ⟨.date 0, ⟨by decide, by decide⟩, trivial, by simp, ?_⟩
    intro value h
    have htext : (.str "1970-01-01" : Json F) ≠ .null := by simp
    rw [hday, sparkTypeToken, readCoerce,
      readScalar_present (supported_of_comesBack (t := .date) rfl) htext] at h
    change readPresent "date" "date" _ = _ at h
    rw [readPresent_date] at h
    obtain ⟨_, -, h⟩ := bind_ok h
    rw [epochMillisToDate, hrefused (by decide) (by decide)] at h
    cases h
  | timestampNtz =>
    refine ⟨.timestampNtz 0, ⟨by decide, by decide⟩, rfl, by simp, ?_⟩
    intro value h
    have htext : (.str "1970-01-01 00:00:00" : Json F) ≠ .null := by simp
    rw [hclock, sparkTypeToken, readCoerce,
      readScalar_present (supported_of_comesBack (t := .timestampNtz) rfl) htext] at h
    change readPresent "timestamp_ntz" "timestamp_ntz" _ = _ at h
    rw [readPresent_timestampNtz] at h
    obtain ⟨_, -, h⟩ := bind_ok h
    rw [epochMillisToNaiveDatetime, hrefused (by decide) (by decide)] at h
    cases h
  | _ => cases hdate

/-- What a read of the id alone says of a row. -/
theorem IdComesBack.alone (h : IdComesBack J parse r cfg schema name t) {φ : Row F → Row F}
    {out : Schema} {a : ActionColumns F} (hship : Shipped J r cfg schema φ out a line)
    (hJ : WritesObjects J parse json) (hop : cfg.opType = "index" ∨ cfg.opType = "create")
    {c : Column F} (hc : a.id = some c) {row : Row F} (hrow : CellsTyped OfType schema row)
    (hrange : InRange t (valueOf schema row name)) (haligned : Aligned (valueOf schema row name))
    (hpresent : (c.eval (φ row)).isNull = false) :
    readCoerce (sparkTypeToken (.atomic t)) (.str (J.castString c.dataType (c.eval (φ row))) : Json F) =
      .ok (valueOf schema row name).toPython := by
  obtain ⟨text, htext⟩ := hship.lineOf_row hc hpresent
  obtain ⟨doc, hdoc, hvalue⟩ := h.reads [row] _ line (List.forall_mem_singleton.mpr hrow)
    (hship.rows _) hship.built 0 row text rfl hrange haligned htext []
    [(name, sparkTypeToken (.atomic t))] rfl (List.nodup_singleton _) List.mem_cons_self
    fun f hf hne => absurd (congrArg Prod.fst (List.mem_singleton.mp hf)) hne
  rw [hship.lineId_row hJ hop hc htext, coerceHit, List.mapM_cons] at hdoc
  obtain ⟨columns, hcolumns, hdoc⟩ := bind_ok hdoc
  obtain ⟨column, hcolumn, hcolumns⟩ := bind_ok hcolumns
  obtain ⟨v, hv, hcolumn⟩ := bind_ok hcolumn
  cases hcolumn
  cases hcolumns
  cases hdoc
  rw [coerceColumn_id rfl] at hv
  rw [hv]
  simpa [dictOf, dictInsert] using hvalue

/-- Ids that come back are those of a column that `F.col` finds under its name: two values of a name
with marks would be read alike. -/
theorem IdComesBack.unmarked {x : F} (hx : nonFinite x = false)
    (h : IdComesBack J parse r cfg schema name t) {φ : Row F → Row F} {out : Schema}
    {a : ActionColumns F} (hship : Shipped J r cfg schema φ out a line) (hJ : WritesObjects J parse json)
    (hop : cfg.opType = "index" ∨ cfg.opType = "create") (hid : cfg.idColumnName = some name)
    (hdt : columnType schema name = some (.atomic t)) (ht : readableId t = true) : Unmarked name := by
  by_contra hname
  obtain ⟨v, w, hv, hw, hvAligned, hwAligned, hne⟩ := readable_values (F := F) ht
  obtain ⟨c, hc, row, hrow, hsame⟩ := hship.id_of_marked hx hid hname hdt
  have hlength := hrow.shaped.length_eq
  have hread {u : SparkValue F} (hu : InRange t u) (haligned : Aligned u) :=
    h.alone hship hJ hop hc (setValue_typed hdt hrow (v := u) (.inr (ofType_of_inRange hu)))
      ((valueOf_setValue hdt hlength u).symm ▸ hu)
      ((valueOf_setValue hdt hlength u).symm ▸ haligned) (hsame u).1
  have hboth := (hread hv hvAligned).symm.trans ((hsame v).2 w ▸ hread hw hwAligned)
  rw [valueOf_setValue hdt hlength, valueOf_setValue hdt hlength] at hboth
  exact hne (Except.ok.inj hboth)

/-- A date is written as the text of a date, which its own type refuses. -/
theorem IdComesBack.not_date (h : IdComesBack J parse r cfg schema name t) {φ : Row F → Row F}
    {out : Schema} {a : ActionColumns F} (hship : Shipped J r cfg schema φ out a line)
    (hJ : WritesObjects J parse json) (hcast : CastsUsually J)
    (hop : cfg.opType = "index" ∨ cfg.opType = "create") (hid : cfg.idColumnName = some name)
    (hname : Unmarked name) (hdt : columnType schema name = some (.atomic t))
    (ht : readableId t = true) : isDateOrNtz t = false := by
  rw [Bool.eq_false_iff]
  intro hdate
  obtain ⟨v, hv, haligned, hstamp, hrefused⟩ := dateText_refused (F := F) hdate
  obtain ⟨c, hc, htype, heval⟩ := hship.id_of_unmarked hid hname hdt
  have hnulls : CellsTyped OfType schema (schema.map fun _ => (.null : SparkValue F)) :=
    nulls_typed schema
  have hrow := setValue_typed hdt hnulls (v := v) (.inr (ofType_of_inRange hv))
  have hvalue := valueOf_setValue hdt hnulls.shaped.length_eq v
  obtain ⟨hprepared, hleaf⟩ := preparedId_of_idType J schema name (idType_of_readable ht) hstamp v
  have hstored := heval _ hrow.shaped
  rw [hvalue, hprepared, hleaf] at hstored
  have hpresent : v.isNull = false := by
    have htyped := ofType_of_inRange hv
    cases v with
    | null => cases t <;> cases htyped
    | _ => rfl
  have hread := h.alone hship hJ hop hc hrow (hvalue.symm ▸ hv) (hvalue.symm ▸ haligned)
    (hstored.symm ▸ hpresent)
  rw [hstored, htype, hprepared, hcast t ht v hv hstamp] at hread
  exact hrefused _ hread

/-- A column that is dropped is in no `_source`. -/
theorem source_lookup_dropped (hJ : WritesObjects J parse json)
    (hop : cfg.opType = "index" ∨ cfg.opType = "create") (hdrop : name ∈ cfg.dropFields)
    {rows : List (Row F)} {out : DataFrame F} (hok : preparedFrame J r ⟨schema, rows⟩ = .ok out)
    (hline : buildNdjson J r cfg out.schema = .ok line) {stored : Row F} {text : String}
    (htext : lineOf line stored = some text) {action : BulkAction F}
    (haction : decodeBody parse (requestBody [text]) = some [action])
    {source : List (String × Json F)} (hsource : action.source = some source) :
    source.lookup name = none := by
  obtain ⟨φ, a, hship⟩ := shipped_of_ok hok hline
  obtain ⟨cols, action', hcols, -, -, hdelete, hwrite, hdecode⟩ :=
    lineText_decodes hJ hop hship.columns ((hship.lines _).symm.trans htext)
  rw [decodeBody, requestBody, List.flatMap_singleton, hdecode []] at haction
  cases haction
  cases hflag : a.flagged stored with
  | true =>
    rw [(hdelete hflag).2] at hsource
    cases hsource
  | false =>
    cases (hwrite hflag).2.symm.trans hsource
    refine List.lookup_eq_none_iff.mpr fun e he => bne_iff_ne.mpr ?_
    intro rfl
    obtain ⟨col, hcol, rfl⟩ := List.mem_map.mp he
    have hkey : col.1 ∈ payloadColumns (out.schema.map Prod.fst) (droppedColumns cfg) :=
      sourceExprs_names hcols ▸ List.mem_map_of_mem hcol
    exact (mem_payloadColumns.mp hkey).2 (dropFields_subset cfg hdrop)

/-- An id comes back if and only if it is found under its name and is written as a number or a text. -/
theorem id_comes_back_iff {x : F} (hx : nonFinite x = false) (hJ : WritesObjects J parse json)
    (hcast : CastsUsually J) {rows : List (Row F)} {out : DataFrame F} (hcfg : cfg.Accepted)
    (hid : cfg.idColumnName = some name) (hdrop : name ∈ cfg.dropFields)
    (hdt : columnType schema name = some (.atomic t)) (ht : readableId t = true)
    (hok : preparedFrame J r ⟨schema, rows⟩ = .ok out)
    (hline : buildNdjson J r cfg out.schema = .ok line) :
    IdComesBack J parse r cfg schema name t ↔ Unmarked name ∧ isDateOrNtz t = false := by
  obtain ⟨φ, a, hship⟩ := shipped_of_ok hok hline
  constructor
  · intro h
    have hname := h.unmarked hx hship hJ hcfg.opType hid hdt ht
    exact ⟨hname, h.not_date hship hJ hcast hcfg.opType hid hname hdt ht⟩
  · rintro ⟨hname, hdate⟩
    constructor
    · intro rows' out' line' hok' hline' stored _ text action source htext haction hsource
      exact source_lookup_dropped hJ hcfg.opType hdrop hok' hline' htext haction hsource
    · intro rows' out' line' hrows hok' hline' i row text hi hrange haligned htext source tokens
        hsource hnames hmem hothers
      obtain rfl : out' = ⟨out.schema, rows'.map φ⟩ :=
        Except.ok.inj (hok'.symm.trans (hship.rows rows'))
      obtain rfl : line' = line := Except.ok.inj (hline'.symm.trans hline)
      obtain ⟨c, hc, htype, heval⟩ := hship.id_of_unmarked hid hname hdt
      have hrow := hrows row (List.mem_of_getElem? hi)
      rw [List.getElem?_map, hi, Option.map_some, Option.bind_some] at htext
      have hstored := hship.lineId_row hJ hcfg.opType hc htext
      rw [htype, heval row hrow.shaped, castString_prepared hcast ht hrange] at hstored
      rw [hstored] at hothers ⊢
      refine coerceHit_of_columns hnames hmem ?_ hothers
      rw [coerceColumn_id hsource]
      exact readCoerce_storedId ht hdate hrange haligned

section Example

def castFunctions (F : Type) [Json.FloatText F] : SparkFunctions F :=
  { objectFunctions F with castString := fun
      | .atomic t, v => castForm t v
      | _, _ => "" }

theorem castFunctions_writesObjects (F : Type) [Json.FloatText F] :
    WritesObjects (castFunctions F) parseJson objectJson :=
  ⟨(writesObjects F).newline, (writesObjects F).parses, (writesObjects F).struct, fun _ => rfl⟩

theorem id_comes_back_integers :
    IdComesBack (castFunctions FewFloats) parseJson .caseSensitive (stampConfig "key") stampSchema
      "key" .bigint :=
  (id_comes_back_iff (x := FewFloats.half) rfl (castFunctions_writesObjects FewFloats)
    (fun _ _ _ _ _ => rfl) (by decide) rfl (by decide) rfl rfl
    (rfl : preparedFrame (castFunctions FewFloats) .caseSensitive ⟨stampSchema, []⟩ =
      .ok ⟨[("key", .atomic .bigint), ("at", .atomic .bigint)], []⟩) rfl).mpr
    ⟨by decide, by decide⟩

def daySchema : Schema := [("day", .atomic .date)]

def dayConfig : EsWriteConfig :=
  { hosts := "https://es:9200", apiKey := some "key", index := "days", idField := some "day",
    dropFields := ["day"] }

/-- A date is written as text, and a number is asked for when it is read. -/
theorem date_id_refused :
    dayConfig.Accepted ∧
      (preparedFrame (castFunctions FewFloats) .caseSensitive ⟨daySchema, [[.date 0]]⟩).toOption.map
          (fun out => out.rows.map fun row =>
            (rowLine (castFunctions FewFloats) .caseSensitive dayConfig out.schema row).bind
              (lineId (F := FewFloats) parseJson)) = some [some "1970-01-01"] ∧
      (coerceHit [] (some "1970-01-01") (schemaFieldTokens daySchema) (some "day") true :
          Except (PyError FewFloats) _) = .error .valueError :=
  ⟨by decide, by decide +kernel, rfl⟩

end Example

end EsConnector
