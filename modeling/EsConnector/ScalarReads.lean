import EsConnector.ReadRules
import Mathlib.Data.Rat.Lemmas

namespace EsConnector
set_option autoImplicit true

variable {F : Type} [PyFloat F]

section Numbers

/-- A number without its fraction. -/
def truncate (q : ℚ) : Int := q.num.tdiv q.den

theorem truncate_intCast (i : Int) : truncate i = i := by
  simp [truncate]

/-- Floats with the numbers they stand for; infinities and NaNs stand for none. -/
class FloatValue (F : Type) extends PyFloat F where
  value : F → Option ℚ
  isInteger_iff : ∀ x, isInteger x = true ↔ ∃ i : Int, value x = some (i : ℚ)
  toInt_of_value : ∀ x q, value x = some q → toInt x = .ok (truncate q)
  toInt_of_none : ∀ x, value x = none → ∃ e, toInt x = .error e

end Numbers

section Lossless

variable {F : Type} [FloatValue F]

/-- The number of a JSON number. -/
def numberOf : Json F → Option ℚ
  | .int i => some i
  | .float x => FloatValue.value x
  | _ => none

def IsNumber : Json F → Prop
  | .int _ => True
  | .float _ => True
  | _ => False

/-- The number that a write stores for a value. -/
def storedNumber : PyValue F → Option ℚ
  | .int i => some i
  | .datetime micros => some (micros / 1000 : Int)
  | .naive micros => some (micros / 1000 : Int)
  | _ => none

/-- The tokens whose values are stored as epoch milliseconds with a time of day. -/
def instantTokens : List String := ["timestamp", "timestamp_ntz"]

def numberTokens : List String := intWidthBounds.map Prod.fst ++ instantTokens

/-- What is read back is stored as the number it was, and lies in its width; or nothing is read. -/
def LosslessOrRefused (token : String) (v : Json F) : Prop :=
  ∀ r, readCoerce (.scalar token) v = .ok r → (∃ q, numberOf v = some q ∧ storedNumber r = some q) ∧
    ∀ lo hi, intWidthBounds.lookup token = some (lo, hi) → ∃ i, r = .int i ∧ lo ≤ i ∧ i ≤ hi

/-- An instant whose milliseconds have a fraction, in the years 1 to 9999. -/
def FractionOfInstant (token : String) (v : Json F) : Prop :=
  token ∈ instantTokens ∧ ∃ q, numberOf v = some q ∧ (truncate q : ℚ) ≠ q ∧
    datetimeMin ≤ truncate q * 1000 ∧ truncate q * 1000 ≤ datetimeMax

theorem numberTokens_known : ∀ token ∈ numberTokens,
    ¬Unsupported token ∧ stripLower token = token := by decide +kernel

theorem width_lookup : ∀ e ∈ intWidthBounds, intWidthBounds.lookup e.1 = some (e.2.1, e.2.2) := by
  decide

theorem instant_not_width : ∀ token ∈ instantTokens, intWidthBounds.lookup token = none := by decide

theorem readCoerce_number {token : String} (h : token ∈ numberTokens) {v : Json F}
    (hv : IsNumber v) : readCoerce (.scalar token) v = readPresent token token v := by
  obtain ⟨hsupported, hlower⟩ := numberTokens_known token h
  have hnull : v ≠ .null := by
    rintro rfl
    exact hv
  rw [readCoerce, readScalar_present hsupported hnull, hlower]

omit [FloatValue F] in
theorem rejectNonScalar_number [FloatValue F] {v : Json F} (hv : IsNumber v) (target : String) :
    rejectNonScalar v target = .ok () := by
  cases v <;> first | rfl | exact absurd hv id

/-- `int(value)` of a number. -/
theorem pyInt_number {v : Json F} (hv : IsNumber v) {i : Int} (h : pyInt v = .ok i) :
    ∃ q, numberOf v = some q ∧ i = truncate q := by
  cases v with
  | int j =>
    obtain rfl : j = i := Except.ok.inj h
    exact ⟨j, rfl, (truncate_intCast j).symm⟩
  | float x =>
    rw [pyInt] at h
    cases hx : FloatValue.value x with
    | none =>
      obtain ⟨e, he⟩ := FloatValue.toInt_of_none x hx
      rw [he] at h
      cases h
    | some q =>
      rw [FloatValue.toInt_of_value x q hx] at h
      cases h
      exact ⟨q, hx, rfl⟩
  | _ => exact absurd hv id

theorem coerceInt_exact {lo hi : Int} {target : String} {v : Json F} (hv : IsNumber v) {i : Int}
    (h : coerceInt lo hi target v = .ok i) : numberOf v = some (i : ℚ) ∧ lo ≤ i ∧ i ≤ hi := by
  have hwidth {j : Int} (h : (if lo ≤ j ∧ j ≤ hi then pure j else throw
      (.schemaMismatch (.outOfRange j target lo hi)) : Except (PyError F) Int) = .ok i) :
      j = i ∧ lo ≤ j ∧ j ≤ hi := by
    split at h
    · rename_i hrange
      exact ⟨Except.ok.inj h, hrange⟩
    · cases h
  unfold coerceInt at h
  cases v with
  | int j =>
    obtain ⟨rfl, hrange⟩ := hwidth h
    exact ⟨rfl, hrange⟩
  | float x =>
    dsimp only at h
    split at h
    · rename_i hinteger
      -- an integral float stands for its integer
      obtain ⟨k, hk⟩ := (FloatValue.isInteger_iff x).mp hinteger
      rw [FloatValue.toInt_of_value x k hk, truncate_intCast] at h
      obtain ⟨rfl, hrange⟩ := hwidth h
      exact ⟨hk, hrange⟩
    · cases h
  | _ => exact absurd hv id

theorem width_lossless {token : String} (h : token ∈ intWidthBounds.map Prod.fst) {v : Json F}
    (hv : IsNumber v) : LosslessOrRefused token v := by
  obtain ⟨lo, hi, hwidth⟩ : ∃ lo hi, intWidthBounds.lookup token = some (lo, hi) := by
    obtain ⟨e, he, rfl⟩ := List.mem_map.mp h
    exact ⟨e.2.1, e.2.2, width_lookup e he⟩
  intro r hr
  rw [readCoerce_number (List.mem_append_left _ h) hv, readPresent_width hwidth,
    rejectNonScalar_number hv, ok_bind] at hr
  obtain ⟨i, hi', hr⟩ := bind_ok hr
  obtain ⟨hvalue, hrange⟩ := coerceInt_exact hv hi'
  cases hr
  refine ⟨⟨i, hvalue, rfl⟩, ?_⟩
  intro lo' hi' hwidth'
  rw [hwidth] at hwidth'
  cases hwidth'
  exact ⟨i, rfl, hrange⟩

theorem epochMillis_inv {v : Json F} (hv : IsNumber v) {micros : Int}
    (h : epochMillisToDatetime v = .ok micros) : ∃ q, numberOf v = some q ∧
      micros = truncate q * 1000 ∧ datetimeMin ≤ micros ∧ micros ≤ datetimeMax := by
  rw [epochMillisToDatetime] at h
  obtain ⟨i, hi, h⟩ := bind_ok h
  dsimp only at h
  split at h
  · rename_i hrange
    cases h
    obtain ⟨q, hq, rfl⟩ := pyInt_number hv hi
    exact ⟨q, hq, rfl, hrange⟩
  · cases h

theorem epochMillis_of_range {v : Json F} (hv : IsNumber v) {q : ℚ} (hq : numberOf v = some q)
    (hrange : datetimeMin ≤ truncate q * 1000 ∧ truncate q * 1000 ≤ datetimeMax) :
    epochMillisToDatetime v = .ok (truncate q * 1000) := by
  have hint : pyInt v = .ok (truncate q) := by
    cases v with
    | int j =>
      cases hq
      rw [truncate_intCast]
      rfl
    | float x => exact FloatValue.toInt_of_value x q hq
    | _ => exact absurd hv id
  rw [epochMillisToDatetime]
  rw [hint, ok_bind]
  exact if_pos hrange

theorem readCoerce_instant {token : String} (h : token ∈ instantTokens) {v : Json F}
    (hv : IsNumber v) : ∃ wrap : Int → PyValue F, (∀ micros, storedNumber (wrap micros) =
        some (micros / 1000 : Int)) ∧
      readCoerce (.scalar token) v = (do return wrap (← epochMillisToDatetime v)) := by
  have hread := readCoerce_number (List.mem_append_right _ h) hv
  simp only [instantTokens, List.mem_cons, List.not_mem_nil, or_false] at h
  rcases h with rfl | rfl
  · rw [readPresent_timestamp, rejectNonScalar_number hv, ok_bind] at hread
    exact ⟨.datetime, fun _ => rfl, hread⟩
  · rw [readPresent_timestampNtz, rejectNonScalar_number hv, ok_bind] at hread
    exact ⟨.naive, fun _ => rfl, hread⟩

/-- A number is read without loss or refused, unless it is an instant with a fraction. -/
theorem number_read_iff {token : String} (h : token ∈ numberTokens) {v : Json F} (hv : IsNumber v) :
    LosslessOrRefused token v ↔ ¬FractionOfInstant token v := by
  constructor
  · rintro hlossless ⟨htoken, q, hq, hfraction, hrange⟩
    obtain ⟨wrap, hstored, hread⟩ := readCoerce_instant htoken hv
    rw [epochMillis_of_range hv hq hrange] at hread
    obtain ⟨⟨q', hq', hback⟩, -⟩ := hlossless _ hread
    rw [hstored, Int.mul_ediv_cancel _ (by decide)] at hback
    rw [hq, ← hback] at hq'
    exact hfraction (Option.some.inj hq').symm
  · intro hfraction
    rcases List.mem_append.mp h with hwidth | htoken
    · exact width_lossless hwidth hv
    · intro r hr
      obtain ⟨wrap, hstored, hread⟩ := readCoerce_instant htoken hv
      rw [hread] at hr
      obtain ⟨micros, hmicros, hr⟩ := bind_ok hr
      obtain ⟨q, hq, rfl, hrange⟩ := epochMillis_inv hv hmicros
      cases hr
      refine ⟨⟨q, hq, ?_⟩, ?_⟩
      · rw [hstored, Int.mul_ediv_cancel _ (by decide)]
        by_contra hne
        exact hfraction ⟨htoken, q, hq, fun he => hne (congrArg some he), hrange⟩
      · intro lo hi hlookup
        exact absurd hlookup (by rw [instant_not_width token htoken]; nofun)

theorem FewFloats.half_ne_int (i : Int) : (1 / 2 : ℚ) ≠ i := by
  intro h
  have hden := congrArg Rat.den h
  rw [Rat.den_intCast] at hden
  exact absurd hden (by decide +kernel)

theorem FewFloats.truncate_half : truncate (1 / 2) = 0 := by decide +kernel

theorem FewFloats.truncate_two : truncate 2 = 2 := by decide +kernel

instance : FloatValue FewFloats where
  value
    | .half => some (1 / 2)
    | .two => some 2
    | .nan => none
  isInteger_iff x := by
    cases x with
    | half =>
      refine ⟨fun h => absurd h Bool.false_ne_true, ?_⟩
      rintro ⟨i, hi⟩
      exact absurd (Option.some.inj hi) (FewFloats.half_ne_int i)
    | two => exact iff_of_true rfl ⟨2, rfl⟩
    | nan =>
      refine ⟨fun h => absurd h Bool.false_ne_true, ?_⟩
      rintro ⟨i, hi⟩
      cases hi
  toInt_of_value x q h := by
    cases x with
    | half =>
      cases h
      exact congrArg Except.ok FewFloats.truncate_half.symm
    | two =>
      cases h
      exact congrArg Except.ok FewFloats.truncate_two.symm
    | nan => cases h
  toInt_of_none x h := by
    cases x with
    | half => cases h
    | two => cases h
    | nan => exact ⟨.valueError, rfl⟩

/-- Half a millisecond is read as the epoch. -/
theorem instant_loses_fraction :
    readCoerce (.scalar "timestamp") (.float .half : Json FewFloats) = .ok (.datetime 0) ∧
      ¬LosslessOrRefused "timestamp" (.float .half : Json FewFloats) := by
  have hread : readCoerce (.scalar "timestamp") (.float .half : Json FewFloats) =
      .ok (.datetime 0) := rfl
  refine ⟨hread, ?_⟩
  intro h
  obtain ⟨⟨q, hq, hstored⟩, -⟩ := h _ hread
  rw [← hstored] at hq
  exact absurd (Option.some.inj hq) (by decide +kernel)

theorem number_read_tinyint : LosslessOrRefused "tinyint" (.float .two : Json FewFloats) := by
  have hnumber : IsNumber (.float .two : Json FewFloats) := trivial
  rw [number_read_iff (by decide) hnumber]
  intro h
  exact absurd h.1 (by decide)

end Lossless

section Binary

/-- A string declared binary is read, wherever it is, as the bytes that it encodes; or nothing is. -/
def BinaryLossless (F : Type) [PyFloat F] (s : String) : Prop :=
  ∀ (outer : TypeToken) (value : Json F), Meets outer value (.scalar "binary") (.str s) →
    ∀ r, readCoerce outer value = .ok r →
      ∃ b, readCoerce (.scalar "binary") (.str s : Json F) = .ok (.bytes b) ∧
        Base64.encode b = s.toList

/-- `b64decode` refuses a string: it has a character outside ASCII, or ends inside a group. -/
def RefusedBase64 (s : String) : Prop :=
  (∃ c ∈ s.toList, 128 ≤ c.toNat) ∨ Base64.finishes 0 0 s.toList = false

theorem readCoerce_binary (s : String) : readCoerce (.scalar "binary") (.str s : Json F) =
    (do return .bytes (← b64decode (.str s : Json F))) := by
  have hsupported : ¬Unsupported "binary" := by decide
  rw [readCoerce, readScalar_present hsupported (show Json.str s ≠ .null by simp)]
  rfl

omit [PyFloat F] in
theorem b64decode_ok_iff {s : String} {b : List UInt8} :
    b64decode (.str s : Json F) = .ok b ↔
      (∀ c ∈ s.toList, c.toNat < 128) ∧ Base64.decode s.toList = some b := by
  simp only [b64decode]
  split
  · rename_i hascii
    have hascii : ∀ c ∈ s.toList, c.toNat < 128 := by simpa using hascii
    rw [and_iff_right hascii]
    cases Base64.decode s.toList <;> simp
  · rename_i hascii
    have hascii : ¬∀ c ∈ s.toList, c.toNat < 128 := by simpa using hascii
    exact ⟨nofun, fun h => absurd h.1 hascii⟩

/-- A string is read without loss exactly if it is canonical base64, or refused. -/
theorem binary_lossless_iff (s : String) :
    BinaryLossless F s ↔ RefusedBase64 s ∨ Base64.canonical s.toList = true := by
  constructor
  · intro h
    by_contra hnot
    obtain ⟨hrefused, hcanonical⟩ := not_or.mp hnot
    obtain ⟨hascii, hfinishes⟩ := not_or.mp hrefused
    have hascii : ∀ c ∈ s.toList, c.toNat < 128 := by simpa using hascii
    rw [← Base64.isSome_decode, Bool.not_eq_false, Option.isSome_iff_exists] at hfinishes
    obtain ⟨b, hb⟩ := hfinishes
    have hread : readCoerce (.scalar "binary") (.str s : Json F) = .ok (.bytes b) := by
      rw [readCoerce_binary, b64decode_ok_iff.mpr ⟨hascii, hb⟩]
      rfl
    obtain ⟨b', -, hencode⟩ := h _ _ .here _ hread
    exact hcanonical (Base64.canonical_iff.mpr ⟨b', hencode⟩)
  · intro h outer value hmeets r hr
    obtain ⟨r', hr'⟩ := hmeets.inner_ok hr
    rw [readCoerce_binary] at hr' ⊢
    obtain ⟨b, hb, -⟩ := bind_ok hr'
    obtain ⟨hascii, hdecode⟩ := b64decode_ok_iff.mp hb
    refine ⟨b, by rw [hb]; rfl, ?_⟩
    rcases h with (⟨c, hc, hlarge⟩ | hfinishes) | hcanonical
    · exact absurd (hascii c hc) (Nat.not_lt.mpr hlarge)
    · rw [← Base64.isSome_decode, hdecode] at hfinishes
      cases hfinishes
    · obtain ⟨b', hencode⟩ := Base64.canonical_iff.mp hcanonical
      rw [← hencode, Base64.decode_encode] at hdecode
      cases hdecode
      exact hencode

/-- A character that base64 does not know is skipped. -/
theorem binary_skips_blank :
    readCoerce (.scalar "binary") (.str "AQ I=" : Json Empty) = .ok (.bytes [1, 2]) ∧
      ¬BinaryLossless Empty "AQ I=" := by
  have hread : readCoerce (.scalar "binary") (.str "AQ I=" : Json Empty) = .ok (.bytes [1, 2]) := rfl
  refine ⟨hread, ?_⟩
  intro h
  obtain ⟨b, -, hencode⟩ := h _ _ .here _ hread
  exact absurd (Base64.canonical_iff.mpr ⟨b, hencode⟩) (by decide)

end Binary

end EsConnector
