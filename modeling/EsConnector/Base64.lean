import Mathlib.Data.List.Basic

namespace Base64
set_option autoImplicit true

/-- The character of a six-bit value. -/
def digit (n : Nat) : Char :=
  if n < 26 then Char.ofNat (65 + n)
  else if n < 52 then Char.ofNat (71 + n)
  else if n < 62 then Char.ofNat (n - 4)
  else if n = 62 then '+'
  else '/'

/-- The six-bit value of a character of the alphabet. -/
def value (c : Char) : Option Nat :=
  if 'A' ≤ c ∧ c ≤ 'Z' then some (c.toNat - 65)
  else if 'a' ≤ c ∧ c ≤ 'z' then some (c.toNat - 71)
  else if '0' ≤ c ∧ c ≤ '9' then some (c.toNat + 4)
  else if c = '+' then some 62
  else if c = '/' then some 63
  else none

def encode : List UInt8 → List Char
  | [] => []
  | [a] => [digit (a.toNat / 4), digit (a.toNat % 4 * 16), '=', '=']
  | [a, b] =>
    [digit (a.toNat / 4), digit (a.toNat % 4 * 16 + b.toNat / 16), digit (b.toNat % 16 * 4), '=']
  | a :: b :: c :: rest =>
    digit (a.toNat / 4) :: digit (a.toNat % 4 * 16 + b.toNat / 16) ::
      digit (b.toNat % 16 * 4 + c.toNat / 64) :: digit (c.toNat % 64) :: encode rest

/-- How far a decoder is in a group of four characters, with the bits it has not written yet. -/
inductive Quad where
  | start
  | first (left : Nat)
  | second (left : Nat)
  | third (left : Nat)
deriving DecidableEq, Repr

def Quad.position : Quad → Nat
  | .start => 0
  | .first _ => 1
  | .second _ => 2
  | .third _ => 3

/-- Take in one more value. -/
def Quad.feed (v : Nat) : Quad → Quad × Option UInt8
  | .start => (.first v, none)
  | .first left => (.second (v % 16), some (.ofNat (left * 4 + v / 16)))
  | .second left => (.third (v % 4), some (.ofNat (left * 16 + v / 4)))
  | .third left => (.start, some (.ofNat (left * 64 + v)))

/-- The lenient decoder: characters outside the alphabet are skipped, a completed padding ends the
input, and an incomplete group fails. -/
def decodeFrom (quad : Quad) (pads : Nat) : List Char → Option (List UInt8)
  | [] => if quad = .start then some [] else none
  | c :: rest =>
    if c = '=' then
      if 2 ≤ quad.position then
        if 4 ≤ quad.position + (pads + 1) then some []
        else decodeFrom quad (pads + 1) rest
      else decodeFrom quad pads rest
    else match value c with
      | none => decodeFrom quad pads rest
      | some v =>
        let (quad, byte) := quad.feed v
        (decodeFrom quad 0 rest).map fun bytes => byte.toList ++ bytes

def decode (text : List Char) : Option (List UInt8) := decodeFrom .start 0 text

theorem digit_ne_pad_all : ∀ n < 64, digit n ≠ '=' := by decide

theorem value_digit_all : ∀ n < 64, value (digit n) = some n := by decide

theorem digit_ascii_all : ∀ n < 64, (digit n).toNat < 128 := by decide

@[simp] theorem decodeFrom_digit (hn : n < 64) :
    decodeFrom quad pads (digit n :: rest) =
      (decodeFrom (quad.feed n).1 0 rest).map fun bytes => (quad.feed n).2.toList ++ bytes := by
  rw [decodeFrom, if_neg (digit_ne_pad_all n hn), value_digit_all n hn]

theorem ofNat_of_eq (a : UInt8) (h : n = a.toNat) : UInt8.ofNat n = a := by
  rw [h, UInt8.ofNat_toNat]

theorem decode_encode (bytes : List UInt8) : decode (encode bytes) = some bytes := by
  rw [decode]
  fun_induction encode bytes with
  | case1 => rfl
  | case2 a =>
    have ha := a.toNat_lt
    rw [decodeFrom_digit (by omega), decodeFrom_digit (by omega)]
    have he : UInt8.ofNat (a.toNat / 4 * 4 + a.toNat % 4 * 16 / 16) = a := ofNat_of_eq a (by omega)
    simp only [Quad.feed, he]
    simp [decodeFrom, Quad.position]
  | case3 a b =>
    have ha := a.toNat_lt
    have hb := b.toNat_lt
    rw [decodeFrom_digit (by omega), decodeFrom_digit (by omega), decodeFrom_digit (by omega)]
    have he : UInt8.ofNat (a.toNat / 4 * 4 + (a.toNat % 4 * 16 + b.toNat / 16) / 16) = a :=
      ofNat_of_eq a (by omega)
    have he' : UInt8.ofNat ((a.toNat % 4 * 16 + b.toNat / 16) % 16 * 16 + b.toNat % 16 * 4 / 4) = b :=
      ofNat_of_eq b (by omega)
    simp only [Quad.feed, he, he']
    simp [decodeFrom, Quad.position]
  | case4 a b c rest ih =>
    have ha := a.toNat_lt
    have hb := b.toNat_lt
    have hc := c.toNat_lt
    rw [decodeFrom_digit (by omega), decodeFrom_digit (by omega), decodeFrom_digit (by omega),
      decodeFrom_digit (by omega)]
    have he : UInt8.ofNat (a.toNat / 4 * 4 + (a.toNat % 4 * 16 + b.toNat / 16) / 16) = a :=
      ofNat_of_eq a (by omega)
    have he' : UInt8.ofNat ((a.toNat % 4 * 16 + b.toNat / 16) % 16 * 16 +
        (b.toNat % 16 * 4 + c.toNat / 64) / 4) = b := ofNat_of_eq b (by omega)
    have he'' : UInt8.ofNat ((b.toNat % 16 * 4 + c.toNat / 64) % 4 * 64 + c.toNat % 64) = c :=
      ofNat_of_eq c (by omega)
    simp only [Quad.feed, he, he', he'']
    simp [ih]

theorem encode_ascii (bytes : List UInt8) : ∀ c ∈ encode bytes, c.toNat < 128 := by
  fun_induction encode bytes with
  | case1 => simp
  | case2 a =>
    have ha := a.toNat_lt
    simp only [List.mem_cons, List.not_mem_nil, or_false, forall_eq_or_imp, forall_eq]
    exact ⟨digit_ascii_all _ (by omega), digit_ascii_all _ (by omega), by decide, by decide⟩
  | case3 a b =>
    have ha := a.toNat_lt
    have hb := b.toNat_lt
    simp only [List.mem_cons, List.not_mem_nil, or_false, forall_eq_or_imp, forall_eq]
    exact ⟨digit_ascii_all _ (by omega), digit_ascii_all _ (by omega),
      digit_ascii_all _ (by omega), by decide⟩
  | case4 a b c rest ih =>
    have ha := a.toNat_lt
    have hb := b.toNat_lt
    have hc := c.toNat_lt
    simp only [List.mem_cons, forall_eq_or_imp]
    exact ⟨digit_ascii_all _ (by omega), digit_ascii_all _ (by omega),
      digit_ascii_all _ (by omega), digit_ascii_all _ (by omega), ih⟩

/-- Whether a decoder that skips what it does not know is done at the end of a text: by a completed
padding, or between two groups. -/
def finishes (position pads : Nat) : List Char → Bool
  | [] => position == 0
  | c :: rest =>
    if c = '=' then
      if 2 ≤ position then
        if 4 ≤ position + (pads + 1) then true else finishes position (pads + 1) rest
      else finishes position pads rest
    else if (value c).isSome then finishes ((position + 1) % 4) 0 rest
    else finishes position pads rest

theorem Quad.position_feed (quad : Quad) (v : Nat) :
    (quad.feed v).1.position = (quad.position + 1) % 4 := by
  cases quad <;> simp [feed, position]

theorem isSome_decodeFrom (quad : Quad) (pads : Nat) (text : List Char) :
    (decodeFrom quad pads text).isSome = finishes quad.position pads text := by
  induction text generalizing quad pads with
  | nil => cases quad <;> rfl
  | cons c rest ih =>
    rw [decodeFrom, finishes]
    split
    · split
      · split
        · rfl
        · exact ih quad (pads + 1)
      · exact ih quad pads
    · cases hc : value c with
      | none => exact ih quad pads
      | some v =>
        dsimp only
        rw [Option.isSome_map, ih, Quad.position_feed]
        simp

theorem isSome_decode (text : List Char) : (decode text).isSome = finishes 0 0 text :=
  isSome_decodeFrom .start 0 text

/-- The texts that are encodings: groups of four characters of the alphabet, the last of which may be
padded, with no bits left over. -/
def canonical : List Char → Bool
  | [] => true
  | [a, b, c, d] =>
    if d = '=' then
      if c = '=' then (value a).isSome && (value b).any (· % 16 == 0)
      else (value a).isSome && (value b).isSome && (value c).any (· % 4 == 0)
    else (value a).isSome && (value b).isSome && (value c).isSome && (value d).isSome
  | a :: b :: c :: d :: rest =>
    (value a).isSome && (value b).isSome && (value c).isSome && (value d).isSome && canonical rest
  | _ => false

theorem digit_of_value_all : ∀ n < 128, ∀ v ∈ value (Char.ofNat n), v < 64 ∧ digit v = Char.ofNat n := by
  decide

theorem value_ascii {c : Char} {v : Nat} (h : value c = some v) : c.toNat < 128 := by
  by_contra hc
  have hnot (d : Char) (hd : d.toNat < 128) : ¬c ≤ d ∧ c ≠ d := by
    have hle : ¬c ≤ d := fun hle => hc (Nat.lt_of_le_of_lt (show c.toNat ≤ d.toNat from hle) hd)
    exact ⟨hle, fun he => hle (he ▸ Char.le_refl c)⟩
  rw [value] at h
  rw [if_neg fun h => (hnot 'Z' (by decide)).1 h.2, if_neg fun h => (hnot 'z' (by decide)).1 h.2,
    if_neg fun h => (hnot '9' (by decide)).1 h.2, if_neg (hnot '+' (by decide)).2,
    if_neg (hnot '/' (by decide)).2] at h
  cases h

theorem digit_of_value {c : Char} {v : Nat} (h : value c = some v) : v < 64 ∧ digit v = c := by
  have := digit_of_value_all c.toNat (value_ascii h) v (by rw [Char.ofNat_toNat]; exact h)
  rwa [Char.ofNat_toNat] at this

theorem canonical_encode (bytes : List UInt8) : canonical (encode bytes) = true := by
  fun_induction encode bytes with
  | case1 => rfl
  | case2 a =>
    have ha := a.toNat_lt
    simp [canonical, value_digit_all _ (show a.toNat / 4 < 64 by omega),
      value_digit_all _ (show a.toNat % 4 * 16 < 64 by omega)]
  | case3 a b =>
    have ha := a.toNat_lt
    have hb := b.toNat_lt
    simp [canonical, digit_ne_pad_all _ (show b.toNat % 16 * 4 < 64 by omega),
      value_digit_all _ (show a.toNat / 4 < 64 by omega),
      value_digit_all _ (show a.toNat % 4 * 16 + b.toNat / 16 < 64 by omega),
      value_digit_all _ (show b.toNat % 16 * 4 < 64 by omega)]
  | case4 a b c rest ih =>
    have ha := a.toNat_lt
    have hb := b.toNat_lt
    have hc := c.toNat_lt
    have h₁ := value_digit_all _ (show a.toNat / 4 < 64 by omega)
    have h₂ := value_digit_all _ (show a.toNat % 4 * 16 + b.toNat / 16 < 64 by omega)
    have h₃ := value_digit_all _ (show b.toNat % 16 * 4 + c.toNat / 64 < 64 by omega)
    have h₄ := value_digit_all _ (show c.toNat % 64 < 64 by omega)
    cases hrest : encode rest with
    | nil => simp [canonical, digit_ne_pad_all _ (show c.toNat % 64 < 64 by omega), h₁, h₂, h₃, h₄]
    | cons d tail =>
      rw [hrest] at ih
      simp [canonical, h₁, h₂, h₃, h₄, ih]

/-- The byte of a number below 256. -/
theorem toNat_ofNat {n : Nat} (h : n < 256) : (UInt8.ofNat n).toNat = n := by
  simp [Nat.mod_eq_of_lt h]

theorem encode_group {x y z w : Nat} (hx : x < 64) (hy : y < 64) (hz : z < 64) (hw : w < 64)
    (rest : List UInt8) :
    encode (.ofNat (x * 4 + y / 16) :: .ofNat (y % 16 * 16 + z / 4) :: .ofNat (z % 4 * 64 + w) ::
      rest) = digit x :: digit y :: digit z :: digit w :: encode rest := by
  rw [encode, toNat_ofNat (by omega), toNat_ofNat (by omega), toNat_ofNat (by omega),
    show (x * 4 + y / 16) / 4 = x by omega,
    show (x * 4 + y / 16) % 4 * 16 + (y % 16 * 16 + z / 4) / 16 = y by omega,
    show (y % 16 * 16 + z / 4) % 16 * 4 + (z % 4 * 64 + w) / 64 = z by omega,
    show (z % 4 * 64 + w) % 64 = w by omega]

theorem encode_of_canonical {text : List Char} (h : canonical text = true) :
    ∃ bytes, encode bytes = text := by
  fun_induction canonical text with
  | case1 => exact ⟨[], rfl⟩
  | case2 a b =>
    simp only [Bool.and_eq_true, Option.isSome_iff_exists, Option.any_eq_true, beq_iff_eq] at h
    obtain ⟨⟨x, hx⟩, y, hy, hzero⟩ := h
    obtain ⟨hx', rfl⟩ := digit_of_value hx
    obtain ⟨hy', rfl⟩ := digit_of_value hy
    refine ⟨[.ofNat (x * 4 + y / 16)], ?_⟩
    rw [encode, toNat_ofNat (by omega), show (x * 4 + y / 16) / 4 = x by omega,
      show (x * 4 + y / 16) % 4 * 16 = y by omega]
  | case3 a b c =>
    simp only [Bool.and_eq_true, Option.isSome_iff_exists, Option.any_eq_true, beq_iff_eq] at h
    obtain ⟨⟨⟨x, hx⟩, y, hy⟩, z, hz, hzero⟩ := h
    obtain ⟨hx', rfl⟩ := digit_of_value hx
    obtain ⟨hy', rfl⟩ := digit_of_value hy
    obtain ⟨hz', rfl⟩ := digit_of_value hz
    refine ⟨[.ofNat (x * 4 + y / 16), .ofNat (y % 16 * 16 + z / 4)], ?_⟩
    rw [encode, toNat_ofNat (by omega), toNat_ofNat (by omega),
      show (x * 4 + y / 16) / 4 = x by omega,
      show (x * 4 + y / 16) % 4 * 16 + (y % 16 * 16 + z / 4) / 16 = y by omega,
      show (y % 16 * 16 + z / 4) % 16 * 4 = z by omega]
  | case4 a b c d =>
    simp only [Bool.and_eq_true, Option.isSome_iff_exists] at h
    obtain ⟨⟨⟨⟨x, hx⟩, y, hy⟩, z, hz⟩, w, hw⟩ := h
    obtain ⟨hx', rfl⟩ := digit_of_value hx
    obtain ⟨hy', rfl⟩ := digit_of_value hy
    obtain ⟨hz', rfl⟩ := digit_of_value hz
    obtain ⟨hw', rfl⟩ := digit_of_value hw
    exact ⟨_, encode_group hx' hy' hz' hw' []⟩
  | case5 a b c d rest hrest ih =>
    simp only [Bool.and_eq_true, Option.isSome_iff_exists] at h
    obtain ⟨⟨⟨⟨⟨x, hx⟩, y, hy⟩, z, hz⟩, w, hw⟩, htail⟩ := h
    obtain ⟨hx', rfl⟩ := digit_of_value hx
    obtain ⟨hy', rfl⟩ := digit_of_value hy
    obtain ⟨hz', rfl⟩ := digit_of_value hz
    obtain ⟨hw', rfl⟩ := digit_of_value hw
    obtain ⟨bytes, rfl⟩ := ih htail
    exact ⟨_, encode_group hx' hy' hz' hw' bytes⟩
  | case6 => cases h

/-- A text is an encoding exactly if it is canonical. -/
theorem canonical_iff {text : List Char} : canonical text = true ↔ ∃ bytes, encode bytes = text :=
  ⟨encode_of_canonical, fun ⟨bytes, h⟩ => h ▸ canonical_encode bytes⟩

end Base64
