import EsConnector.ReadRules

namespace EsConnector
set_option autoImplicit true

variable {F : Type} [PyFloat F]

section Objects

/-- A dictionary key can be a scalar only. -/
def Hashable : Json F → Prop
  | .list _ => False
  | .dict _ => False
  | _ => True

/-- An element of a sequence that `dict` takes for a key with its value: a list of two, a string of
two characters, or an object with two keys. -/
def PairLike : Json F → Prop
  | .list [k, _] => Hashable k
  | .str s => s.toList.length = 2
  | .dict items => items.length = 2
  | _ => False

/-- What `dict` takes besides objects: the empty string, and lists of pairs. -/
def DictLike : Json F → Prop
  | .str s => s = ""
  | .list xs => ∀ x ∈ xs, PairLike x
  | _ => False

def IsObject : Json F → Prop
  | .dict _ => True
  | _ => False

omit [PyFloat F] in
theorem pyKey_ok_iff (k : Json F) : (∃ key, pyKey k = .ok key) ↔ Hashable k := by
  cases k <;> simp [pyKey, Hashable]

omit [PyFloat F] in
theorem pyPair_ok_iff (x : Json F) : (∃ pair, pyPair x = .ok pair) ↔ PairLike x := by
  cases x with
  | list xs =>
    match xs with
    | [k, v] =>
      rw [PairLike, ← pyKey_ok_iff]
      constructor
      · rintro ⟨pair, h⟩
        obtain ⟨key, hkey, -⟩ := bind_ok h
        exact ⟨key, hkey⟩
      · rintro ⟨key, hkey⟩
        exact ⟨(key, v), by rw [pyPair, hkey]; rfl⟩
    | [] => simp [pyPair, PairLike]
    | [_] => simp [pyPair, PairLike]
    | _ :: _ :: _ :: _ => simp [pyPair, PairLike]
  | str s =>
    rw [pyPair, PairLike]
    match s.toList with
    | [] => simp
    | [_] => simp
    | [_, _] => simp
    | _ :: _ :: _ :: _ => simp
  | dict items =>
    match items with
    | [] => simp [pyPair, PairLike]
    | [_] => simp [pyPair, PairLike]
    | [_, _] => simp [pyPair, PairLike]
    | _ :: _ :: _ :: _ => simp [pyPair, PairLike]
  | _ => simp [pyPair, PairLike]

theorem pyDict_ok_iff (v : Json F) :
    (∃ items, pyDict v = .ok items) ↔ IsObject v ∨ DictLike v := by
  cases v with
  | list xs =>
    simp only [IsObject, DictLike, false_or, ← pyPair_ok_iff]
    constructor
    · rintro ⟨items, h⟩
      obtain ⟨pairs, hpairs, -⟩ := bind_ok h
      exact fun x hx => (mapM_ok hpairs x hx).imp fun _ hy => hy.2
    · intro h
      obtain ⟨pairs, hpairs⟩ := mapM_ok_of_forall h
      exact ⟨dictOf pairs, by rw [pyDict, hpairs]; rfl⟩
  | str s => by_cases hs : s = "" <;> simp [pyDict, IsObject, DictLike, hs]
  | _ => simp [pyDict, IsObject, DictLike]

/-- The tokens of structs and maps. -/
def TakesObjects : TypeToken → Prop
  | .struct _ => True
  | .map _ _ => True
  | _ => False

theorem pyDict_of_read {token : TypeToken} (htoken : TakesObjects token) {v : Json F}
    (hnull : v ≠ .null) {r : PyValue F} (h : readCoerce token v = .ok r) :
    ∃ items, pyDict v = .ok items := by
  cases token with
  | struct fields =>
    rw [readCoerce_struct hnull] at h
    obtain ⟨items, hitems, -⟩ := bind_ok h
    exact ⟨items, hitems⟩
  | map key value =>
    rw [readCoerce_map hnull] at h
    obtain ⟨items, hitems, -⟩ := bind_ok h
    exact ⟨items, hitems⟩
  | _ => exact absurd htoken id

/-- Structs and maps are read from objects only, wherever they are. -/
def OnlyFromObjects (v : Json F) : Prop :=
  ∀ token, TakesObjects token → ∀ outer value, Meets outer value token v →
    Raises (readCoerce outer value)

/-- A value that is not an object is refused, except where `dict` takes it. -/
theorem objects_only_iff {v : Json F} (hnull : v ≠ .null) (hobject : ¬IsObject v) :
    OnlyFromObjects v ↔ ¬DictLike v := by
  constructor
  · intro h hlike
    obtain ⟨items, hitems⟩ := (pyDict_ok_iff v).mpr (.inr hlike)
    have hread : readCoerce (.struct []) v = .ok (.dict []) := by
      rw [readCoerce_struct hnull, hitems]
      rfl
    exact raises_iff.mp (h (.struct []) trivial _ _ .here) _ hread
  · intro hlike token htoken outer value hmeets
    refine hmeets.raises (raises_iff.mpr fun r hread => ?_)
    exact ((pyDict_ok_iff v).mp (pyDict_of_read htoken hnull hread)).elim hobject hlike

theorem struct_read_from_list :
    readCoerce (.struct [("a", .scalar "string"), ("b", .scalar "string")])
        (.list [.str "ax", .str "by"] : Json Empty) =
      .ok (.dict [(.str "a", .str "x"), (.str "b", .str "y")]) ∧
    ¬OnlyFromObjects (.list [.str "ax", .str "by"] : Json Empty) := by
  have hread : readCoerce (.struct [("a", .scalar "string"), ("b", .scalar "string")])
      (.list [.str "ax", .str "by"] : Json Empty) =
        .ok (.dict [(.str "a", .str "x"), (.str "b", .str "y")]) := rfl
  refine ⟨hread, ?_⟩
  intro h
  exact raises_iff.mp (h (.struct [("a", .scalar "string"), ("b", .scalar "string")]) trivial _ _
    .here) _ hread

theorem objects_only_numbers : OnlyFromObjects (.list [.int 1, .int 2] : Json Empty) :=
  (objects_only_iff (v := .list [.int 1, .int 2]) nofun id).mpr
    fun h => h (.int 1) List.mem_cons_self

end Objects

section Guards

/-- The type of strings with a collation. -/
def AtomicType.collated (collation : String) : AtomicType := .other ("string collate " ++ collation)

/-- The scalar types that a declared schema may have. -/
inductive Admitted : AtomicType → Prop where
  | plain : (∀ name, t ≠ .other name) → Admitted t
  | collated (collation : String) : Admitted (.collated collation)
  | interval : name ∈ intervalNames → Admitted (.other name)
  | variant : Admitted (.other "variant")

/-- A JSON array or object. -/
def IsContainer : Json F → Prop
  | .list _ => True
  | .dict _ => True
  | _ => False

/-- The value is refused as one that does not fit its type. -/
def Mismatch (out : Except (PyError F) α) : Prop := ∃ e, out = .error (.schemaMismatch e)

omit [PyFloat F] in
theorem rejectNonScalar_container {v : Json F} (hv : IsContainer v) (target : String)
    (next : Unit → Except (PyError F) α) : Mismatch (rejectNonScalar v target >>= next) := by
  cases v with
  | list xs => exact ⟨_, rfl⟩
  | dict items => exact ⟨_, rfl⟩
  | _ => exact absurd hv id

/-- No container is read with the token of a scalar type, wherever it is met. -/
def RefusesContainer (t : AtomicType) (v : Json F) : Prop :=
  Mismatch (readCoerce (.scalar t.simpleString) v) ∧
    ∀ outer value, Meets outer value (.scalar t.simpleString) v → Raises (readCoerce outer value)

theorem refusesContainer_of_mismatch {t : AtomicType} {v : Json F}
    (h : Mismatch (readCoerce (.scalar t.simpleString) v)) : RefusesContainer t v := by
  obtain ⟨e, he⟩ := h
  exact ⟨⟨e, he⟩, fun outer value hmeets => hmeets.raises ⟨_, he⟩⟩

theorem readCoerce_scalar_container {target : String} (h : ¬Unsupported target) {v : Json F}
    (hv : IsContainer v) : readCoerce (.scalar target) v =
      readPresent (stripLower target) target v := by
  have hnull : v ≠ .null := by
    intro rfl
    exact hv
  rw [readCoerce, readScalar_present h hnull]

theorem mismatch_of_guard {target : String} (h : ¬Unsupported target) {v : Json F}
    (hv : IsContainer v) {next : Unit → Except (PyError F) (PyValue F)}
    (hguard : readPresent (stripLower target) target v = (rejectNonScalar v target >>= next)) :
    Mismatch (readCoerce (.scalar target) v) := by
  rw [readCoerce_scalar_container h hv, hguard]
  exact rejectNonScalar_container hv target next

theorem coerceString_container {v : Json F} (hv : IsContainer v) (target : String) :
    Mismatch (coerceString target v) := by
  cases v with
  | list xs => exact ⟨_, rfl⟩
  | dict items => exact ⟨_, rfl⟩
  | _ => exact absurd hv id

theorem mismatch_of_text {target : String} (h : target ∈ textNames) {v : Json F}
    (hv : IsContainer v) : Mismatch (readCoerce (.scalar target) v) := by
  obtain ⟨hsupported, hlower, -, -⟩ := text_branch target h
  obtain ⟨e, he⟩ := coerceString_container hv target
  rw [readCoerce_scalar_container hsupported hv, hlower, readPresent_text h, he]
  exact ⟨e, rfl⟩

/-- Every type with a name of its own has a guarded branch. -/
theorem mismatch_of_named {t : AtomicType} (ht : ∀ name, t ≠ .other name) {v : Json F}
    (hv : IsContainer v) : Mismatch (readCoerce (.scalar t.simpleString) v) := by
  have hsupported := supported_of_named ht
  cases t with
  | boolean => exact mismatch_of_guard hsupported hv readPresent_boolean
  | tinyint => exact mismatch_of_guard hsupported hv (readPresent_width rfl)
  | smallint => exact mismatch_of_guard hsupported hv (readPresent_width rfl)
  | int => exact mismatch_of_guard hsupported hv (readPresent_width rfl)
  | bigint => exact mismatch_of_guard hsupported hv (readPresent_width rfl)
  | float => exact mismatch_of_guard hsupported hv readPresent_float
  | double => exact mismatch_of_guard hsupported hv readPresent_double
  | decimal precision scale =>
    obtain ⟨rest, hrest⟩ := stripLower_decimal precision scale
    exact mismatch_of_guard hsupported hv (readPresent_decimal ⟨rest, hrest.symm⟩)
  | string => exact mismatch_of_text (by decide) hv
  | binary => exact mismatch_of_guard hsupported hv readPresent_binary
  | date => exact mismatch_of_guard hsupported hv readPresent_date
  | timestamp => exact mismatch_of_guard hsupported hv readPresent_timestamp
  | timestampNtz => exact mismatch_of_guard hsupported hv readPresent_timestampNtz
  | other name => exact absurd rfl (ht name)

omit [PyFloat F] in
theorem mem_of_lookup {α : Type} {items : List (String × α)} {k : String}
    (h : (items.lookup k).isSome) : k ∈ items.map Prod.fst := by
  obtain ⟨_, hv⟩ := Option.isSome_iff_exists.mp h
  obtain ⟨before, after, rfl, -⟩ := List.lookup_eq_some_iff.mp hv
  simp

/-- How the token of a collated string begins. -/
def collateFront : List Char := "string collate".toList

theorem stripLower_collated (collation : String) :
    collateFront <+: (stripLower (AtomicType.collated collation).simpleString).toList := by
  obtain ⟨tail, htail⟩ := stripLower_front (s := (AtomicType.collated collation).simpleString)
    (p := collateFront) (r := ' ' :: collation.toList)
    (by rw [AtomicType.collated, AtomicType.simpleString, String.toList_append]; rfl)
    (by decide) (by decide) (by decide)
  exact ⟨tail, htail.symm⟩

theorem not_collateFront : ∀ t ∈ ["timestamp", "timestamp_ntz", "date", "binary", "float", "double",
    "boolean", "string", "variant"] ++ intWidthBounds.map Prod.fst ++
    unsupportedScalarTokens.map Prod.fst, ¬collateFront <+: t.toList := by decide

theorem not_prefix_of_collateFront {front cs : List Char} (h : collateFront <+: cs)
    (hne : ¬front <+: collateFront ∧ ¬collateFront <+: front) : ¬front <+: cs := fun hfront =>
  (List.prefix_or_prefix_of_prefix hfront h).elim hne.1 hne.2

/-- The token of a collated string is no text to `read_coerce`. -/
theorem readPresent_collated (collation : String) {target : String} {v : Json F} :
    readPresent (stripLower (AtomicType.collated collation).simpleString) target v =
      .ok (.ofJson v) := by
  have hfront := stripLower_collated collation
  have hnot := not_collateFront
  generalize stripLower (AtomicType.collated collation).simpleString = t at hfront
  have hlate : LateToken t := by
    refine ⟨?_, not_prefix_of_collateFront hfront (by decide), ?_⟩
    · intro ht
      exact hnot t (List.mem_append_left _ (List.mem_append_left _
        (List.mem_append_left ["string", "variant"] ht))) hfront
    · apply Option.not_isSome_iff_eq_none.mp
      intro hwidth
      exact hnot t (List.mem_append_left _ (List.mem_append_right _ (mem_of_lookup hwidth))) hfront
  rw [hlate.readPresent, if_neg]
  · rfl
  · rintro (rfl | rfl | hinterval)
    · exact hnot _ (by decide) hfront
    · exact hnot _ (by decide) hfront
    · exact not_prefix_of_collateFront hfront (by decide) hinterval

theorem supported_collated (collation : String) :
    ¬Unsupported (AtomicType.collated collation).simpleString := fun h => by
  have hfront := stripLower_collated collation
  have hmem := mem_of_lookup h
  generalize stripLower (AtomicType.collated collation).simpleString = t at hfront hmem
  apply not_collateFront (tokenBase t) (List.mem_append_right _ hmem)
  obtain ⟨rest, hrest⟩ := hfront
  have htake : t.toList.takeWhile (· ≠ '(') = collateFront ++ rest.takeWhile (· ≠ '(') := by
    rw [← hrest, List.takeWhile_append_of_pos (by decide)]
  obtain ⟨tail, htail⟩ := pyStrip_front (p := collateFront) (rest.takeWhile (· ≠ '('))
    (by decide) (by decide) (by decide)
  exact ⟨tail, by rw [tokenBase, htake, htail, String.toList_ofList]⟩

/-- A scalar column never receives a container, unless it is a collated string. -/
theorem refuses_container_iff {t : AtomicType} (ht : Admitted t) {v : Json F} (hv : IsContainer v) :
    RefusesContainer t v ↔ ∀ collation, t ≠ .collated collation := by
  constructor
  · rintro ⟨⟨e, he⟩, -⟩ collation rfl
    rw [readCoerce_scalar_container (supported_collated collation) hv,
      readPresent_collated collation] at he
    cases he
  · intro hcollated
    apply refusesContainer_of_mismatch
    cases ht with
    | plain hnamed => exact mismatch_of_named hnamed hv
    | collated collation => exact absurd rfl (hcollated collation)
    | interval hname => exact mismatch_of_text (List.mem_cons_of_mem _ (List.mem_cons_of_mem _ hname)) hv
    | variant => exact mismatch_of_text (by decide) hv

theorem collated_string_receives_list :
    readCoerce (sparkTypeToken (.atomic (.collated "UTF8_LCASE"))) (.list [.str "a"] : Json Empty) =
      .ok (.list [.str "a"]) ∧
    Admitted (.collated "UTF8_LCASE") ∧
    ¬RefusesContainer (.collated "UTF8_LCASE") (.list [.str "a"] : Json Empty) :=
  ⟨rfl, .collated _, fun ⟨⟨_, h⟩, _⟩ => nomatch h⟩

theorem refuses_container_variant :
    RefusesContainer (.other "variant") (.dict [("a", .list [.int 1])] : Json Empty) :=
  (refuses_container_iff (v := .dict [("a", .list [.int 1])]) .variant trivial).mpr
    fun collation h => by
      have := congrArg (List.head? ∘ String.toList) (AtomicType.other.inj h)
      rw [Function.comp_apply, Function.comp_apply, String.toList_append] at this
      cases this

end Guards

end EsConnector
