import EsConnector.GateSound

namespace EsConnector.TierGate
set_option autoImplicit true

/-- What Python lets a name hold outside ASCII, at its start and behind it. -/
structure NameChars where
  starts : Char → Bool
  holds : Char → Bool
  not_space : ∀ c, holds c → pyIsSpace c = false
  holds_of_starts : ∀ c, starts c → holds c

variable (N : NameChars)

def NameChars.isStart (c : Char) : Bool :=
  c.isAlpha || c = '_' || (128 ≤ c.toNat && N.starts c)

def NameChars.isInside (c : Char) : Bool :=
  c.isAlphanum || c = '_' || (128 ≤ c.toNat && N.holds c)

/-- `str.isidentifier`. -/
def NameChars.isName : List Char → Bool
  | [] => false
  | c :: cs => N.isStart c && cs.all N.isInside

/-- The name of a class or a method. -/
structure PyName where
  text : String
  valid : N.isName text.toList

/-- `f"{Class}.{test_name}"`, of a class that may be in others. -/
def reportedName (classes : List String) (test : String) : String :=
  ".".intercalate (classes ++ [test])

variable {F : Type} (P : Python F)

/-- The name that a text starts with, if a bracket follows it. -/
def Python.bracketedName (cs : List Char) : Option (List Char) :=
  let name := cs.takeWhile P.isWord
  if P.isIdentifier name && (cs.dropWhile P.isWord).head? = some '[' then some name else none

/-- The names in a text that have a dot before them and a bracket behind them. -/
def Python.namedIn (pid : String) : List String :=
  ((afterDots pid.toList).filterMap P.bracketedName).map String.ofList

variable {N P}

theorem NameChars.isInside_not_space {c : Char} (h : N.isInside c = true) :
    pyIsSpace c = false := by
  simp only [NameChars.isInside, Bool.or_eq_true, decide_eq_true_eq, Bool.and_eq_true] at h
  rcases h with (halnum | rfl) | ⟨-, hholds⟩
  · exact isAlphanum_not_space halnum
  · decide
  · exact N.not_space c hholds

/-- A character of a name is none of those that a reported name is split at. -/
theorem NameChars.isInside_ne {c : Char} (h : N.isInside c = true) :
    c ≠ '.' ∧ c ≠ '[' ∧ c ≠ newline := by
  refine ⟨?_, ?_, ?_⟩ <;>
  · intro rfl
    cases h

theorem NameChars.isInside_of_isStart {c : Char} (h : N.isStart c = true) :
    N.isInside c = true := by
  simp only [NameChars.isStart, NameChars.isInside, Bool.or_eq_true, Bool.and_eq_true] at h ⊢
  rcases h with (halpha | hline) | ⟨hwide, hstarts⟩
  · exact .inl (.inl (by simp [Char.isAlphanum, halpha]))
  · exact .inl (.inr hline)
  · exact .inr ⟨hwide, N.holds_of_starts c hstarts⟩

theorem PyName.isInside (n : PyName N) : ∀ c ∈ n.text.toList, N.isInside c = true := by
  have hvalid := n.valid
  intro c hc
  cases htext : n.text.toList with
  | nil =>
    rw [htext] at hc
    cases hc
  | cons d ds =>
    rw [htext, NameChars.isName, Bool.and_eq_true, List.all_eq_true] at hvalid
    rw [htext] at hc
    rcases List.mem_cons.mp hc with rfl | hc
    · exact NameChars.isInside_of_isStart hvalid.1
    · exact hvalid.2 c hc

theorem PyName.ne_nil (n : PyName N) : n.text.toList ≠ [] := by
  intro hnil
  have hvalid := n.valid
  rw [hnil] at hvalid
  cases hvalid

/-- The characters of a reported name before its bracket. -/
def dotted (names : List (PyName N)) : List Char :=
  ['.'].intercalate (names.map (·.text.toList))

theorem dotted_cons {n : PyName N} {names : List (PyName N)} (h : names ≠ []) :
    dotted (n :: names) = n.text.toList ++ '.' :: dotted names := by
  rw [dotted, List.map_cons, List.intercalate_cons_of_ne_nil (by simpa using h),
    List.append_assoc]
  rfl

theorem dotted_singleton (n : PyName N) : dotted [n] = n.text.toList :=
  List.intercalate_singleton

theorem mem_dotted {names : List (PyName N)} :
    ∀ c ∈ dotted names, c = '.' ∨ N.isInside c = true := by
  induction names with
  | nil => exact nofun
  | cons n names ih =>
    intro c hc
    by_cases hnil : names = []
    · rw [hnil, dotted_singleton] at hc
      exact .inr (n.isInside c hc)
    · rw [dotted_cons hnil] at hc
      rcases List.mem_append.mp hc with hc | hc
      · exact .inr (n.isInside c hc)
      · rcases List.mem_cons.mp hc with rfl | hc
        · exact .inl rfl
        · exact ih c hc

theorem dotted_ne {names : List (PyName N)} {c : Char} (hc : c ∈ dotted names) :
    c ≠ '[' ∧ c ≠ newline := by
  rcases mem_dotted c hc with rfl | hinside
  · decide
  · exact (NameChars.isInside_ne hinside).2

theorem dotted_head {names : List (PyName N)} (h : names ≠ []) :
    ∃ c rest, dotted names = c :: rest ∧ N.isInside c = true := by
  obtain ⟨n, names, rfl⟩ := List.exists_cons_of_ne_nil h
  obtain ⟨c, rest, htext⟩ := List.exists_cons_of_ne_nil n.ne_nil
  have hinside : N.isInside c = true := n.isInside c (htext ▸ List.mem_cons_self)
  by_cases hnil : names = []
  · exact ⟨c, rest, by rw [hnil, dotted_singleton, htext], hinside⟩
  · exact ⟨c, rest ++ '.' :: dotted names, by rw [dotted_cons hnil, htext]; rfl, hinside⟩

theorem dotted_last (path : List (PyName N)) (m : PyName N) :
    ∃ front, dotted (path ++ [m]) = front ++ m.text.toList := by
  induction path with
  | nil => exact ⟨[], dotted_singleton m⟩
  | cons n path ih =>
    obtain ⟨front, hfront⟩ := ih
    have hne : path ++ [m] ≠ [] := List.append_ne_nil_of_right_ne_nil _ (List.cons_ne_nil _ _)
    refine ⟨n.text.toList ++ '.' :: front, ?_⟩
    rw [List.cons_append, dotted_cons hne, hfront, List.append_assoc, List.cons_append]

/-- What a reported name ends in behind the method: nothing, or the case. -/
structure CaseSuffix (suffix : List Char) : Prop where
  front : suffix = [] ∨ suffix.head? = some '['
  back : ∀ c ∈ suffix.getLast?, c = ']'

/-- `[pid]`. -/
def bracketed (pid : String) : List Char := '[' :: (pid.toList ++ [']'])

theorem caseSuffix_nil : CaseSuffix [] := ⟨.inl rfl, nofun⟩

theorem caseSuffix_bracketed (pid : String) : CaseSuffix (bracketed pid) := by
  refine ⟨.inr rfl, ?_⟩
  intro c hc
  rw [bracketed, ← List.cons_append, List.getLast?_concat] at hc
  exact (Option.mem_some_iff.mp hc).symm

theorem newline_mem_bracketed {pid : String} : newline ∈ bracketed pid ↔ newline ∈ pid.toList := by
  have hends : newline ≠ '[' ∧ newline ≠ ']' := by decide
  simp [bracketed, hends]

theorem pyStrip_reported (path : List (PyName N)) (m : PyName N) {suffix : List Char}
    (h : CaseSuffix suffix) :
    pyStrip (dotted (path ++ [m]) ++ suffix) = dotted (path ++ [m]) ++ suffix := by
  have hne : path ++ [m] ≠ [] := List.append_ne_nil_of_right_ne_nil _ (List.cons_ne_nil _ _)
  apply pyStrip_of_ends
  · obtain ⟨c, rest, hdotted, hinside⟩ := dotted_head hne
    intro d hd
    rw [hdotted] at hd
    obtain rfl : c = d := Option.some.inj hd
    exact NameChars.isInside_not_space hinside
  · intro d hd
    rw [List.getLast?_append] at hd
    cases hsuffix : suffix.getLast? with
    | some c =>
      rw [hsuffix] at hd
      obtain rfl : c = d := Option.some.inj hd
      rw [h.back c hsuffix]
      decide
    | none =>
      obtain ⟨front, hfront⟩ := dotted_last path m
      rw [hsuffix, hfront, List.getLast?_append, List.getLast?_eq_some_getLast m.ne_nil] at hd
      obtain rfl := Option.some.inj hd
      exact NameChars.isInside_not_space (m.isInside _ (List.getLast_mem _))

theorem takeWhile_dotted {names : List (PyName N)} {suffix : List Char} (h : CaseSuffix suffix) :
    (dotted names ++ suffix).takeWhile (· ≠ '[') = dotted names ∧
      (dotted names ++ suffix).dropWhile (· ≠ '[') = suffix := by
  have hbefore : ∀ c ∈ dotted names, decide (c ≠ '[') = true :=
    fun c hc => decide_eq_true (dotted_ne hc).1
  rw [List.takeWhile_append_of_pos hbefore, List.dropWhile_append_of_pos hbefore]
  rcases h.front with rfl | hhead
  · exact ⟨List.append_nil _, rfl⟩
  · cases suffix with
    | nil => cases hhead
    | cons c cs =>
      obtain rfl : c = '[' := Option.some.inj hhead
      exact ⟨List.append_nil _, rfl⟩

theorem splitOn_dotted {names : List (PyName N)} (h : names ≠ []) :
    (dotted names).splitOn '.' = names.map (·.text.toList) := by
  apply List.splitOn_intercalate
  · intro l hl hdot
    obtain ⟨n, -, rfl⟩ := List.mem_map.mp hl
    exact (NameChars.isInside_ne (n.isInside _ hdot)).1 rfl
  · simpa using h

/-- The names of a path are such that the expressions know them. -/
def Plain (P : Python F) (names : List (PyName N)) : Prop :=
  ∀ n ∈ names, P.isIdentifier n.text.toList = true

theorem stripClass_reported (path : List (PyName N)) (m : PyName N) {suffix : List Char}
    (h : CaseSuffix suffix) (hplain : Plain P (path ++ [m])) :
    stripClass P (String.ofList (dotted (path ++ [m]) ++ suffix)) =
      String.ofList (m.text.toList ++ suffix) := by
  have hne : path ++ [m] ≠ [] := List.append_ne_nil_of_right_ne_nil _ (List.cons_ne_nil _ _)
  obtain ⟨htake, hdrop⟩ := @takeWhile_dotted _ (path ++ [m]) suffix h
  have hall : ((path ++ [m]).map (·.text.toList)).all P.isIdentifier = true := by
    rw [List.all_map, List.all_eq_true]
    exact hplain
  rw [stripClass, String.toList_ofList, pyStrip_reported path m h, htake, hdrop,
    splitOn_dotted hne, if_pos hall, List.map_append]
  simp

theorem stripClass_reported_of_not (path : List (PyName N)) (m : PyName N) {suffix : List Char}
    (h : CaseSuffix suffix) (hplain : ¬Plain P (path ++ [m])) :
    stripClass P (String.ofList (dotted (path ++ [m]) ++ suffix)) =
      String.ofList (dotted (path ++ [m]) ++ suffix) := by
  have hne : path ++ [m] ≠ [] := List.append_ne_nil_of_right_ne_nil _ (List.cons_ne_nil _ _)
  obtain ⟨htake, hdrop⟩ := @takeWhile_dotted _ (path ++ [m]) suffix h
  have hall : ¬((path ++ [m]).map (·.text.toList)).all P.isIdentifier = true := by
    rw [List.all_map, List.all_eq_true]
    exact hplain
  rw [stripClass, String.toList_ofList, pyStrip_reported path m h, htake, splitOn_dotted hne,
    if_neg hall]

theorem stripClass_reported_iff (path : List (PyName N)) (m : PyName N) {suffix : List Char}
    (h : CaseSuffix suffix) :
    stripClass P (String.ofList (dotted (path ++ [m]) ++ suffix)) =
      String.ofList (m.text.toList ++ suffix) ↔ path = [] ∨ Plain P (path ++ [m]) := by
  by_cases hplain : Plain P (path ++ [m])
  · exact iff_of_true (stripClass_reported path m h hplain) (.inr hplain)
  · rw [stripClass_reported_of_not path m h hplain, or_iff_left hplain, String.ofList_inj,
      List.append_left_inj]
    cases path with
    | nil => exact iff_of_true (dotted_singleton m) rfl
    | cons n path =>
      apply iff_of_false
      · intro heq
        obtain ⟨front, hfront⟩ := dotted_last path m
        have hlength := congrArg List.length heq
        rw [List.cons_append, dotted_cons (by simp), hfront] at hlength
        simp only [List.length_append, List.length_cons] at hlength
        omega
      · exact List.cons_ne_nil _ _

theorem sourceMethod_eq (reported : String) :
    sourceMethod P reported =
      (((pyStrip reported.toList :: afterDots (pyStrip reported.toList)).filterMap
        P.leadingMethod).getLast?.map String.ofList).getD reported := by
  rw [sourceMethod, List.getLast?_filterMap, List.reverse_cons]
  cases List.findSome? _ _ <;> rfl

theorem afterDots_append {xs : List Char} (h : newline ∉ xs) (ys : List Char) :
    afterDots (xs ++ ys) = (afterDots xs).map (· ++ ys) ++ afterDots ys := by
  induction xs with
  | nil => rfl
  | cons x xs ih =>
    have hx : x ≠ newline := Ne.symm (List.ne_of_not_mem_cons h)
    have hxs : newline ∉ xs := List.not_mem_of_not_mem_cons h
    rw [List.cons_append, afterDots, afterDots, if_neg hx, if_neg hx]
    split
    · rw [ih hxs, List.map_cons, List.cons_append]
    · exact ih hxs

theorem afterDots_suffix {cs : List Char} : ∀ x ∈ afterDots cs, x <:+ cs := by
  induction cs with
  | nil => exact nofun
  | cons c cs ih =>
    intro x hx
    rw [afterDots] at hx
    split at hx
    · cases hx
    split at hx
    · rcases List.mem_cons.mp hx with rfl | hx
      · exact List.suffix_cons c _
      · exact (ih x hx).trans (List.suffix_cons c _)
    · exact (ih x hx).trans (List.suffix_cons c _)

theorem newline_mem_afterDots {cs : List Char} (h : newline ∈ cs) :
    ∀ x ∈ afterDots cs, newline ∈ x := by
  induction cs with
  | nil => exact nofun
  | cons c cs ih =>
    rw [afterDots]
    by_cases hc : c = newline
    · rw [if_pos hc]
      exact nofun
    · have hrest : newline ∈ cs := (List.mem_cons.mp h).resolve_left (Ne.symm hc)
      rw [if_neg hc]
      split
      · exact List.forall_mem_cons.mpr ⟨hrest, ih hrest⟩
      · exact ih hrest

theorem afterDots_eq_nil {cs : List Char} (h : '.' ∉ cs) : afterDots cs = [] := by
  induction cs with
  | nil => rfl
  | cons c cs ih =>
    have hc : c ≠ '.' := Ne.symm (List.ne_of_not_mem_cons h)
    rw [afterDots, if_neg hc, ih (List.not_mem_of_not_mem_cons h)]
    exact ite_self _

theorem PyName.afterDots_eq (n : PyName N) : afterDots n.text.toList = [] :=
  afterDots_eq_nil fun hdot => (NameChars.isInside_ne (n.isInside _ hdot)).1 rfl

theorem afterDots_dotted_cons (n : PyName N) (path : List (PyName N)) (m : PyName N) :
    afterDots (dotted (n :: path ++ [m])) =
      dotted (path ++ [m]) :: afterDots (dotted (path ++ [m])) := by
  have hne : path ++ [m] ≠ [] := List.append_ne_nil_of_right_ne_nil _ (List.cons_ne_nil _ _)
  have hline : newline ∉ n.text.toList :=
    fun hmem => (NameChars.isInside_ne (n.isInside _ hmem)).2.2 rfl
  rw [List.cons_append, dotted_cons hne, afterDots_append hline, n.afterDots_eq, List.map_nil,
    List.nil_append, afterDots, if_neg (by decide), if_pos rfl]

theorem last_afterDots_dotted (path : List (PyName N)) (m : PyName N) :
    ∃ front, dotted (path ++ [m]) :: afterDots (dotted (path ++ [m])) =
      front ++ [m.text.toList] := by
  induction path with
  | nil =>
    rw [List.nil_append, dotted_singleton, m.afterDots_eq]
    exact ⟨[], rfl⟩
  | cons n path ih =>
    obtain ⟨front, hfront⟩ := ih
    refine ⟨dotted (n :: path ++ [m]) :: front, ?_⟩
    rw [afterDots_dotted_cons, hfront]
    rfl

theorem Python.isWord_ne {c : Char} (h : P.isWord c = true) :
    c ≠ ']' ∧ c ≠ '[' ∧ c ≠ newline := by
  refine ⟨?_, ?_, ?_⟩ <;>
  · intro rfl
    cases h

theorem Python.isIdentifier_isWord {cs : List Char} (h : P.isIdentifier cs = true) :
    ∀ c ∈ cs, P.isWord c = true := by
  cases cs with
  | nil => exact nofun
  | cons c cs =>
    rw [Python.isIdentifier, Bool.and_eq_true, List.all_eq_true] at h
    intro d hd
    rcases List.mem_cons.mp hd with rfl | hd
    · simp only [Bool.or_eq_true] at h
      simp only [Python.isWord, Char.isAlphanum, Bool.or_eq_true]
      exact .inl (h.1.imp_left .inl)
    · exact h.2 d hd

theorem leadingMethod_isIdentifier {cs name : List Char} (h : P.leadingMethod cs = some name) :
    P.isIdentifier name = true := by
  rw [Python.leadingMethod] at h
  split at h
  · rename_i hname
    obtain rfl := Option.some.inj h
    exact (Bool.and_eq_true_iff.mp hname).1
  · cases h

theorem leadingMethod_of_newline {cs : List Char} (h : newline ∈ cs) :
    P.leadingMethod cs = none := by
  have hrest : newline ∈ cs.dropWhile P.isWord := by
    rw [← cs.takeWhile_append_dropWhile (p := P.isWord)] at h
    apply (List.mem_append.mp h).resolve_left
    intro hmem
    exact (Python.isWord_ne (List.mem_takeWhile_imp hmem)).2.2 rfl
  have hbracketed : isBracketed (cs.dropWhile P.isWord) = false := by simp [isBracketed, hrest]
  have hempty : (cs.dropWhile P.isWord).isEmpty = false :=
    List.isEmpty_eq_false_iff.mpr (List.ne_nil_of_mem hrest)
  rw [Python.leadingMethod, hbracketed, hempty, Bool.or_self, Bool.and_false]
  rfl

theorem takeWhile_close (cs : List Char) :
    (cs ++ [']']).takeWhile P.isWord = cs.takeWhile P.isWord ∧
      (cs ++ [']']).dropWhile P.isWord = cs.dropWhile P.isWord ++ [']'] := by
  have hclose : P.isWord ']' = false := rfl
  induction cs with
  | nil => exact ⟨rfl, rfl⟩
  | cons c cs ih =>
    rw [List.cons_append, List.takeWhile_cons, List.takeWhile_cons, List.dropWhile_cons,
      List.dropWhile_cons]
    split
    · exact ⟨congrArg (c :: ·) ih.1, ih.2⟩
    · exact ⟨rfl, rfl⟩

theorem isBracketed_close {rest : List Char} (h : newline ∉ rest) :
    ((rest ++ [']']).isEmpty || isBracketed (rest ++ [']'])) =
      decide (rest.head? = some '[') := by
  cases rest with
  | nil => rfl
  | cons c rest =>
    have hline : newline ∉ c :: rest ++ [']'] := by
      rw [List.mem_append, List.mem_singleton]
      exact not_or.mpr ⟨h, by decide⟩
    rw [isBracketed, List.getLast?_concat, decide_eq_true hline]
    simp

theorem leadingMethod_close {cs : List Char} (h : newline ∉ cs) :
    P.leadingMethod (cs ++ [']']) = P.bracketedName cs := by
  have hline : newline ∉ cs.dropWhile P.isWord :=
    fun hmem => h ((List.dropWhile_suffix _).subset hmem)
  obtain ⟨htake, hdrop⟩ := @takeWhile_close _ P cs
  rw [Python.leadingMethod, htake, hdrop, isBracketed_close hline]
  rfl

theorem leadingMethod_suffix {name suffix : List Char} (hname : P.isIdentifier name = true)
    (h : CaseSuffix suffix) (hline : newline ∉ suffix) :
    P.leadingMethod (name ++ suffix) = some name := by
  have hword := Python.isIdentifier_isWord hname
  have hsuffix : suffix.takeWhile P.isWord = [] ∧ suffix.dropWhile P.isWord = suffix := by
    cases suffix with
    | nil => exact ⟨rfl, rfl⟩
    | cons c rest =>
      obtain rfl : c = '[' := Option.some.inj (h.front.resolve_left (List.cons_ne_nil _ _))
      exact ⟨rfl, rfl⟩
  have hrest : (suffix.isEmpty || isBracketed suffix) = true := by
    rcases h.front with rfl | hhead
    · rfl
    · cases hlast : suffix.getLast? with
      | none =>
        rw [List.getLast?_eq_none_iff.mp hlast] at hhead
        cases hhead
      | some c => simp [isBracketed, hhead, hlast, h.back c hlast, hline]
  rw [Python.leadingMethod, List.takeWhile_append_of_pos hword, List.dropWhile_append_of_pos hword,
    hsuffix.1, hsuffix.2, List.append_nil, hname, hrest]
  rfl

theorem leadingMethod_front {x suffix name : List Char} (hx : '[' ∉ x) (h : CaseSuffix suffix)
    (hname : P.leadingMethod (x ++ suffix) = some name) : name = x := by
  have hsplit {front back : List Char} (hfront : '[' ∉ front)
      (hback : back = [] ∨ back.head? = some '[') :
      (front ++ back).takeWhile (· ≠ '[') = front := by
    have hall : ∀ c ∈ front, decide (c ≠ '[') = true := by
      intro c hc
      exact decide_eq_true fun heq => hfront (heq ▸ hc)
    rw [List.takeWhile_append_of_pos hall]
    rcases hback with rfl | hhead
    · exact List.append_nil _
    · cases back with
      | nil => cases hhead
      | cons c rest =>
        obtain rfl : c = '[' := Option.some.inj hhead
        exact List.append_nil _
  rw [Python.leadingMethod] at hname
  split at hname
  · rename_i hmethod
    obtain rfl := Option.some.inj hname
    have hword : '[' ∉ (x ++ suffix).takeWhile P.isWord :=
      fun hmem => (Python.isWord_ne (List.mem_takeWhile_imp hmem)).2.1 rfl
    have hrest : (x ++ suffix).dropWhile P.isWord = [] ∨
        ((x ++ suffix).dropWhile P.isWord).head? = some '[' := by
      simp only [Bool.and_eq_true, Bool.or_eq_true, List.isEmpty_iff, isBracketed,
        decide_eq_true_eq] at hmethod
      exact hmethod.2.imp_right fun hbracketed => hbracketed.1.1
    have htake := hsplit hword hrest
    rw [List.takeWhile_append_dropWhile, hsplit hx h.front] at htake
    exact htake.symm
  · cases hname

theorem dotless_text (path : List (PyName N)) (m : PyName N) :
    ∀ x ∈ dotted (path ++ [m]) :: afterDots (dotted (path ++ [m])), '.' ∉ x →
      x = m.text.toList := by
  induction path with
  | nil =>
    intro x hx hdotless
    rw [List.nil_append, dotted_singleton, PyName.afterDots_eq] at hx
    exact List.mem_singleton.mp hx
  | cons n path ih =>
    intro x hx hdotless
    rw [afterDots_dotted_cons] at hx
    rcases List.mem_cons.mp hx with rfl | hx
    · have hne : path ++ [m] ≠ [] := List.append_ne_nil_of_right_ne_nil _ (List.cons_ne_nil _ _)
      have hdot : '.' ∈ dotted (n :: path ++ [m]) := by
        rw [List.cons_append, dotted_cons hne]
        exact List.mem_append_right _ List.mem_cons_self
      exact absurd hdot hdotless
    · exact ih x hx hdotless

theorem last_leadingMethod (path : List (PyName N)) (m : PyName N) {suffix : List Char}
    (h : CaseSuffix suffix) (hline : newline ∉ suffix) :
    (((dotted (path ++ [m]) :: afterDots (dotted (path ++ [m]))).map (· ++ suffix)).filterMap
      P.leadingMethod).getLast? =
      if P.isIdentifier m.text.toList then some m.text.toList else none := by
  by_cases hm : P.isIdentifier m.text.toList = true
  · obtain ⟨front, hfront⟩ := last_afterDots_dotted path m
    rw [if_pos hm, hfront, List.map_append, List.filterMap_append, List.map_singleton,
      List.filterMap_cons_some (leadingMethod_suffix hm h hline), List.filterMap_nil,
      List.getLast?_concat]
  · rw [if_neg hm, List.getLast?_eq_none_iff, List.filterMap_map, List.filterMap_eq_nil_iff]
    intro x hx
    by_contra hsome
    obtain ⟨name, hname⟩ := Option.ne_none_iff_exists'.mp hsome
    have hbefore : '[' ∉ x := by
      intro hmem
      have hdotted : '[' ∈ dotted (path ++ [m]) := by
        rcases List.mem_cons.mp hx with rfl | hx
        · exact hmem
        · exact (afterDots_suffix x hx).subset hmem
      exact (dotted_ne hdotted).1 rfl
    obtain rfl := leadingMethod_front hbefore h hname
    have hknown := leadingMethod_isIdentifier hname
    have hdotless : '.' ∉ name := fun hmem => by cases Python.isIdentifier_isWord hknown _ hmem
    exact hm (dotless_text path m name hx hdotless ▸ hknown)

/-- A name in the case that looks like a method with a case is taken for the method. -/
theorem sourceMethod_case (path : List (PyName N)) (m : PyName N) {pid : String}
    (hline : newline ∉ pid.toList) :
    sourceMethod P (String.ofList (dotted (path ++ [m]) ++ bracketed pid)) =
      (P.namedIn pid).getLast?.getD (if P.isIdentifier m.text.toList then m.text
        else String.ofList (dotted (path ++ [m]) ++ bracketed pid)) := by
  have hsuffix := caseSuffix_bracketed pid
  have hdottedLine : newline ∉ dotted (path ++ [m]) := fun hmem => (dotted_ne hmem).2 rfl
  -- the texts behind the dots of the classes, and then those behind the dots of the case
  have htexts : (dotted (path ++ [m]) ++ bracketed pid) ::
        afterDots (dotted (path ++ [m]) ++ bracketed pid) =
      (dotted (path ++ [m]) :: afterDots (dotted (path ++ [m]))).map (· ++ bracketed pid) ++
        (afterDots pid.toList).map (· ++ [']']) := by
    have hcase : afterDots (bracketed pid) = (afterDots pid.toList).map (· ++ [']']) := by
      have hclosed : afterDots [']'] = [] := rfl
      rw [bracketed, afterDots, if_neg (by decide), if_neg (by decide), afterDots_append hline,
        hclosed, List.append_nil]
    rw [afterDots_append hdottedLine, hcase]
    rfl
  have hclose : ((afterDots pid.toList).map (· ++ [']'])).filterMap P.leadingMethod =
      (afterDots pid.toList).filterMap P.bracketedName := by
    rw [List.filterMap_map]
    apply List.filterMap_congr
    intro x hx
    exact leadingMethod_close fun hmem => hline ((afterDots_suffix x hx).subset hmem)
  rw [sourceMethod_eq, String.toList_ofList, pyStrip_reported path m hsuffix, htexts,
    List.filterMap_append, hclose, List.getLast?_append,
    last_leadingMethod path m hsuffix (newline_mem_bracketed.not.mpr hline), Python.namedIn,
    List.getLast?_map]
  cases ((afterDots pid.toList).filterMap P.bracketedName).getLast? with
  | none =>
    split
    · exact String.ofList_toList
    · rfl
  | some n => rfl

theorem sourceMethod_alone (path : List (PyName N)) (m : PyName N) :
    sourceMethod P (String.ofList (dotted (path ++ [m]))) =
      if P.isIdentifier m.text.toList then m.text else String.ofList (dotted (path ++ [m])) := by
  have hstripped := pyStrip_reported path m caseSuffix_nil
  have hlast := @last_leadingMethod _ _ P path m _ caseSuffix_nil List.not_mem_nil
  simp only [List.append_nil, List.map_id'] at hstripped hlast
  rw [sourceMethod_eq, String.toList_ofList, hstripped, hlast]
  split
  · exact String.ofList_toList
  · rfl

theorem sourceMethod_newline {reported : String} (h : newline ∈ pyStrip reported.toList) :
    sourceMethod P reported = reported := by
  have hnone : (pyStrip reported.toList :: afterDots (pyStrip reported.toList)).filterMap
      P.leadingMethod = [] := by
    rw [List.filterMap_eq_nil_iff]
    intro x hx
    rcases List.mem_cons.mp hx with rfl | hx
    · exact leadingMethod_of_newline h
    · exact leadingMethod_of_newline (newline_mem_afterDots h x hx)
  rw [sourceMethod_eq, hnone]
  rfl

theorem reported_ne_method (path : List (PyName N)) (m : PyName N) (pid : String) :
    String.ofList (dotted (path ++ [m]) ++ bracketed pid) ≠ m.text := by
  intro heq
  have hmem : '[' ∈ m.text.toList := by
    rw [← heq, String.toList_ofList]
    exact List.mem_append_right _ List.mem_cons_self
  exact (NameChars.isInside_ne (m.isInside _ hmem)).2.1 rfl

theorem namedIn_isIdentifier {pid : String} : ∀ n ∈ P.namedIn pid, P.isIdentifier n.toList = true := by
  intro n hn
  obtain ⟨name, hname, rfl⟩ := List.mem_map.mp hn
  obtain ⟨x, -, hx⟩ := List.mem_filterMap.mp hname
  rw [Python.bracketedName] at hx
  split at hx
  · rename_i hknown
    obtain rfl := Option.some.inj hx
    rw [String.toList_ofList]
    exact (Bool.and_eq_true_iff.mp hknown).1
  · cases hx

theorem sourceMethod_case_newline (path : List (PyName N)) (m : PyName N) {pid : String}
    (hline : newline ∈ pid.toList) :
    sourceMethod P (String.ofList (dotted (path ++ [m]) ++ bracketed pid)) =
      String.ofList (dotted (path ++ [m]) ++ bracketed pid) := by
  apply sourceMethod_newline
  rw [String.toList_ofList, pyStrip_reported path m (caseSuffix_bracketed _)]
  exact List.mem_append_right _ (newline_mem_bracketed.mpr hline)

/-- The method of a reported case is found where the expression knows it and its case is one line in
which the last name with a dot before it and a bracket behind it is the method, if there is one. -/
theorem sourceMethod_case_iff (path : List (PyName N)) (m : PyName N) (pid : String) :
    sourceMethod P (String.ofList (dotted (path ++ [m]) ++ bracketed pid)) = m.text ↔
      P.isIdentifier m.text.toList = true ∧ newline ∉ pid.toList ∧
        ∀ n ∈ (P.namedIn pid).getLast?, n = m.text := by
  have hreported := reported_ne_method path m pid
  by_cases hline : newline ∈ pid.toList
  · rw [sourceMethod_case_newline path m hline]
    exact iff_of_false hreported fun h => h.2.1 hline
  · rw [sourceMethod_case path m hline]
    simp only [hline, not_false_eq_true, true_and]
    cases hlast : (P.namedIn pid).getLast? with
    | none =>
      by_cases hm : P.isIdentifier m.text.toList = true
      · simp [hm]
      · rw [if_neg hm]
        exact iff_of_false hreported fun h => hm h.1
    | some n =>
      have hknown := namedIn_isIdentifier n (List.mem_of_getLast? hlast)
      simp only [Option.getD_some, Option.mem_def, Option.some.injEq, forall_eq']
      constructor
      · intro rfl
        exact ⟨hknown, rfl⟩
      · exact fun h => h.2

theorem reportedName_eq (path : List (PyName N)) (m : PyName N) (suffix : List Char) :
    reportedName (path.map PyName.text) (m.text ++ String.ofList suffix) =
      String.ofList (dotted (path ++ [m]) ++ suffix) := by
  apply String.toList_injective
  simp only [reportedName, String.toList_intercalate, String.toList_ofList, List.map_append,
    List.map_singleton, String.toList_append]
  induction path with
  | nil =>
    rw [List.nil_append, dotted_singleton]
    exact List.intercalate_singleton
  | cons n path ih =>
    have hne : path ++ [m] ≠ [] := List.append_ne_nil_of_right_ne_nil _ (List.cons_ne_nil _ _)
    rw [List.map_cons, List.map_cons, List.cons_append, List.cons_append, dotted_cons hne,
      List.intercalate_cons_of_ne_nil (by simp), ih]
    simp

theorem caseName_eq (name pid : String) :
    caseName name pid = name ++ String.ofList (bracketed pid) := by
  apply String.toList_injective
  simp [caseName, bracketed]

theorem stripClass_reportedName_iff (path : List (PyName N)) (m : PyName N) {suffix : List Char}
    (h : CaseSuffix suffix) :
    stripClass P (reportedName (path.map PyName.text) (m.text ++ String.ofList suffix)) =
      m.text ++ String.ofList suffix ↔ path = [] ∨ Plain P (path ++ [m]) := by
  have hbare : m.text ++ String.ofList suffix = String.ofList (m.text.toList ++ suffix) := by
    rw [String.ofList_append, String.ofList_toList]
  rw [reportedName_eq, hbare]
  exact stripClass_reported_iff path m h

theorem sourceMethod_reportedName_iff (path : List (PyName N)) (m : PyName N) (pid : String) :
    sourceMethod P (reportedName (path.map PyName.text) (caseName m.text pid)) = m.text ↔
      P.isIdentifier m.text.toList = true ∧ newline ∉ pid.toList ∧
        ∀ n ∈ (P.namedIn pid).getLast?, n = m.text := by
  rw [caseName_eq, reportedName_eq]
  exact sourceMethod_case_iff path m pid

/-- Reported names are parsed back just where the expressions know the names of the classes and of
the method, and no text of the case is taken for the method. -/
theorem reported_names_parsed_iff (P : Python F) (N : NameChars) (path : List (PyName N))
    (m : PyName N) (pid : String) :
    (stripClass P (reportedName (path.map PyName.text) (caseName m.text pid)) =
          caseName m.text pid ∧
        stripClass P (reportedName (path.map PyName.text) m.text) = m.text ∧
        sourceMethod P (reportedName (path.map PyName.text) (caseName m.text pid)) = m.text ∧
        sourceMethod P (caseName m.text pid) = m.text) ↔
      ((∀ n ∈ path ++ [m], P.isIdentifier n.text.toList = true) ∧ newline ∉ pid.toList ∧
        ∀ n ∈ (P.namedIn pid).getLast?, n = m.text) := by
  have hcase := @stripClass_reportedName_iff _ _ P path m _ (caseSuffix_bracketed pid)
  have hclass := @stripClass_reportedName_iff _ _ P path m _ caseSuffix_nil
  rw [← caseName_eq] at hcase
  rw [String.ofList_nil, String.append_empty] at hclass
  have hbare : reportedName (([] : List (PyName N)).map PyName.text) (caseName m.text pid) =
      caseName m.text pid := String.intercalate_singleton
  have hmethod := @sourceMethod_reportedName_iff _ _ P path m pid
  have hmethod' := @sourceMethod_reportedName_iff _ _ P [] m pid
  rw [hbare] at hmethod'
  rw [hcase, hclass, hmethod, hmethod']
  constructor
  · rintro ⟨hpath, -, hm, -⟩
    constructor
    · rcases hpath with rfl | hplain
      · intro n hn
        rw [List.mem_singleton.mp hn]
        exact hm.1
      · exact hplain
    · exact hm.2
  · rintro ⟨hplain, hcase⟩
    have hm := hplain m (List.mem_append_right _ List.mem_cons_self)
    exact ⟨.inr hplain, .inr hplain, ⟨hm, hcase⟩, ⟨hm, hcase⟩⟩

/-- Names without characters outside ASCII. -/
def plainNames : NameChars where
  starts _ := false
  holds _ := false
  not_space _ := nofun
  holds_of_starts _ := id

/-- A case whose id names an element of an attribute is credited to that attribute. -/
theorem case_taken_for_method :
    sourceMethod plainPython (reportedName ["TestX"] (caseName "test_a" "x.y[z]")) = "y" ∧
    ¬∀ (path : List (PyName plainNames)) (m : PyName plainNames) (pid : String),
      stripClass plainPython (reportedName (path.map PyName.text) (caseName m.text pid)) =
          caseName m.text pid ∧
        stripClass plainPython (reportedName (path.map PyName.text) m.text) = m.text ∧
        sourceMethod plainPython (reportedName (path.map PyName.text) (caseName m.text pid)) =
          m.text ∧
        sourceMethod plainPython (caseName m.text pid) = m.text := by
  have hmethod : sourceMethod plainPython (reportedName ["TestX"] (caseName "test_a" "x.y[z]")) =
      "y" := by decide
  constructor
  · exact hmethod
  · intro h
    have hclaimed := (h [⟨"TestX", by decide⟩] ⟨"test_a", by decide⟩ "x.y[z]").2.2.1
    exact absurd (hmethod.symm.trans hclaimed) (by decide)

end EsConnector.TierGate
