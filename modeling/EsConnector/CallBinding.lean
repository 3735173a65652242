import Mathlib.Data.List.Perm.Basic
import Mathlib.Data.List.Nodup

namespace CallBinding
set_option autoImplicit true

variable {V : Type}

/-- The arguments of a call. A keyword is given once. -/
structure Call (V : Type) where
  args : List V
  kwargs : List (String × V)
  distinct : (kwargs.map Prod.fst).Nodup

/-- A parameter of a function, by position or by name. -/
structure Param (V : Type) where
  name : String
  default : Option V := none

inductive TypeError where
  | unexpectedKeyword (name : String)
  | multipleValues (name : String)
  | tooManyArguments (takes given : Nat)
  | missing (names : List String)
deriving DecidableEq, Repr

def Call.keywords (c : Call V) : List String := c.kwargs.map Prod.fst

/-- `kwargs.pop(name)`. -/
def Call.pop (c : Call V) (name : String) : Call V where
  args := c.args
  kwargs := c.kwargs.filter fun e => e.1 ≠ name
  distinct := c.distinct.sublist (List.filter_sublist.map _)

theorem nodup_set {kwargs : List (String × V)} (h : (kwargs.map Prod.fst).Nodup) (name : String)
    (v : V) : ((if name ∈ kwargs.map Prod.fst then
        kwargs.map fun e => if e.1 = name then (name, v) else e
      else kwargs ++ [(name, v)]).map Prod.fst).Nodup := by
  split
  · rw [List.map_map]
    have hsame : (Prod.fst ∘ fun e : String × V => if e.1 = name then (name, v) else e) =
        Prod.fst := by
      funext e
      rw [Function.comp_apply]
      split
      · rename_i he
        exact he.symm
      · rfl
    rwa [hsame]
  · rename_i hnew
    rw [List.map_append]
    exact List.Nodup.append h (List.nodup_singleton _) (List.disjoint_singleton.mpr hnew)

/-- `kwargs[name] = v`. -/
def Call.set (c : Call V) (name : String) (v : V) : Call V where
  args := c.args
  kwargs := if name ∈ c.kwargs.map Prod.fst then
      c.kwargs.map fun e => if e.1 = name then (name, v) else e
    else c.kwargs ++ [(name, v)]
  distinct := nodup_set c.distinct name v

/-- Keywords that are set to one value. -/
def Call.setAll (c : Call V) (names : List String) (v : V) : Call V :=
  names.foldl (fun c name => c.set name v) c

/-- The parameters that the positional arguments are for. -/
def byPosition (params : List (Param V)) (args : List V) : List String :=
  (params.take args.length).map Param.name

def checkKeyword (params : List (Param V)) (args : List V) (name : String) : Except TypeError Unit :=
  if name ∉ params.map Param.name then .error (.unexpectedKeyword name)
  else if name ∈ byPosition params args then .error (.multipleValues name)
  else .ok ()

/-- The value of each parameter, where it has one. -/
def values (kwargs : List (String × V)) : List (Param V) → List V → List (String × Option V)
  | [], _ => []
  | p :: params, a :: args => (p.name, some a) :: values kwargs params args
  | p :: params, [] => (p.name, (kwargs.lookup p.name).or p.default) :: values kwargs params []

/-- The parameters of a function as a call binds them. -/
def bindArguments (params : List (Param V)) (c : Call V) : Except TypeError (List (String × V)) := do
  c.kwargs.forM fun e => checkKeyword params c.args e.1
  if params.length < c.args.length then
    throw (.tooManyArguments params.length c.args.length)
  let found := values c.kwargs params c.args
  if found.any fun e => e.2.isNone then
    throw (.missing ((found.filter fun e => e.2.isNone).map Prod.fst))
  return found.filterMap fun e => e.2.map fun v => (e.1, v)

section Lookup

variable {l l' : List (String × V)} {name : String} {v : V}

theorem lookup_iff (hl : (l.map Prod.fst).Nodup) : l.lookup name = some v ↔ (name, v) ∈ l := by
  constructor
  · intro h
    obtain ⟨before, after, rfl, -⟩ := List.lookup_eq_some_iff.mp h
    exact List.mem_append_right _ List.mem_cons_self
  · intro h
    obtain ⟨before, after, rfl⟩ := List.append_of_mem h
    rw [List.map_append, List.map_cons] at hl
    apply List.lookup_eq_some_iff.mpr
    refine ⟨before, after, rfl, fun e he => bne_iff_ne.mpr fun hsame => ?_⟩
    exact (List.nodup_append.mp hl).2.2 e.1 (List.mem_map_of_mem he) name List.mem_cons_self hsame.symm

theorem lookup_perm (hl : (l.map Prod.fst).Nodup) (h : l.Perm l') :
    l.lookup name = l'.lookup name := by
  have hl' : (l'.map Prod.fst).Nodup := (h.map _).nodup_iff.mp hl
  apply Option.ext
  intro v
  rw [lookup_iff hl, lookup_iff hl', h.mem_iff]

theorem lookup_none (h : name ∉ l.map Prod.fst) : l.lookup name = none := by
  apply List.lookup_eq_none_iff.mpr
  intro e he
  apply bne_iff_ne.mpr
  intro hsame
  exact h (hsame ▸ List.mem_map_of_mem he)

end Lookup

section Keywords

variable {c : Call V} {names : List String} {v : V}

@[simp] theorem Call.setAll_args (c : Call V) (names : List String) (v : V) :
    (c.setAll names v).args = c.args := by
  induction names generalizing c with
  | nil => rfl
  | cons name names ih => exact ih (c.set name v)

/-- New keywords are added behind the others. -/
theorem Call.setAll_kwargs (hnames : names.Nodup) (hnew : ∀ name ∈ names, name ∉ c.keywords) :
    (c.setAll names v).kwargs = c.kwargs ++ names.map fun name => (name, v) := by
  induction names generalizing c with
  | nil => exact (List.append_nil _).symm
  | cons name names ih =>
    obtain ⟨hname, hrest⟩ := List.nodup_cons.mp hnames
    have hset : (c.set name v).kwargs = c.kwargs ++ [(name, v)] :=
      if_neg (hnew name List.mem_cons_self)
    have hnew' : ∀ other ∈ names, other ∉ (c.set name v).keywords := by
      intro other hother
      rw [Call.keywords, hset, List.map_append, List.mem_append]
      rintro (h | h)
      · exact hnew other (List.mem_cons_of_mem _ hother) h
      · have hsame : other = name := List.mem_singleton.mp h
        exact hname (hsame ▸ hother)
    have hall : (c.setAll (name :: names) v) = (c.set name v).setAll names v := rfl
    rw [hall, ih hrest hnew', hset, List.append_assoc, List.map_cons]
    rfl

end Keywords

section Values

variable {kwargs kwargs' : List (String × V)} {params : List (Param V)} {args : List V}

theorem values_names (kwargs : List (String × V)) (params : List (Param V)) (args : List V) :
    (values kwargs params args).map Prod.fst = params.map Param.name := by
  induction params generalizing args with
  | nil => rfl
  | cons p params ih =>
    cases args with
    | nil => rw [values, List.map_cons, List.map_cons, ih]
    | cons a args => rw [values, List.map_cons, List.map_cons, ih]

theorem values_congr (h : ∀ name, kwargs.lookup name = kwargs'.lookup name) (params : List (Param V))
    (args : List V) : values kwargs params args = values kwargs' params args := by
  induction params generalizing args with
  | nil => rfl
  | cons p params ih =>
    cases args with
    | nil => rw [values, values, ih, h]
    | cons a args => rw [values, values, ih]

theorem values_keyword {name : String} {v : V} (hv : kwargs.lookup name = some v)
    (hname : name ∈ params.map Param.name) (hpos : name ∉ byPosition params args) :
    (name, some v) ∈ values kwargs params args := by
  induction params generalizing args with
  | nil => exact absurd hname List.not_mem_nil
  | cons p params ih =>
    rcases List.mem_cons.mp hname with hp | hrest
    · subst hp
      cases args with
      | nil =>
        rw [values, hv]
        exact List.mem_cons_self
      | cons a args => exact absurd List.mem_cons_self hpos
    · cases args with
      | nil => exact List.mem_cons_of_mem _ (ih hrest (by simp [byPosition]))
      | cons a args =>
        exact List.mem_cons_of_mem _ (ih hrest fun h => hpos (List.mem_cons_of_mem _ h))

theorem values_default {p : Param V} (hp : p ∈ params) (hv : p.name ∉ kwargs.map Prod.fst)
    (hpos : p.name ∉ byPosition params args) : (p.name, p.default) ∈ values kwargs params args := by
  induction params generalizing args with
  | nil => exact absurd hp List.not_mem_nil
  | cons q params ih =>
    rcases List.mem_cons.mp hp with rfl | hrest
    · cases args with
      | nil =>
        rw [values, lookup_none hv, Option.none_or]
        exact List.mem_cons_self
      | cons a args => exact absurd List.mem_cons_self hpos
    · cases args with
      | nil => exact List.mem_cons_of_mem _ (ih hrest (by simp [byPosition]))
      | cons a args =>
        exact List.mem_cons_of_mem _ (ih hrest fun h => hpos (List.mem_cons_of_mem _ h))

end Values

section Binding

variable {params : List (Param V)} {c c' : Call V} {bound : List (String × V)}

theorem forM_ok_iff {α ε : Type} {f : α → Except ε Unit} {l : List α} :
    l.forM f = .ok () ↔ ∀ a ∈ l, f a = .ok () := by
  induction l with
  | nil => exact iff_of_true rfl fun a ha => absurd ha List.not_mem_nil
  | cons a l ih =>
    have hcons : (a :: l).forM f = (f a >>= fun _ => l.forM f) := rfl
    rw [hcons, List.forall_mem_cons, ← ih]
    cases f a with
    | error e => simp [bind, Except.bind]
    | ok u => simp [bind, Except.bind]

theorem checkKeyword_ok {args : List V} {name : String} : checkKeyword params args name = .ok () ↔
    name ∈ params.map Param.name ∧ name ∉ byPosition params args := by
  rw [checkKeyword]
  split
  · rename_i hnone
    simp [hnone]
  · rename_i hname
    split
    · rename_i hpos
      simp [hpos]
    · rename_i hpos
      simp [hpos, not_not.mp hname]

theorem filled_iff {l : List (String × Option V)} :
    ((l.any fun e => e.2.isNone) = false ∧ (l.filterMap fun e => e.2.map fun v => (e.1, v)) = bound) ↔
      l = bound.map fun e => (e.1, some e.2) := by
  induction l generalizing bound with
  | nil => cases bound <;> simp
  | cons e l ih =>
    obtain ⟨name, o⟩ := e
    cases o with
    | none => cases bound <;> simp
    | some v =>
      have hfound : ((name, some v) :: l).filterMap (fun e => e.2.map fun v => (e.1, v)) =
          (name, v) :: l.filterMap fun e => e.2.map fun v => (e.1, v) := rfl
      rw [hfound, List.any_cons]
      cases bound with
      | nil => simp
      | cons e' bound =>
        rw [List.map_cons, List.cons.injEq, List.cons.injEq, ← ih]
        obtain ⟨name', v'⟩ := e'
        simp only [Option.isNone_some, Bool.false_or, Prod.mk.injEq, Option.some.injEq]
        exact and_left_comm

/-- A call binds where its keywords name parameters that it does not give by position, and each
parameter has a value. -/
theorem bindArguments_ok : bindArguments params c = .ok bound ↔
    (∀ name ∈ c.keywords, name ∈ params.map Param.name ∧ name ∉ byPosition params c.args) ∧
    c.args.length ≤ params.length ∧
    values c.kwargs params c.args = bound.map fun e => (e.1, some e.2) := by
  have hkeywords : (c.kwargs.forM fun e => checkKeyword params c.args e.1) = .ok () ↔
      ∀ name ∈ c.keywords, name ∈ params.map Param.name ∧ name ∉ byPosition params c.args := by
    rw [forM_ok_iff, Call.keywords, List.forall_mem_map]
    exact forall₂_congr fun e he => checkKeyword_ok
  rw [← hkeywords, ← filled_iff, bindArguments]
  cases hforM : c.kwargs.forM fun e => checkKeyword params c.args e.1 with
  | error e => simp [bind, Except.bind]
  | ok u =>
    by_cases hlen : params.length < c.args.length
    · simp [bind, Except.bind, hlen, throw, throwThe, MonadExceptOf.throw, Nat.not_le.mpr hlen]
    · cases hany : (values c.kwargs params c.args).any fun e => e.2.isNone with
      | true => simp [bind, Except.bind, hlen, hany, throw, throwThe, MonadExceptOf.throw]
      | false => simp [bind, Except.bind, hlen, hany, pure, Except.pure, Nat.not_lt.mp hlen]

/-- The order of the keywords does not matter to a call that binds. -/
theorem bindArguments_perm (hargs : c.args = c'.args) (hkwargs : c.kwargs.Perm c'.kwargs) :
    bindArguments params c = .ok bound ↔ bindArguments params c' = .ok bound := by
  have hkeywords : c.keywords.Perm c'.keywords := hkwargs.map _
  rw [bindArguments_ok, bindArguments_ok, hargs,
    values_congr (fun name => lookup_perm c.distinct hkwargs)]
  simp only [hkeywords.mem_iff]

theorem bound_names (h : bindArguments params c = .ok bound) :
    bound.map Prod.fst = params.map Param.name := by
  obtain ⟨-, -, hvalues⟩ := bindArguments_ok.mp h
  rw [← values_names c.kwargs params c.args, hvalues, List.map_map]
  rfl

theorem bound_of_value (hparams : (params.map Param.name).Nodup)
    (h : bindArguments params c = .ok bound) {name : String} {o : Option V}
    (hmem : (name, o) ∈ values c.kwargs params c.args) : bound.lookup name = o := by
  obtain ⟨-, -, hvalues⟩ := bindArguments_ok.mp h
  rw [hvalues] at hmem
  obtain ⟨e, he, heq⟩ := List.mem_map.mp hmem
  cases heq
  exact (lookup_iff (bound_names h ▸ hparams)).mpr he

/-- A keyword of a call that binds is the value of its parameter. -/
theorem bound_keyword (hparams : (params.map Param.name).Nodup)
    (h : bindArguments params c = .ok bound) {name : String} {v : V}
    (hv : c.kwargs.lookup name = some v) : bound.lookup name = some v := by
  obtain ⟨hkeywords, -, -⟩ := bindArguments_ok.mp h
  obtain ⟨hname, hpos⟩ := hkeywords name (List.mem_map_of_mem ((lookup_iff c.distinct).mp hv))
  exact bound_of_value hparams h (values_keyword hv hname hpos)

theorem bound_default (hparams : (params.map Param.name).Nodup)
    (h : bindArguments params c = .ok bound) {p : Param V} (hp : p ∈ params)
    (hv : p.name ∉ c.keywords) (hpos : p.name ∉ byPosition params c.args) :
    bound.lookup p.name = p.default :=
  bound_of_value hparams h (values_default hp hv hpos)

end Binding

end CallBinding
