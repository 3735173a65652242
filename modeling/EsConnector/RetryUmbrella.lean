import EsConnector.ConfigClass

namespace EsConnector
set_option autoImplicit true

open CallBinding

section Umbrella

variable {cls : ConfigClass F C} {repr : Argument F → String} {call : Call (Argument F)}
  {n : Argument F}

/-- A call that spells the layers out. -/
def ConfigClass.Granular (cls : ConfigClass F C) (call : Call (Argument F)) (n : Argument F)
    (granular : Call (Argument F)) : Prop :=
  granular.args = call.args ∧
    granular.kwargs.Perm ((call.pop "max_retries").kwargs ++ cls.layers.map fun f => (f, n))

theorem ConfigClass.layer_field {f : String} (hf : f ∈ cls.layers) : f ∈ cls.fields :=
  of_decide_eq_true (List.mem_filter.mp hf).2

theorem ConfigClass.layer_ne {f : String} (hf : f ∈ cls.layers) : f ≠ "max_retries" := by
  rintro rfl
  exact cls.notField (layer_field hf)

theorem mem_pop {name other : String} :
    other ∈ (call.pop name).keywords ↔ other ∈ call.keywords ∧ other ≠ name := by
  simp only [Call.keywords, Call.pop, List.mem_map, List.mem_filter, decide_eq_true_eq]
  constructor
  · rintro ⟨e, ⟨he, hne⟩, rfl⟩
    exact ⟨⟨e, he, rfl⟩, hne⟩
  · rintro ⟨⟨e, he, rfl⟩, hne⟩
    exact ⟨e, ⟨he, hne⟩, rfl⟩

theorem ConfigClass.conflicts_nil :
    cls.conflicts call = [] ↔ ∀ f ∈ cls.layers, f ∉ call.keywords := by
  have hperm : (cls.conflicts call).Perm (cls.layers.filter (· ∈ call.keywords)) :=
    List.mergeSort_perm _ _
  constructor
  · intro h f hf hmem
    rw [h] at hperm
    exact List.not_mem_nil (hperm.mem_iff.mpr (List.mem_filter.mpr ⟨hf, decide_eq_true hmem⟩))
  · intro h
    apply List.Perm.eq_nil
    rwa [List.filter_eq_nil_iff.mpr fun f hf => by simpa using h f hf] at hperm

theorem ConfigClass.layers_nodup : cls.layers.Nodup := (by decide : retryLayerFields.Nodup).filter _

/-- What the umbrella hands to the generated constructor. -/
def ConfigClass.expanded (cls : ConfigClass F C) (call : Call (Argument F)) (n : Argument F) :
    Call (Argument F) :=
  (call.pop "max_retries").setAll cls.layers n

theorem ConfigClass.expanded_granular (hfree : ∀ f ∈ cls.layers, f ∉ call.keywords) :
    cls.Granular call n (cls.expanded call n) := by
  constructor
  · exact Call.setAll_args _ _ _
  · rw [expanded, Call.setAll_kwargs layers_nodup fun f hf hmem => hfree f hf (mem_pop.mp hmem).1]

theorem ConfigClass.construct_umbrella (hn : call.kwargs.lookup "max_retries" = some n)
    (hfree : ∀ f ∈ cls.layers, f ∉ call.keywords) :
    cls.construct repr call = cls.init (cls.expanded call n) := by
  rw [construct, hn]
  exact if_neg (not_not.mpr (conflicts_nil.mpr hfree))

theorem ConfigClass.construct_granular {granular : Call (Argument F)}
    (h : cls.Granular call n granular) : cls.construct repr granular = cls.init granular := by
  have hnone : granular.kwargs.lookup "max_retries" = none := by
    apply lookup_none
    rw [(h.2.map Prod.fst).mem_iff, List.map_append, List.mem_append, List.map_map]
    rintro (hmem | hmem)
    · exact (mem_pop.mp hmem).2 rfl
    · obtain ⟨f, hf, hsame⟩ := List.mem_map.mp hmem
      exact layer_ne hf hsame
  rw [construct, hnone]

theorem lookup_pop {name other : String} (hne : other ≠ name) :
    (call.pop name).kwargs.lookup other = call.kwargs.lookup other := by
  apply Option.ext
  intro v
  rw [lookup_iff (call.pop name).distinct, lookup_iff call.distinct, Call.pop, List.mem_filter,
    decide_eq_true_eq]
  exact and_iff_left hne

theorem ConfigClass.conflicts_of_mixed (h : ∃ f ∈ cls.layers, f ∈ call.keywords) :
    cls.conflicts call ≠ [] := by
  obtain ⟨f, hf, hmem⟩ := h
  intro hnil
  exact conflicts_nil.mp hnil f hf hmem

/-- No layer is named in a call that the umbrella accepts. -/
theorem ConfigClass.free_of_construct {c : C} (hn : call.kwargs.lookup "max_retries" = some n)
    (h : cls.construct repr call = .ok c) : ∀ f ∈ cls.layers, f ∉ call.keywords := by
  by_contra hsome
  push Not at hsome
  rw [construct, hn] at h
  cases h.symm.trans (if_pos (conflicts_of_mixed hsome))

section Accepted

variable {c : C} (hn : call.kwargs.lookup "max_retries" = some n) (h : cls.construct repr call = .ok c)
include hn h

theorem ConfigClass.layer_by_umbrella {f : String} (hf : f ∈ cls.layers) :
    f ∉ byPosition cls.params call.args ∧ cls.getattr c f = some n := by
  have hfree := free_of_construct hn h
  rw [construct_umbrella hn hfree] at h
  have hmem : (f, n) ∈ (cls.expanded call n).kwargs := (expanded_granular hfree).2.mem_iff.mpr
    (List.mem_append_right _ (List.mem_map_of_mem hf))
  constructor
  · obtain ⟨hkeywords, -⟩ := bindArguments_ok.mp (init_bound h)
    have hpos := (hkeywords f (List.mem_map_of_mem hmem)).2
    rwa [(expanded_granular hfree).1] at hpos
  · exact init_getattr h ((lookup_iff (cls.expanded call n).distinct).mpr hmem)

theorem ConfigClass.keyword_by_umbrella {name : String} {v : Argument F} (hne : name ≠ "max_retries")
    (hv : call.kwargs.lookup name = some v) : cls.getattr c name = some v := by
  have hfree := free_of_construct hn h
  rw [construct_umbrella hn hfree] at h
  have hmem : (name, v) ∈ (call.pop "max_retries").kwargs :=
    (lookup_iff (call.pop "max_retries").distinct).mp ((lookup_pop hne).trans hv)
  exact init_getattr h ((lookup_iff (cls.expanded call n).distinct).mpr
    ((expanded_granular hfree).2.mem_iff.mpr (List.mem_append_left _ hmem)))

theorem ConfigClass.maxRetries_by_umbrella (hne : cls.layers ≠ []) :
    ∃ i, n = .int i ∧ cls.maxRetries c = some i := by
  have hget : ∀ f ∈ cls.layers, cls.getattr c f = some n := fun f hf => (layer_by_umbrella hn h hf).2
  obtain ⟨f, hf⟩ := List.exists_mem_of_ne_nil _ hne
  have hmem : some n ∈ cls.layers.map (cls.getattr c) := hget f hf ▸ List.mem_map_of_mem hf
  rw [cls.getattr_layers] at hmem
  obtain ⟨i, -, hi⟩ := List.mem_map.mp hmem
  cases hi
  exact ⟨i, rfl, maxRetries_iff.mpr ⟨hne, hget⟩⟩

end Accepted

/-- `max_retries` sets every retry layer of a configuration: the call is the one that gives each layer
its number, it is turned down where it gives a layer another way, by name or by position, and the
property has the number back. -/
theorem max_retries_is_granular (cls : ConfigClass F C) (repr : Argument F → String)
    (call : Call (Argument F)) (n : Argument F) (hn : call.kwargs.lookup "max_retries" = some n) :
    ((∃ f ∈ cls.layers, f ∈ call.keywords) → cls.conflicts call ≠ [] ∧
      (∀ f, f ∈ cls.conflicts call ↔ f ∈ cls.layers ∧ f ∈ call.keywords) ∧
      cls.construct repr call = .error (.valueError (cls.mixed repr (cls.conflicts call) n))) ∧
    ((∀ f ∈ cls.layers, f ∉ call.keywords) → ∀ granular, cls.Granular call n granular → ∀ c,
      cls.construct repr call = .ok c ↔ cls.construct repr granular = .ok c) ∧
    ∀ c, cls.construct repr call = .ok c →
      (∀ f ∈ cls.layers, f ∉ call.keywords ∧ f ∉ byPosition cls.params call.args ∧
        cls.getattr c f = some n) ∧
      (∀ name v, name ≠ "max_retries" → call.kwargs.lookup name = some v →
        cls.getattr c name = some v) ∧
      (cls.layers ≠ [] → ∃ i, n = .int i ∧ cls.maxRetries c = some i) := by
  refine ⟨?_, ?_, ?_⟩
  · intro hmixed
    have hconflicts := ConfigClass.conflicts_of_mixed hmixed
    refine ⟨hconflicts, ?_, ?_⟩
    · intro f
      rw [ConfigClass.conflicts, (List.mergeSort_perm _ _).mem_iff, List.mem_filter, decide_eq_true_eq]
    · rw [ConfigClass.construct, hn]
      exact if_pos hconflicts
  · intro hfree granular hgranular c
    obtain ⟨hargs, hkwargs⟩ := ConfigClass.expanded_granular (n := n) hfree
    rw [ConfigClass.construct_umbrella hn hfree, ConfigClass.construct_granular hgranular]
    exact ConfigClass.init_perm (hargs.trans hgranular.1.symm) (hkwargs.trans hgranular.2.symm)
  · intro c hc
    refine ⟨?_, ?_, ConfigClass.maxRetries_by_umbrella hn hc⟩
    · intro f hf
      exact ⟨ConfigClass.free_of_construct hn hc f hf, ConfigClass.layer_by_umbrella hn hc hf⟩
    · intro name v hne hv
      exact ConfigClass.keyword_by_umbrella hn hc hne hv

end Umbrella

def umbrellaCall : Call (Argument Empty) where
  args := [.str "https://es:9200"]
  kwargs := [("api_key", .str "key"), ("index", .str "people"), ("max_retries", .int 5)]
  distinct := by decide

def umbrellaConfig : EsWriteConfig :=
  { hosts := "https://es:9200", apiKey := some "key", index := "people", transportMaxRetries := 5,
    maxRetriesPerDoc := 5 }

theorem umbrellaCall_config : (esWriteConfigClass Empty).construct (fun _ => "5") umbrellaCall =
    .ok (umbrellaConfig, {}) := by
  have hfree : ∀ f ∈ (esWriteConfigClass Empty).layers, f ∉ umbrellaCall.keywords := by decide
  rw [ConfigClass.construct_umbrella (n := .int 5) rfl hfree]
  rfl

theorem max_retries_is_granular_five :
    (esWriteConfigClass Empty).maxRetries (umbrellaConfig, {}) = some 5 := by
  obtain ⟨-, -, haccepted⟩ :=
    max_retries_is_granular (esWriteConfigClass Empty) (fun _ => "5") umbrellaCall (.int 5) rfl
  obtain ⟨-, -, hproperty⟩ := haccepted _ umbrellaCall_config
  obtain ⟨i, hi, hread⟩ := hproperty (List.cons_ne_nil _ _)
  cases hi
  exact hread

section WriteRetries

variable {F : Type} {repr : Argument F → String} {call : Call (Argument F)}

theorem ConfigClass.construct_init {cls : ConfigClass F C} {c : C}
    (h : cls.construct repr call = .ok c) : ∃ call', cls.init call' = .ok c := by
  rw [construct] at h
  split at h
  · exact ⟨_, h⟩
  · split at h
    · cases h
    · exact ⟨_, h⟩

/-- The warning of `EsWriteConfig.__post_init__`. -/
def EsWriteConfig.docRetryWarning (cfg : EsWriteConfig) : Option String :=
  if cfg.maxRetriesPerDoc = 0 ∧ 3 < cfg.transportMaxRetries then
    some (s!"transport_max_retries={cfg.transportMaxRetries} is raised above the default but " ++
      "max_retries_per_doc=0, so documents Elasticsearch rejects with a 429 get NO " ++
      "retries. The _bulk API returns HTTP 200 even when individual items fail, so " ++
      "transport-level retries never see them. Set max_retries_per_doc, or use " ++
      "max_retries=<n> to set both layers at once.")
  else none

theorem EsWriteConfig.docRetryWarning_ne {cfg : EsWriteConfig} (h : cfg.docRetryWarning ≠ none) :
    cfg.maxRetriesPerDoc = 0 ∧ 3 < cfg.transportMaxRetries := by
  by_contra hnot
  exact h (if_neg hnot)

variable {cfg : EsWriteConfig} {tuning : ClientTuning}

theorem getattr_transportMaxRetries : (esWriteConfigClass F).getattr (cfg, tuning)
    "transport_max_retries" = some (.int cfg.transportMaxRetries) := rfl

theorem getattr_maxRetriesPerDoc : (esWriteConfigClass F).getattr (cfg, tuning)
    "max_retries_per_doc" = some (.int cfg.maxRetriesPerDoc) := rfl

theorem layer_default {f : String} (hf : f ∈ retryLayerFields)
    (h : (esWriteConfigClass F).init call = .ok (cfg, tuning)) (hnamed : f ∉ call.keywords)
    (hpos : f ∉ byPosition (esWriteConfigClass F).params call.args) :
    (esWriteConfigClass F).getattr (cfg, tuning) f = some (.int 3) := by
  have hparam : ⟨f, some (.int 3)⟩ ∈ (esWriteConfigClass F).params := by
    rcases List.mem_cons.mp hf with rfl | hf
    · simp [esWriteConfigClass, connectionParams]
    · obtain rfl := List.mem_singleton.mp hf
      simp [esWriteConfigClass]
  exact ConfigClass.init_default h hparam hnamed hpos

/-- The retries of a write configuration that is built: it has passed its checks, the property is the
number of both layers, `max_retries` is what the client and the documents get, and the warning is for
calls that set each of the layers themselves. -/
theorem write_retries (repr : Argument F → String) (call : Call (Argument F)) (cfg : EsWriteConfig)
    (tuning : ClientTuning) (h : (esWriteConfigClass F).construct repr call = .ok (cfg, tuning)) :
    cfg.Accepted ∧
    (∀ i, (esWriteConfigClass F).maxRetries (cfg, tuning) = some i ↔
      cfg.transportMaxRetries = i ∧ cfg.maxRetriesPerDoc = i) ∧
    (∀ n, call.kwargs.lookup "max_retries" = some n →
      n = .int (cfg.clientKwargs tuning).maxRetries ∧ n = .int cfg.maxRetriesPerDoc) ∧
    (cfg.docRetryWarning ≠ none → call.kwargs.lookup "max_retries" = none ∧
      ∀ f ∈ retryLayerFields,
        f ∈ call.keywords ∨ f ∈ byPosition (esWriteConfigClass F).params call.args) := by
  have hlayers : (esWriteConfigClass F).layers = retryLayerFields := rfl
  have humbrella : ∀ n, call.kwargs.lookup "max_retries" = some n →
      n = .int cfg.transportMaxRetries ∧ n = .int cfg.maxRetriesPerDoc := by
    intro n hn
    have hlayer (f) (hf : f ∈ retryLayerFields) :=
      (ConfigClass.layer_by_umbrella hn h (hlayers ▸ hf)).2
    have htransport := hlayer "transport_max_retries" List.mem_cons_self
    have hdoc := hlayer "max_retries_per_doc" (List.mem_cons_of_mem _ List.mem_cons_self)
    rw [getattr_transportMaxRetries] at htransport
    rw [getattr_maxRetriesPerDoc] at hdoc
    exact ⟨(Option.some.inj htransport).symm, (Option.some.inj hdoc).symm⟩
  refine ⟨?_, ?_, ?_, ?_⟩
  · obtain ⟨call', hinit⟩ := ConfigClass.construct_init h
    obtain ⟨-, -, -, hpost⟩ := ConfigClass.init_ok.mp hinit
    exact hpost
  · intro i
    rw [ConfigClass.maxRetries_iff, hlayers]
    simp [retryLayerFields, getattr_transportMaxRetries, getattr_maxRetriesPerDoc]
  · intro n hn
    rw [EsWriteConfig.clientKwargs_maxRetries]
    exact humbrella n hn
  · intro hwarning
    obtain ⟨hdoc, htransport⟩ := EsWriteConfig.docRetryWarning_ne hwarning
    have hnone : call.kwargs.lookup "max_retries" = none := by
      by_contra hsome
      obtain ⟨n, hn⟩ := Option.ne_none_iff_exists'.mp hsome
      obtain ⟨hsame, hsame'⟩ := humbrella n hn
      have hboth := Argument.int.inj (hsame.symm.trans hsame')
      omega
    refine ⟨hnone, ?_⟩
    rw [ConfigClass.construct, hnone] at h
    intro f hf
    by_contra hnot
    obtain ⟨hnamed, hpos⟩ := not_or.mp hnot
    have hdefault := layer_default hf h hnamed hpos
    rcases List.mem_cons.mp hf with rfl | hf
    · rw [getattr_transportMaxRetries] at hdefault
      have hthree := Argument.int.inj (Option.some.inj hdefault)
      omega
    · obtain rfl := List.mem_singleton.mp hf
      rw [getattr_maxRetriesPerDoc, hdoc] at hdefault
      cases hdefault

theorem write_retries_five : (umbrellaConfig.clientKwargs {}).maxRetries = 5 := by
  obtain ⟨-, -, humbrella, -⟩ :=
    write_retries (fun _ => "5") umbrellaCall umbrellaConfig {} umbrellaCall_config
  have hclient := (humbrella (.int 5) rfl).1
  exact (Argument.int.inj hclient).symm

end WriteRetries

section TransportOnly

variable {F C : Type} {cls : ConfigClass F C} {repr : Argument F → String} {call : Call (Argument F)}
  {n : Argument F} {c : C}

/-- A class without the document layer hands `max_retries` to the transport alone. -/
theorem ConfigClass.transport_by_umbrella (hlayers : cls.layers = ["transport_max_retries"])
    (hn : call.kwargs.lookup "max_retries" = some n) (h : cls.construct repr call = .ok c) :
    cls.getattr c "transport_max_retries" = some n ∧ ∃ i, n = .int i ∧ cls.maxRetries c = some i := by
  have hmem : "transport_max_retries" ∈ cls.layers := by
    rw [hlayers]
    exact List.mem_cons_self
  exact ⟨(layer_by_umbrella hn h hmem).2, maxRetries_by_umbrella hn h (List.ne_nil_of_mem hmem)⟩

theorem connection_retries {connection : EsConnection} {tuning : ClientTuning}
    (h : (esConnectionClass F).construct repr call = .ok (connection, tuning))
    (hn : call.kwargs.lookup "max_retries" = some n) :
    n = .int connection.transportMaxRetries ∧
      (esConnectionClass F).maxRetries (connection, tuning) = some connection.transportMaxRetries := by
  obtain ⟨hlayer, i, rfl, hproperty⟩ := ConfigClass.transport_by_umbrella rfl hn h
  cases hlayer
  exact ⟨rfl, hproperty⟩

theorem read_retries {cfg : EsReadConfig F} {tuning : ClientTuning}
    (h : (esReadConfigClass F).construct repr call = .ok (cfg, tuning))
    (hn : call.kwargs.lookup "max_retries" = some n) :
    n = .int cfg.transportMaxRetries ∧
      (esReadConfigClass F).maxRetries (cfg, tuning) = some cfg.transportMaxRetries := by
  obtain ⟨hlayer, i, rfl, hproperty⟩ := ConfigClass.transport_by_umbrella rfl hn h
  cases hlayer
  exact ⟨rfl, hproperty⟩

end TransportOnly

end EsConnector
