import KaretWorker.Routing
import KaretWorker.SourceRouting

/-!
# Uploads that a run reads

The router reads a stored configuration leniently, by defaults and past whatever it does not
know; a run decodes it whole and validates it. An upload should start the pipelines whose runs
read it.

Both read the same prefixes from a document whose sources are objects, as written ones are. So a
pipeline with an accepted configuration is started by exactly the uploads that its run lists for
a source, and whatever a mapping is evaluated over would start it (`routed_as_read`). A source
written as an array is read whole, but not by the router.
-/
namespace KaretWorker

open Texts Interaction Json Codec

/-- The document and its sources are objects. -/
def SourcesNamed (json : Json.Value) : Prop :=
  ∃ members, json = .object members ∧ ∀ elements,
    members.lookup ConfigKey.sourceContainers.text = some (.array elements) →
      ∀ element ∈ elements, ∃ fields, element = .object fields

/-! ## One document, read twice -/

section Reading

open Document

/-- A source that is decoded whole has the prefix that the router reads. -/
theorem routingSource_read {fields : List (Text × Json.Value)}
    {container : Document.SourceContainer}
    (read : containerCodec.read (.object fields) = some container) :
    routingSource.read (.object fields) = some container.pathPrefix := by
  simp only [containerCodec, Shape.codec, containerShape, Shape.record, Shape.and, Shape.field,
    Bool.false_and,
    Bool.false_eq_true, if_false, bind, pure, Option.map_eq_some_iff, Option.bind_eq_some_iff,
    Option.some.injEq] at read
  obtain ⟨_, ⟨_, _, _, ⟨_, _, _, ⟨lead, isLead, _, _, rfl⟩, rfl⟩, rfl⟩, rfl⟩ := read
  simp only [Member.required, Option.bind_eq_some_iff] at isLead
  obtain ⟨json, found, isLead⟩ := isLead
  simp only [routingSource, Shape.codec, Shape.field, Bool.false_and, Bool.false_eq_true, if_false,
    Member.defaulted, found]
  exact isLead

/-- The router reads the prefixes of all sources that the configuration reads. -/
theorem readAll_prefixes {elements : List Json.Value}
    (named : ∀ element ∈ elements, ∃ fields, element = .object fields)
    {containers : List Document.SourceContainer}
    (read : readAll containerCodec elements = some containers) :
    readAll routingSource elements =
    some (containers.map (fun container => container.pathPrefix)) := by
  induction elements generalizing containers with
  | nil =>
    obtain rfl := Option.some.inj read
    rfl
  | cons element rest inductionHypothesis =>
    rw [List.forall_mem_cons] at named
    obtain ⟨⟨fields, rfl⟩, named⟩ := named
    simp only [readAll, bind, Option.bind_eq_some_iff] at read
    obtain ⟨container, isContainer, others, areOthers, same⟩ := read
    obtain rfl := Option.some.inj same
    simp only [readAll, bind, routingSource_read isContainer, inductionHypothesis named areOthers,
      Option.bind_some]
    rfl

/-- A configuration that is decoded whole has the prefixes that the router reads. -/
theorem routingConfig_read {json : Json.Value} (named : SourcesNamed json)
    {config : Document.PipelineConfig} (read : configCodec.read json = some config) :
    routingConfig.read json =
    some (config.sourceContainers.map (fun container => container.pathPrefix)) := by
  obtain ⟨members, rfl, named⟩ := named
  simp only [configCodec, Shape.codec, configShape, Shape.record, Shape.and, Shape.field,
    Bool.false_and,
    Bool.false_eq_true, if_false, bind, pure, Option.map_eq_some_iff, Option.bind_eq_some_iff,
    Option.some.injEq] at read
  obtain ⟨_, ⟨_, _, _, ⟨containers, isContainers, _, _, rfl⟩, rfl⟩, rfl⟩ := read
  simp only [Member.required, Option.bind_eq_some_iff] at isContainers
  obtain ⟨found, isFound, isContainers⟩ := isContainers
  simp only [routingConfig, Shape.codec, Shape.field, Bool.false_and, Bool.false_eq_true, if_false,
    Member.defaulted, isFound]
  cases found with
  | array elements => exact readAll_prefixes (named elements isFound) isContainers
  | _ => cases isContainers

/-- A document that is written has its sources as objects. -/
theorem sourcesNamed_write (config : Document.PipelineConfig) :
    SourcesNamed (configCodec.write config) := by
  refine ⟨_, rfl, fun elements isElements element isElement => ?_⟩
  rw [lookup_members ConfigKey.text_injective] at isElements
  obtain rfl := Json.Value.array.inj (Option.some.inj isElements)
  obtain ⟨container, _, rfl⟩ := List.mem_map.mp isElement
  exact ⟨_, rfl⟩

end Reading

/-! ## Starting and reading -/

section Uploads

variable {document : Object → Option Json.Value} {pipelines : Store} {slug : Text} {body : Object}
  {json : Json.Value} {config : Document.PipelineConfig}

/-- The pipeline is started by the keys under a prefix of one of its sources. -/
theorem routed_stored (isSlug : IsSlug slug)
    (stored : pipelines.lookup (configKey slug) = some body)
    (isText : document body = some json) (named : SourcesNamed json)
    (read : Document.configCodec.read json = some config) {key : Text} :
    Routed document pipelines key slug ↔
      ∃ container ∈ config.read.sourceContainers, container.pathPrefix ≠ [] ∧
      container.pathPrefix <+: key := by
  have isRead := routingConfig_read named read
  constructor
  · rintro ⟨_, lead, ⟨other, _, prefixes, isOther, isJson, isPrefixes, isLead⟩, nonempty, around⟩
    obtain rfl := Option.some.inj (stored.symm.trans isOther)
    obtain rfl := Option.some.inj (isText.symm.trans isJson)
    obtain rfl := Option.some.inj (isRead.symm.trans isPrefixes)
    obtain ⟨container, isContainer, rfl⟩ := List.mem_map.mp isLead
    exact ⟨container.read, List.mem_map_of_mem isContainer, nonempty, around⟩
  · rintro ⟨_, isRead', nonempty, around⟩
    obtain ⟨container, isContainer, rfl⟩ := List.mem_map.mp isRead'
    exact ⟨isSlug, container.pathPrefix, ⟨body, json, _, stored, isText, isRead,
      List.mem_map.mpr ⟨container, isContainer, rfl⟩⟩, nonempty, around⟩

/-- A pipeline with an accepted configuration is started by exactly the uploads that a run lists
for a source, which is then the one that ingestion takes; and whatever a run evaluates a mapping
over would start it. -/
theorem routed_as_read (isSlug : IsSlug slug) (stored : pipelines.lookup (configKey slug) = some body)
    (isText : document body = some json) (named : SourcesNamed json)
    (read : Document.configCodec.read json = some config) (accepted : validate config.read = .ok ()) :
    (∀ (lake : Store) (key : Text), key ∈ lake → (Routed document pipelines key slug ↔
      ∃ container ∈ config.read.sourceContainers, key ∈ lake.listKeys container.pathPrefix ∧
        resolveSourceContainer key config.read = .ok container)) ∧
    ∀ pipelinePrefix cleanRun buckets trace result final,
      Program.Completes (Given (fun _ _ _ => True)) (executeJob (.ok config.read) pipelinePrefix cleanRun)
        buckets trace result final →
      ∀ mapping table files reply,
        (⟨.evaluate mapping table files, reply⟩ : Event Effect Reply) ∈ trace →
        ∀ file ∈ files, Routed document pipelines file.1 slug := by
  have valid := validate_iff.mp accepted
  have routed : ∀ {key : Text}, Routed document pipelines key slug ↔ _ :=
    routed_stored isSlug stored isText named read
  constructor
  · intro lake key present
    rw [routed]
    refine exists_congr (fun container => and_congr_right (fun isContainer => ?_))
    constructor
    · rintro ⟨_, around⟩
      exact ⟨Store.mem_listKeys.mpr ⟨around, AList.lookup_isSome.mpr present⟩,
        resolve_around valid (List.Subset.refl _) isContainer around⟩
    · rintro ⟨isListed, _⟩
      exact ⟨(valid.placed container isContainer).1, (Store.mem_listKeys.mp isListed).1⟩
  · intro pipelinePrefix cleanRun buckets trace result final completed mapping table files
      reply occurs
    obtain ⟨_, _, path⟩ := Program.follows_completes
      (executeJob_routes valid pipelinePrefix cleanRun) (fun _ _ _ _ => given_listed) completed
    obtain ⟨_, _, isMapping, container, isSource, holds⟩ := path.moves _ occurs
    intro file isFile
    have isContainer := List.mem_of_find?_eq_some isSource
    exact routed.mpr
      ⟨container, isContainer, (valid.placed container isContainer).1, (holds file isFile).1⟩

end Uploads

/-- An object under the prefix of its one source starts the pipeline. -/
theorem routed_as_read_small :
    Routed (fun _ => some (Document.configCodec.write smallDocument)) onePipeline "in/a.csv".toList
      "s".toList := by
  have readsBack : Document.configCodec.read (Document.configCodec.write smallDocument) =
    some smallDocument := by
    rfl
  let lake : Store := AList.insert "in/a.csv".toList (.data []) ∅
  have present : "in/a.csv".toList ∈ lake := (AList.mem_insert _).mpr (Or.inl rfl)
  refine ((routed_as_read ⟨by decide, by decide⟩ (AList.lookup_insert _) rfl
    (sourcesNamed_write smallDocument) readsBack (by decide +kernel)).1 lake _ present).mpr ?_
  refine ⟨_, List.mem_cons_self,
    Store.mem_listKeys.mpr ⟨by decide, AList.lookup_isSome.mpr present⟩, ?_⟩
  rfl

end KaretWorker
