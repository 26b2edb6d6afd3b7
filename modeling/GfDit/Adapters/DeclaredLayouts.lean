import GfDit.Adapters.UniformPlan
import GfDit.Adapters.Sampling

/-!
# Declared and actual layouts

A codec computes the layout of a value from the metadata of the plan, without
looking at the value. Here a value is what the executor of a stage returns, and
the two agree when they list the same tensors with the same shapes.
-/

namespace GfDit

-- ---------------------------------------------------------------------------
-- What the stages leave
-- ---------------------------------------------------------------------------

theorem ite_bind_iff {α β : Type} {condition : Prop} [Decidable condition] {value : α} {e : PyError}
    {next : α → Except PyError β} {result : β} :
    ((if condition then .ok value else .error e : Except PyError α) >>= next) = .ok result ↔
      condition ∧ next value = .ok result := by
  by_cases h : condition
  · simp [h]
  · simp only [h, false_and]
    exact iff_of_false (fun h => nomatch h) id

section LeftBy

variable {σ : Type}

/-- What the tasks leave one after the other, each run on what the one before
left, up to the first that raises. -/
def leftBy (execute : InferenceTask → Option σ → Except PyError σ) :
    List InferenceTask → Option σ → List (InferenceTask × σ)
  | [], _ => []
  | task :: tasks, value =>
    match execute task value with
    | .error _ => []
    | .ok left => (task, left) :: leftBy execute tasks (some left)

theorem forall_leftBy_cons {execute : InferenceTask → Option σ → Except PyError σ}
    {p : InferenceTask × σ → Prop} :
    (∀ left ∈ leftBy execute (task :: tasks) value, p left) ↔
      ∀ left, execute task value = .ok left →
        p (task, left) ∧ ∀ later ∈ leftBy execute tasks (some left), p later := by
  rw [leftBy]
  cases execute task value with
  | error e => simp
  | ok left => simp

theorem forall_leftBy {execute : InferenceTask → Option σ → Except PyError σ}
    {p : InferenceTask × σ → Prop} (keep : σ → Prop) {tasks : List InferenceTask}
    (hstep : ∀ task ∈ tasks, ∀ value left, keep value → execute task (some value) = .ok left →
      keep left ∧ p (task, left)) (hkeep : keep value) :
    ∀ left ∈ leftBy execute tasks (some value), p left := by
  induction tasks generalizing value with
  | nil => exact fun _ h => nomatch h
  | cons task tasks ih =>
    rw [forall_leftBy_cons]
    intro left hleft
    obtain ⟨hkeep', hp⟩ := hstep task (List.mem_cons_self ..) value left hkeep hleft
    exact ⟨hp, ih (fun t ht => hstep t (List.mem_cons_of_mem _ ht)) hkeep'⟩

end LeftBy

-- ---------------------------------------------------------------------------
-- What a codec declares
-- ---------------------------------------------------------------------------

theorem metadataAtLeastOne_int (h : metadata.get? key = some (.int value)) (hv : 1 ≤ value) :
    metadataAtLeastOne metadata key fallback = .ok value.toNat := by
  have hlt : ¬ value < 1 := by omega
  simp only [metadataAtLeastOne, h, Option.getD_some, PyValue.toInt, pure_bind, if_neg hlt]
  rfl

theorem startsWith_of_append (h : text.toList = start.toList ++ r) :
    startsWith text start = true := by
  rw [startsWith, h, List.isPrefixOf_iff_prefix]
  exact List.prefix_append ..

theorem startsWith_denoised (a : PlanArtifact) (h : a.parts.1 = "state_denoised_") :
    startsWith a.text "state_denoised" = true := by
  have hcut : "state_denoised_".toList = "state_denoised".toList ++ ['_'] := by decide
  refine startsWith_of_append (r := '_' :: a.parts.2) ?_
  rw [PlanArtifact.toList_text, h, hcut, List.append_assoc]
  rfl

theorem ChunkedDitPlanArgs.PlainChunk.denoised {args : ChunkedDitPlanArgs}
    (h : args.PlainChunk task) : ∃ artifactId, task.outputs = [args.stateHandle artifactId] ∧
      hasLatents artifactId = true ∧ hasTimesteps artifactId = true := by
  rcases h.output with hlast | ⟨idx, hidx⟩
  · exact ⟨_, hlast, by decide, by decide⟩
  · refine ⟨_, hidx, ?_, ?_⟩
    · simp only [hasLatents, startsWith_denoised (.denoisedAt idx) rfl, or_true, decide_true]
    · simp only [hasTimesteps, startsWith_denoised (.denoisedAt idx) rfl, or_true, decide_true]

/-- The codec declares the tensors a value has. -/
def DeclaresShapes (described : Except PyError OutputArtifactLayout)
    (tensors : List (List String × Shape)) : Prop :=
  ∃ layout, described = .ok layout ∧ layout.shapes.Perm tensors

def namedShapes (named : List (String × Shape × String)) : List (List String × Shape) :=
  named.map fun field => ([field.1], field.2.1)

theorem namedShapes_append (left right : List (String × Shape × String)) :
    namedShapes (left ++ right) = namedShapes left ++ namedShapes right :=
  List.map_append

theorem replicatedFields_ok {named : List (String × Shape × String)}
    (h : ∀ field ∈ named, field.2.2 ≠ "") : ∃ tensors, replicatedFields named = .ok tensors ∧
      tensors.map (fun field => (field.fieldPath, field.globalShape)) = namedShapes named := by
  induction named with
  | nil => exact ⟨[], rfl, rfl⟩
  | cons field named ih =>
    obtain ⟨hfield, hnamed⟩ := List.forall_mem_cons.mp h
    obtain ⟨tensors, htensors, hshapes⟩ := ih hnamed
    obtain ⟨tensor, hone, hshape⟩ : ∃ tensor,
        replicatedTensorField [field.1] field.2.1 field.2.2 = .ok tensor ∧
          (tensor.fieldPath, tensor.globalShape) = ([field.1], field.2.1) :=
      ⟨_, replicatedTensorField_ok (List.cons_ne_nil _ _) hfield, rfl⟩
    refine ⟨tensor :: tensors, ?_, ?_⟩
    · unfold replicatedFields at htensors ⊢
      rw [List.mapM_cons, hone, Except.ok_bind, htensors]
      rfl
    · rw [List.map_cons, hshapes, hshape]
      rfl

theorem declaresShapes_iff {named : List (String × Shape × String)}
    {described : Except PyError OutputArtifactLayout}
    (hd : described = (replicatedFields named >>= outputArtifactLayout artifact))
    (hc : artifact.hasCodec = true) (h : ∀ field ∈ named, field.2.2 ≠ "") :
    DeclaresShapes described shapes ↔ (namedShapes named).Perm shapes := by
  obtain ⟨tensors, htensors, hshapes⟩ := replicatedFields_ok h
  have hlayout : described = .ok ⟨artifact, tensors, hc⟩ := by
    rw [hd, htensors, Except.ok_bind, outputArtifactLayout, dif_pos hc]
    rfl
  constructor
  · rintro ⟨layout, heq, hperm⟩
    cases hlayout.symm.trans heq
    rwa [← hshapes]
  · intro hperm
    refine ⟨_, hlayout, ?_⟩
    show (tensors.map _).Perm shapes
    rwa [hshapes]

def oneRank : ExecutionGroupSpec :=
  soloSpec "g" 0 []

end GfDit
