import Awex.PlanSpec

namespace Awex

def parameterOperations (b : TransferPlanBuilder) (g : Option ℕ)
    (inferenceMeta trainingMeta : ParameterMeta) : List CommunicationOperation :=
  (replicaAssignments b inferenceMeta trainingMeta).flatMap (fun a =>
    (replicaItems b g a.1.1 a.1.2 a.2).map itemOperation)

structure ParameterOk (b : TransferPlanBuilder) (g : Option ℕ)
    (inferenceMeta trainingMeta : ParameterMeta) : Prop where
  inference_ne : inferenceReplicas b inferenceMeta ≠ []
  training_ne : trainingMeta.replicas ≠ []
  replicas : ∀ a ∈ replicaAssignments b inferenceMeta trainingMeta, ReplicaOk b g a.1.1 a.1.2 a.2

theorem buildReplicaPlan_ok_iff (b : TransferPlanBuilder) (g : Option ℕ) (engineRank : ℕ)
    (inference training : ParameterReplicaMeta) (plan : List CommunicationOperation) :
    buildReplicaPlan b g engineRank inference training = .ok plan ↔
      ReplicaOk b g engineRank inference training ∧
        plan = (replicaItems b g engineRank inference training).map itemOperation := by
  constructor
  · exact buildReplicaPlan_sound b g engineRank inference training plan
  · rintro ⟨h, rfl⟩
    exact buildReplicaPlan_complete b g engineRank inference training h

theorem buildParameterCommunicationPlan_ok_iff (b : TransferPlanBuilder) (paramName : String)
    (inferenceMeta trainingMeta : ParameterMeta) (g : Option ℕ) (plan : List CommunicationOperation) :
    buildParameterCommunicationPlan b paramName inferenceMeta trainingMeta g = .ok plan ↔
      ParameterOk b g inferenceMeta trainingMeta ∧
        plan = parameterOperations b g inferenceMeta trainingMeta := by
  unfold buildParameterCommunicationPlan
  by_cases hne : inferenceReplicas b inferenceMeta = [] ∨ trainingMeta.replicas = []
  · rw [if_pos hne]
    refine iff_of_false (by simp) ?_
    rintro ⟨⟨hi, ht, -⟩, -⟩
    exact hne.elim hi ht
  rw [if_neg hne, Except.bind_eq_ok]
  obtain ⟨hi, ht⟩ := not_or.mp hne
  constructor
  · rintro ⟨plans, hplans, h⟩
    obtain rfl := Except.ok.inj h
    have hmap := Except.mapM_eq_map (fun a _ _ ha => ((buildReplicaPlan_ok_iff _ _ _ _ _ _).mp ha).2)
      hplans
    refine ⟨⟨hi, ht, fun a ha => ?_⟩, by rw [hmap, ← List.flatMap_def]; rfl⟩
    obtain ⟨plan, hplan⟩ := Except.mapM_isOk.mp ⟨plans, hplans⟩ a ha
    exact ((buildReplicaPlan_ok_iff _ _ _ _ _ _).mp hplan).1
  · rintro ⟨h, rfl⟩
    obtain ⟨plans, hplans⟩ := Except.mapM_isOk.mpr (fun a ha =>
      ⟨_, buildReplicaPlan_complete b g a.1.1 a.1.2 a.2 (h.replicas a ha)⟩)
    have hmap := Except.mapM_eq_map (fun a _ _ ha => ((buildReplicaPlan_ok_iff _ _ _ _ _ _).mp ha).2)
      hplans
    exact ⟨plans, hplans, by rw [hmap, ← List.flatMap_def]; rfl⟩

def plannedParams (infer train : List ParameterMeta) : List String :=
  sorted (commonParams (metaDict infer).keys (metaDict train).keys)

def namedOperations (b : TransferPlanBuilder) (infer train : List ParameterMeta) (g : Option ℕ)
    (name : String) : List CommunicationOperation :=
  match (metaDict infer).get? name, (metaDict train).get? name with
  | some im, some tm => parameterOperations b g im tm
  | _, _ => []

def plannedOperations (b : TransferPlanBuilder) (infer train : List ParameterMeta) (g : Option ℕ) :
    List CommunicationOperation :=
  (plannedParams infer train).flatMap (namedOperations b infer train g)

structure MappingOk (b : TransferPlanBuilder) (infer train : List ParameterMeta) (g : Option ℕ) :
    Prop where
  keys : keyMismatch b (metaDict infer).keys (metaDict train).keys = none
  params : ∀ name ∈ plannedParams infer train, ∀ im tm, (metaDict infer).get? name = some im →
    (metaDict train).get? name = some tm → ParameterOk b g im tm

theorem mem_plannedParams {infer train : List ParameterMeta} {name : String} :
    name ∈ plannedParams infer train ↔
      ∃ im tm, (metaDict infer).get? name = some im ∧ (metaDict train).get? name = some tm := by
  rw [plannedParams, sorted, List.mem_insertionSort, commonParams, List.mem_filter, Dict.mem_keys,
    decide_eq_true_eq, Dict.mem_keys, Option.isSome_iff_exists, Option.isSome_iff_exists]
  constructor
  · rintro ⟨⟨im, hi⟩, tm, ht⟩
    exact ⟨im, tm, hi, ht⟩
  · rintro ⟨im, tm, hi, ht⟩
    exact ⟨⟨im, hi⟩, tm, ht⟩

theorem plannedParams_empty (infer train : List ParameterMeta) (h : infer = [] ∨ train = []) :
    plannedParams infer train = [] := by
  apply List.eq_nil_iff_forall_not_mem.mpr
  intro name hname
  obtain ⟨im, tm, hi, ht⟩ := mem_plannedParams.mp hname
  rcases h with rfl | rfl
  · simp [metaDict, Dict.ofList] at hi
  · simp [metaDict, Dict.ofList] at ht

theorem plannedOperations_empty (b : TransferPlanBuilder) (infer train : List ParameterMeta)
    (g : Option ℕ) (h : infer = [] ∨ train = []) : plannedOperations b infer train g = [] := by
  simp [plannedOperations, plannedParams_empty infer train h]

theorem planName_ok_iff (b : TransferPlanBuilder) (infer train : List ParameterMeta) (g : Option ℕ)
    (name : String) (hname : name ∈ plannedParams infer train) (plan : List CommunicationOperation) :
    (match (metaDict infer).get? name, (metaDict train).get? name with
      | some im, some tm => buildParameterCommunicationPlan b name im tm g
      | _, _ => .error .indexError) = .ok plan ↔
      (∀ im tm, (metaDict infer).get? name = some im → (metaDict train).get? name = some tm →
        ParameterOk b g im tm) ∧ plan = namedOperations b infer train g name := by
  obtain ⟨im, tm, hi, ht⟩ := mem_plannedParams.mp hname
  simp only [namedOperations, hi, ht, buildParameterCommunicationPlan_ok_iff, Option.some.injEq]
  constructor
  · rintro ⟨hok, rfl⟩
    refine ⟨?_, rfl⟩
    rintro _ _ rfl rfl
    exact hok
  · rintro ⟨hok, rfl⟩
    exact ⟨hok im tm rfl rfl, rfl⟩

theorem buildWeightsMappingOperations_ok_iff (b : TransferPlanBuilder)
    (infer train : List ParameterMeta) (g : Option ℕ) (ops : List CommunicationOperation) :
    buildWeightsMappingOperations b infer train g = .ok ops ↔
      ((infer = [] ∨ train = []) ∨ MappingOk b infer train g) ∧
        ops = plannedOperations b infer train g := by
  unfold buildWeightsMappingOperations
  by_cases hne : infer = [] ∨ train = []
  · rw [if_pos hne, plannedOperations_empty b infer train g hne]
    simp [hne, eq_comm]
  rw [if_neg hne, or_iff_right hne]
  dsimp only
  cases hkeys : keyMismatch b (metaDict infer).keys (metaDict train).keys with
  | some e =>
    refine iff_of_false (by simp) ?_
    rintro ⟨⟨hk, -⟩, -⟩
    simp [hkeys] at hk
  | none =>
    dsimp only
    rw [Except.bind_eq_ok]
    constructor
    · rintro ⟨plans, hplans, h⟩
      obtain rfl := Except.ok.inj h
      have hmap := Except.mapM_eq_map
        (fun name hname _ h => ((planName_ok_iff b infer train g name hname _).mp h).2) hplans
      refine ⟨⟨hkeys, fun name hname => ?_⟩, by rw [hmap, ← List.flatMap_def]; rfl⟩
      obtain ⟨plan, hplan⟩ := Except.mapM_isOk.mp ⟨plans, hplans⟩ name hname
      exact ((planName_ok_iff b infer train g name hname plan).mp hplan).1
    · rintro ⟨hok, rfl⟩
      obtain ⟨plans, hplans⟩ := Except.mapM_isOk.mpr (fun name hname =>
        ⟨_, (planName_ok_iff b infer train g name hname _).mpr ⟨hok.params name hname, rfl⟩⟩)
      have hmap := Except.mapM_eq_map
        (fun name hname _ h => ((planName_ok_iff b infer train g name hname _).mp h).2) hplans
      exact ⟨plans, hplans, by rw [hmap, ← List.flatMap_def]; rfl⟩

end Awex
