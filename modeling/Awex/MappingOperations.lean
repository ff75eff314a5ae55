import Awex.RegionPlanning

namespace Awex

def inferenceReplicas (b : TransferPlanBuilder) (inferenceMeta : ParameterMeta) :
    List (ℕ × ParameterReplicaMeta) :=
  (List.range b.numInferEngines).flatMap (fun engineRank =>
    inferenceMeta.replicas.map (fun replica => (engineRank, replica)))

/-- Inference replica `i` is served by training replica `i % num_training_replicas`. -/
def replicaAssignments (b : TransferPlanBuilder) (inferenceMeta trainingMeta : ParameterMeta) :
    List ((ℕ × ParameterReplicaMeta) × ParameterReplicaMeta) :=
  (inferenceReplicas b inferenceMeta).zipIdx.filterMap (fun (replica, i) =>
    (trainingMeta.replicas[i % trainingMeta.replicas.length]?).map (fun training => (replica, training)))

def buildParameterCommunicationPlan (b : TransferPlanBuilder) (paramName : String)
    (inferenceMeta trainingMeta : ParameterMeta) (globalTransferRank : Option ℕ) :
    Except PlanError (List CommunicationOperation) :=
  if inferenceReplicas b inferenceMeta = [] ∨ trainingMeta.replicas = [] then
    .error (.noReplicas paramName)
  else do
    let plans ← (replicaAssignments b inferenceMeta trainingMeta).mapM
      (fun ((engineRank, inference), training) =>
        buildReplicaPlan b globalTransferRank engineRank inference training)
    .ok plans.flatten

/-- `{meta.name: meta for meta in metas}`. -/
def metaDict (metas : List ParameterMeta) : Dict String ParameterMeta :=
  Dict.ofList (metas.map (fun m => (m.name, m)))

def isAllowedInferOnlyAlias (extraKey : String) (inferKeys trainKeys : List String) : Bool :=
  if extraKey = "lm_head.weight" then
    "model.embed_tokens.weight" ∈ inferKeys ∧ "model.embed_tokens.weight" ∈ trainKeys
  else if extraKey = "model.embed_tokens.weight" then
    "lm_head.weight" ∈ inferKeys ∧ "lm_head.weight" ∈ trainKeys
  else false

def sorted (names : List String) : List String := names.insertionSort (· ≤ ·)

/-- Infer-only keys are an error in strict mode, and otherwise unless they are a known alias. -/
def keyMismatch (b : TransferPlanBuilder) (inferKeys trainKeys : List String) : Option PlanError :=
  let missingOnInfer := trainKeys.filter (· ∉ inferKeys)
  let extraOnInfer := inferKeys.filter (· ∉ trainKeys)
  let unsupportedExtraOnInfer := extraOnInfer.filter
    (fun key => ¬ isAllowedInferOnlyAlias key inferKeys trainKeys)
  let mismatch := if b.strictParamKeyMatch then missingOnInfer ≠ [] ∨ extraOnInfer ≠ []
    else missingOnInfer ≠ [] ∨ unsupportedExtraOnInfer ≠ []
  if mismatch then
    some (.keyMismatch trainKeys.length inferKeys.length (sorted missingOnInfer)
      (sorted extraOnInfer) (sorted unsupportedExtraOnInfer) b.strictParamKeyMatch)
  else none

def commonParams (inferKeys trainKeys : List String) : List String :=
  inferKeys.filter (· ∈ trainKeys)

def buildWeightsMappingOperations (b : TransferPlanBuilder)
    (inferenceWeightsMeta trainingWeightsMeta : List ParameterMeta) (globalTransferRank : Option ℕ) :
    Except PlanError (List CommunicationOperation) :=
  if inferenceWeightsMeta = [] ∨ trainingWeightsMeta = [] then .ok []
  else
    let inferenceDict := metaDict inferenceWeightsMeta
    let trainingDict := metaDict trainingWeightsMeta
    match keyMismatch b inferenceDict.keys trainingDict.keys with
    | some e => .error e
    | none => do
      let plans ← (sorted (commonParams inferenceDict.keys trainingDict.keys)).mapM (fun paramName =>
        match inferenceDict.get? paramName, trainingDict.get? paramName with
        | some inferenceMeta, some trainingMeta =>
          buildParameterCommunicationPlan b paramName inferenceMeta trainingMeta globalTransferRank
        | _, _ => .error .indexError)
      .ok plans.flatten

end Awex
