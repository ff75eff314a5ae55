import Awex.MappingOperations
import Mathlib.Algebra.GroupWithZero.Nat
import Mathlib.Data.List.Lex
import Mathlib.Data.Nat.Basic

namespace Awex

/-- The order of the keys `(name, send_offset, recv_offset)`. -/
def sortKeyLe (x y : CommunicationOperation) : Prop :=
  x.sendShardMeta.name < y.sendShardMeta.name ∨
    x.sendShardMeta.name = y.sendShardMeta.name ∧ (x.sendOffset < y.sendOffset ∨
      x.sendOffset = y.sendOffset ∧ x.recvOffset ≤ y.recvOffset)

instance : DecidableRel sortKeyLe := fun _ _ => inferInstanceAs (Decidable (_ ∨ _))

def groupOperationsByRank (operations : List CommunicationOperation)
    (key : CommunicationOperation → ℕ) : Dict ℕ (List CommunicationOperation) :=
  ((Dict.groupBy key operations).mapValues (List.insertionSort sortKeyLe)).sortByKey

/-- `operations` and `inter_operations` of the source are one and the same dictionary. -/
structure TransferPlan where
  operations : Dict ℕ (List CommunicationOperation)

def countShards (metas : List ParameterMeta) : ℕ :=
  (metas.map (fun param => (param.replicas.map (fun replica => replica.shards.length)).sum)).sum

def pruneThreshold : ℕ := 10000

def isTrainRank (b : TransferPlanBuilder) (globalTransferRank : ℕ) : Bool :=
  b.inferWorldSize ≤ globalTransferRank

/-- The side of `operation` that the given rank stands on. -/
def ownRank (b : TransferPlanBuilder) (globalTransferRank : ℕ) (operation : CommunicationOperation) :
    ℕ :=
  if isTrainRank b globalTransferRank then operation.sendRank else operation.recvRank

def oppositeRank (b : TransferPlanBuilder) (globalTransferRank : ℕ)
    (operation : CommunicationOperation) : ℕ :=
  if isTrainRank b globalTransferRank then operation.recvRank else operation.sendRank

def ownOperations (b : TransferPlanBuilder) (globalTransferRank : ℕ)
    (operations : List CommunicationOperation) : List CommunicationOperation :=
  operations.filter (fun op => ownRank b globalTransferRank op = globalTransferRank)

def buildLocalTransferPlan (b : TransferPlanBuilder)
    (inferenceWeightsMeta trainingWeightsMeta : List ParameterMeta) (globalTransferRank : ℕ) :
    Except PlanError TransferPlan := do
  let numInferShards := countShards inferenceWeightsMeta * b.numInferEngines
  let numTrainShards := countShards trainingWeightsMeta
  let operations ← buildWeightsMappingOperations b inferenceWeightsMeta trainingWeightsMeta
    (if numInferShards + numTrainShards > pruneThreshold then some globalTransferRank else none)
  let grouped := groupOperationsByRank (ownOperations b globalTransferRank operations)
    (oppositeRank b globalTransferRank)
  if grouped.values.all (fun ops =>
      ops.all (fun op => ownRank b globalTransferRank op = globalTransferRank)) then .ok ⟨grouped⟩
  else .error (.foreignOperation globalTransferRank)

def gateProjPlan (globalTransferRank : ℕ) : TransferPlan :=
  match buildLocalTransferPlan .twoEngines [gateProjInfer] [gateProjTrain] globalTransferRank with
  | .ok plan => plan
  | .error _ => ⟨.empty⟩

end Awex
