import Awex.Library.Chunks
import Awex.Library.ExceptList

namespace Awex

open Chunks

structure TransformerConfig where
  hiddenSize : ℕ
  numAttentionHeads : ℕ
  numQueryGroups : ℕ
  kvChannels : Option ℕ
  deriving DecidableEq, Repr

inductive ConvertError where
  | zeroDivision
  | notDivisible (numerator denominator : ℕ)
  | invalidChunks
  | splitMismatch (sizes : List ℕ) (length : ℕ)
  | invalidShape
  | emptyCat
  | qkvSizeMismatch (actualSize compactSize replicatedSize hiddenSize numHeads numKvHeads headSize
      eachQuerySize eachKvSize : ℕ)
  | trainTpRankRequired
  | trainTpRankOutOfRange (trainTpRank tpSize : ℕ)
  | inferTpSizeNotPositive (inferTpSize : ℕ)
  | rowsNotDivisible (rows inferTpSize : ℕ)
  | missingStageMap (ppRank vpStage : ℕ) (name : List Char)
  | missingLocalLayer (localLayerId ppRank vpStage : ℕ) (name : List Char)
  | unsupportedParameterName (name : List Char)
  | unsupportedBiasParameterName (name : List Char)
  | handledInAttention (name : List Char)
  | invalidLiteral (token : List Char)
  | notEnoughValues
  | indexError
  deriving DecidableEq, Repr

def divide (numerator denominator : ℕ) : Except ConvertError ℕ :=
  if denominator = 0 then .error .zeroDivision
  else if numerator % denominator = 0 then .ok (numerator / denominator)
  else .error (.notDivisible numerator denominator)

def getHeadSize (config : TransformerConfig) : Except ConvertError ℕ :=
  match config.kvChannels with
  | some kvChannels => .ok kvChannels
  | none => divide config.hiddenSize config.numAttentionHeads

section Rows

variable {ρ : Type}

/-- `torch.chunk` along dimension 0. -/
def chunkRows (n : ℕ) (rows : List ρ) : Except ConvertError (List (List ρ)) :=
  if n = 0 then .error .invalidChunks else .ok (chunk n rows)

/-- `torch.split` along dimension 0. -/
def splitRows (sizes : List ℕ) (rows : List ρ) : Except ConvertError (List (List ρ)) :=
  match splitSizes sizes rows with
  | some parts => .ok parts
  | none => .error (.splitMismatch sizes rows.length)

/-- `torch.cat` along dimension 0. -/
def catRows (parts : List (List ρ)) : Except ConvertError (List ρ) :=
  if parts = [] then .error .emptyCat else .ok parts.flatten

/-- `gathered` are the weights of the training TP group, in rank order. -/
def getFullTensor (trainTpSize : ℕ) (gathered : List (List ρ)) (weight : List ρ) : List ρ :=
  if trainTpSize ≠ 1 then gathered.flatten else weight

/-- The loop over the query groups `[q, k, v]`. -/
def splitGroups (weight : List ρ) (numKvHeads eachQuerySize eachKvSize : ℕ) :
    Except ConvertError (List ρ × List ρ × List ρ) := do
  let groups ← chunkRows numKvHeads weight
  let parts ← groups.mapM (splitRows [eachQuerySize, eachKvSize, eachKvSize])
  let query ← catRows (parts.map (·.getD 0 []))
  let key ← catRows (parts.map (·.getD 1 []))
  let value ← catRows (parts.map (·.getD 2 []))
  .ok (query, key, value)

def trainShard (merged : List ρ) (trainTpRank trainTpSize : Option ℕ) : Except ConvertError (List ρ) :=
  if 1 < trainTpSize.getD 0 then
    match trainTpRank with
    | none => .error .trainTpRankRequired
    | some rank => do
      let shards ← chunkRows (trainTpSize.getD 0) merged
      match shards[rank]? with
      | some shard => .ok shard
      | none => .error (.trainTpRankOutOfRange rank (trainTpSize.getD 0))
  else .ok merged

def mergeForInference (query key value : List ρ) (inferAttenTpSize numKvHeads numKvHeadReplicas : ℕ) :
    Except ConvertError (List ρ) := do
  let queryShards ← chunkRows inferAttenTpSize query
  if numKvHeads ≤ inferAttenTpSize then
    let keyChunks ← chunkRows numKvHeads key
    let valueChunks ← chunkRows numKvHeads value
    let keyShards := keyChunks.flatMap (List.replicate numKvHeadReplicas ·)
    let valueShards := valueChunks.flatMap (List.replicate numKvHeadReplicas ·)
    catRows ((queryShards.zip (keyShards.zip valueShards)).flatMap (fun (q, k, v) => [q, k, v]))
  else
    let keyShards ← chunkRows inferAttenTpSize key
    let valueShards ← chunkRows inferAttenTpSize value
    catRows ((queryShards.zip (keyShards.zip valueShards)).flatMap (fun (q, k, v) => [q, k, v]))

end Rows

section Weight

variable {α : Type} {cols : ℕ}

/-- `reshape(-1, cols)` of the elements, row after row. -/
def reshapeRows (elements : List α) : Except ConvertError (List (Vector α cols)) :=
  if cols = 0 ∨ elements.length % cols ≠ 0 then .error .invalidShape
  else .ok ((List.range (elements.length / cols)).filterMap (fun i =>
    if h : (block elements cols i).length = cols then some ⟨(block elements cols i).toArray, h⟩ else none))

/-- One head of every group of `headsPerKvGroup` replicated ones. -/
def uniqueHeads (rows : List (Vector α cols)) (numHeads headSize numKvHeads headsPerKvGroup : ℕ) :
    Except ConvertError (List (Vector α cols)) := do
  let elements := rows.flatMap (·.toList)
  if numHeads * headSize = 0 ∨ elements.length % (numHeads * headSize) ≠ 0 then .error .invalidShape
  else
    let heads ← catRows ((List.range numKvHeads).map (fun i =>
      block elements (elements.length / numHeads) (i * headsPerKvGroup)))
    reshapeRows heads

def transformMcoreQkvWeight (trainTpSize : ℕ) (gathered : List (List (Vector α cols)))
    (weight : List (Vector α cols)) (config : TransformerConfig) :
    Except ConvertError (List (Vector α cols) × List (Vector α cols) × List (Vector α cols)) := do
  let weight := getFullTensor trainTpSize gathered weight
  let headSize ← getHeadSize config
  let eachKvSize := headSize
  let headsPerKvGroup ← divide config.numAttentionHeads config.numQueryGroups
  let eachQuerySize := headSize * headsPerKvGroup
  let actualSize := weight.length
  let expectedCompactSize := (eachQuerySize + 2 * eachKvSize) * config.numQueryGroups
  let expectedReplicatedSize := 3 * config.hiddenSize
  let expectedQwen3GqaSize := config.hiddenSize * 2 + 2 * config.hiddenSize
  if actualSize = expectedCompactSize then splitGroups weight config.numQueryGroups eachQuerySize eachKvSize
  else if actualSize = expectedReplicatedSize then
    let parts ← splitRows [config.hiddenSize, config.hiddenSize, config.hiddenSize] weight
    let key ← uniqueHeads (parts.getD 1 []) config.numAttentionHeads headSize config.numQueryGroups headsPerKvGroup
    let value ← uniqueHeads (parts.getD 2 []) config.numAttentionHeads headSize config.numQueryGroups
      headsPerKvGroup
    .ok (parts.getD 0 [], key, value)
  else if actualSize = expectedQwen3GqaSize then
    let headSize ← divide config.hiddenSize config.numQueryGroups
    splitGroups weight config.numQueryGroups (headSize * headsPerKvGroup) headSize
  else .error (.qkvSizeMismatch actualSize expectedCompactSize expectedReplicatedSize config.hiddenSize
    config.numAttentionHeads config.numQueryGroups headSize eachQuerySize eachKvSize)

def convertQkvWeightAlongTpAttention (mpuTpSize : ℕ) (gathered : List (List (Vector α cols)))
    (weight : List (Vector α cols)) (inferAttenTpSize : ℕ) (config : TransformerConfig)
    (trainTpRank trainTpSize : Option ℕ) : Except ConvertError (List (Vector α cols)) := do
  let numKvHeadReplicas ←
    (if config.numQueryGroups ≤ inferAttenTpSize then divide inferAttenTpSize config.numQueryGroups else .ok 1)
  let (query, key, value) ← transformMcoreQkvWeight mpuTpSize gathered weight config
  let merged ← mergeForInference query key value inferAttenTpSize config.numQueryGroups numKvHeadReplicas
  trainShard merged trainTpRank trainTpSize

end Weight

end Awex
