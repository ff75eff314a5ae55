import Awex.QkvWeight

namespace Awex

open Chunks

variable {α : Type}

/-- One head of every group of `headsPerKvGroup` replicated ones. -/
def uniqueBiasHeads (elements : List α) (numHeads headSize numKvHeads headsPerKvGroup : ℕ) :
    Except ConvertError (List α) :=
  if elements.length ≠ numHeads * headSize then .error .invalidShape
  else do
    let heads ← (List.range numKvHeads).mapM (fun i =>
      if i * headsPerKvGroup < numHeads then .ok (block elements headSize (i * headsPerKvGroup))
      else .error .indexError)
    catRows heads

/-- The error for an unknown layout says bias where that of the weight says weight. -/
def transformMcoreQkvBias (trainTpSize : ℕ) (gathered : List (List α)) (bias : List α) (config : TransformerConfig) :
    Except ConvertError (List α × List α × List α) := do
  let bias := getFullTensor trainTpSize gathered bias
  let headSize ← getHeadSize config
  let eachKvSize := headSize
  let headsPerKvGroup ← divide config.numAttentionHeads config.numQueryGroups
  let eachQuerySize := headSize * headsPerKvGroup
  let actualSize := bias.length
  let expectedCompactSize := (eachQuerySize + 2 * eachKvSize) * config.numQueryGroups
  let expectedReplicatedSize := 3 * config.hiddenSize
  if actualSize = expectedReplicatedSize then
    let parts ← splitRows [config.hiddenSize, config.hiddenSize, config.hiddenSize] bias
    let key ← uniqueBiasHeads (parts.getD 1 []) config.numAttentionHeads headSize config.numQueryGroups
      headsPerKvGroup
    let value ← uniqueBiasHeads (parts.getD 2 []) config.numAttentionHeads headSize config.numQueryGroups
      headsPerKvGroup
    .ok (parts.getD 0 [], key, value)
  else if actualSize = expectedCompactSize then splitGroups bias config.numQueryGroups eachQuerySize eachKvSize
  else .error (.qkvSizeMismatch actualSize expectedCompactSize expectedReplicatedSize config.hiddenSize
    config.numAttentionHeads config.numQueryGroups headSize eachQuerySize eachKvSize)

def convertQkvBiasAlongTpAttention (mpuTpSize : ℕ) (gathered : List (List α)) (bias : List α)
    (inferAttenTpSize : ℕ) (config : TransformerConfig) (trainTpRank trainTpSize : Option ℕ) :
    Except ConvertError (List α) := do
  let numKvHeadReplicas ←
    (if config.numQueryGroups ≤ inferAttenTpSize then divide inferAttenTpSize config.numQueryGroups else .ok 1)
  let (query, key, value) ← transformMcoreQkvBias mpuTpSize gathered bias config
  let merged ← mergeForInference query key value inferAttenTpSize config.numQueryGroups numKvHeadReplicas
  trainShard merged trainTpRank trainTpSize

end Awex
