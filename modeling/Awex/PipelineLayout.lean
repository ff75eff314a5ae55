import Awex.Library.Numerals
import Awex.McoreConverter
import Mathlib.Algebra.Ring.Int.Defs
import Mathlib.Data.Int.Range

namespace Awex

open Text

inductive PipelineError where
  | numHiddenLayersRequired
  | invalidPpRank (ppRank : ℤ) (ppSize : ℕ)
  | layoutNotNonEmptyList
  | layoutStageCount (stages ppSize : ℕ)
  | layoutNotStageLists
  | layoutPpDimension (layoutPp ppSize : ℕ)
  | layoutEmptyVp
  | layoutInconsistentVp
  | notIterable
  | vpSizeNotPositive (vpSize : ℤ)
  | mixedSplit
  | firstLayersNotPositive (firstLayers : ℤ)
  | lastLayersNotPositive (lastLayers : ℤ)
  | firstLastExceedTotal (total firstLayers lastLayers : ℤ)
  | middleLayersNotDivisible (middleLayers middlePpSize : ℤ)
  | splitNotDivisible (effectiveLayers : ℤ) (ppSize : ℕ) (numHiddenLayers : ℤ) (accountEmbed accountLoss : Bool)
  | negativeLayerCount (ppRank : ℕ) (layers : ℤ)
  | layersNotDivisibleByVp (ppRank : ℕ) (layers : ℤ) (vpSize : ℕ)
  | negativeDecoderCount (ppRank vpStage : ℕ) (count : ℤ)
  | invalidVpStage (vpStage : ℤ) (vpSize : ℕ) (ppRank : ℤ)
  | totalMismatch (resolvedTotal numHiddenLayers : ℤ) (ppSize : ℕ) (stageCounts : List (List ℤ))
  deriving DecidableEq, Repr

/-- What a pipeline layout is written with: members of an enumeration, texts, lists and tuples, and
objects that are known by their text only. -/
inductive LayoutValue where
  | member (name : Name)
  | text (value : Name)
  | list (items : List LayoutValue)
  | tuple (items : List LayoutValue)
  | other (str : Name)

structure PipelineRankInfo where
  ppRank : ℤ
  ppSize : ℤ

structure HfPipelineConfig where
  numHiddenLayers : Option ℤ

/-- The layout stands for the `layout` attribute of an object that has one. -/
structure TfPipelineConfig where
  numLayers : Option ℤ
  pipelineModelParallelLayout : Option LayoutValue
  numLayersInFirstPipelineStage : Option ℤ
  numLayersInLastPipelineStage : Option ℤ
  accountForEmbeddingInPipelineSplit : Bool
  accountForLossInPipelineSplit : Bool
  virtualPipelineModelParallelSize : Option ℤ

def LayoutValue.items : LayoutValue → Except PipelineError (List LayoutValue)
  | .list items | .tuple items => .ok items
  | .text value => .ok (value.map (fun c => .text [c]))
  | .member _ | .other _ => .error .notIterable

def lower (value : Name) : Name := value.map Char.toLower

def isDecoderText (value : Name) : Bool :=
  let normalized := lower (strip value)
  normalized = "decoder".toList || normalized = "t".toList || (".decoder".toList).isSuffixOf normalized

def isDecoderLayer : LayoutValue → Bool
  | .member name => lower name = "decoder".toList
  | .text value | .other value => isDecoderText value
  -- the text of a list ends with a bracket
  | .list _ | .tuple _ => false

/-- A row for each pipeline rank, of a layout that starts with `first`. -/
def layoutRows (first : LayoutValue) (rest : List LayoutValue) (ppSize : ℕ) :
    Except PipelineError (List LayoutValue) :=
  let layout := first :: rest
  match first with
  -- one row for each pipeline rank already
  | .list (.list _ :: _) => .ok layout
  -- one entry for each stage
  | .list _ =>
    if layout.length % ppSize ≠ 0 then .error (.layoutStageCount layout.length ppSize)
    else
      let vpSize := layout.length / ppSize
      .ok ((List.range ppSize).map (fun ppRank =>
        .list ((List.range vpSize).map (fun vp => layout.getD (vp * ppSize + ppRank) (.list [])))))
  | _ => .error .layoutNotStageLists

def normalizePipelineLayout (pipelineLayout : LayoutValue) (ppSize : ℕ) :
    Except PipelineError (List (List LayoutValue) × ℕ) :=
  match pipelineLayout with
  | .list (first :: rest) => do
    let layout2d ← layoutRows first rest ppSize
    if layout2d.length ≠ ppSize then .error (.layoutPpDimension layout2d.length ppSize)
    else do
      let firstRow ← (layout2d.headD (.list [])).items
      let vpSize := firstRow.length
      if vpSize = 0 then .error .layoutEmptyVp
      else do
        let rows ← layout2d.mapM (fun ppRow => do
          let row ← ppRow.items
          if row.length ≠ vpSize then .error .layoutInconsistentVp else .ok row)
        .ok (rows, vpSize)
  | _ => .error .layoutNotNonEmptyList

def buildStageLayerCountsFromLayout (pipelineLayout : LayoutValue) (ppSize : ℕ) :
    Except PipelineError (List (List ℤ)) := do
  let (layout2d, _) ← normalizePipelineLayout pipelineLayout ppSize
  layout2d.mapM (fun row => row.mapM (fun stage => do
    let layerTypes ← stage.items
    .ok ((layerTypes.countP isDecoderLayer : ℕ) : ℤ)))

def middlePpSize (ppSize : ℕ) (first last : Option ℤ) : ℤ :=
  ppSize - (if first.isSome then 1 else 0) - (if last.isSome then 1 else 0)

def unevenLayers (ppSize : ℕ) (first last : Option ℤ) (layersToDistribute : ℤ) (ppRank : ℕ) : ℤ :=
  if ppRank = ppSize - 1 ∧ last.isSome then last.getD 0
  else if ppRank = 0 ∧ first.isSome then first.getD 0
  else if 0 < middlePpSize ppSize first last then layersToDistribute / middlePpSize ppSize first last
  else 0

def effectiveLayers (numHiddenLayers : ℤ) (tfConfig : TfPipelineConfig) : ℤ :=
  numHiddenLayers + (if tfConfig.accountForEmbeddingInPipelineSplit then 1 else 0) +
    (if tfConfig.accountForLossInPipelineSplit then 1 else 0)

def layersPerPpRank (numHiddenLayers : ℤ) (ppSize : ℕ) (tfConfig : TfPipelineConfig) :
    Except PipelineError (List ℤ) :=
  let first := tfConfig.numLayersInFirstPipelineStage
  let last := tfConfig.numLayersInLastPipelineStage
  if first.isSome ∨ last.isSome then
    let layersToDistribute := numHiddenLayers - first.getD 0 - last.getD 0
    if first.any (· ≤ 0) then .error (.firstLayersNotPositive (first.getD 0))
    else if last.any (· ≤ 0) then .error (.lastLayersNotPositive (last.getD 0))
    else if layersToDistribute < 0 then
      .error (.firstLastExceedTotal numHiddenLayers (first.getD 0) (last.getD 0))
    else if 0 < middlePpSize ppSize first last ∧ layersToDistribute % middlePpSize ppSize first last ≠ 0 then
      .error (.middleLayersNotDivisible layersToDistribute (middlePpSize ppSize first last))
    else .ok ((List.range ppSize).map (unevenLayers ppSize first last layersToDistribute))
  else
    let layers := effectiveLayers numHiddenLayers tfConfig
    if layers % ppSize ≠ 0 then
      .error (.splitNotDivisible layers ppSize numHiddenLayers tfConfig.accountForEmbeddingInPipelineSplit
        tfConfig.accountForLossInPipelineSplit)
    else .ok ((List.range ppSize).map (fun _ => layers / ppSize))

def splitVpSize (ppSize : ℕ) (tfConfig : TfPipelineConfig) : ℤ :=
  if 1 < ppSize then tfConfig.virtualPipelineModelParallelSize.getD 1 else 1

def splitOverVpStages (layersPerPp : List ℤ) (vpSize : ℕ) : Except PipelineError (List (List ℤ)) :=
  layersPerPp.zipIdx.mapM (fun (layers, ppRank) =>
    if layers < 0 then .error (.negativeLayerCount ppRank layers)
    else if 1 < vpSize ∧ layers % vpSize ≠ 0 then .error (.layersNotDivisibleByVp ppRank layers vpSize)
    else .ok (List.replicate vpSize (if 1 < vpSize then layers / vpSize else layers)))

def decrement (stageCounts : List (List ℤ)) (ppRank vpStage : ℕ) : List (List ℤ) :=
  stageCounts.modify ppRank (fun row => row.modify vpStage (· - 1))

def leaveOutEmbeddingAndLoss (tfConfig : TfPipelineConfig) (ppSize vpSize : ℕ) (stageCounts : List (List ℤ)) :
    List (List ℤ) :=
  let afterEmbed := if tfConfig.accountForEmbeddingInPipelineSplit then decrement stageCounts 0 0 else stageCounts
  if tfConfig.accountForLossInPipelineSplit then decrement afterEmbed (ppSize - 1) (vpSize - 1) else afterEmbed

def negativeStage? (stageCounts : List (List ℤ)) : Option ((ℕ × ℕ) × ℤ) :=
  (stageCounts.zipIdx.flatMap (fun (row, ppRank) => row.zipIdx.map (fun (count, vpStage) =>
    ((ppRank, vpStage), count)))).find? (·.2 < 0)

def buildStageLayerCountsFromSplitConfig (numHiddenLayers : ℤ) (ppSize : ℕ) (tfConfig : TfPipelineConfig) :
    Except PipelineError (List (List ℤ)) :=
  let vpSize := splitVpSize ppSize tfConfig
  if vpSize ≤ 0 then .error (.vpSizeNotPositive vpSize)
  else if (tfConfig.numLayersInFirstPipelineStage.isSome ∨ tfConfig.numLayersInLastPipelineStage.isSome) ∧
      (tfConfig.accountForEmbeddingInPipelineSplit ∨ tfConfig.accountForLossInPipelineSplit) then .error .mixedSplit
  else do
    let layersPerPp ← layersPerPpRank numHiddenLayers ppSize tfConfig
    let perVp ← splitOverVpStages layersPerPp vpSize.toNat
    let stageCounts := leaveOutEmbeddingAndLoss tfConfig ppSize vpSize.toNat perVp
    match negativeStage? stageCounts with
    | some (stage, count) => .error (.negativeDecoderCount stage.1 stage.2 count)
    | none => .ok stageCounts

def stageOrder (vpSize ppSize : ℕ) : List (ℕ × ℕ) :=
  (List.range vpSize).flatMap (fun currVp => (List.range ppSize).map (·, currVp))

def stageCount (stageCounts : List (List ℤ)) (stage : ℕ × ℕ) : ℤ := (stageCounts.getD stage.1 []).getD stage.2 0

def configuredLayers (hfConfig : HfPipelineConfig) (tfConfig : TfPipelineConfig) : Option ℤ :=
  hfConfig.numHiddenLayers <|> tfConfig.numLayers

def buildStageLayerCounts (numHiddenLayers : ℤ) (ppSize : ℕ) (tfConfig : TfPipelineConfig) :
    Except PipelineError (List (List ℤ)) :=
  match tfConfig.pipelineModelParallelLayout with
  | some pipelineLayout => buildStageLayerCountsFromLayout pipelineLayout ppSize
  | none => buildStageLayerCountsFromSplitConfig numHiddenLayers ppSize tfConfig

def stageVpSize (stageCounts : List (List ℤ)) : ℕ :=
  match stageCounts with
  | [] => 1
  | row :: _ => row.length

def resolvePpStageGlobalLayerIds (rankInfo : PipelineRankInfo) (hfConfig : HfPipelineConfig)
    (tfConfig : TfPipelineConfig) (vpStage : Option ℤ) : Except PipelineError (List ℤ) :=
  match configuredLayers hfConfig tfConfig with
  | none => .error .numHiddenLayersRequired
  | some numHiddenLayers =>
    let ppSize := (max rankInfo.ppSize 1).toNat
    if rankInfo.ppRank < 0 ∨ ppSize ≤ rankInfo.ppRank then .error (.invalidPpRank rankInfo.ppRank ppSize)
    else do
      let stageCounts ← buildStageLayerCounts numHiddenLayers ppSize tfConfig
      let vpSize := stageVpSize stageCounts
      let stageVp := vpStage.getD 0
      if stageVp < 0 ∨ vpSize ≤ stageVp then .error (.invalidVpStage stageVp vpSize rankInfo.ppRank)
      else
        let stage := (rankInfo.ppRank.toNat, stageVp.toNat)
        let stageLayerCount := stageCount stageCounts stage
        -- the loops over the stages stop at this one
        let startOffset := (((stageOrder vpSize ppSize).takeWhile (· ≠ stage)).map (stageCount stageCounts)).sum
        let totalLayers := (stageCounts.map List.sum).sum
        if totalLayers ≠ numHiddenLayers then .error (.totalMismatch totalLayers numHiddenLayers ppSize stageCounts)
        else .ok (Int.range startOffset (startOffset + stageLayerCount))

end Awex
