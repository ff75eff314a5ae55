import Awex.LinearMla

namespace Awex

variable {τ : Type}

/-- The parameters of one virtual stage of the model. -/
structure McoreModule (τ : Type) where
  namedParameters : Dict Name τ
  stateDict : Dict Name τ

def getMcoreModelParameters (model : McoreModule τ) : Dict Name τ :=
  model.stateDict.entries.foldl (fun paramsDict (name, param) =>
    if Occurs "expert_bias" name then paramsDict.set name param else paramsDict) model.namedParameters

/-- The converters that the model registry has for Megatron. -/
inductive WeightConverter (τ : Type) where
  | mcore (converter : McoreConverter τ)
  | bailingMoe (converter : BailingMoeConverter τ)
  | linearMla (converter : LinearMlaConverter τ)

def WeightConverter.convertParam (name : Name) (parameter : τ) (vpStage : ℕ) (cache : AProjCache τ) :
    WeightConverter τ → Except ConvertError (List (Name × τ) × AProjCache τ)
  | .mcore converter => (converter.convertParam name parameter vpStage).map (·, cache)
  | .bailingMoe converter => (converter.convertParam name parameter vpStage).map (·, cache)
  | .linearMla converter => converter.convertParam name parameter vpStage cache

structure WeightsWriter (τ : Type) where
  model : List (McoreModule τ)
  weightConverter : WeightConverter τ
  tieWordEmbeddings : Bool
  rankInfo : RankInfo

namespace WeightsWriter

variable (w : WeightsWriter τ)

def parameters : List (ℕ × Name × τ) :=
  w.model.zipIdx.flatMap (fun (model, vpStage) =>
    (getMcoreModelParameters model).entries.map (fun (name, param) => (vpStage, name, param)))

def isRequired (required : Option (List Name)) (hfName : Name) : Prop := ∀ names ∈ required, hfName ∈ names

instance (required : Option (List Name)) (hfName : Name) : Decidable (isRequired required hfName) :=
  match required with
  | none => isTrue (fun _ h => nomatch h)
  | some names => decidable_of_iff (hfName ∈ names) ⟨fun h _ hnames => Option.some.inj hnames ▸ h, fun h => h names rfl⟩

def addConverted (required : Option (List Name)) (converted : Dict Name τ) (hfParams : List (Name × τ)) :
    Dict Name τ :=
  hfParams.foldl (fun converted hfParam =>
    if isRequired required hfParam.1 then converted.set hfParam.1 hfParam.2 else converted) converted

def convertStep (required : Option (List Name)) (state : Dict Name τ × AProjCache τ) (parameter : ℕ × Name × τ) :
    Except ConvertError (Dict Name τ × AProjCache τ) := do
  let (vpStage, name, param) := parameter
  let (hfParams, cache) ← w.weightConverter.convertParam name param vpStage state.2
  .ok (addConverted required state.1 hfParams, cache)

/-- The head of a model with tied embeddings, on the last pipeline stage. -/
def tieLmHead (required : Option (List Name)) (converted : Dict Name τ) : Dict Name τ :=
  match converted.get? ("model.embed_tokens.weight" : Name) with
  | none => converted
  | some embedTokens =>
    if w.tieWordEmbeddings ∧ w.rankInfo.ppRank + 1 = w.rankInfo.ppSize ∧
        ("lm_head.weight" : Name) ∉ converted.keys ∧ isRequired required "lm_head.weight" then
      converted.set "lm_head.weight" embedTokens
    else converted

def convertParameters (requiredNames : Option (List Name)) (cache : AProjCache τ) :
    Except ConvertError (Dict Name τ × AProjCache τ) := do
  let required := requiredNames.filter (· ≠ [])
  let (converted, cache) ← w.parameters.foldlM (w.convertStep required) (Dict.empty, cache)
  .ok (w.tieLmHead required converted, cache)

end WeightsWriter

end Awex
