import Awex.EmittedNames
import Awex.NamesAgree
import Awex.PlainOrder

namespace Awex

open Text McoreConverter

section Dispatch

def dispatchRules : List (List String × ParamKind) :=
  [(["input_layernorm", "post_attention_layernorm"], .unsharded), (["norm"], .unsharded), (["embedding"], .embedding),
    (["lm_head"], .lmHead), (["expert_bias"], .unsharded), (["shared_experts"], .sharedExpert),
    (["expert"], .expert), (["gate.weight", "router.weight"], .unsharded), (["mlp"], .mlp),
    (["attention"], .attention)]

def selectRule (name : Name) : List (List String × ParamKind) → Option ParamKind
  | [] => none
  | (frags, kind) :: rules => if ∃ frag ∈ frags, Occurs frag name then some kind else selectRule name rules

/-- The rule of the first test that a name passes. -/
def dispatched (name : Name) : Option ParamKind := selectRule name dispatchRules

theorem selectRule_congr {name name' : Name} {rules : List (List String × ParamKind)}
    (h : ∀ rule ∈ rules, ∀ frag ∈ rule.1, (Occurs frag name ↔ Occurs frag name')) :
    selectRule name rules = selectRule name' rules := by
  induction rules with
  | nil => rfl
  | cons rule rules ih =>
    obtain ⟨hrule, hrules⟩ := List.forall_mem_cons.mp h
    have htest : (∃ frag ∈ rule.1, Occurs frag name) ↔ ∃ frag ∈ rule.1, Occurs frag name' :=
      exists_congr (fun frag => and_congr_right (hrule frag))
    simp only [selectRule, htest, ih hrules]

variable (s : ShardingStrategy) (name : Name)

def ShardingStrategy.ruleOrDefault : Option ParamKind → ShardingInfo
  | some kind => s.rule name kind
  | none => (.tpSharding, shardingDimOf name, s.rankInfo.tpSize)

theorem ruleOrDefault_ite (p : Prop) [Decidable p] (kind : ParamKind) (other : Option ParamKind) :
    s.ruleOrDefault name (if p then some kind else other) =
      if p then s.rule name kind else s.ruleOrDefault name other := by
  split_ifs <;> rfl

theorem getShardingStrategy_eq (htp : s.rankInfo.tpSize ≠ 1) :
    s.getShardingStrategy name = s.ruleOrDefault name (dispatched name) := by
  have hone : ∀ frag, (∃ frag' ∈ [frag], Occurs frag' name) ↔ Occurs frag name := by simp
  have htwo : ∀ frag other, (∃ frag' ∈ [frag, other], Occurs frag' name) ↔ Occurs frag name ∨ Occurs other name := by
    simp
  unfold ShardingStrategy.getShardingStrategy dispatched dispatchRules
  rw [if_neg htp]
  simp only [selectRule, ruleOrDefault_ite, hone, htwo]
  rfl

theorem dispatched_around {before after : Name} (layer other : ℕ) :
    dispatched (before ++ (digits layer ++ after)) = dispatched (before ++ (digits other ++ after)) := by
  have hplain : ∀ rule ∈ dispatchRules, ∀ frag ∈ rule.1, NoDigits frag := by decide
  apply selectRule_congr
  intro rule hrule frag hfrag
  rw [occurs_around (hplain rule hrule frag hfrag), occurs_around (hplain rule hrule frag hfrag)]

theorem dispatched_modelLayer (layer : ℕ) (name : Name) :
    dispatched (modelLayer (digits layer) name) = dispatched ('.' :: name) := by
  have hplain : ∀ rule ∈ dispatchRules, ∀ frag ∈ rule.1, NoDigits frag ∧ ¬ Occurs frag "model.layers." := by
    decide
  apply selectRule_congr
  intro rule hrule frag hfrag
  obtain ⟨hdigits, hstart⟩ := hplain rule hrule frag hfrag
  exact occurs_modelLayer frag hdigits hstart layer name

theorem dispatched_projections : ∀ proj ∈ [Projection.gateProj, .upProj, .downProj],
    ∀ part ∈ [ParamPart.weight, .bias], dispatched ('.' :: (LayerParam.mlp proj part).name) = some .mlp ∧
      dispatched ('.' :: (LayerParam.sharedExperts proj part).name) = some .sharedExpert ∧
      dispatched ('.' :: (LayerParam.experts 0 proj part).name) = some .expert := by
  decide

theorem dispatched_fixed : ∀ param ∈ [LayerParam.inputLayernorm, .postAttentionLayernorm, .queryLayernorm,
    .keyLayernorm, .queryKeyValue .weight, .queryKeyValue .bias, .dense .weight, .dense .bias, .gate, .expertBias,
    .sharedExpertGate], dispatched ('.' :: param.name) =
      some (if param = .sharedExpertGate then .expert else param.kind) := by
  decide

theorem dispatched_layerParam (param : LayerParam) : dispatched ('.' :: param.name) =
    some (if param = .sharedExpertGate then .expert else param.kind) := by
  -- the only parameter of a layer with the rule of another kind is the gate of the shared experts
  have hproj : ∀ (proj : Projection) (part : ParamPart), _ := fun proj part =>
    dispatched_projections proj (by cases proj <;> simp) part (by cases part <;> simp)
  cases param with
  | queryKeyValue part => exact dispatched_fixed _ (by cases part <;> simp)
  | dense part => exact dispatched_fixed _ (by cases part <;> simp)
  | mlp proj part => exact (hproj proj part).1
  | sharedExperts proj part => exact (hproj proj part).2.1
  | experts expertId proj part =>
    have hname : ∀ expertId, '.' :: (LayerParam.experts expertId proj part).name =
        (".mlp.experts." : Name) ++ (digits expertId ++ '.' :: proj.name part) := by
      intro expertId
      unfold LayerParam.name
      simp only [List.append_assoc]
      rfl
    calc dispatched ('.' :: (LayerParam.experts expertId proj part).name)
        = dispatched ('.' :: (LayerParam.experts 0 proj part).name) := by
          simp only [hname]
          exact dispatched_around expertId 0
      _ = some .expert := (hproj proj part).2.2
  | _ => exact dispatched_fixed _ (by simp)

end Dispatch

section Rules

variable (s : ShardingStrategy)

theorem shardingDimOf_sharedExpertGate (layer : ℕ) :
    ShardingStrategy.shardingDimOf (modelLayer (digits layer) LayerParam.sharedExpertGate.name) = 0 := by
  have hscale : ¬ ("_scale_inv" : Name) <:+: modelLayer (digits layer) LayerParam.sharedExpertGate.name := by
    intro hocc
    exact absurd ((occurs_modelLayer "_scale_inv" (by decide) (by decide) layer _).mp hocc) (by decide)
  have hname : modelLayer (digits layer) LayerParam.sharedExpertGate.name =
      (("model.layers." : Name) ++ digits layer) ++ '.' :: LayerParam.sharedExpertGate.name := by
    unfold modelLayer
    rw [List.append_assoc]
  have hcomponents : (components LayerParam.sharedExpertGate.name).reverse =
      [("weight" : Name), ("shared_expert_gate" : Name), ("mlp" : Name)] := by
    decide
  have hunknown : (defaultShardingDimOf (("shared_expert_gate" : Name) ++ '.' :: ("weight" : Name))).or
      (defaultShardingDimOf "weight") = none := by
    decide
  unfold ShardingStrategy.shardingDimOf ShardingStrategy.maybeAdjustShardingDim getDefaultShardingDim
  rw [replaceAll, replaceFrom_eq hscale, hname, components, List.splitOn_append_cons_self, List.reverse_append,
    ← components, hcomponents]
  exact congrArg (Option.getD · 0) hunknown

/-- The tests miss the canonical name of the embedding, and take the gate of the shared experts for an expert. -/
def ShardingStrategy.dispatchesRight : HfParam → Prop
  | .embedTokens => s.enableDpAttention = false
  | .layer _ .sharedExpertGate => s.epSize ≤ 1 ∧ s.tpSize ≤ 1
  | _ => True

variable {s}

theorem embedTokens_iff (htp : 1 < s.rankInfo.tpSize) :
    s.getShardingStrategy HfParam.embedTokens.name = s.rule HfParam.embedTokens.name .embedding ↔
      s.enableDpAttention = false := by
  have hmissed : dispatched HfParam.embedTokens.name = none := by decide
  rw [getShardingStrategy_eq s _ (by omega), hmissed]
  unfold ShardingStrategy.ruleOrDefault ShardingStrategy.rule ShardingStrategy.getEmbeddingShardingStrategy
    ShardingStrategy.getAttentionShardingStrategy
  cases s.enableDpAttention with
  | false => simp [htp]
  | true =>
    by_cases hattn : 1 < s.rankInfo.attnTpSize
    · simp [hattn]
    · simp [hattn]

theorem dispatched_layer (layer : ℕ) (param : LayerParam) : dispatched (HfParam.layer layer param).name =
    some (if param = .sharedExpertGate then .expert else param.kind) :=
  (dispatched_modelLayer layer param.name).trans (dispatched_layerParam param)

theorem sharedExpertGate_iff (htp : 1 < s.rankInfo.tpSize) (layer : ℕ) :
    s.getShardingStrategy (HfParam.layer layer .sharedExpertGate).name =
        s.rule (HfParam.layer layer .sharedExpertGate).name .unsharded ↔ s.epSize ≤ 1 ∧ s.tpSize ≤ 1 := by
  have hexpert : dispatched (HfParam.layer layer .sharedExpertGate).name = some .expert :=
    dispatched_layer layer .sharedExpertGate
  have hdim : ShardingStrategy.shardingDimOf (HfParam.layer layer .sharedExpertGate).name = 0 :=
    shardingDimOf_sharedExpertGate layer
  rw [getShardingStrategy_eq s _ (by omega), hexpert]
  unfold ShardingStrategy.ruleOrDefault ShardingStrategy.rule ShardingStrategy.getExpertShardingStrategy
  simp only [hdim]
  split_ifs with hboth hep hself
  · simp; omega
  · simp; omega
  · simp; omega
  · simp; omega

theorem dispatch_iff (htp : 1 < s.rankInfo.tpSize) (param : HfParam) :
    s.getShardingStrategy param.name = s.rule param.name param.kind ↔ s.dispatchesRight param := by
  have hdirect : ∀ {kind}, dispatched param.name = some kind →
      s.getShardingStrategy param.name = s.rule param.name kind := by
    intro kind hkind
    exact (getShardingStrategy_eq s _ (by omega)).trans (congrArg (s.ruleOrDefault _) hkind)
  cases param with
  | embedTokens => exact embedTokens_iff htp
  | norm => exact iff_of_true (hdirect (by decide)) trivial
  | lmHead => exact iff_of_true (hdirect (by decide)) trivial
  | layer layer param =>
    by_cases hgate : param = .sharedExpertGate
    · subst hgate
      exact sharedExpertGate_iff htp layer
    · have hkind : dispatched (HfParam.layer layer param).name = some param.kind :=
        (dispatched_layer layer param).trans (congrArg some (if_neg hgate))
      refine iff_of_true (hdirect hkind) ?_
      cases param <;> trivial

variable {τ : Type} {c : McoreConverter τ} {name : Name} {parameter : τ} {vpStage : ℕ} {params : List (Name × τ)}

theorem shardingRule_iff (htp : 1 < s.rankInfo.tpSize) (h : c.convertParam name parameter vpStage = .ok params)
    {hfName : Name} {tensor : τ} (hout : (hfName, tensor) ∈ params) (hcanonical : isCanonical hfName) :
    (∃ param : HfParam, param.name = hfName) ∧ ∀ param : HfParam, param.name = hfName →
      (s.getShardingStrategy hfName = s.rule hfName param.kind ↔ s.dispatchesRight param) := by
  refine ⟨exists_hfParam h hout hcanonical, ?_⟩
  rintro param rfl
  exact dispatch_iff htp param

end Rules

/-- Two tensor ranks without expert parallelism. -/
def twoRankStrategy : ShardingStrategy where
  engineName := .sglang
  enableDpAttention := true
  enableDpLmHead := false
  tpSize := 2
  epSize := 1
  epTpSize := 1
  rankInfo := rowRankInfo 1 2

theorem not_shardingRule_twoRanks :
    ((rowConverter ℤ 1 1 2 2 0).toMcoreConverter.convertParam "embedding.word_embeddings.weight" [] 0 =
        .ok [(HfParam.embedTokens.name, [])] ∧
      twoRankStrategy.getShardingStrategy HfParam.embedTokens.name ≠
        twoRankStrategy.rule HfParam.embedTokens.name .embedding) ∧
    (rowConverter ℤ 1 1 2 2 0).toMcoreConverter.convertParam "decoder.layers.0.mlp.shared_experts.gate_weight" [] 0 =
        .ok [((HfParam.layer 0 .sharedExpertGate).name, [])] ∧
      twoRankStrategy.getShardingStrategy (HfParam.layer 0 .sharedExpertGate).name ≠
        twoRankStrategy.rule (HfParam.layer 0 .sharedExpertGate).name .unsharded := by
  -- the embedding is split although attention is data parallel, and the gate of the shared experts is split as an
  -- expert is
  decide +kernel

theorem shardingRule_iff_twoRanks :
    (∃ param : HfParam, param.name = HfParam.embedTokens.name) ∧
    ∀ param : HfParam, param.name = HfParam.embedTokens.name →
      (twoRankStrategy.getShardingStrategy HfParam.embedTokens.name =
        twoRankStrategy.rule HfParam.embedTokens.name param.kind ↔ twoRankStrategy.dispatchesRight param) := by
  have hconverted : (rowConverter ℤ 1 1 2 2 0).toMcoreConverter.convertParam "embedding.word_embeddings.weight" [] 0 =
      .ok [(HfParam.embedTokens.name, [])] := by
    decide +kernel
  have hcanonical : isCanonical HfParam.embedTokens.name := by
    intro hlayer
    exact absurd hlayer (by decide +kernel)
  exact shardingRule_iff (by decide) hconverted List.mem_cons_self hcanonical

end Awex
