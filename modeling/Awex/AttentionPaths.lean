import Awex.LinearNames

namespace Awex

open Text McoreConverter

/-- The parameters of an attention layer without low-rank projections; the first five are those of a
lightning layer only. -/
inductive AttentionKind where
  | teNorm | preGateNorm | gateNorm | linearGate | linearQkvWeight
  | inputLayernorm | linearProjWeight | qLayernorm | kLayernorm
  | linearQkvBias | linearQkvLayerNorm | linearProjBias
  deriving DecidableEq

namespace AttentionKind

def fragment : AttentionKind → String
  | teNorm => "self_attention.pre_gate_norm.te_norm.weight"
  | preGateNorm => "self_attention.pre_gate_norm.weight"
  | gateNorm => "self_attention.gate_norm.weight"
  | linearGate => "self_attention.linear_gate.weight"
  | linearQkvWeight => "self_attention.linear_qkv.weight"
  | inputLayernorm => "input_layernorm.weight"
  | linearProjWeight => "self_attention.linear_proj.weight"
  | qLayernorm => "self_attention.q_layernorm.weight"
  | kLayernorm => "self_attention.k_layernorm.weight"
  | linearQkvBias => "self_attention.linear_qkv.bias"
  | linearQkvLayerNorm => "self_attention.linear_qkv.layer_norm_weight"
  | linearProjBias => "self_attention.linear_proj.bias"

def lightningOnly : List AttentionKind := [teNorm, preGateNorm, gateNorm, linearGate, linearQkvWeight]

end AttentionKind

def OneParam (remaining : Name) : Prop :=
  ∀ kind kind' : AttentionKind, Occurs kind.fragment remaining → Occurs kind'.fragment remaining → kind' = kind

def OnBothPaths (remaining : Name) : Prop :=
  (∀ kind ∈ AttentionKind.lightningOnly, ¬ Occurs kind.fragment remaining) ∧
    (Occurs "input_layernorm.weight" remaining → Occurs "self_attention.input_layernorm.weight" remaining)

section Paths

variable {τ : Type} (c : LinearMlaConverter τ) (remaining : Name) (parameter : τ)

def hfNames (converted : Except ConvertError (List (Name × τ))) : Option (List Name) :=
  converted.toOption.map (fun params => params.map (fun param => normalizeAttnName param.1))

theorem convertLightningAttentionParam_eq : c.convertLightningAttentionParam remaining parameter =
    if Occurs "self_attention.pre_gate_norm.te_norm.weight" remaining then .ok []
    else if Occurs "self_attention.pre_gate_norm.weight" remaining then
      .ok [("attention.g_norm.weight", c.ops.flatten parameter)]
    else if Occurs "self_attention.gate_norm.weight" remaining then
      .ok [("attention.g_norm.weight", c.ops.flatten parameter)]
    else if Occurs "self_attention.input_layernorm.weight" remaining then .ok [("input_layernorm.weight", parameter)]
    else if Occurs "self_attention.linear_gate.weight" remaining then .ok [("attention.g_proj.weight", parameter)]
    else if Occurs "self_attention.linear_proj.weight" remaining then .ok [("attention.dense.weight", parameter)]
    else if Occurs "self_attention.q_layernorm.weight" remaining then
      .ok [("attention.query_layernorm.weight", parameter)]
    else if Occurs "self_attention.k_layernorm.weight" remaining then
      .ok [("attention.key_layernorm.weight", parameter)]
    else if Occurs "self_attention.linear_qkv.weight" remaining then do
      let parameter ← c.ops.convertQkvWeightAlongTpAttention parameter
      .ok [("attention.query_key_value.weight", parameter)]
    else c.toMcoreConverter.convertAttentionParam remaining parameter := by
  unfold LinearMlaConverter.convertLightningAttentionParam LinearMlaConverter.lightningNameMapping
  simp only [List.find?_cons]
  split_ifs <;> simp_all

def plainMla : Except ConvertError (List (Name × τ)) :=
  if Occurs "input_layernorm.weight" remaining then .ok [("input_layernorm.weight", parameter)]
  else if Occurs "self_attention.linear_proj.weight" remaining then .ok [("attention.dense.weight", parameter)]
  else c.toMcoreConverter.convertAttentionParam remaining parameter

theorem mlaResult_plain (h : ¬ LinearMlaConverter.isMlaParam remaining) (layer : AProjs τ) :
    c.mlaResult remaining parameter layer = (plainMla c remaining parameter).map (·, layer) := by
  have hno : ∀ frag : String, (∃ marker ∈ LinearMlaConverter.mlaParamMarkers, Occurs marker frag) →
      ¬ Occurs frag remaining := by
    rintro frag ⟨marker, hmarker, hfrag⟩ hoccurs
    exact h ⟨marker, hmarker, hfrag.trans hoccurs⟩
  unfold LinearMlaConverter.mlaResult LinearMlaConverter.convertMlaAttentionParam LinearMlaConverter.mlaNameMapping
    plainMla
  simp only [List.find?_cons, hno "self_attention.linear_q_proj.weight" (by decide),
    hno "self_attention.linear_kv_down_proj.weight" (by decide),
    hno "self_attention.linear_q_down_proj.weight" (by decide),
    hno "self_attention.linear_kv_up_proj.weight" (by decide),
    hno "self_attention.linear_kv_up_proj.layer_norm_weight" (by decide),
    hno "self_attention.linear_q_up_proj.weight" (by decide),
    hno "self_attention.linear_q_up_proj.layer_norm_weight" (by decide), decide_false, List.find?_nil]
  by_cases hnorm : Occurs "input_layernorm.weight" remaining
  · simp [hnorm]
  · by_cases hproj : Occurs "self_attention.linear_proj.weight" remaining
    · simp [hnorm, hproj]
    · simp only [hnorm, hproj, decide_false, if_false]
      cases c.toMcoreConverter.convertAttentionParam remaining parameter <;> rfl

variable {remaining parameter}

theorem OneParam.kind (h : OneParam remaining) :
    ∃ found : Option AttentionKind, ∀ kind : AttentionKind, Occurs kind.fragment remaining ↔ found = some kind := by
  by_cases hsome : ∃ kind : AttentionKind, Occurs kind.fragment remaining
  · obtain ⟨kind, hkind⟩ := hsome
    refine ⟨some kind, fun kind' => ⟨fun hkind' => ?_, fun heq => ?_⟩⟩
    · rw [h kind kind' hkind hkind']
    · obtain rfl := Option.some.inj heq
      exact hkind
  · refine ⟨none, fun kind => ⟨fun hkind => absurd ⟨kind, hkind⟩ hsome, fun heq => ?_⟩⟩
    cases heq

theorem paths_agree_iff (hone : OneParam remaining)
    (hqkv : Occurs "self_attention.linear_qkv.weight" remaining →
      ∃ converted, c.ops.convertQkvWeightAlongTpAttention parameter = .ok converted) :
    hfNames (c.convertLightningAttentionParam remaining parameter) = hfNames (plainMla c remaining parameter) ↔
      OnBothPaths remaining := by
  have hinfix : Occurs "input_layernorm.weight" ("self_attention.input_layernorm.weight" : Name) := by decide
  have hnorm : Occurs "self_attention.input_layernorm.weight" remaining →
      Occurs "input_layernorm.weight" remaining := fun h => hinfix.trans h
  clear hinfix
  obtain ⟨found, hfound⟩ := hone.kind
  have hte : Occurs "self_attention.pre_gate_norm.te_norm.weight" remaining ↔ found = some .teNorm := hfound .teNorm
  have hpre : Occurs "self_attention.pre_gate_norm.weight" remaining ↔ found = some .preGateNorm := hfound .preGateNorm
  have hgate : Occurs "self_attention.gate_norm.weight" remaining ↔ found = some .gateNorm := hfound .gateNorm
  have hlinear : Occurs "self_attention.linear_gate.weight" remaining ↔ found = some .linearGate := hfound .linearGate
  have hweight : Occurs "self_attention.linear_qkv.weight" remaining ↔ found = some .linearQkvWeight := hfound .linearQkvWeight
  have hinput : Occurs "input_layernorm.weight" remaining ↔ found = some .inputLayernorm := hfound .inputLayernorm
  have hproj : Occurs "self_attention.linear_proj.weight" remaining ↔ found = some .linearProjWeight := hfound .linearProjWeight
  have hq : Occurs "self_attention.q_layernorm.weight" remaining ↔ found = some .qLayernorm := hfound .qLayernorm
  have hk : Occurs "self_attention.k_layernorm.weight" remaining ↔ found = some .kLayernorm := hfound .kLayernorm
  have hbias : Occurs "self_attention.linear_qkv.bias" remaining ↔ found = some .linearQkvBias := hfound .linearQkvBias
  have hlayer : Occurs "self_attention.linear_qkv.layer_norm_weight" remaining ↔ found = some .linearQkvLayerNorm :=
    hfound .linearQkvLayerNorm
  have hprojBias : Occurs "self_attention.linear_proj.bias" remaining ↔ found = some .linearProjBias := hfound .linearProjBias
  rw [convertLightningAttentionParam_eq]
  unfold plainMla McoreConverter.convertAttentionParam OnBothPaths
  simp only [AttentionKind.lightningOnly, hfound]
  simp only [hte, hpre, hgate, hlinear, hweight, hinput, hproj, hq, hk, hbias, hlayer, hprojBias] at hqkv hnorm ⊢
  clear hte hpre hgate hlinear hweight hinput hproj hq hk hbias hlayer hprojBias hfound
  have hdiffer : normalizeAttnName "attention.query_key_value.weight" ≠ normalizeAttnName "self_attn.qkv_proj.weight" := by
    decide
  have hqnorm : normalizeAttnName "attention.query_layernorm.weight" = normalizeAttnName "self_attn.q_norm.weight" := by
    decide
  have hknorm : normalizeAttnName "attention.key_layernorm.weight" = normalizeAttnName "self_attn.k_norm.weight" := by
    decide
  cases found with
  | none => simp_all
  | some kind =>
    cases kind with
    | teNorm => simp [hfNames]
    | preGateNorm => simp [hfNames]
    | gateNorm => simp [hfNames]
    | linearGate => simp_all [hfNames]
    | linearQkvWeight =>
      obtain ⟨converted, hconverted⟩ := hqkv rfl
      have hself : ¬ Occurs "self_attention.input_layernorm.weight" remaining := by simpa using hnorm
      simp only [reduceCtorEq, Option.some.injEq, if_false, if_true, hself, hconverted, Except.ok_bind, fuseQkv]
      apply iff_of_false
      · intro h
        exact hdiffer (List.head_eq_of_cons_eq (Option.some.inj h))
      · intro h
        exact h.1 .linearQkvWeight (by decide) rfl
    | inputLayernorm =>
      by_cases hself : Occurs "self_attention.input_layernorm.weight" remaining <;> simp [hfNames, hself]
    | linearProjWeight => simp_all [hfNames]
    | qLayernorm =>
      have hself : ¬ Occurs "self_attention.input_layernorm.weight" remaining := by simpa using hnorm
      simp only [reduceCtorEq, Option.some.injEq, if_false, if_true, hself]
      apply iff_of_true
      · exact congrArg (fun name => some [name]) hqnorm
      · exact ⟨by decide, fun h => h⟩
    | kLayernorm =>
      have hself : ¬ Occurs "self_attention.input_layernorm.weight" remaining := by simpa using hnorm
      simp only [reduceCtorEq, Option.some.injEq, if_false, if_true, hself]
      apply iff_of_true
      · exact congrArg (fun name => some [name]) hknorm
      · exact ⟨by decide, fun h => h⟩
    | linearQkvBias =>
      have hself : ¬ Occurs "self_attention.input_layernorm.weight" remaining := by simpa using hnorm
      simp only [reduceCtorEq, Option.some.injEq, if_false, if_true, hself]
      exact iff_of_true trivial ⟨by decide, fun h => h⟩
    | linearQkvLayerNorm =>
      have hself : ¬ Occurs "self_attention.input_layernorm.weight" remaining := by simpa using hnorm
      simp only [reduceCtorEq, Option.some.injEq, if_false, if_true, hself]
      exact iff_of_true trivial ⟨by decide, fun h => h⟩
    | linearProjBias =>
      have hself : ¬ Occurs "self_attention.input_layernorm.weight" remaining := by simpa using hnorm
      simp only [reduceCtorEq, Option.some.injEq, if_false, if_true, hself]
      exact iff_of_true trivial ⟨by decide, fun h => h⟩

end Paths

end Awex
