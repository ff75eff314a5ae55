import Awex.LayerNames
import Awex.ShardingStrategy
import Awex.SliceKey

namespace Awex

open Text McoreConverter

variable {τ : Type} {c : McoreConverter τ} {name : Name} {parameter : τ} {converted : List (Name × τ)}

def LayerNames (converted : List (Name × τ)) : Prop := ∀ out ∈ converted, ∃ param : LayerParam, out.1 = param.name

theorem layerNames_single {hfName : Name} (param : LayerParam) (h : hfName = param.name) (parameter : τ) :
    LayerNames [(hfName, parameter)] := by
  intro out hout
  rw [List.mem_singleton.mp hout]
  exact ⟨param, h⟩

theorem convertAttentionParam_names (h : c.convertAttentionParam name parameter = .ok converted) :
    LayerNames (normalizeAttnNames converted) := by
  have hsingle : ∀ (attnName : Name) (param : LayerParam) (parameter : τ),
      normalizeAttnName attnName = param.name → LayerNames (normalizeAttnNames [(attnName, parameter)]) :=
    fun attnName param parameter hname => layerNames_single param hname parameter
  unfold convertAttentionParam fuseQkv at h
  simp only [if_true] at h
  split_ifs at h
  · obtain ⟨weight, -, h⟩ := Except.bind_eq_ok.mp h
    rw [← Except.ok.inj h]
    exact hsingle _ (.queryKeyValue .weight) _ (by decide +kernel)
  · obtain ⟨bias, -, h⟩ := Except.bind_eq_ok.mp h
    rw [← Except.ok.inj h]
    exact hsingle _ (.queryKeyValue .bias) _ (by decide +kernel)
  · rw [← Except.ok.inj h]
    exact hsingle _ .inputLayernorm _ (by decide +kernel)
  · rw [← Except.ok.inj h]
    exact hsingle _ (.dense .weight) _ (by decide +kernel)
  · rw [← Except.ok.inj h]
    exact hsingle _ (.dense .bias) _ (by decide +kernel)
  · rw [← Except.ok.inj h]
    exact hsingle _ .queryLayernorm _ (by decide +kernel)
  · rw [← Except.ok.inj h]
    exact hsingle _ .keyLayernorm _ (by decide +kernel)

theorem convertLinear_names (h : c.convertLinear name parameter = .ok converted) :
    ∀ out ∈ converted, ∃ proj part, out.1 = Projection.name proj part := by
  have hhalves : ∀ (part : ParamPart) {gate up : String}, c.splitGateUpProj gate up parameter = .ok converted →
      gate.toList = Projection.gateProj.name part → up.toList = Projection.upProj.name part →
      ∀ out ∈ converted, ∃ proj part, out.1 = Projection.name proj part := by
    intro part gate up h hgate hup out hout
    obtain ⟨rows, -, h⟩ := Except.bind_eq_ok.mp h
    obtain ⟨gateProj, -, h⟩ := Except.bind_eq_ok.mp h
    obtain ⟨upProj, -, h⟩ := Except.bind_eq_ok.mp h
    rw [← Except.ok.inj h] at hout
    obtain rfl | hout := List.mem_cons.mp hout
    · exact ⟨.gateProj, part, hgate⟩
    · rw [List.mem_singleton.mp hout]
      exact ⟨.upProj, part, hup⟩
  unfold convertLinear fuseGateUpProj at h
  simp only [Bool.false_eq_true, if_false] at h
  split_ifs at h
  · exact hhalves .weight h (by decide +kernel) (by decide +kernel)
  · exact hhalves .bias h (by decide +kernel) (by decide +kernel)
  · have hname : ("down_proj.weight" : Name) = Projection.downProj.name .weight := by decide +kernel
    intro out hout
    rw [← Except.ok.inj h, List.mem_singleton] at hout
    rw [hout]
    exact ⟨.downProj, .weight, hname⟩
  · have hname : ("down_proj.bias" : Name) = Projection.downProj.name .bias := by decide +kernel
    intro out hout
    rw [← Except.ok.inj h, List.mem_singleton] at hout
    rw [hout]
    exact ⟨.downProj, .bias, hname⟩

theorem layerNames_linear {linear : List (Name × τ)} (h : c.convertLinear name parameter = .ok linear)
    {before : Name} (param : Projection → ParamPart → LayerParam)
    (hname : ∀ proj part, before ++ proj.name part = (param proj part).name) :
    LayerNames (linear.map (fun (target, weight) => (before ++ target, weight))) := by
  intro out hout
  obtain ⟨⟨target, weight⟩, hmem, rfl⟩ := List.mem_map.mp hout
  obtain ⟨proj, part, htarget⟩ := convertLinear_names h _ hmem
  exact ⟨param proj part, (congrArg (before ++ ·) htarget).trans (hname proj part)⟩

theorem convertMlpParam_names (h : c.convertMlpParam name parameter = .ok converted) : LayerNames converted := by
  unfold convertMlpParam at h
  split_ifs at h
  · rw [← Except.ok.inj h]
    exact layerNames_single .postAttentionLayernorm rfl _
  · rw [← Except.ok.inj h]
    exact layerNames_single .inputLayernorm rfl _
  · rw [← Except.ok.inj h]
    exact layerNames_single .sharedExpertGate rfl _
  · obtain ⟨linear, hlinear, h⟩ := Except.bind_eq_ok.mp h
    rw [← Except.ok.inj h]
    exact layerNames_linear hlinear .sharedExperts (fun _ _ => rfl)
  · obtain ⟨expert, -, h⟩ := Except.bind_eq_ok.mp h
    cases h
  · obtain ⟨localExpert, -, h⟩ := Except.bind_eq_ok.mp h
    obtain ⟨linear, hlinear, h⟩ := Except.bind_eq_ok.mp h
    rw [← Except.ok.inj h]
    exact layerNames_linear hlinear (.experts _) (fun _ _ => rfl)
  · obtain ⟨linear, hlinear, h⟩ := Except.bind_eq_ok.mp h
    rw [← Except.ok.inj h]
    exact layerNames_linear hlinear .mlp (fun _ _ => rfl)

theorem convertMlp_names {remainingName : Name} (h : c.convertMlp name remainingName parameter = .ok converted) :
    LayerNames converted := by
  unfold convertMlp at h
  split_ifs at h
  · obtain ⟨out, hout, rfl⟩ := Except.map_eq_ok.mp h
    unfold convertGate at hout
    split_ifs at hout
    rw [← Except.ok.inj hout]
    exact layerNames_single .gate rfl _
  · obtain ⟨out, hout, rfl⟩ := Except.map_eq_ok.mp h
    unfold convertExpertBiasParam at hout
    split_ifs at hout
    rw [← Except.ok.inj hout]
    exact layerNames_single .expertBias rfl _
  · exact convertMlpParam_names h

theorem convertLayerParam_names {layerNumber remainingName : Name}
    (h : c.convertLayerParam name layerNumber remainingName parameter = .ok converted) :
    ∀ out ∈ converted, ∃ param : LayerParam, out.1 = modelLayer layerNumber param.name := by
  have hlayer : ∀ {converted : List (Name × τ)}, LayerNames converted →
      ∀ out ∈ inLayer layerNumber converted, ∃ param : LayerParam, out.1 = modelLayer layerNumber param.name := by
    intro converted hnames out hout
    obtain ⟨q, hq, rfl⟩ := List.mem_map.mp hout
    obtain ⟨param, hparam⟩ := hnames q hq
    exact ⟨param, congrArg (modelLayer layerNumber) hparam⟩
  unfold convertLayerParam at h
  split_ifs at h
  · obtain ⟨attn, hattn, rfl⟩ := Except.map_eq_ok.mp h
    exact hlayer (convertAttentionParam_names hattn)
  · obtain ⟨mlp, hmlp, rfl⟩ := Except.map_eq_ok.mp h
    exact hlayer (convertMlp_names hmlp)

/-- The layer in a canonical name is a number. -/
def isCanonical (hfName : Name) : Prop :=
  ("model.layers." : Name) <+: hfName → ∃ layer rest, hfName = modelLayer (digits layer) rest

theorem exists_hfParam {vpStage : ℕ} {params : List (Name × τ)} (h : c.convertParam name parameter vpStage = .ok params)
    {hfName : Name} {tensor : τ} (hout : (hfName, tensor) ∈ params) (hcanonical : isCanonical hfName) :
    ∃ param : HfParam, param.name = hfName := by
  obtain ⟨text, -, h⟩ := Except.bind_eq_ok.mp h
  have hsingle : ∀ (param : HfParam) {weight : τ}, (hfName, tensor) ∈ [(param.name, weight)] →
      ∃ param : HfParam, param.name = hfName := by
    intro param weight hmem
    exact ⟨param, (Prod.mk.inj (List.mem_singleton.mp hmem)).1.symm⟩
  unfold convertProcessedParam at h
  split_ifs at h
  · rw [← Except.ok.inj h] at hout
    exact hsingle .embedTokens hout
  · rw [← Except.ok.inj h] at hout
    exact hsingle .norm hout
  · rw [← Except.ok.inj h] at hout
    exact hsingle .lmHead hout
  · dsimp only at h
    split at h
    · cases h
    · rename_i layerNumber remainingName hsplit
      obtain ⟨param, hparam⟩ := convertLayerParam_names h _ hout
      change hfName = modelLayer layerNumber param.name at hparam
      subst hparam
      obtain ⟨layer, rest, hrest⟩ := hcanonical (List.prefix_append _ _)
      have hdigits : ∀ c ∈ digits layer, c ≠ '.' := by
        rintro c hc rfl
        exact not_mem_digits (by decide) hc
      have htoken : ∀ c ∈ layerNumber, c ≠ '.' := by
        rintro c hc rfl
        exact not_mem_of_splitFirst hsplit hc
      obtain ⟨rfl, -⟩ := append_cons_inj_of _ htoken hdigits (not_not_intro rfl) (not_not_intro rfl)
        (List.append_cancel_left hrest)
      exact ⟨.layer layer param, rfl⟩

end Awex
