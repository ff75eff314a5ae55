import Awex.ExpertNames
import Awex.SglangConverter

namespace Awex

open Text

def fusedText : ExpertLinear → String
  | .linearFc1 => "w13_weight"
  | .linearFc2 => "w2_weight"

/-- The experts of a rank in one parameter. -/
def fusedExperts (linear : ExpertLinear) : Name := ("mlp.experts." : Name) ++ (fusedText linear).toList

namespace SglangConverter

variable {τ : Type} {c : SglangConverter τ} {w : ExpertWeights τ} {expertId : ℕ} {linear : ExpertLinear} {weight : τ}

/-- An expert in the orientation of the other devices. -/
def canonicalExpert (c : SglangConverter τ) (weight : τ) : τ :=
  if c.deviceBackend = .npu ∧ c.ops.ndim weight = 2 then c.ops.transpose weight else weight

/-- What stands before the projection in the name of an expert. -/
structure ExpertPrefix (before : Name) : Prop where
  experts : Occurs "experts" before
  absent : ∀ frag ∈ ["shared_experts", "gate_up_proj", "down_proj"], ∀ linear,
    ¬ Occurs frag (before ++ (fusedText linear).toList)
  weight : ∀ linear, ¬ Occurs "weight" (before ++ (fusedText linear).toList.dropLast)
  linear : ¬ Occurs "w13_weight" (before ++ (fusedText .linearFc2).toList)

theorem ExpertPrefix.replace {before : Name} (h : ExpertPrefix before) (linear : ExpertLinear) (new : Name) :
    replaceAll (fusedText linear).toList new (before ++ (fusedText linear).toList) = before ++ new := by
  have hpart : Occurs "weight" (fusedText linear).toList := by cases linear <;> decide +kernel
  have hne : (fusedText linear).toList ≠ [] := by cases linear <;> decide +kernel
  have hbefore : ¬ (fusedText linear).toList <:+: before ++ (fusedText linear).toList.dropLast :=
    fun hocc => h.weight linear (hpart.trans hocc)
  have hafter : ¬ (fusedText linear).toList <:+: [] := fun hocc => hne (List.infix_nil.mp hocc)
  have hreplace := replaceAll_once new hne hbefore hafter
  rwa [List.append_nil, List.append_nil] at hreplace

theorem expertPrefix_all : ExpertPrefix "mlp.experts." where
  experts := by decide +kernel
  absent := by
    intro frag hfrag linear
    cases linear <;> revert frag <;> decide +kernel
  weight := by
    intro linear
    cases linear <;> decide +kernel
  linear := by decide +kernel

theorem expertPrefix_one (expertId : ℕ) : ExpertPrefix (("mlp.experts." : Name) ++ (digits expertId ++ ['.'])) := by
  have happend : ∀ text : Name, (("mlp.experts." : Name) ++ (digits expertId ++ ['.'])) ++ text =
      ("mlp.experts." : Name) ++ (digits expertId ++ '.' :: text) := by
    intro text
    rw [List.append_assoc, List.append_assoc, List.singleton_append]
  constructor
  · rw [occurs_around (by decide)]
    decide +kernel
  · have hfragments : ∀ frag ∈ ["shared_experts", "gate_up_proj", "down_proj"], NoDigits frag ∧
        ¬ Occurs frag "mlp.experts." ∧ ¬ Occurs frag ('.' :: (fusedText .linearFc1).toList) ∧
          ¬ Occurs frag ('.' :: (fusedText .linearFc2).toList) := by
      decide +kernel
    intro frag hfrag linear
    obtain ⟨hdigits, hbefore, hfirst, hsecond⟩ := hfragments frag hfrag
    rw [happend, occurs_around hdigits]
    cases linear with
    | linearFc1 => exact not_or_intro hbefore hfirst
    | linearFc2 => exact not_or_intro hbefore hsecond
  · intro linear
    rw [happend, occurs_around (by decide)]
    cases linear <;> decide +kernel
  · have htext : (fusedText .linearFc2).toList = ['w'] ++ (['2'] ++ ("_weight" : Name)) := by decide +kernel
    have hapart : ∀ c ∈ ['2'], c ∉ "w13_weight".toList := by
      intro c hc
      rw [List.mem_singleton.mp hc]
      decide
    have hbefore : ¬ Occurs "weight" (("mlp.experts." : Name) ++ (digits expertId ++ ['.', 'w'])) := by
      rw [occurs_around (by decide)]
      decide +kernel
    rw [htext, ← List.append_assoc]
    intro hocc
    obtain hocc | hocc := (infix_around (List.cons_ne_nil _ _) hapart).mp hocc
    · rw [happend] at hocc
      exact hbefore (List.IsInfix.trans (by decide +kernel) hocc)
    · exact absurd hocc (by decide +kernel)

def namedExpert (before : Name) (expertId : ℕ) (w : ExpertWeights τ) (linear : ExpertLinear) : List (Name × τ) :=
  (linearProjections linear).map (fun proj => (before ++ proj.name .weight, w.projection proj expertId))

theorem splitGateUp_expert {before : Name} (hbefore : ExpertPrefix before) {gate up stacked : τ}
    (h : Stacks c.ops.rows c.ops.narrow gate up stacked) :
    c.splitGateUp (before ++ (fusedText .linearFc1).toList) stacked =
      .ok [(before ++ Projection.gateProj.name .weight, gate), (before ++ Projection.upProj.name .weight, up)] := by
  obtain ⟨half, hrows, hgate, hup⟩ := h
  obtain ⟨hgateName, hupName, -⟩ := projection_names
  have hkeep : ∀ new : Name, replaceAll "gate_up_proj" new (before ++ (fusedText .linearFc1).toList) =
      before ++ (fusedText .linearFc1).toList :=
    fun new => replaceFrom_eq (hbefore.absent "gate_up_proj" (by decide) .linearFc1)
  have hreplace := hbefore.replace .linearFc1
  unfold fusedText at hreplace hkeep ⊢
  unfold splitGateUp
  rw [hrows, Except.ok_bind, Nat.mul_div_cancel_left _ (by decide)]
  dsimp only at hreplace hkeep ⊢
  rw [hgate, Except.ok_bind, hup, Except.ok_bind, hkeep, hkeep, hreplace, hreplace, hgateName, hupName]

theorem convertMlpParam_expert {before : Name} (hbefore : ExpertPrefix before)
    (h : w.HeldBy c.ops.rows c.ops.narrow expertId linear (c.canonicalExpert weight)) :
    c.convertMlpParam (before ++ (fusedText linear).toList) weight = .ok (namedExpert before expertId w linear) := by
  have hexperts : Occurs "experts" (before ++ (fusedText linear).toList) :=
    hbefore.experts.trans (List.prefix_append _ _).isInfix
  have hcanonical : (if c.useTransposedMoeLayout (before ++ (fusedText linear).toList) weight
      then c.ops.transpose weight else weight) = c.canonicalExpert weight := by
    have hlayout : c.useTransposedMoeLayout (before ++ (fusedText linear).toList) weight ↔
        c.deviceBackend = .npu ∧ c.ops.ndim weight = 2 := by
      unfold useTransposedMoeLayout
      rw [and_iff_left ⟨hexperts, hbefore.absent "shared_experts" (by decide) linear⟩, not_or, not_not, not_not]
    unfold canonicalExpert
    simp only [hlayout]
  unfold convertMlpParam
  dsimp only
  rw [hcanonical, if_neg (hbefore.absent "gate_up_proj" (by decide) linear),
    if_neg (hbefore.absent "down_proj" (by decide) linear)]
  cases linear with
  | linearFc1 =>
    have htext : Occurs "w13_weight" (before ++ (fusedText .linearFc1).toList) := (List.suffix_append _ _).isInfix
    rw [if_pos htext, if_neg (by simp [fuseGateUpProj]), splitGateUp_expert hbefore h]
    rfl
  | linearFc2 =>
    have htext : Occurs "w2_weight" (before ++ (fusedText .linearFc2).toList) := (List.suffix_append _ _).isInfix
    have hreplace := hbefore.replace .linearFc2 "down_proj.weight"
    unfold fusedText at hreplace
    rw [if_neg hbefore.linear, if_pos htext, fusedText, hreplace, projection_names.2.2, h]
    rfl

/-- The `count` experts from `first` on in one parameter. -/
def HoldsExperts (c : SglangConverter τ) (w : ExpertWeights τ) (first count : ℕ) (linear : ExpertLinear) (fused : τ) :
    Prop :=
  c.ops.rows fused = .ok count ∧ ∀ i < count, ∃ weight, c.ops.select fused i = .ok weight ∧
    w.HeldBy c.ops.rows c.ops.narrow (first + i) linear (c.canonicalExpert weight)

variable {first count : ℕ} {fused : τ}

theorem fused_names (linear : ExpertLinear) : ¬ Occurs "expert_bias" (fusedExperts linear) ∧
    ¬ Occurs "shared_experts" (fusedExperts linear) ∧
    (Occurs "w13_weight" (fusedExperts linear) ∨ Occurs "w2_weight" (fusedExperts linear)) := by
  cases linear <;> decide +kernel

theorem tpExpertName_eq {expertId numRouterExperts : ℕ} (h : expertId < numRouterExperts) (linear : ExpertLinear)
    (rows : ℕ) : tpExpertName (fusedExperts linear) expertId numRouterExperts rows =
      (("mlp.experts." : Name) ++ (digits expertId ++ ['.'])) ++ (fusedText linear).toList := by
  have hname : fusedExperts linear =
      ("mlp." : Name) ++ (("experts" : Name) ++ '.' :: (fusedText linear).toList) := by
    cases linear <;> decide +kernel
  have hsplit : ("mlp.experts." : Name) = ("mlp." : Name) ++ ("experts." : Name) := by decide +kernel
  have hafter : ¬ ("experts" : Name) <:+: '.' :: (fusedText linear).toList := by
    cases linear <;> decide +kernel
  have hbefore : ¬ ("experts" : Name) <:+: ("mlp." : Name) ++ ("experts" : Name).dropLast := by decide +kernel
  have hreplace := replaceAll_once (("experts." : Name) ++ digits expertId) (List.cons_ne_nil _ _) hbefore hafter
  calc tpExpertName (fusedExperts linear) expertId numRouterExperts rows
      = replaceAll "experts" (("experts." : Name) ++ digits expertId) (fusedExperts linear) := by
        unfold tpExpertName
        exact if_neg (Nat.not_le_of_gt h)
    _ = ("mlp." : Name) ++ ((("experts." : Name) ++ digits expertId) ++ '.' :: (fusedText linear).toList) :=
        (congrArg _ hname).trans hreplace
    _ = (("mlp.experts." : Name) ++ (digits expertId ++ ['.'])) ++ (fusedText linear).toList := by
        rw [hsplit]
        simp only [List.append_assoc, List.singleton_append]

theorem inLayer_named (layer expertId : ℕ) {before : Name}
    (hbefore : before = ("mlp.experts." : Name) ++ (digits expertId ++ ['.'])) :
    McoreConverter.inLayer (digits layer) (namedExpert before expertId w linear) =
      publishedExpert layer expertId w linear := by
  have hname : ∀ proj : Projection, before ++ proj.name .weight = (LayerParam.experts expertId proj .weight).name := by
    intro proj
    have hdot : ("." : Name) = ['.'] := by decide
    unfold LayerParam.name
    simp only [hbefore, hdot, List.append_assoc]
  unfold McoreConverter.inLayer namedExpert publishedExpert
  rw [List.map_map]
  apply List.map_congr_left
  intro proj _
  exact congrArg (fun text => (modelLayer (digits layer) text, w.projection proj expertId)) (hname proj)

theorem convertExpertTpParam_experts {numExperts : ℕ} (hexperts : c.numRouterExperts = .ok numExperts)
    (h : c.HoldsExperts w 0 numExperts linear fused) :
    c.convertExpertTpParam (fusedExperts linear) fused = .ok ((List.range numExperts).flatMap (fun expertId =>
      namedExpert (("mlp.experts." : Name) ++ (digits expertId ++ ['.'])) expertId w linear)) := by
  obtain ⟨hrows, hheld⟩ := h
  obtain ⟨hbias, hshared, -⟩ := fused_names linear
  unfold convertExpertTpParam
  rw [hexperts, Except.ok_bind, if_neg hbias, if_neg hshared, hrows, Except.ok_bind]
  rw [Except.mapM_of_forall_ok (g := fun expertId =>
    namedExpert (("mlp.experts." : Name) ++ (digits expertId ++ ['.'])) expertId w linear), Except.ok_bind,
    List.flatMap_def]
  intro expertId hid
  have hlt := List.mem_range.mp hid
  obtain ⟨weight, hselect, hweight⟩ := hheld expertId hlt
  rw [Nat.zero_add] at hweight
  rw [hselect, Except.ok_bind, tpExpertName_eq hlt]
  exact convertMlpParam_expert (expertPrefix_one expertId) hweight

theorem attachExpertId_eq (expertId : ℕ) (target : Name) : attachExpertId (("mlp.experts." : Name) ++ target) expertId =
    (("mlp.experts." : Name) ++ (digits expertId ++ ['.'])) ++ target := by
  have hdot : ("." : Name) = ['.'] := by decide
  rw [attachExpertId, if_pos (List.prefix_append _ _), replaceFirst_prefix (by decide), hdot, List.append_assoc _ _ ['.']]

theorem convertExpertMoeParam_experts (hfirst : first = c.epRank * count)
    (h : c.HoldsExperts w first count linear fused) :
    c.convertExpertMoeParam (fusedExperts linear) fused = .ok ((List.range count).flatMap (fun i =>
      namedExpert (("mlp.experts." : Name) ++ (digits (first + i) ++ ['.'])) (first + i) w linear)) := by
  obtain ⟨hrows, hheld⟩ := h
  obtain ⟨hbias, hshared, hkind⟩ := fused_names linear
  unfold convertExpertMoeParam
  rw [if_neg hbias, if_neg hshared, hrows, Except.ok_bind]
  rw [Except.mapM_of_forall_ok (g := fun i =>
    namedExpert (("mlp.experts." : Name) ++ (digits (first + i) ++ ['.'])) (first + i) w linear), Except.ok_bind,
    List.flatMap_def]
  intro i hi
  obtain ⟨weight, hselect, hweight⟩ := hheld i (List.mem_range.mp hi)
  have hmlp : c.convertMlpParam (fusedExperts linear) weight =
      .ok (namedExpert "mlp.experts." (first + i) w linear) :=
    convertMlpParam_expert expertPrefix_all hweight
  rw [hselect, Except.ok_bind, if_pos hkind, hmlp, Except.map_ok, ← hfirst, Nat.add_comm i first]
  unfold namedExpert
  rw [List.map_map]
  apply congrArg Except.ok
  apply List.map_congr_left
  intro proj _
  exact congrArg (·, w.projection proj (first + i)) (attachExpertId_eq (first + i) (proj.name .weight))

theorem directNameMapping_layer (layer : ℕ) (remaining : Name) : directNameMapping.find? (fun (sglangName, _) =>
    sglangName.toList = modelLayer (digits layer) remaining) = none := by
  have hstart : ∀ entry ∈ directNameMapping, ¬ ("model.layers." : Name) <+: entry.1.toList := by decide
  apply List.find?_eq_none.mpr
  intro entry hentry hname
  apply hstart entry hentry
  rw [of_decide_eq_true hname]
  exact List.prefix_append _ _

theorem convertParam_layer (c : SglangConverter τ) (layer : ℕ) (remaining : Name) (weight : τ) :
    c.convertParam (modelLayer (digits layer) remaining) weight =
      c.convertLayerParam (modelLayer (digits layer) remaining) (digits layer)
        (List.intercalate ['.'] (components remaining)) weight := by
  have hsplit : modelLayer (digits layer) remaining =
      ("model" : Name) ++ '.' :: (("layers" : Name) ++ '.' :: (digits layer ++ '.' :: remaining)) := by
    have htext : ("model.layers." : Name) = ("model" : Name) ++ ('.' :: ("layers" : Name) ++ ['.']) := by decide
    unfold modelLayer
    rw [htext]
    simp only [List.append_assoc, List.cons_append, List.nil_append]
  have hcomponents : components (modelLayer (digits layer) remaining) =
      ("model" : Name) :: ("layers" : Name) :: digits layer :: components remaining := by
    have hmodel : components "model" = [("model" : Name)] := by decide +kernel
    have hlayers : components "layers" = [("layers" : Name)] := by decide +kernel
    rw [hsplit, components_append, components_append, components_append, components_digits, hmodel, hlayers]
    rfl
  have hdrop : (components (modelLayer (digits layer) remaining)).dropWhile (· ≠ ("layers" : Name)) =
      ("layers" : Name) :: digits layer :: components remaining := by
    rw [hcomponents, List.dropWhile_cons_of_pos (by decide), List.dropWhile_cons_of_neg (by decide)]
  have hlayered : Occurs "model.layers." (modelLayer (digits layer) remaining) := (List.prefix_append _ _).isInfix
  unfold convertParam
  rw [directNameMapping_layer]
  dsimp only
  rw [if_pos hlayered, hdrop]

theorem convertParam_experts {numExperts : ℕ} (layer : ℕ) (hexperts : c.numRouterExperts = .ok numExperts)
    (hcount : c.epSize = 1 → first = 0 ∧ count = numExperts) (hfirst : first = c.epRank * count)
    (h : c.HoldsExperts w first count linear fused) :
    c.convertParam (modelLayer (digits layer) (fusedExperts linear)) fused =
      .ok ((List.range count).flatMap (fun i => publishedExpert layer (first + i) w linear)) := by
  have hnames : ¬ (Occurs "layernorm" (fusedExperts linear) ∨ Occurs "norm" (fusedExperts linear)) ∧
      ¬ (Occurs "attention" (fusedExperts linear) ∨ Occurs "self_attn" (fusedExperts linear)) ∧
      Occurs "mlp" (fusedExperts linear) ∧ ¬ Occurs "gate.weight" (fusedExperts linear) ∧
      ¬ Occurs "router.weight" (fusedExperts linear) ∧
      (Occurs ".expert" (fusedExperts linear) ∨ Occurs "experts." (fusedExperts linear)) ∧
      List.intercalate ['.'] (components (fusedExperts linear)) = fusedExperts linear := by
    cases linear <;> decide +kernel
  obtain ⟨hnorm, hattention, hmlp, hgate, hrouter, hexpert, hjoin⟩ := hnames
  have hlayers : McoreConverter.inLayer (digits layer) ((List.range count).flatMap (fun i =>
      namedExpert (("mlp.experts." : Name) ++ (digits (first + i) ++ ['.'])) (first + i) w linear)) =
      (List.range count).flatMap (fun i => publishedExpert layer (first + i) w linear) := by
    rw [McoreConverter.inLayer, List.map_flatMap]
    apply List.flatMap_congr
    intro i _
    exact inLayer_named layer (first + i) rfl
  rw [convertParam_layer, hjoin]
  unfold convertLayerParam
  rw [if_neg hnorm, if_neg hattention, if_pos hmlp, if_neg hgate, if_neg hrouter, if_pos hexpert]
  by_cases hep : c.epSize = 1
  · obtain ⟨rfl, rfl⟩ := hcount hep
    rw [if_pos hep, convertExpertTpParam_experts hexperts h, Except.map_ok, ← hlayers]
    simp only [Nat.zero_add]
  · rw [if_neg hep, convertExpertMoeParam_experts hfirst h, Except.map_ok, hlayers]

end SglangConverter

end Awex
