import Awex.NamesAgree
import Awex.ShardingStrategy

namespace Awex

open Text McoreConverter

/-- The two ways in which Megatron names the weights of its local experts. -/
inductive ExpertSpelling where
  | grouped
  | sequential
  deriving DecidableEq, Repr

inductive ExpertLinear where
  | linearFc1
  | linearFc2
  deriving DecidableEq, Repr

/-- The text before and after the number of the local expert. -/
def expertText : ExpertSpelling → ExpertLinear → String × String
  | .grouped, .linearFc1 => ("mlp.experts.linear_fc1.weight", "")
  | .grouped, .linearFc2 => ("mlp.experts.linear_fc2.weight", "")
  | .sequential, .linearFc1 => ("mlp.experts.local_experts.", ".linear_fc1.weight")
  | .sequential, .linearFc2 => ("mlp.experts.local_experts.", ".linear_fc2.weight")

def localExpertName (spelling : ExpertSpelling) (linear : ExpertLinear) (localExpert : ℕ) : Name :=
  (expertText spelling linear).1.toList ++ (digits localExpert ++ (expertText spelling linear).2.toList)

section Fragments

variable (spelling : ExpertSpelling) (linear : ExpertLinear)

def expertTexts : List (String × String) :=
  [expertText .grouped .linearFc1, expertText .grouped .linearFc2, expertText .sequential .linearFc1,
    expertText .sequential .linearFc2]

theorem expertText_mem : expertText spelling linear ∈ expertTexts := by
  cases spelling <;> cases linear <;> simp [expertTexts]

/-- What the tests before the one for the routed experts look for, without the parts that have digits. -/
def otherFragments : List String :=
  [".layers.", "output_layer.weight", "self_attention", "mlp.gate.weight", "mlp.router.weight", "bias", "attention",
    "layernorm", "layer_norm", "shared_experts"]

theorem otherFragments_absent : ∀ frag ∈ otherFragments, NoDigits frag ∧ ∀ text ∈ expertTexts,
    ¬ Occurs frag ('.' :: text.1.toList) ∧ ¬ Occurs frag text.2 := by
  decide +kernel

variable {spelling linear} {frag : String} {localExpert : ℕ}

theorem occurs_localExpertName (h : NoDigits frag) : Occurs frag (localExpertName spelling linear localExpert) ↔
    Occurs frag (expertText spelling linear).1 ∨ Occurs frag (expertText spelling linear).2 :=
  occurs_around h _ _ localExpert

theorem not_occurs_localExpertName (h : frag ∈ otherFragments) :
    ¬ Occurs frag ('.' :: localExpertName spelling linear localExpert) := by
  obtain ⟨hdigits, habsent⟩ := otherFragments_absent frag h
  obtain ⟨hbefore, hafter⟩ := habsent _ (expertText_mem spelling linear)
  have hname : '.' :: localExpertName spelling linear localExpert =
      ('.' :: (expertText spelling linear).1.toList) ++ (digits localExpert ++ (expertText spelling linear).2.toList) :=
    rfl
  rw [hname, occurs_around hdigits]
  exact not_or_intro hbefore hafter

theorem not_occurs_of_part (part : String) (hpart : part ∈ otherFragments) (h : Occurs part frag.toList) :
    ¬ Occurs frag (localExpertName spelling linear localExpert) := by
  intro hocc
  have hname : Occurs part ('.' :: localExpertName spelling linear localExpert) :=
    h.trans (hocc.trans (List.suffix_cons _ _).isInfix)
  exact not_occurs_localExpertName hpart hname

theorem occurs_of_text (h : Occurs frag (expertText spelling linear).1 ∨ Occurs frag (expertText spelling linear).2) :
    Occurs frag (localExpertName spelling linear localExpert) := by
  obtain h | h := h
  · exact h.trans (List.prefix_append _ _).isInfix
  · exact h.trans ((List.suffix_append _ _).isInfix.trans (List.suffix_append _ _).isInfix)

theorem not_occurs_linearFc1 (localExpert : ℕ) :
    ¬ Occurs "linear_fc1.weight" (localExpertName spelling .linearFc2 localExpert) := by
  -- the character that tells the linears apart is the only digit of the text
  have haround : ∀ before after : Name, ¬ Occurs "weight" before → ¬ Occurs "linear_fc" after →
      ¬ Occurs "linear_fc1.weight" (before ++ (['2'] ++ after)) := by
    intro before after hbefore hafter hocc
    have hapart : ∀ c ∈ ['2'], c ∉ "linear_fc1.weight".toList := by
      intro c hc
      rw [List.mem_singleton.mp hc]
      decide
    obtain hocc | hocc := (infix_around (List.cons_ne_nil _ _) hapart).mp hocc
    · exact hbefore (List.IsInfix.trans (by decide +kernel) hocc)
    · exact hafter (List.IsInfix.trans (by decide +kernel) hocc)
  cases spelling with
  | grouped =>
    have hbefore : (expertText .grouped .linearFc2).1.toList =
        ("mlp.experts.linear_fc" : Name) ++ (['2'] ++ (".weight" : Name)) := by
      decide +kernel
    unfold localExpertName
    rw [hbefore, List.append_assoc, List.append_assoc]
    apply haround
    · decide +kernel
    · rw [occurs_around (by decide)]
      decide +kernel
  | sequential =>
    have hafter : (expertText .sequential .linearFc2).2.toList =
        (".linear_fc" : Name) ++ (['2'] ++ (".weight" : Name)) := by
      decide +kernel
    unfold localExpertName
    rw [hafter, ← List.append_assoc (digits localExpert), ← List.append_assoc]
    apply haround
    · rw [occurs_around (by decide)]
      decide +kernel
    · decide +kernel

end Fragments

theorem localExpertId_eq (spelling : ExpertSpelling) (linear : ExpertLinear) (localExpert : ℕ) :
    localExpertId (localExpertName spelling linear localExpert) = .ok localExpert := by
  have hparse : parseInt (digits localExpert) = .ok localExpert := by
    rw [parseInt, numeral?_digits]
  have hlocal : Occurs "local_experts" (localExpertName spelling linear localExpert) ↔ spelling = .sequential := by
    rw [occurs_localExpertName (by decide)]
    cases spelling <;> cases linear <;> decide +kernel
  unfold localExpertId
  cases spelling with
  | grouped =>
    have hgrouped : ¬ Occurs "local_experts" (localExpertName .grouped linear localExpert) := by
      intro hocc
      cases hlocal.mp hocc
    rw [if_neg hgrouped]
    have hbefore : (expertText .grouped linear).1.toList =
        ((expertText .grouped linear).1.toList.take 23) ++ ("weight" : Name) := by
      cases linear <;> decide +kernel
    have hafter : (expertText .grouped linear).2.toList = [] := by
      cases linear <;> rfl
    have htail : ¬ Occurs "weight" (("weight" : Name).tail ++ (digits localExpert ++ [])) := by
      rw [occurs_around (by decide)]
      decide +kernel
    rw [List.append_nil] at htail
    unfold localExpertName
    rw [hafter, List.append_nil, hbefore, List.append_assoc, splitLast_append _ (by decide) htail]
    exact hparse
  | sequential =>
    rw [if_pos (hlocal.mpr rfl)]
    have hbefore : (expertText .sequential linear).1.toList = ("mlp.experts.local_experts" : Name) ++ ['.'] := by
      cases linear <;> decide +kernel
    obtain ⟨rest, x, y, hafter, hrest⟩ : ∃ rest x y, (expertText .sequential linear).2.toList = '.' :: rest ∧
        components rest = [x, y] := by
      cases linear with
      | linearFc1 => exact ⟨"linear_fc1.weight", "linear_fc1", "weight", by decide +kernel, by decide +kernel⟩
      | linearFc2 => exact ⟨"linear_fc2.weight", "linear_fc2", "weight", by decide +kernel, by decide +kernel⟩
    have hcomponents : components (localExpertName .sequential linear localExpert) =
        components "mlp.experts.local_experts" ++ [digits localExpert] ++ [x, y] := by
      unfold localExpertName
      rw [hbefore, hafter, ← List.append_assoc, components_append, hrest, List.append_assoc, List.singleton_append,
        components_append, components_digits]
    rw [hcomponents, List.reverse_append, List.reverse_append]
    exact hparse

section Conversion

variable {τ : Type}

/-- The projections of each expert of the model. -/
structure ExpertWeights (τ : Type) where
  gate : ℕ → τ
  up : ℕ → τ
  down : ℕ → τ

def ExpertWeights.projection (w : ExpertWeights τ) : Projection → ℕ → τ
  | .gateProj => w.gate
  | .upProj => w.up
  | .downProj => w.down

/-- The rows of the gate, and then as many of the other projection. -/
def Stacks {ε : Type} (rows : τ → Except ε ℕ) (narrow : τ → ℕ → ℕ → Except ε τ) (gate up stacked : τ) : Prop :=
  ∃ half, rows stacked = .ok (2 * half) ∧ narrow stacked 0 half = .ok gate ∧ narrow stacked half half = .ok up

def ExpertWeights.HeldBy {ε : Type} (w : ExpertWeights τ) (rows : τ → Except ε ℕ)
    (narrow : τ → ℕ → ℕ → Except ε τ) (expertId : ℕ) : ExpertLinear → τ → Prop
  | .linearFc1, weight => Stacks rows narrow (w.gate expertId) (w.up expertId) weight
  | .linearFc2, weight => weight = w.down expertId

def linearProjections : ExpertLinear → List Projection
  | .linearFc1 => [.gateProj, .upProj]
  | .linearFc2 => [.downProj]

def expertName (layer expertId : ℕ) (proj : Projection) : Name :=
  (HfParam.layer layer (.experts expertId proj .weight)).name

def publishedExpert (layer expertId : ℕ) (w : ExpertWeights τ) (linear : ExpertLinear) : List (Name × τ) :=
  (linearProjections linear).map (fun proj => (expertName layer expertId proj, w.projection proj expertId))

theorem projection_names : ("gate_proj.weight" : Name) = Projection.gateProj.name .weight ∧
    ("up_proj.weight" : Name) = Projection.upProj.name .weight ∧
    ("down_proj.weight" : Name) = Projection.downProj.name .weight := by
  decide +kernel

variable {c : McoreConverter τ} {w : ExpertWeights τ} {expertId localExpert : ℕ} {spelling : ExpertSpelling}
  {linear : ExpertLinear} {weight : τ}

theorem splitGateUpProj_eq {gate up stacked : τ} (gateName upName : String)
    (h : Stacks c.ops.rows c.ops.narrow gate up stacked) :
    c.splitGateUpProj gateName upName stacked = .ok [(gateName, gate), (upName, up)] := by
  obtain ⟨half, hrows, hgate, hup⟩ := h
  unfold splitGateUpProj
  rw [hrows, Except.ok_bind, Nat.mul_div_cancel_left _ (by decide)]
  dsimp only
  rw [hgate, Except.ok_bind, hup, Except.ok_bind]

theorem convertLinear_expert (h : w.HeldBy c.ops.rows c.ops.narrow expertId linear weight) :
    c.convertLinear (localExpertName spelling linear localExpert) weight =
      .ok ((linearProjections linear).map (fun proj => (proj.name .weight, w.projection proj expertId))) := by
  have hbias : ¬ Occurs "linear_fc1.bias" (localExpertName spelling linear localExpert) :=
    not_occurs_of_part "bias" (by decide) (by decide +kernel)
  obtain ⟨hgate, hup, hdown⟩ := projection_names
  unfold convertLinear
  cases linear with
  | linearFc1 =>
    have hfc1 : Occurs "linear_fc1.weight" (localExpertName spelling .linearFc1 localExpert) :=
      occurs_of_text (by cases spelling <;> decide +kernel)
    rw [if_pos hfc1, if_neg (by simp [fuseGateUpProj]), splitGateUpProj_eq _ _ h, hgate, hup]
    rfl
  | linearFc2 =>
    have hfc2 : Occurs "linear_fc2.weight" (localExpertName spelling .linearFc2 localExpert) :=
      occurs_of_text (by cases spelling <;> decide +kernel)
    rw [if_neg (not_occurs_linearFc1 localExpert), if_neg hbias, if_pos hfc2, hdown, h]
    rfl

def relativeExpert (expertId : ℕ) (w : ExpertWeights τ) (linear : ExpertLinear) : List (Name × τ) :=
  (linearProjections linear).map (fun proj => ((LayerParam.experts expertId proj .weight).name, w.projection proj expertId))

theorem convertMlpParam_expert (hep : c.rankInfo.epSize ≠ 0)
    (hid : expertId = localExpert + c.rankInfo.epRank * (c.numExperts / c.rankInfo.epSize))
    (h : w.HeldBy c.ops.rows c.ops.narrow expertId linear weight) :
    c.convertMlpParam (localExpertName spelling linear localExpert) weight = .ok (relativeExpert expertId w linear) := by
  have hlayernorm : ¬ (Occurs "pre_mlp_layernorm" (localExpertName spelling linear localExpert) ∨
      Occurs "linear_fc1.layer_norm_weight" (localExpertName spelling linear localExpert)) :=
    not_or_intro (not_occurs_of_part "layernorm" (by decide) (by decide +kernel))
      (not_occurs_of_part "layer_norm" (by decide) (by decide +kernel))
  have hshared : ∀ frag : String, Occurs "shared_experts" frag →
      ¬ Occurs frag (localExpertName spelling linear localExpert) :=
    fun frag hfrag => not_occurs_of_part "shared_experts" (by decide) hfrag
  have hsharedLinear : ¬ (Occurs "shared_experts.linear_fc1.weight" (localExpertName spelling linear localExpert) ∨
      Occurs "shared_experts.linear_fc1.bias" (localExpertName spelling linear localExpert) ∨
      Occurs "shared_experts.linear_fc2.weight" (localExpertName spelling linear localExpert) ∨
      Occurs "shared_experts.linear_fc2.bias" (localExpertName spelling linear localExpert)) := by
    simp only [not_or]
    exact ⟨hshared _ (by decide +kernel), hshared _ (by decide +kernel), hshared _ (by decide +kernel),
      hshared _ (by decide +kernel)⟩
  have hexperts : Occurs "mlp.experts." (localExpertName spelling linear localExpert) := by
    apply occurs_of_text
    cases spelling <;> cases linear <;> decide +kernel
  unfold convertMlpParam
  rw [if_neg (not_occurs_of_part "attention" (by decide) (by decide +kernel)), if_neg hlayernorm,
    if_neg (not_occurs_of_part "layernorm" (by decide) (by decide +kernel)),
    if_neg (hshared _ (by decide +kernel)), if_neg hsharedLinear, if_pos hexperts, localExpertId_eq, Except.ok_bind,
    if_neg hep, ← hid, convertLinear_expert h, Except.ok_bind, List.map_map]
  rfl

theorem convertMlp_expert (layer : ℕ) (hep : c.rankInfo.epSize ≠ 0)
    (hid : expertId = localExpert + c.rankInfo.epRank * (c.numExperts / c.rankInfo.epSize))
    (h : w.HeldBy c.ops.rows c.ops.narrow expertId linear weight) :
    c.convertMlp (digits layer ++ '.' :: localExpertName spelling linear localExpert)
      (localExpertName spelling linear localExpert) weight = .ok (relativeExpert expertId w linear) := by
  have habsent : ∀ frag ∈ otherFragments,
      ¬ Occurs frag (digits layer ++ '.' :: localExpertName spelling linear localExpert) := by
    intro frag hfrag
    rw [occurs_after (otherFragments_absent frag hfrag).1]
    exact not_occurs_localExpertName hfrag
  have hbias : ¬ Occurs "expert_bias" (digits layer ++ '.' :: localExpertName spelling linear localExpert) :=
    fun hocc => habsent "bias" (by decide) (List.IsInfix.trans (by decide +kernel) hocc)
  unfold convertMlp
  rw [if_neg (not_or_intro (habsent "mlp.gate.weight" (by decide)) (habsent "mlp.router.weight" (by decide))),
    if_neg hbias]
  exact convertMlpParam_expert hep hid h

/-- The converter numbers the layer `localLayer` of a stage as `layer`. -/
def McoreConverter.LayerAt (c : McoreConverter τ) (vpStage localLayer layer : ℕ) : Prop :=
  c.ppStageLayerIdMap = Dict.empty ∧ localLayer = layer ∨
    ∃ layerMap, c.ppStageLayerIdMap.get? (c.rankInfo.ppRank, vpStage) = some layerMap ∧
      layerMap.get? localLayer = some layer

theorem LayerAt.processed {vpStage localLayer layer : ℕ} (h : c.LayerAt vpStage localLayer layer) {remaining : Name}
    (hremaining : InLayer remaining) :
    processMcorePpName c.rankInfo vpStage c.ppStageLayerIdMap (layerName localLayer remaining) =
      .ok (layerName layer remaining) := by
  obtain ⟨hempty, hglobal⟩ := processMcorePpName_layer c.rankInfo vpStage localLayer hremaining
  obtain ⟨hmap, rfl⟩ | ⟨layerMap, hstage, hlayer⟩ := h
  · rw [hmap]
    exact hempty
  · exact hglobal _ layerMap layer hstage hlayer

theorem convertParam_expert {vpStage localLayer layer : ℕ} (hlayer : c.LayerAt vpStage localLayer layer) {name : Name}
    (hname : replaceAll "module." "" name = layerName localLayer (localExpertName spelling linear localExpert))
    (hep : c.rankInfo.epSize ≠ 0)
    (hid : expertId = localExpert + c.rankInfo.epRank * (c.numExperts / c.rankInfo.epSize))
    (h : w.HeldBy c.ops.rows c.ops.narrow expertId linear weight) :
    c.convertParam name weight vpStage = .ok (publishedExpert layer expertId w linear) := by
  have hinLayer : InLayer (localExpertName spelling linear localExpert) :=
    not_occurs_localExpertName (by decide)
  have hmlp : Occurs "mlp" (localExpertName spelling linear localExpert) := by
    apply occurs_of_text
    cases spelling <;> cases linear <;> decide +kernel
  unfold convertParam
  rw [hname, LayerAt.processed hlayer hinLayer, Except.ok_bind, convertProcessedParam_layerName c hinLayer,
    if_neg (not_occurs_localExpertName (by decide))]
  unfold convertLayerParam
  rw [if_neg (not_occurs_of_part "self_attention" (by decide) (List.infix_rfl)), if_pos hmlp,
    convertMlp_expert layer hep hid h, Except.map_ok, relativeExpert, inLayer, List.map_map]
  rfl

end Conversion

end Awex
