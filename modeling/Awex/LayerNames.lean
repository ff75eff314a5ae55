import Awex.StageLayers

namespace Awex

open Text

def layerName (layer : ℕ) (remaining : Name) : Name :=
  ("decoder.layers." : Name) ++ (digits layer ++ '.' :: remaining)

def InLayer (remaining : Name) : Prop := ¬ Occurs ".layers." ('.' :: remaining)

def NoDigits (frag : String) : Prop := frag.toList ≠ [] ∧ ∀ c ∈ frag.toList, c.toNat < 128 ∧ c.isDigit = false

instance (frag : String) : Decidable (NoDigits frag) :=
  have := List.decidableBAll (fun c : Char => c.toNat < 128 ∧ c.isDigit = false) frag.toList
  inferInstanceAs (Decidable (_ ∧ _))

theorem occurs_around {frag : String} (h : NoDigits frag) (before after : Name) (layer : ℕ) :
    Occurs frag (before ++ (digits layer ++ after)) ↔ Occurs frag before ∨ Occurs frag after := by
  apply infix_around (digits_ne_nil layer)
  intro c hc hfrag
  exact not_mem_digits (h.2 c hfrag).2 hc

theorem occurs_after {frag : String} (h : NoDigits frag) (after : Name) (layer : ℕ) :
    Occurs frag (digits layer ++ after) ↔ Occurs frag after := by
  have hnil : ¬ Occurs frag [] := fun hfrag => h.1 (List.infix_nil.mp hfrag)
  rw [← List.nil_append (digits layer ++ after), occurs_around h, or_iff_right hnil]

theorem occurs_layerName (frag : String) (h : NoDigits frag) (hstart : ¬ Occurs frag "decoder.layers.")
    (layer : ℕ) (remaining : Name) : Occurs frag (layerName layer remaining) ↔ Occurs frag ('.' :: remaining) := by
  unfold layerName
  rw [occurs_around h, or_iff_right hstart]

theorem layerName_ne (layer : ℕ) (remaining : Name) {text : Name} (h : ¬ ("decoder.layers." : Name) <+: text) :
    layerName layer remaining ≠ text := by
  rintro rfl
  exact h (List.prefix_append _ _)

theorem splitFirst_digits (layer : ℕ) (remaining : Name) :
    splitFirst ['.'] (digits layer ++ '.' :: remaining) = some (digits layer, remaining) :=
  splitFirst_append (not_mem_digits (by decide))

theorem splitLast_layerName {layer : ℕ} {remaining : Name} (h : InLayer remaining) :
    splitLast (".layers." : Name) (layerName layer remaining) =
      some (("decoder" : Name), digits layer ++ '.' :: remaining) := by
  have hsplit : ("decoder.layers." : Name) = ("decoder" : Name) ++ (".layers." : Name) := by decide
  unfold layerName
  rw [hsplit, List.append_assoc]
  apply splitLast_append _ (by decide)
  change ¬ Occurs ".layers." (("layers." : Name) ++ (digits layer ++ '.' :: remaining))
  rw [occurs_around (by decide)]
  rintro (hstart | hremaining)
  · exact absurd hstart (by decide)
  · exact h hremaining

theorem processMcorePpName_layer (rankInfo : RankInfo) (vpStage layer : ℕ) {remaining : Name}
    (h : InLayer remaining) :
    processMcorePpName rankInfo vpStage Dict.empty (layerName layer remaining) = .ok (layerName layer remaining) ∧
    ∀ ppMap layerMap globalLayer, ppMap.get? (rankInfo.ppRank, vpStage) = some layerMap →
      layerMap.get? layer = some globalLayer →
      processMcorePpName rankInfo vpStage ppMap (layerName layer remaining) = .ok (layerName globalLayer remaining) := by
  have hlayers : Occurs "layers." (layerName layer remaining) := by
    unfold layerName
    rw [occurs_around (by decide)]
    exact .inl (by decide)
  have hparse : parseInt (digits layer) = .ok layer := by
    rw [parseInt, numeral?_digits]
  constructor
  · rw [processMcorePpName, if_pos hlayers, splitLast_layerName h]
    dsimp only
    rw [splitFirst_digits, Option.getD_some, hparse]
    rfl
  · intro ppMap layerMap globalLayer hstage hlayer
    have hne : ppMap.entries ≠ [] := by
      intro hnil
      rw [Dict.get?, hnil] at hstage
      cases hstage
    rw [processMcorePpName, if_pos hlayers, splitLast_layerName h]
    dsimp only
    rw [splitFirst_digits, Option.getD_some, hparse]
    simp only [Except.ok_bind, if_neg hne, hstage, hlayer]
    unfold layerName
    rw [List.append_assoc, List.append_assoc]
    rfl

theorem splitFirst_modelLayer (layer : ℕ) (name : Name) :
    splitFirst (".layers." : Name) (modelLayer (digits layer) name) =
      some (("model" : Name), digits layer ++ '.' :: name) := by
  have hsplit : ("model.layers." : Name) = ("model" : Name) ++ (".layers." : Name) := by decide
  have hsep : (".layers." : Name) = '.' :: ("layers." : Name) := by decide
  have hdot : '.' ∉ ("model" : Name) := by decide
  unfold modelLayer
  rw [hsplit, List.append_assoc, hsep]
  exact splitFirst_append hdot

theorem extractLayerIdFromParamName_modelLayer (layer : ℕ) (name : Name) :
    extractLayerIdFromParamName (modelLayer (digits layer) name) = some layer := by
  unfold extractLayerIdFromParamName
  rw [splitFirst_modelLayer, Option.bind_eq_bind, Option.bind_some]
  dsimp only
  rw [splitFirst_digits]
  exact numeral?_digits layer

theorem canonicalizePpLayerName_modelLayer {ppMap : StageLayerMap} {stageKey : ℕ × ℕ} {layerMap : Dict ℕ ℕ}
    {layer globalLayer : ℕ} (hstage : ppMap.get? stageKey = some layerMap)
    (hlayer : layerMap.get? layer = some globalLayer) (name : Name) :
    canonicalizePpLayerName ppMap stageKey (modelLayer (digits layer) name) =
      .ok (modelLayer (digits globalLayer) name) := by
  have hne : ppMap.entries ≠ [] := by
    intro hnil
    rw [Dict.get?, hnil] at hstage
    cases hstage
  have hreplace : replaceLayerIdInParamName (modelLayer (digits layer) name) globalLayer =
      modelLayer (digits globalLayer) name := by
    unfold replaceLayerIdInParamName
    rw [splitFirst_modelLayer]
    dsimp only
    rw [splitFirst_digits]
    unfold modelLayer
    have hsplit : ("model.layers." : Name) = ("model" : Name) ++ (".layers." : Name) := by decide
    have hdot : ("." : Name) = ['.'] := by decide
    simp only [hsplit, hdot, List.append_assoc, List.singleton_append]
  rw [canonicalizePpLayerName, if_neg hne, extractLayerIdFromParamName_modelLayer]
  dsimp only
  rw [hstage]
  dsimp only
  rw [hlayer]
  dsimp only
  rw [hreplace]

theorem canonicalizePpLayerName_global (ppMap : StageLayerMap) (stageKey : ℕ × ℕ) {name : Name}
    (h : ¬ Occurs ".layers." name) : canonicalizePpLayerName ppMap stageKey name = .ok name := by
  have hnone : extractLayerIdFromParamName name = none := by
    unfold extractLayerIdFromParamName
    rw [splitFirst_eq_none h]
    rfl
  unfold canonicalizePpLayerName
  rw [hnone, ite_self]

end Awex
