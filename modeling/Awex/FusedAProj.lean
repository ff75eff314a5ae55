import Awex.LinearAgree

namespace Awex

open Chunks Text McoreConverter

section Rows

variable {ρ : Type}

/-- The rows of both projections, by turns for each inference rank. -/
def packFusedQkvAProjForTp (qProj kvProj : List ρ) (inferTpSize : ℕ) : Except ConvertError (List ρ) :=
  if inferTpSize = 0 then .error (.inferTpSizeNotPositive inferTpSize)
  else if qProj.length % inferTpSize ≠ 0 then .error (.rowsNotDivisible qProj.length inferTpSize)
  else if kvProj.length % inferTpSize ≠ 0 then .error (.rowsNotDivisible kvProj.length inferTpSize)
  else do
    let qShards ← chunkRows inferTpSize qProj
    let kvShards ← chunkRows inferTpSize kvProj
    let parts ← (List.range inferTpSize).mapM (fun i => match qShards[i]?, kvShards[i]? with
      | some q, some kv => catRows [q, kv]
      | _, _ => .error .invalidChunks)
    catRows parts

theorem catRows_pair (q kv : List ρ) : catRows [q, kv] = .ok (q ++ kv) := by
  simp [catRows]

theorem packFusedQkvAProjForTp_eq {q kv : List ρ} {n a b : ℕ} (hn : 0 < n) (hq : q.length = n * a)
    (hkv : kv.length = n * b) : packFusedQkvAProjForTp q kv n = .ok (interleave n a b q kv) := by
  have hparts : (List.range n).mapM (fun i =>
      match ((List.range n).map (block q a))[i]?, ((List.range n).map (block kv b))[i]? with
      | some q, some kv => catRows [q, kv]
      | _, _ => .error .invalidChunks) = .ok ((List.range n).map (fun i => block q a i ++ block kv b i)) := by
    apply Except.mapM_of_forall_ok
    intro i hi
    have hlt := List.mem_range.mp hi
    simp only [List.getElem?_map, List.getElem?_range hlt, Option.map_some, catRows_pair]
  have hne : (List.range n).map (fun i => block q a i ++ block kv b i) ≠ [] := by
    simpa using Nat.pos_iff_ne_zero.mp hn
  unfold packFusedQkvAProjForTp chunkRows
  rw [if_neg (Nat.pos_iff_ne_zero.mp hn), if_neg (by simp [hq]), if_neg (by simp [hkv]),
    if_neg (Nat.pos_iff_ne_zero.mp hn), if_neg (Nat.pos_iff_ne_zero.mp hn), chunk_of_mul hn hq, chunk_of_mul hn hkv]
  simp only [Except.ok_bind, hparts]
  rw [catRows, if_neg hne, interleave, List.flatMap_def]

theorem packFusedQkvAProjForTp_isOk {q kv packed : List ρ} {n : ℕ} (h : packFusedQkvAProjForTp q kv n = .ok packed) :
    ∃ a b, 0 < n ∧ q.length = n * a ∧ kv.length = n * b ∧ packed = interleave n a b q kv := by
  have hpacked := h
  unfold packFusedQkvAProjForTp at h
  split_ifs at h with hn hq hkv
  have hpos := Nat.pos_of_ne_zero hn
  have hqmul := (Nat.mul_div_cancel' (Nat.dvd_of_mod_eq_zero (not_not.mp hq))).symm
  have hkvmul := (Nat.mul_div_cancel' (Nat.dvd_of_mod_eq_zero (not_not.mp hkv))).symm
  rw [packFusedQkvAProjForTp_eq hpos hqmul hkvmul] at hpacked
  exact ⟨_, _, hpos, hqmul, hkvmul, (Except.ok.inj hpacked).symm⟩

/-- What the writer publishes for the two projections. -/
def fusedAProj (attnTpSize inferTpSize : ℕ) (q kv : List ρ) : Except ConvertError (List ρ) :=
  if attnTpSize = 1 then catRows [q, kv] else packFusedQkvAProjForTp q kv inferTpSize

theorem length_fusedAProj {attnTpSize inferTpSize : ℕ} {q kv fused : List ρ}
    (h : fusedAProj attnTpSize inferTpSize q kv = .ok fused) : fused.length = q.length + kv.length := by
  unfold fusedAProj at h
  split_ifs at h
  · rw [catRows_pair] at h
    obtain rfl := Except.ok.inj h
    exact List.length_append
  · obtain ⟨a, b, hn, hq, hkv, rfl⟩ := packFusedQkvAProjForTp_isOk h
    exact length_interleave hq hkv

def PacksPlainly (attnTpSize inferTpSize qRows kvRows : ℕ) : Prop :=
  attnTpSize = 1 ∨ inferTpSize = 1 ∨ qRows = 0 ∨ kvRows = 0

theorem fusedAProj_plain {attnTpSize inferTpSize : ℕ} {q kv fused : List ρ}
    (hplain : PacksPlainly attnTpSize inferTpSize q.length kv.length)
    (h : fusedAProj attnTpSize inferTpSize q kv = .ok fused) : fused = q ++ kv := by
  unfold fusedAProj at h
  split_ifs at h with hattn
  · rw [catRows_pair] at h
    exact (Except.ok.inj h).symm
  · obtain ⟨a, b, hn, hq, hkv, rfl⟩ := packFusedQkvAProjForTp_isOk h
    obtain hone | rfl | hnil | hnil := hplain
    · exact absurd hone hattn
    · rw [Nat.one_mul] at hq hkv
      exact interleave_one hq hkv
    · obtain rfl := List.length_eq_zero_iff.mp hnil
      exact interleave_nil_left _ _ hkv
    · obtain rfl := List.length_eq_zero_iff.mp hnil
      rw [List.append_nil]
      exact interleave_nil_right _ _ hq

theorem fusedAProj_mixed {attnTpSize inferTpSize qRows kvRows : ℕ} {x y : ρ} (hxy : x ≠ y)
    (hplain : ¬ PacksPlainly attnTpSize inferTpSize qRows kvRows) {fused : List ρ}
    (h : fusedAProj attnTpSize inferTpSize (List.replicate qRows x) (List.replicate kvRows y) = .ok fused) :
    fused ≠ List.replicate qRows x ++ List.replicate kvRows y := by
  simp only [PacksPlainly, not_or] at hplain
  obtain ⟨hattn, hinfer, hqRows, hkvRows⟩ := hplain
  rw [fusedAProj, if_neg hattn] at h
  obtain ⟨a, b, hn, hq, hkv, rfl⟩ := packFusedQkvAProjForTp_isOk h
  rw [List.length_replicate] at hq hkv
  subst hq hkv
  apply interleave_replicate_ne _ _ _ hxy
  · omega
  · exact Nat.pos_of_ne_zero (fun ha => hqRows (by rw [ha, Nat.mul_zero]))
  · exact Nat.pos_of_ne_zero (fun hb => hkvRows (by rw [hb, Nat.mul_zero]))

end Rows

namespace LinearMlaConverter

variable {τ : Type} (c : LinearMlaConverter τ)

def fusedName : Name := "attention.fused_qkv_a_proj_with_mqa.weight"

def fuse (layer : AProjs τ) : Except ConvertError (List (Name × τ) × AProjs τ) :=
  match layer.qAProj, layer.kvAProj with
  | some q, some kv =>
    (if c.rankInfo.attnTpSize = 1 then c.ops.cat q kv else c.ops.packFusedQkvAProjForTp q kv).map
      (fun fused => ([(fusedName, fused)], ⟨none, none⟩))
  | _, _ => .ok ([], layer)

theorem fuseAProjs_fuse (layer : AProjs τ) (layerNumber : Name) (cache : AProjCache τ) :
    (c.fuseAProjs layer cache layerNumber).map (fun (converted, cache) => (converted, cache layerNumber)) =
      c.fuse layer := by
  have hkeep : ∀ layer : AProjs τ, Function.update cache layerNumber layer layerNumber = layer :=
    fun layer => Function.update_self ..
  obtain ⟨qAProj, kvAProj⟩ := layer
  unfold fuseAProjs fuse
  cases qAProj with
  | none => simp only [Except.map_ok, hkeep]
  | some q =>
    cases kvAProj with
    | none => simp only [Except.map_ok, hkeep]
    | some kv =>
      dsimp only
      generalize (if c.rankInfo.attnTpSize = 1 then c.ops.cat q kv else c.ops.packFusedQkvAProjForTp q kv) = fused
      cases fused with
      | error e => rfl
      | ok fusedTensor =>
        rw [Except.ok_bind, Except.map_ok, Except.map_ok]
        dsimp only
        rw [hkeep]
        rfl

theorem mlaNameMapping_qDown : mlaNameMapping.find? (fun (srcName, _) =>
    Occurs srcName ("self_attention.linear_q_down_proj.weight" : Name)) =
      some ("self_attention.linear_q_down_proj.weight", "attention.q_a_proj.weight") := by
  decide

theorem mlaNameMapping_kvDown : mlaNameMapping.find? (fun (srcName, _) =>
    Occurs srcName ("self_attention.linear_kv_down_proj.weight" : Name)) =
      some ("self_attention.linear_kv_down_proj.weight", "attention.kv_a_proj_with_mqa.weight") := by
  decide

variable {c} (hrank : c.rankInfo.tpRank = 0) (hfuse : c.fuseQkvAProj = true)
include hrank hfuse

theorem mlaResult_qDown (parameter : τ) (layer : AProjs τ) :
    c.mlaResult "self_attention.linear_q_down_proj.weight" parameter layer =
      c.fuse { layer with qAProj := some (c.ops.getFullTensor parameter) } := by
  have hkv : ¬ ("kv_a_proj_with_mqa.weight" : Name) <:+ ("attention.q_a_proj.weight" : Name) := by decide
  have hq : ("q_a_proj.weight" : Name) <:+ ("attention.q_a_proj.weight" : Name) := by decide
  unfold mlaResult convertMlaAttentionParam tryFuseQkvAProj
  rw [mlaNameMapping_qDown]
  simp only [hrank, hfuse, or_true, if_true, ne_eq, not_true, if_false, if_neg hkv, if_pos hq]
  exact c.fuseAProjs_fuse _ [] _

theorem mlaResult_kvDown (parameter : τ) (layer : AProjs τ) :
    c.mlaResult "self_attention.linear_kv_down_proj.weight" parameter layer =
      c.fuse { layer with kvAProj := some (c.ops.getFullTensor parameter) } := by
  have hkv : ("kv_a_proj_with_mqa.weight" : Name) <:+ ("attention.kv_a_proj_with_mqa.weight" : Name) := by decide
  unfold mlaResult convertMlaAttentionParam tryFuseQkvAProj
  rw [mlaNameMapping_kvDown]
  simp only [hrank, hfuse, true_or, if_true, ne_eq, not_true, if_false, if_pos hkv]
  exact c.fuseAProjs_fuse _ [] _

omit hrank hfuse

def convertParams (c : LinearMlaConverter τ) (vpStage : ℕ) (params : List (Name × τ)) (cache : AProjCache τ) :
    Except ConvertError (List (Name × τ) × AProjCache τ) :=
  params.foldlM (fun (converted, cache) (name, parameter) =>
    (c.convertParam name parameter vpStage cache).map (fun (more, cache) => (converted ++ more, cache))) ([], cache)

theorem fused_unscaled : scaleUe8m0 ('.' :: normalizeAttnName fusedName) = none := by
  decide

theorem fuse_names {aProjs aProjs' : AProjs τ} {converted : List (Name × τ)}
    (h : c.fuse aProjs = .ok (converted, aProjs')) : ∀ param ∈ converted, param.1 = fusedName := by
  intro param hparam
  unfold fuse at h
  split at h
  · obtain ⟨fused, -, heq⟩ := Except.map_eq_ok.mp h
    obtain ⟨rfl, -⟩ := Prod.mk.inj heq
    rw [List.mem_singleton.mp hparam]
  · obtain ⟨rfl, -⟩ := Prod.mk.inj (Except.ok.inj h)
    exact absurd hparam List.not_mem_nil

theorem convertParam_aProj (remaining : Name) {vpStage globalLayer : ℕ} {name : Name}
    (hname : processMcorePpName c.rankInfo vpStage c.ppStageLayerIdMap (replaceAll "module." "" name) =
      .ok (layerName globalLayer remaining))
    (houtput : ¬ Occurs "output_layer.weight" ('.' :: remaining)) (hattention : Occurs "self_attention" remaining)
    (hmla : isMlaParam remaining) {parameter : τ} {cache : AProjCache τ} {aProjs : AProjs τ}
    (hresult : c.mlaResult remaining parameter (cache (digits globalLayer)) = c.fuse aProjs) :
    c.convertParam name parameter vpStage cache = (c.fuse aProjs).map (fun (converted, aProjs) =>
      (inLayer (digits globalLayer) (normalizeAttnNames converted),
        Function.update cache (digits globalLayer) aProjs)) := by
  have hmlaResult : c.attentionResult (c.isLinearLayer globalLayer) remaining parameter (cache (digits globalLayer)) =
      c.fuse aProjs := by
    rw [attentionResult, if_neg (fun h => h.2 hmla), hresult]
  unfold convertParam
  rw [hname, Except.ok_bind, c.convertProcessedParam_layerName, if_neg houtput,
    c.convertLayerParam_attention hattention, hmlaResult]
  cases hfused : c.fuse aProjs with
  | error e => rfl
  | ok result =>
    have hpost := c.postProcess_unscaled (fun param hparam => by
      rw [fuse_names hfused param hparam]
      exact fused_unscaled) globalLayer
    rw [Except.ok_bind, Except.map_ok]
    dsimp only
    rw [hpost, Except.map_ok]

section Down

variable {vpStage globalLayer : ℕ} {name : Name} (hrank : c.rankInfo.tpRank = 0) (hfuse : c.fuseQkvAProj = true)
include hrank hfuse

theorem convertParam_qDown (hname : processMcorePpName c.rankInfo vpStage c.ppStageLayerIdMap
    (replaceAll "module." "" name) = .ok (layerName globalLayer "self_attention.linear_q_down_proj.weight"))
    (q : τ) (cache : AProjCache τ) :
    c.convertParam name q vpStage cache =
      (c.fuse { cache (digits globalLayer) with qAProj := some (c.ops.getFullTensor q) }).map
        (fun (converted, aProjs) => (inLayer (digits globalLayer) (normalizeAttnNames converted),
          Function.update cache (digits globalLayer) aProjs)) := by
  apply convertParam_aProj _ hname
  · decide
  · decide
  · decide
  · exact mlaResult_qDown hrank hfuse q _

theorem convertParam_kvDown (hname : processMcorePpName c.rankInfo vpStage c.ppStageLayerIdMap
    (replaceAll "module." "" name) = .ok (layerName globalLayer "self_attention.linear_kv_down_proj.weight"))
    (kv : τ) (cache : AProjCache τ) :
    c.convertParam name kv vpStage cache =
      (c.fuse { cache (digits globalLayer) with kvAProj := some (c.ops.getFullTensor kv) }).map
        (fun (converted, aProjs) => (inLayer (digits globalLayer) (normalizeAttnNames converted),
          Function.update cache (digits globalLayer) aProjs)) := by
  apply convertParam_aProj _ hname
  · decide
  · decide
  · decide
  · exact mlaResult_kvDown hrank hfuse kv _

end Down

structure AProjNames (c : LinearMlaConverter τ) (vpStage localLayer globalLayer : ℕ) (qName kvName : Name) : Prop where
  global : ∃ layerMap, c.ppStageLayerIdMap.get? (c.rankInfo.ppRank, vpStage) = some layerMap ∧
    layerMap.get? localLayer = some globalLayer
  q : replaceAll "module." "" qName = layerName localLayer "self_attention.linear_q_down_proj.weight"
  kv : replaceAll "module." "" kvName = layerName localLayer "self_attention.linear_kv_down_proj.weight"

variable {vpStage localLayer globalLayer : ℕ} {qName kvName : Name}

theorem convertParam_q (h : AProjNames c vpStage localLayer globalLayer qName kvName)
    (hrank : c.rankInfo.tpRank = 0) (hfuse : c.fuseQkvAProj = true) (q : τ) (cache : AProjCache τ) :
    c.convertParam qName q vpStage cache =
      (c.fuse { cache (digits globalLayer) with qAProj := some (c.ops.getFullTensor q) }).map
        (fun (converted, aProjs) => (inLayer (digits globalLayer) (normalizeAttnNames converted),
          Function.update cache (digits globalLayer) aProjs)) := by
  obtain ⟨layerMap, hstage, hlayer⟩ := h.global
  apply convertParam_qDown hrank hfuse
  rw [h.q]
  exact (processMcorePpName_layer _ _ _ (by unfold InLayer; decide)).2 _ layerMap globalLayer hstage hlayer

theorem convertParam_kv (h : AProjNames c vpStage localLayer globalLayer qName kvName)
    (hrank : c.rankInfo.tpRank = 0) (hfuse : c.fuseQkvAProj = true) (kv : τ) (cache : AProjCache τ) :
    c.convertParam kvName kv vpStage cache =
      (c.fuse { cache (digits globalLayer) with kvAProj := some (c.ops.getFullTensor kv) }).map
        (fun (converted, aProjs) => (inLayer (digits globalLayer) (normalizeAttnNames converted),
          Function.update cache (digits globalLayer) aProjs)) := by
  obtain ⟨layerMap, hstage, hlayer⟩ := h.global
  apply convertParam_kvDown hrank hfuse
  rw [h.kv]
  exact (processMcorePpName_layer _ _ _ (by unfold InLayer; decide)).2 _ layerMap globalLayer hstage hlayer

theorem convertParams_fused (h : AProjNames c vpStage localLayer globalLayer qName kvName)
    (hrank : c.rankInfo.tpRank = 0) (hfuse : c.fuseQkvAProj = true) {q kv : τ} {params : List (Name × τ)}
    (hparams : params = [(qName, q), (kvName, kv)] ∨ params = [(kvName, kv), (qName, q)]) {cache : AProjCache τ}
    (hcache : cache (digits globalLayer) = ⟨none, none⟩) :
    (c.convertParams vpStage params cache).map Prod.fst =
      (if c.rankInfo.attnTpSize = 1 then c.ops.cat (c.ops.getFullTensor q) (c.ops.getFullTensor kv)
        else c.ops.packFusedQkvAProjForTp (c.ops.getFullTensor q) (c.ops.getFullTensor kv)).map
          (fun fused => [(modelLayer (digits globalLayer) fusedName, fused)]) := by
  have hnormal : normalizeAttnName fusedName = fusedName := by decide
  have hkeep : ∀ aProjs, Function.update cache (digits globalLayer) aProjs (digits globalLayer) = aProjs :=
    fun aProjs => Function.update_self ..
  have hboth : ∀ fused : Except ConvertError τ,
      ((fused.map (fun fused => ([(fusedName, fused)], (⟨none, none⟩ : AProjs τ)))).map
        (fun (converted, aProjs) => (inLayer (digits globalLayer) (normalizeAttnNames converted),
          Function.update cache (digits globalLayer) aProjs))).map Prod.fst =
        fused.map (fun fused => [(modelLayer (digits globalLayer) fusedName, fused)]) := by
    intro fused
    cases fused with
    | error e => rfl
    | ok fused =>
      have hnames : inLayer (digits globalLayer) (normalizeAttnNames [(fusedName, fused)]) =
          [(modelLayer (digits globalLayer) fusedName, fused)] := by
        unfold inLayer normalizeAttnNames
        simp only [List.map_singleton, hnormal]
      exact congrArg Except.ok hnames
  have hnil : ∀ result : Except ConvertError (List (Name × τ) × AProjCache τ),
      result.map (fun more => ([] ++ inLayer (digits globalLayer) (normalizeAttnNames []) ++ more.1, more.2)) =
        result := by
    intro result
    cases result <;> rfl
  rw [← hboth]
  unfold convertParams
  obtain rfl | rfl := hparams
  · have hq : c.fuse ⟨some (c.ops.getFullTensor q), none⟩ = .ok ([], ⟨some (c.ops.getFullTensor q), none⟩) := rfl
    simp only [List.foldlM_cons, List.foldlM_nil, bind_pure, convertParam_q h hrank hfuse,
      convertParam_kv h hrank hfuse, hcache, hq, Except.map_ok, Except.ok_bind, hkeep, Function.update_idem]
    rw [hnil]
    rfl
  · have hkv : c.fuse ⟨none, some (c.ops.getFullTensor kv)⟩ = .ok ([], ⟨none, some (c.ops.getFullTensor kv)⟩) := rfl
    simp only [List.foldlM_cons, List.foldlM_nil, bind_pure, convertParam_q h hrank hfuse,
      convertParam_kv h hrank hfuse, hcache, hkv, Except.map_ok, Except.ok_bind, hkeep, Function.update_idem]
    rw [hnil]
    rfl

end LinearMlaConverter

end Awex
