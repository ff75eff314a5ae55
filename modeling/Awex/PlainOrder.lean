import Awex.FusedAProj
import Awex.ReplicatedTransfer

namespace Awex

open Text McoreConverter

variable {α : Type}

section Rows

variable {cols : ℕ}

def elements (rows : List (Vector α cols)) : List α := rows.flatMap (·.toList)

theorem elements_injective (hcols : 0 < cols) {rows rows' : List (Vector α cols)}
    (h : elements rows = elements rows') : rows = rows' := by
  induction rows generalizing rows' with
  | nil =>
    cases rows' with
    | nil => rfl
    | cons row rows' =>
      have hlength := congrArg List.length h
      simp [elements] at hlength
      omega
  | cons row rows ih =>
    cases rows' with
    | nil =>
      have hlength := congrArg List.length h
      simp [elements] at hlength
      omega
    | cons row' rows' =>
      simp only [elements, List.flatMap_cons] at h
      obtain ⟨hrow, hrows⟩ := List.append_inj h (by simp)
      rw [Vector.toList_inj.mp hrow, ih hrows]

/-- The tensor operations that concern the a-projections, on matrices of rows; the ranks of a group
have as many rows as this one. -/
structure RowOps (c : LinearMlaConverter (List (Vector α cols))) (inferTpSize : ℕ) : Prop where
  cat : ∀ q kv, c.ops.cat q kv = catRows [q, kv]
  pack : ∀ q kv, c.ops.packFusedQkvAProjForTp q kv = packFusedQkvAProjForTp q kv inferTpSize
  gather : ∀ weight, ∃ gathered, gathered.length = c.rankInfo.tpSize ∧ gathered.head? = some weight ∧
    (∀ shard ∈ gathered, shard.length = weight.length) ∧
    c.ops.getFullTensor weight = getFullTensor c.rankInfo.tpSize gathered weight

theorem RowOps.length_full {c : LinearMlaConverter (List (Vector α cols))} {inferTpSize : ℕ} (h : RowOps c inferTpSize)
    (weight : List (Vector α cols)) : (c.ops.getFullTensor weight).length = c.rankInfo.tpSize * weight.length := by
  obtain ⟨gathered, hlength, -, hshards, hfull⟩ := h.gather weight
  rw [hfull, getFullTensor]
  split_ifs with hone
  · rw [List.length_flatten, List.map_congr_left hshards, ← hlength]
    simp
  · rw [not_not.mp hone, Nat.one_mul]

structure Published (c : LinearMlaConverter (List (Vector α cols))) (inferTpSize layer : ℕ)
    (q kv fused : List (Vector α cols)) : Prop where
  rank : c.rankInfo.tpRank = 0
  fuses : c.fuseQkvAProj = true
  ops : RowOps c inferTpSize
  converted : ∃ vpStage localLayer qName kvName params cache,
    LinearMlaConverter.AProjNames c vpStage localLayer layer qName kvName ∧
    (params = [(qName, q), (kvName, kv)] ∨ params = [(kvName, kv), (qName, q)]) ∧
    cache (digits layer) = ⟨none, none⟩ ∧ (c.convertParams vpStage params cache).map Prod.fst =
      .ok [(modelLayer (digits layer) LinearMlaConverter.fusedName, fused)]

theorem Published.fused {c : LinearMlaConverter (List (Vector α cols))} {inferTpSize layer : ℕ}
    {q kv fused : List (Vector α cols)} (h : Published c inferTpSize layer q kv fused) :
    fusedAProj c.rankInfo.attnTpSize inferTpSize (c.ops.getFullTensor q) (c.ops.getFullTensor kv) = .ok fused := by
  obtain ⟨vpStage, localLayer, qName, kvName, params, cache, hnames, hparams, hcache, hconverted⟩ := h.converted
  rw [LinearMlaConverter.convertParams_fused hnames h.rank h.fuses hparams hcache, h.ops.cat, h.ops.pack] at hconverted
  obtain ⟨fused', hfused, heq⟩ := Except.map_eq_ok.mp hconverted
  obtain rfl := (Prod.mk.inj (List.cons.inj heq).1).2
  exact hfused

def fusedParamName (layer : ℕ) : String :=
  String.ofList (modelLayer (digits layer) LinearMlaConverter.fusedName)

theorem fusedParamName_replicated (layer : ℕ) :
    ∃ key ∈ LinearMLASharding.replicatedParams, Occurs key (fusedParamName layer).toList := by
  refine ⟨"attention.fused_qkv_a_proj_with_mqa.weight", by decide, ?_⟩
  rw [fusedParamName, String.toList_ofList, occurs_modelLayer _ (by decide) (by decide)]
  exact (List.suffix_cons _ _).isInfix

def rowTensorOps (tpSize inferTpSize : ℕ) : TensorOps (List (Vector α cols)) where
  rows := fun weight => .ok weight.length
  narrow := fun weight start length => .ok ((weight.drop start).take length)
  getFullTensor := fun weight => getFullTensor tpSize (List.replicate tpSize weight) weight
  convertQkvWeightAlongTpAttention := .ok
  convertQkvBiasAlongTpAttention := .ok
  transformMcoreQkvBias := fun weight => .ok (weight, weight, weight)
  packFusedQkvAProjForTp := fun q kv => packFusedQkvAProjForTp q kv inferTpSize
  cat := fun q kv => catRows [q, kv]
  flatten := id
  normalize := id
  toRouterDtype := id
  toFloat32 := id
  perBlockCastToFp8 := fun weight _ => .ok (weight, weight)

def rowRankInfo (attnTpSize tpSize : ℕ) : RankInfo where
  tpRank := 0
  tpSize := tpSize
  ppRank := 0
  ppSize := 1
  dpSize := 1
  dpRank := 0
  epRank := 0
  epSize := 1
  epTpRank := 0
  epTpSize := 1
  attnTpRank := 0
  attnTpSize := attnTpSize
  attnDpRank := 0
  worldSize := tpSize
  globalRank := 0
  localRank := 0
  engineRank := 0
  isInfer := false

def rowConverter (α : Type) (cols attnTpSize tpSize inferTpSize layer : ℕ) :
    LinearMlaConverter (List (Vector α cols)) where
  ops := rowTensorOps tpSize inferTpSize
  rankInfo := rowRankInfo attnTpSize tpSize
  numExperts := 0
  normHead := false
  ppStageLayerIdMap := Dict.ofList [((0, 0), Dict.ofList [(layer, layer)])]
  quantMethod := false
  layerGroupSize := 1
  fuseQkvAProj := true

theorem rowConverter_ops {attnTpSize tpSize inferTpSize layer : ℕ} (htp : 0 < tpSize) :
    RowOps (rowConverter α cols attnTpSize tpSize inferTpSize layer) inferTpSize := by
  refine ⟨fun _ _ => rfl, fun _ _ => rfl, fun weight => ⟨List.replicate tpSize weight, ?_, ?_, ?_, rfl⟩⟩
  · exact List.length_replicate
  · rw [List.head?_replicate, if_neg (Nat.pos_iff_ne_zero.mp htp)]
  · intro shard hshard
    rw [List.eq_of_mem_replicate hshard]

theorem rowConverter_full {attnTpSize tpSize inferTpSize layer rows : ℕ} (row : Vector α cols) :
    (rowConverter α cols attnTpSize tpSize inferTpSize layer).ops.getFullTensor
      (List.replicate rows row) = List.replicate (tpSize * rows) row := by
  change getFullTensor tpSize (List.replicate tpSize (List.replicate rows row)) (List.replicate rows row) = _
  rw [getFullTensor]
  split_ifs with hone
  · rw [List.flatten_replicate_replicate]
  · rw [not_not.mp hone, Nat.one_mul]

theorem published_exists {attnTpSize tpSize inferTpSize layer : ℕ} (htp : 0 < tpSize)
    {q kv fused : List (Vector α cols)}
    (hfused : fusedAProj attnTpSize inferTpSize
      ((rowConverter α cols attnTpSize tpSize inferTpSize layer).ops.getFullTensor q)
      ((rowConverter α cols attnTpSize tpSize inferTpSize layer).ops.getFullTensor kv) = .ok fused) :
    Published (rowConverter α cols attnTpSize tpSize inferTpSize layer) inferTpSize layer q kv fused := by
  have hplain : ∀ remaining : Name, ¬ Occurs "module." ('.' :: remaining) →
      replaceAll "module." "" (layerName layer remaining) = layerName layer remaining := by
    intro remaining h
    apply replaceFrom_eq
    rw [← Occurs, occurs_layerName _ (by decide) (by decide)]
    exact h
  have hnames : (rowConverter α cols attnTpSize tpSize inferTpSize layer).AProjNames 0 layer layer
      (layerName layer "self_attention.linear_q_down_proj.weight")
      (layerName layer "self_attention.linear_kv_down_proj.weight") :=
    ⟨⟨Dict.ofList [(layer, layer)], rfl, by simp [Dict.ofList, Dict.get?_set]⟩, hplain _ (by decide), hplain _ (by decide)⟩
  refine ⟨rfl, rfl, rowConverter_ops htp, 0, layer, _, _, _, AProjCache.empty, hnames, .inl rfl, rfl, ?_⟩
  rw [LinearMlaConverter.convertParams_fused hnames rfl rfl (.inl rfl) rfl]
  exact Except.map_eq_ok.mpr ⟨fused, hfused, rfl⟩

end Rows

section PlainOrder

variable (cast : Dtype → Dtype → α → α) (b : TransferPlanBuilder) (infer train : List ParameterMeta)
  (plan : ℕ → TransferPlan) (parameters : ℕ → Dict String Parameter)
  (layer attnTpSize tpSize inferTpSize qRows kvRows cols : ℕ)

/-- Every update leaves the rows of `q_a` and then those of `kv_a` in the inference tensors. -/
def ArrivesPlain : Prop :=
  ∀ (c : LinearMlaConverter (List (Vector α cols))) (q kv fused : List (Vector α cols)) (memory : ℕ → Memory α)
    (r : ℕ) (tensor : Parameter) (final : Memory α),
    c.rankInfo.attnTpSize = attnTpSize → c.rankInfo.tpSize = tpSize → q.length = qRows → kv.length = kvRows →
    Published c inferTpSize layer q kv fused →
    TrainingHolds b parameters (fusedParamName layer) [tpSize * qRows + tpSize * kvRows, cols] memory
      (elements fused) →
    InferenceTensor b infer parameters (fusedParamName layer) r tensor →
    UpdateRun cast b plan parameters memory r final →
    final.read tensor.inference = elements (c.ops.getFullTensor q ++ c.ops.getFullTensor kv)

variable {b infer train plan parameters layer attnTpSize tpSize inferTpSize qRows kvRows cols}

theorem trainingHolds_exists {name : String} {shape : List ℕ}
    (h : ReplicatedParam b infer train plan parameters name shape) (values : List α)
    (hvalues : values.length = shape.prod) [Nonempty α] : ∃ memory, TrainingHolds b parameters name shape memory values := by
  obtain ⟨a⟩ := ‹Nonempty α›
  have hmemory : ∀ t, ∃ memory : Memory α, ∀ p, b.inferWorldSize ≤ t → (parameters t).get? name = some p →
      p.training.shape = shape → memory.read p.training = values := by
    intro t
    cases hget : (parameters t).get? name with
    | none =>
      refine ⟨⟨fun _ => a, 0⟩, fun p _ hp => ?_⟩
      cases hp
    | some p =>
      refine ⟨(⟨fun _ => a, 0⟩ : Memory α).store (p.training.addresses.zip values), fun p' ht hp' hshape => ?_⟩
      obtain rfl := Option.some.inj hp'
      apply Store.map_writeAll_zip
      · exact (h.contiguous t p ht hget).addresses_nodup
      · rw [Tensor.length_addresses, Tensor.numel, hshape, hvalues]
  choose memory hmemory using hmemory
  exact ⟨memory, hmemory⟩

theorem length_elements (rows : List (Vector α cols)) : (elements rows).length = rows.length * cols := by
  induction rows with
  | nil => simp [elements]
  | cons row rows ih =>
    rw [elements, List.flatMap_cons, List.length_append, ← elements, ih, List.length_cons, Nat.succ_mul]
    simp [Nat.add_comm]

theorem arrives (hsetup : ReplicatedParam b infer train plan parameters (fusedParamName layer)
      [tpSize * qRows + tpSize * kvRows, cols])
    {memory : ℕ → Memory α} {values : List α}
    (hvalues : TrainingHolds b parameters (fusedParamName layer) [tpSize * qRows + tpSize * kvRows, cols] memory values)
    {r : ℕ} {tensor : Parameter} (htensor : InferenceTensor b infer parameters (fusedParamName layer) r tensor)
    {final : Memory α} (hrun : UpdateRun cast b plan parameters memory r final) :
    final.read tensor.inference = values :=
  hsetup.transferred (fusedParamName_replicated layer) hvalues htensor
    (hrun.updated hsetup.common hsetup.plans hsetup.deployed (htensor.lt hsetup))

theorem fused_a_proj_plain_iff [Nontrivial α]
    (hsetup : ReplicatedParam b infer train plan parameters (fusedParamName layer)
      [tpSize * qRows + tpSize * kvRows, cols])
    (htp : 0 < tpSize) (hinfer : 0 < inferTpSize) (hq : inferTpSize ∣ tpSize * qRows)
    (hkv : inferTpSize ∣ tpSize * kvRows) :
    ArrivesPlain cast b infer plan parameters layer attnTpSize tpSize inferTpSize qRows kvRows cols ↔
      PacksPlainly attnTpSize inferTpSize (tpSize * qRows) (tpSize * kvRows) ∨ cols = 0 := by
  constructor
  · intro hplain
    by_contra hmixed
    obtain ⟨hmixed, hcols⟩ := not_or.mp hmixed
    obtain ⟨x, y, hxy⟩ := exists_pair_ne α
    have hrows : Vector.replicate cols x ≠ Vector.replicate cols y := by
      intro heq
      have hfirst := congrArg (fun row => row.toList.head?) heq
      simp [List.head?_replicate, hcols, hxy] at hfirst
    obtain ⟨a, ha⟩ := hq
    obtain ⟨d, hd⟩ := hkv
    obtain ⟨fused, hfused⟩ : ∃ fused, fusedAProj attnTpSize inferTpSize
        (List.replicate (tpSize * qRows) (Vector.replicate cols x))
        (List.replicate (tpSize * kvRows) (Vector.replicate cols y)) = .ok fused := by
      unfold fusedAProj
      split_ifs
      · exact ⟨_, catRows_pair _ _⟩
      · exact ⟨_, packFusedQkvAProjForTp_eq hinfer (List.length_replicate.trans ha) (List.length_replicate.trans hd)⟩
    have hpublished : Published (rowConverter α cols attnTpSize tpSize inferTpSize layer) inferTpSize layer
        (List.replicate qRows (Vector.replicate cols x)) (List.replicate kvRows (Vector.replicate cols y)) fused := by
      apply published_exists htp
      rwa [rowConverter_full, rowConverter_full]
    have hlength : (elements fused).length = [tpSize * qRows + tpSize * kvRows, cols].prod := by
      rw [length_elements, length_fusedAProj hfused, List.length_replicate, List.length_replicate]
      simp
    obtain ⟨memory, hvalues⟩ := trainingHolds_exists hsetup _ hlength
    obtain ⟨r, tensor, htensor⟩ := hsetup.inferenceTensor_exists (fusedParamName_replicated layer)
    obtain ⟨final, hrun⟩ := updateRun_exists cast hsetup.common hsetup.plans hsetup.deployed memory
      (htensor.lt hsetup)
    have hread := hplain _ _ _ _ memory r tensor final rfl rfl List.length_replicate List.length_replicate
      hpublished hvalues htensor hrun
    rw [arrives cast hsetup hvalues htensor hrun, rowConverter_full, rowConverter_full] at hread
    exact fusedAProj_mixed hrows hmixed hfused (elements_injective (Nat.pos_of_ne_zero hcols) hread)
  · intro hplain c q kv fused memory r tensor final hattn htpSize hqRows hkvRows hpublished hvalues htensor hrun
    rw [arrives cast hsetup hvalues htensor hrun]
    obtain hplain | rfl := hplain
    · have hfused := hpublished.fused
      rw [hattn] at hfused
      rw [fusedAProj_plain _ hfused]
      rwa [hpublished.ops.length_full, hpublished.ops.length_full, htpSize, hqRows, hkvRows]
    · rw [List.eq_nil_of_length_eq_zero ((length_elements fused).trans (Nat.mul_zero _)),
        List.eq_nil_of_length_eq_zero ((length_elements (_ ++ _)).trans (Nat.mul_zero _))]

end PlainOrder

def mlaBuilder : TransferPlanBuilder := ⟨2, 2, 1, false, Nat.one_pos⟩

def mlaName : String := "model.layers.0.attention.fused_qkv_a_proj_with_mqa.weight"

def mlaRankInfo (isInfer : Bool) (r : ℕ) : RankInfo :=
  { rowRankInfo 2 2 with tpRank := r, attnTpRank := r, globalRank := r, localRank := r, isInfer := isInfer }

def mlaRaw (isInfer : Bool) (ranks : List ℕ) : List RawRankMeta :=
  ranks.map (fun r => ⟨mlaRankInfo isInfer r, [⟨mlaName, [4, 1], 4, .torch .bfloat16⟩]⟩)

def mlaShard (r : ℕ) : ParameterShardMeta where
  tpRank := r
  attnTpRank := r
  ppRank := 0
  epRank := 0
  epTpRank := 0
  globalRank := r
  worldSize := 2
  engineRank := 0
  name := mlaName
  shape := [4, 1]
  numel := 4
  dtype := .bfloat16
  globalOffset := [0, 0]

def mlaMeta (ranks : List ℕ) : ParameterMeta where
  name := mlaName
  globalNumel := 4
  globalShape := [4, 1]
  dtype := .bfloat16
  shards := ranks.map mlaShard
  replicas := ranks.map (fun r => ⟨[mlaShard r]⟩)

def mlaPlan (globalTransferRank : ℕ) : TransferPlan :=
  (buildLocalTransferPlan mlaBuilder [mlaMeta [0, 1]] [mlaMeta [0]] globalTransferRank).toOption.getD ⟨Dict.empty⟩

def mlaTensor : Parameter := ⟨0, 0, [⟨4, 1⟩, ⟨1, 1⟩], .bfloat16⟩

/-- The second training rank publishes nothing. -/
def mlaParameters (transferRank : ℕ) : Dict String Parameter :=
  if transferRank = 3 then Dict.empty else Dict.ofList [(mlaName, mlaTensor)]

theorem mlaMeta_reported (isInfer : Bool) {ranks : List ℕ} (h : ranks = [0] ∨ ranks = [0, 1]) :
    LinearMlaMeta mlaName [4, 1] [mlaMeta ranks] := by
  refine ⟨mlaRankInfo isInfer 0, fun _ _ _ => (.tpSharding, 0, 2), mlaRaw isInfer ranks, ?_, ?_⟩
  · obtain rfl | rfl := h <;> rfl
  · intro rankMeta hrank paramMeta hparam _
    obtain ⟨r, -, rfl⟩ := List.mem_map.mp hrank
    rw [List.mem_singleton.mp hparam]

theorem mlaParameters_get? {transferRank : ℕ} {name : String} {p : Parameter}
    (h : (mlaParameters transferRank).get? name = some p) : name = mlaName ∧ p = mlaTensor := by
  unfold mlaParameters at h
  split_ifs at h with hrank
  · cases h
  · have hget : (Dict.ofList [(mlaName, mlaTensor)]).get? name = if mlaName = name then some mlaTensor else none := rfl
    rw [hget] at h
    split_ifs at h with hname
    exact ⟨hname.symm, (Option.some.inj h).symm⟩

theorem mla_common : CommonMetadata mlaBuilder [mlaMeta [0, 1]] [mlaMeta [0]] := by
  refine commonMetadata_single rfl ?_
  refine ⟨by decide, by decide, by decide, ?_, by decide, ?_, by decide, by decide⟩
  · simp only [mlaMeta, List.map_cons, List.map_nil, List.mem_singleton, forall_eq]
    exact Box.tiles_of_indices _ _ (by decide) (by decide)
  · intro replica hreplica s hs
    refine Box.inside_of_indices s.box _ ?_
    revert s
    revert replica
    decide

theorem mla_deployment : Deployment mlaBuilder [mlaMeta [0, 1]] [mlaMeta [0]] mlaParameters := by
  apply deployment_single
  · decide
  · decide
  · decide
  · intro rank name p hp
    obtain ⟨hname, rfl⟩ := mlaParameters_get? hp
    exact ⟨hname, rfl, .inr rfl⟩

theorem fusedParamName_zero : fusedParamName 0 = mlaName := by
  decide

theorem mla_replicated : ReplicatedParam mlaBuilder [mlaMeta [0, 1]] [mlaMeta [0]] mlaPlan mlaParameters
    (fusedParamName 0) [2 * 1 + 2 * 1, 1] := by
  rw [fusedParamName_zero]
  refine ⟨mla_common, ?_, mla_deployment, mlaMeta_reported true (.inr rfl), mlaMeta_reported false (.inl rfl),
    by decide, ⟨mlaMeta [0, 1], mlaMeta [0], rfl, rfl⟩, ?_⟩
  · intro g hg
    change g < 4 at hg
    interval_cases g <;> rfl
  · intro t p _ hp
    obtain ⟨-, rfl⟩ := mlaParameters_get? hp
    exact .inr rfl

theorem fused_a_proj_plain_replicated :
    ArrivesPlain (fun _ _ (a : ℕ) => a) mlaBuilder [mlaMeta [0, 1]] mlaPlan mlaParameters 0 1 2 2 1 1 1 :=
  (fused_a_proj_plain_iff _ mla_replicated (by decide) (by decide) (by decide) (by decide)).mpr (.inl (.inl rfl))

theorem fused_a_proj_mixed : ∃ (memory : ℕ → Memory ℕ) (final : Memory ℕ),
    Published (rowConverter ℕ 1 2 2 2 0) 2 0 [#v[0]] [#v[1]] [#v[0], #v[1], #v[0], #v[1]] ∧
    TrainingHolds mlaBuilder mlaParameters (fusedParamName 0) [4, 1] memory [0, 1, 0, 1] ∧
    InferenceTensor mlaBuilder [mlaMeta [0, 1]] mlaParameters (fusedParamName 0) 1 mlaTensor ∧
    UpdateRun (fun _ _ a => a) mlaBuilder mlaPlan mlaParameters memory 1 final ∧
    final.read mlaTensor.inference = [0, 1, 0, 1] ∧
    elements ((rowConverter ℕ 1 2 2 2 0).ops.getFullTensor [#v[0]] ++
      (rowConverter ℕ 1 2 2 2 0).ops.getFullTensor [#v[1]]) = [0, 0, 1, 1] := by
  -- with two ranks on both sides, the receivers hold a row of each projection by turns
  have hpublished : Published (rowConverter ℕ 1 2 2 2 0) 2 0 [#v[0]] [#v[1]] [#v[0], #v[1], #v[0], #v[1]] :=
    published_exists (by decide) rfl
  obtain ⟨memory, hvalues⟩ := trainingHolds_exists mla_replicated [0, 1, 0, 1] rfl
  have htensor : InferenceTensor mlaBuilder [mlaMeta [0, 1]] mlaParameters (fusedParamName 0) 1 mlaTensor := by
    rw [fusedParamName_zero]
    exact ⟨mlaMeta [0, 1], rfl, 0, by decide, ⟨[mlaShard 1]⟩, by decide, mlaShard 1, by decide, rfl, rfl⟩
  obtain ⟨final, hrun⟩ := updateRun_exists (fun _ _ a => a) mla_replicated.common mla_replicated.plans
    mla_replicated.deployed memory (htensor.lt mla_replicated)
  exact ⟨memory, final, hpublished, hvalues, htensor, hrun, arrives _ mla_replicated hvalues htensor hrun, rfl⟩

end Awex
