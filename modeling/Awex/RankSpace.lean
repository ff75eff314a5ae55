import Awex.MetaTiling
import Awex.TransferPlan

namespace Awex

inductive EngineName where
  | sglang
  | vllm
  deriving DecidableEq, Repr

structure InferenceConfig where
  engineName : EngineName
  tpSize : ℕ
  ppSize : ℕ
  dpSize : Option ℕ
  epSize : ℕ
  enableDpAttention : Bool
  numEngines : ℕ
  deriving DecidableEq, Repr

/-- What an engine hands to its workers. The optional entries are those that SGLang leaves out. -/
structure ModelContext where
  tpRank : ℕ
  tpSize : ℕ
  ppRank : ℕ
  ppSize : ℕ
  dpSize : ℕ
  dpRank : ℕ
  epSize : Option ℕ
  epRank : Option ℕ
  epTpSize : Option ℕ
  epTpRank : Option ℕ
  attnTpRank : ℕ
  attnTpSize : ℕ
  attnDpRank : ℕ
  worldSize : ℕ
  globalRank : ℕ
  localRank : ℕ
  deriving DecidableEq, Repr

inductive RankInfoError where
  | dpSizeNotSupported (dpSize : ℕ)
  | epSizeNotOne
  | zeroDivision
  deriving DecidableEq, Repr

namespace InferenceConfig

/-- `max(1, int(getattr(config, "dp_size", 1) or 1))`. -/
def readerDpSize (config : InferenceConfig) : ℕ := max 1 (config.dpSize.getD 1)

/-- `infer_world_size` of `WeightsReader`, which the writers read from `infer_conf`. -/
def inferWorldSize (config : InferenceConfig) : ℕ :=
  config.numEngines * config.tpSize * config.ppSize * config.readerDpSize

/-- The `dp_size` of the engine's own arguments. -/
def engineDpSize (config : InferenceConfig) : ℕ := config.dpSize.getD 1

def instanceWorldSize (config : InferenceConfig) : ℕ :=
  match config.engineName with
  | .sglang => config.tpSize * config.ppSize
  | .vllm => config.tpSize * config.ppSize * config.engineDpSize

end InferenceConfig

def getSglangRankInfo (config : InferenceConfig) (context : ModelContext) (engineRank : ℕ) :
    Except RankInfoError RankInfo :=
  if config.engineDpSize ≠ 1 ∧ config.enableDpAttention = false then
    .error (.dpSizeNotSupported config.engineDpSize)
  else
    let rankInfo (epRank epTpRank epTpSize : ℕ) : RankInfo :=
      { tpRank := context.tpRank
        tpSize := context.tpSize
        ppRank := context.ppRank
        ppSize := context.ppSize
        dpSize := context.dpSize
        dpRank := 0
        epRank := epRank
        epSize := config.epSize
        epTpRank := epTpRank
        epTpSize := epTpSize
        attnTpRank := context.attnTpRank
        attnTpSize := context.attnTpSize
        attnDpRank := context.attnDpRank
        worldSize := context.worldSize
        globalRank := context.globalRank
        localRank := context.localRank
        engineRank := engineRank
        isInfer := true }
    if 1 < config.epSize then
      let epTpSize := context.tpSize / config.epSize
      if epTpSize = 0 then .error .zeroDivision
      else .ok (rankInfo (context.tpRank / epTpSize) (context.tpRank % epTpSize) epTpSize)
    else if config.epSize = 1 then .ok (rankInfo 0 0 1)
    else .error .epSizeNotOne

def getVllmRankInfo (context : ModelContext) (engineRank : ℕ) : RankInfo :=
  let epSize := context.epSize.getD 1
  { tpRank := context.tpRank
    tpSize := context.tpSize
    ppRank := context.ppRank
    ppSize := context.ppSize
    dpSize := context.dpSize
    dpRank := context.dpRank
    epRank := if epSize ≤ 1 then 0 else context.epRank.getD 0
    epSize := epSize
    epTpRank := if epSize ≤ 1 then 0 else context.epTpRank.getD 0
    epTpSize := if epSize ≤ 1 then 1 else context.epTpSize.getD 1
    attnTpRank := context.attnTpRank
    attnTpSize := context.attnTpSize
    attnDpRank := context.attnDpRank
    worldSize := context.worldSize
    globalRank := context.globalRank
    localRank := context.localRank
    engineRank := engineRank
    isInfer := true }

def getRankInfo (config : InferenceConfig) (context : ModelContext) (engineRank : ℕ) :
    Except RankInfoError RankInfo :=
  match config.engineName with
  | .sglang => getSglangRankInfo config context engineRank
  | .vllm => .ok (getVllmRankInfo context engineRank)

/-- `parameters_meta[0].shards[0].world_size`. -/
def recordedWorldSize (params : List ParameterMeta) : ℕ :=
  match params with
  | [] => 0
  | p :: _ => match p.shards with
    | [] => 0
    | s :: _ => s.worldSize

def readerTransferRank (params : List ParameterMeta) (rankInfo : RankInfo) : ℕ :=
  rankInfo.engineRank * recordedWorldSize params + rankInfo.globalRank

def writerTransferRank (config : InferenceConfig) (rankInfo : RankInfo) : ℕ :=
  config.inferWorldSize + rankInfo.globalRank

structure Started (config : InferenceConfig) (context : ℕ → ℕ → ModelContext)
    (rankInfo : ℕ → ℕ → RankInfo) : Prop where
  tp : 0 < config.tpSize
  pp : 0 < config.ppSize
  engines : 0 < config.numEngines
  dp : 0 < config.engineDpSize
  worldSize : ∀ e < config.numEngines, ∀ g < config.instanceWorldSize,
    (context e g).worldSize = config.instanceWorldSize
  globalRank : ∀ e < config.numEngines, ∀ g < config.instanceWorldSize, (context e g).globalRank = g
  rankInfo : ∀ e < config.numEngines, ∀ g < config.instanceWorldSize,
    getRankInfo config (context e g) e = .ok (rankInfo e g)

/-- The world size of the control side is that of the workers, and the transfer ranks are the
numbers below the total, in the numbering of both planners. -/
structure RankSpace (config : InferenceConfig) (params trainParams : List ParameterMeta)
    (rankInfo : ℕ → ℕ → RankInfo) (train : ℕ → RankInfo) (trainWorldSize : ℕ) : Prop where
  worldSize : config.inferWorldSize = config.numEngines * recordedWorldSize params
  total : config.inferWorldSize + trainWorldSize =
    recordedWorldSize trainParams + config.numEngines * recordedWorldSize params
  ranks : (List.range config.numEngines).flatMap (fun e => (List.range config.instanceWorldSize).map (fun g =>
      readerTransferRank params (rankInfo e g))) ++
    (List.range trainWorldSize).map (fun r => writerTransferRank config (train r)) =
      List.range (config.inferWorldSize + trainWorldSize)
  planners : ∀ strict, TransferPlanBuilder.init config.inferWorldSize trainWorldSize config.numEngines strict =
    TransferPlanBuilder.init (config.numEngines * recordedWorldSize params) trainWorldSize
      config.numEngines strict
  numbering : ∀ strict b, TransferPlanBuilder.init config.inferWorldSize trainWorldSize config.numEngines strict =
      .ok b → ∀ shard : ParameterShardMeta,
    (∀ e < config.numEngines, ∀ g < config.instanceWorldSize, shard.globalRank = g →
      b.computeShardTransferRank shard e true = .ok (readerTransferRank params (rankInfo e g))) ∧
    (∀ r < trainWorldSize, shard.globalRank = r →
      b.computeShardTransferRank shard 0 false = .ok (writerTransferRank config (train r)))

theorem getRankInfo_fields {config : InferenceConfig} {context : ModelContext} {engineRank : ℕ}
    {rankInfo : RankInfo} (h : getRankInfo config context engineRank = .ok rankInfo) :
    rankInfo.worldSize = context.worldSize ∧ rankInfo.globalRank = context.globalRank ∧
      rankInfo.engineRank = engineRank := by
  unfold getRankInfo at h
  split at h
  · unfold getSglangRankInfo at h
    dsimp only at h
    split_ifs at h <;> obtain rfl := Except.ok.inj h <;> exact ⟨rfl, rfl, rfl⟩
  · obtain rfl := Except.ok.inj h
    exact ⟨rfl, rfl, rfl⟩

theorem recordedWorldSize_eq {getShardingInfo : String → RankInfo → RawParamMeta → ShardingInfo}
    {raw : List RawRankMeta} {params : List ParameterMeta} {w : ℕ}
    (h : buildParamsMeta getShardingInfo raw = .ok params) (hne : params ≠ [])
    (hworld : ∀ rankMeta ∈ raw, rankMeta.rankInfo.worldSize = w) : recordedWorldSize params = w := by
  obtain ⟨p, ps, rfl⟩ := List.exists_cons_of_ne_nil hne
  obtain ⟨hshards, hreported⟩ := shard_reported h List.mem_cons_self
  obtain ⟨s, ss, hs⟩ := List.exists_cons_of_ne_nil hshards
  obtain ⟨rankMeta, hrank, paramMeta, _, _, hst⟩ := hreported s (by rw [hs]; exact List.mem_cons_self)
  have hsame : s.worldSize = rankMeta.rankInfo.worldSize := congrArg ParameterShardMeta.worldSize hst
  simp [recordedWorldSize, hs, hsame, hworld rankMeta hrank]

namespace InferenceConfig

variable {config : InferenceConfig}

theorem readerDpSize_eq (h : 0 < config.engineDpSize) : config.readerDpSize = config.engineDpSize :=
  Nat.max_eq_right h

theorem inferWorldSize_eq_iff (htp : 0 < config.tpSize) (hpp : 0 < config.ppSize) (hn : 0 < config.numEngines)
    (hdp : 0 < config.engineDpSize) :
    config.inferWorldSize = config.numEngines * config.instanceWorldSize ↔
      config.engineName = .vllm ∨ config.engineDpSize = 1 := by
  -- the reader counts data parallelism, which SGLang's instances do not
  have hassoc : config.inferWorldSize =
      config.numEngines * (config.tpSize * config.ppSize * config.engineDpSize) := by
    rw [inferWorldSize, readerDpSize_eq hdp]
    simp only [Nat.mul_assoc]
  rw [hassoc, Nat.mul_right_inj (by omega), instanceWorldSize]
  cases config.engineName with
  | vllm => simp
  | sglang =>
    have hpos : 0 < config.tpSize * config.ppSize := Nat.mul_pos htp hpp
    constructor
    · intro h
      right
      apply Nat.eq_of_mul_eq_mul_left hpos
      rw [h, Nat.mul_one]
    · rintro (h | h)
      · simp at h
      · rw [h, Nat.mul_one]

end InferenceConfig

/-- The world sizes and the transfer ranks of all parties agree iff the engine is vLLM or runs
without data parallelism. -/
theorem rank_space_iff {config : InferenceConfig} {context : ℕ → ℕ → ModelContext} {rankInfo : ℕ → ℕ → RankInfo}
    (hstarted : Started config context rankInfo)
    {getShardingInfo trainShardingInfo : String → RankInfo → RawParamMeta → ShardingInfo}
    {raw trainRaw : List RawRankMeta} {params trainParams : List ParameterMeta}
    (hraw : ∀ rankMeta ∈ raw, ∃ e < config.numEngines, ∃ g < config.instanceWorldSize,
      rankMeta.rankInfo = rankInfo e g)
    (hparams : buildParamsMeta getShardingInfo raw = .ok params) (hne : params ≠ [])
    {train : ℕ → RankInfo} {trainWorldSize : ℕ}
    (htrain : ∀ r < trainWorldSize, (train r).globalRank = r ∧ (train r).worldSize = trainWorldSize)
    (htrainRaw : ∀ rankMeta ∈ trainRaw, ∃ r < trainWorldSize, rankMeta.rankInfo = train r)
    (htrainParams : buildParamsMeta trainShardingInfo trainRaw = .ok trainParams) (htrainNe : trainParams ≠ []) :
    RankSpace config params trainParams rankInfo train trainWorldSize ↔
      config.engineName = .vllm ∨ config.engineDpSize = 1 := by
  have hfields : ∀ e < config.numEngines, ∀ g < config.instanceWorldSize,
      (rankInfo e g).worldSize = config.instanceWorldSize ∧ (rankInfo e g).globalRank = g ∧
        (rankInfo e g).engineRank = e := by
    intro e he g hg
    obtain ⟨hworld, hglobal, hengine⟩ := getRankInfo_fields (hstarted.rankInfo e he g hg)
    exact ⟨hworld.trans (hstarted.worldSize e he g hg), hglobal.trans (hstarted.globalRank e he g hg), hengine⟩
  have hrecorded : recordedWorldSize params = config.instanceWorldSize := by
    apply recordedWorldSize_eq hparams hne
    intro rankMeta hrank
    obtain ⟨e, he, g, hg, heq⟩ := hraw rankMeta hrank
    rw [heq]
    exact (hfields e he g hg).1
  have htrainRecorded : recordedWorldSize trainParams = trainWorldSize := by
    apply recordedWorldSize_eq htrainParams htrainNe
    intro rankMeta hrank
    obtain ⟨r, hr, heq⟩ := htrainRaw rankMeta hrank
    rw [heq]
    exact (htrain r hr).2
  rw [← config.inferWorldSize_eq_iff hstarted.tp hstarted.pp hstarted.engines hstarted.dp]
  constructor
  · intro hspace
    rw [hspace.worldSize, hrecorded]
  · intro hworld
    have hreader : ∀ e < config.numEngines, ∀ g < config.instanceWorldSize,
        readerTransferRank params (rankInfo e g) = e * config.instanceWorldSize + g := by
      intro e he g hg
      obtain ⟨_, hglobal, hengine⟩ := hfields e he g hg
      rw [readerTransferRank, hrecorded, hglobal, hengine]
    refine ⟨?_, ?_, ?_, ?_, ?_⟩
    · rw [hworld, hrecorded]
    · rw [hworld, hrecorded, htrainRecorded, Nat.add_comm]
    · have hinfer : (List.range config.numEngines).flatMap (fun e =>
          (List.range config.instanceWorldSize).map (fun g => readerTransferRank params (rankInfo e g))) =
          List.range config.inferWorldSize := by
        rw [hworld, ← range_mul]
        apply List.flatMap_congr
        intro e he
        apply List.map_congr_left
        intro g hg
        exact hreader e (List.mem_range.mp he) g (List.mem_range.mp hg)
      have hwriter : (List.range trainWorldSize).map (fun r => writerTransferRank config (train r)) =
          (List.range trainWorldSize).map (config.inferWorldSize + ·) := by
        apply List.map_congr_left
        intro r hr
        rw [writerTransferRank, (htrain r (List.mem_range.mp hr)).1]
      rw [hinfer, hwriter, List.range_add]
    · intro strict
      rw [hworld, hrecorded]
    · intro strict b hb shard
      unfold TransferPlanBuilder.init at hb
      rw [dif_pos hstarted.engines] at hb
      obtain rfl := Except.ok.inj hb
      constructor
      · intro e he g hg hrank
        rw [hreader e he g hg]
        simp [TransferPlanBuilder.computeShardTransferRank, TransferPlanBuilder.inferInstanceWorldSize, hworld,
          Nat.mul_div_cancel_left _ hstarted.engines, hrank, Nat.add_comm]
      · intro r hr hrank
        simp [TransferPlanBuilder.computeShardTransferRank, writerTransferRank, (htrain r hr).1, hrank,
          Nat.add_comm]

def pairContext (g : ℕ) : ModelContext where
  tpRank := g
  tpSize := 2
  ppRank := 0
  ppSize := 1
  dpSize := 1
  dpRank := 0
  epSize := none
  epRank := none
  epTpSize := none
  epTpRank := none
  attnTpRank := g
  attnTpSize := 2
  attnDpRank := 0
  worldSize := 2
  globalRank := g
  localRank := g

def pairConfig (dpSize : Option ℕ) : InferenceConfig := ⟨.sglang, 2, 1, dpSize, 1, true, 1⟩

def pairRankInfo (g : ℕ) : RankInfo :=
  { getVllmRankInfo (pairContext g) 0 with dpRank := 0 }

def pairRawMeta : List RawRankMeta :=
  (List.range 2).map (fun g => ⟨pairRankInfo g, [⟨"model.norm.weight", [2], 2, .torch .float32⟩]⟩)

def pairParams : List ParameterMeta :=
  (buildParamsMeta (getExpertShardingStrategy 0) pairRawMeta).toOption.getD []

theorem pairParams_eq : buildParamsMeta (getExpertShardingStrategy 0) pairRawMeta = .ok pairParams := rfl

theorem pair_started (dpSize : Option ℕ) (h : 0 < dpSize.getD 1) :
    Started (pairConfig dpSize) (fun _ => pairContext) (fun _ => pairRankInfo) := by
  refine ⟨Nat.two_pos, Nat.one_pos, Nat.one_pos, h, fun _ _ _ _ => rfl, fun _ _ _ _ => rfl, ?_⟩
  intro e he g _
  obtain rfl : e = 0 := Nat.lt_one_iff.mp he
  simp [getRankInfo, getSglangRankInfo, pairConfig, pairRankInfo, getVllmRankInfo, pairContext]

theorem pair_ranks : ∀ r < 2, (pairRankInfo r).globalRank = r ∧ (pairRankInfo r).worldSize = 2 :=
  fun _ _ => ⟨rfl, rfl⟩

theorem mem_pairRawMeta (rankMeta : RawRankMeta) (h : rankMeta ∈ pairRawMeta) :
    ∃ g < 2, rankMeta.rankInfo = pairRankInfo g := by
  obtain ⟨g, hg, rfl⟩ := List.mem_map.mp h
  exact ⟨g, List.mem_range.mp hg, rfl⟩

theorem rank_space_iff_pair :
    RankSpace (pairConfig none) pairParams pairParams (fun _ => pairRankInfo) pairRankInfo 2 :=
  (rank_space_iff (pair_started none Nat.one_pos)
    (fun rankMeta h => ⟨0, Nat.one_pos, mem_pairRawMeta rankMeta h⟩) pairParams_eq (by decide)
    pair_ranks mem_pairRawMeta pairParams_eq (by decide)).mpr (Or.inr rfl)

theorem data_parallel_ranks_counted : ¬ ∀ config context rankInfo getShardingInfo trainShardingInfo raw trainRaw
    params trainParams train trainWorldSize, Started config context rankInfo →
    (∀ rankMeta ∈ raw, ∃ e < config.numEngines, ∃ g < config.instanceWorldSize,
      rankMeta.rankInfo = rankInfo e g) →
    buildParamsMeta getShardingInfo raw = .ok params → params ≠ [] →
    (∀ r < trainWorldSize, (train r).globalRank = r ∧ (train r).worldSize = trainWorldSize) →
    (∀ rankMeta ∈ trainRaw, ∃ r < trainWorldSize, rankMeta.rankInfo = train r) →
    buildParamsMeta trainShardingInfo trainRaw = .ok trainParams → trainParams ≠ [] →
    RankSpace config params trainParams rankInfo train trainWorldSize := by
  intro h
  have hspace := h (pairConfig (some 2)) (fun _ => pairContext) (fun _ => pairRankInfo) _ _ pairRawMeta pairRawMeta
    pairParams pairParams pairRankInfo 2 (pair_started (some 2) Nat.two_pos)
    (fun rankMeta h => ⟨0, Nat.one_pos, mem_pairRawMeta rankMeta h⟩) pairParams_eq (by decide)
    pair_ranks mem_pairRawMeta pairParams_eq (by decide)
  exact absurd hspace.worldSize (by decide)

end Awex
