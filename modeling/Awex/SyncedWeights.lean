import Awex.AcceptedMeta
import Awex.Library.Simulation
import Awex.UpdateRun

namespace Awex

open Simulation

variable {α : Type}

/-- Each rank holds the tensors that it reported, under their names and with their shapes. -/
def Reported (raw : List RawRankMeta) (held : ℕ → Dict String Parameter) : Prop :=
  ∀ rankMeta ∈ raw, ∀ paramMeta ∈ rankMeta.paramsMeta,
    ∃ p, (held rankMeta.rankInfo.globalRank).get? paramMeta.name = some p ∧
      Strided.sizes p.dims = paramMeta.shape

/-- The metadata of the two sides, as each of them gathered it from its ranks and as the check of
the writer and the reader lets it pass. -/
structure PublishedMeta (b : TransferPlanBuilder)
    (getInferSharding getTrainSharding : String → RankInfo → RawParamMeta → ShardingInfo)
    (rawInfer rawTrain : List RawRankMeta) (infer train : List ParameterMeta) : Prop where
  infer_gathered : GatheredMeta getInferSharding rawInfer b.inferInstanceWorldSize infer
  train_gathered : GatheredMeta getTrainSharding rawTrain b.trainWorldSize train
  infer_consistent : ∀ m ∈ infer,
    Consistent ((shardInfos getInferSharding rawInfer).filter (fun s => s.name = m.name))
  train_consistent : ∀ m ∈ train,
    Consistent ((shardInfos getTrainSharding rawTrain).filter (fun s => s.name = m.name))
  accepted : checkTrainInferParamsMeta train infer true b.strictParamKeyMatch = .ok ()
  unaliased : ∀ m ∈ infer, ¬ InferOnlyAlias infer train m.name

/-- All engines load the model that the first one reported. -/
structure Loaded (b : TransferPlanBuilder) (rawInfer rawTrain : List RawRankMeta)
    (parameters : ℕ → Dict String Parameter) : Prop extends HeldTensors b parameters where
  train_reports : Reported rawTrain (fun k => parameters (k + b.inferWorldSize))
  infer_reports : ∀ e < b.numInferEngines, Reported rawInfer (fun k => parameters (k + e * b.inferInstanceWorldSize))

section PublishedMeta

variable {b : TransferPlanBuilder}
  {getInferSharding getTrainSharding : String → RankInfo → RawParamMeta → ShardingInfo}
  {rawInfer rawTrain : List RawRankMeta} {infer train : List ParameterMeta}

theorem GatheredMeta.reported_shard {getShardingInfo : String → RankInfo → RawParamMeta → ShardingInfo}
    {raw : List RawRankMeta} {worldSize : ℕ} {params : List ParameterMeta}
    (h : GatheredMeta getShardingInfo raw worldSize params) {held : ℕ → Dict String Parameter}
    (hheld : Reported raw held) {m : ParameterMeta} (hm : m ∈ params) {r : ParameterReplicaMeta}
    (hr : r ∈ m.replicas) {s : ParameterShardMeta} (hs : s ∈ r.shards) :
    ∃ p, (held s.globalRank).get? m.name = some p ∧ Strided.sizes p.dims = s.shape := by
  obtain ⟨info, shards, replicas, first, firstReplica, hfrom⟩ :=
    buildParamsMeta_resolved getShardingInfo raw params h.resolved m hm
  have hmem := hfrom.resolved.partition.mem_iff.mp (List.mem_flatMap.mpr ⟨r, hr, hs⟩)
  obtain ⟨rankMeta, hrank, paramMeta, hparam, hname, hshard⟩ := (shard_reported h.resolved hm).2 s hmem
  obtain ⟨p, hp, hdims⟩ := hheld rankMeta hrank paramMeta hparam
  have hglobal : s.globalRank = rankMeta.rankInfo.globalRank := congrArg ParameterShardMeta.globalRank hshard
  have hshape : s.shape = paramMeta.shape := congrArg ParameterShardMeta.shape hshard
  rw [hglobal, hshape, ← hname]
  exact ⟨p, hp, hdims⟩

theorem localPlan_exists (g : ℕ) (h : ∀ g', ∃ ops, buildWeightsMappingOperations b infer train g' = .ok ops) :
    ∃ plan, buildLocalTransferPlan b infer train g = .ok plan := by
  -- the last test of `build_local_transfer_plan` never fails
  obtain ⟨ops, hops⟩ := h (if countShards infer * b.numInferEngines + countShards train > pruneThreshold
    then some g else none)
  refine ⟨⟨groupOperationsByRank (ownOperations b g ops) (oppositeRank b g)⟩, ?_⟩
  rw [buildLocalTransferPlan, Except.bind_eq_ok]
  refine ⟨ops, hops, if_pos ?_⟩
  rw [List.all_eq_true]
  intro group hgroup
  obtain ⟨⟨k, group⟩, hentry, rfl⟩ := List.mem_map.mp hgroup
  have hget := (Dict.get?_eq_some _ k group).mpr hentry
  rw [get?_groupOperationsByRank] at hget
  split_ifs at hget
  obtain rfl := Option.some.inj hget
  rw [List.all_eq_true]
  intro op hop
  rw [List.mem_insertionSort] at hop
  exact (List.mem_filter.mp (List.mem_of_mem_filter hop)).2

variable (h : PublishedMeta b getInferSharding getTrainSharding rawInfer rawTrain infer train)
include h

theorem PublishedMeta.same_shape {name : String} {im tm : ParameterMeta} (hi : (metaDict infer).get? name = some im)
    (ht : (metaDict train).get? name = some tm) : im.globalShape = tm.globalShape :=
  (((checkTrainInferParamsMeta_ok_iff b infer train).mp h.accepted).2 name im tm hi ht).shape

theorem PublishedMeta.layout {name : String} {im tm : ParameterMeta} (hi : (metaDict infer).get? name = some im)
    (ht : (metaDict train).get? name = some tm) : Layout b name im tm := by
  obtain ⟨him, -⟩ := mem_metaDict hi
  obtain ⟨htm, rfl⟩ := mem_metaDict ht
  have hshape := h.same_shape hi ht
  have hri := h.infer_gathered.resolvedParam him
  have hrt := h.train_gathered.resolvedParam htm
  obtain ⟨-, hinfer⟩ := h.infer_gathered.consistent_dims him (h.infer_consistent im him)
  obtain ⟨hne, htrain⟩ := h.train_gathered.consistent_dims htm (h.train_consistent tm htm)
  constructor
  · exact List.length_pos_iff.mpr hne
  · exact hrt.names
  · intro r hr s hs
    exact ⟨hrt.offset_dims r hr s hs, (htrain r hr).2 s hs⟩
  · intro r hr
    exact (htrain r hr).1
  · intro r hr s hs
    rw [← hshape]
    exact ⟨hri.offset_dims r hr s hs, (hinfer r hr).2 s hs⟩
  · intro r hr s hs x hx
    rw [← hshape]
    exact (hinfer r hr).1.inside _ (List.mem_map_of_mem hs) x hx
  · exact hri.ranks
  · exact hri.in_world

theorem PublishedMeta.commonMetadata : CommonMetadata b infer train := by
  obtain ⟨hkeys, -⟩ := (checkTrainInferParamsMeta_ok_iff b infer train).mp h.accepted
  constructor
  · intro name
    constructor
    · intro hname
      obtain ⟨im, him, rfl⟩ := List.mem_map.mp hname
      obtain ⟨tm, ht⟩ := common_of_not_alias hkeys him (h.unaliased im him)
      obtain ⟨htm, hsame⟩ := mem_metaDict ht
      exact List.mem_map.mpr ⟨tm, htm, hsame⟩
    · intro hname
      have hmissing : (metaDict train).keys.filter (· ∉ (metaDict infer).keys) = [] := by
        by_contra hne
        unfold keyMismatch at hkeys
        rw [if_pos] at hkeys
        · cases hkeys
        · split_ifs
          · exact .inl hne
          · exact .inl hne
      have hkey := (mem_keys_metaDict train name).mpr hname
      by_contra hnot
      have hmem : name ∈ (metaDict train).keys.filter (· ∉ (metaDict infer).keys) := by
        apply List.mem_filter.mpr
        refine ⟨hkey, ?_⟩
        simpa using fun hin => hnot ((mem_keys_metaDict infer name).mp hin)
      rw [hmissing] at hmem
      cases hmem
  · intro name im tm hi ht
    exact h.layout hi ht

theorem PublishedMeta.planned : Planned b infer train := by
  obtain ⟨hkeys, -⟩ := (checkTrainInferParamsMeta_ok_iff b infer train).mp h.accepted
  have hshapes : ∀ im ∈ infer, ∀ tm ∈ train, im.name = tm.name → im.globalShape = tm.globalShape := by
    intro im him tm htm hname
    have hgett := h.train_gathered.get?_name htm
    rw [← hname] at hgett
    exact h.same_shape (h.infer_gathered.get?_name him) hgett
  apply plannable_planned h.infer_gathered h.train_gathered hkeys hshapes
  intro im him tm htm hname
  exact consistent_plannable h.infer_gathered h.train_gathered him htm (hshapes im him tm htm hname)
    (h.infer_consistent im him) (h.train_consistent tm htm)

theorem PublishedMeta.deployment {parameters : ℕ → Dict String Parameter}
    (hloaded : Loaded b rawInfer rawTrain parameters) :
    Deployment b infer train parameters := by
  refine ⟨hloaded.toHeldTensors, ?_, ?_, ?_, ?_⟩
  · intro name tm ht r hr s hs
    exact (h.train_gathered.resolvedParam (mem_metaDict ht).1).in_world r hr s hs
  · intro name tm ht r hr s hs
    obtain ⟨htm, rfl⟩ := mem_metaDict ht
    rw [(h.train_gathered.resolvedParam htm).names r hr s hs]
    exact h.train_gathered.reported_shard hloaded.train_reports htm hr hs
  · intro name im hi r hr s hs
    obtain ⟨him, rfl⟩ := mem_metaDict hi
    exact (h.infer_gathered.resolvedParam him).names r hr s hs
  · intro name im hi e he r hr s hs
    obtain ⟨him, rfl⟩ := mem_metaDict hi
    rw [(h.infer_gathered.resolvedParam him).names r hr s hs]
    exact h.infer_gathered.reported_shard (hloaded.infer_reports e he) him hr hs

end PublishedMeta

/-- The value of every parameter at every index, as one training step leaves it. -/
abbrev Weights (α : Type) := String → List ℕ → α

def elementIndex (s : ParameterShardMeta) (x : List ℕ) : List ℕ := List.zipWith (· + ·) s.globalOffset x

/-- Every training rank holds its part of `W`. -/
def Trained (b : TransferPlanBuilder) (train : List ParameterMeta) (parameters : ℕ → Dict String Parameter)
    (memory : ℕ → Memory α) (W : Weights α) : Prop :=
  ∀ tm ∈ train, ∀ r ∈ tm.replicas, ∀ s ∈ r.shards, ∀ p,
    (parameters (s.globalRank + b.inferWorldSize)).get? tm.name = some p → ∀ x ∈ Box.origin s.shape,
      (memory (s.globalRank + b.inferWorldSize)).cells (p.training.locate x) = W tm.name (elementIndex s x)

/-- Inference rank `r` holds its part of `W`. -/
def Serves (b : TransferPlanBuilder) (infer : List ParameterMeta) (parameters : ℕ → Dict String Parameter)
    (r : ℕ) (memory : Memory α) (W : Weights α) : Prop :=
  ∀ im ∈ infer, ∀ e < b.numInferEngines, ∀ replica ∈ im.replicas, ∀ s ∈ replica.shards,
    r = s.globalRank + e * b.inferInstanceWorldSize →
      ∃ q, (parameters r).get? im.name = some q ∧ q.inference.shape = s.shape ∧
        ∀ x ∈ Box.origin s.shape, memory.cells (q.inference.locate x) = W im.name (elementIndex s x)

/-- `train` is everything that happens on the training ranks between two updates, up to the
conversion of their weights; `release` is what an engine does to the memory of its weights. -/
inductive SyncEvent (α : Type) where
  | train (weights : Weights α)
  | release (rank : ℕ)
  | update

inductive SyncStep (cast : Dtype → Dtype → α → α) (b : TransferPlanBuilder) (train : List ParameterMeta)
    (plan : ℕ → TransferPlan) (parameters : ℕ → Dict String Parameter) :
    (ℕ → Memory α) → SyncEvent α → (ℕ → Memory α) → Prop where
  | train (memory memory' : ℕ → Memory α) (W : Weights α) (hkept : ∀ r < b.inferWorldSize, memory' r = memory r)
      (htrained : Trained b train parameters memory' W) :
      SyncStep cast b train plan parameters memory (.train W) memory'
  | release (memory memory' : ℕ → Memory α) (r : ℕ) (hr : r < b.inferWorldSize)
      (hkept : ∀ k, k ≠ r → memory' k = memory k) :
      SyncStep cast b train plan parameters memory (.release r) memory'
  | update (memory memory' : ℕ → Memory α)
      (hinfer : ∀ r < b.inferWorldSize, UpdateRun cast b plan parameters memory r (memory' r))
      (htrain : ∀ t, b.inferWorldSize ≤ t → t < b.worldSize → ∃ sent : SendOps α,
        ncclBuildSendOps (parameters t) (plan t) (-1) true (memory t) = .ok sent ∧
          memory' t = sent.workspace.memory) :
      SyncStep cast b train plan parameters memory .update memory'

/-- What an update is for: the engines serve what was trained last. A rank that released its
weights serves none until the next update. -/
structure ServedState (α : Type) where
  trained : Weights α
  served : ℕ → Option (Weights α)

def ServedState.next (s : ServedState α) : SyncEvent α → ServedState α
  | .train W => { s with trained := W }
  | .release r => { s with served := Function.update s.served r none }
  | .update => { s with served := fun _ => some s.trained }

def Represents (b : TransferPlanBuilder) (infer train : List ParameterMeta) (parameters : ℕ → Dict String Parameter)
    (memory : ℕ → Memory α) (s : ServedState α) : Prop :=
  Trained b train parameters memory s.trained ∧
    ∀ r < b.inferWorldSize, ∀ W, s.served r = some W → Serves b infer parameters r (memory r) W

section Sync

variable {b : TransferPlanBuilder} {infer train : List ParameterMeta} {plan : ℕ → TransferPlan}
  {parameters : ℕ → Dict String Parameter} (cast : Dtype → Dtype → α → α) (hmeta : CommonMetadata b infer train)
  (hplan : ∀ g < b.worldSize, buildLocalTransferPlan b infer train g = .ok (plan g))
  (hdeploy : Deployment b infer train parameters)
include hmeta hplan hdeploy

theorem update_step_exists (memory : ℕ → Memory α) :
    ∃ memory', SyncStep cast b train plan parameters memory .update memory' := by
  obtain ⟨sent, hsent⟩ := sends_posted hmeta hplan hdeploy memory
  have hfinal : ∀ r, ∃ final, r < b.inferWorldSize → UpdateRun cast b plan parameters memory r final := by
    intro r
    by_cases hr : r < b.inferWorldSize
    · obtain ⟨final, hrun⟩ := updateRun_exists cast hmeta hplan hdeploy memory hr
      exact ⟨final, fun _ => hrun⟩
    · exact ⟨memory r, fun h => absurd h hr⟩
  choose final hfinal using hfinal
  refine ⟨fun r => if r < b.inferWorldSize then final r else (sent r).workspace.memory, .update _ _ ?_ ?_⟩
  · intro r hr
    rw [if_pos hr]
    exact hfinal r hr
  · intro t ht htw
    refine ⟨sent t, (hsent t ht htw).built, ?_⟩
    rw [if_neg (by omega)]

variable {cast} {memory memory' : ℕ → Memory α} {W : Weights α}
  (hi : ∀ im ∈ infer, (metaDict infer).get? im.name = some im)
  (ht : ∀ tm ∈ train, (metaDict train).get? tm.name = some tm)
include ht

theorem Trained.of_sends (h : Trained b train parameters memory W)
    (htrain : ∀ t, b.inferWorldSize ≤ t → t < b.worldSize → ∃ sent : SendOps α,
      ncclBuildSendOps (parameters t) (plan t) (-1) true (memory t) = .ok sent ∧
        memory' t = sent.workspace.memory) : Trained b train parameters memory' W := by
  intro tm htm r hr s hs p hp x hx
  have hrank := hdeploy.train_rank tm.name tm (ht tm htm) r hr s hs
  have hworld : s.globalRank + b.inferWorldSize < b.worldSize := by
    unfold TransferPlanBuilder.worldSize
    omega
  obtain ⟨sent, hsent, hmemory⟩ := htrain _ (Nat.le_add_left _ _) hworld
  obtain ⟨sent', hsent'⟩ := sends_posted hmeta hplan hdeploy memory
  have hposted := hsent' _ (Nat.le_add_left _ _) hworld
  obtain rfl := Except.ok.inj (hsent.symm.trans hposted.built)
  rw [hmemory, hposted.extends_memory.cells_eq]
  · exact h tm htm r hr s hs p hp x hx
  · intro n hn
    cases hn

include hi in
theorem UpdateRun.serves {r : ℕ} {final : Memory α} (hrun : UpdateRun cast b plan parameters memory r final)
    (hr : r < b.inferWorldSize) (h : Trained b train parameters memory W) :
    Serves b infer parameters r final W := by
  have hupdated := hrun.updated hmeta hplan hdeploy hr
  rintro im him e he replica hreplica s hs rfl
  obtain ⟨tm, htm, hname⟩ := List.mem_map.mp ((hmeta.names im.name).mp (List.mem_map_of_mem him))
  have hgeti := hi im him
  have hgett := ht tm htm
  rw [hname] at hgett
  obtain ⟨q, hq, hshape⟩ := hdeploy.infer_shard im.name im hgeti e he replica hreplica s hs
  rw [hdeploy.infer_name im.name im hgeti replica hreplica s hs] at hq
  refine ⟨q, hq, hshape, ?_⟩
  intro x hx
  obtain ⟨⟨s', x', hsource⟩, helement⟩ :=
    hupdated.elements im.name im tm hgeti hgett e he replica hreplica s hs rfl x hx
  obtain ⟨p, q', hp, hq', hcells⟩ := helement s' x' hsource
  obtain rfl := Option.some.inj (hq.symm.trans hq')
  obtain ⟨i, r, t, -, htrain, -, hs'⟩ := hsource.assigned
  rw [← hname] at hp ⊢
  rw [hcells, h tm htm t (List.mem_of_getElem? htrain) s' hs' p hp x' hsource.inside]
  exact congrArg (W tm.name) hsource.same_index

include hi in
theorem syncStep_simulates : Simulates (SyncStep cast b train plan parameters) ServedState.next
    (Represents (α := α) b infer train parameters) := by
  rintro memory event memory' s ⟨htrained, hserves⟩ hstep
  cases hstep with
  | train _ W hkept htrained' =>
    refine ⟨htrained', ?_⟩
    intro r hr W' hW'
    rw [hkept r hr]
    exact hserves r hr W' hW'
  | release _ r hr hkept =>
    constructor
    · intro tm htm replica hreplica sh hsh p hp x hx
      rw [hkept _ (by omega)]
      exact htrained tm htm replica hreplica sh hsh p hp x hx
    · intro k hk W hW
      obtain rfl | hne := eq_or_ne k r
      · simp [ServedState.next] at hW
      · rw [hkept k hne]
        simp only [ServedState.next, Function.update_of_ne hne] at hW
        exact hserves k hk W hW
  | update _ hinfer htrain =>
    constructor
    · exact htrained.of_sends hmeta hplan hdeploy ht htrain
    · intro r hr W hW
      obtain rfl := Option.some.inj hW
      exact (hinfer r hr).serves hmeta hplan hdeploy hi ht hr htrained

end Sync

theorem PublishedMeta.simulates {cast : Dtype → Dtype → α → α} {b : TransferPlanBuilder}
    {getInferSharding getTrainSharding : String → RankInfo → RawParamMeta → ShardingInfo}
    {rawInfer rawTrain : List RawRankMeta} {infer train : List ParameterMeta}
    {parameters : ℕ → Dict String Parameter} {plan : ℕ → TransferPlan}
    (hpublished : PublishedMeta b getInferSharding getTrainSharding rawInfer rawTrain infer train)
    (hloaded : Loaded b rawInfer rawTrain parameters)
    (hplan : ∀ g < b.worldSize, buildLocalTransferPlan b infer train g = .ok (plan g)) :
    Simulates (SyncStep cast b train plan parameters) ServedState.next
      (Represents (α := α) b infer train parameters) := by
  apply syncStep_simulates hpublished.commonMetadata hplan (hpublished.deployment hloaded)
  · intro im him
    exact hpublished.infer_gathered.get?_name him
  · intro tm htm
    exact hpublished.train_gathered.get?_name htm

/-- From the reports of the ranks on, an update always has a run, and all runs leave the engines
with the weights that were trained last. -/
theorem engines_serve_trained (cast : Dtype → Dtype → α → α) (b : TransferPlanBuilder)
    (getInferSharding getTrainSharding : String → RankInfo → RawParamMeta → ShardingInfo)
    (rawInfer rawTrain : List RawRankMeta) (infer train : List ParameterMeta)
    (parameters : ℕ → Dict String Parameter)
    (hpublished : PublishedMeta b getInferSharding getTrainSharding rawInfer rawTrain infer train)
    (hloaded : Loaded b rawInfer rawTrain parameters) :
    ∃ plan, (∀ g < b.worldSize, buildLocalTransferPlan b infer train g = .ok (plan g)) ∧
      (∀ memory : ℕ → Memory α, ∃ memory', SyncStep cast b train plan parameters memory .update memory') ∧
      ∀ (memory memory' : ℕ → Memory α) (s : ServedState α) (events : List (SyncEvent α)),
        Represents b infer train parameters memory s →
          Trace (SyncStep cast b train plan parameters) memory events memory' →
            Represents b infer train parameters memory' (events.foldl ServedState.next s) := by
  have hmeta := hpublished.commonMetadata
  have hdeploy := hpublished.deployment hloaded
  choose plan hplan using fun g => localPlan_exists (b := b) g hpublished.planned.no_error
  have hplan' : ∀ g < b.worldSize, buildLocalTransferPlan b infer train g = .ok (plan g) := fun g _ => hplan g
  refine ⟨plan, hplan', update_step_exists cast hmeta hplan' hdeploy, ?_⟩
  intro memory memory' s events hrepresents htrace
  exact (hpublished.simulates hloaded hplan').trace htrace hrepresents

def halvedParameters (transferRank : ℕ) : Dict String Parameter :=
  Dict.ofList [("mlp.up_proj.weight",
    ⟨0, 0, Strided.rowMajor (if transferRank = 4 then [4, 3] else [2, 3]), .bfloat16⟩)]

def halvedMemory (transferRank : ℕ) : Memory ℕ := ⟨fun a => 10 * transferRank + a.2, 0⟩

def halvedInfer : List ParameterMeta := tensorParallelParams "mlp.up_proj.weight" [2, 3] 2 true

def halvedTrain : List ParameterMeta := tensorParallelParams "mlp.up_proj.weight" [4, 3] 1 false

theorem halved_published {b : TransferPlanBuilder} (hinfer : b.inferInstanceWorldSize = 2)
    (htrain : b.trainWorldSize = 1) (hkeys : b.strictParamKeyMatch = false) :
    PublishedMeta b (getExpertShardingStrategy 0) (getExpertShardingStrategy 0)
      (tensorParallelRaw "mlp.up_proj.weight" [2, 3] 2 true) (tensorParallelRaw "mlp.up_proj.weight" [4, 3] 1 false)
      halvedInfer halvedTrain := by
  have hinferRanks : ∀ rankMeta ∈ tensorParallelRaw "mlp.up_proj.weight" [2, 3] 2 true,
      rankMeta.rankInfo.globalRank < 2 := by decide
  have htrainRanks : ∀ rankMeta ∈ tensorParallelRaw "mlp.up_proj.weight" [4, 3] 1 false,
      rankMeta.rankInfo.globalRank < 1 := by decide
  have haccepted : checkTrainInferParamsMeta halvedTrain halvedInfer true false = .ok () := rfl
  refine ⟨⟨rfl, by decide, by decide, hinfer ▸ hinferRanks⟩, ⟨rfl, by decide, by decide, htrain ▸ htrainRanks⟩, ?_, ?_,
    hkeys ▸ haccepted, ?_⟩
  · intro m _
    apply consistent_of_same_shape _ [2, 3] (.tpSharding, 0, 2) _ (by decide)
    have hsame : ∀ s ∈ shardInfos (getExpertShardingStrategy 0)
        (tensorParallelRaw "mlp.up_proj.weight" [2, 3] 2 true),
        s.shape = [2, 3] ∧ (s.shardingType, s.shardingDim, s.numShards) = (.tpSharding, 0, 2) := by
      decide
    exact fun s hs => hsame s (List.mem_of_mem_filter hs)
  · intro m _
    apply consistent_of_same_shape _ [4, 3] (.noSharding, 0, 1) _ (by decide)
    have hsame : ∀ s ∈ shardInfos (getExpertShardingStrategy 0)
        (tensorParallelRaw "mlp.up_proj.weight" [4, 3] 1 false),
        s.shape = [4, 3] ∧ (s.shardingType, s.shardingDim, s.numShards) = (.noSharding, 0, 1) := by
      decide
    exact fun s hs => hsame s (List.mem_of_mem_filter hs)
  · rintro m hm ⟨hnot, -⟩
    apply hnot
    have hname : ∀ m ∈ halvedInfer, m.name ∈ (metaDict halvedTrain).keys := by
      decide
    exact hname m hm

theorem halvedParameters_get? {transferRank : ℕ} {name : String} {p : Parameter}
    (h : (halvedParameters transferRank).get? name = some p) :
    name = "mlp.up_proj.weight" ∧ p.dtype = .bfloat16 ∧ p.inference.IsContiguous := by
  have hget : (halvedParameters transferRank).get? name = if "mlp.up_proj.weight" = name then
      (halvedParameters transferRank).get? "mlp.up_proj.weight" else none := rfl
  rw [hget] at h
  split_ifs at h with hname
  obtain rfl := Option.some.inj h
  refine ⟨hname.symm, rfl, .inr ?_⟩
  dsimp only [Parameter.inference]
  split_ifs <;> rfl

theorem halved_loaded : Loaded halvedBuilder (tensorParallelRaw "mlp.up_proj.weight" [2, 3] 2 true)
    (tensorParallelRaw "mlp.up_proj.weight" [4, 3] 1 false) halvedParameters := by
  refine ⟨heldTensors_single fun rank name p hp => halvedParameters_get? hp, ?_, ?_⟩
  · intro rankMeta hrank paramMeta hparam
    obtain rfl := List.mem_singleton.mp hrank
    obtain rfl := List.mem_singleton.mp hparam
    exact ⟨_, rfl, rfl⟩
  · intro e he rankMeta hrank paramMeta hparam
    have hreports : ∀ e < halvedBuilder.numInferEngines,
        ∀ rankMeta ∈ tensorParallelRaw "mlp.up_proj.weight" [2, 3] 2 true, ∀ paramMeta ∈ rankMeta.paramsMeta,
          ((halvedParameters (rankMeta.rankInfo.globalRank + e * halvedBuilder.inferInstanceWorldSize)).get?
            paramMeta.name).map (fun p => Strided.sizes p.dims) = some paramMeta.shape := by
      decide
    exact Option.map_eq_some_iff.mp (hreports e he rankMeta hrank paramMeta hparam)

theorem halved_trained : Trained halvedBuilder halvedTrain halvedParameters halvedMemory
    (fun _ index => 40 + Strided.distance (Strided.rowMajor [4, 3]) index) := by
  have hwhole : ∀ tm ∈ halvedTrain, ∀ r ∈ tm.replicas, ∀ s ∈ r.shards,
      s.globalRank = 0 ∧ s.globalOffset = [0, 0] ∧ s.shape = [4, 3] ∧ tm.name = "mlp.up_proj.weight" := by
    decide
  intro tm htm r hr s hs p hp x hx
  obtain ⟨hrank, hoffset, hshape, hname⟩ := hwhole tm htm r hr s hs
  rw [hrank, hname] at hp
  obtain rfl := Option.some.inj hp
  rw [hshape] at hx
  rw [hrank, elementIndex, hoffset]
  have hindices : ∀ x ∈ Box.indices [4, 3], List.zipWith (· + ·) [0, 0] x = x := by
    decide
  rw [hindices x ((Box.mem_indices _ x).mpr hx)]
  exact congrArg (40 + ·) (Nat.zero_add _)

theorem halved_serves {memory : Memory ℕ} {W : Weights ℕ}
    (h : Serves halvedBuilder halvedInfer halvedParameters 3 memory W) :
    memory.cells (.inference 0, 5) = W "mlp.up_proj.weight" [3, 2] := by
  have hshard : ∃ im ∈ halvedInfer, ∃ replica ∈ im.replicas, ∃ s ∈ replica.shards,
      s.globalRank = 1 ∧ s.shape = [2, 3] ∧ im.name = "mlp.up_proj.weight" ∧ elementIndex s [1, 2] = [3, 2] := by
    decide
  obtain ⟨im, him, replica, hreplica, s, hs, hrank, hshape, hname, hindex⟩ := hshard
  obtain ⟨q, hq, -, helements⟩ := h im him 1 (by decide) replica hreplica s hs (by rw [hrank]; rfl)
  rw [hname] at hq
  obtain rfl := Option.some.inj hq
  rw [hshape] at helements
  have hvalue := helements [1, 2] (by decide)
  rw [hindex, hname] at hvalue
  exact hvalue

theorem engines_serve_trained_halved : ∃ (plan : ℕ → TransferPlan) (memory' : ℕ → Memory ℕ),
    (∀ g < halvedBuilder.worldSize, buildLocalTransferPlan halvedBuilder halvedInfer halvedTrain g = .ok (plan g)) ∧
      SyncStep (fun _ _ a => a) halvedBuilder halvedTrain plan halvedParameters halvedMemory .update memory' ∧
      (memory' 3).cells (.inference 0, 5) = 51 := by
  obtain ⟨plan, hplan, hexists, hrun⟩ := engines_serve_trained (α := ℕ) (fun _ _ a => a) halvedBuilder _ _ _ _
    halvedInfer halvedTrain halvedParameters (halved_published rfl rfl rfl) halved_loaded
  obtain ⟨memory', hstep⟩ := hexists halvedMemory
  obtain ⟨-, hserves⟩ := hrun halvedMemory memory' ⟨_, fun _ => none⟩ [.update]
    ⟨halved_trained, fun _ _ _ h => by cases h⟩ (.cons hstep (.nil _))
  exact ⟨plan, memory', hplan, hstep, halved_serves (hserves 3 (by decide) _ rfl)⟩

end Awex
