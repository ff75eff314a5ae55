import Awex.McoreConverter
import Awex.MetaTiling

namespace Awex

open Box Text

def defaultParameterShardingDimensions : List (String × ℕ) :=
  [("word_embeddings.weight", 0), ("lm_head.weight", 0), ("query_key_value.weight", 0), ("q_proj.weight", 0),
    ("k_proj.weight", 0), ("v_proj.weight", 0), ("g_proj.weight", 0), ("q_a_proj.weight", 0), ("q_b_proj.weight", 0),
    ("kv_a_proj_with_mqa.weight", 0), ("kv_b_proj.weight", 0), ("fused_qkv_a_proj_with_mqa.weight", 0),
    ("dense.weight", 1), ("o_proj.weight", 1), ("g_norm.weight", 0), ("query_key_value.bias", 0), ("q_proj.bias", 0),
    ("k_proj.bias", 0), ("v_proj.bias", 0), ("dense.bias", 0), ("experts.w13_weight", 0), ("experts.w2_weight", 1),
    ("gate_up_proj.weight", 0), ("gate_proj.weight", 0), ("up_proj.weight", 0), ("down_proj.weight", 1),
    ("gate_up_proj.bias", 0), ("gate_proj.bias", 0), ("up_proj.bias", 0), ("down_proj.bias", 0)]

def defaultShardingDimOf (key : Name) : Option ℕ :=
  (defaultParameterShardingDimensions.find? (fun (name, _) => name.toList = key)).map Prod.snd

def getDefaultShardingDim (paramName : Name) : ℕ :=
  match (components (replaceAll "_scale_inv" "" paramName)).reverse with
  | [] => 0
  | [last] => (defaultShardingDimOf last).getD 0
  | last :: previous :: _ =>
    ((defaultShardingDimOf (previous ++ '.' :: last)).or (defaultShardingDimOf last)).getD 0

namespace LinearMLASharding

def replicatedParams : List String :=
  ["attention.kv_a_proj_with_mqa.weight", "attention.q_a_proj.weight", "attention.fused_qkv_a_proj_with_mqa.weight",
    "attention.kv_a_layernorm.weight", "attention.q_a_layernorm.weight"]

/-- `rankInfo` is the rank for which the strategy was built. -/
def getShardingStrategy (rankInfo : RankInfo) (superStrategy : String → RankInfo → RawParamMeta → ShardingInfo)
    (parameterName : String) (rank : RankInfo) (paramMeta : RawParamMeta) : ShardingInfo :=
  if ∃ key ∈ replicatedParams, Occurs key parameterName.toList then
    (.noSharding, getDefaultShardingDim parameterName.toList, 1)
  else if Occurs "attention.g_norm.weight" parameterName.toList then
    if 1 < rankInfo.tpSize then (.tpSharding, getDefaultShardingDim parameterName.toList, rankInfo.tpSize)
    else (.noSharding, getDefaultShardingDim parameterName.toList, 1)
  else superStrategy parameterName rank paramMeta

end LinearMLASharding

section Unsharded

variable {getShardingInfo : String → RankInfo → RawParamMeta → ShardingInfo} {raw : List RawRankMeta}
  {params : List ParameterMeta} {p : ParameterMeta}

structure OneShard (raw : List RawRankMeta) (name : String) (replica : ParameterReplicaMeta)
    (shard : ParameterShardMeta) : Prop where
  shards : replica.shards = [shard]
  reported : ∃ rankMeta ∈ raw, ∃ paramMeta ∈ rankMeta.paramsMeta, paramMeta.name = name ∧
    shard.name = name ∧ shard.shape = paramMeta.shape
  offset : ∃ numDims, shard.globalOffset = List.replicate numDims 0

theorem unsharded_replicas (h : buildParamsMeta getShardingInfo raw = .ok params) (hp : p ∈ params)
    (hunsharded : ∀ rank paramMeta, paramMeta.name = p.name →
      (getShardingInfo p.name rank paramMeta).1 = .noSharding) :
    p.replicas ≠ [] ∧ ∀ replica ∈ p.replicas, ∃ shard, OneShard raw p.name replica shard := by
  obtain ⟨info, shards, replicas, first, firstReplica, hinfo, hshards, hbuild, hres⟩ :=
    buildParamsMeta_resolved getShardingInfo raw params h p hp
  have hnoSharding : info.1 = .noSharding := by
    obtain ⟨t, ht, heq⟩ := List.mem_map.mp (Dict.mem_of_get?_ofList _ _ _ hinfo)
    obtain ⟨hname, rfl⟩ := Prod.mk.inj heq
    obtain ⟨rankMeta, -, ht⟩ := List.mem_flatMap.mp ht
    obtain ⟨paramMeta, -, rfl⟩ := List.mem_map.mp ht
    have hname : paramMeta.name = p.name := hname
    have := hunsharded rankMeta.rankInfo paramMeta hname
    rw [← hname] at this
    exact this
  rw [buildReplicas, if_pos hnoSharding] at hbuild
  obtain rfl := Except.ok.inj hbuild
  rw [hres.replicas_eq]
  constructor
  · intro hnil
    have hhead := hres.replica_head
    rw [List.map_eq_nil_iff.mp hnil] at hhead
    cases hhead
  · intro replica hreplica
    obtain ⟨objects, hobjects, rfl⟩ := List.mem_map.mp hreplica
    obtain ⟨object, hobject, rfl⟩ := List.mem_map.mp hobjects
    have hmem := mem_shardObjects hobject
    rw [collected_eq hshards, List.mem_filter] at hmem
    obtain ⟨hmem, hname⟩ := hmem
    obtain ⟨rankMeta, hrank, hmem⟩ := List.mem_flatMap.mp hmem
    obtain ⟨paramMeta, hparam, heq⟩ := List.mem_map.mp hmem
    have hname : object.shard.name = p.name := of_decide_eq_true hname
    refine ⟨_, rfl, ⟨rankMeta, hrank, paramMeta, hparam, ?_, hname, ?_⟩, first.shape.length, axisOffset_zero ..⟩
    · rw [← hname, ← heq]
      rfl
    · dsimp only
      rw [← heq]
      rfl

end Unsharded

end Awex
