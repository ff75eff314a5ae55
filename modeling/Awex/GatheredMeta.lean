import Awex.MetaTiling
import Awex.PlanCoverage

namespace Awex

structure GatheredMeta (getShardingInfo : String → RankInfo → RawParamMeta → ShardingInfo)
    (raw : List RawRankMeta) (worldSize : ℕ) (params : List ParameterMeta) : Prop where
  resolved : buildParamsMeta getShardingInfo raw = .ok params
  nonempty : params ≠ []
  once : (raw.flatMap (fun rankMeta =>
    rankMeta.paramsMeta.map (fun paramMeta => (rankMeta.rankInfo.globalRank, paramMeta.name)))).Nodup
  in_world : ∀ rankMeta ∈ raw, rankMeta.rankInfo.globalRank < worldSize

/-- What planning relies on about a resolved parameter. Nothing here says that the shapes of the
shards fit together. -/
structure ResolvedParam (worldSize : ℕ) (m : ParameterMeta) : Prop where
  replicas_ne : m.replicas ≠ []
  shards_ne : ∀ r ∈ m.replicas, r.shards ≠ []
  offset_dims : ∀ r ∈ m.replicas, ∀ s ∈ r.shards, s.globalOffset.length = m.globalShape.length
  names : ∀ r ∈ m.replicas, ∀ s ∈ r.shards, s.name = m.name
  ranks : ((m.replicas.flatMap (·.shards)).map (·.globalRank)).Nodup
  in_world : ∀ r ∈ m.replicas, ∀ s ∈ r.shards, s.globalRank < worldSize

theorem replicaGroup_length {rankToShards : Dict ℕ (List ShardObject)} {i : ℕ} {replica : List ShardObject}
    (h : replicaGroup rankToShards i = .ok replica) : replica.length = rankToShards.keys.length := by
  obtain ⟨row, hrow, h⟩ := Except.bind_eq_ok.mp h
  obtain rfl := Except.ok.inj h
  rw [sortByTpRank, List.length_insertionSort, ← (Except.mapM_eq_ok.mp hrow).length_eq,
    List.length_insertionSort]

theorem groupReplicas_nonempty {name key : String} {axis : ParameterShardMeta → ℕ}
    {objects : List ShardObject} {replicas : List (List ShardObject)}
    (h : groupReplicas name key axis objects = .ok replicas) {r : List ShardObject} (hr : r ∈ replicas) :
    r ≠ [] := by
  unfold groupReplicas at h
  dsimp only at h
  split at h
  · simp at h
  · rename_i count counts hcounts
    split_ifs at h with hall
    obtain ⟨i, -, hi⟩ := exists_of_forall₂_mem_right (Except.mapM_eq_ok.mp h) hr
    have hlength := congrArg List.length hcounts
    rw [List.length_map, Dict.values, List.length_map, List.length_cons] at hlength
    apply List.ne_nil_of_length_pos
    rw [replicaGroup_length hi, Dict.keys, List.length_map]
    omega

theorem buildReplicas_nonempty {name : String} {info : ShardingInfo} {objects : List ShardObject}
    {replicas : List (List ShardObject)} (h : buildReplicas name info objects = .ok replicas)
    (hne : objects ≠ []) {r : List ShardObject} (hr : r ∈ replicas) : r ≠ [] := by
  unfold buildReplicas at h
  split_ifs at h with h1 h2
  · obtain rfl := Except.ok.inj h
    obtain ⟨o, -, rfl⟩ := List.mem_map.mp hr
    exact List.cons_ne_nil o []
  · obtain rfl := Except.ok.inj h
    rwa [List.mem_singleton.mp hr]
  · split at h
    · simp at h
    · exact groupReplicas_nonempty h hr

theorem placed_of_mem {numDims dim c : ℕ} {ss : List ParameterShardMeta} {s : ParameterShardMeta}
    (h : s ∈ placed numDims dim c ss) :
    ∃ t ∈ ss, ∃ offset : List ℕ, offset.length = numDims ∧ s = { t with globalOffset := offset } := by
  obtain ⟨ys, t, zs, rfl, rfl⟩ := (mem_placed numDims dim c ss s).mp h
  exact ⟨t, by simp, _, by simp [Box.axisOffset], rfl⟩

theorem globalShape_length {numDims dim : ℕ} {replica : List ShardObject} {out : List ℕ}
    (h : globalShape numDims dim replica = .ok out) : out.length = numDims := by
  rw [← (Except.mapM_eq_ok.mp h).length_eq, List.length_range]

section Gathered

variable {getShardingInfo : String → RankInfo → RawParamMeta → ShardingInfo} {raw : List RawRankMeta}
  {worldSize : ℕ} {params : List ParameterMeta} (h : GatheredMeta getShardingInfo raw worldSize params)
include h

theorem GatheredMeta.names_nodup : (params.map (·.name)).Nodup := by
  rw [buildParamsMeta_names _ _ _ h.resolved]
  exact (paramShards getShardingInfo raw).nodup

theorem GatheredMeta.get?_name {m : ParameterMeta} (hm : m ∈ params) :
    (metaDict params).get? m.name = some m := by
  apply Dict.get?_ofList_of_nodup
  · rw [List.map_map]
    exact h.names_nodup
  · exact List.mem_map_of_mem hm

theorem GatheredMeta.ranks_nodup (name : String) :
    (((shardInfos getShardingInfo raw).filter (fun s => s.name = name)).map (·.globalRank)).Nodup := by
  have hpairs : (shardInfos getShardingInfo raw).map (fun s => (s.globalRank, s.name)) =
      raw.flatMap (fun rankMeta =>
        rankMeta.paramsMeta.map (fun paramMeta => (rankMeta.rankInfo.globalRank, paramMeta.name))) := by
    rw [shardInfos, List.map_flatMap]
    simp only [List.map_map]
    rfl
  have hsublist : (((shardInfos getShardingInfo raw).filter (fun s => s.name = name)).map
      (fun s => (s.globalRank, s.name))).Sublist
      ((shardInfos getShardingInfo raw).map (fun s => (s.globalRank, s.name))) :=
    List.filter_sublist.map _
  have hsame : ((shardInfos getShardingInfo raw).filter (fun s => s.name = name)).map
      (fun s => (s.globalRank, s.name)) =
      (((shardInfos getShardingInfo raw).filter (fun s => s.name = name)).map (·.globalRank)).map
        (fun k => (k, name)) := by
    rw [List.map_map]
    apply List.map_congr_left
    intro s hs
    have hname : s.name = name := by simpa using (List.mem_filter.mp hs).2
    rw [hname]
    rfl
  rw [hpairs, hsame] at hsublist
  exact (h.once.sublist hsublist).of_map _

theorem GatheredMeta.resolvedParam {m : ParameterMeta} (hm : m ∈ params) : ResolvedParam worldSize m := by
  obtain ⟨info, shards, replicas, first, firstReplica, hfrom⟩ :=
    buildParamsMeta_resolved getShardingInfo raw params h.resolved m hm
  have hres := hfrom.resolved
  have hmem : ∀ r ∈ m.replicas, ∀ s ∈ r.shards, s ∈ m.shards := by
    intro r hr s hs
    exact hres.partition.mem_iff.mp (List.mem_flatMap.mpr ⟨r, hr, hs⟩)
  obtain ⟨hne, hreported⟩ := shard_reported h.resolved hm
  have hobjects : shardObjects shards ≠ [] := by
    intro hnil
    have hmap := shardObjects_shards shards
    have hhead := hres.head
    rw [hnil, List.map_nil] at hmap
    rw [← hmap] at hhead
    simp at hhead
  constructor
  · rw [hres.replicas_eq]
    intro hnil
    have hhead := hres.replica_head
    rw [List.map_eq_nil_iff.mp hnil] at hhead
    simp at hhead
  · intro r hr
    rw [hres.replicas_eq, List.mem_map] at hr
    obtain ⟨r, hr, rfl⟩ := hr
    obtain ⟨o, os, rfl⟩ := List.exists_cons_of_ne_nil (buildReplicas_nonempty hfrom.replicas_ok hobjects hr)
    exact List.cons_ne_nil _ _
  · intro r hr s hs
    rw [hres.replicas_eq, List.mem_map] at hr
    obtain ⟨r, hr, rfl⟩ := hr
    obtain ⟨t, -, offset, hlength, rfl⟩ := placed_of_mem hs
    rw [globalShape_length hres.shape]
    exact hlength
  · intro r hr s hs
    obtain ⟨rankMeta, -, paramMeta, -, hname, hshard⟩ := hreported s (hmem r hr s hs)
    exact (congrArg ParameterShardMeta.name hshard).trans hname
  · have hranks : m.shards.map (·.globalRank) = shards.map (·.globalRank) := by
      have hmap := congrArg (List.map (·.globalRank)) hres.shards_eq
      rw [List.map_map, List.map_map] at hmap
      exact hmap
    rw [(hres.partition.map _).nodup_iff, hranks, collected_eq hfrom.shards_eq]
    exact h.ranks_nodup m.name
  · intro r hr s hs
    obtain ⟨rankMeta, hrank, paramMeta, -, -, hshard⟩ := hreported s (hmem r hr s hs)
    have hglobal : s.globalRank = rankMeta.rankInfo.globalRank :=
      congrArg ParameterShardMeta.globalRank hshard
    rw [hglobal]
    exact h.in_world rankMeta hrank

theorem GatheredMeta.consistent_dims {m : ParameterMeta} (hm : m ∈ params)
    (hc : Consistent ((shardInfos getShardingInfo raw).filter (fun s => s.name = m.name))) :
    m.globalShape ≠ [] ∧ ∀ r ∈ m.replicas, Box.Tiles (r.shards.map (·.box)) m.globalShape ∧
      ∀ s ∈ r.shards, s.shape.length = m.globalShape.length := by
  obtain ⟨info, shards, replicas, first, firstReplica, hfrom⟩ :=
    buildParamsMeta_resolved getShardingInfo raw params h.resolved m hm
  have hres := hfrom.resolved
  have hshape := globalShape_length hres.shape
  have hcollected := collected_eq hfrom.shards_eq
  have hfirst : first ∈ shards := List.mem_of_mem_head? hres.head
  rw [hcollected] at hfirst
  refine ⟨?_, fun r hr => ⟨hfrom.replicas_tile hc hr, fun s hs => ?_⟩⟩
  · apply List.ne_nil_of_length_pos
    rw [hshape]
    exact Nat.zero_lt_of_lt (hc.dim first hfirst)
  · rw [hres.replicas_eq, List.mem_map] at hr
    obtain ⟨r, hr, rfl⟩ := hr
    obtain ⟨t, ht, offset, -, rfl⟩ := placed_of_mem hs
    obtain ⟨o, ho, rfl⟩ := List.mem_map.mp ht
    have hperm := buildReplicas_perm _ _ _ _ hfrom.replicas_ok
    have hmem := mem_shardObjects (hperm.mem_iff.mp (List.mem_flatten.mpr ⟨r, hr, ho⟩))
    rw [hcollected] at hmem
    rw [hshape]
    exact ((hc.others first hfirst o.shard hmem).1).symm

end Gathered

end Awex
