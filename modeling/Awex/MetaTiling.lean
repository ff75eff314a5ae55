import Awex.MetaSpec

namespace Awex

open Box RoundRobin

def ParameterShardMeta.unplaced (s : ParameterShardMeta) : ParameterShardMeta := { s with globalOffset := [] }

/-- What the second loop leaves in the metadata of a parameter. -/
structure Resolved (name : String) (shards : List ParameterShardMeta)
    (replicas : List (List ShardObject)) (p : ParameterMeta) (first : ParameterShardMeta)
    (firstReplica : List ShardObject) : Prop where
  name_eq : p.name = name
  head : shards.head? = some first
  replica_head : replicas.head? = some firstReplica
  shards_eq : p.shards.map (·.unplaced) = shards.map (·.unplaced)
  replicas_eq : p.replicas = replicas.map (fun r =>
    ⟨placed first.shape.length first.shardingDim 0 (r.map (·.shard))⟩)
  partition : (p.replicas.flatMap (·.shards)).Perm p.shards
  shape : globalShape first.shape.length first.shardingDim firstReplica = .ok p.globalShape
  dims : first.shardingDim < first.shape.length →
    ∀ r ∈ replicas, ∀ o ∈ r, first.shardingDim < o.shard.shape.length

theorem writtenShard_unplaced (offsets : Dict ℕ (List ℕ)) (o : ShardObject) :
    (writtenShard offsets o).unplaced = o.shard.unplaced := by
  unfold writtenShard
  split <;> rfl

theorem resolveParamMeta_resolved (name : String) (shards : List ParameterShardMeta)
    (replicas : List (List ShardObject)) (p : ParameterMeta)
    (hperm : replicas.flatten.Perm (shardObjects shards))
    (h : resolveParamMeta name shards replicas = .ok p) :
    ∃ first firstReplica, Resolved name shards replicas p first firstReplica := by
  unfold resolveParamMeta at h
  split at h
  · rename_i first rest firstReplica others
    obtain ⟨shape, hshape, h⟩ := Except.bind_eq_ok.mp h
    obtain ⟨offsets, hoffsets, h⟩ := Except.bind_eq_ok.mp h
    obtain rfl := Except.ok.inj h
    rw [← axisOffset_zero _ first.shardingDim] at hoffsets
    have hmap := Except.mapM_eq_map (fun r _ offs hr => (replicaOffsets_eq _ _ _ r offs hr).1) hoffsets
    have hids : ((firstReplica :: others).flatten.map (·.id)).Nodup :=
      ((hperm.map _).nodup_iff).mpr (shardObjects_ids _)
    have hplaced : (firstReplica :: others).map (fun r => (⟨r.map (writtenShard (Dict.ofList offsets.flatten))⟩ :
        ParameterReplicaMeta)) = (firstReplica :: others).map (fun r =>
          ⟨placed first.shape.length first.shardingDim 0 (r.map (·.shard))⟩) := by
      apply List.map_congr_left
      intro r hr
      rw [hmap, written_replicas _ _ _ hids r hr]
    refine ⟨first, firstReplica, rfl, rfl, rfl, ?_, hplaced, ?_, hshape, ?_⟩
    · simp only [List.map_map, Function.comp_def, writtenShard_unplaced]
      rw [← shardObjects_shards (first :: rest), List.map_map, shardObjects_shards]
      rfl
    · rw [List.flatMap_map, List.flatMap_def, ← List.map_flatten]
      exact hperm.map _
    · intro hd r hr
      obtain ⟨offs, hoffs⟩ := Except.mapM_isOk.mp ⟨offsets, hoffsets⟩ r hr
      exact (replicaOffsets_eq _ _ _ r offs hoffs).2 hd
  · simp at h

structure ResolvedFrom (getShardingInfo : String → RankInfo → RawParamMeta → ShardingInfo)
    (raw : List RawRankMeta) (p : ParameterMeta) (info : ShardingInfo)
    (shards : List ParameterShardMeta) (replicas : List (List ShardObject))
    (first : ParameterShardMeta) (firstReplica : List ShardObject) : Prop where
  info_eq : (paramShardingInfo getShardingInfo raw).get? p.name = some info
  shards_eq : (paramShards getShardingInfo raw).get? p.name = some shards
  replicas_ok : buildReplicas p.name info (shardObjects shards) = .ok replicas
  resolved : Resolved p.name shards replicas p first firstReplica

theorem replicasOf_eq {getShardingInfo : String → RankInfo → RawParamMeta → ShardingInfo}
    {raw : List RawRankMeta} {e : String × List ParameterShardMeta}
    {z : String × List ParameterShardMeta × List (List ShardObject)}
    (h : (match (paramShardingInfo getShardingInfo raw).get? e.1 with
      | some info => (buildReplicas e.1 info (shardObjects e.2)).map (fun replicas => (e.1, e.2, replicas))
      | none => .error .keyError) = Except.ok z) :
    z.1 = e.1 ∧ z.2.1 = e.2 ∧ ∃ info, (paramShardingInfo getShardingInfo raw).get? e.1 = some info ∧
      buildReplicas e.1 info (shardObjects e.2) = .ok z.2.2 := by
  split at h
  · rename_i info hinfo
    obtain ⟨replicas, hr, rfl⟩ := Except.map_eq_ok.mp h
    exact ⟨rfl, rfl, info, hinfo, hr⟩
  · simp at h

theorem buildParamsMeta_resolved (getShardingInfo : String → RankInfo → RawParamMeta → ShardingInfo)
    (raw : List RawRankMeta) (params : List ParameterMeta)
    (h : buildParamsMeta getShardingInfo raw = .ok params) (p : ParameterMeta) (hp : p ∈ params) :
    ∃ info shards replicas first firstReplica,
      ResolvedFrom getShardingInfo raw p info shards replicas first firstReplica := by
  obtain ⟨zs, hzs, h⟩ := Except.bind_eq_ok.mp h
  obtain ⟨z, hz, hres⟩ := exists_of_forall₂_mem_right (Except.mapM_eq_ok.mp h) hp
  obtain ⟨e, he, hrep⟩ := exists_of_forall₂_mem_right (Except.mapM_eq_ok.mp hzs) hz
  obtain ⟨name, shards, replicas⟩ := z
  obtain ⟨h1, h2, info, hinfo, hbuild⟩ := replicasOf_eq hrep
  simp only at h1 h2 hbuild hres
  subst h1 h2
  obtain ⟨first, firstReplica, hr⟩ := resolveParamMeta_resolved e.1 e.2 replicas p
    (buildReplicas_perm _ _ _ _ hbuild) hres
  refine ⟨info, e.2, replicas, first, firstReplica, ?_, ?_, ?_, ?_⟩ <;> rw [hr.name_eq]
  · exact hinfo
  · exact (Dict.get?_eq_some _ _ _).mpr he
  · exact hbuild
  · exact hr

theorem resolveParamMeta_name {name : String} {shards : List ParameterShardMeta}
    {replicas : List (List ShardObject)} {p : ParameterMeta}
    (h : resolveParamMeta name shards replicas = .ok p) : p.name = name := by
  unfold resolveParamMeta at h
  split at h
  · obtain ⟨_, -, h⟩ := Except.bind_eq_ok.mp h
    obtain ⟨_, -, h⟩ := Except.bind_eq_ok.mp h
    obtain rfl := Except.ok.inj h
    rfl
  · simp at h

theorem buildParamsMeta_names (getShardingInfo : String → RankInfo → RawParamMeta → ShardingInfo)
    (raw : List RawRankMeta) (params : List ParameterMeta)
    (h : buildParamsMeta getShardingInfo raw = .ok params) :
    params.map (·.name) = (paramShards getShardingInfo raw).keys := by
  obtain ⟨zs, hzs, h⟩ := Except.bind_eq_ok.mp h
  have h1 := map_eq_of_forall₂ ((Except.mapM_eq_ok.mp hzs).imp (fun _ _ hz => (replicasOf_eq hz).1.symm))
  have h2 := map_eq_of_forall₂ ((Except.mapM_eq_ok.mp h).imp (fun _ _ hp => (resolveParamMeta_name hp).symm))
  exact (h1.trans h2).symm

def SameAxis (s t : ParameterShardMeta) : Prop :=
  match rankKey s.shardingType with
  | some (_, axis) => axis s = axis t
  | none => True

/-- One sharding decision for a parameter, and shapes that agree with it. -/
structure Consistent (shards : List ParameterShardMeta) : Prop where
  decision : ∀ s ∈ shards, ∀ t ∈ shards, s.shardingType = t.shardingType ∧
    s.shardingDim = t.shardingDim ∧ s.numShards = t.numShards
  dim : ∀ s ∈ shards, s.shardingDim < s.shape.length
  others : ∀ s ∈ shards, ∀ t ∈ shards, s.shape.length = t.shape.length ∧
    ∀ i, i ≠ s.shardingDim → s.shape[i]? = t.shape[i]?
  same_axis : ∀ s ∈ shards, ∀ t ∈ shards, SameAxis s t → s.shape = t.shape

theorem consistent_of_same_shape (shards : List ParameterShardMeta) (shape : List ℕ) (info : ShardingInfo)
    (h : ∀ s ∈ shards, s.shape = shape ∧ (s.shardingType, s.shardingDim, s.numShards) = info)
    (hd : info.2.1 < shape.length) : Consistent shards := by
  have hinfo : ∀ s ∈ shards, s.shardingType = info.1 ∧ s.shardingDim = info.2.1 ∧ s.numShards = info.2.2 := by
    intro s hs
    rw [← (h s hs).2]
    exact ⟨rfl, rfl, rfl⟩
  refine ⟨fun s hs t ht => ?_, fun s hs => ?_, fun s hs t ht => ?_, fun s hs t ht _ => ?_⟩
  · obtain ⟨h1, h2, h3⟩ := hinfo s hs
    obtain ⟨h4, h5, h6⟩ := hinfo t ht
    exact ⟨h1.trans h4.symm, h2.trans h5.symm, h3.trans h6.symm⟩
  · rwa [(hinfo s hs).2.1, (h s hs).1]
  · rw [(h s hs).1, (h t ht).1]
    exact ⟨rfl, fun _ _ => rfl⟩
  · rw [(h s hs).1, (h t ht).1]

theorem Consistent.shape_eq {shards : List ParameterShardMeta} (h : Consistent shards)
    {s t : ParameterShardMeta} (hs : s ∈ shards) (ht : t ∈ shards) :
    t.shape = s.shape.set s.shardingDim (t.extent s.shardingDim) := by
  obtain ⟨hlen, hothers⟩ := h.others s hs t ht
  have hd := h.dim s hs
  apply List.ext_getElem?
  intro i
  rw [List.getElem?_set]
  split_ifs with hi
  · subst hi
    simp [ParameterShardMeta.extent, List.getElem?_eq_getElem (hlen ▸ hd)]
  · exact (hothers i (Ne.symm hi)).symm

theorem placed_boxes (shape : List ℕ) (dim c : ℕ) (ss : List ParameterShardMeta)
    (h : ∀ s ∈ ss, s.shape = shape.set dim (s.extent dim)) :
    (placed shape.length dim c ss).map (·.box) = slabs shape dim c (ss.map (·.extent dim)) := by
  induction ss generalizing c with
  | nil => rfl
  | cons s ss ih =>
    obtain ⟨hs, hss⟩ := List.forall_mem_cons.mp h
    rw [placed, List.map_cons, ih _ hss, List.map_cons, slabs, ← hs]
    rfl

def total (dim : ℕ) (replica : List ShardObject) : ℕ := (replica.map (·.shard.extent dim)).sum

theorem globalShape_eq (shape : List ℕ) (dim : ℕ) (replica : List ShardObject) (out : List ℕ)
    (hr : ∀ o ∈ replica, o.shard.shape = shape.set dim (o.shard.extent dim))
    (h : globalShape shape.length dim replica = .ok out) : out = shape.set dim (total dim replica) := by
  have hmap := Except.mapM_eq_map
    (g := fun i => if i = dim then total dim replica else shape.getD i 0) (fun i _ y hy => ?_) h
  · rw [hmap]
    apply List.ext_getElem?
    intro i
    rw [List.getElem?_map, List.getElem?_set]
    by_cases hi : i < shape.length
    · by_cases hd : i = dim
      · subst hd
        simp [hi]
      · simp [hi, hd, Ne.symm hd]
    · have hout : (shape.set dim (total dim replica)).length ≤ i := by simpa using hi
      rw [← List.getElem?_set, List.getElem?_eq_none hout, List.getElem?_eq_none (by simpa using hi)]
      rfl
  · split_ifs at hy ⊢ with hd
    · obtain ⟨sizes, hsizes, rfl⟩ := Except.map_eq_ok.mp hy
      have hext := Except.mapM_eq_map (g := fun o : ShardObject => o.shard.extent dim)
        (fun o _ n hn => ?_) hsizes
      · rw [hext, total]
      · rw [dimAt_eq_ok, hd] at hn
        simp [ParameterShardMeta.extent, hn]
    · split at hy
      · simp at hy
      · rename_i o os
        rw [dimAt_eq_ok, hr o (by simp), List.getElem?_set, if_neg (Ne.symm hd)] at hy
        simp [hy]

theorem Grouped.total_eq {axis : ParameterShardMeta → ℕ} {objects : List ShardObject}
    {replicas : List (List ShardObject)} {count : ℕ} (h : Grouped axis objects replicas count) (dim : ℕ)
    (hsame : ∀ o ∈ objects, ∀ o' ∈ objects, axis o.shard = axis o'.shard →
      o.shard.extent dim = o'.shard.extent dim) (r r' : List ShardObject) (hr : r ∈ replicas)
    (hr' : r' ∈ replicas) : total dim r = total dim r' := by
  have hrow : ∀ i, total dim (sortByTpRank ((axisRow axis objects i).map Prod.snd)) =
      ((axisRow axis objects i).map (fun e => e.2.shard.extent dim)).sum := by
    intro i
    rw [total, sortByTpRank, ((List.perm_insertionSort _ _).map _).sum_nat, List.map_map]
    rfl
  have hlists : ∀ k ∈ (Dict.groupBy (fun o : ShardObject => axis o.shard) objects).keys.insertionSort (· ≤ ·),
      (objects.filter (fun o => axis o.shard = k)).length = count := by
    intro k hk
    rw [List.mem_insertionSort, Dict.mem_keys_groupBy] at hk
    obtain ⟨o, ho, rfl⟩ := List.mem_map.mp hk
    exact h.counts o ho
  rw [h.replicas_eq] at hr hr'
  obtain ⟨i, hi, rfl⟩ := List.mem_map.mp hr
  obtain ⟨j, hj, rfl⟩ := List.mem_map.mp hr'
  rw [hrow, hrow]
  congr 1
  refine row_map_eq _ _ (fun o : ShardObject => o.shard.extent dim) i j (fun k _ x hx y hy => ?_) ?_ ?_
  · simp only [List.mem_filter, decide_eq_true_eq] at hx hy
    exact hsame x hx.1 y hy.1 (hx.2.trans hy.2.symm)
  · exact fun k hk => (hlists k hk).symm ▸ List.mem_range.mp hi
  · exact fun k hk => (hlists k hk).symm ▸ List.mem_range.mp hj

theorem mem_shardObjects {shards : List ParameterShardMeta} {o : ShardObject}
    (h : o ∈ shardObjects shards) : o.shard ∈ shards := by
  have hmem := List.mem_map_of_mem (f := (·.shard)) h
  rwa [shardObjects_shards] at hmem

theorem buildReplicas_total_eq (name : String) (info : ShardingInfo) (shards : List ParameterShardMeta)
    (hc : Consistent shards) (hinfo : ∀ s ∈ shards, s.shardingType = info.1) (dim : ℕ)
    (replicas : List (List ShardObject)) (h : buildReplicas name info (shardObjects shards) = .ok replicas)
    (r r' : List ShardObject) (hr : r ∈ replicas) (hr' : r' ∈ replicas) :
    total dim r = total dim r' := by
  unfold buildReplicas at h
  split_ifs at h with h1 h2
  · obtain rfl := Except.ok.inj h
    obtain ⟨o, ho, rfl⟩ := List.mem_map.mp hr
    obtain ⟨o', ho', rfl⟩ := List.mem_map.mp hr'
    have hs := mem_shardObjects ho
    have hshape := hc.same_axis _ hs _ (mem_shardObjects ho')
      (by simp [SameAxis, hinfo _ hs, h1, rankKey])
    simp [total, ParameterShardMeta.extent, hshape]
  · obtain rfl := Except.ok.inj h
    rw [List.mem_singleton.mp hr, List.mem_singleton.mp hr']
  · split at h
    · simp at h
    · rename_i key axis hkey
      obtain ⟨count, hg⟩ := groupReplicas_grouped _ _ _ _ _ h
      refine hg.total_eq dim (fun o ho o' ho' hax => ?_) r r' hr hr'
      have hs := mem_shardObjects ho
      have hshape := hc.same_axis _ hs _ (mem_shardObjects ho')
        (by simpa [SameAxis, hinfo _ hs, hkey] using hax)
      simp [ParameterShardMeta.extent, hshape]

theorem collected_eq {getShardingInfo : String → RankInfo → RawParamMeta → ShardingInfo}
    {raw : List RawRankMeta} {name : String} {shards : List ParameterShardMeta}
    (h : (paramShards getShardingInfo raw).get? name = some shards) :
    shards = (shardInfos getShardingInfo raw).filter (fun s => s.name = name) := by
  have hd := Dict.getD_groupBy (·.name) (shardInfos getShardingInfo raw) name
  rw [Dict.getD, ← paramShards, h] at hd
  exact hd

theorem shardInfos_unplaced (getShardingInfo : String → RankInfo → RawParamMeta → ShardingInfo)
    (raw : List RawRankMeta) (s : ParameterShardMeta) (hs : s ∈ shardInfos getShardingInfo raw) :
    s.unplaced = s := by
  obtain ⟨rm, -, hs⟩ := List.mem_flatMap.mp hs
  obtain ⟨pm, -, rfl⟩ := List.mem_map.mp hs
  rfl

theorem shard_reported {getShardingInfo : String → RankInfo → RawParamMeta → ShardingInfo}
    {raw : List RawRankMeta} {params : List ParameterMeta}
    (h : buildParamsMeta getShardingInfo raw = .ok params) {p : ParameterMeta} (hp : p ∈ params) :
    p.shards ≠ [] ∧ ∀ s ∈ p.shards, ∃ rankMeta ∈ raw, ∃ paramMeta ∈ rankMeta.paramsMeta,
      paramMeta.name = p.name ∧ s.unplaced = shardInfo getShardingInfo rankMeta.rankInfo paramMeta := by
  obtain ⟨info, shards, replicas, first, firstReplica, hinfo, hshards, hbuild, hres⟩ :=
    buildParamsMeta_resolved getShardingInfo raw params h p hp
  constructor
  · intro hnil
    have hmap := hres.shards_eq
    rw [hnil, List.map_nil, eq_comm, List.map_eq_nil_iff] at hmap
    simp [hmap] at hres
    simpa using hres.head
  · intro s hs
    have hmem : s.unplaced ∈ shards.map (·.unplaced) := by
      rw [← hres.shards_eq]
      exact List.mem_map_of_mem hs
    obtain ⟨t, ht, hst⟩ := List.mem_map.mp hmem
    rw [collected_eq hshards, List.mem_filter] at ht
    obtain ⟨rankMeta, hrank, ht'⟩ := List.mem_flatMap.mp ht.1
    obtain ⟨paramMeta, hparam, rfl⟩ := List.mem_map.mp ht'
    exact ⟨rankMeta, hrank, paramMeta, hparam, of_decide_eq_true ht.2, hst.symm⟩

theorem paramShardingInfo_of_consistent {getShardingInfo : String → RankInfo → RawParamMeta → ShardingInfo}
    {raw : List RawRankMeta} {name : String} {info : ShardingInfo}
    (hinfo : (paramShardingInfo getShardingInfo raw).get? name = some info)
    (hc : Consistent ((shardInfos getShardingInfo raw).filter (fun s => s.name = name))) :
    ∀ s ∈ (shardInfos getShardingInfo raw).filter (fun s => s.name = name), s.shardingType = info.1 := by
  obtain ⟨t, ht, heq⟩ := List.mem_map.mp (Dict.mem_of_get?_ofList _ _ _ hinfo)
  obtain ⟨rfl, rfl⟩ := Prod.mk.inj heq
  intro s hs
  exact (hc.decision s hs t (List.mem_filter.mpr ⟨ht, by simp⟩)).1

theorem ResolvedFrom.replicas_tile {getShardingInfo : String → RankInfo → RawParamMeta → ShardingInfo}
    {raw : List RawRankMeta} {p : ParameterMeta} {info : ShardingInfo} {shards : List ParameterShardMeta}
    {replicas : List (List ShardObject)} {first : ParameterShardMeta} {firstReplica : List ShardObject}
    (h : ResolvedFrom getShardingInfo raw p info shards replicas first firstReplica)
    (hc : Consistent ((shardInfos getShardingInfo raw).filter (fun s => s.name = p.name)))
    {r : ParameterReplicaMeta} (hr : r ∈ p.replicas) : Tiles (r.shards.map (·.box)) p.globalShape := by
  obtain ⟨hinfo, hshards, hbuild, hres⟩ := h
  have htype := paramShardingInfo_of_consistent hinfo hc
  rw [← collected_eq hshards] at hc htype
  have hfirst : first ∈ shards := List.mem_of_mem_head? hres.head
  have hfr : firstReplica ∈ replicas := List.mem_of_mem_head? hres.replica_head
  have hperm := buildReplicas_perm _ _ _ _ hbuild
  have hshape : ∀ r ∈ replicas, ∀ o ∈ r,
      o.shard.shape = first.shape.set first.shardingDim (o.shard.extent first.shardingDim) := by
    intro r hr o ho
    exact hc.shape_eq hfirst (mem_shardObjects (hperm.mem_iff.mp (List.mem_flatten.mpr ⟨r, hr, ho⟩)))
  rw [hres.replicas_eq, List.mem_map] at hr
  obtain ⟨r, hr, rfl⟩ := hr
  have hglobal := globalShape_eq _ _ _ _ (hshape _ hfr) hres.shape
  have htotal := buildReplicas_total_eq p.name info shards hc htype first.shardingDim replicas hbuild
    firstReplica r hfr hr
  have hboxes := placed_boxes first.shape first.shardingDim 0 (r.map (·.shard)) (by
    intro s hs
    obtain ⟨o, ho, rfl⟩ := List.mem_map.mp hs
    exact hshape r hr o ho)
  have htiles := tiles_slabs first.shape first.shardingDim (hc.dim first hfirst)
    ((r.map (·.shard)).map (·.extent first.shardingDim))
  rw [hboxes, hglobal, htotal, total]
  rwa [List.map_map] at htiles ⊢

/-- Resolving puts every shard of a parameter into one replica, and every replica is a tiling of
the parameter. -/
theorem weight_tiling (getShardingInfo : String → RankInfo → RawParamMeta → ShardingInfo)
    (raw : List RawRankMeta) (params : List ParameterMeta)
    (h : buildParamsMeta getShardingInfo raw = .ok params) :
    params.map (·.name) = (paramShards getShardingInfo raw).keys ∧
      ∀ p ∈ params, Consistent ((shardInfos getShardingInfo raw).filter (fun s => s.name = p.name)) →
        p.shards.map (·.unplaced) = (shardInfos getShardingInfo raw).filter (fun s => s.name = p.name) ∧
        (p.replicas.flatMap (·.shards)).Perm p.shards ∧
        ∀ r ∈ p.replicas, Tiles (r.shards.map (·.box)) p.globalShape := by
  refine ⟨buildParamsMeta_names getShardingInfo raw params h, fun p hp hc => ?_⟩
  obtain ⟨info, shards, replicas, first, firstReplica, hfrom⟩ :=
    buildParamsMeta_resolved getShardingInfo raw params h p hp
  have hcollected := collected_eq hfrom.shards_eq
  rw [← hcollected]
  have hunplaced : shards.map (·.unplaced) = shards := by
    refine List.map_congr_left (g := id) (fun s hs => ?_) |>.trans (List.map_id _)
    rw [hcollected] at hs
    exact shardInfos_unplaced _ _ s (List.mem_of_mem_filter hs)
  exact ⟨hfrom.resolved.shards_eq.trans hunplaced, hfrom.resolved.partition,
    fun r hr => hfrom.replicas_tile hc hr⟩

theorem weight_tiling_expert : ∃ params,
    buildParamsMeta (getExpertShardingStrategy 0) expertRawMeta = .ok params ∧ params.length = 2 ∧
      ∀ p ∈ params, ∀ r ∈ p.replicas, Tiles (r.shards.map (·.box)) p.globalShape := by
  obtain ⟨-, hlaw⟩ := weight_tiling _ _ _ expertParams_eq
  refine ⟨expertParams, expertParams_eq, by decide, fun p hp => (hlaw p hp ?_).2.2⟩
  have hsame : ∀ s ∈ shardInfos (getExpertShardingStrategy 0) expertRawMeta,
      s.shape = [2, 3] ∧ (s.shardingType, s.shardingDim, s.numShards) = (.epTpSharding, 0, 4) := by
    decide
  exact consistent_of_same_shape _ [2, 3] (.epTpSharding, 0, 4)
    (fun s hs => hsame s (List.mem_of_mem_filter hs)) (by decide)

end Awex
