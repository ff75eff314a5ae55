import Awex.Library.PrefixSums
import Awex.MetaTiling

namespace Awex

open Box RoundRobin PrefixSums

/-- Along `dim`, each shard stands behind the shards of smaller index on the axis. -/
def OffsetLaw (axis : ParameterShardMeta → ℕ) (dim : ℕ) (r : ParameterReplicaMeta) : Prop :=
  ∀ s ∈ r.shards, s.globalOffset[dim]? =
    some ((r.shards.filter (fun t => axis t < axis s)).map (·.extent dim)).sum

instance (axis : ParameterShardMeta → ℕ) (dim : ℕ) (r : ParameterReplicaMeta) :
    Decidable (OffsetLaw axis dim r) := inferInstanceAs (Decidable (∀ s ∈ r.shards, _))

/-- Shards that were reported at the same position for two indices on the axis have tensor ranks in
the order of these indices, unless both are empty. -/
def AxisOrdered (axis : ParameterShardMeta → ℕ) (dim : ℕ) (shards : List ParameterShardMeta) : Prop :=
  ∀ (k a b : ℕ) (x y : ParameterShardMeta), a < b → (shards.filter (fun s => axis s = a))[k]? = some x →
    (shards.filter (fun s => axis s = b))[k]? = some y →
    x.tpRank ≤ y.tpRank ∨ x.extent dim = 0 ∧ y.extent dim = 0

theorem axisOffset_getElem? (n dim c : ℕ) :
    (axisOffset n dim c)[dim]? = if dim < n then some c else none := by
  by_cases h : dim < n <;> simp [axisOffset, h]

theorem below_placed (axis : ParameterShardMeta → ℕ)
    (haxis : ∀ s o, axis { s with globalOffset := o } = axis s) (n dim c k : ℕ)
    (ss : List ParameterShardMeta) :
    below axis (·.extent dim) (placed n dim c ss) k = below axis (·.extent dim) ss k := by
  induction ss generalizing c with
  | nil => rfl
  | cons s ss ih => rw [placed, below_cons, below_cons, ih, haxis]; rfl

theorem offsetLaw_placed (axis : ParameterShardMeta → ℕ)
    (haxis : ∀ s o, axis { s with globalOffset := o } = axis s) (n dim : ℕ) (hd : dim < n)
    (ss : List ParameterShardMeta) :
    OffsetLaw axis dim ⟨placed n dim 0 ss⟩ ↔ ∀ ys x zs, ss = ys ++ x :: zs →
      (ys.map (·.extent dim)).sum = below axis (·.extent dim) ss (axis x) := by
  have hbelow := below_placed axis haxis n dim 0
  simp only [below] at hbelow
  constructor
  · intro h ys x zs hss
    have hlaw := h _ ((mem_placed n dim 0 ss _).mpr ⟨ys, x, zs, hss, rfl⟩)
    rw [axisOffset_getElem?, if_pos hd, haxis, hbelow] at hlaw
    simpa [below] using hlaw
  · intro h s hs
    obtain ⟨ys, x, zs, hss, rfl⟩ := (mem_placed n dim 0 ss s).mp hs
    rw [axisOffset_getElem?, if_pos hd, haxis, hbelow, h ys x zs hss, Nat.zero_add]
    rfl

theorem rankKey_globalOffset {t : ShardingType} {key : String} {axis : ParameterShardMeta → ℕ}
    (h : rankKey t = some (key, axis)) (s : ParameterShardMeta) (o : List ℕ) :
    axis { s with globalOffset := o } = axis s := by
  cases t <;> simp only [rankKey, Option.some.injEq, Prod.mk.injEq, reduceCtorEq] at h <;>
    obtain ⟨-, rfl⟩ := h <;> rfl

theorem axisRow_sorted (axis : ParameterShardMeta → ℕ) (objects : List ShardObject) (i : ℕ) :
    ((axisRow axis objects i).map Prod.snd).Pairwise (fun x y => axis x.shard < axis y.shard) := by
  have hkeys : ((Dict.groupBy (fun o : ShardObject => axis o.shard) objects).keys.insertionSort
      (· ≤ ·)).Pairwise (· < ·) := by
    have hn := (Dict.groupBy (fun o : ShardObject => axis o.shard) objects).nodup
    rw [← Dict.keys, ← (List.perm_insertionSort (· ≤ ·) _).nodup_iff] at hn
    exact ((List.pairwise_insertionSort (· ≤ ·) _).and hn).imp (fun h => lt_of_le_of_ne h.1 h.2)
  rw [axisRow, row, List.map_filterMap]
  refine List.Pairwise.filterMap _ (fun k l hkl x hx y hy => ?_) hkeys
  simp only [Option.map_map, Option.map_eq_some_iff, Function.comp_apply] at hx hy
  obtain ⟨o, ho, rfl⟩ := hx
  obtain ⟨o', ho', rfl⟩ := hy
  have h1 := (List.mem_filter.mp (List.mem_of_getElem? ho)).2
  have h2 := (List.mem_filter.mp (List.mem_of_getElem? ho')).2
  simp only [decide_eq_true_eq] at h1 h2
  rw [h1, h2]
  exact hkl

theorem mem_axisRow (axis : ParameterShardMeta → ℕ) (objects : List ShardObject) (i : ℕ) (o : ShardObject) :
    o ∈ (axisRow axis objects i).map Prod.snd ↔
      (objects.filter (fun x => axis x.shard = axis o.shard))[i]? = some o := by
  simp only [List.mem_map, Prod.exists, exists_eq_right, axisRow, mem_row]
  constructor
  · rintro ⟨k, -, hk⟩
    have hko := (List.mem_filter.mp (List.mem_of_getElem? hk)).2
    simp only [decide_eq_true_eq] at hko
    rwa [hko]
  · intro h
    refine ⟨axis o.shard, ?_, h⟩
    rw [List.mem_insertionSort, Dict.mem_keys_groupBy]
    exact List.mem_map_of_mem (List.mem_of_mem_filter (List.mem_of_getElem? h))

theorem offsetLaw_row (axis : ParameterShardMeta → ℕ)
    (haxis : ∀ s o, axis { s with globalOffset := o } = axis s) (n dim : ℕ) (hd : dim < n)
    (objects : List ShardObject) (i : ℕ) :
    OffsetLaw axis dim ⟨placed n dim 0
        ((sortByTpRank ((axisRow axis objects i).map Prod.snd)).map (·.shard))⟩ ↔
      ∀ x ∈ (axisRow axis objects i).map Prod.snd, ∀ y ∈ (axisRow axis objects i).map Prod.snd,
        axis x.shard < axis y.shard → x.shard.tpRank ≤ y.shard.tpRank ∨
          x.shard.extent dim = 0 ∧ y.shard.extent dim = 0 := by
  have hsorted := axisRow_sorted axis objects i
  generalize (axisRow axis objects i).map Prod.snd = xs at hsorted
  have hnodup : (((sortByTpRank xs).map (·.shard)).map axis).Nodup := by
    rw [List.map_map, sortByTpRank, ((List.perm_insertionSort _ xs).map _).nodup_iff, List.Nodup,
      List.pairwise_map]
    exact hsorted.imp Nat.ne_of_lt
  rw [offsetLaw_placed axis haxis n dim hd, prefix_sums_iff _ _ _ hnodup, List.pairwise_map]
  exact pairwise_sorted_iff (fun o : ShardObject => axis o.shard) (fun o => o.shard.tpRank)
    (fun x y => x.shard.extent dim = 0 ∧ y.shard.extent dim = 0) xs hsorted

theorem filter_shardObjects (axis : ParameterShardMeta → ℕ) (shards : List ParameterShardMeta) (a : ℕ) :
    shards.filter (fun s => axis s = a) =
      ((shardObjects shards).filter (fun o => axis o.shard = a)).map (·.shard) := by
  conv_lhs => rw [← shardObjects_shards shards, List.filter_map]
  rfl

theorem axisOrdered_iff (axis : ParameterShardMeta → ℕ) (dim : ℕ) (shards : List ParameterShardMeta) :
    AxisOrdered axis dim shards ↔ ∀ i, ∀ x ∈ (axisRow axis (shardObjects shards) i).map Prod.snd,
      ∀ y ∈ (axisRow axis (shardObjects shards) i).map Prod.snd, axis x.shard < axis y.shard →
        x.shard.tpRank ≤ y.shard.tpRank ∨ x.shard.extent dim = 0 ∧ y.shard.extent dim = 0 := by
  constructor
  · intro h i x hx y hy hlt
    rw [mem_axisRow] at hx hy
    refine h i _ _ x.shard y.shard hlt ?_ ?_
    · rw [filter_shardObjects, List.getElem?_map, hx]
      rfl
    · rw [filter_shardObjects, List.getElem?_map, hy]
      rfl
  · intro h k a b x y hab hx hy
    rw [filter_shardObjects, List.getElem?_map, Option.map_eq_some_iff] at hx hy
    obtain ⟨o, ho, rfl⟩ := hx
    obtain ⟨o', ho', rfl⟩ := hy
    have ha := (List.mem_filter.mp (List.mem_of_getElem? ho)).2
    have hb := (List.mem_filter.mp (List.mem_of_getElem? ho')).2
    simp only [decide_eq_true_eq] at ha hb
    subst ha hb
    exact h k o ((mem_axisRow _ _ _ _).mpr ho) o' ((mem_axisRow _ _ _ _).mpr ho') hab

structure Sharded (getShardingInfo : String → RankInfo → RawParamMeta → ShardingInfo)
    (raw : List RawRankMeta) (p : ParameterMeta) (axis : ParameterShardMeta → ℕ)
    (first : ParameterShardMeta) (rest : List ParameterShardMeta) : Prop where
  shards_eq : (paramShards getShardingInfo raw).get? p.name = some (first :: rest)
  decision : ∃ info key, (paramShardingInfo getShardingInfo raw).get? p.name = some info ∧
    rankKey info.1 = some (key, axis) ∧ info.2.2 ≠ 1

theorem Sharded.grouped {getShardingInfo : String → RankInfo → RawParamMeta → ShardingInfo}
    {raw : List RawRankMeta} {p : ParameterMeta} {axis : ParameterShardMeta → ℕ}
    {first : ParameterShardMeta} {rest : List ParameterShardMeta} {params : List ParameterMeta}
    (hs : Sharded getShardingInfo raw p axis first rest)
    (h : buildParamsMeta getShardingInfo raw = .ok params) (hp : p ∈ params) :
    ∃ count replicas firstReplica, Grouped axis (shardObjects (first :: rest)) replicas count ∧
      Resolved p.name (first :: rest) replicas p first firstReplica := by
  obtain ⟨info, shards, replicas, first', firstReplica, hinfo, hshards, hbuild, hres⟩ :=
    buildParamsMeta_resolved getShardingInfo raw params h p hp
  obtain ⟨info', key, hinfo', hkey, hnum⟩ := hs.decision
  obtain rfl := Option.some.inj (hinfo.symm.trans hinfo')
  obtain rfl := Option.some.inj (hshards.symm.trans hs.shards_eq)
  obtain rfl : first = first' := Option.some.inj hres.head
  have htype : info.1 ≠ .noSharding := by
    intro hno
    rw [hno] at hkey
    simp [rankKey] at hkey
  rw [buildReplicas, if_neg htype, if_neg hnum, hkey] at hbuild
  obtain ⟨count, hg⟩ := groupReplicas_grouped _ _ _ _ _ hbuild
  exact ⟨count, replicas, firstReplica, hg, hres⟩

theorem shard_order_iff (getShardingInfo : String → RankInfo → RawParamMeta → ShardingInfo)
    (raw : List RawRankMeta) (params : List ParameterMeta)
    (h : buildParamsMeta getShardingInfo raw = .ok params) (p : ParameterMeta) (hp : p ∈ params)
    (axis : ParameterShardMeta → ℕ) (first : ParameterShardMeta) (rest : List ParameterShardMeta)
    (hs : Sharded getShardingInfo raw p axis first rest) :
    (∀ r ∈ p.replicas, OffsetLaw axis first.shardingDim r) ↔
      first.shardingDim < first.shape.length ∧ AxisOrdered axis first.shardingDim (first :: rest) := by
  obtain ⟨count, replicas, firstReplica, hg, hres⟩ := hs.grouped h hp
  obtain ⟨_, _, -, hkey, -⟩ := hs.decision
  have haxis := rankKey_globalOffset hkey
  rw [hres.replicas_eq]
  simp only [List.mem_map, forall_exists_index, and_imp, forall_apply_eq_imp_iff₂]
  by_cases hd : first.shardingDim < first.shape.length
  · have hrow := offsetLaw_row axis haxis _ _ hd (shardObjects (first :: rest))
    rw [and_iff_right hd, axisOrdered_iff, hg.replicas_eq]
    constructor
    · intro hlaw i x hx
      have hget := (mem_axisRow _ _ _ _).mp hx
      have hlt := (List.getElem?_eq_some_iff.mp hget).1
      rw [hg.counts x (List.mem_of_mem_filter (List.mem_of_getElem? hget))] at hlt
      exact (hrow i).mp (hlaw _ (List.mem_map_of_mem (List.mem_range.mpr hlt))) x hx
    · intro hlaw r hr
      obtain ⟨i, -, rfl⟩ := List.mem_map.mp hr
      exact (hrow i).mpr (hlaw i)
  · refine iff_of_false (fun hlaw => ?_) (fun hlaw => hd hlaw.1)
    have hmem : (⟨0, first⟩ : ShardObject) ∈ shardObjects (first :: rest) := by simp [shardObjects]
    obtain ⟨r, hr, ho⟩ := List.mem_flatten.mp (hg.perm.mem_iff.mpr hmem)
    obtain ⟨ys, zs, hsplit⟩ := List.append_of_mem (List.mem_map_of_mem (f := (·.shard)) ho)
    have hplaced := (mem_placed first.shape.length first.shardingDim 0 _ _).mpr ⟨ys, first, zs, hsplit, rfl⟩
    have hnone := hlaw r hr _ hplaced
    rw [axisOffset_getElem?, if_neg hd] at hnone
    simp at hnone

theorem shard_order_iff_expert :
    (∀ r ∈ (expertParams.head (by decide)).replicas, OffsetLaw (·.epTpRank) 0 r) ↔
      0 < 2 ∧ AxisOrdered (·.epTpRank) 0 ((List.range 4).map (fun r => shardInfo (getExpertShardingStrategy 0)
        (expertRankInfo r) ⟨"experts.0.gate_proj.weight", [2, 3], 6, .name "bfloat16"⟩)) :=
  shard_order_iff _ _ _ expertParams_eq _ (List.head_mem (by decide)) (·.epTpRank) _ _
    ⟨rfl, _, _, rfl, rfl, by decide⟩

theorem expert_order_lost : ¬ ∀ getShardingInfo raw params, buildParamsMeta getShardingInfo raw = .ok params →
    ∀ p ∈ params, ∀ axis first rest, Sharded getShardingInfo raw p axis first rest →
      ∀ r ∈ p.replicas, OffsetLaw axis first.shardingDim r := by
  -- ranks 0 to 3 hold quarters 0 to 3 of the first expert; by tensor rank they come out as 0, 2, 1, 3
  intro h
  have hlaw := h _ _ _ expertParams_eq _ (List.head_mem (by decide)) (·.epTpRank) _ _
    ⟨rfl, _, _, rfl, rfl, by decide⟩
  revert hlaw
  decide

end Awex
