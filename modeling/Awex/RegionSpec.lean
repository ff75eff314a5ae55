import Awex.Library.ExceptList
import Awex.RegionPlanning

namespace Awex

def shardEnds (shard : ParameterShardMeta) : List ℕ :=
  List.zipWith (· + ·) shard.globalOffset shard.shape

structure ValidShard (shard : ParameterShardMeta) : Prop where
  offset_ne_nil : shard.globalOffset ≠ []
  dims : shard.globalOffset.length = shard.shape.length

theorem shardEnds_length {shard : ParameterShardMeta} (h : ValidShard shard) :
    (shardEnds shard).length = shard.globalOffset.length := by
  simp [shardEnds, h.dims]

def shardRank (b : TransferPlanBuilder) (engineRank : ℕ) (isInfer : Bool)
    (shard : ParameterShardMeta) : ℕ :=
  if isInfer then shard.globalRank + engineRank * b.inferInstanceWorldSize
  else shard.globalRank + b.inferWorldSize

def keptShards (b : TransferPlanBuilder) (engineRank : ℕ) (isInfer : Bool)
    (globalTransferRank : Option ℕ) (shards : List ParameterShardMeta) :
    List (ParameterShardMeta × ℕ) :=
  (shards.map (fun s => (s, shardRank b engineRank isInfer s))).filter
    (fun p => !isOtherRank globalTransferRank p.2)

/-- Beyond the dimensions of the shard, `end_offset` repeats whatever the scratch list held. -/
structure Describes (so : ShardOffset) (p : ParameterShardMeta × ℕ) : Prop where
  shard : so.shard = p.1
  start : so.startOffset = p.1.globalOffset
  stop : ∃ stale, so.endOffset = (shardEnds p.1).map .int ++ stale
  shape : so.shape = p.1.shape
  rank : so.rank = p.2

theorem writeScratch_eq (scratch vs : List ScratchCell) :
    writeScratch scratch vs = if vs.length ≤ scratch.length then .ok (vs ++ scratch.drop vs.length)
      else .error .indexError := by
  induction vs generalizing scratch with
  | nil => simp [writeScratch]
  | cons v vs ih =>
    cases scratch with
    | nil => simp [writeScratch]
    | cons c scratch =>
      simp only [writeScratch, ih, List.length_cons, Nat.add_le_add_iff_right]
      split_ifs <;> simp [Except.map]

theorem computeShardTransferRank_eq (b : TransferPlanBuilder) (shard : ParameterShardMeta)
    (engineRank : ℕ) (isInfer : Bool) (h : isInfer = false → engineRank = 0) :
    b.computeShardTransferRank shard engineRank isInfer = .ok (shardRank b engineRank isInfer shard) := by
  cases isInfer with
  | true => rfl
  | false => simp [TransferPlanBuilder.computeShardTransferRank, shardRank, h rfl]

theorem shardOffset_skipped (b : TransferPlanBuilder) (engineRank : ℕ) (isInfer : Bool)
    (g : Option ℕ) (scratch : List ScratchCell) (shard : ParameterShardMeta) (hv : ValidShard shard)
    (he : isInfer = false → engineRank = 0) (hg : isOtherRank g (shardRank b engineRank isInfer shard) = true) :
    shardOffset b engineRank isInfer g scratch shard = .ok (none, scratch) := by
  simp [shardOffset, hv.offset_ne_nil, hv.dims, computeShardTransferRank_eq b shard _ _ he, hg,
    bind, Except.bind]

theorem shardOffset_kept (b : TransferPlanBuilder) (engineRank : ℕ) (isInfer : Bool)
    (g : Option ℕ) (scratch : List ScratchCell) (shard : ParameterShardMeta) (hv : ValidShard shard)
    (he : isInfer = false → engineRank = 0)
    (hg : isOtherRank g (shardRank b engineRank isInfer shard) = false) :
    shardOffset b engineRank isInfer g scratch shard =
      (writeScratch scratch ((shardEnds shard).map .int)).map (fun scratch =>
        (some ⟨shard, shard.globalOffset, scratch, shard.shape, shardRank b engineRank isInfer shard⟩,
          scratch)) := by
  simp only [shardOffset, hv.offset_ne_nil, hv.dims, computeShardTransferRank_eq b shard _ _ he, hg,
    bind, Except.bind, shardEnds]
  cases writeScratch scratch _ <;> simp [Except.map]

theorem keptShards_cons (b : TransferPlanBuilder) (engineRank : ℕ) (isInfer : Bool) (g : Option ℕ)
    (shard : ParameterShardMeta) (shards : List ParameterShardMeta) :
    keptShards b engineRank isInfer g (shard :: shards) =
      if isOtherRank g (shardRank b engineRank isInfer shard) then
        keptShards b engineRank isInfer g shards
      else (shard, shardRank b engineRank isInfer shard) :: keptShards b engineRank isInfer g shards := by
  by_cases h : isOtherRank g (shardRank b engineRank isInfer shard) <;> simp [keptShards, h]

theorem shardOffset_valid (b : TransferPlanBuilder) (engineRank : ℕ) (isInfer : Bool)
    (g : Option ℕ) (scratch : List ScratchCell) (shard : ParameterShardMeta)
    (r : Option ShardOffset × List ScratchCell)
    (h : shardOffset b engineRank isInfer g scratch shard = .ok r) : ValidShard shard := by
  unfold shardOffset at h
  split_ifs at h with h1 h2
  exact ⟨h1, not_not.mp h2⟩

theorem shardOffsets_post (b : TransferPlanBuilder) (engineRank : ℕ) (isInfer : Bool) (g : Option ℕ)
    (scratch : List ScratchCell) (shards : List ParameterShardMeta)
    (he : isInfer = false → engineRank = 0) (r : List ShardOffset × List ScratchCell)
    (h : shardOffsets b engineRank isInfer g scratch shards = .ok r) :
    (∀ s ∈ shards, ValidShard s) ∧
      (∀ p ∈ keptShards b engineRank isInfer g shards, p.1.globalOffset.length ≤ scratch.length) ∧
      r.2.length = scratch.length ∧
      List.Forall₂ Describes r.1 (keptShards b engineRank isInfer g shards) := by
  induction shards generalizing scratch r with
  | nil =>
    obtain rfl := Except.ok.inj h
    simp [keptShards]
  | cons shard shards ih =>
    obtain ⟨⟨entry, mid⟩, hs, h⟩ := Except.bind_eq_ok.mp h
    obtain ⟨⟨shardMap, out⟩, hrest, h⟩ := Except.bind_eq_ok.mp h
    obtain rfl := Except.ok.inj h
    have hv := shardOffset_valid b engineRank isInfer g scratch shard _ hs
    obtain ⟨hvs, hlen, hout, hmap⟩ := ih mid _ hrest
    rw [keptShards_cons]
    by_cases hg : isOtherRank g (shardRank b engineRank isInfer shard)
    · rw [shardOffset_skipped b engineRank isInfer g scratch shard hv he hg] at hs
      obtain ⟨rfl, rfl⟩ := Prod.mk.inj (Except.ok.inj hs)
      simp only [hg, ↓reduceIte]
      exact ⟨List.forall_mem_cons.mpr ⟨hv, hvs⟩, hlen, hout, hmap⟩
    · simp only [Bool.not_eq_true] at hg
      rw [shardOffset_kept b engineRank isInfer g scratch shard hv he hg, writeScratch_eq] at hs
      obtain ⟨cells, hcells, hs⟩ := Except.map_eq_ok.mp hs
      split_ifs at hcells with hle
      obtain rfl := Except.ok.inj hcells
      obtain ⟨rfl, rfl⟩ := Prod.mk.inj hs
      rw [List.length_map, shardEnds_length hv] at hle
      have hmid : ((shardEnds shard).map ScratchCell.int ++
          scratch.drop ((shardEnds shard).map ScratchCell.int).length).length = scratch.length := by
        simp only [List.length_append, List.length_map, List.length_drop, shardEnds_length hv]
        omega
      rw [hmid] at hlen hout
      simp only [hg, Bool.false_eq_true, ↓reduceIte]
      exact ⟨List.forall_mem_cons.mpr ⟨hv, hvs⟩, List.forall_mem_cons.mpr ⟨hle, hlen⟩, hout,
        .cons ⟨rfl, rfl, ⟨_, rfl⟩, rfl, rfl⟩ hmap⟩

theorem shardOffsets_isOk (b : TransferPlanBuilder) (engineRank : ℕ) (isInfer : Bool) (g : Option ℕ)
    (scratch : List ScratchCell) (shards : List ParameterShardMeta)
    (he : isInfer = false → engineRank = 0) (hv : ∀ s ∈ shards, ValidShard s)
    (hlen : ∀ p ∈ keptShards b engineRank isInfer g shards, p.1.globalOffset.length ≤ scratch.length) :
    ∃ r, shardOffsets b engineRank isInfer g scratch shards = .ok r := by
  induction shards generalizing scratch with
  | nil => exact ⟨_, rfl⟩
  | cons shard shards ih =>
    obtain ⟨hv, hvs⟩ := List.forall_mem_cons.mp hv
    rw [keptShards_cons] at hlen
    by_cases hg : isOtherRank g (shardRank b engineRank isInfer shard)
    · simp only [hg, ↓reduceIte] at hlen
      obtain ⟨r, hr⟩ := ih scratch hvs hlen
      exact ⟨_, Except.bind_eq_ok.mpr ⟨_, shardOffset_skipped b engineRank isInfer g scratch shard hv he hg,
        Except.bind_eq_ok.mpr ⟨r, hr, rfl⟩⟩⟩
    · simp only [Bool.not_eq_true] at hg
      simp only [hg, Bool.false_eq_true, ↓reduceIte, List.forall_mem_cons] at hlen
      have hw : ((shardEnds shard).map ScratchCell.int).length ≤ scratch.length := by
        rw [List.length_map, shardEnds_length hv]
        exact hlen.1
      have hs := shardOffset_kept b engineRank isInfer g scratch shard hv he hg
      rw [writeScratch_eq, if_pos hw] at hs
      obtain ⟨r, hr⟩ := ih ((shardEnds shard).map ScratchCell.int ++
          scratch.drop ((shardEnds shard).map ScratchCell.int).length) hvs (by
        intro p hp
        have := hlen.2 p hp
        simp only [List.length_append, List.length_drop]
        omega)
      exact ⟨_, Except.bind_eq_ok.mpr ⟨_, hs, Except.bind_eq_ok.mpr ⟨r, hr, rfl⟩⟩⟩

end Awex
