import Awex.Library.RoundRobin
import Awex.Library.Slabs
import Awex.MetaResolver

namespace Awex

open Box RoundRobin

def ParameterShardMeta.extent (s : ParameterShardMeta) (dim : ℕ) : ℕ := s.shape.getD dim 0

def placed (numDims dim : ℕ) : ℕ → List ParameterShardMeta → List ParameterShardMeta
  | _, [] => []
  | c, s :: ss => { s with globalOffset := axisOffset numDims dim c } :: placed numDims dim (c + s.extent dim) ss

theorem mem_placed (n dim c : ℕ) (ss : List ParameterShardMeta) (s : ParameterShardMeta) :
    s ∈ placed n dim c ss ↔ ∃ ys x zs, ss = ys ++ x :: zs ∧
      s = { x with globalOffset := axisOffset n dim (c + (ys.map (·.extent dim)).sum) } := by
  induction ss generalizing c with
  | nil => simp [placed]
  | cons t ss ih =>
    rw [placed, List.mem_cons, ih]
    constructor
    · rintro (rfl | ⟨ys, x, zs, rfl, rfl⟩)
      · exact ⟨[], t, ss, rfl, rfl⟩
      · exact ⟨t :: ys, x, zs, rfl, by simp [Nat.add_assoc]⟩
    · rintro ⟨ys, x, zs, hss, rfl⟩
      cases ys with
      | nil =>
        obtain ⟨rfl, rfl⟩ := List.cons.inj hss
        exact .inl rfl
      | cons u ys =>
        obtain ⟨rfl, rfl⟩ := List.cons.inj hss
        exact .inr ⟨ys, x, zs, rfl, by simp [Nat.add_assoc]⟩

theorem dimAt_eq_ok {shape : List ℕ} {i n : ℕ} : dimAt shape i = .ok n ↔ shape[i]? = some n := by
  unfold dimAt
  cases shape[i]? <;> simp

theorem axisOffset_add (numDims dim c k : ℕ) :
    (axisOffset numDims dim c).zipIdx.map (fun (offset, i) => if i = dim then offset + k else offset) =
      axisOffset numDims dim (c + k) := by
  apply List.ext_getElem?
  intro i
  simp only [axisOffset, List.getElem?_map, List.getElem?_zipIdx, List.getElem?_set,
    List.length_replicate, List.getElem?_replicate]
  by_cases hi : dim = i
  · subst hi
    by_cases hlt : dim < numDims <;> simp [hlt]
  · by_cases hlt : i < numDims <;> simp [hi, hlt, Ne.symm hi]

theorem advanceOffsets_eq (numDims dim c : ℕ) (shape next : List ℕ)
    (h : advanceOffsets dim (axisOffset numDims dim c) shape = .ok next) :
    next = axisOffset numDims dim (c + shape.getD dim 0) ∧ (dim < numDims → dim < shape.length) := by
  constructor
  · rw [← axisOffset_add]
    refine Except.mapM_eq_map (fun x _ y hy => ?_) h
    obtain ⟨offset, i⟩ := x
    by_cases hi : i = dim
    · subst hi
      simp only [↓reduceIte] at hy ⊢
      obtain ⟨n, hn, rfl⟩ := Except.map_eq_ok.mp hy
      rw [dimAt_eq_ok] at hn
      simp [hn]
    · simpa [hi, eq_comm] using hy
  · intro hd
    have hmem : (c, dim) ∈ (axisOffset numDims dim c).zipIdx := by
      rw [List.mem_zipIdx_iff_getElem?]
      simp [axisOffset, hd]
    obtain ⟨y, hy⟩ := Except.mapM_isOk.mp ⟨next, h⟩ (c, dim) hmem
    simp only [↓reduceIte] at hy
    obtain ⟨n, hn, -⟩ := Except.map_eq_ok.mp hy
    exact (List.getElem?_eq_some_iff.mp (dimAt_eq_ok.mp hn)).1

def placedOffsets (numDims dim : ℕ) : ℕ → List ShardObject → List (ℕ × List ℕ)
  | _, [] => []
  | c, o :: os => (o.id, axisOffset numDims dim c) :: placedOffsets numDims dim (c + o.shard.extent dim) os

theorem replicaOffsets_eq (numDims dim c : ℕ) (replica : List ShardObject) (offsets : List (ℕ × List ℕ))
    (h : replicaOffsets dim (axisOffset numDims dim c) replica = .ok offsets) :
    offsets = placedOffsets numDims dim c replica ∧
      (dim < numDims → ∀ o ∈ replica, dim < o.shard.shape.length) := by
  induction replica generalizing c offsets with
  | nil =>
    obtain rfl := Except.ok.inj h
    simp [placedOffsets]
  | cons o os ih =>
    rw [replicaOffsets, Except.bind_eq_ok] at h
    obtain ⟨next, hnext, h⟩ := h
    obtain ⟨rest, hrest, h⟩ := Except.bind_eq_ok.mp h
    obtain rfl := Except.ok.inj h
    obtain ⟨rfl, hdim⟩ := advanceOffsets_eq numDims dim c o.shard.shape next hnext
    obtain ⟨rfl, hdims⟩ := ih _ rest hrest
    exact ⟨rfl, fun hd => List.forall_mem_cons.mpr ⟨hdim hd, hdims hd⟩⟩

theorem placedOffsets_fst (numDims dim c : ℕ) (replica : List ShardObject) :
    (placedOffsets numDims dim c replica).map Prod.fst = replica.map (·.id) := by
  induction replica generalizing c with
  | nil => rfl
  | cons o os ih => rw [placedOffsets, List.map_cons, ih, List.map_cons]

theorem writtenShard_eq {offsets : Dict ℕ (List ℕ)} {o : ShardObject} {offset : List ℕ}
    (h : offsets.get? o.id = some offset) :
    writtenShard offsets o = { o.shard with globalOffset := offset } := by
  simp [writtenShard, h]

theorem written_replica (numDims dim c : ℕ) (replica : List ShardObject) (offsets : Dict ℕ (List ℕ))
    (h : ∀ e ∈ placedOffsets numDims dim c replica, offsets.get? e.1 = some e.2) :
    replica.map (writtenShard offsets) = placed numDims dim c (replica.map (·.shard)) := by
  induction replica generalizing c with
  | nil => rfl
  | cons o os ih =>
    obtain ⟨ho, hos⟩ := List.forall_mem_cons.mp h
    rw [List.map_cons, writtenShard_eq ho, ih _ hos]
    rfl

theorem written_replicas (numDims dim : ℕ) (replicas : List (List ShardObject))
    (hn : (replicas.flatten.map (·.id)).Nodup) (r : List ShardObject) (hr : r ∈ replicas) :
    r.map (writtenShard (Dict.ofList (replicas.map (placedOffsets numDims dim 0)).flatten)) =
      placed numDims dim 0 (r.map (·.shard)) := by
  have hids : (replicas.map (placedOffsets numDims dim 0)).flatten.map Prod.fst =
      replicas.flatten.map (·.id) := by
    rw [List.map_flatten, List.map_flatten, List.map_map]
    congr 1
    apply List.map_congr_left
    intro replica _
    exact placedOffsets_fst numDims dim 0 replica
  apply written_replica
  intro e he
  apply Dict.get?_ofList_of_nodup
  · rw [hids]
    exact hn
  · exact List.mem_flatten.mpr ⟨_, List.mem_map_of_mem hr, he⟩

theorem shardObjects_ids (shards : List ParameterShardMeta) :
    ((shardObjects shards).map (·.id)).Nodup := by
  have hids : (shardObjects shards).map (·.id) = List.range' 0 shards.length := by
    rw [shardObjects, List.map_map, ← List.zipIdx_map_snd 0 shards]
    rfl
  rw [hids]
  exact List.nodup_range'

theorem shardObjects_shards (shards : List ParameterShardMeta) :
    (shardObjects shards).map (·.shard) = shards := by
  rw [shardObjects, List.map_map]
  exact List.zipIdx_map_fst 0 shards

/-- The `i`-th shard that was reported for each rank on the axis, ranks ascending. -/
def axisRow (axis : ParameterShardMeta → ℕ) (objects : List ShardObject) (i : ℕ) : List (ℕ × ShardObject) :=
  row ((Dict.groupBy (fun o : ShardObject => axis o.shard) objects).keys.insertionSort (· ≤ ·))
    (fun k => objects.filter (fun o => axis o.shard = k)) i

theorem mapM_row {ε κ β : Type} (keys : List κ) (lists : κ → List β) (i : ℕ) (f : κ → Except ε β)
    (hf : ∀ k y, f k = .ok y → (lists k)[i]? = some y) (ys : List β) (h : keys.mapM f = .ok ys) :
    ys = (row keys lists i).map Prod.snd := by
  replace h := Except.mapM_eq_ok.mp h
  induction h with
  | nil => rfl
  | @cons k y keys ys hy _ ih => simp [row, hf k y hy, ih]

theorem replicaGroup_eq (axis : ParameterShardMeta → ℕ) (objects : List ShardObject) (i : ℕ)
    (replica : List ShardObject)
    (h : replicaGroup (Dict.groupBy (fun o => axis o.shard) objects) i = .ok replica) :
    replica = sortByTpRank ((axisRow axis objects i).map Prod.snd) := by
  rw [replicaGroup, Except.bind_eq_ok] at h
  obtain ⟨ys, hys, h⟩ := h
  obtain rfl := Except.ok.inj h
  simp only [Dict.getD_groupBy] at hys
  rw [axisRow]
  congr 1
  refine mapM_row _ _ i _ (fun k y hy => ?_) ys hys
  split at hy
  · rename_i x hx
    obtain rfl := Except.ok.inj hy
    exact hx
  · simp at hy

structure Grouped (axis : ParameterShardMeta → ℕ) (objects : List ShardObject)
    (replicas : List (List ShardObject)) (count : ℕ) : Prop where
  counts : ∀ o ∈ objects, (objects.filter (fun x => axis x.shard = axis o.shard)).length = count
  replicas_eq : replicas = (List.range count).map (fun i => sortByTpRank ((axisRow axis objects i).map Prod.snd))

theorem groupReplicas_grouped (name key : String) (axis : ParameterShardMeta → ℕ)
    (objects : List ShardObject) (replicas : List (List ShardObject))
    (h : groupReplicas name key axis objects = .ok replicas) :
    ∃ count, Grouped axis objects replicas count := by
  unfold groupReplicas at h
  dsimp only at h
  split at h
  · simp at h
  · rename_i count counts hcounts
    split_ifs at h with hall
    refine ⟨count, ?_, ?_⟩
    · intro o ho
      have hkey : axis o.shard ∈ (Dict.groupBy (fun o : ShardObject => axis o.shard) objects).keys := by
        rw [Dict.mem_keys_groupBy]
        exact List.mem_map_of_mem ho
      obtain ⟨l, hl⟩ := Option.isSome_iff_exists.mp ((Dict.mem_keys _ _).mp hkey)
      have hlist : objects.filter (fun x => axis x.shard = axis o.shard) = l := by
        rw [← Dict.getD_groupBy (fun o : ShardObject => axis o.shard), Dict.getD, hl]
        rfl
      rw [hlist]
      have hmem : l.length ∈ (Dict.groupBy (fun o : ShardObject => axis o.shard) objects).values.map
          List.length :=
        List.mem_map_of_mem (List.mem_map.mpr ⟨_, (Dict.get?_eq_some _ _ _).mp hl, rfl⟩)
      rw [hcounts] at hall hmem
      simpa using List.all_eq_true.mp hall _ hmem
    · exact Except.mapM_eq_map (fun i _ replica hr => replicaGroup_eq axis objects i replica hr) h

theorem axisRow_weave_perm (axis : ParameterShardMeta → ℕ) (objects : List ShardObject) (count : ℕ)
    (hcounts : ∀ o ∈ objects, (objects.filter (fun x => axis x.shard = axis o.shard)).length = count) :
    ((List.range count).flatMap (axisRow axis objects)).Perm
      (objects.map (fun o => (axis o.shard, o))) := by
  apply perm_of_filter_eq Prod.fst
  intro k
  have hkeys : ∀ k, k ∈ (Dict.groupBy (fun o : ShardObject => axis o.shard) objects).keys.insertionSort
      (· ≤ ·) ↔ k ∈ objects.map (fun o => axis o.shard) := by
    intro k
    rw [List.mem_insertionSort, Dict.mem_keys_groupBy]
  have hright : (objects.map (fun o => (axis o.shard, o))).filter (fun e => e.1 = k) =
      (objects.filter (fun o => axis o.shard = k)).map (fun o => (k, o)) := by
    rw [List.filter_map]
    apply List.map_congr_left
    intro o ho
    have hk : axis o.shard = k := by simpa using (List.mem_filter.mp ho).2
    rw [hk]
  rw [hright]
  by_cases hk : k ∈ objects.map (fun o => axis o.shard)
  · obtain ⟨o, ho, rfl⟩ := List.mem_map.mp hk
    refine filter_weave _ _ count _ ?_ ((hkeys _).mpr hk) (hcounts o ho).le
    rw [(List.perm_insertionSort _ _).nodup_iff]
    exact (Dict.groupBy _ objects).nodup
  · have hnone : objects.filter (fun o => axis o.shard = k) = [] := by
      apply List.filter_eq_nil_iff.mpr
      intro o ho
      simp only [decide_eq_true_eq]
      rintro rfl
      exact hk (List.mem_map_of_mem ho)
    rw [hnone, List.map_nil]
    exact filter_weave_not_mem _ _ count k (fun h => hk ((hkeys k).mp h))

theorem Grouped.perm {axis : ParameterShardMeta → ℕ} {objects : List ShardObject}
    {replicas : List (List ShardObject)} {count : ℕ} (h : Grouped axis objects replicas count) :
    replicas.flatten.Perm objects := by
  have hperm := (axisRow_weave_perm axis objects count h.counts).map Prod.snd
  rw [List.map_map] at hperm
  have hid : objects.map (Prod.snd ∘ fun o => (axis o.shard, o)) = objects := List.map_id' objects
  rw [hid, List.map_flatMap] at hperm
  rw [h.replicas_eq, ← List.flatMap_def]
  refine List.Perm.trans ?_ hperm
  apply List.Perm.flatMap_left
  intro i _
  exact List.perm_insertionSort _ _

theorem buildReplicas_perm (name : String) (info : ShardingInfo) (objects : List ShardObject)
    (replicas : List (List ShardObject)) (h : buildReplicas name info objects = .ok replicas) :
    replicas.flatten.Perm objects := by
  unfold buildReplicas at h
  split_ifs at h with h1 h2
  · obtain rfl := Except.ok.inj h
    rw [← List.flatMap_def, List.flatMap_singleton']
  · obtain rfl := Except.ok.inj h
    rw [List.flatten_singleton]
  · split at h
    · simp at h
    · obtain ⟨count, hg⟩ := groupReplicas_grouped _ _ _ _ _ h
      exact hg.perm

end Awex
