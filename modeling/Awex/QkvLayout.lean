import Awex.QkvWeight
import Mathlib.Tactic.Ring

namespace Awex

open Chunks

section Rows

variable {ρ : Type} (full : List ρ) (headsPerGroup headSize : ℕ)

def groupRows : ℕ := (headsPerGroup + 2) * headSize

/-- Query head `h` in the layout of query groups. -/
def queryHead (h : ℕ) : List ρ :=
  (full.drop (h / headsPerGroup * groupRows headsPerGroup headSize + h % headsPerGroup * headSize)).take headSize

def keyHead (g : ℕ) : List ρ :=
  (full.drop (g * groupRows headsPerGroup headSize + headsPerGroup * headSize)).take headSize

def valueHead (g : ℕ) : List ρ :=
  (full.drop (g * groupRows headsPerGroup headSize + (headsPerGroup + 1) * headSize)).take headSize

/-- The key and value heads of inference rank `i`: its share of them, or the one it needs. -/
def kvHeads (numKvHeads inferTpSize i : ℕ) : List ℕ :=
  if numKvHeads ≤ inferTpSize then [i * numKvHeads / inferTpSize]
  else (List.range (numKvHeads / inferTpSize)).map (fun j => i * (numKvHeads / inferTpSize) + j)

/-- What inference rank `i` has to hold. -/
def rankRows (numHeads numKvHeads inferTpSize i : ℕ) : List ρ :=
  (List.range (numHeads / inferTpSize)).flatMap (fun j =>
      queryHead full headsPerGroup headSize (i * (numHeads / inferTpSize) + j)) ++
    (kvHeads numKvHeads inferTpSize i).flatMap (keyHead full headsPerGroup headSize) ++
    (kvHeads numKvHeads inferTpSize i).flatMap (valueHead full headsPerGroup headSize)

variable {full headsPerGroup headSize} {numKvHeads : ℕ}

theorem groupRows_eq : groupRows headsPerGroup headSize = headSize * headsPerGroup + headSize + headSize := by
  unfold groupRows
  ring

theorem groupQuery_eq (g : ℕ) :
    (block full (groupRows headsPerGroup headSize) g).take (headSize * headsPerGroup) =
      (List.range headsPerGroup).flatMap (fun j => queryHead full headsPerGroup headSize (g * headsPerGroup + j)) := by
  rw [Nat.mul_comm headSize, ← flatMap_chunks]
  apply List.flatMap_congr
  intro j hj
  have hj := List.mem_range.mp hj
  have hpos : 0 < headsPerGroup := by omega
  have hle : (j + 1) * headSize ≤ headsPerGroup * headSize := Nat.mul_le_mul_right headSize hj
  rw [Nat.succ_mul] at hle
  rw [take_drop_block (by rw [groupRows_eq, Nat.mul_comm headSize]; omega), queryHead]
  have hdiv : (g * headsPerGroup + j) / headsPerGroup = g := by
    rw [Nat.mul_comm, Nat.mul_add_div hpos, Nat.div_eq_of_lt hj, Nat.add_zero]
  have hmod : (g * headsPerGroup + j) % headsPerGroup = j := by
    rw [Nat.mul_comm, Nat.mul_add_mod, Nat.mod_eq_of_lt hj]
  rw [hdiv, hmod]

theorem groupKey_eq (g : ℕ) :
    ((block full (groupRows headsPerGroup headSize) g).drop (headSize * headsPerGroup)).take headSize =
      keyHead full headsPerGroup headSize g := by
  rw [take_drop_block (by rw [groupRows_eq]; omega), keyHead, Nat.mul_comm headSize]

theorem groupValue_eq (g : ℕ) :
    ((block full (groupRows headsPerGroup headSize) g).drop (headSize * headsPerGroup + headSize)).take headSize =
      valueHead full headsPerGroup headSize g := by
  rw [take_drop_block (by rw [groupRows_eq]), valueHead, Nat.succ_mul, Nat.mul_comm headSize]

theorem splitRows_three {rows : List ρ} {a b c : ℕ} (h : rows.length = a + b + c) :
    splitRows [a, b, c] rows = .ok [rows.take a, (rows.drop a).take b, (rows.drop (a + b)).take c] := by
  rw [splitRows, splitSizes_three h]

theorem chunkRows_of_pos {n : ℕ} (hn : 0 < n) (rows : List ρ) : chunkRows n rows = .ok (chunk n rows) := by
  rw [chunkRows, if_neg hn.ne']

theorem kvShards_eq {f : ℕ → List ρ} (hlen : ∀ g < numKvHeads, (f g).length = headSize) {inferTpSize : ℕ}
    (hkv : 0 < numKvHeads) (hinfer : 0 < inferTpSize) (hshare : inferTpSize ∣ numKvHeads ∨ numKvHeads ∣ inferTpSize) :
    (if numKvHeads ≤ inferTpSize then
      (chunk numKvHeads ((List.range numKvHeads).flatMap f)).flatMap
        (List.replicate (inferTpSize / numKvHeads) ·)
    else chunk inferTpSize ((List.range numKvHeads).flatMap f)) =
      (List.range inferTpSize).map (fun i => (kvHeads numKvHeads inferTpSize i).flatMap f) := by
  unfold kvHeads
  split_ifs with hle
  · have hdvd : numKvHeads ∣ inferTpSize := by
      rcases hshare with h | h
      · have := Nat.le_antisymm (Nat.le_of_dvd hkv h) hle
        rw [this]
      · exact h
    obtain ⟨r, rfl⟩ := hdvd
    have hr : 0 < r := Nat.pos_of_mul_pos_left hinfer
    rw [chunk_pieces hkv hlen, List.flatMap_map, Nat.mul_div_cancel_left _ hkv, flatMap_replicate f _ _ hr]
    apply List.map_congr_left
    intro i _
    rw [List.flatMap_singleton, Nat.mul_comm i, Nat.mul_div_mul_left _ _ hkv]
  · have hdvd : inferTpSize ∣ numKvHeads := by
      rcases hshare with h | h
      · exact h
      · exact absurd (Nat.le_of_dvd hinfer h) hle
    rw [chunk_flatMap hinfer hdvd hlen]
    apply List.map_congr_left
    intro i _
    rw [List.flatMap_map]

theorem kvHeads_length {inferTpSize : ℕ} (hinfer : 0 < inferTpSize) (i : ℕ) :
    (kvHeads numKvHeads inferTpSize i).length = max 1 (numKvHeads / inferTpSize) := by
  unfold kvHeads
  split_ifs with hle
  · have := Nat.div_le_div_right (c := inferTpSize) hle
    rw [Nat.div_self hinfer] at this
    simpa using (Nat.max_eq_left this).symm
  · have := Nat.div_pos (Nat.le_of_not_le hle) hinfer
    rw [List.length_map, List.length_range]
    omega

theorem kvHeads_lt {inferTpSize i g : ℕ} (hkv : 0 < numKvHeads) (hi : i < inferTpSize)
    (hg : g ∈ kvHeads numKvHeads inferTpSize i) : g < numKvHeads := by
  unfold kvHeads at hg
  split_ifs at hg with hle
  · rw [List.mem_singleton] at hg
    rw [hg, Nat.div_lt_iff_lt_mul (Nat.zero_lt_of_lt hi), Nat.mul_comm numKvHeads]
    exact Nat.mul_lt_mul_of_pos_right hi hkv
  · obtain ⟨j, hj, rfl⟩ := List.mem_map.mp hg
    have hj := List.mem_range.mp hj
    calc i * (numKvHeads / inferTpSize) + j < (i + 1) * (numKvHeads / inferTpSize) := by
          rw [Nat.succ_mul]
          omega
      _ ≤ inferTpSize * (numKvHeads / inferTpSize) := Nat.mul_le_mul_right _ hi
      _ ≤ numKvHeads := Nat.mul_div_le _ _

theorem catRows_zip {n : ℕ} (hn : 0 < n) (q k v : ℕ → List ρ) :
    catRows ((((List.range n).map q).zip (((List.range n).map k).zip ((List.range n).map v))).flatMap
      (fun (q, k, v) => [q, k, v])) = .ok ((List.range n).flatMap (fun i => q i ++ k i ++ v i)) := by
  have hne : (List.range n).flatMap (fun i => [q i, k i, v i]) ≠ [] := by
    simpa [List.flatMap_eq_nil_iff] using ⟨0, hn⟩
  rw [List.zip_map', List.zip_map', List.flatMap_map, catRows, if_neg hne, ← List.flatMap_id, List.flatMap_assoc]
  simp

variable (hfull : full.length = numKvHeads * groupRows headsPerGroup headSize)
include hfull

theorem piece_length {a : ℕ} {g : ℕ} (hg : g < numKvHeads) (ha : a + headSize ≤ groupRows headsPerGroup headSize) :
    ((full.drop (g * groupRows headsPerGroup headSize + a)).take headSize).length = headSize := by
  have : (g + 1) * groupRows headsPerGroup headSize ≤ numKvHeads * groupRows headsPerGroup headSize :=
    Nat.mul_le_mul_right _ hg
  rw [Nat.succ_mul] at this
  rw [List.length_take, List.length_drop]
  omega

theorem queryHead_length {h : ℕ} (hh : h < numKvHeads * headsPerGroup) :
    (queryHead full headsPerGroup headSize h).length = headSize := by
  have hpos : 0 < headsPerGroup := by
    by_contra hzero
    have : headsPerGroup = 0 := by omega
    simp [this] at hh
  apply piece_length hfull ((Nat.div_lt_iff_lt_mul hpos).mpr hh)
  have hmod := Nat.mod_lt h hpos
  have hle : (h % headsPerGroup + 1) * headSize ≤ headsPerGroup * headSize := Nat.mul_le_mul_right headSize hmod
  rw [Nat.succ_mul] at hle
  rw [groupRows_eq, Nat.mul_comm headSize]
  omega

theorem keyHead_length {g : ℕ} (hg : g < numKvHeads) : (keyHead full headsPerGroup headSize g).length = headSize := by
  apply piece_length hfull hg
  rw [groupRows_eq, Nat.mul_comm headSize]
  omega

theorem valueHead_length {g : ℕ} (hg : g < numKvHeads) :
    (valueHead full headsPerGroup headSize g).length = headSize := by
  apply piece_length hfull hg
  rw [groupRows_eq, Nat.succ_mul, Nat.mul_comm headSize]

theorem splitGroups_eq (hkv : 0 < numKvHeads) :
    splitGroups full numKvHeads (headSize * headsPerGroup) headSize =
      .ok ((List.range (numKvHeads * headsPerGroup)).flatMap (queryHead full headsPerGroup headSize),
        (List.range numKvHeads).flatMap (keyHead full headsPerGroup headSize),
        (List.range numKvHeads).flatMap (valueHead full headsPerGroup headSize)) := by
  have hchunk := chunk_of_mul hkv hfull
  have hparts : (chunk numKvHeads full).mapM (splitRows [headSize * headsPerGroup, headSize, headSize]) =
      .ok ((chunk numKvHeads full).map (fun rows => [rows.take (headSize * headsPerGroup),
        (rows.drop (headSize * headsPerGroup)).take headSize,
        (rows.drop (headSize * headsPerGroup + headSize)).take headSize])) := by
    apply Except.mapM_of_forall_ok
    intro rows hrows
    rw [hchunk] at hrows
    obtain ⟨g, hg, rfl⟩ := List.mem_map.mp hrows
    have hlength := (block_length hfull (List.mem_range.mp hg)).trans groupRows_eq
    exact splitRows_three hlength
  have hne : List.range numKvHeads ≠ [] := by
    simpa using hkv.ne'
  rw [splitGroups, chunkRows_of_pos hkv, Except.ok_bind, hparts, Except.ok_bind, hchunk]
  simp only [List.map_map, Function.comp_def, List.getD_cons_zero, List.getD_cons_succ, groupQuery_eq,
    groupKey_eq, groupValue_eq]
  simp only [catRows, List.map_eq_nil_iff, hne, if_false, Except.ok_bind, ← List.flatMap_def]
  rw [← range_mul, List.flatMap_assoc]
  simp only [List.flatMap_map]

theorem merge_eq {inferTpSize : ℕ} (hkv : 0 < numKvHeads) (hinfer : 0 < inferTpSize)
    (hquery : inferTpSize ∣ numKvHeads * headsPerGroup)
    (hshare : inferTpSize ∣ numKvHeads ∨ numKvHeads ∣ inferTpSize) (replicas : ℕ)
    (hreplicas : numKvHeads ≤ inferTpSize → replicas = inferTpSize / numKvHeads) :
    mergeForInference ((List.range (numKvHeads * headsPerGroup)).flatMap (queryHead full headsPerGroup headSize))
      ((List.range numKvHeads).flatMap (keyHead full headsPerGroup headSize))
      ((List.range numKvHeads).flatMap (valueHead full headsPerGroup headSize)) inferTpSize numKvHeads replicas =
      .ok ((List.range inferTpSize).flatMap (rankRows full headsPerGroup headSize (numKvHeads * headsPerGroup)
        numKvHeads inferTpSize)) := by
  have hqueries := chunk_flatMap hinfer hquery (fun _ => queryHead_length hfull)
  have hkeys := kvShards_eq (fun _ => keyHead_length hfull) hkv hinfer hshare
  have hvalues := kvShards_eq (fun _ => valueHead_length hfull) hkv hinfer hshare
  unfold mergeForInference
  rw [chunkRows_of_pos hinfer, Except.ok_bind, hqueries]
  by_cases hle : numKvHeads ≤ inferTpSize
  · rw [if_pos hle] at hkeys hvalues ⊢
    rw [chunkRows_of_pos hkv, chunkRows_of_pos hkv, Except.ok_bind, Except.ok_bind, hreplicas hle, hkeys, hvalues,
      catRows_zip hinfer]
    rfl
  · rw [if_neg hle] at hkeys hvalues ⊢
    rw [chunkRows_of_pos hinfer, chunkRows_of_pos hinfer, Except.ok_bind, Except.ok_bind, hkeys, hvalues,
      catRows_zip hinfer]
    rfl

theorem rankRows_length {inferTpSize i : ℕ} (hkv : 0 < numKvHeads) (hi : i < inferTpSize) :
    (rankRows full headsPerGroup headSize (numKvHeads * headsPerGroup) numKvHeads inferTpSize i).length =
      (numKvHeads * headsPerGroup / inferTpSize + 2 * max 1 (numKvHeads / inferTpSize)) * headSize := by
  have hquery := length_flatMap_range (fun j (hj : j < numKvHeads * headsPerGroup / inferTpSize) =>
    queryHead_length hfull (h := i * (numKvHeads * headsPerGroup / inferTpSize) + j) (by
      calc i * (numKvHeads * headsPerGroup / inferTpSize) + j
          < (i + 1) * (numKvHeads * headsPerGroup / inferTpSize) := by
            rw [Nat.succ_mul]
            omega
        _ ≤ inferTpSize * (numKvHeads * headsPerGroup / inferTpSize) := Nat.mul_le_mul_right _ hi
        _ ≤ numKvHeads * headsPerGroup := Nat.mul_div_le _ _))
  have hheads : ∀ f : ℕ → List ρ, (∀ g < numKvHeads, (f g).length = headSize) →
      ((kvHeads numKvHeads inferTpSize i).flatMap f).length = max 1 (numKvHeads / inferTpSize) * headSize := by
    intro f hf
    rw [List.length_flatMap, ← kvHeads_length (Nat.zero_lt_of_lt hi) i]
    rw [List.map_congr_left (fun g hg => hf g (kvHeads_lt hkv hi hg))]
    simp
  have hkeys := hheads _ (fun g hg => keyHead_length hfull hg)
  have hvalues := hheads _ (fun g hg => valueHead_length hfull hg)
  rw [rankRows, List.length_append, List.length_append, hquery, hkeys, hvalues]
  ring

end Rows

section Weight

variable {α : Type} {cols : ℕ} {config : TransformerConfig} {headSize : ℕ} {full : List (Vector α cols)}

theorem transformMcoreQkvWeight_compact (hkv : 0 < config.numQueryGroups)
    (hgroups : config.numQueryGroups ∣ config.numAttentionHeads) (hsize : getHeadSize config = .ok headSize)
    (hcompact : full.length =
      config.numQueryGroups * groupRows (config.numAttentionHeads / config.numQueryGroups) headSize)
    {mpuTpSize : ℕ} {gathered : List (List (Vector α cols))} {weight : List (Vector α cols)}
    (hweight : getFullTensor mpuTpSize gathered weight = full) :
    transformMcoreQkvWeight mpuTpSize gathered weight config =
      splitGroups full config.numQueryGroups
        (headSize * (config.numAttentionHeads / config.numQueryGroups)) headSize := by
  have hdivide : divide config.numAttentionHeads config.numQueryGroups =
      .ok (config.numAttentionHeads / config.numQueryGroups) := by
    rw [divide, if_neg hkv.ne', if_pos (Nat.mod_eq_zero_of_dvd hgroups)]
  have hlength : full.length =
      (headSize * (config.numAttentionHeads / config.numQueryGroups) + 2 * headSize) * config.numQueryGroups := by
    rw [hcompact, groupRows]
    ring
  simp only [transformMcoreQkvWeight, hweight, hsize, hdivide, Except.ok_bind]
  rw [if_pos hlength]

theorem convertQkvWeight_compact {inferAttenTpSize : ℕ} (hinfer : 0 < inferAttenTpSize)
    (hkv : 0 < config.numQueryGroups) (hgroups : config.numQueryGroups ∣ config.numAttentionHeads)
    (hheads : inferAttenTpSize ∣ config.numAttentionHeads)
    (hshare : inferAttenTpSize ∣ config.numQueryGroups ∨ config.numQueryGroups ∣ inferAttenTpSize)
    (hsize : getHeadSize config = .ok headSize)
    (hcompact : full.length =
      config.numQueryGroups * groupRows (config.numAttentionHeads / config.numQueryGroups) headSize)
    {mpuTpSize : ℕ} {gathered : List (List (Vector α cols))} {weight : List (Vector α cols)}
    (hweight : getFullTensor mpuTpSize gathered weight = full) (trainTpRank trainTpSize : Option ℕ) :
    convertQkvWeightAlongTpAttention mpuTpSize gathered weight inferAttenTpSize config trainTpRank trainTpSize =
      trainShard ((List.range inferAttenTpSize).flatMap (rankRows full
        (config.numAttentionHeads / config.numQueryGroups) headSize config.numAttentionHeads
        config.numQueryGroups inferAttenTpSize)) trainTpRank trainTpSize := by
  have hreplicas : (if config.numQueryGroups ≤ inferAttenTpSize then divide inferAttenTpSize config.numQueryGroups
      else .ok 1) = (.ok (if config.numQueryGroups ≤ inferAttenTpSize then
        inferAttenTpSize / config.numQueryGroups else 1) : Except ConvertError ℕ) := by
    split_ifs with hle
    · have hdvd : config.numQueryGroups ∣ inferAttenTpSize := by
        rcases hshare with h | h
        · rw [Nat.le_antisymm (Nat.le_of_dvd hkv h) hle]
        · exact h
      rw [divide, if_neg hkv.ne', if_pos (Nat.mod_eq_zero_of_dvd hdvd)]
    · rfl
  have hmerge := merge_eq hcompact hkv hinfer (by rwa [Nat.mul_div_cancel' hgroups]) hshare
    (if config.numQueryGroups ≤ inferAttenTpSize then inferAttenTpSize / config.numQueryGroups else 1)
    (fun hle => if_pos hle)
  rw [Nat.mul_div_cancel' hgroups] at hmerge
  have hsplit := splitGroups_eq hcompact hkv
  rw [Nat.mul_div_cancel' hgroups] at hsplit
  unfold convertQkvWeightAlongTpAttention
  rw [hreplicas, Except.ok_bind, transformMcoreQkvWeight_compact hkv hgroups hsize hcompact hweight, hsplit,
    Except.ok_bind]
  simp only [hmerge, Except.ok_bind]

theorem trainShard_flatten {ρ : Type} {merged : List ρ} {trainTpSize : ℕ} (htrain : 0 < trainTpSize)
    {shards : List (List ρ)} (hshards : (List.range trainTpSize).mapM (fun rank =>
      trainShard merged (some rank) (some trainTpSize)) = .ok shards) : shards.flatten = merged := by
  by_cases hone : 1 < trainTpSize
  · have hstep : ∀ rank shard, trainShard merged (some rank) (some trainTpSize) = .ok shard →
        (chunk trainTpSize merged)[rank]? = some shard := by
      intro rank shard hshard
      rw [trainShard, Option.getD_some, if_pos hone] at hshard
      rw [chunkRows_of_pos htrain, Except.ok_bind] at hshard
      split at hshard
      · next s hs => rw [hs, Except.ok.inj hshard]
      · cases hshard
    have hall := Except.mapM_eq_ok.mp hshards
    have hsame : shards = chunk trainTpSize merged := by
      apply List.ext_getElem?
      intro rank
      by_cases hrank : rank < trainTpSize
      · have hlt : rank < shards.length := by
          rw [← hall.length_eq, List.length_range]
          exact hrank
        rw [List.getElem?_eq_getElem hlt]
        symm
        apply hstep
        have := List.forall₂_iff_get.mp hall
        simpa using this.2 rank (by simpa using hrank) hlt
      · have hshort : shards.length ≤ rank := by
          rw [← hall.length_eq, List.length_range]
          omega
        have hcount := length_chunk_le htrain merged
        rw [List.getElem?_eq_none hshort, List.getElem?_eq_none (by omega)]
    rw [hsame, flatten_chunk htrain]
  · obtain rfl : trainTpSize = 1 := by omega
    have hshards : [merged] = shards := Except.ok.inj hshards
    rw [← hshards, List.flatten_singleton]

/-- The blocks of the merged matrix are what the inference ranks have to hold, and the training ranks send
all of it. -/
theorem qkv_regrouped (config : TransformerConfig) (inferAttenTpSize headSize : ℕ) (full : List (Vector α cols))
    (hinfer : 0 < inferAttenTpSize) (hkv : 0 < config.numQueryGroups)
    (hgroups : config.numQueryGroups ∣ config.numAttentionHeads)
    (hheads : inferAttenTpSize ∣ config.numAttentionHeads)
    (hshare : inferAttenTpSize ∣ config.numQueryGroups ∨ config.numQueryGroups ∣ inferAttenTpSize)
    (hsize : getHeadSize config = .ok headSize)
    (hcompact : full.length =
      config.numQueryGroups * groupRows (config.numAttentionHeads / config.numQueryGroups) headSize) :
    ∃ merged rows,
      (∀ mpuTpSize gathered weight, getFullTensor mpuTpSize gathered weight = full →
        convertQkvWeightAlongTpAttention mpuTpSize gathered weight inferAttenTpSize config none none = .ok merged) ∧
      merged.length = inferAttenTpSize * rows ∧
      (∀ i < inferAttenTpSize, block merged rows i =
        rankRows full (config.numAttentionHeads / config.numQueryGroups) headSize config.numAttentionHeads
          config.numQueryGroups inferAttenTpSize i) ∧
      ∀ trainTpSize, 0 < trainTpSize → ∀ mpuTpSize gathered (weights : ℕ → List (Vector α cols)),
        (∀ rank < trainTpSize, getFullTensor mpuTpSize gathered (weights rank) = full) →
        ∀ shards, (List.range trainTpSize).mapM (fun rank =>
          convertQkvWeightAlongTpAttention mpuTpSize gathered (weights rank) inferAttenTpSize config (some rank)
            (some trainTpSize)) = .ok shards →
        shards.flatten = merged := by
  have hconvert := fun mpuTpSize gathered weight
      (hweight : getFullTensor mpuTpSize gathered weight = full) trainTpRank trainTpSize =>
    convertQkvWeight_compact hinfer hkv hgroups hheads hshare hsize hcompact hweight trainTpRank trainTpSize
  have hlength := fun i (hi : i < inferAttenTpSize) => rankRows_length hcompact hkv hi
  rw [Nat.mul_div_cancel' hgroups] at hlength
  refine ⟨_, _, ?_, length_flatMap_range hlength, ?_, ?_⟩
  · intro mpuTpSize gathered weight hweight
    exact hconvert mpuTpSize gathered weight hweight none none
  · intro i hi
    exact block_map_flatten hlength hi
  · intro trainTpSize htrain mpuTpSize gathered weights hweights shards hshards
    apply trainShard_flatten htrain
    rw [← hshards]
    apply Except.mapM_congr
    intro rank hrank
    exact (hconvert mpuTpSize gathered _ (hweights rank (List.mem_range.mp hrank)) _ _).symm

def twoHeads : TransformerConfig := ⟨4, 2, 1, none⟩

def twoHeadsRows : List (Vector ℕ 4) := (List.range 8).map (Vector.replicate 4)

theorem qkv_regrouped_twoHeads : ∃ merged,
    convertQkvWeightAlongTpAttention 1 [] twoHeadsRows 2 twoHeads none none = .ok merged ∧
    (∀ i < 2, ∃ rows, block merged rows i = rankRows twoHeadsRows 2 2 2 1 2 i) ∧
    ∀ shards, (List.range 4).mapM (fun rank =>
      convertQkvWeightAlongTpAttention 1 [] twoHeadsRows 2 twoHeads (some rank) (some 4)) = .ok shards →
      shards.flatten = merged := by
  obtain ⟨merged, rows, hmerged, _, hblocks, hshards⟩ :=
    qkv_regrouped twoHeads 2 2 twoHeadsRows (by decide) (by decide) (by decide) (by decide)
      (by decide) rfl rfl
  refine ⟨merged, hmerged 1 [] twoHeadsRows rfl, ?_, ?_⟩
  · intro i hi
    exact ⟨rows, hblocks i hi⟩
  · intro shards h
    exact hshards 4 (by decide) 1 [] (fun _ => twoHeadsRows) (fun _ _ => rfl) shards h

end Weight

end Awex
