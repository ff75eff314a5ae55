import Awex.Library.Pieces
import Awex.QkvAgreement

namespace Awex

open Chunks

/-- A row of the transformed query, key or value. -/
inductive QkvRow where
  | query (i : ℕ)
  | key (i : ℕ)
  | value (i : ℕ)
  deriving DecidableEq, Repr

def QkvRow.read {ρ : Type} (query key value : List ρ) : QkvRow → Option ρ
  | .query i => query[i]?
  | .key i => key[i]?
  | .value i => value[i]?

/-- Which row each row of the merged tensor is. -/
def mergedSources (queryRows kvRows inferAttenTpSize numKvHeads numKvHeadReplicas : ℕ) :
    Except ConvertError (List QkvRow) :=
  mergeForInference ((List.range queryRows).map .query) ((List.range kvRows).map .key)
    ((List.range kvRows).map .value) inferAttenTpSize numKvHeads numKvHeadReplicas

/-- No piece is left over when those of the query are zipped with those of the keys. -/
def KeepsRows (queryRows kvRows inferAttenTpSize numKvHeads : ℕ) : Prop :=
  if numKvHeads ≤ inferAttenTpSize then
    (queryRows = 0 ∨ pieces inferAttenTpSize queryRows ≤ pieces numKvHeads kvRows * (inferAttenTpSize / numKvHeads)) ∧
      (kvRows = 0 ∨
        (pieces numKvHeads kvRows - 1) * (inferAttenTpSize / numKvHeads) < pieces inferAttenTpSize queryRows)
  else
    (queryRows = 0 ∨ pieces inferAttenTpSize queryRows ≤ pieces inferAttenTpSize kvRows) ∧
      (kvRows = 0 ∨ pieces inferAttenTpSize kvRows ≤ pieces inferAttenTpSize queryRows)

instance (queryRows kvRows inferAttenTpSize numKvHeads : ℕ) :
    Decidable (KeepsRows queryRows kvRows inferAttenTpSize numKvHeads) :=
  inferInstanceAs (Decidable (ite _ _ _))

section Merge

variable {ρ ρ' : Type}

/-- The zipped pieces: those of the keys and values are made of `n` ones, each taken `r` times. -/
def zippedPieces (query key value : List ρ) (inferAttenTpSize n r : ℕ) : List ρ :=
  (List.range (min (pieces inferAttenTpSize query.length) (pieces n key.length * r))).flatMap (fun j =>
    block query (chunkSize inferAttenTpSize query.length) j ++ block key (chunkSize n key.length) (j / r) ++
      block value (chunkSize n value.length) (j / r))

theorem zip_pieces (query key value : List ρ) {inferAttenTpSize n r : ℕ} (hinfer : 0 < inferAttenTpSize)
    (hn : 0 < n) (hr : 0 < r) (hkv : key.length = value.length) :
    catRows (((chunk inferAttenTpSize query).zip (((chunk n key).flatMap (List.replicate r ·)).zip
      ((chunk n value).flatMap (List.replicate r ·)))).flatMap (fun (q, k, v) => [q, k, v])) =
      .ok (zippedPieces query key value inferAttenTpSize n r) := by
  have hreplicate : ∀ xs : List ρ, (chunk n xs).flatMap (List.replicate r ·) =
      (List.range (pieces n xs.length * r)).map (fun j => block xs (chunkSize n xs.length) (j / r)) := by
    intro xs
    rw [chunk_eq, List.flatMap_map, flatMap_replicate _ _ _ hr]
  have hpos : 0 < min (pieces inferAttenTpSize query.length) (pieces n key.length * r) := by
    have hquery := pieces_pos hinfer query.length
    have hkey := Nat.mul_pos (pieces_pos hn key.length) hr
    omega
  rw [hreplicate, hreplicate, ← hkv, List.zip_map', chunk_eq, zip_map_range, List.flatMap_map, catRows, if_neg,
    ← List.flatMap_id, List.flatMap_assoc, zippedPieces, ← hkv]
  · simp
  · rw [List.flatMap_eq_nil_iff]
    intro hnil
    exact absurd (hnil 0 (List.mem_range.mpr hpos)) (by simp)

theorem mergeForInference_eq (query key value : List ρ) {inferAttenTpSize numKvHeads replicas : ℕ}
    (hinfer : 0 < inferAttenTpSize) (hkv : 0 < numKvHeads) (hlength : key.length = value.length)
    (hreplicas : numKvHeads ≤ inferAttenTpSize → 0 < replicas) :
    mergeForInference query key value inferAttenTpSize numKvHeads replicas = .ok
      (if numKvHeads ≤ inferAttenTpSize then zippedPieces query key value inferAttenTpSize numKvHeads replicas
      else zippedPieces query key value inferAttenTpSize inferAttenTpSize 1) := by
  unfold mergeForInference
  rw [chunkRows_of_pos hinfer, Except.ok_bind]
  split_ifs with hle
  · rw [chunkRows_of_pos hkv, chunkRows_of_pos hkv, Except.ok_bind, Except.ok_bind]
    exact zip_pieces query key value hinfer hkv (hreplicas hle) hlength
  · have hone : ∀ xs : List ρ, (chunk inferAttenTpSize xs).flatMap (List.replicate 1 ·) = chunk inferAttenTpSize xs := by
      intro xs
      simp
    have hzip := zip_pieces query key value hinfer hinfer Nat.one_pos hlength
    rw [hone, hone] at hzip
    rw [chunkRows_of_pos hinfer, chunkRows_of_pos hinfer, Except.ok_bind, Except.ok_bind]
    exact hzip

theorem zippedPieces_map (f : ρ → ρ') (query key value : List ρ) (inferAttenTpSize n r : ℕ) :
    zippedPieces (query.map f) (key.map f) (value.map f) inferAttenTpSize n r =
      (zippedPieces query key value inferAttenTpSize n r).map f := by
  simp only [zippedPieces, List.length_map, List.map_flatMap, List.map_append, block_map]

end Merge

section Sources

variable {queryRows kvRows inferAttenTpSize numKvHeads replicas n r : ℕ}

def QkvRow.Valid (queryRows kvRows : ℕ) : QkvRow → Prop
  | .query i => i < queryRows
  | .key i => i < kvRows
  | .value i => i < kvRows

theorem mem_block_labels {label : ℕ → QkvRow} (hlabel : Function.Injective label) {length size i j : ℕ}
    (hsize : i < length → 0 < size) :
    label i ∈ block ((List.range length).map label) size j ↔ i < length ∧ i / size = j := by
  rw [block_map, List.mem_map_of_injective hlabel]
  by_cases hi : i < length
  · exact mem_block_range (hsize hi)
  · refine iff_of_false ?_ (fun h => hi h.1)
    intro hmem
    exact hi (List.mem_range.mp (List.mem_of_mem_drop (List.mem_of_mem_take hmem)))

theorem not_mem_block_labels (label : ℕ → QkvRow) (row : QkvRow) (hrow : ∀ i, label i ≠ row) (length size j : ℕ) :
    row ∉ block ((List.range length).map label) size j := by
  rw [block_map, List.mem_map]
  rintro ⟨i, -, h⟩
  exact hrow i h

theorem mem_zippedPieces_labels (hinfer : 0 < inferAttenTpSize) (hn : 0 < n) (hr : 0 < r) (row : QkvRow)
    (hvalid : row.Valid queryRows kvRows) :
    row ∈ zippedPieces ((List.range queryRows).map .query) ((List.range kvRows).map .key)
        ((List.range kvRows).map .value) inferAttenTpSize n r ↔
      match row with
      | .query i => i / chunkSize inferAttenTpSize queryRows <
          min (pieces inferAttenTpSize queryRows) (pieces n kvRows * r)
      | .key i => i / chunkSize n kvRows * r < min (pieces inferAttenTpSize queryRows) (pieces n kvRows * r)
      | .value i => i / chunkSize n kvRows * r < min (pieces inferAttenTpSize queryRows) (pieces n kvRows * r) := by
  have hquerySize : ∀ i, i < queryRows → 0 < chunkSize inferAttenTpSize queryRows :=
    fun i hi => chunkSize_pos hinfer (Nat.zero_lt_of_lt hi)
  have hkvSize : ∀ i, i < kvRows → 0 < chunkSize n kvRows := fun i hi => chunkSize_pos hn (Nat.zero_lt_of_lt hi)
  simp only [zippedPieces, List.length_map, List.length_range, List.mem_flatMap, List.mem_range, List.mem_append]
  cases row with
  | query i =>
    have hlabel : Function.Injective QkvRow.query := fun _ _ h => QkvRow.query.inj h
    simp only [mem_block_labels hlabel (hquerySize i), not_mem_block_labels .key (.query i) nofun,
      not_mem_block_labels .value (.query i) nofun, or_false]
    exact ⟨fun ⟨j, hj, _, h⟩ => h ▸ hj, fun h => ⟨_, h, hvalid, rfl⟩⟩
  | key i =>
    have hlabel : Function.Injective QkvRow.key := fun _ _ h => QkvRow.key.inj h
    simp only [mem_block_labels hlabel (hkvSize i), not_mem_block_labels .query (.key i) nofun,
      not_mem_block_labels .value (.key i) nofun, or_false, false_or]
    rw [← exists_div_eq_iff hr]
    exact ⟨fun ⟨j, hj, _, h⟩ => ⟨j, hj, h.symm⟩, fun ⟨j, hj, h⟩ => ⟨j, hj, hvalid, h.symm⟩⟩
  | value i =>
    have hlabel : Function.Injective QkvRow.value := fun _ _ h => QkvRow.value.inj h
    simp only [mem_block_labels hlabel (hkvSize i), not_mem_block_labels .query (.value i) nofun,
      not_mem_block_labels .key (.value i) nofun, false_or]
    rw [← exists_div_eq_iff hr]
    exact ⟨fun ⟨j, hj, _, h⟩ => ⟨j, hj, h.symm⟩, fun ⟨j, hj, h⟩ => ⟨j, hj, hvalid, h.symm⟩⟩

theorem zippedPieces_complete_iff (queryRows kvRows : ℕ) (hinfer : 0 < inferAttenTpSize) (hn : 0 < n) (hr : 0 < r) :
    (∀ row : QkvRow, row.Valid queryRows kvRows →
      row ∈ zippedPieces ((List.range queryRows).map .query) ((List.range kvRows).map .key)
        ((List.range kvRows).map .value) inferAttenTpSize n r) ↔
      (queryRows = 0 ∨ pieces inferAttenTpSize queryRows ≤ pieces n kvRows * r) ∧
        (kvRows = 0 ∨ (pieces n kvRows - 1) * r < pieces inferAttenTpSize queryRows) := by
  have hlast : (pieces n kvRows - 1) * r < pieces n kvRows * r :=
    Nat.mul_lt_mul_of_pos_right (Nat.sub_lt (pieces_pos hn kvRows) Nat.one_pos) hr
  have hquery := forall_div_lt_iff hinfer queryRows (min (pieces inferAttenTpSize queryRows) (pieces n kvRows * r))
  have hkv := forall_div_mul_lt_iff hn kvRows (min (pieces inferAttenTpSize queryRows) (pieces n kvRows * r)) r
  rw [le_min_iff, and_iff_right le_rfl] at hquery
  rw [lt_min_iff, and_iff_left hlast] at hkv
  rw [← hquery, ← hkv]
  have hmem := fun row (hrow : QkvRow.Valid queryRows kvRows row) => mem_zippedPieces_labels hinfer hn hr row hrow
  constructor
  · intro h
    exact ⟨fun i hi => (hmem (.query i) hi).mp (h (.query i) hi), fun i hi => (hmem (.key i) hi).mp (h (.key i) hi)⟩
  · rintro ⟨hq, hk⟩ row hrow
    apply (hmem row hrow).mpr
    cases row with
    | query i => exact hq i hrow
    | key i => exact hk i hrow
    | value i => exact hk i hrow

end Sources

section Counts

/-- How many rows the transformed query and the transformed key and value have, from the sizes alone. -/
def qkvRowCounts (config : TransformerConfig) (headSize length cols : ℕ) : ℕ × ℕ :=
  if length = (headSize * (config.numAttentionHeads / config.numQueryGroups) + 2 * headSize) *
      config.numQueryGroups then
    (config.numAttentionHeads * headSize, config.numQueryGroups * headSize)
  else if length = 3 * config.hiddenSize then
    (config.hiddenSize, config.numQueryGroups * (config.hiddenSize * cols / config.numAttentionHeads) / cols)
  else (2 * config.hiddenSize, config.hiddenSize)

def HasCounts {ρ : Type} (counts : ℕ × ℕ) (parts : List ρ × List ρ × List ρ) : Prop :=
  parts.1.length = counts.1 ∧ parts.2.1.length = counts.2 ∧ parts.2.2.length = counts.2

variable {ρ : Type} {full : List ρ} {numKvHeads headsPerGroup headSize : ℕ} {parts : List ρ × List ρ × List ρ}

theorem splitGroups_counts (hkv : 0 < numKvHeads) (hfull : full.length = numKvHeads * groupRows headsPerGroup headSize)
    (h : splitGroups full numKvHeads (headSize * headsPerGroup) headSize = .ok parts) :
    HasCounts (numKvHeads * headsPerGroup * headSize, numKvHeads * headSize) parts := by
  rw [splitGroups_eq hfull hkv] at h
  obtain rfl := Except.ok.inj h
  refine ⟨?_, ?_, ?_⟩
  · exact length_flatMap_range (fun _ hh => queryHead_length hfull hh)
  · exact length_flatMap_range (fun _ hg => keyHead_length hfull hg)
  · exact length_flatMap_range (fun _ hg => valueHead_length hfull hg)

theorem splitGroups_size {size : ℕ} (hkv : 0 < numKvHeads) (hfull : full.length = numKvHeads * size)
    (h : splitGroups full numKvHeads (headSize * headsPerGroup) headSize = .ok parts) :
    size = groupRows headsPerGroup headSize := by
  unfold splitGroups at h
  rw [chunkRows_of_pos hkv, Except.ok_bind, chunk_of_mul hkv hfull] at h
  obtain ⟨groups, hgroups, -⟩ := Except.bind_eq_ok.mp h
  obtain ⟨first, hfirst⟩ := Except.mapM_isOk.mp ⟨groups, hgroups⟩ (block full size 0)
    (List.mem_map_of_mem (List.mem_range.mpr hkv))
  unfold splitRows at hfirst
  split at hfirst
  · rename_i sizes hsizes
    have hsum := splitSizes_sum hsizes
    rw [block_length hfull hkv] at hsum
    rw [hsum, groupRows_eq]
    simp [Nat.add_assoc]
  · cases hfirst

end Counts

section Transform

variable {α : Type} {cols : ℕ} {config : TransformerConfig} {headSize headsPerKvGroup trainTpSize : ℕ}

theorem length_flatMap_toList (rows : List (Vector α cols)) : (rows.flatMap (·.toList)).length = rows.length * cols := by
  rw [List.length_flatMap]
  simp

theorem reshapeRows_length {elements : List α} {rows : List (Vector α cols)} (h : reshapeRows elements = .ok rows) :
    rows.length = elements.length / cols := by
  unfold reshapeRows at h
  split_ifs at h with hshape
  obtain ⟨hcols, hmod⟩ := not_or.mp hshape
  rw [not_not] at hmod
  have hlength : elements.length = elements.length / cols * cols :=
    (Nat.div_mul_cancel (Nat.dvd_of_mod_eq_zero hmod)).symm
  rw [← Except.ok.inj h, List.filterMap_length_eq_length.mpr, List.length_range]
  intro i hi
  rw [dif_pos (block_length hlength (List.mem_range.mp hi))]
  rfl

theorem uniqueHeads_length {rows unique : List (Vector α cols)} {numHeads numKvHeads : ℕ}
    (hgroups : numKvHeads * headsPerKvGroup = numHeads)
    (h : uniqueHeads rows numHeads headSize numKvHeads headsPerKvGroup = .ok unique) :
    unique.length = numKvHeads * (rows.length * cols / numHeads) / cols := by
  unfold uniqueHeads at h
  dsimp only at h
  rw [length_flatMap_toList] at h
  split_ifs at h with hshape
  obtain ⟨hpos, hmod⟩ := not_or.mp hshape
  rw [not_not] at hmod
  have hheads : 0 < numHeads := by
    apply Nat.pos_of_ne_zero
    rintro hzero
    exact hpos (by rw [hzero, Nat.zero_mul])
  have hgroup : 0 < headsPerKvGroup := by
    apply Nat.pos_of_ne_zero
    rintro hzero
    rw [hzero, Nat.mul_zero] at hgroups
    omega
  have hdvd : numHeads ∣ rows.length * cols :=
    Nat.dvd_trans (Nat.dvd_mul_right _ _) (Nat.dvd_of_mod_eq_zero hmod)
  obtain ⟨heads, hcat, hreshape⟩ := Except.bind_eq_ok.mp h
  unfold catRows at hcat
  split_ifs at hcat
  rw [reshapeRows_length hreshape, ← Except.ok.inj hcat, ← List.flatMap_def]
  congr 1
  apply length_flatMap_range
  intro i hi
  apply block_length (n := numHeads)
  · rw [length_flatMap_toList, Nat.mul_div_cancel' hdvd]
  · rw [← hgroups]
    exact Nat.mul_lt_mul_of_pos_right hi hgroup

variable (hsize : getHeadSize config = .ok headSize)
  (hdivide : divide config.numAttentionHeads config.numQueryGroups = .ok headsPerKvGroup)
include hsize hdivide

omit hsize in
theorem compact_counts {ρ : Type} {full : List ρ} {parts : List ρ × List ρ × List ρ}
    (hcompact : full.length = (headSize * headsPerKvGroup + 2 * headSize) * config.numQueryGroups)
    (h : splitGroups full config.numQueryGroups (headSize * headsPerKvGroup) headSize = .ok parts) :
    HasCounts (config.numAttentionHeads * headSize, config.numQueryGroups * headSize) parts := by
  obtain ⟨hkv, hgroups⟩ := divide_eq_ok hdivide
  rw [← hgroups]
  apply splitGroups_counts hkv _ h
  rw [hcompact, groupRows]
  ring

theorem transformMcoreQkvBias_counts {gathered : List (List α)} {bias full : List α}
    {parts : List α × List α × List α} (hfull : getFullTensor trainTpSize gathered bias = full)
    (h : transformMcoreQkvBias trainTpSize gathered bias config = .ok parts) :
    HasCounts (qkvRowCounts config headSize full.length 1) parts := by
  obtain ⟨hkv, hgroups⟩ := divide_eq_ok hdivide
  have hquotient : config.numAttentionHeads / config.numQueryGroups = headsPerKvGroup := by
    rw [← hgroups, Nat.mul_div_cancel_left _ hkv]
  by_cases hreplicated : full.length = 3 * config.hiddenSize
  · obtain ⟨hhidden, hheads⟩ := transformMcoreQkvBias_hidden hfull hsize hdivide h hkv hreplicated
    rw [transformMcoreQkvBias_replicated hfull hsize hdivide hkv hheads hgroups hhidden hreplicated] at h
    obtain rfl := Except.ok.inj h
    have hlength : full.length = 3 * config.numAttentionHeads * headSize := by
      rw [hreplicated, hhidden, Nat.mul_assoc]
    have hcounts : HasCounts (config.numAttentionHeads * headSize, config.numQueryGroups * headSize)
        (replicatedParts full config.numAttentionHeads headSize config.numQueryGroups headsPerKvGroup) := by
      refine ⟨?_, ?_, ?_⟩
      · exact length_flatMap_range (fun g hg => block_length hlength (by omega))
      · exact length_flatMap_range (fun g hg => block_length hlength (by have := groupHead_lt hheads hgroups hg; omega))
      · exact length_flatMap_range (fun g hg => block_length hlength (by have := groupHead_lt hheads hgroups hg; omega))
    unfold qkvRowCounts
    split_ifs
    · exact hcounts
    · rw [Nat.mul_one, Nat.div_one, hhidden, Nat.mul_div_cancel_left _ hheads]
      exact hcounts
  · have hcompact := (transformMcoreQkvBias_length hfull hsize hdivide h).resolve_left hreplicated
    rw [transformMcoreQkvBias_compact hfull hsize hdivide hreplicated hcompact] at h
    rw [qkvRowCounts, hquotient, if_pos hcompact]
    exact compact_counts hdivide hcompact h

theorem transformMcoreQkvWeight_counts {gathered : List (List (Vector α cols))} {weight full : List (Vector α cols)}
    {parts : List (Vector α cols) × List (Vector α cols) × List (Vector α cols)}
    (hfull : getFullTensor trainTpSize gathered weight = full)
    (h : transformMcoreQkvWeight trainTpSize gathered weight config = .ok parts) :
    HasCounts (qkvRowCounts config headSize full.length cols) parts := by
  obtain ⟨hkv, hgroups⟩ := divide_eq_ok hdivide
  have hquotient : config.numAttentionHeads / config.numQueryGroups = headsPerKvGroup := by
    rw [← hgroups, Nat.mul_div_cancel_left _ hkv]
  simp only [transformMcoreQkvWeight, hfull, hsize, hdivide, Except.ok_bind] at h
  rw [qkvRowCounts, hquotient]
  by_cases hcompact : full.length = (headSize * headsPerKvGroup + 2 * headSize) * config.numQueryGroups
  · rw [if_pos hcompact] at h ⊢
    exact compact_counts hdivide hcompact h
  · rw [if_neg hcompact] at h ⊢
    by_cases hreplicated : full.length = 3 * config.hiddenSize
    · rw [if_pos hreplicated] at h ⊢
      have hthirds : full.length = config.hiddenSize + config.hiddenSize + config.hiddenSize := by omega
      rw [splitRows_three hthirds, Except.ok_bind] at h
      simp only [List.getD_cons_zero, List.getD_cons_succ] at h
      obtain ⟨key, hkey, h⟩ := Except.bind_eq_ok.mp h
      obtain ⟨value, hvalue, h⟩ := Except.bind_eq_ok.mp h
      obtain rfl := Except.ok.inj h
      have hthird : ∀ start ≤ 2 * config.hiddenSize,
          ((full.drop start).take config.hiddenSize).length = config.hiddenSize := by
        intro start hstart
        rw [List.length_take, List.length_drop]
        omega
      refine ⟨?_, ?_, ?_⟩
      · exact hthird 0 (Nat.zero_le _)
      · rw [uniqueHeads_length hgroups hkey, hthird _ (by omega)]
      · rw [uniqueHeads_length hgroups hvalue, hthird _ (by omega)]
    · rw [if_neg hreplicated] at h ⊢
      split_ifs at h with hqwen3
      obtain ⟨groupSize, hgroupSize, h⟩ := Except.bind_eq_ok.mp h
      obtain ⟨-, hhidden⟩ := divide_eq_ok hgroupSize
      have hfour : full.length = config.numQueryGroups * (4 * groupSize) := by
        rw [hqwen3, ← hhidden]
        ring
      have hgroup := splitGroups_size hkv hfour h
      have hcounts := splitGroups_counts hkv (hgroup ▸ hfour) h
      have htwo : headsPerKvGroup * groupSize = 2 * groupSize := by
        rw [groupRows, Nat.add_mul] at hgroup
        omega
      rwa [Nat.mul_assoc, htwo, Nat.mul_left_comm, hhidden] at hcounts

end Transform

section Kept

variable {ρ : Type} {inferAttenTpSize numKvHeads replicas : ℕ} {parts : List ρ × List ρ × List ρ} {merged : List ρ}
  {sources : List QkvRow}

def mergeReplicas (inferAttenTpSize numKvHeads : ℕ) : ℕ :=
  if numKvHeads ≤ inferAttenTpSize then inferAttenTpSize / numKvHeads else 1

/-- What the parts are merged to, and the rows that it is made of. -/
structure MergedFrom (inferAttenTpSize numKvHeads : ℕ) (parts : List ρ × List ρ × List ρ) (merged : List ρ)
    (sources : List QkvRow) : Prop where
  merge : mergeForInference parts.1 parts.2.1 parts.2.2 inferAttenTpSize numKvHeads
    (mergeReplicas inferAttenTpSize numKvHeads) = .ok merged
  labelled : mergedSources parts.1.length parts.2.1.length inferAttenTpSize numKvHeads
    (mergeReplicas inferAttenTpSize numKvHeads) = .ok sources
  rows : merged.map some = sources.map (QkvRow.read parts.1 parts.2.1 parts.2.2)

def DropsNoRow (parts : List ρ × List ρ × List ρ) (sources : List QkvRow) : Prop :=
  ∀ row : QkvRow, row.Valid parts.1.length parts.2.1.length → row ∈ sources

theorem map_read_labels (xs : List ρ) (label : ℕ → QkvRow) (read : QkvRow → Option ρ)
    (h : ∀ i, read (label i) = xs[i]?) : ((List.range xs.length).map label).map read = xs.map some := by
  apply List.ext_getElem
  · simp
  · intro i hi hi'
    simp only [List.length_map, List.length_range] at hi hi'
    simp [h]

theorem MergedFrom.mem (h : MergedFrom inferAttenTpSize numKvHeads parts merged sources)
    (hkv : parts.2.1.length = parts.2.2.length) (hall : DropsNoRow parts sources) :
    ∀ row ∈ parts.1 ++ parts.2.1 ++ parts.2.2, row ∈ merged := by
  have hread : ∀ (source : QkvRow) row, source.read parts.1 parts.2.1 parts.2.2 = some row →
      source.Valid parts.1.length parts.2.1.length → row ∈ merged := by
    intro source row hrow hvalid
    have hmem : some row ∈ merged.map some := by
      rw [h.rows, ← hrow]
      exact List.mem_map_of_mem (hall source hvalid)
    simpa using hmem
  intro row hrow
  rw [List.mem_append, List.mem_append] at hrow
  obtain (hrow | hrow) | hrow := hrow
  · obtain ⟨i, hi, rfl⟩ := List.getElem_of_mem hrow
    exact hread (.query i) _ (List.getElem?_eq_getElem hi) hi
  · obtain ⟨i, hi, rfl⟩ := List.getElem_of_mem hrow
    exact hread (.key i) _ (List.getElem?_eq_getElem hi) hi
  · obtain ⟨i, hi, rfl⟩ := List.getElem_of_mem hrow
    exact hread (.value i) _ (List.getElem?_eq_getElem hi) (hkv ▸ hi)

theorem mergeForInference_sources (hinfer : 0 < inferAttenTpSize) (hkv : 0 < numKvHeads)
    (hlength : parts.2.1.length = parts.2.2.length)
    (h : mergeForInference parts.1 parts.2.1 parts.2.2 inferAttenTpSize numKvHeads
      (mergeReplicas inferAttenTpSize numKvHeads) = .ok merged) :
    ∃ sources, MergedFrom inferAttenTpSize numKvHeads parts merged sources ∧
      (DropsNoRow parts sources ↔ KeepsRows parts.1.length parts.2.1.length inferAttenTpSize numKvHeads) := by
  have hreplicas : numKvHeads ≤ inferAttenTpSize → 0 < mergeReplicas inferAttenTpSize numKvHeads := by
    intro hle
    rw [mergeReplicas, if_pos hle]
    exact Nat.div_pos hle hkv
  have hmerged := (mergeForInference_eq parts.1 parts.2.1 parts.2.2 hinfer hkv hlength hreplicas).symm.trans h
  have hsources := mergeForInference_eq ((List.range parts.1.length).map QkvRow.query)
    ((List.range parts.2.1.length).map QkvRow.key) ((List.range parts.2.1.length).map QkvRow.value) hinfer hkv
    (by rw [List.length_map, List.length_map]) hreplicas
  have hquery := map_read_labels parts.1 .query (QkvRow.read parts.1 parts.2.1 parts.2.2) (fun _ => rfl)
  have hkey := map_read_labels parts.2.1 .key (QkvRow.read parts.1 parts.2.1 parts.2.2) (fun _ => rfl)
  have hvalue := map_read_labels parts.2.2 .value (QkvRow.read parts.1 parts.2.1 parts.2.2) (fun _ => rfl)
  refine ⟨_, ⟨h, hsources, ?_⟩, ?_⟩
  · rw [← Except.ok.inj hmerged]
    split_ifs
    · rw [← zippedPieces_map, ← zippedPieces_map, hquery, hkey, hlength, hvalue]
    · rw [← zippedPieces_map, ← zippedPieces_map, hquery, hkey, hlength, hvalue]
  · unfold DropsNoRow KeepsRows mergeReplicas
    split_ifs with hle
    · exact zippedPieces_complete_iff _ _ hinfer hkv (Nat.div_pos hle hkv)
    · have hone := zippedPieces_complete_iff parts.1.length parts.2.1.length hinfer hinfer Nat.one_pos
      have hpieces := pieces_pos hinfer parts.2.1.length
      rw [Nat.mul_one, Nat.mul_one] at hone
      rw [hone]
      apply and_congr_right
      intro _
      apply or_congr_right
      omega

theorem convertedSources {counts : ℕ × ℕ} (hcounts : HasCounts counts parts)
    (hreplicas : (if numKvHeads ≤ inferAttenTpSize then divide inferAttenTpSize numKvHeads else .ok 1) = .ok replicas)
    (hmerge : mergeForInference parts.1 parts.2.1 parts.2.2 inferAttenTpSize numKvHeads replicas = .ok merged) :
    ∃ sources, MergedFrom inferAttenTpSize numKvHeads parts merged sources ∧
      (DropsNoRow parts sources ↔ KeepsRows counts.1 counts.2 inferAttenTpSize numKvHeads) ∧
      (DropsNoRow parts sources → ∀ row ∈ parts.1 ++ parts.2.1 ++ parts.2.2, row ∈ merged) := by
  obtain ⟨hquery, hkey, hvalue⟩ := hcounts
  have hlength : parts.2.1.length = parts.2.2.length := hkey.trans hvalue.symm
  have hinfer : 0 < inferAttenTpSize := by
    apply Nat.pos_of_ne_zero
    rintro rfl
    rw [mergeForInference, chunkRows, if_pos rfl] at hmerge
    cases hmerge
  have hspec : 0 < numKvHeads ∧ replicas = mergeReplicas inferAttenTpSize numKvHeads := by
    unfold mergeReplicas
    split_ifs at hreplicas ⊢ with hle
    · obtain ⟨hkv, hmul⟩ := divide_eq_ok hreplicas
      exact ⟨hkv, by rw [← hmul, Nat.mul_div_cancel_left _ hkv]⟩
    · exact ⟨by omega, (Except.ok.inj hreplicas).symm⟩
  obtain ⟨hkv, rfl⟩ := hspec
  obtain ⟨sources, hsources, hiff⟩ := mergeForInference_sources hinfer hkv hlength hmerge
  rw [hquery, hkey] at hiff
  exact ⟨sources, hsources, hiff, hsources.mem hlength⟩

end Kept

section Conversion

variable {α : Type} {cols : ℕ}

/-- The merged tensor has every row of the query, key and value exactly when no piece is left over. -/
theorem qkvRows_kept_iff (config : TransformerConfig) (inferAttenTpSize mpuTpSize : ℕ)
    (trainTpRank trainTpSize : Option ℕ) :
    (∀ (gathered : List (List (Vector α cols))) (weight shard : List (Vector α cols)),
      convertQkvWeightAlongTpAttention mpuTpSize gathered weight inferAttenTpSize config trainTpRank trainTpSize =
        .ok shard →
      ∃ headSize parts merged sources, getHeadSize config = .ok headSize ∧
        transformMcoreQkvWeight mpuTpSize gathered weight config = .ok parts ∧
        MergedFrom inferAttenTpSize config.numQueryGroups parts merged sources ∧
        trainShard merged trainTpRank trainTpSize = .ok shard ∧
        (DropsNoRow parts sources ↔
          let counts := qkvRowCounts config headSize (getFullTensor mpuTpSize gathered weight).length cols
          KeepsRows counts.1 counts.2 inferAttenTpSize config.numQueryGroups) ∧
        (DropsNoRow parts sources → ∀ row ∈ parts.1 ++ parts.2.1 ++ parts.2.2, row ∈ merged)) ∧
    (∀ (gathered : List (List α)) (bias shard : List α),
      convertQkvBiasAlongTpAttention mpuTpSize gathered bias inferAttenTpSize config trainTpRank trainTpSize =
        .ok shard →
      ∃ headSize parts merged sources, getHeadSize config = .ok headSize ∧
        transformMcoreQkvBias mpuTpSize gathered bias config = .ok parts ∧
        MergedFrom inferAttenTpSize config.numQueryGroups parts merged sources ∧
        trainShard merged trainTpRank trainTpSize = .ok shard ∧
        (DropsNoRow parts sources ↔
          let counts := qkvRowCounts config headSize (getFullTensor mpuTpSize gathered bias).length 1
          KeepsRows counts.1 counts.2 inferAttenTpSize config.numQueryGroups) ∧
        (DropsNoRow parts sources → ∀ row ∈ parts.1 ++ parts.2.1 ++ parts.2.2, row ∈ merged)) := by
  constructor
  · intro gathered weight shard h
    obtain ⟨replicas, hreplicas, h⟩ := Except.bind_eq_ok.mp h
    obtain ⟨parts, hparts, h⟩ := Except.bind_eq_ok.mp h
    obtain ⟨merged, hmerged, hshard⟩ := Except.bind_eq_ok.mp h
    obtain ⟨headSize, hsize, hrest⟩ := Except.bind_eq_ok.mp hparts
    obtain ⟨headsPerKvGroup, hdivide, -⟩ := Except.bind_eq_ok.mp hrest
    have hcounts := transformMcoreQkvWeight_counts hsize hdivide rfl hparts
    obtain ⟨sources, hsources⟩ := convertedSources hcounts hreplicas hmerged
    exact ⟨headSize, parts, merged, sources, hsize, hparts, hsources.1, hshard, hsources.2⟩
  · intro gathered bias shard h
    obtain ⟨replicas, hreplicas, h⟩ := Except.bind_eq_ok.mp h
    obtain ⟨parts, hparts, h⟩ := Except.bind_eq_ok.mp h
    obtain ⟨merged, hmerged, hshard⟩ := Except.bind_eq_ok.mp h
    obtain ⟨headSize, hsize, hrest⟩ := Except.bind_eq_ok.mp hparts
    obtain ⟨headsPerKvGroup, hdivide, -⟩ := Except.bind_eq_ok.mp hrest
    have hcounts := transformMcoreQkvBias_counts hsize hdivide rfl hparts
    obtain ⟨sources, hsources⟩ := convertedSources hcounts hreplicas hmerged
    exact ⟨headSize, parts, merged, sources, hsize, hparts, hsources.1, hshard, hsources.2⟩

theorem qkvRows_dropped : ∃ query key value merged,
    transformMcoreQkvWeight 1 [] ([0, 1, 2, 3, 4, 5].map toColumn) ⟨2, 2, 2, none⟩ = .ok (query, key, value) ∧
    convertQkvWeightAlongTpAttention 1 [] ([0, 1, 2, 3, 4, 5].map toColumn) 4 ⟨2, 2, 2, none⟩ none none = .ok merged ∧
    ∃ row ∈ key, row ∉ merged :=
  ⟨[#v[0], #v[3]], [#v[1], #v[4]], [#v[2], #v[5]], [#v[0], #v[1], #v[2], #v[3], #v[1], #v[2]], by decide, by decide,
    #v[4], by decide, by decide⟩

theorem qkvRows_kept_fourRanks : ∃ headSize parts merged sources,
    getHeadSize ⟨8, 4, 2, none⟩ = .ok headSize ∧
    transformMcoreQkvWeight 1 [] ((List.range 16).map toColumn) ⟨8, 4, 2, none⟩ = .ok parts ∧
    MergedFrom 4 2 parts merged sources ∧ trainShard merged (some 0) (some 1) = .ok merged ∧
    DropsNoRow parts sources := by
  have hconverted : ∃ shard, convertQkvWeightAlongTpAttention 1 [] ((List.range 16).map toColumn) 4 ⟨8, 4, 2, none⟩
      (some 0) (some 1) = .ok shard :=
    ⟨[0, 1, 4, 5, 6, 7, 2, 3, 4, 5, 6, 7, 8, 9, 12, 13, 14, 15, 10, 11, 12, 13, 14, 15].map toColumn, by decide⟩
  obtain ⟨shard, hshard⟩ := hconverted
  obtain ⟨headSize, parts, merged, sources, hsize, hparts, hmerged, -, hiff, -⟩ :=
    (qkvRows_kept_iff ⟨8, 4, 2, none⟩ 4 1 (some 0) (some 1)).1 [] ((List.range 16).map toColumn) shard hshard
  obtain rfl : headSize = 2 := by
    have htwo : getHeadSize ⟨8, 4, 2, none⟩ = .ok 2 := by decide
    exact Except.ok.inj (hsize.symm.trans htwo)
  exact ⟨2, parts, merged, sources, hsize, hparts, hmerged, rfl, hiff.mpr (by decide)⟩

end Conversion

end Awex
