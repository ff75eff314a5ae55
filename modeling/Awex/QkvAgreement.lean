import Awex.QkvBias
import Awex.QkvLayout

namespace Awex

open Chunks

section Map

variable {ρ ρ' : Type} (f : ρ → ρ')

theorem chunkRows_map (n : ℕ) (rows : List ρ) :
    chunkRows n (rows.map f) = (chunkRows n rows).map (List.map (List.map f)) := by
  unfold chunkRows
  split_ifs
  · rfl
  · rw [chunk_map]
    rfl

theorem splitRows_map (sizes : List ℕ) (rows : List ρ) :
    splitRows sizes (rows.map f) = (splitRows sizes rows).map (List.map (List.map f)) := by
  unfold splitRows
  rw [splitSizes_map, List.length_map]
  cases splitSizes sizes rows <;> rfl

theorem catRows_map (parts : List (List ρ)) :
    catRows (parts.map (List.map f)) = (catRows parts).map (List.map f) := by
  unfold catRows
  simp only [List.map_eq_nil_iff]
  split_ifs
  · rfl
  · rw [← List.map_flatten]
    rfl

theorem getD_map_nil (parts : List (List ρ)) (i : ℕ) :
    (parts.map (List.map f)).getD i [] = (parts.getD i []).map f := by
  rw [List.getD_eq_getElem?_getD, List.getD_eq_getElem?_getD, List.getElem?_map]
  cases parts[i]? <;> rfl

def mapParts (parts : List ρ × List ρ × List ρ) : List ρ' × List ρ' × List ρ' :=
  (parts.1.map f, parts.2.1.map f, parts.2.2.map f)

theorem splitGroups_map (rows : List ρ) (numKvHeads eachQuerySize eachKvSize : ℕ) :
    splitGroups (rows.map f) numKvHeads eachQuerySize eachKvSize =
      (splitGroups rows numKvHeads eachQuerySize eachKvSize).map (mapParts f) := by
  unfold splitGroups
  rw [chunkRows_map]
  cases chunkRows numKvHeads rows with
  | error e => rfl
  | ok groups =>
    have hsplit : (groups.map (List.map f)).mapM (splitRows [eachQuerySize, eachKvSize, eachKvSize]) =
        (groups.mapM (splitRows [eachQuerySize, eachKvSize, eachKvSize])).map (List.map (List.map (List.map f))) := by
      rw [List.mapM_map]
      exact Except.mapM_eq_mapM_map groups (fun rows => splitRows_map f _ rows)
    rw [Except.map_ok, Except.ok_bind, Except.ok_bind, hsplit]
    cases groups.mapM (splitRows [eachQuerySize, eachKvSize, eachKvSize]) with
    | error e => rfl
    | ok parts =>
      have hcat : ∀ i, catRows ((parts.map (List.map (List.map f))).map (·.getD i [])) =
          (catRows (parts.map (·.getD i []))).map (List.map f) := by
        intro i
        rw [← catRows_map, List.map_map, List.map_map]
        congr 1
        apply List.map_congr_left
        intro part _
        exact getD_map_nil f part i
      rw [Except.map_ok, Except.ok_bind, Except.ok_bind, hcat, hcat, hcat]
      cases catRows (parts.map (·.getD 0 [])) with
      | error e => rfl
      | ok query =>
        cases catRows (parts.map (·.getD 1 [])) with
        | error e => rfl
        | ok key => cases catRows (parts.map (·.getD 2 [])) <;> rfl

end Map

section Column

variable {α : Type}

def toColumn (x : α) : Vector α 1 := #v[x]

theorem getFullTensor_column (trainTpSize : ℕ) (gathered : List (List α)) (bias : List α) :
    getFullTensor trainTpSize (gathered.map (List.map toColumn)) (bias.map toColumn) =
      (getFullTensor trainTpSize gathered bias).map toColumn := by
  unfold getFullTensor
  split_ifs
  · rw [List.map_flatten]
  · rfl

theorem elements_column (xs : List α) : (xs.map toColumn).flatMap (·.toList) = xs := by
  induction xs with
  | nil => rfl
  | cons x xs ih =>
    rw [List.map_cons, List.flatMap_cons, ih]
    rfl

theorem reshapeRows_column (xs : List α) : reshapeRows xs = .ok (xs.map toColumn) := by
  have hblock : ∀ i < xs.length, ∃ x, xs[i]? = some x ∧ block xs 1 i = [x] := by
    intro i hi
    refine ⟨xs[i], List.getElem?_eq_getElem hi, ?_⟩
    rw [block, Nat.mul_one, List.drop_eq_getElem_cons hi]
    rfl
  have hrows : (List.range xs.length).filterMap (fun i =>
      if h : (block xs 1 i).length = 1 then some (⟨(block xs 1 i).toArray, h⟩ : Vector α 1) else none) =
      (List.range xs.length).filterMap (fun i => (xs[i]?).map toColumn) := by
    apply List.filterMap_congr
    intro i hi
    obtain ⟨x, hx, hb⟩ := hblock i (List.mem_range.mp hi)
    have hlength : (block xs 1 i).length = 1 := by rw [hb]; rfl
    rw [dif_pos hlength, hx, Option.map_some, Option.some_inj]
    apply Vector.toArray_inj.mp
    exact congrArg List.toArray hb
  rw [reshapeRows, if_neg (by omega), Nat.div_one, hrows, filterMap_range_getElem?]

theorem uniqueHeads_column {xs heads : List α} {numHeads headSize numKvHeads headsPerKvGroup : ℕ}
    {rows : List (Vector α 1)}
    (hbias : uniqueBiasHeads xs numHeads headSize numKvHeads headsPerKvGroup = .ok heads)
    (hweight : uniqueHeads (xs.map toColumn) numHeads headSize numKvHeads headsPerKvGroup = .ok rows) :
    rows = heads.map toColumn := by
  unfold uniqueBiasHeads at hbias
  split_ifs at hbias with hlength
  rw [not_not] at hlength
  unfold uniqueHeads at hweight
  rw [elements_column] at hweight
  dsimp only at hweight
  split_ifs at hweight with hshape
  have hheads : 0 < numHeads := by
    apply Nat.pos_of_ne_zero
    rintro rfl
    exact hshape (.inl (Nat.zero_mul _))
  have hdiv : xs.length / numHeads = headSize := by
    rw [hlength, Nat.mul_div_cancel_left _ hheads]
  rw [hdiv] at hweight
  obtain ⟨blocks, hblocks, hcat⟩ := Except.bind_eq_ok.mp hbias
  obtain ⟨heads', hcat', hreshape⟩ := Except.bind_eq_ok.mp hweight
  have hsame : blocks = (List.range numKvHeads).map (fun i => block xs headSize (i * headsPerKvGroup)) := by
    apply Except.mapM_eq_map _ hblocks
    intro i _ rows h
    split_ifs at h
    exact (Except.ok.inj h).symm
  rw [hsame, hcat'] at hcat
  obtain rfl := Except.ok.inj hcat
  rw [reshapeRows_column] at hreshape
  exact (Except.ok.inj hreshape).symm

end Column

section Layouts

variable {α : Type} {config : TransformerConfig} {headSize headsPerKvGroup : ℕ} {trainTpSize : ℕ}
  {gathered : List (List α)} {bias full : List α}

/-- The replicated layout, head by head. -/
def replicatedParts (full : List α) (numHeads headSize numKvHeads headsPerKvGroup : ℕ) :
    List α × List α × List α :=
  ((List.range numHeads).flatMap (block full headSize),
    (List.range numKvHeads).flatMap (fun g => block full headSize (numHeads + g * headsPerKvGroup)),
    (List.range numKvHeads).flatMap (fun g => block full headSize (2 * numHeads + g * headsPerKvGroup)))

theorem groupHead_lt {numHeads numKvHeads g : ℕ} (hheads : 0 < numHeads)
    (hgroups : numKvHeads * headsPerKvGroup = numHeads) (hg : g < numKvHeads) : g * headsPerKvGroup < numHeads := by
  have hpos : 0 < headsPerKvGroup := by
    apply Nat.pos_of_ne_zero
    rintro rfl
    omega
  rw [← hgroups]
  exact Nat.mul_lt_mul_of_pos_right hg hpos

theorem uniqueBiasHeads_eq (full : List α) (headSize start : ℕ) {numHeads numKvHeads : ℕ} (hkv : 0 < numKvHeads)
    (hheads : 0 < numHeads) (hgroups : numKvHeads * headsPerKvGroup = numHeads)
    (hlength : ((full.drop (start * headSize)).take (numHeads * headSize)).length = numHeads * headSize) :
    uniqueBiasHeads ((full.drop (start * headSize)).take (numHeads * headSize)) numHeads headSize numKvHeads
        headsPerKvGroup =
      .ok ((List.range numKvHeads).flatMap (fun g => block full headSize (start + g * headsPerKvGroup))) := by
  have hblocks : (List.range numKvHeads).mapM (fun i =>
      if i * headsPerKvGroup < numHeads then
        .ok (block ((full.drop (start * headSize)).take (numHeads * headSize)) headSize (i * headsPerKvGroup))
      else .error .indexError) = (.ok ((List.range numKvHeads).map (fun g =>
        block full headSize (start + g * headsPerKvGroup))) : Except ConvertError (List (List α))) := by
    apply Except.mapM_of_forall_ok
    intro g hg
    have hg := groupHead_lt hheads hgroups (List.mem_range.mp hg)
    rw [if_pos hg, block_slice start hg]
  unfold uniqueBiasHeads
  rw [if_neg (not_not_intro hlength), hblocks, Except.ok_bind, catRows, if_neg (by simpa using hkv.ne'),
    ← List.flatMap_def]

variable (hfull : getFullTensor trainTpSize gathered bias = full) (hsize : getHeadSize config = .ok headSize)
  (hdivide : divide config.numAttentionHeads config.numQueryGroups = .ok headsPerKvGroup)
include hfull hsize hdivide

theorem transformMcoreQkvBias_replicated (hkv : 0 < config.numQueryGroups) (hheads : 0 < config.numAttentionHeads)
    (hgroups : config.numQueryGroups * headsPerKvGroup = config.numAttentionHeads)
    (hhidden : config.hiddenSize = config.numAttentionHeads * headSize) (hlength : full.length = 3 * config.hiddenSize) :
    transformMcoreQkvBias trainTpSize gathered bias config =
      .ok (replicatedParts full config.numAttentionHeads headSize config.numQueryGroups headsPerKvGroup) := by
  have hthirds : full.length = config.hiddenSize + config.hiddenSize + config.hiddenSize := by omega
  have hkey := uniqueBiasHeads_eq full headSize config.numAttentionHeads hkv hheads hgroups
    (by rw [List.length_take, List.length_drop]; omega)
  have hvalue := uniqueBiasHeads_eq full headSize (2 * config.numAttentionHeads) hkv hheads hgroups
    (by rw [List.length_take, List.length_drop, Nat.mul_assoc]; omega)
  rw [Nat.mul_assoc, ← hhidden, Nat.two_mul] at hvalue
  rw [← hhidden] at hkey
  have hquery : full.take config.hiddenSize = (List.range config.numAttentionHeads).flatMap (block full headSize) := by
    unfold block
    rw [flatMap_chunks, hhidden]
  simp only [transformMcoreQkvBias, hfull, hsize, hdivide, Except.ok_bind]
  rw [if_pos hlength, splitRows_three hthirds, Except.ok_bind]
  simp only [List.getD_cons_zero, List.getD_cons_succ]
  rw [hkey, hvalue, hquery]
  rfl

theorem transformMcoreQkvBias_compact (hreplicated : full.length ≠ 3 * config.hiddenSize)
    (hcompact : full.length = (headSize * headsPerKvGroup + 2 * headSize) * config.numQueryGroups) :
    transformMcoreQkvBias trainTpSize gathered bias config =
      splitGroups full config.numQueryGroups (headSize * headsPerKvGroup) headSize := by
  simp only [transformMcoreQkvBias, hfull, hsize, hdivide, Except.ok_bind]
  rw [if_neg hreplicated, if_pos hcompact]

theorem transformMcoreQkvBias_length {parts : List α × List α × List α}
    (h : transformMcoreQkvBias trainTpSize gathered bias config = .ok parts) :
    full.length = 3 * config.hiddenSize ∨
      full.length = (headSize * headsPerKvGroup + 2 * headSize) * config.numQueryGroups := by
  simp only [transformMcoreQkvBias, hfull, hsize, hdivide, Except.ok_bind] at h
  by_contra hneither
  obtain ⟨hreplicated, hcompact⟩ := not_or.mp hneither
  rw [if_neg hreplicated, if_neg hcompact] at h
  cases h

theorem transformMcoreQkvBias_hidden {parts : List α × List α × List α}
    (h : transformMcoreQkvBias trainTpSize gathered bias config = .ok parts) (hkv : 0 < config.numQueryGroups)
    (hlength : full.length = 3 * config.hiddenSize) :
    config.hiddenSize = config.numAttentionHeads * headSize ∧ 0 < config.numAttentionHeads := by
  have hthirds : full.length = config.hiddenSize + config.hiddenSize + config.hiddenSize := by omega
  simp only [transformMcoreQkvBias, hfull, hsize, hdivide, Except.ok_bind] at h
  rw [if_pos hlength, splitRows_three hthirds, Except.ok_bind] at h
  obtain ⟨key, hkey, -⟩ := Except.bind_eq_ok.mp h
  rw [List.getD_cons_succ, List.getD_cons_zero] at hkey
  unfold uniqueBiasHeads at hkey
  split_ifs at hkey with hrows
  rw [not_not, List.length_take, List.length_drop] at hrows
  obtain ⟨blocks, hblocks, -⟩ := Except.bind_eq_ok.mp hkey
  obtain ⟨first, hfirst⟩ := Except.mapM_isOk.mp ⟨blocks, hblocks⟩ 0 (List.mem_range.mpr hkv)
  split_ifs at hfirst with hindex
  exact ⟨by omega, by omega⟩

theorem transformMcoreQkvWeight_column (hcompact :
      full.length = (headSize * headsPerKvGroup + 2 * headSize) * config.numQueryGroups) :
    transformMcoreQkvWeight trainTpSize (gathered.map (List.map toColumn)) (bias.map toColumn) config =
      (splitGroups full config.numQueryGroups (headSize * headsPerKvGroup) headSize).map (mapParts toColumn) := by
  simp only [transformMcoreQkvWeight, getFullTensor_column, hfull, hsize, hdivide, Except.ok_bind, List.length_map]
  rw [if_pos hcompact, splitGroups_map]

theorem transformMcoreQkv_replicated {parts : List α × List α × List α}
    {rows : List (Vector α 1) × List (Vector α 1) × List (Vector α 1)}
    (hcompact : full.length ≠ (headSize * headsPerKvGroup + 2 * headSize) * config.numQueryGroups)
    (hreplicated : full.length = 3 * config.hiddenSize)
    (hbias : transformMcoreQkvBias trainTpSize gathered bias config = .ok parts)
    (hweight : transformMcoreQkvWeight trainTpSize (gathered.map (List.map toColumn)) (bias.map toColumn) config =
      .ok rows) : rows = mapParts toColumn parts := by
  simp only [transformMcoreQkvBias, hfull, hsize, hdivide, Except.ok_bind] at hbias
  rw [if_pos hreplicated] at hbias
  obtain ⟨slices, hslices, hbias⟩ := Except.bind_eq_ok.mp hbias
  obtain ⟨key, hkey, hbias⟩ := Except.bind_eq_ok.mp hbias
  obtain ⟨value, hvalue, hbias⟩ := Except.bind_eq_ok.mp hbias
  obtain rfl := Except.ok.inj hbias
  simp only [transformMcoreQkvWeight, getFullTensor_column, hfull, hsize, hdivide, Except.ok_bind,
    List.length_map] at hweight
  rw [if_neg hcompact, if_pos hreplicated, splitRows_map, hslices, Except.map_ok, Except.ok_bind, getD_map_nil,
    getD_map_nil, getD_map_nil] at hweight
  obtain ⟨keyRows, hkeyRows, hweight⟩ := Except.bind_eq_ok.mp hweight
  obtain ⟨valueRows, hvalueRows, hweight⟩ := Except.bind_eq_ok.mp hweight
  obtain rfl := Except.ok.inj hweight
  rw [uniqueHeads_column hkey hkeyRows, uniqueHeads_column hvalue hvalueRows]
  rfl

end Layouts

section Agreement

inductive QkvLayout where
  | compact
  | replicated
  | qwen3Gqa
  deriving DecidableEq, Repr

/-- The branch that the weight takes. -/
def qkvWeightLayout (config : TransformerConfig) (actualSize : ℕ) : Except ConvertError QkvLayout := do
  let headSize ← getHeadSize config
  let headsPerKvGroup ← divide config.numAttentionHeads config.numQueryGroups
  let expectedCompactSize := (headSize * headsPerKvGroup + 2 * headSize) * config.numQueryGroups
  if actualSize = expectedCompactSize then .ok .compact
  else if actualSize = 3 * config.hiddenSize then .ok .replicated
  else if actualSize = config.hiddenSize * 2 + 2 * config.hiddenSize then .ok .qwen3Gqa
  else .error (.qkvSizeMismatch actualSize expectedCompactSize (3 * config.hiddenSize) config.hiddenSize
    config.numAttentionHeads config.numQueryGroups headSize (headSize * headsPerKvGroup) headSize)

/-- The branch that the bias takes. -/
def qkvBiasLayout (config : TransformerConfig) (actualSize : ℕ) : Except ConvertError QkvLayout := do
  let headSize ← getHeadSize config
  let headsPerKvGroup ← divide config.numAttentionHeads config.numQueryGroups
  let expectedCompactSize := (headSize * headsPerKvGroup + 2 * headSize) * config.numQueryGroups
  if actualSize = 3 * config.hiddenSize then .ok .replicated
  else if actualSize = expectedCompactSize then .ok .compact
  else .error (.qkvSizeMismatch actualSize expectedCompactSize (3 * config.hiddenSize) config.hiddenSize
    config.numAttentionHeads config.numQueryGroups headSize (headSize * headsPerKvGroup) headSize)

def readQkvWeight {α : Type} {cols : ℕ} (config : TransformerConfig) (weight : List (Vector α cols)) :
    QkvLayout → Except ConvertError (List (Vector α cols) × List (Vector α cols) × List (Vector α cols))
  | .compact => do
    let headSize ← getHeadSize config
    let headsPerKvGroup ← divide config.numAttentionHeads config.numQueryGroups
    splitGroups weight config.numQueryGroups (headSize * headsPerKvGroup) headSize
  | .replicated => do
    let headSize ← getHeadSize config
    let headsPerKvGroup ← divide config.numAttentionHeads config.numQueryGroups
    let parts ← splitRows [config.hiddenSize, config.hiddenSize, config.hiddenSize] weight
    let key ← uniqueHeads (parts.getD 1 []) config.numAttentionHeads headSize config.numQueryGroups headsPerKvGroup
    let value ← uniqueHeads (parts.getD 2 []) config.numAttentionHeads headSize config.numQueryGroups headsPerKvGroup
    .ok (parts.getD 0 [], key, value)
  | .qwen3Gqa => do
    let headsPerKvGroup ← divide config.numAttentionHeads config.numQueryGroups
    let headSize ← divide config.hiddenSize config.numQueryGroups
    splitGroups weight config.numQueryGroups (headSize * headsPerKvGroup) headSize

/-- A bias never has the layout of four hidden sizes. -/
def readQkvBias {α : Type} (config : TransformerConfig) (bias : List α) :
    QkvLayout → Except ConvertError (List α × List α × List α)
  | .replicated => do
    let headSize ← getHeadSize config
    let headsPerKvGroup ← divide config.numAttentionHeads config.numQueryGroups
    let parts ← splitRows [config.hiddenSize, config.hiddenSize, config.hiddenSize] bias
    let key ← uniqueBiasHeads (parts.getD 1 []) config.numAttentionHeads headSize config.numQueryGroups
      headsPerKvGroup
    let value ← uniqueBiasHeads (parts.getD 2 []) config.numAttentionHeads headSize config.numQueryGroups
      headsPerKvGroup
    .ok (parts.getD 0 [], key, value)
  | _ => do
    let headSize ← getHeadSize config
    let headsPerKvGroup ← divide config.numAttentionHeads config.numQueryGroups
    splitGroups bias config.numQueryGroups (headSize * headsPerKvGroup) headSize

variable {α : Type}

theorem transformMcoreQkvWeight_eq {cols : ℕ} (trainTpSize : ℕ) (gathered : List (List (Vector α cols)))
    (weight : List (Vector α cols)) (config : TransformerConfig) :
    transformMcoreQkvWeight trainTpSize gathered weight config =
      qkvWeightLayout config (getFullTensor trainTpSize gathered weight).length >>=
        readQkvWeight config (getFullTensor trainTpSize gathered weight) := by
  simp only [transformMcoreQkvWeight, qkvWeightLayout]
  cases hsize : getHeadSize config with
  | error e => rfl
  | ok headSize =>
    cases hdivide : divide config.numAttentionHeads config.numQueryGroups with
    | error e => rfl
    | ok headsPerKvGroup =>
      simp only [Except.ok_bind]
      split_ifs <;> simp only [Except.ok_bind, Except.error_bind, readQkvWeight, hsize, hdivide]

theorem transformMcoreQkvBias_eq (trainTpSize : ℕ) (gathered : List (List α)) (bias : List α)
    (config : TransformerConfig) :
    transformMcoreQkvBias trainTpSize gathered bias config =
      qkvBiasLayout config (getFullTensor trainTpSize gathered bias).length >>=
        readQkvBias config (getFullTensor trainTpSize gathered bias) := by
  simp only [transformMcoreQkvBias, qkvBiasLayout]
  cases hsize : getHeadSize config with
  | error e => rfl
  | ok headSize =>
    cases hdivide : divide config.numAttentionHeads config.numQueryGroups with
    | error e => rfl
    | ok headsPerKvGroup =>
      simp only [Except.ok_bind]
      split_ifs <;> simp only [Except.ok_bind, Except.error_bind, readQkvBias, hsize, hdivide]

theorem divide_eq_ok {numerator denominator quotient : ℕ} (h : divide numerator denominator = .ok quotient) :
    0 < denominator ∧ denominator * quotient = numerator := by
  unfold divide at h
  split_ifs at h with hzero hmod
  obtain rfl := Except.ok.inj h
  exact ⟨Nat.pos_of_ne_zero hzero, Nat.mul_div_cancel' (Nat.dvd_of_mod_eq_zero hmod)⟩

/-- The configuration gives the compact and the replicated layout this one length, and the bias is readable. -/
def LayoutsCollide (config : TransformerConfig) (actualSize : ℕ) : Prop :=
  ∃ headSize, getHeadSize config = .ok headSize ∧
    (config.numQueryGroups = config.numAttentionHeads ∨ headSize = 0) ∧
    0 < config.numQueryGroups ∧ 0 < config.numAttentionHeads ∧ config.numQueryGroups ∣ config.numAttentionHeads ∧
    config.hiddenSize = config.numAttentionHeads * headSize ∧ actualSize = 3 * config.hiddenSize

variable {config : TransformerConfig} {headSize headsPerKvGroup : ℕ} {full : List α}

theorem compactSize_eq_iff
    (hgroups : config.numQueryGroups * headsPerKvGroup = config.numAttentionHeads)
    (hhidden : config.hiddenSize = config.numAttentionHeads * headSize) :
    3 * config.hiddenSize = (headSize * headsPerKvGroup + 2 * headSize) * config.numQueryGroups ↔
      config.numQueryGroups = config.numAttentionHeads ∨ headSize = 0 := by
  have hcompact : (headSize * headsPerKvGroup + 2 * headSize) * config.numQueryGroups =
      config.numAttentionHeads * headSize + 2 * (config.numQueryGroups * headSize) := by
    rw [← hgroups]
    ring
  have hsame : 3 * config.hiddenSize = (headSize * headsPerKvGroup + 2 * headSize) * config.numQueryGroups ↔
      config.numQueryGroups * headSize = config.numAttentionHeads * headSize := by
    rw [hcompact, hhidden]
    omega
  rw [hsame, mul_eq_mul_right_iff]

/-- The bias and the weight test the layouts in different orders, so they part where both lengths are the same. -/
theorem qkvBias_agrees_iff (trainTpSize : ℕ) (gathered : List (List α)) (bias : List α)
    (config : TransformerConfig) :
    (∀ parts rows, transformMcoreQkvBias trainTpSize gathered bias config = .ok parts →
      transformMcoreQkvWeight trainTpSize (gathered.map (List.map toColumn)) (bias.map toColumn) config = .ok rows →
      qkvBiasLayout config (getFullTensor trainTpSize gathered bias).length =
        qkvWeightLayout config (getFullTensor trainTpSize gathered bias).length ∧
      rows = mapParts toColumn parts) ↔
    ¬ LayoutsCollide config (getFullTensor trainTpSize gathered bias).length := by
  generalize hfull : getFullTensor trainTpSize gathered bias = full
  cases hsize : getHeadSize config with
  | error e =>
    refine iff_of_true ?_ ?_
    · intro parts rows hbias
      simp only [transformMcoreQkvBias, hsize, Except.error_bind] at hbias
      cases hbias
    · rintro ⟨headSize, hsize', -⟩
      rw [hsize] at hsize'
      cases hsize'
  | ok headSize =>
    cases hdivide : divide config.numAttentionHeads config.numQueryGroups with
    | error e =>
      refine iff_of_true ?_ ?_
      · intro parts rows hbias
        simp only [transformMcoreQkvBias, hsize, hdivide, Except.ok_bind, Except.error_bind] at hbias
        cases hbias
      · rintro ⟨_, -, -, hkv, -, hdvd, -⟩
        rw [divide, if_neg hkv.ne', if_pos (Nat.mod_eq_zero_of_dvd hdvd)] at hdivide
        cases hdivide
    | ok headsPerKvGroup =>
      obtain ⟨hkv, hgroups⟩ := divide_eq_ok hdivide
      by_cases hreplicated : full.length = 3 * config.hiddenSize
      · by_cases hcompact : full.length = (headSize * headsPerKvGroup + 2 * headSize) * config.numQueryGroups
        · have hparted : qkvBiasLayout config full.length ≠ qkvWeightLayout config full.length := by
            simp only [qkvBiasLayout, qkvWeightLayout, hsize, hdivide, Except.ok_bind]
            rw [if_pos hreplicated, if_pos hcompact]
            simp
          by_cases hhidden : config.hiddenSize = config.numAttentionHeads * headSize ∧ 0 < config.numAttentionHeads
          · obtain ⟨hhidden, hheads⟩ := hhidden
            have hrows : full.length = config.numQueryGroups * groupRows headsPerKvGroup headSize := by
              rw [hcompact, groupRows]
              ring
            have hbias := transformMcoreQkvBias_replicated hfull hsize hdivide hkv hheads hgroups hhidden hreplicated
            have hweight := transformMcoreQkvWeight_column hfull hsize hdivide hcompact
            rw [splitGroups_eq hrows hkv, Except.map_ok] at hweight
            refine iff_of_false (fun h => hparted (h _ _ hbias hweight).1) (not_not_intro ?_)
            have hsame := (compactSize_eq_iff hgroups hhidden).mp (hreplicated.symm.trans hcompact)
            exact ⟨headSize, hsize, hsame, hkv, hheads, Dvd.intro _ hgroups, hhidden, hreplicated⟩
          · refine iff_of_true ?_ ?_
            · intro parts rows hbias
              exact absurd (transformMcoreQkvBias_hidden hfull hsize hdivide hbias hkv hreplicated) hhidden
            · rintro ⟨headSize', hsize', -, -, hheads, -, hhidden', -⟩
              obtain rfl := Except.ok.inj (hsize.symm.trans hsize')
              exact hhidden ⟨hhidden', hheads⟩
        · refine iff_of_true ?_ ?_
          · intro parts rows hbias hweight
            refine ⟨?_, transformMcoreQkv_replicated hfull hsize hdivide hcompact hreplicated hbias hweight⟩
            simp only [qkvBiasLayout, qkvWeightLayout, hsize, hdivide, Except.ok_bind]
            rw [if_pos hreplicated, if_neg hcompact, if_pos hreplicated]
          · rintro ⟨headSize', hsize', hsame, -, -, -, hhidden, -⟩
            obtain rfl := Except.ok.inj (hsize.symm.trans hsize')
            exact hcompact (hreplicated.trans ((compactSize_eq_iff hgroups hhidden).mpr hsame))
      · refine iff_of_true ?_ ?_
        · intro parts rows hbias hweight
          have hcompact := (transformMcoreQkvBias_length hfull hsize hdivide hbias).resolve_left hreplicated
          rw [transformMcoreQkvBias_compact hfull hsize hdivide hreplicated hcompact] at hbias
          rw [transformMcoreQkvWeight_column hfull hsize hdivide hcompact, hbias] at hweight
          refine ⟨?_, (Except.ok.inj hweight).symm⟩
          simp only [qkvBiasLayout, qkvWeightLayout, hsize, hdivide, Except.ok_bind]
          rw [if_neg hreplicated, if_pos hcompact, if_pos hcompact]
        · rintro ⟨_, -, -, -, -, -, -, hlength⟩
          exact hreplicated hlength

theorem not_qkvBias_agrees_twoHeads : ∃ parts rows,
    transformMcoreQkvBias 1 [] [0, 1, 2, 3, 4, 5] ⟨2, 2, 2, none⟩ = .ok parts ∧
    transformMcoreQkvWeight 1 [] ([0, 1, 2, 3, 4, 5].map toColumn) ⟨2, 2, 2, none⟩ = .ok rows ∧
    rows ≠ mapParts toColumn parts :=
  ⟨([0, 1], [2, 3], [4, 5]), ([#v[0], #v[3]], [#v[1], #v[4]], [#v[2], #v[5]]), by decide, by decide, by decide⟩

end Agreement

end Awex
