import Awex.McoreConverter
import Mathlib.Tactic.Ring

namespace Awex

open Text

inductive UnfuseError where
  | zeroDivision
  | narrowOutOfRange
  deriving DecidableEq, Repr

structure AttentionConfig where
  numAttentionHeads : ℕ
  numKeyValueHeads : Option ℕ

def AttentionConfig.numKvHeads (cfg : AttentionConfig) : ℕ := cfg.numKeyValueHeads.getD cfg.numAttentionHeads

def AttentionConfig.totalHeadUnits (cfg : AttentionConfig) : ℕ := cfg.numAttentionHeads + 2 * cfg.numKvHeads

variable {ρ : Type}

def narrowRows (rows : List ρ) (start length : ℕ) : Except UnfuseError (List ρ) :=
  if start + length ≤ rows.length then .ok ((rows.drop start).take length) else .error .narrowOutOfRange

namespace AwexSGLangAdapter

/-- The parameters that a fused one is split into. -/
def unfusedQkv (name : Name) (q k v : List ρ) : List (Name × List ρ) :=
  [(replaceAll "qkv_proj" "q_proj" name, q), (replaceAll "qkv_proj" "k_proj" name, k),
    (replaceAll "qkv_proj" "v_proj" name, v)]

def unfusedGateUp (name : Name) (gate up : List ρ) : List (Name × List ρ) :=
  [(replaceAll "gate_up_proj" "gate_proj" name, gate), (replaceAll "gate_up_proj" "up_proj" name, up)]

def unfuseParams (cfg : AttentionConfig) (name : Name) (tensor : List ρ) : Except UnfuseError (List (Name × List ρ)) :=
  if Occurs "qkv_proj" name then
    if cfg.totalHeadUnits = 0 then .error .zeroDivision
    else do
      let qSize := tensor.length * cfg.numAttentionHeads / cfg.totalHeadUnits
      let kvSize := tensor.length * cfg.numKvHeads / cfg.totalHeadUnits
      let q ← narrowRows tensor 0 qSize
      let k ← narrowRows tensor qSize kvSize
      let v ← narrowRows tensor (qSize + kvSize) kvSize
      .ok (unfusedQkv name q k v)
  else if Occurs "gate_up_proj" name then do
    let half := tensor.length / 2
    let gate ← narrowRows tensor 0 half
    let up ← narrowRows tensor half half
    .ok (unfusedGateUp name gate up)
  else .ok [(name, tensor)]

end AwexSGLangAdapter

theorem narrowRows_append (before middle after : List ρ) :
    narrowRows (before ++ (middle ++ after)) before.length middle.length = .ok middle := by
  unfold narrowRows
  rw [if_pos (by simp only [List.length_append]; omega), List.drop_left, List.take_left]

section Sizes

variable {cfg : AttentionConfig} {tpSize headDim dim0 : ℕ}

theorem sizes_le (h : 0 < cfg.totalHeadUnits) :
    dim0 * cfg.numAttentionHeads / cfg.totalHeadUnits + 2 * (dim0 * cfg.numKvHeads / cfg.totalHeadUnits) ≤ dim0 := by
  have hq := Nat.div_mul_le_self (dim0 * cfg.numAttentionHeads) cfg.totalHeadUnits
  have hkv := Nat.div_mul_le_self (dim0 * cfg.numKvHeads) cfg.totalHeadUnits
  apply Nat.le_of_mul_le_mul_right _ h
  calc (dim0 * cfg.numAttentionHeads / cfg.totalHeadUnits + 2 * (dim0 * cfg.numKvHeads / cfg.totalHeadUnits)) *
        cfg.totalHeadUnits
      = dim0 * cfg.numAttentionHeads / cfg.totalHeadUnits * cfg.totalHeadUnits +
          2 * (dim0 * cfg.numKvHeads / cfg.totalHeadUnits * cfg.totalHeadUnits) := by ring
    _ ≤ dim0 * cfg.numAttentionHeads + 2 * (dim0 * cfg.numKvHeads) := by omega
    _ = dim0 * cfg.totalHeadUnits := by unfold AttentionConfig.totalHeadUnits; ring

/-- The rows of a rank, with at least one key head. -/
def localQueryRows (cfg : AttentionConfig) (tpSize headDim : ℕ) : ℕ := cfg.numAttentionHeads / tpSize * headDim

def localKvRows (cfg : AttentionConfig) (tpSize headDim : ℕ) : ℕ := max 1 (cfg.numKvHeads / tpSize) * headDim

def localRows (cfg : AttentionConfig) (tpSize headDim : ℕ) : ℕ :=
  localQueryRows cfg tpSize headDim + (localKvRows cfg tpSize headDim + localKvRows cfg tpSize headDim)

theorem sizes_of_ratio {q kv : ℕ} (h : 0 < cfg.totalHeadUnits)
    (hratio : kv * cfg.numAttentionHeads = q * cfg.numKvHeads) :
    (q + (kv + kv)) * cfg.numAttentionHeads / cfg.totalHeadUnits = q ∧
      (q + (kv + kv)) * cfg.numKvHeads / cfg.totalHeadUnits = kv := by
  unfold AttentionConfig.totalHeadUnits at h ⊢
  constructor
  · apply Nat.div_eq_of_eq_mul_left h
    calc (q + (kv + kv)) * cfg.numAttentionHeads
        = q * cfg.numAttentionHeads + 2 * (kv * cfg.numAttentionHeads) := by ring
      _ = q * (cfg.numAttentionHeads + 2 * cfg.numKvHeads) := by rw [hratio]; ring
  · apply Nat.div_eq_of_eq_mul_left h
    calc (q + (kv + kv)) * cfg.numKvHeads
        = q * cfg.numKvHeads + 2 * (kv * cfg.numKvHeads) := by ring
      _ = kv * (cfg.numAttentionHeads + 2 * cfg.numKvHeads) := by rw [← hratio]; ring

variable (htp : 0 < tpSize) (hheads : tpSize ∣ cfg.numAttentionHeads)
include htp hheads

theorem ratio_of_le (hkv : tpSize ∣ cfg.numKvHeads ∨ cfg.numKvHeads ∣ tpSize)
    (h : tpSize ≤ cfg.numKvHeads ∨ headDim = 0 ∨ cfg.numAttentionHeads = 0) :
    localKvRows cfg tpSize headDim * cfg.numAttentionHeads = localQueryRows cfg tpSize headDim * cfg.numKvHeads := by
  unfold localKvRows localQueryRows
  obtain hle | rfl | hnone := h
  · have hdvd : tpSize ∣ cfg.numKvHeads := by
      obtain hdvd | hdvd := hkv
      · exact hdvd
      · exact dvd_of_eq (Nat.le_antisymm hle (Nat.le_of_dvd htp hdvd))
    have hone : max 1 (cfg.numKvHeads / tpSize) = cfg.numKvHeads / tpSize := Nat.max_eq_right (Nat.div_pos hle htp)
    obtain ⟨heads, hheads⟩ := hheads
    obtain ⟨kvHeads, hkvHeads⟩ := hdvd
    rw [hone, hheads, hkvHeads, Nat.mul_div_cancel_left _ htp, Nat.mul_div_cancel_left _ htp]
    ring
  · rw [Nat.mul_zero, Nat.mul_zero, Nat.zero_mul, Nat.zero_mul]
  · rw [hnone, Nat.zero_div, Nat.mul_zero, Nat.zero_mul, Nat.zero_mul]

theorem kvSize_lt (hlt : cfg.numKvHeads < tpSize) (hdim : headDim ≠ 0) (hsome : cfg.numAttentionHeads ≠ 0) :
    localRows cfg tpSize headDim * cfg.numKvHeads / cfg.totalHeadUnits < localKvRows cfg tpSize headDim := by
  -- with more ranks than key heads, a rank has a whole key head and the model less than one for each rank
  have hone : localKvRows cfg tpSize headDim = headDim := by
    rw [localKvRows, Nat.div_eq_of_lt hlt, Nat.max_eq_left (Nat.zero_le 1), Nat.one_mul]
  obtain ⟨heads, hmul⟩ := hheads
  have hheads : localQueryRows cfg tpSize headDim = heads * headDim := by
    rw [localQueryRows, hmul, Nat.mul_div_cancel_left _ htp]
  have hpos : 0 < headDim * heads := by
    apply Nat.mul_pos (Nat.pos_of_ne_zero hdim)
    apply Nat.pos_of_ne_zero
    rintro rfl
    exact hsome hmul
  unfold localRows AttentionConfig.totalHeadUnits
  rw [hone, hheads, hmul, Nat.div_lt_iff_lt_mul]
  · calc (heads * headDim + (headDim + headDim)) * cfg.numKvHeads
        = headDim * heads * cfg.numKvHeads + 2 * headDim * cfg.numKvHeads := by ring
      _ < headDim * heads * tpSize + 2 * headDim * cfg.numKvHeads :=
        Nat.add_lt_add_right (Nat.mul_lt_mul_of_pos_left hlt hpos) _
      _ = headDim * (tpSize * heads + 2 * cfg.numKvHeads) := by ring
  · rw [← hmul]
    omega

end Sizes

namespace AwexSGLangAdapter

variable {cfg : AttentionConfig} {name : Name}

theorem unfuseParams_qkv (hname : Occurs "qkv_proj" name) (h : 0 < cfg.totalHeadUnits) {q k v rest : List ρ}
    (hq : q.length = (q ++ (k ++ (v ++ rest))).length * cfg.numAttentionHeads / cfg.totalHeadUnits)
    (hk : k.length = (q ++ (k ++ (v ++ rest))).length * cfg.numKvHeads / cfg.totalHeadUnits)
    (hv : v.length = k.length) : unfuseParams cfg name (q ++ (k ++ (v ++ rest))) = .ok (unfusedQkv name q k v) := by
  have hvalues : narrowRows (q ++ (k ++ (v ++ rest))) (q.length + k.length) k.length = .ok v := by
    have hmiddle := narrowRows_append (q ++ k) v rest
    rwa [List.length_append, List.append_assoc, hv] at hmiddle
  unfold unfuseParams
  rw [if_pos hname, if_neg (Nat.ne_of_gt h)]
  dsimp only
  rw [← hq, ← hk, hvalues, narrowRows_append q k (v ++ rest)]
  have hqueries := narrowRows_append [] q (k ++ (v ++ rest))
  rw [List.nil_append, List.length_nil] at hqueries
  rw [hqueries]
  rfl

theorem unfuseParams_parts (hname : Occurs "qkv_proj" name) (h : 0 < cfg.totalHeadUnits) (tensor : List ρ) :
    ∃ q k v rest, tensor = q ++ (k ++ (v ++ rest)) ∧
      k.length = tensor.length * cfg.numKvHeads / cfg.totalHeadUnits ∧
      unfuseParams cfg name tensor = .ok (unfusedQkv name q k v) := by
  have hle : tensor.length * cfg.numAttentionHeads / cfg.totalHeadUnits +
      2 * (tensor.length * cfg.numKvHeads / cfg.totalHeadUnits) ≤ tensor.length :=
    sizes_le h
  generalize hq : tensor.length * cfg.numAttentionHeads / cfg.totalHeadUnits = qSize at hle
  generalize hk : tensor.length * cfg.numKvHeads / cfg.totalHeadUnits = kvSize at hle
  obtain ⟨q, k, v, rest, rfl, hqlen, hklen, hvlen⟩ : ∃ q k v rest, tensor = q ++ (k ++ (v ++ rest)) ∧
      q.length = qSize ∧ k.length = kvSize ∧ v.length = kvSize := by
    refine ⟨tensor.take qSize, (tensor.drop qSize).take kvSize, ((tensor.drop qSize).drop kvSize).take kvSize,
      ((tensor.drop qSize).drop kvSize).drop kvSize, ?_, ?_, ?_, ?_⟩
    · rw [List.take_append_drop, List.take_append_drop, List.take_append_drop]
    · rw [List.length_take]
      omega
    · rw [List.length_take, List.length_drop]
      omega
    · rw [List.length_take, List.length_drop, List.length_drop]
      omega
  refine ⟨q, k, v, rest, rfl, hklen, ?_⟩
  exact unfuseParams_qkv hname h (hqlen.trans hq.symm) (hklen.trans hk.symm) (hvlen.trans hklen.symm)

theorem unfuseParams_gateUp (hqkv : ¬ Occurs "qkv_proj" name) (hname : Occurs "gate_up_proj" name) {gate up : List ρ}
    (h : up.length = gate.length) : unfuseParams cfg name (gate ++ up) = .ok (unfusedGateUp name gate up) := by
  have hhalf : (gate ++ up).length / 2 = gate.length := by
    rw [List.length_append]
    omega
  have hgate := narrowRows_append [] gate up
  have hup := narrowRows_append gate up []
  rw [List.nil_append, List.length_nil] at hgate
  rw [List.append_nil, h] at hup
  unfold unfuseParams
  rw [if_neg hqkv, if_pos hname]
  dsimp only
  rw [hhalf, hgate, hup]
  rfl

/-- The rows of a rank, as SGLang lays them out. -/
structure LocalQkv (cfg : AttentionConfig) (tpSize headDim : ℕ) (queries keys values : List ρ) : Prop where
  queries : queries.length = localQueryRows cfg tpSize headDim
  keys : keys.length = localKvRows cfg tpSize headDim
  values : values.length = localKvRows cfg tpSize headDim

/-- The split gives the heads of the rank back exactly if there is a key head for each rank, or nothing to get
wrong. -/
theorem unfuseParams_qkv_iff {tpSize headDim : ℕ} (htp : 0 < tpSize) (hheads : tpSize ∣ cfg.numAttentionHeads)
    (hkv : tpSize ∣ cfg.numKvHeads ∨ cfg.numKvHeads ∣ tpSize) {queries keys values : List ρ}
    (hlayout : LocalQkv cfg tpSize headDim queries keys values) (hname : Occurs "qkv_proj" name) :
    unfuseParams cfg name (queries ++ (keys ++ values)) = .ok (unfusedQkv name queries keys values) ↔
      0 < cfg.totalHeadUnits ∧ (tpSize ≤ cfg.numKvHeads ∨ headDim = 0 ∨ cfg.numAttentionHeads = 0) := by
  have hlength : (queries ++ (keys ++ values)).length = localRows cfg tpSize headDim := by
    rw [List.length_append, List.length_append, hlayout.queries, hlayout.keys, hlayout.values]
    rfl
  constructor
  · intro h
    have hpos : 0 < cfg.totalHeadUnits := by
      apply Nat.pos_of_ne_zero
      intro hzero
      rw [unfuseParams, if_pos hname, if_pos hzero] at h
      cases h
    refine ⟨hpos, ?_⟩
    by_contra hfew
    simp only [not_or, not_le] at hfew
    obtain ⟨hlt, hdim, hsome⟩ := hfew
    obtain ⟨q, k, v, rest, -, hk, hparts⟩ := unfuseParams_parts hname hpos (queries ++ (keys ++ values))
    rw [hparts] at h
    have hkeys : k = keys := by
      simp only [unfusedQkv, Except.ok.injEq, List.cons.injEq, Prod.mk.injEq] at h
      exact h.2.1.2
    have hsize := kvSize_lt htp hheads hlt hdim hsome
    rw [← hlength, ← hk, hkeys, hlayout.keys] at hsize
    exact Nat.lt_irrefl _ hsize
  · rintro ⟨hpos, h⟩
    obtain ⟨hq, hk⟩ := sizes_of_ratio hpos (ratio_of_le htp hheads hkv h)
    rw [← localRows, ← hlength, ← hlayout.queries] at hq
    rw [← localRows, ← hlength, ← hlayout.keys] at hk
    have hparts : unfuseParams cfg name (queries ++ (keys ++ (values ++ []))) =
        .ok (unfusedQkv name queries keys values) := by
      apply unfuseParams_qkv hname hpos
      · rw [List.append_nil, hq]
      · rw [List.append_nil, hk]
      · exact hlayout.values.trans hlayout.keys.symm
    rwa [List.append_nil] at hparts

def qkvName : Name := "model.layers.0.self_attn.qkv_proj.weight"

theorem unfuseParams_qkv_twoRanks : unfuseParams ⟨4, some 2⟩ qkvName [0, 1, 2, 3, 4, 5, 6, 7] =
    .ok (unfusedQkv qkvName [0, 1, 2, 3] [4, 5] [6, 7]) := by
  have hlayout : LocalQkv ⟨4, some 2⟩ 2 2 [0, 1, 2, 3] [4, 5] [6, 7] := ⟨rfl, rfl, rfl⟩
  exact (unfuseParams_qkv_iff (by decide) (by decide) (by decide) hlayout (by decide)).mpr (by decide)

theorem not_unfuseParams_qkv_sharedKey :
    LocalQkv ⟨4, some 1⟩ 2 2 [0, 1, 2, 3] [4, 5] [6, 7] ∧
      unfuseParams ⟨4, some 1⟩ qkvName [0, 1, 2, 3, 4, 5, 6, 7] = .ok (unfusedQkv qkvName [0, 1, 2, 3, 4] [5] [6]) ∧
      unfuseParams ⟨4, some 1⟩ qkvName [0, 1, 2, 3, 4, 5, 6, 7] ≠
        .ok (unfusedQkv qkvName [0, 1, 2, 3] [4, 5] [6, 7]) := by
  -- one key head for two ranks: a key row goes to the queries, and the last row to no parameter
  have hparts : unfuseParams ⟨4, some 1⟩ qkvName ([0, 1, 2, 3, 4] ++ ([5] ++ ([6] ++ [7]))) =
      .ok (unfusedQkv qkvName [0, 1, 2, 3, 4] [5] [6]) :=
    unfuseParams_qkv (by decide) (by decide) rfl rfl rfl
  refine ⟨⟨rfl, rfl, rfl⟩, hparts, fun h => ?_⟩
  have hsame := hparts.symm.trans h
  simp only [unfusedQkv, Except.ok.injEq, List.cons.injEq, Prod.mk.injEq] at hsame
  exact absurd hsame.1.2 (by decide)

end AwexSGLangAdapter

end Awex
