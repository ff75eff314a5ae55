import Awex.ExpertNames
import Awex.Library.Pairing
import Awex.PlainOrder

namespace Awex

open Text McoreConverter Pairing

section Converter

variable {τ : Type}

/-- A parameter with the virtual stage that holds it. -/
structure StagedParam (τ : Type) where
  vpStage : ℕ
  name : Name
  parameter : τ
  deriving DecidableEq

def AProjs.ofHalf (held : Half τ τ) : AProjs τ := ⟨held.1, held.2⟩

/-- The cache that holds these halves. -/
def AProjCache.ofHalves (held : Halves Name τ τ) : AProjCache τ := fun layerNumber => .ofHalf (held layerNumber)

theorem ofHalves_update (held : Halves Name τ τ) (layerNumber : Name) (half : Half τ τ) :
    AProjCache.ofHalves (Function.update held layerNumber half) =
      Function.update (AProjCache.ofHalves held) layerNumber (AProjs.ofHalf half) :=
  Function.comp_update AProjs.ofHalf held layerNumber half

namespace LinearMlaConverter

def convertPass (c : LinearMlaConverter τ) : List (StagedParam τ) → AProjCache τ →
    Except ConvertError (List (Name × τ) × AProjCache τ)
  | [], cache => .ok ([], cache)
  | param :: params, cache => do
    let (converted, cache) ← c.convertParam param.name param.parameter param.vpStage cache
    let (rest, cache) ← c.convertPass params cache
    .ok (converted ++ rest, cache)

/-- One pass after the other, with what each of them publishes. -/
def convertPasses (c : LinearMlaConverter τ) : List (List (StagedParam τ)) → AProjCache τ →
    Except ConvertError (List (List (Name × τ)) × AProjCache τ)
  | [], cache => .ok ([], cache)
  | params :: passes, cache => do
    let (converted, cache) ← c.convertPass params cache
    let (rest, cache) ← c.convertPasses passes cache
    .ok (converted :: rest, cache)

variable (c : LinearMlaConverter τ)

def fusePair (q kv : τ) : Except ConvertError τ :=
  if c.rankInfo.attnTpSize = 1 then c.ops.cat q kv else c.ops.packFusedQkvAProjForTp q kv

def publishPair (pair : Name × τ × τ) : Except ConvertError (Name × τ) :=
  (c.fusePair pair.2.1 pair.2.2).map (fun fused => (modelLayer pair.1 fusedName, fused))

theorem fuse_release (held : Halves Name τ τ) (layerNumber : Name) (half : Half τ τ) :
    (c.fuse (AProjs.ofHalf half)).map (fun (converted, aProjs) =>
        (inLayer layerNumber (normalizeAttnNames converted),
          Function.update (AProjCache.ofHalves held) layerNumber aProjs)) =
      (((release half).1.map (fun pair => (layerNumber, pair))).mapM c.publishPair).map (fun converted =>
        (converted, AProjCache.ofHalves (Function.update held layerNumber (release half).2))) := by
  have hnormal : normalizeAttnName fusedName = fusedName := by decide
  -- a projection that comes first waits
  have hkeep : ∀ half : Half τ τ, c.fuse (AProjs.ofHalf half) = .ok ([], AProjs.ofHalf half) →
      release half = ([], half) → (c.fuse (AProjs.ofHalf half)).map (fun (converted, aProjs) =>
          (inLayer layerNumber (normalizeAttnNames converted),
            Function.update (AProjCache.ofHalves held) layerNumber aProjs)) =
        (((release half).1.map (fun pair => (layerNumber, pair))).mapM c.publishPair).map (fun converted =>
          (converted, AProjCache.ofHalves (Function.update held layerNumber (release half).2))) := by
    intro half hfuse hrelease
    rw [hfuse, hrelease, ofHalves_update]
    rfl
  obtain ⟨_ | q, _ | kv⟩ := half
  · exact hkeep _ rfl rfl
  · exact hkeep _ rfl rfl
  · exact hkeep _ rfl rfl
  · have hfuse : c.fuse (AProjs.ofHalf (some q, some kv)) =
        (c.fusePair q kv).map (fun fused => ([(fusedName, fused)], ⟨none, none⟩)) := rfl
    have hpublish : ((release (some q, some kv)).1.map (fun pair => (layerNumber, pair))).mapM c.publishPair =
        (c.fusePair q kv).map (fun fused => [(modelLayer layerNumber fusedName, fused)]) := by
      unfold release publishPair
      rw [List.map_singleton, List.mapM_cons, List.mapM_nil]
      cases c.fusePair q kv <;> rfl
    rw [hfuse, hpublish, ofHalves_update]
    cases c.fusePair q kv with
    | error e => rfl
    | ok fused =>
      have hnames : inLayer layerNumber (normalizeAttnNames [(fusedName, fused)]) =
          [(modelLayer layerNumber fusedName, fused)] := by
        unfold inLayer normalizeAttnNames
        simp only [List.map_singleton, hnormal]
      exact congrArg (fun converted => Except.ok (converted, _)) hnames

/-- The parameter is that half of the a-projections of that layer. -/
inductive IsHalf (c : LinearMlaConverter τ) (param : StagedParam τ) : Name × (τ ⊕ τ) → Prop
  | q {localLayer layer : ℕ} (hlayer : c.LayerAt param.vpStage localLayer layer)
      (hname : replaceAll "module." "" param.name = layerName localLayer "self_attention.linear_q_down_proj.weight") :
      IsHalf c param (digits layer, .inl (c.ops.getFullTensor param.parameter))
  | kv {localLayer layer : ℕ} (hlayer : c.LayerAt param.vpStage localLayer layer)
      (hname : replaceAll "module." "" param.name = layerName localLayer "self_attention.linear_kv_down_proj.weight") :
      IsHalf c param (digits layer, .inr (c.ops.getFullTensor param.parameter))

variable {c}

section Tensors

variable (hrank : c.rankInfo.tpRank = 0) (hfuse : c.fuseQkvAProj = true)
include hrank hfuse

theorem convertParam_half {param : StagedParam τ} {item : Name × (τ ⊕ τ)} (h : IsHalf c param item)
    (held : Halves Name τ τ) :
    c.convertParam param.name param.parameter param.vpStage (AProjCache.ofHalves held) =
      ((step held item).1.mapM c.publishPair).map (fun converted =>
        (converted, AProjCache.ofHalves (step held item).2)) := by
  unfold step
  dsimp only
  rw [← fuse_release]
  cases h with
  | q hlayer hname =>
    apply convertParam_qDown hrank hfuse
    rw [hname]
    exact LayerAt.processed hlayer (by unfold InLayer; decide +kernel)
  | kv hlayer hname =>
    apply convertParam_kvDown hrank hfuse
    rw [hname]
    exact LayerAt.processed hlayer (by unfold InLayer; decide +kernel)

theorem convertPass_halves {params : List (StagedParam τ)} {items : List (Name × (τ ⊕ τ))}
    (h : List.Forall₂ (IsHalf c) params items) (held : Halves Name τ τ) :
    c.convertPass params (AProjCache.ofHalves held) = ((run held items).1.mapM c.publishPair).map (fun converted =>
      (converted, AProjCache.ofHalves (run held items).2)) := by
  induction h generalizing held with
  | nil => rfl
  | @cons param item params items hparam _ ih =>
    unfold convertPass
    rw [convertParam_half hrank hfuse hparam, run_cons, List.mapM_append]
    cases (step held item).1.mapM c.publishPair with
    | error e => rfl
    | ok converted =>
      rw [Except.map_ok, Except.ok_bind, Except.ok_bind]
      dsimp only
      rw [ih]
      cases (run (step held item).2 items).1.mapM c.publishPair with
      | error e => rfl
      | ok rest => rfl

end Tensors

end LinearMlaConverter

/-- The a-projections of a layer, as the training rank holds them. -/
structure DownProjs (τ : Type) where
  layer : ℕ
  q : StagedParam τ
  kv : StagedParam τ

def DownProjs.params (projs : DownProjs τ) : List (StagedParam τ) := [projs.q, projs.kv]

def DownProjs.full (c : LinearMlaConverter τ) (projs : DownProjs τ) : Name × τ × τ :=
  (digits projs.layer, c.ops.getFullTensor projs.q.parameter, c.ops.getFullTensor projs.kv.parameter)

structure DownProjs.Named (c : LinearMlaConverter τ) (projs : DownProjs τ) : Prop where
  q : ∃ localLayer, c.LayerAt projs.q.vpStage localLayer projs.layer ∧
    replaceAll "module." "" projs.q.name = layerName localLayer "self_attention.linear_q_down_proj.weight"
  kv : ∃ localLayer, c.LayerAt projs.kv.vpStage localLayer projs.layer ∧
    replaceAll "module." "" projs.kv.name = layerName localLayer "self_attention.linear_kv_down_proj.weight"

theorem DownProjs.Named.halves {c : LinearMlaConverter τ} {projs : DownProjs τ} (h : projs.Named c) :
    List.Forall₂ c.IsHalf projs.params (Pairing.halves (projs.full c)) := by
  obtain ⟨localLayer, hlayer, hname⟩ := h.q
  obtain ⟨localLayer', hlayer', hname'⟩ := h.kv
  exact .cons (.q hlayer hname) (.cons (.kv hlayer' hname') .nil)

/-- The layers of a pass, each with both projections, in any order. -/
structure PassOf (c : LinearMlaConverter τ) (layers : List (DownProjs τ)) (params : List (StagedParam τ)) : Prop where
  distinct : (layers.map DownProjs.layer).Nodup
  named : ∀ projs ∈ layers, projs.Named c
  interleaved : params.Perm (layers.flatMap DownProjs.params)

theorem PassOf.convertPass {c : LinearMlaConverter τ} {layers : List (DownProjs τ)} {params : List (StagedParam τ)}
    (h : PassOf c layers params) (hrank : c.rankInfo.tpRank = 0) (hfuse : c.fuseQkvAProj = true) :
    ∃ pairs : List (Name × τ × τ), pairs.Perm (layers.map (DownProjs.full c)) ∧ c.convertPass params AProjCache.empty =
      (pairs.mapM c.publishPair).map (fun converted => (converted, AProjCache.empty)) := by
  have hnodup : ((layers.map (DownProjs.full c)).map Prod.fst).Nodup := by
    have hkeys : (layers.map (DownProjs.full c)).map Prod.fst = (layers.map DownProjs.layer).map digits := by
      rw [List.map_map, List.map_map]
      rfl
    rw [hkeys]
    exact h.distinct.map (fun _ _ hdigits => digits_injective hdigits)
  have hhalves : List.Forall₂ c.IsHalf (layers.flatMap DownProjs.params)
      ((layers.map (DownProjs.full c)).flatMap Pairing.halves) := by
    rw [List.flatMap_map]
    apply List.rel_flatMap (R := fun projs projs' => projs ∈ layers ∧ projs = projs')
    · exact List.forall₂_same.mpr (fun projs hprojs => ⟨hprojs, rfl⟩)
    · rintro projs _ ⟨hprojs, rfl⟩
      exact (h.named projs hprojs).halves
  obtain ⟨items, hitems, hperm⟩ := List.perm_comp_forall₂ h.interleaved hhalves
  obtain ⟨hpairs, hempty⟩ := run_perm hnodup hperm
  have hconvert := LinearMlaConverter.convertPass_halves hrank hfuse hitems empty
  rw [hempty] at hconvert
  exact ⟨(run empty items).1, hpairs, hconvert⟩

end Converter

section Rows

variable {α : Type} {cols : ℕ} {c : LinearMlaConverter (List (Vector α cols))} {inferTpSize : ℕ}

/-- The tensors are matrices of rows. -/
structure JoinsRows (c : LinearMlaConverter (List (Vector α cols))) (inferTpSize : ℕ) : Prop where
  cat : ∀ q kv, c.ops.cat q kv = catRows [q, kv]
  pack : ∀ q kv, c.ops.packFusedQkvAProjForTp q kv = packFusedQkvAProjForTp q kv inferTpSize

/-- What the packing requires of the rows of a layer. -/
def Packable (c : LinearMlaConverter (List (Vector α cols))) (inferTpSize : ℕ)
    (projs : DownProjs (List (Vector α cols))) : Prop :=
  c.rankInfo.attnTpSize ≠ 1 → 0 < inferTpSize ∧ inferTpSize ∣ (c.ops.getFullTensor projs.q.parameter).length ∧
    inferTpSize ∣ (c.ops.getFullTensor projs.kv.parameter).length

/-- The parameter is the fused projection of this layer and of no other. -/
def FusedOf (c : LinearMlaConverter (List (Vector α cols))) (inferTpSize : ℕ)
    (projs : DownProjs (List (Vector α cols))) (param : Name × List (Vector α cols)) : Prop :=
  param.1 = modelLayer (digits projs.layer) LinearMlaConverter.fusedName ∧
    fusedAProj c.rankInfo.attnTpSize inferTpSize (c.ops.getFullTensor projs.q.parameter)
      (c.ops.getFullTensor projs.kv.parameter) = .ok param.2

theorem fusedAProj_exists {projs : DownProjs (List (Vector α cols))} (h : Packable c inferTpSize projs) :
    ∃ fused, fusedAProj c.rankInfo.attnTpSize inferTpSize (c.ops.getFullTensor projs.q.parameter)
      (c.ops.getFullTensor projs.kv.parameter) = .ok fused := by
  unfold fusedAProj
  split_ifs with hone
  · exact ⟨_, catRows_pair _ _⟩
  · obtain ⟨hpos, ⟨a, hq⟩, ⟨b, hkv⟩⟩ := h hone
    exact ⟨_, packFusedQkvAProjForTp_eq hpos hq hkv⟩

theorem JoinsRows.publishPair (h : JoinsRows c inferTpSize) {projs : DownProjs (List (Vector α cols))}
    {param : Name × List (Vector α cols)} (hparam : FusedOf c inferTpSize projs param) :
    c.publishPair (projs.full c) = .ok param := by
  obtain ⟨hname, hfused⟩ := hparam
  unfold LinearMlaConverter.publishPair LinearMlaConverter.fusePair
  rw [h.cat, h.pack]
  apply Except.map_eq_ok.mpr
  exact ⟨param.2, hfused, Prod.ext hname.symm rfl⟩

theorem PassOf.fused {layers : List (DownProjs (List (Vector α cols)))}
    {params : List (StagedParam (List (Vector α cols)))} (h : PassOf c layers params)
    (hrank : c.rankInfo.tpRank = 0) (hfuse : c.fuseQkvAProj = true)
    (hops : JoinsRows c inferTpSize) (hpack : ∀ projs ∈ layers, Packable c inferTpSize projs) :
    ∃ converted fused, c.convertPass params AProjCache.empty = .ok (converted, AProjCache.empty) ∧
      List.Forall₂ (FusedOf c inferTpSize) layers fused ∧ converted.Perm fused := by
  obtain ⟨pairs, hperm, hconvert⟩ := h.convertPass hrank hfuse
  obtain ⟨fused, hfused⟩ : ∃ fused, List.Forall₂ (FusedOf c inferTpSize) layers fused := by
    have hlayers : ∀ projs ∈ layers, ∃ param, FusedOf c inferTpSize projs param := by
      intro projs hprojs
      obtain ⟨fused, hfused⟩ := fusedAProj_exists (hpack projs hprojs)
      exact ⟨(_, fused), rfl, hfused⟩
    choose! param hparam using hlayers
    exact ⟨layers.map param, List.forall₂_map_right_iff.mpr (List.forall₂_same.mpr hparam)⟩
  have hpublish : (layers.map (DownProjs.full c)).mapM c.publishPair = .ok fused := by
    apply Except.mapM_eq_ok.mpr
    rw [List.forall₂_map_left_iff]
    exact hfused.imp (fun _ _ hparam => hops.publishPair hparam)
  obtain ⟨converted, hconverted, hsame⟩ := Except.mapM_perm hperm hpublish
  refine ⟨converted, fused, ?_, hfused, hsame⟩
  rw [hconvert, hconverted, Except.map_ok]

/-- However the projections of each pass are interleaved, it publishes the fused projection of each of its layers
and leaves nothing to the next one. -/
theorem convertPasses_fused (hrank : c.rankInfo.tpRank = 0) (hfuse : c.fuseQkvAProj = true)
    (hops : JoinsRows c inferTpSize)
    {passes : List (List (DownProjs (List (Vector α cols))) × List (StagedParam (List (Vector α cols))))}
    (h : ∀ pass ∈ passes, PassOf c pass.1 pass.2 ∧ ∀ projs ∈ pass.1, Packable c inferTpSize projs) :
    ∃ published, c.convertPasses (passes.map Prod.snd) AProjCache.empty = .ok (published, AProjCache.empty) ∧
      List.Forall₂ (fun pass converted => ∃ fused, List.Forall₂ (FusedOf c inferTpSize) pass.1 fused ∧
        converted.Perm fused) passes published := by
  induction passes with
  | nil => exact ⟨[], rfl, .nil⟩
  | cons pass passes ih =>
    obtain ⟨⟨hpass, hpack⟩, hpasses⟩ := List.forall_mem_cons.mp h
    obtain ⟨converted, fused, hconverted, hfused, hsame⟩ := hpass.fused hrank hfuse hops hpack
    obtain ⟨published, hpublished, hall⟩ := ih hpasses
    refine ⟨converted :: published, ?_, .cons ⟨fused, hfused, hsame⟩ hall⟩
    rw [List.map_cons, LinearMlaConverter.convertPasses, hconverted, Except.ok_bind]
    dsimp only
    rw [hpublished, Except.ok_bind]

end Rows

section Witness

def passConverter : LinearMlaConverter (List (Vector ℕ 1)) := (rowConverter ℕ 1 2 2 2 0).withLayerMap Dict.empty

def passLayer (layer : ℕ) : DownProjs (List (Vector ℕ 1)) where
  layer := layer
  q := ⟨0, layerName layer "self_attention.linear_q_down_proj.weight", [#v[2 * layer]]⟩
  kv := ⟨0, layerName layer "self_attention.linear_kv_down_proj.weight", [#v[2 * layer + 1]]⟩

def twoPasses : List (List (DownProjs (List (Vector ℕ 1))) × List (StagedParam (List (Vector ℕ 1)))) :=
  [([passLayer 0, passLayer 1], [(passLayer 0).q, (passLayer 1).q, (passLayer 1).kv, (passLayer 0).kv]),
    ([passLayer 0, passLayer 1], [(passLayer 1).kv, (passLayer 0).q, (passLayer 0).kv, (passLayer 1).q])]

theorem passLayer_named {layer : ℕ} (h : layer < 2) : (passLayer layer).Named passConverter := by
  have hnames : ∀ layer < 2, ∀ remaining ∈ [("self_attention.linear_q_down_proj.weight" : Name),
      ("self_attention.linear_kv_down_proj.weight" : Name)],
      replaceAll "module." "" (layerName layer remaining) = layerName layer remaining := by
    decide +kernel
  exact ⟨⟨layer, .inl ⟨rfl, rfl⟩, hnames layer h _ List.mem_cons_self⟩,
    ⟨layer, .inl ⟨rfl, rfl⟩, hnames layer h _ (List.mem_cons_of_mem _ List.mem_cons_self)⟩⟩

theorem convertPasses_fused_twoPasses : ∃ published,
    passConverter.convertPasses (twoPasses.map Prod.snd) AProjCache.empty = .ok (published, AProjCache.empty) ∧
      List.Forall₂ (fun pass converted => ∃ fused, List.Forall₂ (FusedOf passConverter 2) pass.1 fused ∧
        converted.Perm fused) twoPasses published := by
  have hlayers : ∀ projs ∈ [passLayer 0, passLayer 1], projs.Named passConverter ∧ Packable passConverter 2 projs := by
    intro projs hprojs
    obtain rfl | hprojs := List.mem_cons.mp hprojs
    · exact ⟨passLayer_named (by decide), fun _ => ⟨by decide, ⟨1, rfl⟩, ⟨1, rfl⟩⟩⟩
    · obtain rfl := List.mem_singleton.mp hprojs
      exact ⟨passLayer_named (by decide), fun _ => ⟨by decide, ⟨1, rfl⟩, ⟨1, rfl⟩⟩⟩
  apply convertPasses_fused rfl rfl (⟨fun _ _ => rfl, fun _ _ => rfl⟩ : JoinsRows passConverter 2)
  intro pass hpass
  obtain rfl | hpass := List.mem_cons.mp hpass
  · refine ⟨⟨by decide, fun projs hprojs => (hlayers projs hprojs).1, ?_⟩, fun projs hprojs => (hlayers projs hprojs).2⟩
    decide +kernel
  · obtain rfl := List.mem_singleton.mp hpass
    refine ⟨⟨by decide, fun projs hprojs => (hlayers projs hprojs).1, ?_⟩, fun projs hprojs => (hlayers projs hprojs).2⟩
    decide +kernel

end Witness

end Awex
