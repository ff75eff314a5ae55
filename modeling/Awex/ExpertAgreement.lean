import Awex.PlainOrder
import Awex.SglangExperts
import Awex.SliceKey

namespace Awex

open Text

variable {τ υ : Type}

def projections : List Projection := [.gateProj, .upProj, .downProj]

def localExperts (per : ℕ) : List (ℕ × ExpertLinear) :=
  (List.range per).flatMap (fun i => [(i, .linearFc1), (i, .linearFc2)])

/-- The experts of a rank whose partition has `per` of them. -/
def ownedExperts (layer per rank : ℕ) (w : ExpertWeights τ) : List (Name × τ) :=
  (localExperts per).flatMap (fun (i, linear) => publishedExpert layer (rank * per + i) w linear)

section Owned

variable {layer per rank : ℕ} {w : ExpertWeights τ}

theorem expertName_inj {expertId expertId' : ℕ} {proj proj' : Projection}
    (h : expertName layer expertId proj = expertName layer expertId' proj') : expertId = expertId' ∧ proj = proj' := by
  have hdot : ("." : Name) = ['.'] := by decide
  have hname : ∀ (expertId : ℕ) (proj : Projection), (LayerParam.experts expertId proj .weight).name =
      ("mlp.experts." : Name) ++ (digits expertId ++ '.' :: proj.name .weight) := by
    intro expertId proj
    unfold LayerParam.name
    simp only [hdot, List.append_assoc, List.singleton_append]
  have hproj : ∀ p ∈ projections, ∀ q ∈ projections, p.name .weight = q.name .weight → p = q := by
    decide +kernel
  have hmem : ∀ p : Projection, p ∈ projections := by
    intro p
    cases p <;> decide
  have hlayer := modelLayer_injective (digits layer) h
  rw [hname, hname] at hlayer
  have hdigits : ∀ n : ℕ, ∀ c ∈ digits n, c ≠ '.' := by
    rintro n c hc rfl
    exact not_mem_digits (by decide) hc
  obtain ⟨hid, hrest⟩ := append_cons_inj_of _ (hdigits expertId) (hdigits expertId') (not_not_intro rfl)
    (not_not_intro rfl) (List.append_cancel_left hlayer)
  exact ⟨digits_injective hid, hproj _ (hmem proj) _ (hmem proj') (List.cons.inj hrest).2⟩

theorem ownedExperts_eq : ownedExperts layer per rank w = (List.range per).flatMap (fun i =>
    projections.map (fun proj => (expertName layer (rank * per + i) proj, w.projection proj (rank * per + i)))) := by
  unfold ownedExperts localExperts
  rw [List.flatMap_assoc]
  rfl

theorem mem_ownedExperts {hfName : Name} {weight : τ} : (hfName, weight) ∈ ownedExperts layer per rank w ↔
    ∃ i < per, ∃ proj, hfName = expertName layer (rank * per + i) proj ∧ weight = w.projection proj (rank * per + i) := by
  rw [ownedExperts_eq]
  simp only [List.mem_flatMap, List.mem_range, List.mem_map, Prod.mk.injEq]
  apply exists_congr
  intro i
  apply and_congr_right
  intro _
  constructor
  · rintro ⟨proj, -, hname, hweight⟩
    exact ⟨proj, hname.symm, hweight.symm⟩
  · rintro ⟨proj, hname, hweight⟩
    exact ⟨proj, by cases proj <;> decide, hname.symm, hweight.symm⟩

theorem ownedExperts_nodup : ((ownedExperts layer per rank w).map Prod.fst).Nodup := by
  have hnames : (ownedExperts layer per rank w).map Prod.fst =
      (List.range per ×ˢ projections).map (fun p => expertName layer (rank * per + p.1) p.2) := by
    have hproduct : List.range per ×ˢ projections = (List.range per).flatMap (fun i => projections.map (Prod.mk i)) :=
      rfl
    rw [ownedExperts_eq, List.map_flatMap, hproduct, List.map_flatMap]
    apply List.flatMap_congr
    intro i _
    rw [List.map_map, List.map_map]
    rfl
  rw [hnames]
  apply List.Nodup.map
  · rintro ⟨i, proj⟩ ⟨j, proj'⟩ h
    obtain ⟨hid, hproj⟩ := expertName_inj h
    exact Prod.ext (Nat.add_left_cancel hid) hproj
  · exact List.Nodup.product List.nodup_range (by decide)

/-- The ranks publish every expert, each of them on one rank, with its own projections. -/
structure Publishes (numExperts epSize layer : ℕ) (w : ExpertWeights τ) (published : ℕ → List (Name × τ)) : Prop where
  names : ∀ hfName, (∃ rank < epSize, hfName ∈ (published rank).map Prod.fst) ↔
    ∃ expertId < numExperts, ∃ proj, hfName = expertName layer expertId proj
  nodup : ∀ rank < epSize, ((published rank).map Prod.fst).Nodup
  unique : ∀ expertId < numExperts, ∃! rank, rank < epSize ∧
    ∃ proj, expertName layer expertId proj ∈ (published rank).map Prod.fst
  weight : ∀ rank < epSize, ∀ expertId proj weight, (expertName layer expertId proj, weight) ∈ published rank →
    weight = w.projection proj expertId

theorem mem_names_ownedExperts {hfName : Name} : hfName ∈ (ownedExperts layer per rank w).map Prod.fst ↔
    ∃ i < per, ∃ proj, hfName = expertName layer (rank * per + i) proj := by
  simp only [List.mem_map, Prod.exists, mem_ownedExperts]
  constructor
  · rintro ⟨hfName, weight, ⟨i, hi, proj, rfl, -⟩, rfl⟩
    exact ⟨i, hi, proj, rfl⟩
  · rintro ⟨i, hi, proj, rfl⟩
    exact ⟨_, _, ⟨i, hi, proj, rfl, rfl⟩, rfl⟩

theorem publishes_of_owned {epSize : ℕ} {published : ℕ → List (Name × τ)}
    (h : ∀ rank < epSize, (published rank).Perm (ownedExperts layer per rank w)) :
    Publishes (epSize * per) epSize layer w published := by
  have hnames : ∀ rank < epSize, ∀ hfName, hfName ∈ (published rank).map Prod.fst ↔
      ∃ i < per, ∃ proj, hfName = expertName layer (rank * per + i) proj := by
    intro rank hrank hfName
    rw [((h rank hrank).map Prod.fst).mem_iff]
    exact mem_names_ownedExperts
  have hrank : ∀ rank < epSize, ∀ expertId proj, expertName layer expertId proj ∈ (published rank).map Prod.fst ↔
      0 < per ∧ expertId / per = rank := by
    intro rank hrank expertId proj
    rw [hnames rank hrank]
    constructor
    · rintro ⟨i, hi, proj', hname⟩
      obtain ⟨rfl, -⟩ := expertName_inj hname
      have hper : 0 < per := by omega
      refine ⟨hper, ?_⟩
      rw [Nat.mul_comm, Nat.mul_add_div hper, Nat.div_eq_of_lt hi, Nat.add_zero]
    · rintro ⟨hper, rfl⟩
      refine ⟨expertId % per, Nat.mod_lt _ hper, proj, ?_⟩
      rw [Nat.mul_comm, Nat.div_add_mod]
  constructor
  · intro hfName
    constructor
    · rintro ⟨rank, hlt, hmem⟩
      obtain ⟨i, hi, proj, rfl⟩ := (hnames rank hlt hfName).mp hmem
      refine ⟨rank * per + i, ?_, proj, rfl⟩
      calc rank * per + i < (rank + 1) * per := by rw [Nat.succ_mul]; omega
        _ ≤ epSize * per := Nat.mul_le_mul_right per hlt
    · rintro ⟨expertId, hid, proj, rfl⟩
      have hper : 0 < per := Nat.pos_of_ne_zero (fun hzero => by rw [hzero, Nat.mul_zero] at hid; omega)
      have hlt : expertId / per < epSize := (Nat.div_lt_iff_lt_mul hper).mpr hid
      exact ⟨expertId / per, hlt, (hrank _ hlt expertId proj).mpr ⟨hper, rfl⟩⟩
  · intro rank hlt
    exact ((h rank hlt).map Prod.fst).nodup_iff.mpr ownedExperts_nodup
  · intro expertId hid
    have hper : 0 < per := Nat.pos_of_ne_zero (fun hzero => by rw [hzero, Nat.mul_zero] at hid; omega)
    have hlt : expertId / per < epSize := (Nat.div_lt_iff_lt_mul hper).mpr hid
    refine ⟨expertId / per, ⟨hlt, .gateProj, (hrank _ hlt expertId .gateProj).mpr ⟨hper, rfl⟩⟩, ?_⟩
    rintro rank ⟨hrank', proj, hmem⟩
    exact ((hrank rank hrank' expertId proj).mp hmem).2.symm
  · intro rank hlt expertId proj weight hmem
    obtain ⟨i, -, proj', hname, rfl⟩ := mem_ownedExperts.mp ((h rank hlt).mem_iff.mp hmem)
    obtain ⟨rfl, rfl⟩ := expertName_inj hname
    rfl

end Owned

section Ranks

def McoreConverter.convertAll (c : McoreConverter τ) (vpStage : ℕ) (params : List (Name × τ)) :
    Except ConvertError (List (Name × τ)) :=
  (params.mapM (fun (name, weight) => c.convertParam name weight vpStage)).map List.flatten

def SglangConverter.convertAll (c : SglangConverter υ) (params : List (Name × υ)) :
    Except SglangError (List (Name × υ)) :=
  (params.mapM (fun (name, weight) => c.convertParam name weight)).map List.flatten

/-- A rank of the training side and its experts of a layer, in any order. -/
structure TrainExperts (c : McoreConverter τ) (numExperts epSize rank vpStage layer : ℕ) (w : ExpertWeights τ)
    (params : List (Name × τ)) : Prop where
  rank_eq : c.rankInfo.epRank = rank
  size_eq : c.rankInfo.epSize = epSize
  num_eq : c.numExperts = numExperts
  experts : ∃ (spelling : ExpertSpelling) (localLayer : ℕ) (name : ℕ → ExpertLinear → Name)
    (weight : ℕ → ExpertLinear → τ), c.LayerAt vpStage localLayer layer ∧
    (∀ i < numExperts / epSize, ∀ linear,
      replaceAll "module." "" (name i linear) = layerName localLayer (localExpertName spelling linear i) ∧
      w.HeldBy c.ops.rows c.ops.narrow (rank * (numExperts / epSize) + i) linear (weight i linear)) ∧
    params.Perm ((localExperts (numExperts / epSize)).map (fun (i, linear) => (name i linear, weight i linear)))

/-- A rank of the inference side and its experts of a layer. -/
structure InferExperts (c : SglangConverter υ) (numExperts epSize rank layer : ℕ) (w : ExpertWeights υ)
    (params : List (Name × υ)) : Prop where
  rank_eq : c.epRank = rank
  size_eq : c.epSize = epSize
  num_eq : c.numRouterExperts = .ok numExperts
  experts : ∃ fused : ExpertLinear → υ,
    (∀ linear, c.HoldsExperts w (rank * (numExperts / epSize)) (numExperts / epSize) linear (fused linear)) ∧
    params.Perm [(modelLayer (digits layer) (fusedExperts .linearFc1), fused .linearFc1),
      (modelLayer (digits layer) (fusedExperts .linearFc2), fused .linearFc2)]

section Convert

variable {ε β ω : Type} (convert : Name → ω → Except ε β)

theorem mapM_localExperts {per : ℕ} {name : ℕ → ExpertLinear → Name} {weight : ℕ → ExpertLinear → ω}
    {published : ℕ → ExpertLinear → β}
    (h : ∀ i < per, ∀ linear, convert (name i linear) (weight i linear) = .ok (published i linear)) :
    ((localExperts per).map (fun (i, linear) => (name i linear, weight i linear))).mapM
      (fun (name, weight) => convert name weight) =
        .ok ((localExperts per).map (fun (i, linear) => published i linear)) := by
  apply Except.mapM_eq_ok.mpr
  rw [List.forall₂_map_left_iff, List.forall₂_map_right_iff, List.forall₂_same]
  rintro ⟨i, linear⟩ hmem
  obtain ⟨j, hj, hmem⟩ := List.mem_flatMap.mp hmem
  obtain rfl : i = j := by
    obtain heq | hmem := List.mem_cons.mp hmem
    · exact (Prod.mk.inj heq).1
    · exact (Prod.mk.inj (List.mem_singleton.mp hmem)).1
  exact h i (List.mem_range.mp hj) linear

theorem mapM_linears {name : ExpertLinear → Name} {fused : ExpertLinear → ω} {published : ExpertLinear → β}
    (h : ∀ linear, convert (name linear) (fused linear) = .ok (published linear)) :
    [(name .linearFc1, fused .linearFc1), (name .linearFc2, fused .linearFc2)].mapM
      (fun (name, weight) => convert name weight) = .ok [published .linearFc1, published .linearFc2] :=
  Except.mapM_eq_ok.mpr (.cons (h .linearFc1) (.cons (h .linearFc2) .nil))

end Convert

theorem TrainExperts.converted {c : McoreConverter τ} {numExperts epSize rank vpStage layer : ℕ} {w : ExpertWeights τ}
    {params : List (Name × τ)} (h : TrainExperts c numExperts epSize rank vpStage layer w params) (hrank : rank < epSize) :
    ∃ published, c.convertAll vpStage params = .ok published ∧
      published.Perm (ownedExperts layer (numExperts / epSize) rank w) := by
  obtain ⟨hep, hsize, hnum, spelling, localLayer, name, weight, hlayer, hexperts, hperm⟩ := h
  have hconvert : ∀ i < numExperts / epSize, ∀ linear, c.convertParam (name i linear) (weight i linear) vpStage =
      .ok (publishedExpert layer (rank * (numExperts / epSize) + i) w linear) := by
    intro i hi linear
    obtain ⟨hname, hheld⟩ := hexperts i hi linear
    apply convertParam_expert hlayer hname
    · rw [hsize]
      exact Nat.ne_zero_of_lt hrank
    · rw [hep, hsize, hnum, Nat.add_comm]
    · exact hheld
  obtain ⟨published, hpublished, hsame⟩ := Except.mapM_perm hperm (mapM_localExperts (fun name weight => c.convertParam name weight vpStage) hconvert)
  refine ⟨published.flatten, ?_, ?_⟩
  · rw [McoreConverter.convertAll, hpublished, Except.map_ok]
  · exact hsame.flatten

theorem InferExperts.converted {c : SglangConverter υ} {numExperts epSize rank layer : ℕ} {w : ExpertWeights υ}
    {params : List (Name × υ)} (h : InferExperts c numExperts epSize rank layer w params) (hrank : rank < epSize) :
    ∃ published, c.convertAll params = .ok published ∧
      published.Perm (ownedExperts layer (numExperts / epSize) rank w) := by
  obtain ⟨hep, hsize, hnum, fused, hheld, hperm⟩ := h
  have hcount : c.epSize = 1 → rank * (numExperts / epSize) = 0 ∧ numExperts / epSize = numExperts := by
    intro hone
    rw [hsize] at hone
    subst hone
    rw [Nat.lt_one_iff.mp hrank, Nat.zero_mul, Nat.div_one]
    exact ⟨rfl, rfl⟩
  have hconvert : ∀ linear, c.convertParam (modelLayer (digits layer) (fusedExperts linear)) (fused linear) =
      .ok ((List.range (numExperts / epSize)).flatMap (fun i =>
        publishedExpert layer (rank * (numExperts / epSize) + i) w linear)) := by
    intro linear
    exact SglangConverter.convertParam_experts layer hnum hcount (by rw [hep]) (hheld linear)
  obtain ⟨published, hpublished, hsame⟩ := Except.mapM_perm hperm (mapM_linears c.convertParam hconvert)
  refine ⟨published.flatten, ?_, ?_⟩
  · rw [SglangConverter.convertAll, hpublished, Except.map_ok]
  · refine hsame.flatten.trans ?_
    rw [List.flatten_cons, List.flatten_singleton]
    refine (List.flatMap_append_perm _ _ _).trans ?_
    unfold ownedExperts localExperts
    rw [List.flatMap_assoc]
    rfl

variable {numExperts trainEpSize inferEpSize vpStage layer : ℕ} {c : ℕ → McoreConverter τ} {d : ℕ → SglangConverter υ}
  {w : ExpertWeights τ} {v : ExpertWeights υ} {trainParams : ℕ → List (Name × τ)} {inferParams : ℕ → List (Name × υ)}

theorem experts_agree (htrain : trainEpSize ∣ numExperts) (hinfer : inferEpSize ∣ numExperts)
    (hc : ∀ rank < trainEpSize, TrainExperts (c rank) numExperts trainEpSize rank vpStage layer w (trainParams rank))
    (hd : ∀ rank < inferEpSize, InferExperts (d rank) numExperts inferEpSize rank layer v (inferParams rank)) :
    ∃ trainPublished inferPublished,
      (∀ rank < trainEpSize, (c rank).convertAll vpStage (trainParams rank) = .ok (trainPublished rank)) ∧
      (∀ rank < inferEpSize, (d rank).convertAll (inferParams rank) = .ok (inferPublished rank)) ∧
      (∀ hfName, (∃ rank < trainEpSize, hfName ∈ (trainPublished rank).map Prod.fst) ↔
        ∃ rank < inferEpSize, hfName ∈ (inferPublished rank).map Prod.fst) ∧
      Publishes numExperts trainEpSize layer w trainPublished ∧
      Publishes numExperts inferEpSize layer v inferPublished := by
  choose! trainPublished hconverted howned using fun rank hrank => (hc rank hrank).converted hrank
  choose! inferPublished hconverted' howned' using fun rank hrank => (hd rank hrank).converted hrank
  have hpublished := publishes_of_owned howned
  have hpublished' := publishes_of_owned howned'
  rw [Nat.mul_div_cancel' htrain] at hpublished
  rw [Nat.mul_div_cancel' hinfer] at hpublished'
  refine ⟨trainPublished, inferPublished, hconverted, hconverted', ?_, hpublished, hpublished'⟩
  intro hfName
  rw [hpublished.names, hpublished'.names]

end Ranks

section Witness

/-- Expert `e` with a row for each projection. -/
def rowExperts : ExpertWeights (List (Vector ℤ 1)) where
  gate := fun e => [#v[3 * e]]
  up := fun e => [#v[3 * e + 1]]
  down := fun e => [#v[3 * e + 2]]

def expertRank (rank : ℕ) : McoreConverter (List (Vector ℤ 1)) where
  ops := rowTensorOps 1 1
  rankInfo := { rowRankInfo 1 1 with epRank := rank, epSize := 2 }
  numExperts := 2
  normHead := false
  ppStageLayerIdMap := Dict.empty

def expertWeight (rank : ℕ) : ExpertLinear → List (Vector ℤ 1)
  | .linearFc1 => [#v[3 * rank], #v[3 * rank + 1]]
  | .linearFc2 => [#v[3 * rank + 2]]

def expertRankParams (rank : ℕ) : List (Name × List (Vector ℤ 1)) :=
  [(layerName 0 (localExpertName .grouped .linearFc1 0), expertWeight rank .linearFc1),
    (layerName 0 (localExpertName .grouped .linearFc2 0), expertWeight rank .linearFc2)]

def columnExperts : ExpertWeights (List (List ℤ)) where
  gate := fun e => [[3 * e]]
  up := fun e => [[3 * e + 1]]
  down := fun e => [[3 * e + 2]]

/-- The rows of an expert have one element. -/
def columnOps : SglangOps (List (List ℤ)) where
  ndim := fun _ => 2
  rows := fun weight => .ok weight.length
  narrow := fun weight start length => .ok ((weight.drop start).take length)
  select := fun weight i => match weight[i]? with
    | some expert => .ok (expert.map (fun x => [x]))
    | none => .error .indexError
  transpose := id

def columnConverter (rank : ℕ) : SglangConverter (List (List ℤ)) where
  ops := columnOps
  numExperts := some 2
  nRoutedExperts := none
  epSize := 1
  epRank := rank
  deviceBackend := .cuda

def columnFused : ExpertLinear → List (List ℤ)
  | .linearFc1 => [[0, 1], [3, 4]]
  | .linearFc2 => [[2], [5]]

def columnParams (_rank : ℕ) : List (Name × List (List ℤ)) :=
  [(modelLayer (digits 0) (fusedExperts .linearFc1), columnFused .linearFc1),
    (modelLayer (digits 0) (fusedExperts .linearFc2), columnFused .linearFc2)]

theorem expertRank_trainExperts {rank : ℕ} (h : rank < 2) :
    TrainExperts (expertRank rank) 2 2 rank 0 0 rowExperts (expertRankParams rank) where
  rank_eq := rfl
  size_eq := rfl
  num_eq := rfl
  experts := by
    have hname : ∀ linear, replaceAll "module." "" (layerName 0 (localExpertName .grouped linear 0)) =
        layerName 0 (localExpertName .grouped linear 0) := by
      intro linear
      cases linear <;> decide +kernel
    refine ⟨.grouped, 0, fun i linear => layerName 0 (localExpertName .grouped linear i), fun _ => expertWeight rank,
      .inl ⟨rfl, rfl⟩, ?_, .refl _⟩
    intro i hi linear
    obtain rfl : i = 0 := by omega
    refine ⟨hname linear, ?_⟩
    obtain rfl | rfl : rank = 0 ∨ rank = 1 := by omega
    · cases linear with
      | linearFc1 => exact ⟨1, rfl, rfl, rfl⟩
      | linearFc2 => rfl
    · cases linear with
      | linearFc1 => exact ⟨1, rfl, rfl, rfl⟩
      | linearFc2 => rfl

theorem columnConverter_inferExperts {rank : ℕ} (h : rank < 1) :
    InferExperts (columnConverter rank) 2 1 rank 0 columnExperts (columnParams rank) where
  rank_eq := rfl
  size_eq := rfl
  num_eq := rfl
  experts := by
    obtain rfl : rank = 0 := by omega
    refine ⟨columnFused, ?_, .refl _⟩
    intro linear
    cases linear with
    | linearFc1 =>
      refine ⟨rfl, fun i hi => ?_⟩
      obtain rfl | rfl : i = 0 ∨ i = 1 := by omega
      · exact ⟨_, rfl, 1, rfl, rfl, rfl⟩
      · exact ⟨_, rfl, 1, rfl, rfl, rfl⟩
    | linearFc2 =>
      refine ⟨rfl, fun i hi => ?_⟩
      obtain rfl | rfl : i = 0 ∨ i = 1 := by omega
      · exact ⟨_, rfl, rfl⟩
      · exact ⟨_, rfl, rfl⟩

theorem experts_agree_twoRanks : ∃ trainPublished inferPublished,
    (∀ rank < 2, (expertRank rank).convertAll 0 (expertRankParams rank) = .ok (trainPublished rank)) ∧
    (∀ rank < 1, (columnConverter rank).convertAll (columnParams rank) = .ok (inferPublished rank)) ∧
    (∀ hfName, (∃ rank < 2, hfName ∈ (trainPublished rank).map Prod.fst) ↔
      ∃ rank < 1, hfName ∈ (inferPublished rank).map Prod.fst) ∧
    Publishes 2 2 0 rowExperts trainPublished ∧ Publishes 2 1 0 columnExperts inferPublished := by
  apply experts_agree ⟨1, rfl⟩ ⟨2, rfl⟩
  · exact fun rank hrank => expertRank_trainExperts hrank
  · exact fun rank hrank => columnConverter_inferExperts hrank

end Witness

end Awex
