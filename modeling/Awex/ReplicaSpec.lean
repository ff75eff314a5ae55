import Awex.OverlapSpec

namespace Awex

abbrev PlacedShard := ParameterShardMeta × ℕ

def overlapItem (p q : PlacedShard) : Option (PlacedShard × PlacedShard × List ℕ × List ℕ) :=
  match shardOverlap p.1 q.1 with
  | .ok (some bounds) => some (p, q, bounds)
  | _ => none

theorem overlapItem_eq_some {p q : PlacedShard} {i : PlacedShard × PlacedShard × List ℕ × List ℕ} :
    overlapItem p q = some i ↔ i.1 = p ∧ i.2.1 = q ∧ shardOverlap p.1 q.1 = .ok (some i.2.2) := by
  obtain ⟨p', q', bounds⟩ := i
  unfold overlapItem
  split
  · rename_i bounds' h
    simp [h, eq_comm]
  · rename_i h
    simpa using fun _ _ => h bounds

structure RegionFor (region : OverlapRegion) (i : PlacedShard × PlacedShard × List ℕ × List ℕ) :
    Prop where
  inference : Describes region.inferenceShard i.1
  training : Describes region.trainingShard i.2.1
  bounds : i.2.2 = (region.overlapStart, region.overlapEnd)
  overlap : shardOverlap i.1.1 i.2.1.1 = .ok (some i.2.2)

theorem overlapRow_post (so : ShardOffset) (p : PlacedShard) (trainingMap : List ShardOffset)
    (qs : List PlacedShard) (hp : Describes so p) (hvp : ValidShard p.1)
    (hq : List.Forall₂ Describes trainingMap qs) (hvq : ∀ q ∈ qs, ValidShard q.1)
    (row : List (Option OverlapRegion)) (h : trainingMap.mapM (overlapRegion so) = .ok row) :
    (∀ q ∈ qs, ∃ o, shardOverlap p.1 q.1 = .ok o) ∧
      List.Forall₂ RegionFor (row.filterMap id) (qs.filterMap (overlapItem p)) := by
  replace h := Except.mapM_eq_ok.mp h
  induction hq generalizing row with
  | nil =>
    cases h
    simp
  | @cons tr q trainingMap qs htr _ ih =>
    cases h with
    | @cons _ r _ row hr hrow =>
      obtain ⟨hvq, hvqs⟩ := List.forall_mem_cons.mp hvq
      obtain ⟨hok, hrest⟩ := ih hvqs row hrow
      rw [overlapRegion_eq so tr p q hp htr hvp hvq] at hr
      obtain ⟨o, ho, rfl⟩ := Except.map_eq_ok.mp hr
      refine ⟨List.forall_mem_cons.mpr ⟨⟨o, ho⟩, hok⟩, ?_⟩
      cases o with
      | none => simpa [overlapItem, ho] using hrest
      | some bounds => simpa [overlapItem, ho] using ⟨⟨hp, htr, rfl, ho⟩, hrest⟩

theorem findOverlappingRegions_post (inferenceMap trainingMap : List ShardOffset)
    (ps qs : List PlacedShard) (hp : List.Forall₂ Describes inferenceMap ps)
    (hvp : ∀ p ∈ ps, ValidShard p.1) (hq : List.Forall₂ Describes trainingMap qs)
    (hvq : ∀ q ∈ qs, ValidShard q.1) (regions : List OverlapRegion)
    (h : findOverlappingRegions inferenceMap trainingMap = .ok regions) :
    (∀ p ∈ ps, ∀ q ∈ qs, ∃ o, shardOverlap p.1 q.1 = .ok o) ∧
      List.Forall₂ RegionFor regions (ps.flatMap (fun p => qs.filterMap (overlapItem p))) := by
  rw [findOverlappingRegions, Except.bind_eq_ok] at h
  obtain ⟨rows, hrows, h⟩ := h
  obtain rfl := Except.ok.inj h
  replace hrows := Except.mapM_eq_ok.mp hrows
  clear h
  induction hp generalizing rows with
  | nil =>
    cases hrows
    simp
  | @cons so p inferenceMap ps hso _ ih =>
    cases hrows with
    | @cons _ row _ rows hrow hrows =>
      obtain ⟨hvp, hvps⟩ := List.forall_mem_cons.mp hvp
      obtain ⟨hok, hrest⟩ := ih hvps rows hrows
      obtain ⟨hok', hregions⟩ := overlapRow_post so p trainingMap qs hso hvp hq hvq row hrow
      refine ⟨List.forall_mem_cons.mpr ⟨hok', hok⟩, ?_⟩
      simpa only [List.flatten_cons, List.filterMap_append, List.flatMap_cons] using
        List.rel_append hregions hrest

theorem findOverlappingRegions_isOk (inferenceMap trainingMap : List ShardOffset)
    (ps qs : List PlacedShard) (hp : List.Forall₂ Describes inferenceMap ps)
    (hvp : ∀ p ∈ ps, ValidShard p.1) (hq : List.Forall₂ Describes trainingMap qs)
    (hvq : ∀ q ∈ qs, ValidShard q.1) (hok : ∀ p ∈ ps, ∀ q ∈ qs, ∃ o, shardOverlap p.1 q.1 = .ok o) :
    ∃ regions, findOverlappingRegions inferenceMap trainingMap = .ok regions := by
  have hrows : ∃ rows, inferenceMap.mapM (fun inf => trainingMap.mapM (overlapRegion inf)) =
      .ok rows := by
    apply Except.mapM_isOk.mpr
    intro so hso
    obtain ⟨p, hpm, hsp⟩ := exists_of_forall₂_mem hp hso
    apply Except.mapM_isOk.mpr
    intro tr htr
    obtain ⟨q, hqm, htq⟩ := exists_of_forall₂_mem hq htr
    obtain ⟨o, ho⟩ := hok p hpm q hqm
    exact ⟨_, by rw [overlapRegion_eq so tr p q hsp htq (hvp p hpm) (hvq q hqm), ho]; rfl⟩
  obtain ⟨rows, hrows⟩ := hrows
  exact ⟨_, Except.bind_eq_ok.mpr ⟨rows, hrows, rfl⟩⟩

theorem shardOverlap_post (s t : ParameterShardMeta) (start stop : List ℕ) (hs : ValidShard s)
    (h : shardOverlap s t = .ok (some (start, stop))) :
    start.length = s.globalOffset.length ∧ stop.length = s.globalOffset.length ∧
      s.globalOffset.length ≤ t.globalOffset.length ∧
      start = List.zipWith max s.globalOffset t.globalOffset ∧
      stop = List.zipWith min (shardEnds s) (shardEnds t) ∧ List.Forall₂ (· < ·) start stop := by
  obtain ⟨h1, h2, h3, h4, h5, h6⟩ := overlapBounds_post _ _ _ _ _ _ h
  refine ⟨h1, h2, h3, h4, ?_, h6⟩
  rw [h5, List.take_of_length_le]
  simp [shardEnds_length hs]

/-- What the operations of one overlap ask for: a scratch list of exactly its dimensions, and a
sender and a receiver in their own worlds. -/
structure ItemOk (b : TransferPlanBuilder) (n : ℕ)
    (i : PlacedShard × PlacedShard × List ℕ × List ℕ) : Prop where
  dims : n = i.1.1.globalOffset.length
  ranks : checkRanks b i.2.1.2 i.1.2 = .ok ()

def itemOperation (i : PlacedShard × PlacedShard × List ℕ × List ℕ) : CommunicationOperation :=
  regionOperation i.1 i.2.1 i.2.2.1 i.2.2.2

theorem buildRegions_ok_iff (b : TransferPlanBuilder) (scratch : List ScratchCell) (n : ℕ)
    (hn : scratch.length = n) (hpos : 0 < n) (regions : List OverlapRegion)
    (items : List (PlacedShard × PlacedShard × List ℕ × List ℕ))
    (hr : List.Forall₂ RegionFor regions items)
    (hv : ∀ i ∈ items, ValidShard i.1.1 ∧ ValidShard i.2.1.1) (plan : List CommunicationOperation) :
    buildRegions b scratch regions = .ok plan ↔
      (∀ i ∈ items, ItemOk b n i) ∧ plan = items.map itemOperation := by
  induction hr generalizing scratch plan with
  | nil => simp [buildRegions, eq_comm]
  | @cons region i regions items hri _ ih =>
    obtain ⟨⟨hvp, hvq⟩, hvs⟩ := List.forall_mem_cons.mp hv
    obtain ⟨p, q, start, stop⟩ := i
    obtain ⟨hp, hq, hbounds, hover⟩ := hri
    obtain ⟨rfl, rfl⟩ := Prod.mk.inj hbounds
    obtain ⟨h1, h2, h3, -, -, -⟩ := shardOverlap_post p.1 q.1 _ _ hvp hover
    have hne : scratch ≠ [] := List.length_pos_iff.mp (hn ▸ hpos)
    have hstep := buildRegionCommunicationPlan_ok_iff b region scratch p q hp hq (h2.trans h1.symm) h1
      (h1.le.trans h3) hne
    rw [buildRegions, Except.bind_eq_ok, List.forall_mem_cons]
    constructor
    · rintro ⟨⟨op, out⟩, hop, h⟩
      obtain ⟨hdims, hranks, hop⟩ := (hstep _).mp hop
      obtain ⟨rfl, rfl⟩ := Prod.mk.inj hop
      obtain ⟨ops, hops, h⟩ := Except.bind_eq_ok.mp h
      obtain rfl := Except.ok.inj h
      have hout : (((regionOperation p q region.overlapStart region.overlapEnd).infSlices).map
          ScratchCell.slice).length = n := by
        simp only [regionOperation, offsetSlices, List.length_map, List.length_zipWith]
        omega
      obtain ⟨hitems, rfl⟩ := (ih _ hout hvs ops).mp hops
      exact ⟨⟨⟨hn.symm.trans (hdims.trans h1), hranks⟩, hitems⟩, rfl⟩
    · rintro ⟨⟨hi, hitems⟩, rfl⟩
      have hdims : scratch.length = region.overlapStart.length := hn.trans (hi.dims.trans h1.symm)
      have hout : (((regionOperation p q region.overlapStart region.overlapEnd).infSlices).map
          ScratchCell.slice).length = n := by
        simp only [regionOperation, offsetSlices, List.length_map, List.length_zipWith]
        omega
      exact ⟨_, (hstep _).mpr ⟨hdims, hi.ranks, rfl⟩,
        Except.bind_eq_ok.mpr ⟨_, (ih _ hout hvs _).mpr ⟨hitems, rfl⟩, rfl⟩⟩

end Awex
