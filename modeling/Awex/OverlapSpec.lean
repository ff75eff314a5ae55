import Awex.RegionSpec

namespace Awex

theorem overlapBounds_stale (ss es ts fs : List ℕ) (stale stale' : List ScratchCell)
    (hs : ss.length = es.length) (ht : ts.length = fs.length) :
    overlapBounds ss (es.map .int ++ stale) ts (fs.map .int ++ stale') =
      overlapBounds ss (es.map .int) ts (fs.map .int) := by
  induction ss generalizing es ts fs with
  | nil => simp [overlapBounds]
  | cons s ss ih =>
    cases es with
    | nil => simp at hs
    | cons e es =>
      cases ts with
      | nil => simp [overlapBounds]
      | cons t ts =>
        cases fs with
        | nil => simp at ht
        | cons f fs =>
          simp only [List.map_cons, List.cons_append, overlapBounds]
          rw [ih es ts fs (by simpa using hs) (by simpa using ht)]

def shardOverlap (inf train : ParameterShardMeta) : Except PlanError (Option (List ℕ × List ℕ)) :=
  overlapBounds inf.globalOffset ((shardEnds inf).map .int) train.globalOffset
    ((shardEnds train).map .int)

theorem overlapRegion_eq (inf train : ShardOffset) (p q : ParameterShardMeta × ℕ)
    (hp : Describes inf p) (hq : Describes train q) (hvp : ValidShard p.1) (hvq : ValidShard q.1) :
    overlapRegion inf train = (shardOverlap p.1 q.1).map
      (Option.map (fun bounds => ⟨inf, train, bounds.1, bounds.2⟩)) := by
  obtain ⟨stale, hstale⟩ := hp.stop
  obtain ⟨stale', hstale'⟩ := hq.stop
  rw [overlapRegion, hp.start, hq.start, hstale, hstale', overlapBounds_stale _ _ _ _ _ _
    (shardEnds_length hvp).symm (shardEnds_length hvq).symm]
  rfl

theorem overlapBounds_post (ss es ts fs start stop : List ℕ)
    (h : overlapBounds ss (es.map .int) ts (fs.map .int) = .ok (some (start, stop))) :
    start.length = ss.length ∧ stop.length = ss.length ∧ ss.length ≤ ts.length ∧
      start = (List.zipWith max ss ts) ∧ stop = (List.zipWith min es fs).take ss.length ∧
      List.Forall₂ (· < ·) start stop := by
  induction ss generalizing es ts fs start stop with
  | nil =>
    obtain ⟨rfl, rfl⟩ := Prod.mk.inj (Option.some.inj (Except.ok.inj h))
    simp
  | cons s ss ih =>
    cases ts with
    | nil => simp [overlapBounds] at h
    | cons t ts =>
      cases es with
      | nil => simp [overlapBounds] at h
      | cons e es =>
        cases fs with
        | nil => simp [overlapBounds] at h
        | cons f fs =>
          simp only [List.map_cons, overlapBounds] at h
          split_ifs at h with hlt
          · simp at h
          · obtain ⟨o, ho, h⟩ := Except.map_eq_ok.mp h
            obtain ⟨⟨start', stop'⟩, rfl, hb⟩ := Option.map_eq_some_iff.mp h
            obtain ⟨rfl, rfl⟩ := Prod.mk.inj hb
            obtain ⟨h1, h2, h3, h4, h5, h6⟩ := ih es ts fs start' stop' ho
            refine ⟨by simp [h1], by simp [h2], by simpa using h3, by simp [h4], ?_,
              .cons (not_le.mp hlt) h6⟩
            simp [← h5]

theorem relativeOffset_eq (os ss : List ℕ) (h : os.length ≤ ss.length) :
    relativeOffset os ss = .ok (List.zipWith (· - ·) os ss) := by
  induction os generalizing ss with
  | nil => rfl
  | cons o os ih =>
    cases ss with
    | nil => simp at h
    | cons s ss =>
      rw [relativeOffset, ih ss (by simpa using h)]
      rfl

def offsetSlices (offset shape : List ℕ) : List Slice :=
  List.zipWith (fun r n => ⟨r, r + n⟩) offset shape

theorem writeScratch_full (scratch vs : List ScratchCell) (h : vs.length = scratch.length) :
    writeScratch scratch vs = .ok vs := by
  rw [writeScratch_eq, if_pos h.le, h, List.drop_length, List.append_nil]

theorem writeScratch_length (scratch vs cells : List ScratchCell)
    (h : writeScratch scratch vs = .ok cells) :
    vs.length ≤ scratch.length ∧ cells.length = scratch.length := by
  rw [writeScratch_eq] at h
  split_ifs at h with hle
  obtain rfl := Except.ok.inj h
  exact ⟨hle, by simp only [List.length_append, List.length_drop]; omega⟩

theorem sliceCells_length (cells : List ScratchCell) (ns : List ℕ) (slices : List Slice)
    (h : sliceCells cells ns = .ok slices) : cells.length ≤ ns.length := by
  induction cells generalizing ns slices with
  | nil => simp
  | cons c cells ih =>
    cases ns with
    | nil => simp [sliceCells] at h
    | cons n ns =>
      cases c with
      | int r =>
        obtain ⟨slices', h', -⟩ := Except.map_eq_ok.mp h
        simpa using ih ns slices' h'
      | none => simp [sliceCells] at h
      | slice s => simp [sliceCells] at h

theorem sliceCells_eq (rs ns : List ℕ) (h : rs.length ≤ ns.length) :
    sliceCells (rs.map .int) ns = .ok (offsetSlices rs ns) := by
  induction rs generalizing ns with
  | nil => rfl
  | cons r rs ih =>
    cases ns with
    | nil => simp at h
    | cons n ns =>
      rw [List.map_cons, sliceCells, ih ns (by simpa using h)]
      rfl

theorem intCells_eq (ns : List ℕ) : intCells (ns.map .int) = .ok ns := by
  induction ns with
  | nil => rfl
  | cons n ns ih =>
    rw [List.map_cons, intCells, ih]
    rfl

/-- The operation that moves the overlap `[start, stop)` of two shards. -/
def regionOperation (inf train : ParameterShardMeta × ℕ) (start stop : List ℕ) :
    CommunicationOperation where
  sendRank := train.2
  sendShardMeta := train.1
  sendOffset := List.zipWith (· - ·) start train.1.globalOffset
  recvRank := inf.2
  recvShardMeta := inf.1
  recvOffset := List.zipWith (· - ·) start inf.1.globalOffset
  overlapShape := List.zipWith (· - ·) stop start
  trainSlices := offsetSlices (List.zipWith (· - ·) start train.1.globalOffset)
    (List.zipWith (· - ·) stop start)
  infSlices := offsetSlices (List.zipWith (· - ·) start inf.1.globalOffset)
    (List.zipWith (· - ·) stop start)

theorem buildRegionCommunicationPlan_ok_iff (b : TransferPlanBuilder) (region : OverlapRegion)
    (scratch : List ScratchCell) (p q : ParameterShardMeta × ℕ)
    (hp : Describes region.inferenceShard p) (hq : Describes region.trainingShard q)
    (hstop : region.overlapEnd.length = region.overlapStart.length)
    (hpl : region.overlapStart.length = p.1.globalOffset.length)
    (hql : region.overlapStart.length ≤ q.1.globalOffset.length) (hne : scratch ≠ [])
    (r : CommunicationOperation × List ScratchCell) :
    buildRegionCommunicationPlan b region scratch = .ok r ↔
      scratch.length = region.overlapStart.length ∧ checkRanks b q.2 p.2 = .ok () ∧
        r = (regionOperation p q region.overlapStart region.overlapEnd,
          (regionOperation p q region.overlapStart region.overlapEnd).infSlices.map .slice) := by
  -- a scratch list longer than the overlap is caught by `overlap_shape[i]`, a shorter one by the first write, so
  -- the operations that are built never read a stale cell
  have hshape : (List.zipWith (· - ·) region.overlapEnd region.overlapStart).length =
      region.overlapStart.length := by simp [hstop]
  have hinf : (List.zipWith (· - ·) region.overlapStart p.1.globalOffset).length =
      region.overlapStart.length := by simp [hpl]
  have htrain : (List.zipWith (· - ·) region.overlapStart q.1.globalOffset).length =
      region.overlapStart.length := by simpa using hql
  unfold buildRegionCommunicationPlan
  simp only [hne, ne_eq, not_false_eq_true, ↓reduceIte, hp.start, hq.start,
    relativeOffset_eq _ _ hpl.le, relativeOffset_eq _ _ hql, hp.rank, hq.rank, hp.shard, hq.shard]
  by_cases hn : scratch.length = region.overlapStart.length
  · have hw := writeScratch_full scratch
      ((List.zipWith (· - ·) region.overlapStart p.1.globalOffset).map .int) (by rw [List.length_map, hinf, hn])
    have hw' := writeScratch_full ((List.zipWith (· - ·) region.overlapStart p.1.globalOffset).map .int)
      ((List.zipWith (· - ·) region.overlapStart q.1.globalOffset).map .int)
      (by rw [List.length_map, List.length_map, hinf, htrain])
    simp only [bind, Except.bind, hw, hw', sliceCells_eq _ _ (htrain.trans hshape.symm).le,
      sliceCells_eq _ _ (hinf.trans hshape.symm).le, intCells_eq, hn, true_and]
    cases hr : checkRanks b q.2 p.2 with
    | error e => simp
    | ok u =>
      simp only [Except.ok.injEq, true_and]
      exact eq_comm
  · refine iff_of_false ?_ (fun h => hn h.1)
    intro h
    obtain ⟨_, hrel, h⟩ := Except.bind_eq_ok.mp h
    obtain rfl := Except.ok.inj hrel
    obtain ⟨infCells, hcells, h⟩ := Except.bind_eq_ok.mp h
    obtain ⟨_, hrel, h⟩ := Except.bind_eq_ok.mp h
    obtain rfl := Except.ok.inj hrel
    obtain ⟨trainCells, hcells', h⟩ := Except.bind_eq_ok.mp h
    obtain ⟨_, hslices, -⟩ := Except.bind_eq_ok.mp h
    obtain ⟨hle, hlen⟩ := writeScratch_length _ _ _ hcells
    obtain ⟨-, hlen'⟩ := writeScratch_length _ _ _ hcells'
    have hge := sliceCells_length _ _ _ hslices
    rw [hshape, hlen', hlen] at hge
    rw [List.length_map, hinf] at hle
    exact hn (le_antisymm hge hle)

end Awex
