import Awex.PlanSpec

namespace Awex

/-- `x` is an index that the slices select. -/
def InSlices : List Slice → List ℕ → Prop
  | [], [] => True
  | s :: ss, x :: xs => (s.start ≤ x ∧ x < s.stop) ∧ InSlices ss xs
  | _, _ => False

def decideInSlices : (slices : List Slice) → (x : List ℕ) → Decidable (InSlices slices x)
  | [], [] => inferInstanceAs (Decidable True)
  | _ :: ss, _ :: xs =>
    have := decideInSlices ss xs
    inferInstanceAs (Decidable (_ ∧ _))
  | [], _ :: _ => inferInstanceAs (Decidable False)
  | _ :: _, [] => inferInstanceAs (Decidable False)

instance (slices : List Slice) (x : List ℕ) : Decidable (InSlices slices x) := decideInSlices slices x

/-- The operation writes element `x` of the receiving shard. -/
def CommunicationOperation.Covers (op : CommunicationOperation) (x : List ℕ) : Prop :=
  InSlices op.infSlices x

instance (op : CommunicationOperation) (x : List ℕ) : Decidable (op.Covers x) :=
  decideInSlices op.infSlices x

theorem inSlices_offsetSlices (offset shape x : List ℕ) (h : offset.length = shape.length) :
    InSlices (offsetSlices offset shape) x ↔ Within offset shape x := by
  induction offset generalizing shape x with
  | nil =>
    obtain rfl := List.length_eq_zero_iff.mp h.symm
    cases x <;> rfl
  | cons o os ih =>
    obtain ⟨n, ns, rfl⟩ := List.exists_cons_of_length_eq_add_one h.symm
    cases x with
    | nil => rfl
    | cons x xs => exact and_congr_right (fun _ => ih ns xs (by simpa using h))

theorem overlapBounds_eq (ss es ts fs : List ℕ) (hs : ss.length = es.length)
    (ht : ts.length = fs.length) (hst : ss.length = ts.length) :
    (overlapBounds ss (es.map .int) ts (fs.map .int) =
        .ok (some (List.zipWith max ss ts, List.zipWith min es fs))) ∨
      (overlapBounds ss (es.map .int) ts (fs.map .int) = .ok none ∧
        ∀ x, ¬ Within (List.zipWith max ss ts)
          (List.zipWith (· - ·) (List.zipWith min es fs) (List.zipWith max ss ts)) x) := by
  induction ss generalizing es ts fs with
  | nil =>
    obtain rfl := List.length_eq_zero_iff.mp hs.symm
    obtain rfl := List.length_eq_zero_iff.mp hst.symm
    obtain rfl := List.length_eq_zero_iff.mp ht.symm
    exact .inl rfl
  | cons s ss ih =>
    obtain ⟨e, es, rfl⟩ := List.exists_cons_of_length_eq_add_one hs.symm
    obtain ⟨t, ts, rfl⟩ := List.exists_cons_of_length_eq_add_one hst.symm
    obtain ⟨f, fs, rfl⟩ := List.exists_cons_of_length_eq_add_one ht.symm
    simp only [List.map_cons, overlapBounds, List.zipWith_cons_cons]
    by_cases hlt : max s t ≥ min e f
    · refine .inr ⟨if_pos hlt, ?_⟩
      rintro (_ | ⟨x, xs⟩)
      · exact id
      · rintro ⟨⟨h1, h2⟩, -⟩
        omega
    · rw [if_neg hlt]
      rcases ih es ts fs (by simpa using hs) (by simpa using ht) (by simpa using hst) with h | ⟨h, hx⟩
      · exact .inl (by rw [h]; rfl)
      · refine .inr ⟨by rw [h]; rfl, ?_⟩
        rintro (_ | ⟨x, xs⟩)
        · exact id
        · rintro ⟨-, h2⟩
          exact hx xs h2

theorem shardEnds_sub {s : ParameterShardMeta} (h : ValidShard s) :
    List.zipWith (· - ·) (shardEnds s) s.globalOffset = s.shape :=
  zipWith_add_sub s.globalOffset s.shape h.dims

theorem overlapItem_mem (p q : PlacedShard) (hp : ValidShard p.1) (hq : ValidShard q.1)
    (hdims : p.1.globalOffset.length = q.1.globalOffset.length) (x : List ℕ) :
    (x ∈ p.1.box ∧ x ∈ q.1.box) ↔ ∃ i, overlapItem p q = some i ∧
      Within i.2.2.1 (List.zipWith (· - ·) i.2.2.2 i.2.2.1) x := by
  have hmeet := Box.within_meet p.1.globalOffset (shardEnds p.1) q.1.globalOffset (shardEnds q.1) x
    (shardEnds_length hp).symm (shardEnds_length hq).symm hdims
  rw [shardEnds_sub hp, shardEnds_sub hq] at hmeet
  rw [Box.mem_def, Box.mem_def]
  refine hmeet.trans ?_
  rcases overlapBounds_eq p.1.globalOffset (shardEnds p.1) q.1.globalOffset (shardEnds q.1)
    (shardEnds_length hp).symm (shardEnds_length hq).symm hdims with h | ⟨h, hx⟩
  · simp [overlapItem, shardOverlap, h]
  · simp [overlapItem, shardOverlap, h, hx x]

theorem within_max_sub (os ss ns x : List ℕ) (ho : os.length = ss.length) (hx : x.length = os.length) :
    Within (List.zipWith max os ss) ns (List.zipWith (· + ·) os x) ↔
      Within (List.zipWith (· - ·) (List.zipWith max os ss) os) ns x := by
  induction os generalizing ss ns x with
  | nil =>
    obtain rfl := List.length_eq_zero_iff.mp ho.symm
    obtain rfl := List.length_eq_zero_iff.mp hx
    rfl
  | cons o os ih =>
    obtain ⟨s, ss, rfl⟩ := List.exists_cons_of_length_eq_add_one ho.symm
    obtain ⟨x, xs, rfl⟩ := List.exists_cons_of_length_eq_add_one hx
    cases ns with
    | nil => rfl
    | cons n ns =>
      simp only [List.zipWith_cons_cons, Within, ih ss ns xs (by simpa using ho) (by simpa using hx)]
      refine and_congr_left (fun _ => ?_)
      omega

theorem overlapItem_covers (p q : PlacedShard) (hp : ValidShard p.1) (hq : ValidShard q.1)
    (hdims : p.1.globalOffset.length = q.1.globalOffset.length)
    (i : PlacedShard × PlacedShard × List ℕ × List ℕ) (hi : overlapItem p q = some i) (x : List ℕ)
    (hx : x.length = p.1.globalOffset.length) :
    (itemOperation i).Covers x ↔
      Within i.2.2.1 (List.zipWith (· - ·) i.2.2.2 i.2.2.1) (List.zipWith (· + ·) p.1.globalOffset x) := by
  obtain ⟨rfl, rfl, ho⟩ := overlapItem_eq_some.mp hi
  obtain ⟨h1, h2, h3, h4, -, -⟩ := shardOverlap_post _ _ _ _ hp ho
  have hlen : (List.zipWith (· - ·) i.2.2.1 i.1.1.globalOffset).length =
      (List.zipWith (· - ·) i.2.2.2 i.2.2.1).length := by simp [h1, h2]
  rw [CommunicationOperation.Covers, itemOperation, regionOperation, inSlices_offsetSlices _ _ _ hlen, h4,
    within_max_sub _ _ _ _ hdims hx]

theorem covers_iff_mem (p q : PlacedShard) (hp : ValidShard p.1) (hq : ValidShard q.1)
    (hdims : p.1.globalOffset.length = q.1.globalOffset.length) (x : List ℕ)
    (hx : x ∈ Box.origin p.1.shape) :
    (∃ i, overlapItem p q = some i ∧ (itemOperation i).Covers x) ↔
      List.zipWith (· + ·) p.1.globalOffset x ∈ q.1.box := by
  have hlen : x.length = p.1.shape.length := (Box.within_length hx).2.symm
  have hmem : List.zipWith (· + ·) p.1.globalOffset x ∈ p.1.box :=
    (Box.add_mem p.1.box x hp.dims hlen).mpr hx
  have hboth := overlapItem_mem p q hp hq hdims (List.zipWith (· + ·) p.1.globalOffset x)
  rw [and_iff_right hmem] at hboth
  rw [hboth]
  refine exists_congr (fun i => and_congr_right (fun hi => ?_))
  exact overlapItem_covers p q hp hq hdims i hi x (hlen.trans hp.dims.symm)

def SliceFits (s : Slice) (n : ℕ) : Prop := s.start < s.stop ∧ s.stop ≤ n

theorem offsetSlices_fit (os ns start stop : List ℕ) (hlo : List.Forall₂ (· ≤ ·) os start)
    (hhi : List.Forall₂ (fun e n => e ≤ n) stop (List.zipWith (· + ·) os ns)) (hn : os.length = ns.length)
    (hlt : List.Forall₂ (· < ·) start stop) :
    List.Forall₂ SliceFits
      (offsetSlices (List.zipWith (· - ·) start os) (List.zipWith (· - ·) stop start)) ns := by
  induction hlo generalizing ns stop with
  | nil =>
    obtain rfl := List.length_eq_zero_iff.mp hn.symm
    exact .nil
  | @cons o s os start ho _ ih =>
    obtain ⟨n, ns, rfl⟩ := List.exists_cons_of_length_eq_add_one hn.symm
    cases hlt with
    | @cons _ e _ stop hse hlt =>
      cases hhi with
      | cons he hhi =>
        refine .cons ?_ (ih ns stop hhi (by simpa using hn) hlt)
        simp only at he ho
        simp only [SliceFits]
        omega

/-- The slices of an operation address one global region, non-empty and inside both shards. -/
structure SameRegion (op : CommunicationOperation) : Prop where
  send_dims : op.sendOffset.length = op.overlapShape.length
  recv_dims : op.recvOffset.length = op.overlapShape.length
  send_slices : op.trainSlices = offsetSlices op.sendOffset op.overlapShape
  recv_slices : op.infSlices = offsetSlices op.recvOffset op.overlapShape
  send_inside : List.Forall₂ SliceFits op.trainSlices op.sendShardMeta.shape
  recv_inside : List.Forall₂ SliceFits op.infSlices op.recvShardMeta.shape
  same_start : List.zipWith (· + ·) op.sendShardMeta.globalOffset op.sendOffset =
    List.zipWith (· + ·) op.recvShardMeta.globalOffset op.recvOffset

theorem itemOperation_sameRegion (p q : PlacedShard) (hp : ValidShard p.1) (hq : ValidShard q.1)
    (hdims : p.1.globalOffset.length = q.1.globalOffset.length)
    (i : PlacedShard × PlacedShard × List ℕ × List ℕ) (hi : overlapItem p q = some i) :
    SameRegion (itemOperation i) := by
  obtain ⟨rfl, rfl, ho⟩ := overlapItem_eq_some.mp hi
  obtain ⟨hlstart, hlstop, -, hstart, hstop, hlt⟩ := shardOverlap_post _ _ _ _ hp ho
  have hends : (shardEnds i.1.1).length = (shardEnds i.2.1.1).length := by
    rw [shardEnds_length hp, shardEnds_length hq, hdims]
  have hlop : List.Forall₂ (· ≤ ·) i.1.1.globalOffset i.2.2.1 := by
    rw [hstart]
    exact forall₂_zipWith_left (fun a b => le_max_left a b) _ _ hdims.le
  have hloq : List.Forall₂ (· ≤ ·) i.2.1.1.globalOffset i.2.2.1 := by
    rw [hstart]
    exact forall₂_zipWith_right (fun a b => le_max_right a b) _ _ hdims.ge
  have hhip : List.Forall₂ (fun e n => e ≤ n) i.2.2.2 (shardEnds i.1.1) := by
    rw [hstop]
    exact (forall₂_zipWith_left (R := fun n e => e ≤ n) (fun a b => min_le_left a b) _ _ hends.le).flip
  have hhiq : List.Forall₂ (fun e n => e ≤ n) i.2.2.2 (shardEnds i.2.1.1) := by
    rw [hstop]
    exact (forall₂_zipWith_right (R := fun n e => e ≤ n) (fun a b => min_le_right a b) _ _ hends.ge).flip
  have hdims' := hdims.symm
  refine ⟨by simp [itemOperation, regionOperation, hlstart, hlstop, hdims'],
    by simp [itemOperation, regionOperation, hlstart, hlstop], rfl, rfl, offsetSlices_fit _ _ _ _ hloq hhiq hq.dims hlt,
    offsetSlices_fit _ _ _ _ hlop hhip hp.dims hlt, ?_⟩
  exact (zipWith_add_sub_cancel _ _ hloq).trans (zipWith_add_sub_cancel _ _ hlop).symm

end Awex
