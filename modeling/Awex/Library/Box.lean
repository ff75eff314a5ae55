import Awex.Library.Lists
import Mathlib.Data.List.Pairwise

namespace Awex

/-- `x` is an index of the box `[offset, offset + shape)`. -/
def Within : List ℕ → List ℕ → List ℕ → Prop
  | [], [], [] => True
  | o :: os, n :: ns, x :: xs => (o ≤ x ∧ x < o + n) ∧ Within os ns xs
  | _, _, _ => False

def decideWithin : (offset shape x : List ℕ) → Decidable (Within offset shape x)
  | [], [], [] => inferInstanceAs (Decidable True)
  | _ :: os, _ :: ns, _ :: xs =>
    have := decideWithin os ns xs
    inferInstanceAs (Decidable (_ ∧ _))
  | [], [], _ :: _ => inferInstanceAs (Decidable False)
  | [], _ :: _, _ => inferInstanceAs (Decidable False)
  | _ :: _, [], _ => inferInstanceAs (Decidable False)
  | _ :: _, _ :: _, [] => inferInstanceAs (Decidable False)

instance (offset shape x : List ℕ) : Decidable (Within offset shape x) := decideWithin offset shape x

structure Box where
  offset : List ℕ
  shape : List ℕ
  deriving DecidableEq, Repr

namespace Box

instance : Membership (List ℕ) Box := ⟨fun b x => Within b.offset b.shape x⟩

instance (b : Box) (x : List ℕ) : Decidable (x ∈ b) :=
  inferInstanceAs (Decidable (Within b.offset b.shape x))

theorem mem_def (b : Box) (x : List ℕ) : x ∈ b ↔ Within b.offset b.shape x := Iff.rfl

def origin (shape : List ℕ) : Box := ⟨List.replicate shape.length 0, shape⟩

def indices : List ℕ → List (List ℕ)
  | [] => [[]]
  | n :: ns => (List.range n).flatMap (fun i => (indices ns).map (i :: ·))

theorem within_length {offset shape x : List ℕ} (h : Within offset shape x) :
    offset.length = x.length ∧ shape.length = x.length := by
  induction offset generalizing shape x with
  | nil =>
    cases shape <;> cases x <;> simp_all [Within]
  | cons o os ih =>
    cases shape with
    | nil => simp [Within] at h
    | cons n ns =>
      cases x with
      | nil => simp [Within] at h
      | cons x xs =>
        obtain ⟨h1, h2⟩ := ih h.2
        simp [h1, h2]

theorem mem_indices (shape x : List ℕ) : x ∈ indices shape ↔ x ∈ origin shape := by
  induction shape generalizing x with
  | nil => cases x <;> simp [indices, origin, mem_def, Within]
  | cons n ns ih =>
    cases x with
    | nil => simp [indices, origin, mem_def, Within, List.replicate_succ]
    | cons x xs =>
      simp only [origin, mem_def] at ih
      simp [indices, origin, mem_def, List.replicate_succ, Within, ih]

theorem nodup_indices (shape : List ℕ) : (indices shape).Nodup := by
  induction shape with
  | nil => simp [indices]
  | cons n ns ih =>
    rw [indices, List.nodup_flatMap]
    refine ⟨fun i _ => ih.map (List.cons_injective), ?_⟩
    refine List.Nodup.pairwise_of_forall_ne List.nodup_range ?_
    intro i _ j _ hij x hi hj
    obtain ⟨y, -, rfl⟩ := List.mem_map.mp hi
    obtain ⟨z, -, hz⟩ := List.mem_map.mp hj
    exact hij (List.cons.inj hz).1.symm

theorem within_add (d offset shape x : List ℕ) (ho : offset.length = d.length)
    (hx : x.length = d.length) :
    Within (List.zipWith (· + ·) d offset) shape (List.zipWith (· + ·) d x) ↔ Within offset shape x := by
  induction d generalizing offset shape x with
  | nil =>
    obtain rfl := List.length_eq_zero_iff.mp ho
    obtain rfl := List.length_eq_zero_iff.mp hx
    rfl
  | cons d ds ih =>
    obtain ⟨o, os, rfl⟩ := List.exists_cons_of_length_eq_add_one ho
    obtain ⟨x, xs, rfl⟩ := List.exists_cons_of_length_eq_add_one hx
    cases shape with
    | nil => simp [Within]
    | cons n ns =>
      simp only [List.zipWith_cons_cons, Within, ih os ns xs (by simpa using ho) (by simpa using hx)]
      refine and_congr_left (fun _ => ?_)
      omega

theorem zipWith_add_zeros (d : List ℕ) (n : ℕ) (h : n = d.length) :
    List.zipWith (· + ·) d (List.replicate n 0) = d := by
  subst h
  induction d with
  | nil => rfl
  | cons d ds ih => simpa [List.replicate_succ] using ih

theorem add_mem (b : Box) (x : List ℕ) (hb : b.offset.length = b.shape.length)
    (hx : x.length = b.shape.length) :
    List.zipWith (· + ·) b.offset x ∈ b ↔ x ∈ origin b.shape := by
  rw [mem_def, mem_def, ← within_add b.offset (origin b.shape).offset _ x
    (by simp [origin, hb]) (hx.trans hb.symm)]
  simp [origin, zipWith_add_zeros _ _ hb.symm]

theorem sub_mem (b : Box) (x : List ℕ) (h : x ∈ b) :
    List.zipWith (· - ·) x b.offset ∈ origin b.shape ∧
      List.zipWith (· + ·) b.offset (List.zipWith (· - ·) x b.offset) = x := by
  obtain ⟨offset, shape⟩ := b
  simp only [mem_def, origin] at h ⊢
  induction offset generalizing shape x with
  | nil => cases shape <;> cases x <;> simp_all [Within]
  | cons o os ih =>
    cases shape with
    | nil => simp [Within] at h
    | cons n ns =>
      cases x with
      | nil => simp [Within] at h
      | cons x xs =>
        obtain ⟨⟨h1, h2⟩, h3⟩ := h
        obtain ⟨ih1, ih2⟩ := ih xs ns h3
        simp only [List.zipWith_cons_cons, List.length_cons, List.replicate_succ, Within, ih1, ih2,
          and_true, List.cons.injEq]
        omega

theorem within_meet (ss es ts fs x : List ℕ) (hs : ss.length = es.length) (ht : ts.length = fs.length)
    (hst : ss.length = ts.length) :
    (Within ss (List.zipWith (· - ·) es ss) x ∧ Within ts (List.zipWith (· - ·) fs ts) x) ↔
      Within (List.zipWith max ss ts)
        (List.zipWith (· - ·) (List.zipWith min es fs) (List.zipWith max ss ts)) x := by
  induction ss generalizing es ts fs x with
  | nil =>
    obtain rfl := List.length_eq_zero_iff.mp hs.symm
    obtain rfl := List.length_eq_zero_iff.mp hst.symm
    obtain rfl := List.length_eq_zero_iff.mp ht.symm
    simp
  | cons s ss ih =>
    obtain ⟨e, es, rfl⟩ := List.exists_cons_of_length_eq_add_one hs.symm
    obtain ⟨t, ts, rfl⟩ := List.exists_cons_of_length_eq_add_one hst.symm
    obtain ⟨f, fs, rfl⟩ := List.exists_cons_of_length_eq_add_one ht.symm
    cases x with
    | nil => simp [Within]
    | cons x xs =>
      have hrest := ih es ts fs xs (by simpa using hs) (by simpa using ht) (by simpa using hst)
      simp only [List.zipWith_cons_cons, Within, ← hrest]
      constructor
      · rintro ⟨⟨h1, h2⟩, h3, h4⟩
        exact ⟨by omega, h2, h4⟩
      · rintro ⟨h1, h2, h4⟩
        exact ⟨⟨by omega, h2⟩, by omega, h4⟩

/-- The boxes are disjoint and together they are the whole tensor. -/
structure Tiles (boxes : List Box) (shape : List ℕ) : Prop where
  disjoint : boxes.Pairwise (fun b c => ∀ x, x ∈ b → x ∉ c)
  inside : ∀ b ∈ boxes, ∀ x, x ∈ b → x ∈ origin shape
  covers : ∀ x, x ∈ origin shape → ∃ b ∈ boxes, x ∈ b

theorem Tiles.count_eq_one {boxes : List Box} {shape x : List ℕ} (h : Tiles boxes shape)
    (hx : x ∈ origin shape) : boxes.countP (x ∈ ·) = 1 :=
  countP_of_disjoint boxes (x ∈ ·) (h.disjoint.imp (fun hbc => hbc x)) (h.covers x hx)

theorem inside_of_indices (b : Box) (shape : List ℕ)
    (h : ∀ y ∈ indices b.shape, List.zipWith (· + ·) b.offset y ∈ origin shape) (x : List ℕ)
    (hx : x ∈ b) : x ∈ origin shape := by
  obtain ⟨hsub, hadd⟩ := sub_mem b x hx
  exact hadd ▸ h _ ((mem_indices _ _).mpr hsub)

/-- A finite test for tiling: the indices of every box and of the whole tensor. -/
theorem tiles_of_indices (boxes : List Box) (shape : List ℕ)
    (hinside : ∀ b ∈ boxes, ∀ x ∈ indices b.shape, List.zipWith (· + ·) b.offset x ∈ origin shape)
    (hcount : ∀ x ∈ indices shape, boxes.countP (x ∈ ·) = 1) : Tiles boxes shape := by
  have hin : ∀ b ∈ boxes, ∀ x, x ∈ b → x ∈ origin shape :=
    fun b hb => inside_of_indices b shape (hinside b hb)
  refine ⟨?_, hin, ?_⟩
  · apply List.pairwise_iff_forall_sublist.mpr
    intro b c hbc x hb hc
    have hone := hcount x ((mem_indices _ _).mpr (hin b (hbc.subset (by simp)) x hb))
    have htwo := hbc.countP_le (p := (x ∈ ·))
    simp [hb, hc, hone] at htwo
  · intro x hx
    have hone := hcount x ((mem_indices _ _).mpr hx)
    have hpos : 0 < boxes.countP (x ∈ ·) := by omega
    obtain ⟨b, hb, hxb⟩ := List.countP_pos_iff.mp hpos
    exact ⟨b, hb, by simpa using hxb⟩

end Box

end Awex
