import Awex.BatchSpec
import Awex.Exchange

namespace Awex

variable {α : Type}

theorem broadcastIndex_self (shape x : List ℕ) (h : x ∈ Box.origin shape) :
    Memory.broadcastIndex shape x = x := by
  have hlen : shape.length = x.length := (Box.within_length h).2
  rw [Memory.broadcastIndex, hlen, Nat.sub_self, List.drop_zero]
  simp only [Box.mem_def, Box.origin] at h
  induction shape generalizing x with
  | nil => exact (List.length_eq_zero_iff.mp hlen.symm).symm
  | cons n ns ih =>
    obtain ⟨i, x, rfl⟩ := List.exists_cons_of_length_eq_add_one hlen.symm
    obtain ⟨⟨-, hi⟩, hx⟩ := h
    rw [List.zipWith_cons_cons, ih x (by simpa using hlen) hx]
    split_ifs with hn
    · congr 1
      omega
    · rfl

theorem Memory.copy_same (cast : Dtype → Dtype → α → α) (m : Memory α) (target source : Tensor)
    (hshape : source.shape = target.shape) (hdtype : source.dtype = target.dtype) :
    m.copy_ cast target source = .ok (m.store ((Box.indices target.shape).map (fun x =>
      (target.locate x, m.cells (source.locate x))))) := by
  have hb : Broadcasts source.shape target.shape := by
    rw [Broadcasts, hshape, Nat.sub_self, List.drop_zero, List.forall₂_same]
    exact ⟨le_rfl, fun _ _ => .inr rfl⟩
  rw [copy_, if_pos hb]
  congr 2
  apply List.map_congr_left
  intro x hx
  rw [hshape, broadcastIndex_self _ x ((Box.mem_indices _ _).mp hx), convert, if_pos hdtype]

def ViewsApart (landings : List Landing) : Prop :=
  ∀ l ∈ landings, ∀ l' ∈ landings, ∀ y ∈ Box.origin l.view.shape, ∀ y' ∈ Box.origin l'.view.shape,
    l.view.locate y = l'.view.locate y' → l = l' ∧ y = y'

theorem LandingOk.view_buffer {parameters : Dict String Parameter} {l : Landing}
    (h : LandingOk parameters l) : ∃ n, l.view.buffer = .inference n := by
  obtain ⟨p, hp⟩ := h.slice
  exact ⟨p.storage, (Tensor.index_buffer hp.index).1⟩

theorem locate_inj_of_contiguous {t : Tensor} (h : t.IsContiguous) {y y' : List ℕ}
    (hy : y ∈ Box.origin t.shape) (hy' : y' ∈ Box.origin t.shape) (heq : t.locate y = t.locate y') :
    y = y' :=
  List.inj_on_of_nodup_map h.addresses_nodup ((Box.mem_indices _ _).mpr hy)
    ((Box.mem_indices _ _).mpr hy') heq

theorem targets_apart {parameters : Dict String Parameter} {landings : List Landing}
    (hok : ∀ l ∈ landings, LandingOk parameters l)
    (hstaging : landings.Pairwise (fun l l' => ∀ n, l.target.buffer = .staging n →
      l'.target.buffer ≠ .staging n)) (hviews : ViewsApart landings) :
    ∀ l ∈ landings, ∀ l' ∈ landings, ∀ y ∈ Box.origin l.view.shape, ∀ y' ∈ Box.origin l'.view.shape,
      l.target.locate y = l'.target.locate y' → l = l' ∧ y = y' := by
  intro l hl l' hl' y hy y' hy' heq
  have hbuffer : l.target.buffer = l'.target.buffer := congrArg Prod.fst heq
  by_cases hc : l.view.IsContiguous
  · by_cases hc' : l'.view.IsContiguous
    · rw [(hok l hl).direct hc, (hok l' hl').direct hc'] at heq
      exact hviews l hl l' hl' y hy y' hy' heq
    · obtain ⟨n, hn⟩ := (hok l' hl').staged hc'
      obtain ⟨k, hk⟩ := (hok l hl).view_buffer
      rw [(hok l hl).direct hc, hk, hn] at hbuffer
      simp at hbuffer
  · obtain ⟨n, hn⟩ := (hok l hl).staged hc
    have hsame : l = l' := by
      by_contra hne
      have : Std.Symm (fun l l' : Landing => ∀ n, l.target.buffer = .staging n →
          l'.target.buffer ≠ .staging n) := ⟨fun a b hab k hb ha => hab k ha hb⟩
      exact hstaging.forall hl hl' hne n hn (hbuffer.symm.trans hn)
    subst hsame
    refine ⟨rfl, ?_⟩
    rw [← (hok l hl).shape_eq] at hy hy'
    exact locate_inj_of_contiguous (hok l hl).contiguous hy hy' heq

def copiesBack (cells : Address → α) (landings : List Landing) : List (Address × α) :=
  landings.flatMap (fun l => if l.view.IsContiguous then [] else
    (Box.indices l.view.shape).map (fun y => (l.view.locate y, cells (l.target.locate y))))

theorem syncNonContiguousTensorPairs_eq (cast : Dtype → Dtype → α → α)
    {parameters : Dict String Parameter} (landings : List Landing)
    (hok : ∀ l ∈ landings, LandingOk parameters l) (m : Memory α) (cells : Address → α)
    (hcells : ∀ a n, a.1 = .staging n → m.cells a = cells a) :
    syncNonContiguousTensorPairs cast (landings.flatMap Landing.stagedPair) m =
      .ok (m.store (copiesBack cells landings)) := by
  -- copying back reads what the messages left, since it only writes inference parameters
  induction landings generalizing m with
  | nil => rfl
  | cons l landings ih =>
    obtain ⟨hl, hrest⟩ := List.forall_mem_cons.mp hok
    rw [List.flatMap_cons, copiesBack, List.flatMap_cons]
    by_cases hc : l.view.IsContiguous
    · rw [Landing.stagedPair, if_pos hc, if_pos hc]
      exact ih hrest m hcells
    · obtain ⟨n, hn⟩ := hl.staged hc
      obtain ⟨k, hk⟩ := hl.view_buffer
      have hread : ∀ y, m.cells (l.target.locate y) = cells (l.target.locate y) :=
        fun y => hcells _ n hn
      rw [Landing.stagedPair, if_neg hc, if_neg hc, syncNonContiguousTensorPairs, List.singleton_append,
        List.foldlM_cons]
      dsimp only
      rw [m.copy_same cast l.view l.target hl.shape_eq hl.dtype_eq, Memory.store_append]
      simp only [hread]
      refine ih hrest _ (fun a n' ha => ?_)
      rw [← hcells a n' ha]
      apply Store.writeAll_of_not_mem
      intro hmem
      obtain ⟨w, hw, rfl⟩ := List.mem_map.mp hmem
      obtain ⟨y, -, rfl⟩ := List.mem_map.mp hw
      have hview : l.view.buffer = .staging n' := ha
      rw [hk] at hview
      simp at hview

theorem mem_copiesBack {cells : Address → α} {landings : List Landing} {w : Address × α} :
    w ∈ copiesBack cells landings ↔ ∃ l ∈ landings, ¬ l.view.IsContiguous ∧
      ∃ y ∈ Box.origin l.view.shape, w = (l.view.locate y, cells (l.target.locate y)) := by
  simp only [copiesBack, List.mem_flatMap]
  refine exists_congr fun l => and_congr_right fun _ => ?_
  by_cases hc : l.view.IsContiguous
  · simp [hc]
  · simp only [hc, ↓reduceIte, List.mem_map, not_false_eq_true, true_and]
    refine exists_congr fun y => ?_
    rw [← Box.mem_indices, eq_comm (a := w)]

section Deliver

variable {parameters : Dict String Parameter} {landings : List Landing} {payload : Landing → Message α}
  {matched : List (P2POp × Message α)}

structure PayloadOk (payload : Landing → Message α) (l : Landing) : Prop where
  dtype_eq : (payload l).dtype = l.view.dtype
  length_eq : (payload l).data.length = l.view.numel

theorem mem_arrivals (hok : ∀ l ∈ landings, LandingOk parameters l)
    (hperm : matched.Perm (landings.map (fun l => (l.p2p, payload l)))) {w : Address × α} :
    w ∈ arrivals matched ↔ ∃ l ∈ landings, w ∈ l.target.addresses.zip (payload l).data := by
  simp only [arrivals, List.mem_flatMap]
  constructor
  · rintro ⟨pair, hpair, hw⟩
    obtain ⟨l, hl, rfl⟩ := List.mem_map.mp (hperm.mem_iff.mp hpair)
    refine ⟨l, hl, ?_⟩
    rwa [← Tensor.wire_eq_addresses (hok l hl).contiguous]
  · rintro ⟨l, hl, hw⟩
    refine ⟨(l.p2p, payload l), hperm.mem_iff.mpr (List.mem_map.mpr ⟨l, hl, rfl⟩), ?_⟩
    rwa [← Tensor.wire_eq_addresses (hok l hl).contiguous] at hw

theorem LandingOk.length_addresses {l : Landing} (h : LandingOk parameters l)
    (hp : PayloadOk payload l) : l.target.addresses.length = (payload l).data.length := by
  rw [Tensor.length_addresses, hp.length_eq, Tensor.numel, h.shape_eq]
  rfl

theorem arrivals_consistent (hok : ∀ l ∈ landings, LandingOk parameters l)
    (hpayload : ∀ l ∈ landings, PayloadOk payload l)
    (hstaging : landings.Pairwise (fun l l' => ∀ n, l.target.buffer = .staging n →
      l'.target.buffer ≠ .staging n)) (hviews : ViewsApart landings)
    (hperm : matched.Perm (landings.map (fun l => (l.p2p, payload l)))) :
    Store.Consistent (arrivals matched) := by
  intro w hw w' hw' heq
  obtain ⟨l, hl, hw⟩ := (mem_arrivals hok hperm).mp hw
  obtain ⟨l', hl', hw'⟩ := (mem_arrivals hok hperm).mp hw'
  obtain ⟨y, hy, hwy⟩ := List.mem_map.mp (List.of_mem_zip hw).1
  obtain ⟨y', hy', hwy'⟩ := List.mem_map.mp (List.of_mem_zip hw').1
  rw [(hok l hl).shape_eq, Box.mem_indices] at hy
  rw [(hok l' hl').shape_eq, Box.mem_indices] at hy'
  obtain ⟨rfl, -⟩ := targets_apart hok hstaging hviews l hl l' hl' y hy y' hy'
    (hwy.trans (heq.trans hwy'.symm))
  refine Store.consistent_of_nodup _ ?_ w hw w' hw' heq
  rw [List.map_fst_zip (Nat.le_of_eq ((hok l hl).length_addresses (hpayload l hl)))]
  exact (hok l hl).contiguous.addresses_nodup

theorem receiveAll_landings (hok : ∀ l ∈ landings, LandingOk parameters l)
    (hpayload : ∀ l ∈ landings, PayloadOk payload l)
    (hperm : matched.Perm (landings.map (fun l => (l.p2p, payload l)))) (m : Memory α) :
    receiveAll m matched = .ok (m.store (arrivals matched)) := by
  refine receiveAll_eq_ok.mpr ⟨fun pair hpair => ?_, rfl⟩
  obtain ⟨l, hl, rfl⟩ := List.mem_map.mp (hperm.mem_iff.mp hpair)
  refine ⟨(hok l hl).contiguous, (hpayload l hl).dtype_eq.trans (hok l hl).dtype_eq.symm, ?_⟩
  rw [(hpayload l hl).length_eq, Tensor.numel, ← (hok l hl).shape_eq]
  rfl

/-- Whatever the order in which the messages come in, after the copy-back every slice holds its
own message, and nothing else has changed. -/
theorem delivered (cast : Dtype → Dtype → α → α) (hok : ∀ l ∈ landings, LandingOk parameters l)
    (hpayload : ∀ l ∈ landings, PayloadOk payload l)
    (hstaging : landings.Pairwise (fun l l' => ∀ n, l.target.buffer = .staging n →
      l'.target.buffer ≠ .staging n)) (hviews : ViewsApart landings)
    (hperm : matched.Perm (landings.map (fun l => (l.p2p, payload l)))) (m : Memory α) :
    ∃ received final, receiveAll m matched = .ok received ∧
      syncNonContiguousTensorPairs cast (landings.flatMap Landing.stagedPair) received = .ok final ∧
      (∀ l ∈ landings, final.read l.view = (payload l).data) ∧
      ∀ a : Address, (∀ n, a.1 ≠ .staging n) → (∀ l ∈ landings, a ∉ l.view.addresses) →
        final.cells a = m.cells a := by
  set received := m.store (arrivals matched) with hreceived
  have hread : ∀ l ∈ landings, received.read l.target = (payload l).data := by
    intro l hl
    apply Store.map_writeAll_of_subset _ _ (arrivals_consistent hok hpayload hstaging hviews hperm) _ _
      ((hok l hl).length_addresses (hpayload l hl))
    exact fun w hw => (mem_arrivals hok hperm).mpr ⟨l, hl, hw⟩
  have hback : Store.Consistent (copiesBack received.cells landings) := by
    intro w hw w' hw' heq
    obtain ⟨l, hl, -, y, hy, rfl⟩ := mem_copiesBack.mp hw
    obtain ⟨l', hl', -, y', hy', rfl⟩ := mem_copiesBack.mp hw'
    obtain ⟨rfl, rfl⟩ := hviews l hl l' hl' y hy y' hy' heq
    rfl
  refine ⟨received, received.store (copiesBack received.cells landings),
    receiveAll_landings hok hpayload hperm m,
    syncNonContiguousTensorPairs_eq cast landings hok received _ (fun _ _ _ => rfl), fun l hl => ?_,
    fun a hstaged ha => ?_⟩
  · rw [← hread l hl, Memory.read, Memory.read, Tensor.addresses, Tensor.addresses, (hok l hl).shape_eq,
      List.map_map, List.map_map]
    apply List.map_congr_left
    intro y hy
    rw [Box.mem_indices] at hy
    by_cases hc : l.view.IsContiguous
    · rw [(hok l hl).direct hc]
      apply Store.writeAll_of_not_mem
      intro hmem
      obtain ⟨w, hw, hwy⟩ := List.mem_map.mp hmem
      obtain ⟨l', hl', hc', y', hy', rfl⟩ := mem_copiesBack.mp hw
      obtain ⟨rfl, -⟩ := hviews l' hl' l hl y' hy' y hy hwy
      exact hc' hc
    · exact Store.writeAll_of_mem _ _ hback (l.view.locate y, received.cells (l.target.locate y))
        (mem_copiesBack.mpr ⟨l, hl, hc, y, hy, rfl⟩)
  · have hview : a ∉ (copiesBack received.cells landings).map Prod.fst := by
      intro hmem
      obtain ⟨w, hw, rfl⟩ := List.mem_map.mp hmem
      obtain ⟨l, hl, -, y, hy, rfl⟩ := mem_copiesBack.mp hw
      exact ha l hl (List.mem_map.mpr ⟨y, (Box.mem_indices _ _).mpr hy, rfl⟩)
    have harrived : a ∉ (arrivals matched).map Prod.fst := by
      intro hmem
      obtain ⟨w, hw, rfl⟩ := List.mem_map.mp hmem
      obtain ⟨l, hl, hw⟩ := (mem_arrivals hok hperm).mp hw
      have htarget := (List.of_mem_zip hw).1
      by_cases hc : l.view.IsContiguous
      · rw [(hok l hl).direct hc] at htarget
        exact ha l hl htarget
      · obtain ⟨n, hn⟩ := (hok l hl).staged hc
        exact hstaged n ((Tensor.addresses_buffer _ _ htarget).trans hn)
    exact (Store.writeAll_of_not_mem _ _ a hview).trans (Store.writeAll_of_not_mem _ _ a harrived)

end Deliver

end Awex
