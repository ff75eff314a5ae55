import Awex.BatchSpec

namespace Awex

open RoundRobin

variable {α : Type}

def planEntries (operations : Dict ℕ (List CommunicationOperation)) : List (ℕ × CommunicationOperation) :=
  chain operations.keys (planned operations)

theorem filter_planEntries (operations : Dict ℕ (List CommunicationOperation)) (p : ℕ) :
    (planEntries operations).filter (fun e => e.1 = p) =
      (planned operations p).map (fun op => (p, op)) := by
  rw [planEntries, filter_chain operations.keys _ _ operations.nodup]
  split_ifs with hp
  · rfl
  · rw [planned_of_not_mem hp]
    rfl

theorem mem_planEntries {operations : Dict ℕ (List CommunicationOperation)} {e : ℕ × CommunicationOperation} :
    e ∈ planEntries operations ↔ e.2 ∈ planned operations e.1 := by
  have hfilter : e ∈ planEntries operations ↔ e ∈ (planEntries operations).filter (fun e' => e'.1 = e.1) := by
    simp
  rw [hfilter, filter_planEntries]
  constructor
  · intro h
    obtain ⟨op, hop, heq⟩ := List.mem_map.mp h
    exact (congrArg Prod.snd heq) ▸ hop
  · exact fun h => List.mem_map.mpr ⟨e.2, h, rfl⟩

theorem visited_perm (operations : Dict ℕ (List CommunicationOperation)) :
    (visited operations).Perm (planEntries operations) :=
  perm_of_filter_eq Prod.fst _ _ (fun p => by rw [filter_visited, filter_planEntries])

theorem mem_visited {operations : Dict ℕ (List CommunicationOperation)} {e : ℕ × CommunicationOperation} :
    e ∈ visited operations ↔ e.2 ∈ planned operations e.1 :=
  (visited_perm operations).mem_iff.trans mem_planEntries

theorem visited_nodup {operations : Dict ℕ (List CommunicationOperation)}
    (h : ∀ p, (planned operations p).Nodup) : (visited operations).Nodup := by
  apply nodup_of_filter Prod.fst
  intro p
  rw [filter_visited]
  exact (h p).map (fun _ _ heq => (Prod.mk.inj heq).2)

/-- The posted operations are the planned ones in another order, those of each peer in the order in
which the plan keeps them. -/
structure PostsInOrder (R : ℕ × CommunicationOperation → P2POp → Prop)
    (operations : Dict ℕ (List CommunicationOperation)) (posted : List P2POp)
    (order : List (ℕ × CommunicationOperation)) : Prop where
  posts : List.Forall₂ R order posted
  peer_order : ∀ p, order.filter (fun e => e.1 = p) = (planned operations p).map (fun op => (p, op))
  perm : order.Perm (planEntries operations)

theorem postsInOrder_of_filter {R : ℕ × CommunicationOperation → P2POp → Prop}
    {operations : Dict ℕ (List CommunicationOperation)} {posted : List P2POp}
    {order : List (ℕ × CommunicationOperation)} (h : List.Forall₂ R order posted)
    (hpeer : ∀ p, order.filter (fun e => e.1 = p) = (planned operations p).map (fun op => (p, op))) :
    PostsInOrder R operations posted order :=
  ⟨h, hpeer, perm_of_filter_eq Prod.fst _ _ (fun p => by rw [hpeer, filter_planEntries])⟩

theorem PostsInOrder.opsFor {R : ℕ × CommunicationOperation → P2POp → Prop}
    {operations : Dict ℕ (List CommunicationOperation)} {posted : List P2POp}
    {order : List (ℕ × CommunicationOperation)} (h : PostsInOrder R operations posted order)
    (hR : ∀ e p2p, R e p2p → p2p.peer = e.1) (p : ℕ) :
    List.Forall₂ (fun op p2p => R (p, op) p2p) (planned operations p) (opsFor posted p) := by
  have hfilter := forall₂_filter (fun e => e.1 = p) (fun p2p : P2POp => p2p.peer = p)
    (fun e p2p he => by rw [hR e p2p he]) h.posts
  rw [h.peer_order p, List.forall₂_map_left_iff] at hfilter
  exact hfilter

theorem PostsInOrder.interleave {R : ℕ × CommunicationOperation → P2POp → Prop}
    {operations : Dict ℕ (List CommunicationOperation)} {posted : List P2POp}
    {order : List (ℕ × CommunicationOperation)} (h : PostsInOrder R operations posted order)
    (hR : ∀ e p2p, R e p2p → p2p.peer = e.1) :
    ∃ order', PostsInOrder R operations (interleaveP2pOpsByPeer posted) order' := by
  have hlength : ∀ p, (planned operations p).length = (Awex.opsFor posted p).length :=
    fun p => (h.opsFor hR p).length_eq
  refine ⟨weave (peersOf posted) (planned operations) posted.length,
    postsInOrder_of_filter ?_ (fun p => ?_)⟩
  · rw [interleaveP2pOpsByPeer_eq, List.forall₂_map_right_iff]
    exact weave_forall₂ (fun p op p2p => R (p, op) p2p) _ _ _ _ (fun p _ => h.opsFor hR p)
  · by_cases hp : p ∈ peersOf posted
    · exact filter_weave _ _ _ p (peersOf_nodup posted) hp
        ((hlength p).trans_le (List.length_filter_le _ _))
    · have hnil : planned operations p = [] := by
        rw [← List.length_eq_zero_iff, hlength, List.length_eq_zero_iff, Awex.opsFor,
          List.filter_eq_nil_iff]
        rintro p2p hp2p
        simp only [decide_eq_true_eq]
        rintro rfl
        exact hp ((mem_peersOf posted _).mpr (List.mem_map_of_mem hp2p))
      rw [filter_weave_not_mem _ _ _ p hp, hnil]
      rfl

end Awex
