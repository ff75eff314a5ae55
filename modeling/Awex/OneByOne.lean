import Awex.BuildLoop
import Awex.Library.Rendezvous
import Mathlib.Data.Finset.Lattice.Fold
import Mathlib.Tactic.IntervalCases

namespace Awex

open Rendezvous RoundRobin

variable {α : Type}

/-- The two sides of a pair keep equally many operations, and a rank keeps operations for ranks of
the other kind only. -/
structure PairsAgree (inferWorldSize worldSize : ℕ) (plan : ℕ → TransferPlan) : Prop where
  pair : ∀ t, inferWorldSize ≤ t → t < worldSize → ∀ r < inferWorldSize,
    (planned (plan t).operations r).length = (planned (plan r).operations t).length
  train_peers : ∀ t, inferWorldSize ≤ t → t < worldSize → ∀ p ∈ (plan t).operations.keys,
    p < inferWorldSize
  infer_peers : ∀ r < inferWorldSize, ∀ p ∈ (plan r).operations.keys,
    inferWorldSize ≤ p ∧ p < worldSize

def P2POp.action (op : P2POp) : Action ℕ := op.op.choose (.send op.peer) (.recv op.peer)

@[simp] theorem P2POp.action_send (tensor : Tensor) (peer : ℕ) :
    P2POp.action ⟨.send, tensor, peer⟩ = .send peer := rfl

@[simp] theorem P2POp.action_recv (tensor : Tensor) (peer : ℕ) :
    P2POp.action ⟨.recv, tensor, peer⟩ = .recv peer := rfl

def oneByOnePrograms (inferWorldSize worldSize : ℕ) (sent : ℕ → SendOps α) (posted : ℕ → RecvOps α) :
    State ℕ := fun a =>
  if a < inferWorldSize then
    (sendRecvOneByOne (posted a).p2pOpList (posted a).recvTrajList).map (·.action)
  else if a < worldSize then
    (sendRecvOneByOne (sent a).p2pOpList (sent a).sendTrajList).map (·.action)
  else []

theorem sendRecvOneByOne_eq (ops : List P2POp) (traj : List (String × ℕ))
    (h : traj.length = ops.length) : sendRecvOneByOne ops traj = ops :=
  List.map_snd_zip (Nat.le_of_eq h.symm)

theorem sendProgram (parameters : Dict String Parameter) (transferPlan : TransferPlan)
    (memory : Memory α) (sent : SendOps α)
    (h : ncclBuildSendOps parameters transferPlan (-1) false memory = .ok sent) :
    (sendRecvOneByOne sent.p2pOpList sent.sendTrajList).map (·.action) =
      (visited transferPlan.operations).map (fun e => .send e.1) := by
  rw [ncclBuildSendOps, buildLoop_eq] at h
  have hlists := emitAll_induction (fun done (s : SendOps α) =>
    s.sendTrajList.length = s.p2pOpList.length ∧ s.p2pOpList.map (·.action) = done.map (fun e => .send e.1))
    h ⟨rfl, rfl⟩ (fun done e s s' hs he => by
      obtain ⟨p, tensor, w, -, -, rfl⟩ := emitSend_eq_ok.mp he
      simp [hs.1, hs.2])
  rw [sendRecvOneByOne_eq _ _ hlists.1, hlists.2]

theorem recvProgram (parameters : Dict String Parameter) (transferPlan : TransferPlan)
    (memory : Memory α) (posted : RecvOps α)
    (h : ncclBuildRecvOps parameters transferPlan false memory = .ok posted) :
    (sendRecvOneByOne posted.p2pOpList posted.recvTrajList).map (·.action) =
      (visited transferPlan.operations).map (fun e => .recv e.1) := by
  rw [ncclBuildRecvOps, buildLoop_eq] at h
  have hlists := emitAll_induction (fun done (s : RecvOps α) =>
    s.recvTrajList.length = s.p2pOpList.length ∧ s.p2pOpList.map (·.action) = done.map (fun e => .recv e.1))
    h ⟨rfl, rfl⟩ (fun done e s s' hs he => by
      obtain ⟨p, sliced, -, -, rfl⟩ := emitRecv_eq_ok.mp he
      simp [hs.1, hs.2])
  rw [sendRecvOneByOne_eq _ _ hlists.1, hlists.2]

theorem mem_keys_of_lt_length {operations : Dict ℕ (List CommunicationOperation)} {p k : ℕ}
    (h : k < (planned operations p).length) : p ∈ operations.keys := by
  rw [Dict.mem_keys]
  cases hp : operations.get? p with
  | none => simp [planned, Dict.getD, hp] at h
  | some ops => rfl

theorem row_peers (operations : Dict ℕ (List CommunicationOperation)) (k : ℕ) (ranks : List ℕ)
    (hs : ranks.Pairwise (· < ·)) (hkeys : ∀ p ∈ operations.keys, p ∈ ranks) :
    (row (sortedKeys operations.keys) (planned operations) k).map Prod.fst =
      ranks.filter (fun p => k < (planned operations p).length) := by
  have hfst : ∀ keys : List ℕ, (row keys (planned operations) k).map Prod.fst =
      keys.filter (fun p => k < (planned operations p).length) := by
    intro keys
    induction keys with
    | nil => rfl
    | cons p keys ih =>
      simp only [row] at ih
      by_cases hk : k < (planned operations p).length
      · simp [row, hk, ih]
      · simp [row, hk, ih]
  rw [hfst]
  apply List.Pairwise.eq_of_mem_iff (r := (· < ·)) ((sortedKeys_lt operations.nodup).filter _)
    (hs.filter _)
  intro p
  simp only [List.mem_filter, decide_eq_true_eq, mem_sortedKeys]
  constructor
  · rintro ⟨hp, hk⟩
    exact ⟨hkeys p hp, hk⟩
  · rintro ⟨-, hk⟩
    exact ⟨mem_keys_of_lt_length hk, hk⟩

theorem visited_peers (operations : Dict ℕ (List CommunicationOperation)) (n : ℕ) (ranks : List ℕ)
    (hn : maxLength operations + 1 ≤ n) (hs : ranks.Pairwise (· < ·))
    (hkeys : ∀ p ∈ operations.keys, p ∈ ranks) :
    (visited operations).map Prod.fst =
      (List.range n).flatMap (fun k => ranks.filter (fun p => k < (planned operations p).length)) := by
  have hstable := weave_stable (sortedKeys operations.keys) (planned operations)
    (maxLength operations + 1) n hn
    (fun p _ => (length_le_maxLength operations p).trans (Nat.le_succ _))
  rw [visited, ← hstable, weave, List.map_flatMap]
  exact List.flatMap_congr (fun k _ => row_peers operations k ranks hs hkeys)

/-- At position `k` of the pair's list, training rank `t` has something for inference rank `r`. -/
def SendsAt (inferWorldSize : ℕ) (plan : ℕ → TransferPlan) (k t r : ℕ) : Prop :=
  inferWorldSize ≤ t ∧ k < (planned (plan t).operations r).length

instance (inferWorldSize : ℕ) (plan : ℕ → TransferPlan) (k t r : ℕ) :
    Decidable (SendsAt inferWorldSize plan k t r) := inferInstanceAs (Decidable (_ ∧ _))

def trainRanks (inferWorldSize worldSize : ℕ) : List ℕ := rankRange inferWorldSize worldSize

theorem mem_trainRanks (inferWorldSize worldSize t : ℕ) :
    t ∈ trainRanks inferWorldSize worldSize ↔ inferWorldSize ≤ t ∧ t < worldSize := by
  rw [trainRanks, rankRange, List.mem_range'_1]
  omega

theorem trainRanks_lt (inferWorldSize worldSize : ℕ) :
    (trainRanks inferWorldSize worldSize).Pairwise (· < ·) := List.pairwise_lt_range'

def positionEvents (inferWorldSize worldSize : ℕ) (plan : ℕ → TransferPlan) (n : ℕ) : List (ℕ × ℕ) :=
  (List.range n).flatMap (fun k =>
    grid (trainRanks inferWorldSize worldSize) (List.range inferWorldSize) (SendsAt inferWorldSize plan k))

section Programs

variable {inferWorldSize worldSize : ℕ} {plan : ℕ → TransferPlan}

theorem project_train (h : PairsAgree inferWorldSize worldSize plan) (n t : ℕ)
    (ht : inferWorldSize ≤ t) (htw : t < worldSize) (hn : maxLength (plan t).operations + 1 ≤ n) :
    project (positionEvents inferWorldSize worldSize plan n) t =
      (visited (plan t).operations).map (fun e => .send e.1) := by
  have hpeers := visited_peers (plan t).operations n (List.range inferWorldSize) hn
    List.pairwise_lt_range (fun p hp => List.mem_range.mpr (h.train_peers t ht htw p hp))
  have hmap : (visited (plan t).operations).map (fun e => Action.send e.1) =
      ((visited (plan t).operations).map Prod.fst).map .send := by
    rw [List.map_map]
    rfl
  rw [hmap, hpeers, List.map_flatMap, positionEvents, project_flatMap]
  apply List.flatMap_congr
  intro k _
  rw [project_grid_send t (trainRanks_lt _ _).nodup ((mem_trainRanks _ _ t).mpr ⟨ht, htw⟩)]
  · simp only [SendsAt, ht, true_and]
  · rintro s hs ⟨-, hlt⟩
    obtain ⟨hs, hsw⟩ := (mem_trainRanks _ _ s).mp hs
    have hlt' := h.train_peers s hs hsw t (mem_keys_of_lt_length hlt)
    omega

theorem project_infer (h : PairsAgree inferWorldSize worldSize plan) (n r : ℕ)
    (hr : r < inferWorldSize) (hn : maxLength (plan r).operations + 1 ≤ n) :
    project (positionEvents inferWorldSize worldSize plan n) r =
      (visited (plan r).operations).map (fun e => .recv e.1) := by
  have hpeers := visited_peers (plan r).operations n (trainRanks inferWorldSize worldSize) hn
    (trainRanks_lt _ _) (fun p hp => (mem_trainRanks _ _ p).mpr (h.infer_peers r hr p hp))
  have hmap : (visited (plan r).operations).map (fun e => Action.recv e.1) =
      ((visited (plan r).operations).map Prod.fst).map .recv := by
    rw [List.map_map]
    rfl
  rw [hmap, hpeers, List.map_flatMap, positionEvents, project_flatMap]
  apply List.flatMap_congr
  intro k _
  rw [project_grid_recv r List.nodup_range (List.mem_range.mpr hr)]
  · congr 1
    apply List.filter_congr
    intro t ht
    obtain ⟨ht, htw⟩ := (mem_trainRanks _ _ t).mp ht
    simp only [SendsAt, ht, true_and, h.pair t ht htw r hr]
  · rintro p hp ⟨hle, -⟩
    omega

theorem positionEvents_bound (n : ℕ) (e : ℕ × ℕ)
    (he : e ∈ positionEvents inferWorldSize worldSize plan n) :
    e.1 ≠ e.2 ∧ e.1 < worldSize ∧ e.2 < worldSize := by
  obtain ⟨k, -, he⟩ := List.mem_flatMap.mp he
  obtain ⟨h1, h2, -⟩ := mem_grid.mp he
  rw [mem_trainRanks] at h1
  rw [List.mem_range] at h2
  omega

theorem oneByOnePrograms_eq {parameters : ℕ → Dict String Parameter} {memory : ℕ → Memory α} {sent : ℕ → SendOps α}
    {posted : ℕ → RecvOps α} (h : PairsAgree inferWorldSize worldSize plan)
    (hsent : ∀ t, inferWorldSize ≤ t → t < worldSize →
      ncclBuildSendOps (parameters t) (plan t) (-1) false (memory t) = .ok (sent t))
    (hposted : ∀ r < inferWorldSize, ncclBuildRecvOps (parameters r) (plan r) false (memory r) = .ok (posted r)) :
    ∃ n, oneByOnePrograms inferWorldSize worldSize sent posted =
      project (positionEvents inferWorldSize worldSize plan n) := by
  -- both round robins follow the global order by position in the pair's list, then sender, then receiver
  obtain ⟨n, hn⟩ : ∃ n, ∀ a < max inferWorldSize worldSize, maxLength (plan a).operations + 1 ≤ n := by
    refine ⟨(Finset.range (max inferWorldSize worldSize)).sup fun a => maxLength (plan a).operations + 1, ?_⟩
    intro a ha
    exact Finset.le_sup (f := fun a => maxLength (plan a).operations + 1) (Finset.mem_range.mpr ha)
  refine ⟨n, ?_⟩
  funext a
  unfold oneByOnePrograms
  split_ifs with hr ht
  · rw [recvProgram _ _ _ _ (hposted a hr), project_infer h n a hr (hn a (lt_max_of_lt_left hr))]
  · rw [sendProgram _ _ _ _ (hsent a (not_lt.mp hr) ht),
      project_train h n a (not_lt.mp hr) ht (hn a (lt_max_of_lt_right ht))]
  · symm
    apply List.filterMap_eq_nil_iff.mpr
    intro e he
    obtain ⟨-, h1, h2⟩ := positionEvents_bound n e he
    exact view_other a e (by omega) (by omega)

end Programs

theorem one_by_one_deadlock_free (inferWorldSize worldSize : ℕ) (plan : ℕ → TransferPlan)
    (parameters : ℕ → Dict String Parameter) (memory : ℕ → Memory α) (sent : ℕ → SendOps α)
    (posted : ℕ → RecvOps α) (h : PairsAgree inferWorldSize worldSize plan)
    (hsent : ∀ t, inferWorldSize ≤ t → t < worldSize →
      ncclBuildSendOps (parameters t) (plan t) (-1) false (memory t) = .ok (sent t))
    (hposted : ∀ r < inferWorldSize,
      ncclBuildRecvOps (parameters r) (plan r) false (memory r) = .ok (posted r))
    (st : State ℕ) (hst : Reachable (oneByOnePrograms inferWorldSize worldSize sent posted) st)
    (hleft : ∃ a, st a ≠ []) : ∃ st', Step st st' := by
  obtain ⟨n, hprograms⟩ := oneByOnePrograms_eq h hsent hposted
  rw [hprograms] at hst
  refine deadlock_free _ (fun e he => (positionEvents_bound n e he).1) st hst (fun hfin => ?_)
  obtain ⟨a, ha⟩ := hleft
  exact ha (hfin a)

theorem gateProj_pairsAgree : PairsAgree 4 6 gateProjPlan where
  pair := by decide
  train_peers := by decide
  infer_peers := by decide

theorem gateProj_sends (t : ℕ) : ∃ sent, 4 ≤ t → t < 6 →
    ncclBuildSendOps (gateProjParameters t) (gateProjPlan t) (-1) false (gateProjMemory t) = .ok sent := by
  by_cases ht : 4 ≤ t ∧ t < 6
  · obtain ⟨h4, h6⟩ := ht
    interval_cases t <;> exact ⟨_, fun _ _ => rfl⟩
  · exact ⟨⟨⟨gateProjMemory t, .empty⟩, [], [], []⟩, fun h4 h6 => absurd ⟨h4, h6⟩ ht⟩

theorem gateProj_recvs (r : ℕ) : ∃ posted, r < 4 →
    ncclBuildRecvOps (gateProjParameters r) (gateProjPlan r) false (gateProjMemory r) = .ok posted := by
  by_cases hr : r < 4
  · interval_cases r <;> exact ⟨_, fun _ => rfl⟩
  · exact ⟨⟨gateProjMemory r, [], [], []⟩, fun h4 => absurd h4 hr⟩

theorem one_by_one_deadlock_free_gateProj : ∃ (sent : ℕ → SendOps ℕ) (posted : ℕ → RecvOps ℕ),
    ∃ st', Step (oneByOnePrograms 4 6 sent posted) st' := by
  choose sent hsent using gateProj_sends
  choose posted hposted using gateProj_recvs
  have hprogram := sendProgram _ _ _ _ (hsent 4 (by decide) (by decide))
  have hfirst : oneByOnePrograms 4 6 sent posted 4 ≠ [] := by
    rw [oneByOnePrograms, if_neg (by decide), if_pos (by decide), hprogram]
    decide
  exact ⟨sent, posted, one_by_one_deadlock_free 4 6 gateProjPlan gateProjParameters gateProjMemory sent
    posted gateProj_pairsAgree hsent hposted _ .refl ⟨4, hfirst⟩⟩

end Awex
