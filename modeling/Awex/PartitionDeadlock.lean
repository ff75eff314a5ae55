import Awex.Library.Rendezvous
import Awex.PartitionSchedule

namespace Awex

open Halving Rendezvous

variable {β : Type}

structure PeerOps (β : Type) where
  send : ℕ → Dict ℕ (List β)
  recv : ℕ → Dict ℕ (List β)

structure PeerOps.Matched (f : PeerOps β) (worldSize : ℕ) : Prop where
  send_iff : ∀ a < worldSize, ∀ b,
    (f.send a).getD b [] ≠ [] ↔ b < worldSize ∧ (f.recv b).getD a [] ≠ []
  recv_iff : ∀ b < worldSize, ∀ a,
    (f.recv b).getD a [] ≠ [] ↔ a < worldSize ∧ (f.send a).getD b [] ≠ []

def PeerBatch.action (batch : PeerBatch β) : Action ℕ :=
  batch.direction.choose (.send batch.peer) (.recv batch.peer)

/-- Every rank runs the schedule once for each chunk, with nothing in between. -/
def partitionPrograms (worldSize : ℕ) (chunks : List (PeerOps β)) : State ℕ := fun a =>
  if a < worldSize then
    chunks.flatMap (fun f =>
      (executeRecursivePartitionStreamTransfer a worldSize (f.send a) (f.recv a)).map (·.action))
  else []

/-- `s` sends something to `r` in this phase of this round. -/
def Exchanges (worldSize : ℕ) (f : PeerOps β) (roundIdx phase s r : ℕ) : Prop :=
  Separates worldSize roundIdx s r ∧ sendPhase worldSize s roundIdx = phase ∧ (f.send s).getD r [] ≠ []

instance (worldSize : ℕ) (f : PeerOps β) (roundIdx phase s r : ℕ) :
    Decidable (Exchanges worldSize f roundIdx phase s r) := inferInstanceAs (Decidable (_ ∧ _ ∧ _))

theorem executeOpsConcurrent_fst (opsDict : Dict ℕ (List β)) (peers : List ℕ) :
    (executeOpsConcurrent opsDict peers).map (·.1) = peers.filter (fun p => opsDict.getD p [] ≠ []) := by
  induction peers with
  | nil => rfl
  | cons p ps ih =>
    unfold executeOpsConcurrent at ih ⊢
    rcases hd : opsDict.get? p with _ | (_ | ⟨op, ops⟩) <;> simpa [hd, Dict.getD] using ih

theorem executeCall_actions (allSendOps allRecvOps : Dict ℕ (List β)) (call : PartitionCall) :
    (executeCall allSendOps allRecvOps call).map (·.action) =
      (call.peers.filter (fun p => (call.direction.choose allSendOps allRecvOps).getD p [] ≠ [])).map
        (fun p => call.direction.choose (.send p) (.recv p)) := by
  rw [← executeOpsConcurrent_fst, executeCall, List.map_map, List.map_map]
  rfl

theorem otherHalf_sorted (worldSize roundIdx rank : ℕ) :
    (otherHalf worldSize roundIdx rank).Pairwise (· < ·) := by
  unfold otherHalf
  dsimp only
  split_ifs <;> exact List.pairwise_lt_range'

theorem filter_otherHalf (worldSize roundIdx a : ℕ) (h : 0 < size worldSize roundIdx) (p : ℕ → Prop)
    [DecidablePred p] (hp : ∀ b, p b → b < worldSize) :
    (otherHalf worldSize roundIdx a).filter (p ·) =
      (List.range worldSize).filter (fun b => Separates worldSize roundIdx a b ∧ p b) := by
  apply List.Pairwise.eq_of_mem_iff (r := (· < ·)) ((otherHalf_sorted worldSize roundIdx a).filter _)
    (List.pairwise_lt_range.filter _)
  intro b
  simp only [List.mem_filter, mem_otherHalf worldSize roundIdx a b h, List.mem_range, decide_eq_true_eq]
  constructor
  · rintro ⟨hs, hb⟩
    exact ⟨hp b hb, hs, hb⟩
  · rintro ⟨-, hs, hb⟩
    exact ⟨hs, hb⟩

def phaseEvents (worldSize : ℕ) (f : PeerOps β) (roundIdx phase : ℕ) : List (ℕ × ℕ) :=
  grid (List.range worldSize) (List.range worldSize) (Exchanges worldSize f roundIdx phase)

def chunkEvents (worldSize : ℕ) (f : PeerOps β) : List (ℕ × ℕ) :=
  (List.range (numRounds worldSize)).flatMap (fun i =>
    phaseEvents worldSize f i 1 ++ phaseEvents worldSize f i 2)

theorem sendPhase_of_separates {worldSize roundIdx s r : ℕ} (h : Separates worldSize roundIdx s r) :
    sendPhase worldSize s roundIdx ≠ sendPhase worldSize r roundIdx := by
  have hf := firstHalf_iff_of_separates h
  unfold sendPhase
  by_cases hs : InFirstHalf worldSize roundIdx s <;> simp [hf, hs]

theorem sendPhase_cases (worldSize s roundIdx : ℕ) :
    sendPhase worldSize s roundIdx = 1 ∨ sendPhase worldSize s roundIdx = 2 := by
  unfold sendPhase
  split_ifs <;> simp

theorem project_phaseEvents_send (worldSize : ℕ) (f : PeerOps β) (hf : f.Matched worldSize)
    (roundIdx phase a : ℕ) (hi : 0 < size worldSize roundIdx) (ha : a < worldSize)
    (hp : sendPhase worldSize a roundIdx = phase) :
    project (phaseEvents worldSize f roundIdx phase) a =
      ((otherHalf worldSize roundIdx a).filter (fun p => (f.send a).getD p [] ≠ [])).map .send := by
  have hnone : ∀ s ∈ List.range worldSize, ¬ Exchanges worldSize f roundIdx phase s a := by
    rintro s - ⟨hs, hsp, -⟩
    exact sendPhase_of_separates hs (hsp.trans hp.symm)
  rw [phaseEvents, project_grid_send a List.nodup_range (List.mem_range.mpr ha) hnone,
    filter_otherHalf worldSize roundIdx a hi _ (fun b hb => ((hf.send_iff a ha b).mp hb).1)]
  congr 1
  apply List.filter_congr
  intro r _
  simp [Exchanges, hp]

theorem project_phaseEvents_recv (worldSize : ℕ) (f : PeerOps β) (hf : f.Matched worldSize)
    (roundIdx phase a : ℕ) (hi : 0 < size worldSize roundIdx) (ha : a < worldSize)
    (hphase : phase = 1 ∨ phase = 2) (hp : sendPhase worldSize a roundIdx ≠ phase) :
    project (phaseEvents worldSize f roundIdx phase) a =
      ((otherHalf worldSize roundIdx a).filter (fun p => (f.recv a).getD p [] ≠ [])).map .recv := by
  have hnone : ∀ r ∈ List.range worldSize, ¬ Exchanges worldSize f roundIdx phase a r :=
    fun r _ hr => hp hr.2.1
  rw [phaseEvents, project_grid_recv a List.nodup_range (List.mem_range.mpr ha) hnone,
    filter_otherHalf worldSize roundIdx a hi _ (fun b hb => ((hf.recv_iff a ha b).mp hb).1)]
  congr 1
  apply List.filter_congr
  intro s hs
  have hlt := List.mem_range.mp hs
  have hmatch := hf.recv_iff a ha s
  simp only [decide_eq_decide]
  constructor
  · rintro ⟨hsep, -, hne⟩
    exact ⟨hsep.symm, hmatch.mpr ⟨hlt, hne⟩⟩
  · rintro ⟨hsep, hne⟩
    have hneq := sendPhase_of_separates hsep
    have h1 := sendPhase_cases worldSize a roundIdx
    have h2 := sendPhase_cases worldSize s roundIdx
    exact ⟨hsep.symm, by omega, (hmatch.mp hne).2⟩

theorem round_actions (worldSize : ℕ) (f : PeerOps β) (hf : f.Matched worldSize) (i a : ℕ)
    (hi : 0 < size worldSize i) (ha : a < worldSize) :
    (roundCalls a worldSize i).flatMap (fun c =>
        (executeCall (f.send a) (f.recv a) c).map (·.action)) =
      project (phaseEvents worldSize f i 1 ++ phaseEvents worldSize f i 2) a := by
  rw [project_append, roundCalls_eq]
  have hphase : sendPhase worldSize a i = if InFirstHalf worldSize i a then 1 else 2 := rfl
  by_cases hfirst : InFirstHalf worldSize i a
  · rw [if_pos hfirst] at hphase ⊢
    rw [project_phaseEvents_send worldSize f hf i 1 a hi ha hphase,
      project_phaseEvents_recv worldSize f hf i 2 a hi ha (.inr rfl) (by omega)]
    simp only [List.flatMap_cons, List.flatMap_nil, executeCall_actions, List.append_nil]
    rfl
  · rw [if_neg hfirst] at hphase ⊢
    rw [project_phaseEvents_recv worldSize f hf i 1 a hi ha (.inl rfl) (by omega),
      project_phaseEvents_send worldSize f hf i 2 a hi ha hphase]
    simp only [List.flatMap_cons, List.flatMap_nil, executeCall_actions, List.append_nil]
    rfl

theorem chunk_actions (worldSize : ℕ) (f : PeerOps β) (hf : f.Matched worldSize) (a : ℕ)
    (ha : a < worldSize) :
    (executeRecursivePartitionStreamTransfer a worldSize (f.send a) (f.recv a)).map (·.action) =
      project (chunkEvents worldSize f) a := by
  rw [executeRecursivePartitionStreamTransfer, partitionCalls, List.map_flatMap, List.flatMap_assoc,
    chunkEvents, project_flatMap]
  apply List.flatMap_congr
  intro i hi
  exact round_actions worldSize f hf i a
    (size_pos_of_lt_numRounds worldSize i (List.mem_range.mp hi)) ha

theorem phaseEvents_bound (worldSize : ℕ) (f : PeerOps β) (i phase : ℕ) (e : ℕ × ℕ)
    (he : e ∈ phaseEvents worldSize f i phase) : e.1 ≠ e.2 ∧ e.1 < worldSize ∧ e.2 < worldSize := by
  obtain ⟨h1, h2, hex⟩ := mem_grid.mp he
  refine ⟨?_, List.mem_range.mp h1, List.mem_range.mp h2⟩
  intro heq
  exact sendPhase_of_separates hex.1 (by rw [heq])

theorem chunkEvents_bound (worldSize : ℕ) (f : PeerOps β) (e : ℕ × ℕ)
    (he : e ∈ chunkEvents worldSize f) : e.1 ≠ e.2 ∧ e.1 < worldSize ∧ e.2 < worldSize := by
  obtain ⟨i, -, he⟩ := List.mem_flatMap.mp he
  rcases List.mem_append.mp he with he | he
  · exact phaseEvents_bound worldSize f i 1 e he
  · exact phaseEvents_bound worldSize f i 2 e he

theorem partitionPrograms_eq (worldSize : ℕ) (chunks : List (PeerOps β))
    (h : ∀ f ∈ chunks, f.Matched worldSize) :
    partitionPrograms worldSize chunks = project (chunks.flatMap (chunkEvents worldSize)) := by
  funext a
  rw [partitionPrograms, project_flatMap]
  split_ifs with ha
  · apply List.flatMap_congr
    intro f hf
    exact chunk_actions worldSize f (h f hf) a ha
  · symm
    apply List.flatMap_eq_nil_iff.mpr
    intro f _
    apply List.filterMap_eq_nil_iff.mpr
    intro e he
    obtain ⟨-, h1, h2⟩ := chunkEvents_bound worldSize f e he
    exact view_other a e (by omega) (by omega)

theorem partition_deadlock_free (worldSize : ℕ) (chunks : List (PeerOps β))
    (h : ∀ f ∈ chunks, f.Matched worldSize) (st : State ℕ)
    (hst : Reachable (partitionPrograms worldSize chunks) st) (hleft : ∃ a, st a ≠ []) :
    ∃ st', Step st st' := by
  rw [partitionPrograms_eq worldSize chunks h] at hst
  refine deadlock_free _ ?_ st hst (fun hfin => ?_)
  · intro e he
    obtain ⟨f, -, he⟩ := List.mem_flatMap.mp he
    exact (chunkEvents_bound worldSize f e he).1
  · obtain ⟨a, ha⟩ := hleft
    exact ha (hfin a)

def onePair (s r : ℕ) (ops : List ℕ) : PeerOps ℕ where
  send a := if a = s then Dict.ofList [(r, ops)] else .empty
  recv b := if b = r then Dict.ofList [(s, ops)] else .empty

theorem onePair_matched (worldSize s r : ℕ) (ops : List ℕ) (hs : s < worldSize) (hr : r < worldSize) :
    (onePair s r ops).Matched worldSize := by
  have hone : ∀ k q : ℕ, (Dict.ofList [(k, ops)]).getD q [] = if q = k then ops else [] := by
    intro k q
    simp only [Dict.ofList, List.foldl_cons, List.foldl_nil, Dict.getD, Dict.get?_set, Dict.get?_empty,
      eq_comm]
    split_ifs <;> rfl
  have hempty : ∀ q : ℕ, (Dict.empty : Dict ℕ (List ℕ)).getD q [] = [] := fun _ => rfl
  constructor
  · intro a _ b
    by_cases ha : a = s <;> by_cases hb : b = r <;>
      simp [onePair, ha, hb, hone, hempty, hr]
  · intro b _ a
    by_cases ha : a = s <;> by_cases hb : b = r <;>
      simp [onePair, ha, hb, hone, hempty, hs]

theorem partition_deadlock_free_three :
    ∃ st', Step (partitionPrograms 3 [onePair 0 2 [7], onePair 1 0 [5, 6]]) st' := by
  refine partition_deadlock_free 3 _ ?_ _ .refl ⟨0, by decide⟩
  simp only [List.forall_mem_cons]
  exact ⟨onePair_matched 3 0 2 [7] (by decide) (by decide),
    onePair_matched 3 1 0 [5, 6] (by decide) (by decide), by simp⟩

end Awex
