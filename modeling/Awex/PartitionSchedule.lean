import Awex.Library.Halving
import Awex.Library.Lists
import Awex.Library.RoundRobin
import Awex.RecursivePartition

namespace Awex

open Halving

variable {β : Type}

/-- The rounds and phases in which `rank` walks to `peer` in the given direction. -/
def walkSlots (worldSize : ℕ) (direction : Direction) (rank peer : ℕ) : List (ℕ × ℕ) :=
  ((partitionCalls rank worldSize).filter (fun c => c.direction = direction ∧ peer ∈ c.peers)).map
    (fun c => (c.round, c.phase))

/-- The batches that `rank` issues for `peer` in the given direction. -/
def peerBatches (worldSize : ℕ) (allSendOps allRecvOps : Dict ℕ (List β)) (direction : Direction)
    (rank peer : ℕ) : List (PeerBatch β) :=
  (executeRecursivePartitionStreamTransfer rank worldSize allSendOps allRecvOps).filter
    (fun batch => batch.direction = direction ∧ batch.peer = peer)

def slotBatch (direction : Direction) (peer : ℕ) (ops : List β) (slot : ℕ × ℕ) : List (PeerBatch β) :=
  if ops = [] then [] else [⟨slot.1, slot.2, direction, peer, ops⟩]

/-- One round and phase serves the ordered pair on both of its sides, and carries all its
operations. -/
def ExecutedOnce (worldSize : ℕ) (send recv : ℕ → Dict ℕ (List β)) (a b : ℕ) : Prop :=
  ∃ slot, walkSlots worldSize .send a b = [slot] ∧ walkSlots worldSize .recv b a = [slot] ∧
    peerBatches worldSize (send a) (recv a) .send a b =
      slotBatch .send b ((send a).getD b []) slot ∧
    peerBatches worldSize (send b) (recv b) .recv b a =
      slotBatch .recv a ((recv b).getD a []) slot

def InFirstHalf (worldSize roundIdx rank : ℕ) : Prop :=
  rank % size worldSize roundIdx < size worldSize (roundIdx + 1)

instance (worldSize roundIdx rank : ℕ) : Decidable (InFirstHalf worldSize roundIdx rank) :=
  inferInstanceAs (Decidable (_ < _))

def otherHalf (worldSize roundIdx rank : ℕ) : List ℕ :=
  let base := rank / size worldSize roundIdx * size worldSize roundIdx
  if InFirstHalf worldSize roundIdx rank then
    rankRange (base + size worldSize (roundIdx + 1)) (base + size worldSize roundIdx)
  else rankRange base (base + size worldSize (roundIdx + 1))

def sendPhase (worldSize rank roundIdx : ℕ) : ℕ := if InFirstHalf worldSize roundIdx rank then 1 else 2

theorem roundCalls_eq (worldSize roundIdx rank : ℕ) :
    roundCalls rank worldSize roundIdx =
      if InFirstHalf worldSize roundIdx rank then
        [⟨roundIdx, 1, .send, otherHalf worldSize roundIdx rank⟩,
          ⟨roundIdx, 2, .recv, otherHalf worldSize roundIdx rank⟩]
      else [⟨roundIdx, 1, .recv, otherHalf worldSize roundIdx rank⟩,
        ⟨roundIdx, 2, .send, otherHalf worldSize roundIdx rank⟩] := by
  have hhalf : worldSize / 2 ^ roundIdx / 2 = size worldSize (roundIdx + 1) := by
    rw [size_add]
    rfl
  have hoffset : rank - rank / (worldSize / 2 ^ roundIdx) * (worldSize / 2 ^ roundIdx) =
      rank % size worldSize roundIdx := by
    rw [Nat.mod_eq_sub_div_mul]
    rfl
  unfold roundCalls otherHalf InFirstHalf
  simp only [hhalf, hoffset]
  by_cases h : rank % size worldSize roundIdx < size worldSize (roundIdx + 1)
  · simp only [h, ↓reduceIte]
    rfl
  · simp only [h, ↓reduceIte]
    rfl

theorem mem_rankRange (start stop b : ℕ) : b ∈ rankRange start stop ↔ start ≤ b ∧ b < stop := by
  rw [rankRange, List.mem_range'_1]
  omega

theorem otherHalf_nodup (worldSize roundIdx rank : ℕ) : (otherHalf worldSize roundIdx rank).Nodup := by
  unfold otherHalf
  dsimp only
  split_ifs <;> exact List.nodup_range'

theorem div_eq_iff_range (b q n : ℕ) (hn : 0 < n) : q = b / n ↔ q * n ≤ b ∧ b < q * n + n := by
  rw [eq_comm, Nat.div_eq_iff hn]
  omega

theorem mem_otherHalf (worldSize roundIdx a b : ℕ) (h : 0 < size worldSize roundIdx) :
    b ∈ otherHalf worldSize roundIdx a ↔ Separates worldSize roundIdx a b := by
  have hb := Nat.div_add_mod b (size worldSize roundIdx)
  have hmod := Nat.mod_lt b h
  have hle : size worldSize (roundIdx + 1) ≤ size worldSize roundIdx :=
    size_anti _ _ _ (Nat.le_succ roundIdx)
  rw [Separates, div_eq_iff_range b _ _ h]
  rw [← InFirstHalf, ← InFirstHalf]
  unfold otherHalf
  dsimp only
  have hsame : a / size worldSize roundIdx * size worldSize roundIdx ≤ b ∧
      b < a / size worldSize roundIdx * size worldSize roundIdx + size worldSize roundIdx →
      b % size worldSize roundIdx = b - a / size worldSize roundIdx * size worldSize roundIdx := by
    intro hr
    rw [(div_eq_iff_range b _ _ h).mpr hr, Nat.mod_eq_sub_div_mul]
  split_ifs with hf
  · simp only [mem_rankRange, hf, true_iff]
    constructor
    · rintro ⟨h1, h2⟩
      have hr : _ ∧ _ := ⟨(Nat.le_add_right _ _).trans h1, h2⟩
      refine ⟨hr, ?_⟩
      rw [InFirstHalf, hsame hr]
      omega
    · rintro ⟨hr, h2⟩
      rw [InFirstHalf, hsame hr] at h2
      omega
  · simp only [mem_rankRange, hf, false_iff, not_not]
    constructor
    · rintro ⟨h1, h2⟩
      have hr : _ ∧ _ := ⟨h1, h2.trans_le (Nat.add_le_add_left hle _)⟩
      refine ⟨hr, ?_⟩
      rw [InFirstHalf, hsame hr]
      omega
    · rintro ⟨hr, h2⟩
      rw [InFirstHalf, hsame hr] at h2
      omega

theorem firstHalf_iff_of_separates {worldSize roundIdx a b : ℕ} (h : Separates worldSize roundIdx a b) :
    InFirstHalf worldSize roundIdx b ↔ ¬ InFirstHalf worldSize roundIdx a := by
  have hiff := h.2
  rw [← InFirstHalf, ← InFirstHalf] at hiff
  rw [hiff, not_not]

theorem filter_roundCalls (worldSize roundIdx a b : ℕ) (direction : Direction)
    (h : 0 < size worldSize roundIdx) :
    (roundCalls a worldSize roundIdx).filter (fun c => c.direction = direction ∧ b ∈ c.peers) =
      if Separates worldSize roundIdx a b then
        [⟨roundIdx, direction.choose (sendPhase worldSize a roundIdx) (3 - sendPhase worldSize a roundIdx),
          direction, otherHalf worldSize roundIdx a⟩]
      else [] := by
  have hmem := mem_otherHalf worldSize roundIdx a b h
  rw [roundCalls_eq]
  unfold sendPhase
  by_cases hs : Separates worldSize roundIdx a b
  · rw [if_pos hs]
    cases direction <;> split_ifs with hf <;> simp [hmem, hs]
  · rw [if_neg hs]
    split_ifs with hf <;> simp [hmem, hs]

theorem size_pos_of_lt_numRounds (worldSize i : ℕ) (hi : i < numRounds worldSize) :
    0 < size worldSize i := by
  have hne : worldSize ≠ 0 := by
    rintro rfl
    simp [numRounds] at hi
  exact size_pos _ _ ((Nat.pow_le_pow_right (by decide) hi.le).trans (Nat.pow_log_le_self 2 hne))

theorem extra_round_empty (worldSize rank i : ℕ) (hi : numRounds worldSize ≤ i) :
    ∀ c ∈ roundCalls rank worldSize i, c.peers = [] := by
  -- `math.log2` rounds up just below large powers of two; the round that this adds is empty
  have hlt : worldSize < 2 ^ (i + 1) := (Nat.lt_pow_succ_log_self (by decide) worldSize).trans_le
    (Nat.pow_le_pow_right (by decide) (Nat.succ_le_succ hi))
  have hzero : size worldSize (i + 1) = 0 := Nat.div_eq_of_lt hlt
  have hfirst : ¬ InFirstHalf worldSize i rank := by simp [InFirstHalf, hzero]
  have hnil : otherHalf worldSize i rank = [] := by simp [otherHalf, hfirst, hzero, rankRange]
  rw [roundCalls_eq, if_neg hfirst, hnil]
  simp

/-- The rounds that separate the pair, each with the phase in which `a` sends. -/
def pairSlots (worldSize a b : ℕ) : List (ℕ × ℕ) :=
  ((List.range (numRounds worldSize)).filter (fun i => Separates worldSize i a b)).map
    (fun i => (i, sendPhase worldSize a i))

theorem walkSlots_eq (worldSize : ℕ) (direction : Direction) (a b : ℕ) :
    walkSlots worldSize direction a b =
      ((List.range (numRounds worldSize)).filter (fun i => Separates worldSize i a b)).map
        (fun i => (i, direction.choose (sendPhase worldSize a i) (3 - sendPhase worldSize a i))) := by
  rw [walkSlots, partitionCalls, List.filter_flatMap, List.map_flatMap]
  have hpos : ∀ i ∈ List.range (numRounds worldSize), 0 < size worldSize i :=
    fun i hi => size_pos_of_lt_numRounds worldSize i (List.mem_range.mp hi)
  generalize List.range (numRounds worldSize) = is at hpos ⊢
  induction is with
  | nil => rfl
  | cons i is ih =>
    obtain ⟨hi, his⟩ := List.forall_mem_cons.mp hpos
    rw [List.flatMap_cons, ih his, filter_roundCalls _ _ _ _ _ hi]
    by_cases hs : Separates worldSize i a b <;> simp [hs]

theorem walkSlots_send (worldSize a b : ℕ) : walkSlots worldSize .send a b = pairSlots worldSize a b :=
  walkSlots_eq worldSize .send a b

theorem walkSlots_recv (worldSize a b : ℕ) : walkSlots worldSize .recv b a = pairSlots worldSize a b := by
  have hsymm : ∀ i, Separates worldSize i b a ↔ Separates worldSize i a b :=
    fun i => ⟨Separates.symm, Separates.symm⟩
  rw [walkSlots_eq, pairSlots]
  simp only [hsymm]
  apply List.map_congr_left
  intro i hi
  have hs : Separates worldSize i a b := by simpa using (List.mem_filter.mp hi).2
  have hf := firstHalf_iff_of_separates hs
  by_cases ha : InFirstHalf worldSize i a <;> simp [sendPhase, hf, ha]

def batchOf (opsDict : Dict ℕ (List β)) (peer : ℕ) : List (List β) :=
  if opsDict.getD peer [] = [] then [] else [opsDict.getD peer []]

theorem executeOpsConcurrent_eq_row (opsDict : Dict ℕ (List β)) (peers : List ℕ) :
    executeOpsConcurrent opsDict peers = RoundRobin.row peers (batchOf opsDict) 0 := by
  apply List.filterMap_congr
  intro peer _
  rcases hd : opsDict.get? peer with _ | (_ | ⟨op, ops⟩) <;> simp [batchOf, Dict.getD, hd]

theorem executeOpsConcurrent_filter (opsDict : Dict ℕ (List β)) (peers : List ℕ) (b : ℕ)
    (hn : peers.Nodup) :
    (executeOpsConcurrent opsDict peers).filter (fun e => e.1 = b) =
      if b ∈ peers then (batchOf opsDict b).map (fun ops => (b, ops)) else [] := by
  rw [executeOpsConcurrent_eq_row]
  split_ifs with hb
  · rw [RoundRobin.filter_row _ _ _ _ hn hb]
    unfold batchOf
    split_ifs <;> rfl
  · apply List.filter_eq_nil_iff.mpr
    rintro ⟨p, ops⟩ hp
    simp only [decide_eq_true_eq]
    rintro rfl
    exact hb (RoundRobin.mem_row.mp hp).1

theorem executeCall_filter (allSendOps allRecvOps : Dict ℕ (List β)) (call : PartitionCall)
    (direction : Direction) (b : ℕ) (hn : call.peers.Nodup) :
    (executeCall allSendOps allRecvOps call).filter
        (fun batch => batch.direction = direction ∧ batch.peer = b) =
      if call.direction = direction ∧ b ∈ call.peers then
        slotBatch direction b
          ((direction.choose allSendOps allRecvOps).getD b [])
          (call.round, call.phase)
      else [] := by
  obtain ⟨round, phase, d, peers⟩ := call
  unfold executeCall
  by_cases hd : d = direction
  · subst hd
    have hf := executeOpsConcurrent_filter
      (d.choose allSendOps allRecvOps) peers b hn
    simp only [List.filter_map, Function.comp_def, true_and]
    rw [hf]
    unfold batchOf slotBatch
    split_ifs <;> rfl
  · simp [List.filter_map, hd]

theorem peers_nodup (worldSize rank : ℕ) (call : PartitionCall)
    (h : call ∈ partitionCalls rank worldSize) : call.peers.Nodup := by
  obtain ⟨i, -, hc⟩ := List.mem_flatMap.mp h
  rw [roundCalls_eq] at hc
  have hn := otherHalf_nodup worldSize i rank
  split_ifs at hc <;>
  · simp only [List.mem_cons, List.not_mem_nil, or_false] at hc
    rcases hc with rfl | rfl <;> exact hn

theorem peerBatches_eq (worldSize : ℕ) (allSendOps allRecvOps : Dict ℕ (List β))
    (direction : Direction) (a b : ℕ) :
    peerBatches worldSize allSendOps allRecvOps direction a b =
      (walkSlots worldSize direction a b).flatMap (slotBatch direction b
        ((direction.choose allSendOps allRecvOps).getD b [])) := by
  rw [peerBatches, executeRecursivePartitionStreamTransfer, walkSlots, List.filter_flatMap,
    List.flatMap_map]
  have hn := peers_nodup worldSize a
  generalize partitionCalls a worldSize = calls at hn ⊢
  induction calls with
  | nil => rfl
  | cons call calls ih =>
    obtain ⟨hc, hcs⟩ := List.forall_mem_cons.mp hn
    rw [List.flatMap_cons, ih hcs, executeCall_filter _ _ _ _ _ hc, List.filter_cons]
    by_cases h : call.direction = direction ∧ b ∈ call.peers <;> simp [h]

theorem executedOnce_iff (worldSize : ℕ) (send recv : ℕ → Dict ℕ (List β)) (a b : ℕ) :
    ExecutedOnce worldSize send recv a b ↔ ∃ slot, pairSlots worldSize a b = [slot] := by
  simp only [ExecutedOnce, peerBatches_eq, walkSlots_send, walkSlots_recv]
  refine exists_congr (fun slot => ⟨fun h => h.1, fun h => ?_⟩)
  simp [h]

theorem pairSlots_two_pow (k a b : ℕ) (ha : a < 2 ^ k) (hb : b < 2 ^ k) (hab : a ≠ b) :
    ∃ slot, pairSlots (2 ^ k) a b = [slot] := by
  obtain ⟨i, hi, huniq⟩ := exists_unique_separates k a b ha hb hab
  have hrounds : numRounds (2 ^ k) = k := Nat.log_pow (by decide) k
  have hone : (List.range k).filter (fun j => Separates (2 ^ k) j a b) = [i] := by
    rw [List.filter_congr (q := fun j => j = i)
      (fun j hj => by simpa using huniq j (List.mem_range.mp hj))]
    exact filter_eq_singleton (List.range k) id (by simpa using List.nodup_range) i (List.mem_range.mpr hi)
  exact ⟨_, by rw [pairSlots, hrounds, hone, List.map_singleton]⟩

/-- Whatever the ranks have to exchange, the rounds serve every ordered pair once exactly when
the world size is a power of two. -/
theorem partition_complete_iff (worldSize : ℕ) (hw : 1 ≤ worldSize) (send recv : ℕ → Dict ℕ (List β)) :
    (∀ a < worldSize, ∀ b < worldSize, a ≠ b → ExecutedOnce worldSize send recv a b) ↔
      ∃ k, worldSize = 2 ^ k := by
  simp only [executedOnce_iff]
  constructor
  · intro h
    refine ⟨Nat.log 2 worldSize, ?_⟩
    by_contra hpow
    obtain ⟨a, b, ha, hb, hab, hnone⟩ := exists_not_separates worldSize (by omega) hpow
    obtain ⟨slot, hslot⟩ := h a ha b hb hab
    have hempty : pairSlots worldSize a b = [] := by
      rw [pairSlots, List.map_eq_nil_iff, List.filter_eq_nil_iff]
      intro i hi
      simpa using hnone i (List.mem_range.mp hi)
    simp [hempty] at hslot
  · rintro ⟨k, rfl⟩ a ha b hb hab
    exact pairSlots_two_pow k a b ha hb hab

theorem partition_complete_iff_eight :
    (∀ a < 8, ∀ b < 8, a ≠ b → ExecutedOnce 8 (fun _ => (.empty : Dict ℕ (List ℕ))) (fun _ => .empty) a b) ↔
      ∃ k, 8 = 2 ^ k :=
  partition_complete_iff 8 (by decide) _ _

theorem partition_skips_pair : ¬ ∀ worldSize ≥ 1, ∀ send recv : ℕ → Dict ℕ (List ℕ),
    ∀ a < worldSize, ∀ b < worldSize, a ≠ b → ExecutedOnce worldSize send recv a b := by
  -- with three ranks, rank one never gets to send to rank two
  intro h
  obtain ⟨slot, hslot, -⟩ := h 3 (by decide) (fun a => if a = 1 then Dict.ofList [(2, [7])] else .empty)
    (fun b => if b = 2 then Dict.ofList [(1, [7])] else .empty) 1 (by decide) 2 (by decide) (by decide)
  have hnone : walkSlots 3 .send 1 2 = [] := by decide
  simp [hnone] at hslot

end Awex
