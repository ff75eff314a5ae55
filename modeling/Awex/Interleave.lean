import Awex.BuildLoop
import Mathlib.Algebra.GroupWithZero.Nat

namespace Awex

open RoundRobin

def opsFor (ops : List P2POp) (peer : ℕ) : List P2POp := ops.filter (fun op => op.peer = peer)

/-- What is left to take after `k` passes. -/
def leftAfter (peers : List ℕ) (lists : ℕ → List P2POp) (k : ℕ) : ℕ :=
  (peers.map (fun p => (lists p).length - k)).sum

theorem leftAfter_eq (peers : List ℕ) (lists : ℕ → List P2POp) (k : ℕ) :
    leftAfter peers lists k = (row peers lists k).length + leftAfter peers lists (k + 1) := by
  induction peers with
  | nil => rfl
  | cons p peers ih =>
    simp only [leftAfter, List.map_cons, List.sum_cons] at ih ⊢
    rw [ih]
    by_cases hk : k < (lists p).length
    · simp only [row, List.filterMap_cons, List.getElem?_eq_getElem hk, Option.map_some,
        List.length_cons]
      omega
    · simp only [row, List.filterMap_cons, List.getElem?_eq_none (not_lt.mp hk), Option.map_none]
      omega

theorem length_le_of_leftAfter {peers : List ℕ} {lists : ℕ → List P2POp} {k : ℕ}
    (h : leftAfter peers lists k = 0) (p : ℕ) (hp : p ∈ peers) : (lists p).length ≤ k := by
  have hzero := List.sum_eq_zero_iff_forall_eq_nat.mp h _ (List.mem_map.mpr ⟨p, hp, rfl⟩)
  omega

theorem row_ne_nil {peers : List ℕ} {lists : ℕ → List P2POp} {k : ℕ} {p : ℕ} (hp : p ∈ peers)
    (hk : k < (lists p).length) : 0 < (row peers lists k).length :=
  List.length_pos_of_mem (mem_row.mpr ⟨hp, List.getElem?_eq_getElem hk⟩)

theorem rows_done {peers : List ℕ} {lists : ℕ → List P2POp} {k : ℕ} (h : leftAfter peers lists k = 0)
    (m : ℕ) : (List.range' k m).flatMap (row peers lists) = [] := by
  apply List.flatMap_eq_nil_iff.mpr
  intro j hj
  apply row_eq_nil
  intro p hp
  exact (length_le_of_leftAfter h p hp).trans (List.mem_range'_1.mp hj).1

theorem exists_left {peers : List ℕ} {lists : ℕ → List P2POp} {k : ℕ} (h : 0 < leftAfter peers lists k) :
    ∃ p ∈ peers, k < (lists p).length := by
  by_contra hnone
  simp only [not_exists, not_and, not_lt] at hnone
  have hzero : leftAfter peers lists k = 0 := by
    apply List.sum_eq_zero_iff_forall_eq_nat.mpr
    intro x hx
    obtain ⟨p, hp, rfl⟩ := List.mem_map.mp hx
    exact Nat.sub_eq_zero_of_le (hnone p hp)
  omega

section Passes

variable (byPeer : Dict ℕ (List P2POp))

def bucket (peer : ℕ) : List P2POp := byPeer.getD peer []

theorem interleavePass (k : ℕ) (peers : List ℕ) (s : Interleave) (hn : peers.Nodup)
    (hk : ∀ p ∈ peers, s.progress.getD p 0 = min k (bucket byPeer p).length) :
    let s' := peers.foldl (takeFromPeer byPeer) s
    s'.interleaved = s.interleaved ++ (row peers (bucket byPeer) k).map Prod.snd ∧
      s'.remaining = s.remaining - (row peers (bucket byPeer) k).length ∧
      ∀ q, s'.progress.getD q 0 =
        if q ∈ peers then min (k + 1) (bucket byPeer q).length else s.progress.getD q 0 := by
  induction peers generalizing s with
  | nil => simp [row]
  | cons p peers ih =>
    obtain ⟨hp, hn⟩ := List.nodup_cons.mp hn
    obtain ⟨hkp, hk⟩ := List.forall_mem_cons.mp hk
    by_cases hlen : k < (bucket byPeer p).length
    · have hget : (bucket byPeer p)[k]? = some (bucket byPeer p)[k] := List.getElem?_eq_getElem hlen
      have htake : takeFromPeer byPeer s p = ⟨s.progress.set p (k + 1), s.remaining - 1,
          s.interleaved ++ [(bucket byPeer p)[k]]⟩ := by
        simp only [takeFromPeer, hkp, Nat.min_eq_left hlen.le]
        rw [← bucket, hget]
      have hset : ∀ q ∈ peers, (takeFromPeer byPeer s p).progress.getD q 0 =
          min k (bucket byPeer q).length := by
        intro q hq
        have hpq : p ≠ q := fun h => hp (h ▸ hq)
        simpa [htake, Dict.getD, Dict.get?_set, hpq] using hk q hq
      obtain ⟨h1, h2, h3⟩ := ih (takeFromPeer byPeer s p) hn hset
      rw [List.foldl_cons]
      refine ⟨?_, ?_, fun q => ?_⟩
      · rw [h1, htake]
        simp [row, hget]
      · rw [h2, htake]
        simp only [row, List.filterMap_cons, hget, Option.map_some, List.length_cons]
        omega
      · rw [h3]
        by_cases hq : q ∈ peers
        · simp [hq]
        · rw [if_neg hq, htake]
          by_cases hpq : p = q
          · subst hpq
            simp [Dict.getD, Dict.get?_set]
            omega
          · simp [Dict.getD, Dict.get?_set, hpq, hq, Ne.symm hpq]
    · have hle := not_lt.mp hlen
      have hget : ∀ j ≥ (bucket byPeer p).length, (bucket byPeer p)[j]? = none :=
        fun j hj => List.getElem?_eq_none hj
      have htake : takeFromPeer byPeer s p = s := by
        simp only [takeFromPeer, hkp, Nat.min_eq_right hle]
        rw [← bucket, hget _ le_rfl]
      obtain ⟨h1, h2, h3⟩ := ih (takeFromPeer byPeer s p) hn (by rwa [htake])
      rw [List.foldl_cons]
      refine ⟨?_, ?_, fun q => ?_⟩
      · rw [h1, htake]
        simp [row, hget k hle]
      · rw [h2, htake]
        simp [row, hget k hle]
      · rw [h3, htake]
        by_cases hpq : q = p
        · subst hpq
          simp [hp, hkp]
          omega
        · simp [hpq]

theorem interleavePasses_eq (n fuel k : ℕ) (peers : List ℕ) (s : Interleave) (hn : peers.Nodup)
    (hmax : ∀ p ∈ peers, (bucket byPeer p).length ≤ n) (hfuel : s.remaining ≤ fuel)
    (hleft : s.remaining = leftAfter peers (bucket byPeer) k)
    (hk : ∀ p ∈ peers, s.progress.getD p 0 = min k (bucket byPeer p).length) :
    (interleavePasses byPeer peers fuel s).interleaved = s.interleaved ++
      ((List.range' k (n - k)).flatMap (row peers (bucket byPeer))).map Prod.snd := by
  induction fuel generalizing k s with
  | zero =>
    rw [rows_done (hleft.symm.trans (Nat.le_zero.mp hfuel)), List.map_nil, List.append_nil]
    rfl
  | succ fuel ih =>
    rw [interleavePasses]
    split_ifs with hpos
    · obtain ⟨h1, h2, h3⟩ := interleavePass byPeer k peers s hn hk
      have hsucc := leftAfter_eq peers (bucket byPeer) k
      obtain ⟨p, hp, hlt⟩ := exists_left (hleft ▸ hpos)
      have hrow := row_ne_nil hp hlt
      have hkn : k < n := hlt.trans_le (hmax p hp)
      have hrange : List.range' k (n - k) = k :: List.range' (k + 1) (n - (k + 1)) := by
        rw [show n - k = (n - (k + 1)) + 1 by omega, List.range'_succ]
      rw [ih (k + 1) _ (by omega) (by omega) (fun q hq => by rw [h3, if_pos hq]), h1, hrange,
        List.flatMap_cons, List.map_append, List.append_assoc]
    · have hzero : leftAfter peers (bucket byPeer) k = 0 := by omega
      rw [rows_done hzero, List.map_nil, List.append_nil]

end Passes

def peersOf (ops : List P2POp) : List ℕ := sortedKeys (Dict.groupBy (fun op : P2POp => op.peer) ops).keys

theorem peersOf_nodup (ops : List P2POp) : (peersOf ops).Nodup := sortedKeys_nodup (Dict.nodup _)

theorem mem_peersOf (ops : List P2POp) (p : ℕ) : p ∈ peersOf ops ↔ p ∈ ops.map (·.peer) := by
  rw [peersOf, mem_sortedKeys, Dict.mem_keys_groupBy]

theorem bucket_groupBy (ops : List P2POp) :
    bucket (Dict.groupBy (fun op : P2POp => op.peer) ops) = opsFor ops :=
  funext (fun p => Dict.getD_groupBy (fun op : P2POp => op.peer) ops p)

theorem sum_buckets (ops : List P2POp) :
    ((Dict.groupBy (fun op : P2POp => op.peer) ops).values.map List.length).sum =
      leftAfter (peersOf ops) (opsFor ops) 0 := by
  rw [← bucket_groupBy, leftAfter, Dict.values_eq _ [], List.map_map]
  exact (((List.perm_insertionSort _ _).map _).sum_nat).symm

theorem interleaveP2pOpsByPeer_eq (ops : List P2POp) :
    interleaveP2pOpsByPeer ops = (weave (peersOf ops) (opsFor ops) ops.length).map Prod.snd := by
  unfold interleaveP2pOpsByPeer
  split_ifs with hnil
  · subst hnil
    rfl
  · have hpasses := interleavePasses_eq (Dict.groupBy (fun op : P2POp => op.peer) ops) ops.length
      ((Dict.groupBy (fun op : P2POp => op.peer) ops).values.map List.length).sum 0 (peersOf ops)
      ⟨noProgress (peersOf ops),
        ((Dict.groupBy (fun op : P2POp => op.peer) ops).values.map List.length).sum, []⟩
    rw [bucket_groupBy] at hpasses
    refine (hpasses (peersOf_nodup ops) (fun p _ => List.length_filter_le _ _) le_rfl
      (sum_buckets ops) (fun p hp => ?_)).trans ?_
    · rw [Nat.zero_min, getD_noProgress _ p (peersOf_nodup ops) hp]
    · rw [weave, List.range_eq_range', List.nil_append, Nat.sub_zero]

theorem opsFor_interleave (ops : List P2POp) (p : ℕ) :
    opsFor (interleaveP2pOpsByPeer ops) p = opsFor ops p := by
  have hentry : ∀ e ∈ weave (peersOf ops) (opsFor ops) ops.length, e.2.peer = e.1 := by
    rintro ⟨q, op⟩ he
    obtain ⟨k, -, he⟩ := List.mem_flatMap.mp he
    have hop := List.mem_of_getElem? (mem_row.mp he).2
    simpa using (List.mem_filter.mp hop).2
  have hfilter : opsFor (interleaveP2pOpsByPeer ops) p =
      ((weave (peersOf ops) (opsFor ops) ops.length).filter (fun e => e.1 = p)).map Prod.snd := by
    rw [interleaveP2pOpsByPeer_eq, opsFor, List.filter_map]
    congr 1
    apply List.filter_congr
    intro e he
    simp [hentry e he]
  have hlen : (opsFor ops p).length ≤ ops.length := List.length_filter_le _ _
  rw [hfilter]
  by_cases hp : p ∈ peersOf ops
  · rw [filter_weave _ _ _ p (peersOf_nodup ops) hp hlen, List.map_map]
    exact List.map_id _
  · rw [filter_weave_not_mem _ _ _ p hp]
    symm
    apply List.filter_eq_nil_iff.mpr
    intro op hop
    simp only [decide_eq_true_eq]
    rintro rfl
    exact hp ((mem_peersOf ops _).mpr (List.mem_map_of_mem hop))

theorem interleave_perm (ops : List P2POp) : (interleaveP2pOpsByPeer ops).Perm ops :=
  perm_of_filter_eq (·.peer) _ _ (opsFor_interleave ops)

end Awex
