import Awex.Library.ExceptList
import Awex.Library.RoundRobin
import Awex.NcclComm

namespace Awex

open RoundRobin

def planned (operations : Dict ℕ (List CommunicationOperation)) (peer : ℕ) : List CommunicationOperation :=
  operations.getD peer []

def sortedKeys (keys : List ℕ) : List ℕ := keys.insertionSort (· ≤ ·)

theorem mem_sortedKeys (keys : List ℕ) (p : ℕ) : p ∈ sortedKeys keys ↔ p ∈ keys :=
  List.mem_insertionSort _

theorem sortedKeys_nodup {keys : List ℕ} (h : keys.Nodup) : (sortedKeys keys).Nodup :=
  (List.perm_insertionSort _ keys).nodup_iff.mpr h

theorem sortedKeys_lt {keys : List ℕ} (h : keys.Nodup) : (sortedKeys keys).Pairwise (· < ·) :=
  ((List.pairwise_insertionSort (· ≤ ·) keys).and (sortedKeys_nodup h)).imp
    (fun h => lt_of_le_of_ne h.1 h.2)

theorem sortedKeys_filter (keys unfinished : List ℕ) (p : ℕ → Prop) [DecidablePred p]
    (hk : keys.Nodup) (hu : unfinished.Nodup) (h : ∀ q, q ∈ unfinished ↔ q ∈ keys ∧ p q) :
    sortedKeys unfinished = (sortedKeys keys).filter (p ·) := by
  apply List.Pairwise.eq_of_mem_iff (r := (· < ·)) (sortedKeys_lt hu) ((sortedKeys_lt hk).filter _)
  intro q
  simp only [mem_sortedKeys, h, List.mem_filter, decide_eq_true_eq]

theorem row_filter {β : Type} (keys : List ℕ) (lists : ℕ → List β) (k : ℕ) (p : ℕ → Prop)
    [DecidablePred p] (h : ∀ q ∈ keys, ¬ p q → (lists q).length ≤ k) :
    row (keys.filter (p ·)) lists k = row keys lists k := by
  rw [row, List.filterMap_filter]
  apply List.filterMap_congr
  intro q hq
  by_cases hp : p q
  · simp [hp]
  · simp [hp, List.getElem?_eq_none (h q hq hp)]

theorem getD_noProgress (keys : List ℕ) (p : ℕ) (hk : keys.Nodup) (hp : p ∈ keys) :
    (noProgress keys).getD p 0 = 0 := by
  have hn : ((keys.map (fun k => (k, 0))).map Prod.fst).Nodup := by
    simpa [Function.comp_def] using hk
  have hmem : (p, 0) ∈ keys.map (fun k => (k, 0)) := List.mem_map.mpr ⟨p, hp, rfl⟩
  rw [noProgress, Dict.getD, Dict.get?_ofList_of_nodup _ hn p 0 hmem]
  rfl

section Pass

variable {σ : Type} (operations : Dict ℕ (List CommunicationOperation))
  (emit : ℕ → CommunicationOperation → σ → Except TransferError σ)

def emitAll (built : σ) (entries : List (ℕ × CommunicationOperation)) : Except TransferError σ :=
  entries.foldlM (fun built e => emit e.1 e.2 built) built

theorem emitAll_append (built : σ) (xs ys : List (ℕ × CommunicationOperation)) :
    emitAll emit built (xs ++ ys) = emitAll emit built xs >>= (fun built => emitAll emit built ys) :=
  List.foldlM_append

/-- The progress after one pass at position `k`. -/
def advance (k : ℕ) (ranks : List ℕ) (progress : Dict ℕ ℕ) : Dict ℕ ℕ :=
  ranks.foldl (fun d p => if k < (planned operations p).length then d.set p (k + 1) else d) progress

theorem getD_advance (k : ℕ) (ranks : List ℕ) (progress : Dict ℕ ℕ) (q : ℕ) :
    (advance operations k ranks progress).getD q 0 =
      if q ∈ ranks ∧ k < (planned operations q).length then k + 1 else progress.getD q 0 := by
  induction ranks generalizing progress with
  | nil => simp [advance]
  | cons p ranks ih =>
    have hcons : advance operations k (p :: ranks) progress = advance operations k ranks
        (if k < (planned operations p).length then progress.set p (k + 1) else progress) := rfl
    rw [hcons, ih]
    by_cases hq : q ∈ ranks ∧ k < (planned operations q).length
    · simp [hq]
    · rw [if_neg hq]
      by_cases hpq : p = q
      · subst hpq
        by_cases hk : k < (planned operations p).length <;> simp [hk, Dict.getD, Dict.get?_set]
      · have hne : ¬ (q ∈ p :: ranks ∧ k < (planned operations q).length) := by
          rintro ⟨hmem, hk⟩
          exact hq ⟨(List.mem_cons.mp hmem).resolve_left (Ne.symm hpq), hk⟩
        rw [if_neg hne]
        by_cases hk : k < (planned operations p).length <;> simp [hk, Dict.getD, Dict.get?_set, hpq]

theorem pass_eq (k : ℕ) (ranks : List ℕ) (pass : Pass σ) (hn : ranks.Nodup)
    (hk : ∀ p ∈ ranks, pass.progress.getD p 0 = k) :
    ranks.foldlM (visitRank operations emit) pass =
      emitAll emit pass.built (row ranks (planned operations) k) >>= (fun built =>
        .ok ⟨advance operations k ranks pass.progress,
          pass.finishedRanks ++ ranks.filter (fun p => (planned operations p).length ≤ k), built⟩) := by
  induction ranks generalizing pass with
  | nil => simp [emitAll, row, advance, bind, Except.bind, pure, Except.pure]
  | cons p ranks ih =>
    obtain ⟨hp, hn⟩ := List.nodup_cons.mp hn
    obtain ⟨hkp, hk⟩ := List.forall_mem_cons.mp hk
    rw [List.foldlM_cons]
    by_cases hlen : k < (planned operations p).length
    · have hget : (planned operations p)[k]? = some (planned operations p)[k] :=
        List.getElem?_eq_getElem hlen
      have hrow : row (p :: ranks) (planned operations) k =
          (p, (planned operations p)[k]) :: row ranks (planned operations) k := by
        simp [row, hget]
      have hvisit : visitRank operations emit pass p =
          emit p (planned operations p)[k] pass.built >>= (fun built =>
            .ok ⟨pass.progress.set p (k + 1), pass.finishedRanks, built⟩) := by
        simp only [visitRank, hkp]
        rw [← planned, hget]
      rw [hvisit, hrow, emitAll, List.foldlM_cons, bind_assoc, bind_assoc]
      congr 1
      funext built
      have hadvance : advance operations k (p :: ranks) pass.progress =
          advance operations k ranks (pass.progress.set p (k + 1)) := by
        simp [advance, hlen]
      have hfin : (p :: ranks).filter (fun p => (planned operations p).length ≤ k) =
          ranks.filter (fun p => (planned operations p).length ≤ k) := by
        rw [List.filter_cons_of_neg (by simpa using hlen)]
      rw [hadvance, hfin]
      refine ih ⟨pass.progress.set p (k + 1), pass.finishedRanks, built⟩ hn (fun q hq => ?_)
      have hpq : p ≠ q := fun h => hp (h ▸ hq)
      simpa [Dict.getD, Dict.get?_set, hpq] using hk q hq
    · have hget : (planned operations p)[k]? = none := List.getElem?_eq_none (by omega)
      have hrow : row (p :: ranks) (planned operations) k = row ranks (planned operations) k := by
        simp [row, hget]
      have hvisit : visitRank operations emit pass p =
          .ok { pass with finishedRanks := pass.finishedRanks ++ [p] } := by
        simp only [visitRank, hkp]
        rw [← planned, hget]
      have hadvance : advance operations k (p :: ranks) pass.progress =
          advance operations k ranks pass.progress := by
        simp [advance, hlen]
      have hfin : (p :: ranks).filter (fun p => (planned operations p).length ≤ k) =
          p :: ranks.filter (fun p => (planned operations p).length ≤ k) :=
        List.filter_cons_of_pos (by simpa using hlen)
      rw [hvisit, hrow, hadvance, hfin]
      have ih' := ih { pass with finishedRanks := pass.finishedRanks ++ [p] } hn hk
      simp only [List.append_assoc, List.singleton_append] at ih'
      exact ih'

theorem length_le_maxLength (p : ℕ) : (planned operations p).length ≤ maxLength operations := by
  cases hp : operations.get? p with
  | none => simp [planned, Dict.getD, hp]
  | some ops =>
    rw [planned, Dict.getD, hp, Option.getD_some]
    refine le_foldr_max (List.mem_map.mpr ⟨ops, List.mem_map.mpr ⟨(p, ops), ?_, rfl⟩, rfl⟩)
    exact (Dict.get?_eq_some operations p ops).mp hp

theorem buildPasses_eq (fuel k : ℕ) (progress : Dict ℕ ℕ) (unfinished : List ℕ) (built : σ)
    (hfuel : maxLength operations + 2 ≤ fuel + k) (hk : k ≤ maxLength operations + 1)
    (hn : unfinished.Nodup)
    (hmem : ∀ q, q ∈ unfinished ↔ q ∈ operations.keys ∧ k ≤ (planned operations q).length)
    (hprogress : ∀ q ∈ unfinished, progress.getD q 0 = k) :
    buildPasses operations emit fuel progress unfinished built = emitAll emit built
      ((List.range' k (maxLength operations + 1 - k)).flatMap
        (row (sortedKeys operations.keys) (planned operations))) := by
  induction fuel generalizing k progress unfinished built with
  | zero => omega
  | succ fuel ih =>
    rw [buildPasses]
    have hlater : ∀ j ≥ k, ∀ q ∈ sortedKeys operations.keys, ¬ k ≤ (planned operations q).length →
        (planned operations q).length ≤ j := fun j hj q _ hq => by omega
    by_cases hnil : unfinished = []
    · rw [if_pos hnil]
      have hrows : (List.range' k (maxLength operations + 1 - k)).flatMap
          (row (sortedKeys operations.keys) (planned operations)) = [] := by
        apply List.flatMap_eq_nil_iff.mpr
        intro j hj
        apply row_eq_nil
        intro q hq
        have hqk := (hmem q).not.mp (by simp [hnil])
        have hkey := (mem_sortedKeys _ q).mp hq
        have hj' := (List.mem_range'_1.mp hj).1
        by_contra hlt
        exact hqk ⟨hkey, by omega⟩
      rw [hrows]
      rfl
    · rw [if_neg hnil]
      obtain ⟨q, hq⟩ := List.exists_mem_of_ne_nil _ hnil
      have hkmax := ((hmem q).mp hq).2.trans (length_le_maxLength operations q)
      have hsort := sortedKeys_filter operations.keys unfinished
        (fun q => k ≤ (planned operations q).length) operations.nodup hn hmem
      have hpass := pass_eq operations emit k (sortedKeys unfinished) ⟨progress, [], built⟩
        (sortedKeys_nodup hn) (fun q hq => hprogress q ((mem_sortedKeys _ q).mp hq))
      have hrow : row (sortedKeys unfinished) (planned operations) k =
          row (sortedKeys operations.keys) (planned operations) k := by
        rw [hsort]
        exact row_filter _ _ _ _ (hlater k le_rfl)
      rw [hrow] at hpass
      have hrange : List.range' k (maxLength operations + 1 - k) =
          k :: List.range' (k + 1) (maxLength operations + 1 - (k + 1)) := by
        rw [show maxLength operations + 1 - k = (maxLength operations + 1 - (k + 1)) + 1 by omega,
          List.range'_succ]
      rw [← sortedKeys, hpass, hrange, List.flatMap_cons, emitAll_append, bind_assoc]
      congr 1
      funext built'
      have hfin : ∀ q, q ∈ (sortedKeys unfinished).filter (fun p => (planned operations p).length ≤ k) ↔
          q ∈ unfinished ∧ (planned operations q).length ≤ k := by
        intro q
        rw [List.mem_filter, mem_sortedKeys, decide_eq_true_eq]
      have hleft : ∀ q, q ∈ unfinished.filter (· ∉ [] ++ (sortedKeys unfinished).filter
          (fun p => (planned operations p).length ≤ k)) ↔
          q ∈ operations.keys ∧ k + 1 ≤ (planned operations q).length := by
        intro q
        rw [List.nil_append, List.mem_filter, decide_eq_true_eq, hfin, hmem]
        constructor
        · rintro ⟨⟨hkey, hle⟩, hnot⟩
          exact ⟨hkey, by by_contra hlt; exact hnot ⟨⟨hkey, hle⟩, by omega⟩⟩
        · rintro ⟨hkey, hle⟩
          exact ⟨⟨hkey, by omega⟩, fun hnot => by omega⟩
      refine ih (k + 1) _ _ built' (by omega) (by omega) (hn.filter _) hleft (fun q hq => ?_)
      have hqk := (hleft q).mp hq
      have hvisited : q ∈ sortedKeys unfinished := by
        rw [mem_sortedKeys, hmem]
        exact ⟨hqk.1, by omega⟩
      rw [getD_advance, if_pos ⟨hvisited, hqk.2⟩]

def visited : List (ℕ × CommunicationOperation) :=
  weave (sortedKeys operations.keys) (planned operations) (maxLength operations + 1)

theorem buildLoop_eq (built : σ) :
    buildLoop operations emit built = emitAll emit built (visited operations) := by
  have hpasses := buildPasses_eq operations emit (maxLength operations + 2) 0
    (noProgress operations.keys) operations.keys built (by omega) (by omega) operations.nodup
    (by simp) (fun q hq => getD_noProgress _ q operations.nodup hq)
  rw [buildLoop, hpasses, visited, weave, List.range_eq_range', Nat.sub_zero]

theorem planned_of_not_mem {operations : Dict ℕ (List CommunicationOperation)} {p : ℕ}
    (h : p ∉ operations.keys) : planned operations p = [] := by
  have hget : operations.get? p = none := by
    rwa [Dict.mem_keys, Option.not_isSome_iff_eq_none] at h
  simp [planned, Dict.getD, hget]

theorem filter_visited (p : ℕ) :
    (visited operations).filter (fun e => e.1 = p) = (planned operations p).map (fun op => (p, op)) := by
  by_cases hp : p ∈ operations.keys
  · exact filter_weave _ _ _ p (sortedKeys_nodup operations.nodup) ((mem_sortedKeys _ p).mpr hp)
      ((length_le_maxLength operations p).trans (Nat.le_succ _))
  · rw [planned_of_not_mem hp, visited]
    exact filter_weave_not_mem _ _ _ p (fun h => hp ((mem_sortedKeys _ p).mp h))

end Pass

theorem emitAll_induction {σ : Type} {emit : ℕ → CommunicationOperation → σ → Except TransferError σ}
    (P : List (ℕ × CommunicationOperation) → σ → Prop) {built built' : σ}
    {entries : List (ℕ × CommunicationOperation)} (h : emitAll emit built entries = .ok built')
    (hinit : P [] built)
    (hstep : ∀ done e s s', P done s → emit e.1 e.2 s = .ok s' → P (done ++ [e]) s') :
    P entries built' :=
  Except.foldlM_induction P h hinit (fun done e s s' _ => hstep done e s s')

theorem emitAll_exists {σ : Type} (emit : ℕ → CommunicationOperation → σ → Except TransferError σ)
    (P : List (ℕ × CommunicationOperation) → σ → Prop) (built : σ)
    (entries : List (ℕ × CommunicationOperation)) (hinit : P [] built)
    (hstep : ∀ done e s, e ∈ entries → P done s → ∃ s', emit e.1 e.2 s = .ok s' ∧ P (done ++ [e]) s') :
    ∃ built', emitAll emit built entries = .ok built' ∧ P entries built' :=
  Except.foldlM_exists P built entries hinit
    (fun done e _ s hsplit hs => hstep done e s (by simp [hsplit]) hs)

variable {α : Type}

theorem lookup_eq_ok {parameters : Dict String Parameter} {name : String} {p : Parameter} :
    lookup parameters name = .ok p ↔ parameters.get? name = some p := by
  unfold lookup
  split <;> simp_all

theorem sliceTensor_infer (tensor : Tensor) (op : CommunicationOperation) (w : Workspace α) :
    sliceTensor tensor op false w = (tensor.index op.infSlices).map (fun t => (t, w)) := by
  simp only [sliceTensor, Bool.false_eq_true, ↓reduceIte, not_false_eq_true, true_or]
  cases tensor.index op.infSlices <;> rfl

theorem emitSend_eq_ok {parameters : Dict String Parameter} {useBatch : Bool} {rank : ℕ}
    {op : CommunicationOperation} {s s' : SendOps α} :
    emitSend parameters (-1) useBatch rank op s = .ok s' ↔
      ∃ p tensor w, parameters.get? op.sendShardMeta.name = some p ∧
        sliceTensor p.training op true s.workspace = .ok (tensor, w) ∧
        s' = ⟨w, s.p2pOpList ++ [⟨.send, tensor, rank⟩], s.copyOpList,
          if useBatch then s.sendTrajList else s.sendTrajList ++ [(op.sendShardMeta.name, rank)]⟩ := by
  have hrank : ¬ ((rank : ℤ) = -1) := by omega
  simp only [emitSend, Except.bind_eq_ok, lookup_eq_ok, hrank, ↓reduceIte, Except.ok.injEq, Prod.exists,
    eq_comm (a := s')]
  constructor
  · rintro ⟨p, hp, tensor, w, hslice, hs⟩
    exact ⟨p, tensor, w, hp, hslice, hs⟩
  · rintro ⟨p, tensor, w, hp, hslice, hs⟩
    exact ⟨p, hp, tensor, w, hslice, hs⟩

def recvTarget (useBatch : Bool) (sliced : Tensor) (m : Memory α) : Tensor × Memory α :=
  if useBatch then m.contiguous sliced else (sliced, m)

def stagedPair (useBatch : Bool) (sliced : Tensor) (m : Memory α) : List (Tensor × Tensor) :=
  if ¬ sliced.IsContiguous ∧ useBatch then [(sliced, (m.contiguous sliced).1)] else []

theorem emitRecv_eq_ok {parameters : Dict String Parameter} {useBatch : Bool} {rank : ℕ}
    {op : CommunicationOperation} {s s' : RecvOps α} :
    emitRecv parameters useBatch rank op s = .ok s' ↔
      ∃ p sliced, parameters.get? op.recvShardMeta.name = some p ∧
        p.inference.index op.infSlices = .ok sliced ∧
        s' = ⟨(recvTarget useBatch sliced s.memory).2,
          s.p2pOpList ++ [⟨.recv, (recvTarget useBatch sliced s.memory).1, rank⟩],
          s.nonContiguousTensorPairs ++ stagedPair useBatch sliced s.memory,
          if useBatch then s.recvTrajList else s.recvTrajList ++ [(op.recvShardMeta.name, rank)]⟩ := by
  have hemit : emitRecv parameters useBatch rank op s = (lookup parameters op.recvShardMeta.name >>=
      fun p => p.inference.index op.infSlices >>= fun sliced =>
        .ok ⟨(recvTarget useBatch sliced s.memory).2,
          s.p2pOpList ++ [⟨.recv, (recvTarget useBatch sliced s.memory).1, rank⟩],
          s.nonContiguousTensorPairs ++ stagedPair useBatch sliced s.memory,
          if useBatch then s.recvTrajList else s.recvTrajList ++ [(op.recvShardMeta.name, rank)]⟩) := by
    unfold emitRecv
    congr 1
    funext p
    rw [sliceTensor_infer]
    cases p.inference.index op.infSlices with
    | error e => rfl
    | ok sliced =>
      by_cases hc : sliced.IsContiguous <;> cases useBatch <;>
        simp [bind, Except.bind, Except.map, recvTarget, stagedPair, Memory.contiguous, hc]
  simp only [hemit, Except.bind_eq_ok, lookup_eq_ok, Except.ok.injEq, eq_comm (a := s')]
  constructor
  · rintro ⟨p, hp, sliced, hslice, hs⟩
    exact ⟨p, sliced, hp, hslice, hs⟩
  · rintro ⟨p, sliced, hp, hslice, hs⟩
    exact ⟨p, hp, sliced, hslice, hs⟩

end Awex
