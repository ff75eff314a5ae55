import Awex.Library.Channels

namespace Awex.Channels

open Rendezvous Schedules

variable {κ ο σ μ : Type} [DecidableEq κ] (ops : Operations κ ο σ μ)

def sentTo (pairs : List (ο × μ)) (r : κ) : List μ :=
  (pairs.filter fun p => ops.action p.1 = .send r).map Prod.snd

def takenFrom (pairs : List (ο × μ)) (s : κ) : List μ :=
  (pairs.filter fun p => ops.action p.1 = .recv s).map Prod.snd

def receiveEach (st : σ) (pairs : List (ο × μ)) : Option σ :=
  pairs.foldlM (fun st p => ops.receive st p.1 p.2) st

variable {ops}

theorem sentTo_cons {op : ο} {r : κ} (haction : ops.action op = .send r) (msg : μ) (pairs : List (ο × μ)) (r' : κ) :
    sentTo ops ((op, msg) :: pairs) r' = if r' = r then msg :: sentTo ops pairs r' else sentTo ops pairs r' := by
  unfold sentTo
  rw [List.filter_cons]
  by_cases hr : r' = r
  · simp [haction, hr]
  · simp [haction, hr, Ne.symm hr]

theorem takenFrom_cons {op : ο} {s : κ} (haction : ops.action op = .recv s) (msg : μ) (pairs : List (ο × μ)) (s' : κ) :
    takenFrom ops ((op, msg) :: pairs) s' =
      if s' = s then msg :: takenFrom ops pairs s' else takenFrom ops pairs s' := by
  unfold takenFrom
  rw [List.filter_cons]
  by_cases hs : s' = s
  · simp [haction, hs]
  · simp [haction, hs, Ne.symm hs]

theorem run_sends {n : Net κ ο σ μ} {a : κ} {pairs : List (ο × μ)} (hremaining : n.remaining a = pairs.map Prod.fst)
    (hsends : ∀ p ∈ pairs, (∃ r, ops.action p.1 = .send r) ∧ ops.message (n.state a) p.1 = some p.2) :
    ∃ schedule n', run (fire ops) n schedule = some n' ∧ n'.remaining = Function.update n.remaining a [] ∧
      n'.state = n.state ∧ ∀ s r, n'.queue s r = n.queue s r ++ if s = a then sentTo ops pairs r else [] := by
  induction pairs generalizing n with
  | nil =>
    refine ⟨[], n, rfl, ?_, rfl, fun s r => ?_⟩
    · exact (Function.update_eq_self_iff.mpr hremaining.symm).symm
    · simp [sentTo]
  | cons p pairs ih =>
    obtain ⟨op, msg⟩ := p
    obtain ⟨⟨r, haction⟩, hmessage⟩ := hsends _ List.mem_cons_self
    have hfires : Fires ops n a (n.sent a r (pairs.map Prod.fst) msg) := .send op _ r msg hremaining haction hmessage
    obtain ⟨schedule, n', hrun, hremaining', hstate', hqueue'⟩ := ih (n := n.sent a r (pairs.map Prod.fst) msg)
      (Function.update_self _ _ _) fun p hp => hsends p (List.mem_cons_of_mem _ hp)
    refine ⟨a :: schedule, n', run_cons_eq_some.mpr ⟨_, (fire_eq_some ops).mpr hfires, hrun⟩, ?_, hstate', ?_⟩
    · rw [hremaining']
      exact Function.update_idem _ _ _
    · intro s r'
      rw [hqueue', sentTo_cons haction, n.sent_queue_apply]
      by_cases hs : s = a
      · subst hs
        by_cases hr : r' = r
        · subst hr
          simp
        · simp [hr]
      · simp [hs]

theorem run_recvs {n : Net κ ο σ μ} {a : κ} {pairs : List (ο × μ)} {final : σ}
    (hremaining : n.remaining a = pairs.map Prod.fst) (hrecvs : ∀ p ∈ pairs, ∃ s, ops.action p.1 = .recv s)
    (hqueue : ∀ s, n.queue s a = takenFrom ops pairs s) (hfinal : receiveEach ops (n.state a) pairs = some final) :
    ∃ schedule n', run (fire ops) n schedule = some n' ∧ n'.remaining = Function.update n.remaining a [] ∧
      n'.state = Function.update n.state a final ∧ ∀ s r, n'.queue s r = if r = a then [] else n.queue s r := by
  induction pairs generalizing n with
  | nil =>
    obtain rfl := Option.some.inj hfinal
    refine ⟨[], n, rfl, ?_, ?_, fun s r => ?_⟩
    · exact (Function.update_eq_self_iff.mpr hremaining.symm).symm
    · exact (Function.update_eq_self a n.state).symm
    · split_ifs with hr
      · subst hr
        exact hqueue s
      · rfl
  | cons p pairs ih =>
    obtain ⟨op, msg⟩ := p
    obtain ⟨s, haction⟩ := hrecvs _ List.mem_cons_self
    obtain ⟨st, hreceive, hrest⟩ : ∃ st, ops.receive (n.state a) op msg = some st ∧
        receiveEach ops st pairs = some final := Option.bind_eq_some_iff.mp hfinal
    have hhead : n.queue s a = msg :: takenFrom ops pairs s := by
      rw [hqueue, takenFrom_cons haction, if_pos rfl]
    have hstate : (n.received s a (pairs.map Prod.fst) (takenFrom ops pairs s) st).state a = st := by
      simp [Net.received]
    have hfires : Fires ops n a (n.received s a (pairs.map Prod.fst) (takenFrom ops pairs s) st) :=
      .recv op _ s msg _ st hremaining haction hhead hreceive
    obtain ⟨schedule, n', hrun, hremaining', hstate', hqueue'⟩ := ih
      (n := n.received s a (pairs.map Prod.fst) (takenFrom ops pairs s) st) (Function.update_self _ _ _)
      (fun p hp => hrecvs p (List.mem_cons_of_mem _ hp)) (fun s' => by
        rw [n.received_queue_apply]
        by_cases hs : s' = s
        · subst hs
          exact if_pos ⟨rfl, rfl⟩
        · rw [if_neg fun h => hs h.1, hqueue, takenFrom_cons haction, if_neg hs])
      (by rwa [hstate])
    refine ⟨a :: schedule, n', run_cons_eq_some.mpr ⟨_, (fire_eq_some ops).mpr hfires, hrun⟩, ?_, ?_, ?_⟩
    · rw [hremaining']
      exact Function.update_idem _ _ _
    · rw [hstate']
      exact Function.update_idem _ _ _
    · intro s' r
      rw [hqueue']
      split_ifs with hr
      · rfl
      · rw [n.received_queue_apply]
        exact if_neg fun h => hr h.2

/-- Every process only sends or only receives, and the messages for a receiver are those that it takes. -/
structure OneSided (ops : Operations κ ο σ μ) (n : Net κ ο σ μ) (senders receivers : List κ)
    (pairs : κ → List (ο × μ)) (final : κ → σ) : Prop where
  remaining : ∀ a, n.remaining a = (pairs a).map Prod.fst
  queue : ∀ s r, n.queue s r = []
  sends : ∀ a ∈ senders, ∀ p ∈ pairs a, (∃ r ∈ receivers, ops.action p.1 = .send r) ∧
    ops.message (n.state a) p.1 = some p.2
  recvs : ∀ a ∈ receivers, ∀ p ∈ pairs a, ∃ s ∈ senders, ops.action p.1 = .recv s
  none : ∀ a, a ∉ senders → a ∉ receivers → pairs a = []
  matched : ∀ s ∈ senders, ∀ r ∈ receivers, sentTo ops (pairs s) r = takenFrom ops (pairs r) s
  final : ∀ a ∈ receivers, receiveEach ops (n.state a) (pairs a) = some (final a)

section OneSided

variable {n : Net κ ο σ μ} {senders receivers : List κ} {pairs : κ → List (ο × μ)} {final : κ → σ}
  (h : OneSided ops n senders receivers pairs final)

include h

theorem OneSided.run_senders (as : List κ) (has : as ⊆ senders) :
    ∃ schedule n', run (fire ops) n schedule = some n' ∧
      (∀ a, n'.remaining a = if a ∈ as then [] else n.remaining a) ∧ n'.state = n.state ∧
      ∀ s r, n'.queue s r = if s ∈ as then sentTo ops (pairs s) r else [] := by
  induction as with
  | nil => exact ⟨[], n, rfl, fun _ => rfl, rfl, h.queue⟩
  | cons a as ih =>
    obtain ⟨ha, has⟩ := List.cons_subset.mp has
    obtain ⟨schedule, n₁, hrun, hremaining, hstate, hqueue⟩ := ih has
    by_cases hmem : a ∈ as
    · refine ⟨schedule, n₁, hrun, fun b => ?_, hstate, fun s r => ?_⟩
      · rw [hremaining]
        by_cases hb : b = a <;> simp [hb, hmem]
      · rw [hqueue]
        by_cases hs : s = a <;> simp [hs, hmem]
    · have hpairs : n₁.remaining a = (pairs a).map Prod.fst := by rw [hremaining, if_neg hmem, h.remaining]
      have hsends : ∀ p ∈ pairs a, (∃ r, ops.action p.1 = .send r) ∧ ops.message (n₁.state a) p.1 = some p.2 := by
        intro p hp
        obtain ⟨⟨r, -, haction⟩, hmessage⟩ := h.sends a ha p hp
        exact ⟨⟨r, haction⟩, hstate ▸ hmessage⟩
      obtain ⟨schedule', n₂, hrun', hremaining', hstate', hqueue'⟩ := run_sends hpairs hsends
      refine ⟨schedule ++ schedule', n₂, (run_append hrun).trans hrun', fun b => ?_, hstate'.trans hstate,
        fun s r => ?_⟩
      · rw [hremaining']
        by_cases hb : b = a
        · simp [hb]
        · simp [hb, hremaining]
      · rw [hqueue', hqueue]
        by_cases hs : s = a
        · simp [hs, hmem]
        · simp [hs]

theorem OneSided.run_receivers (hapart : ∀ a ∈ senders, a ∉ receivers) {n₁ : Net κ ο σ μ}
    (hremaining : ∀ a, n₁.remaining a = if a ∈ senders then [] else n.remaining a) (hstate : n₁.state = n.state)
    (hqueue : ∀ s r, n₁.queue s r = if s ∈ senders then sentTo ops (pairs s) r else []) (as : List κ)
    (has : as ⊆ receivers) : ∃ schedule n', run (fire ops) n₁ schedule = some n' ∧
      (∀ a, n'.remaining a = if a ∈ as then [] else n₁.remaining a) ∧
      (∀ a, n'.state a = if a ∈ as then final a else n.state a) ∧
      ∀ s r, n'.queue s r = if r ∈ as then [] else n₁.queue s r := by
  induction as with
  | nil => exact ⟨[], n₁, rfl, fun _ => rfl, fun a => congrFun hstate a, fun _ _ => rfl⟩
  | cons a as ih =>
    obtain ⟨ha, has⟩ := List.cons_subset.mp has
    obtain ⟨schedule, n₂, hrun, hremaining₂, hstate₂, hqueue₂⟩ := ih has
    by_cases hmem : a ∈ as
    · refine ⟨schedule, n₂, hrun, fun b => ?_, fun b => ?_, fun s r => ?_⟩
      · rw [hremaining₂]
        by_cases hb : b = a <;> simp [hb, hmem]
      · rw [hstate₂]
        by_cases hb : b = a <;> simp [hb, hmem]
      · rw [hqueue₂]
        by_cases hr : r = a <;> simp [hr, hmem]
    · have hnot : a ∉ senders := fun hs => hapart a hs ha
      have hpairs : n₂.remaining a = (pairs a).map Prod.fst := by
        rw [hremaining₂, if_neg hmem, hremaining, if_neg hnot, h.remaining]
      have hrecvs : ∀ p ∈ pairs a, ∃ s, ops.action p.1 = .recv s := by
        intro p hp
        obtain ⟨s, -, haction⟩ := h.recvs a ha p hp
        exact ⟨s, haction⟩
      have hqueued : ∀ s, n₂.queue s a = takenFrom ops (pairs a) s := by
        intro s
        rw [hqueue₂, if_neg hmem, hqueue]
        split_ifs with hs
        · exact h.matched s hs a ha
        · symm
          apply List.map_eq_nil_iff.mpr
          apply List.filter_eq_nil_iff.mpr
          intro p hp htaken
          obtain ⟨s', hs', haction⟩ := h.recvs a ha p hp
          obtain rfl := Action.recv.inj (haction.symm.trans (of_decide_eq_true htaken))
          exact hs hs'
      have hfinal : receiveEach ops (n₂.state a) (pairs a) = some (final a) := by
        rw [hstate₂, if_neg hmem]
        exact h.final a ha
      obtain ⟨schedule', n₃, hrun', hremaining', hstate', hqueue'⟩ := run_recvs hpairs hrecvs hqueued hfinal
      refine ⟨schedule ++ schedule', n₃, (run_append hrun).trans hrun', fun b => ?_, fun b => ?_, fun s r => ?_⟩
      · rw [hremaining']
        by_cases hb : b = a
        · simp [hb]
        · simp [hb, hremaining₂]
      · rw [hstate']
        by_cases hb : b = a
        · simp [hb]
        · simp [hb, hstate₂]
      · rw [hqueue', hqueue₂]
        by_cases hr : r = a <;> simp [hr]

/-- The senders first, then the receivers. -/
theorem OneSided.finishes (hapart : ∀ a ∈ senders, a ∉ receivers) :
    ∃ schedule m, run (fire ops) n schedule = some m ∧ m.Finished ∧
      (∀ a, m.state a = if a ∈ receivers then final a else n.state a) ∧ ∀ s r, m.queue s r = [] := by
  obtain ⟨schedule₁, n₁, hrun₁, hremaining₁, hstate₁, hqueue₁⟩ := h.run_senders senders (List.Subset.refl _)
  obtain ⟨schedule₂, m, hrun₂, hremaining₂, hstate₂, hqueue₂⟩ := h.run_receivers hapart hremaining₁ hstate₁ hqueue₁
    receivers (List.Subset.refl _)
  refine ⟨schedule₁ ++ schedule₂, m, (run_append hrun₁).trans hrun₂, fun a => ?_, hstate₂, fun s r => ?_⟩
  · rw [hremaining₂, hremaining₁, h.remaining]
    split_ifs with hr hs
    · rfl
    · rfl
    · rw [h.none a hs hr]
      rfl
  · rw [hqueue₂, hqueue₁]
    split_ifs with hr hs
    · rfl
    · apply List.map_eq_nil_iff.mpr
      apply List.filter_eq_nil_iff.mpr
      intro p hp hsent
      obtain ⟨⟨r', hr', haction⟩, -⟩ := h.sends s hs p hp
      obtain rfl := Action.send.inj (haction.symm.trans (of_decide_eq_true hsent))
      exact hr hr'
    · rfl

end OneSided

end Awex.Channels
