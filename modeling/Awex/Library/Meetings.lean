import Awex.Library.Channels

namespace Awex.Channels

open Rendezvous Schedules

variable {κ ο σ μ : Type} [DecidableEq κ]

/-- The action that the event "`e.1.1` sends to `e.1.2`" leaves for process `a`; `e.2` says whether
the message is already on its way. -/
def leaves (a : κ) (e : (κ × κ) × Bool) : Option (Action κ) :=
  if e.1.1 = a then if e.2 then none else some (.send e.1.2)
  else if e.1.2 = a then some (.recv e.1.1) else none

theorem leaves_sender (s r : κ) (sent : Bool) :
    leaves s ((s, r), sent) = if sent then none else some (.send r) := by
  simp [leaves]

theorem leaves_receiver {s r : κ} (sent : Bool) (h : s ≠ r) : leaves r ((s, r), sent) = some (.recv s) := by
  simp [leaves, h]

theorem leaves_of_ne {a : κ} {e : κ × κ} (sent sent' : Bool) (h : e.1 ≠ a) :
    leaves a (e, sent) = leaves a (e, sent') := by
  simp [leaves, h]

theorem leaves_eq_send {a r : κ} {e : (κ × κ) × Bool} (h : leaves a e = some (.send r)) : e = ((a, r), false) := by
  obtain ⟨⟨x, y⟩, sent⟩ := e
  unfold leaves at h
  split_ifs at h with hx hs hy
  · simp only [Option.some.injEq, Action.send.injEq] at h
    simp_all
  · simp at h

theorem leaves_eq_recv {a s : κ} {e : (κ × κ) × Bool} (h : leaves a e = some (.recv s)) : e.1 = (s, a) := by
  obtain ⟨⟨x, y⟩, sent⟩ := e
  unfold leaves at h
  split_ifs at h with hx hs hy
  · simp at h
  · simp only [Option.some.injEq, Action.recv.injEq] at h
    exact Prod.ext h hy

/-- The operations that are left, in one common order. `left` has an entry for every message that has
not been received yet. -/
structure Follows (ops : Operations κ ο σ μ) (n : Net κ ο σ μ) (left : List ((κ × κ) × Bool)) : Prop where
  actions : ∀ a, (n.remaining a).map ops.action = left.filterMap (leaves a)
  waiting : ∀ s r, (n.queue s r).length = left.countP (· = ((s, r), true))
  in_order : left.Pairwise (fun e e' => e.1 = e'.1 → e'.2 = true → e.2 = true)
  apart : ∀ e ∈ left, e.1.1 ≠ e.1.2

variable {ops : Operations κ ο σ μ} {n n' : Net κ ο σ μ} {left : List ((κ × κ) × Bool)}

theorem Follows.next (h : Follows ops n left) {a : κ} {op : ο} {rest : List ο} (hnext : n.remaining a = op :: rest) :
    ∃ before e after, left = before ++ e :: after ∧ (∀ e' ∈ before, leaves a e' = none) ∧
      leaves a e = some (ops.action op) ∧ after.filterMap (leaves a) = rest.map ops.action := by
  have hactions := h.actions a
  rw [hnext, List.map_cons, eq_comm, List.filterMap_eq_cons_iff] at hactions
  exact hactions

theorem Follows.send (h : Follows ops n left) {a r : κ} {op : ο} {rest : List ο} {msg : μ}
    (hnext : n.remaining a = op :: rest) (haction : ops.action op = .send r) :
    ∃ left', Follows ops (n.sent a r rest msg) left' := by
  obtain ⟨before, e, after, rfl, hbefore, he, hafter⟩ := h.next hnext
  rw [haction] at he
  obtain rfl := leaves_eq_send he
  refine ⟨before ++ ((a, r), true) :: after, ?_, ?_, ?_, ?_⟩
  · intro b
    rw [List.filterMap_append, List.filterMap_cons]
    by_cases hb : b = a
    · subst hb
      rw [leaves_sender, List.filterMap_eq_nil_iff.mpr hbefore, hafter]
      simp [Net.sent]
    · have hactions := h.actions b
      rw [List.filterMap_append, List.filterMap_cons, leaves_of_ne (e := (a, r)) false true (Ne.symm hb)] at hactions
      rw [← hactions]
      simp [Net.sent, hb]
  · intro x y
    have hwaiting := h.waiting x y
    rw [List.countP_append, List.countP_cons] at hwaiting ⊢
    simp only [Net.sent, Net.setQueue_apply]
    by_cases hxy : x = a ∧ y = r
    · obtain ⟨rfl, rfl⟩ := hxy
      simp at hwaiting ⊢
      omega
    · rw [if_neg hxy, hwaiting]
      have hne : ¬ ((a, r) = (x, y)) := fun heq => hxy ⟨(Prod.mk.inj heq).1.symm, (Prod.mk.inj heq).2.symm⟩
      simp [hne]
  · obtain ⟨hfirst, hrest, hcross⟩ := List.pairwise_append.mp h.in_order
    obtain ⟨-, hafter'⟩ := List.pairwise_cons.mp hrest
    refine List.pairwise_append.mpr ⟨hfirst, List.pairwise_cons.mpr ⟨fun _ _ _ _ => rfl, hafter'⟩, ?_⟩
    intro e he e' he' heq hsent
    rcases List.mem_cons.mp he' with rfl | he'
    · have hnone := hbefore e he
      obtain ⟨p, sent⟩ := e
      obtain rfl : p = (a, r) := heq
      rw [leaves_sender] at hnone
      by_contra hunsent
      simp [hunsent] at hnone
    · exact hcross e he e' (List.mem_cons_of_mem _ he') heq hsent
  · intro e he
    rcases List.mem_append.mp he with he | he
    · exact h.apart e (List.mem_append_left _ he)
    · rcases List.mem_cons.mp he with rfl | he
      · exact h.apart ((a, r), false) (List.mem_append_right _ List.mem_cons_self)
      · exact h.apart e (List.mem_append_right _ (List.mem_cons_of_mem _ he))

theorem Follows.exists_sent (h : Follows ops n left) {s r : κ} (hqueue : n.queue s r ≠ []) : ((s, r), true) ∈ left := by
  have hpos : 0 < left.countP (· = ((s, r), true)) := by
    rw [← h.waiting s r]
    exact List.length_pos_of_ne_nil hqueue
  obtain ⟨e, he, heq⟩ := List.countP_pos_iff.mp hpos
  rwa [of_decide_eq_true heq] at he

theorem Follows.recv (h : Follows ops n left) {a s : κ} {op : ο} {rest : List ο} {msg : μ} {msgs : List μ} {st : σ}
    (hnext : n.remaining a = op :: rest) (haction : ops.action op = .recv s) (hqueue : n.queue s a = msg :: msgs) :
    ∃ left', Follows ops (n.received s a rest msgs st) left' := by
  obtain ⟨before, e, after, rfl, hbefore, he, hafter⟩ := h.next hnext
  rw [haction] at he
  obtain ⟨p, sent⟩ := e
  obtain rfl : p = (s, a) := leaves_eq_recv he
  have hsa : s ≠ a := h.apart ((s, a), sent) (List.mem_append_right _ List.mem_cons_self)
  obtain ⟨hfirst, hrest, hcross⟩ := List.pairwise_append.mp h.in_order
  obtain ⟨hnewer, hafter'⟩ := List.pairwise_cons.mp hrest
  -- the oldest entry of the pair is the one whose message is at the head of the queue
  obtain rfl : sent = true := by
    have hmem := h.exists_sent (hqueue ▸ List.cons_ne_nil msg msgs)
    rcases List.mem_append.mp hmem with hmem | hmem
    · have hnone := hbefore _ hmem
      rw [leaves_receiver true hsa] at hnone
      exact absurd hnone (Option.some_ne_none _)
    · rcases List.mem_cons.mp hmem with heq | hmem
      · exact (Prod.mk.inj heq).2.symm
      · exact hnewer _ hmem rfl rfl
  refine ⟨before ++ after, ?_, ?_, ?_, ?_⟩
  · intro b
    rw [List.filterMap_append]
    by_cases hb : b = a
    · subst hb
      rw [List.filterMap_eq_nil_iff.mpr hbefore, hafter]
      simp [Net.received]
    · have hactions := h.actions b
      have hnone : leaves b ((s, a), true) = none := by simp [leaves, Ne.symm hb]
      rw [List.filterMap_append, List.filterMap_cons, hnone] at hactions
      rw [← hactions]
      simp [Net.received, hb]
  · intro x y
    have hwaiting := h.waiting x y
    rw [List.countP_append, List.countP_cons] at hwaiting
    rw [List.countP_append]
    simp only [Net.received, Net.setQueue_apply]
    by_cases hxy : x = s ∧ y = a
    · obtain ⟨rfl, rfl⟩ := hxy
      rw [hqueue] at hwaiting
      simp at hwaiting ⊢
      omega
    · have hne : ¬ ((s, a) = (x, y)) := fun heq => hxy ⟨(Prod.mk.inj heq).1.symm, (Prod.mk.inj heq).2.symm⟩
      rw [if_neg hxy, hwaiting]
      simp [hne]
  · exact List.pairwise_append.mpr ⟨hfirst, hafter', fun e he e' he' => hcross e he e' (List.mem_cons_of_mem _ he')⟩
  · intro e he
    apply h.apart
    rcases List.mem_append.mp he with he | he
    · exact List.mem_append_left _ he
    · exact List.mem_append_right _ (List.mem_cons_of_mem _ he)

theorem Follows.fires (h : Follows ops n left) {a : κ} (hfires : Fires ops n a n') : ∃ left', Follows ops n' left' := by
  cases hfires with
  | send op rest r msg hnext haction hmessage => exact h.send hnext haction
  | recv op rest s msg msgs st hnext haction hqueue hreceive => exact h.recv hnext haction hqueue

theorem Follows.start {events : List (κ × κ)} (hactions : ∀ a, (n.remaining a).map ops.action = project events a)
    (hqueue : ∀ s r, n.queue s r = []) (hapart : ∀ e ∈ events, e.1 ≠ e.2) :
    Follows ops n (events.map fun e => (e, false)) := by
  refine ⟨?_, ?_, ?_, ?_⟩
  · intro a
    rw [hactions, List.filterMap_map]
    rfl
  · intro s r
    rw [hqueue, List.length_nil, eq_comm, List.countP_eq_zero]
    intro e he
    obtain ⟨e', -, rfl⟩ := List.mem_map.mp he
    simp
  · rw [List.pairwise_map]
    exact List.pairwise_of_forall fun _ _ => by simp
  · intro e he
    obtain ⟨e', he', rfl⟩ := List.mem_map.mp he
    exact hapart e' he'

/-- A message that has come in is taken by the process that it is for. -/
def Takes (ops : Operations κ ο σ μ) (n n' : Net κ ο σ μ) : Prop :=
  ∃ s r op rest, n.remaining r = op :: rest ∧ ops.action op = .recv s ∧ n.queue s r ≠ [] ∧ Fires ops n r n'

/-- A message goes from a process that sends to a process that waits for it, with no message between
the two on its way. -/
def Exchanges (ops : Operations κ ο σ μ) (n n' : Net κ ο σ μ) : Prop :=
  ∃ s r op rest op' rest' n₁, n.remaining s = op :: rest ∧ ops.action op = .send r ∧
    n.remaining r = op' :: rest' ∧ ops.action op' = .recv s ∧ n.queue s r = [] ∧ Fires ops n s n₁ ∧ Fires ops n₁ r n'

/-- Whatever has been buffered so far, no further message has to be. -/
theorem Follows.progress (h : Follows ops n left) {m : Net κ ο σ μ} {schedule : List κ}
    (hrun : run (fire ops) n schedule = some m) (hm : m.Finished) :
    n.Finished ∨ ∃ n', Takes ops n n' ∨ Exchanges ops n n' := by
  cases left with
  | nil =>
    refine Or.inl fun a => ?_
    have hactions := h.actions a
    rw [List.filterMap_nil] at hactions
    exact List.map_eq_nil_iff.mp hactions
  | cons e left =>
    obtain ⟨⟨s, r⟩, sent⟩ := e
    have hsr : s ≠ r := h.apart _ List.mem_cons_self
    have hrecv := h.actions r
    rw [List.filterMap_cons_some (leaves_receiver sent hsr)] at hrecv
    obtain ⟨op, rest, hnext, haction, -⟩ := List.map_eq_cons_iff.mp hrecv
    right
    cases sent with
    | true =>
      have hqueue : n.queue s r ≠ [] := by
        apply List.ne_nil_of_length_pos
        rw [h.waiting s r]
        exact List.countP_pos_iff.mpr ⟨_, List.mem_cons_self, by simp⟩
      obtain ⟨n', hfires⟩ := Ready.fires hrun hm ⟨op, rest, hnext, fun s' hs' => by
        obtain rfl := Action.recv.inj (haction.symm.trans hs')
        exact hqueue⟩
      exact ⟨n', Or.inl ⟨s, r, op, rest, hnext, haction, hqueue, hfires⟩⟩
    | false =>
      have hsend := h.actions s
      rw [List.filterMap_cons_some (leaves_sender s r false)] at hsend
      obtain ⟨op', rest', hnext', haction', -⟩ := List.map_eq_cons_iff.mp hsend
      have hqueue : n.queue s r = [] := by
        by_contra hne
        rcases List.mem_cons.mp (h.exists_sent hne) with heq | hmem
        · simp at heq
        · have hsent := (List.pairwise_cons.mp h.in_order).1 _ hmem rfl rfl
          simp at hsent
      obtain ⟨n₁, hfires⟩ := Ready.fires hrun hm ⟨op', rest', hnext', fun s' hs' => by simp [haction'] at hs'⟩
      obtain ⟨schedule', hrun', -⟩ := run_first (fire_commute ops) hrun hm.ended ((fire_eq_some ops).mpr hfires)
      have hready : Ready ops n₁ r := by
        refine ⟨op, rest, (hfires.frame ops hsr.symm).1.trans hnext, fun s' hs' => ?_⟩
        obtain rfl := Action.recv.inj (haction.symm.trans hs')
        exact hfires.queue_ne_nil ops hnext' haction'
      obtain ⟨n₂, hfires'⟩ := hready.fires hrun' hm
      exact ⟨n₂, Or.inr ⟨s, r, op', rest', op, rest, n₁, hnext', haction', hnext, haction, hqueue, hfires, hfires'⟩⟩

end Awex.Channels
