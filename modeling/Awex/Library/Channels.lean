import Awex.Library.Fifo
import Awex.Library.Rendezvous
import Awex.Library.Schedules

namespace Awex.Channels

open Rendezvous Schedules

variable {κ ο σ μ : Type}

/-- What operations do: a send takes its message from the state of its process, and a receive
changes that state. -/
structure Operations (κ ο σ μ : Type) where
  action : ο → Action κ
  message : σ → ο → Option μ
  receive : σ → ο → μ → Option σ

/-- Processes that work off their operations, with a queue for every ordered pair of them. -/
structure Net (κ ο σ μ : Type) where
  remaining : κ → List ο
  state : κ → σ
  queue : κ → κ → List μ

def Net.Finished (n : Net κ ο σ μ) : Prop := ∀ a, n.remaining a = []

variable [DecidableEq κ]

def Net.setQueue (n : Net κ ο σ μ) (s r : κ) (msgs : List μ) : κ → κ → List μ :=
  Function.update n.queue s (Function.update (n.queue s) r msgs)

def Net.sent (n : Net κ ο σ μ) (s r : κ) (rest : List ο) (msg : μ) : Net κ ο σ μ :=
  ⟨Function.update n.remaining s rest, n.state, n.setQueue s r (n.queue s r ++ [msg])⟩

def Net.received (n : Net κ ο σ μ) (s r : κ) (rest : List ο) (msgs : List μ) (st : σ) : Net κ ο σ μ :=
  ⟨Function.update n.remaining r rest, Function.update n.state r st, n.setQueue s r msgs⟩

theorem Net.setQueue_apply (n : Net κ ο σ μ) (s r x y : κ) (msgs : List μ) :
    n.setQueue s r msgs x y = if x = s ∧ y = r then msgs else n.queue x y := by
  unfold setQueue
  by_cases hx : x = s
  · subst hx
    by_cases hy : y = r <;> simp [hy]
  · simp [hx]

theorem Net.sent_queue_apply (n : Net κ ο σ μ) (s r x y : κ) (rest : List ο) (msg : μ) :
    (n.sent s r rest msg).queue x y = if x = s ∧ y = r then n.queue s r ++ [msg] else n.queue x y :=
  n.setQueue_apply s r x y _

theorem Net.received_queue_apply (n : Net κ ο σ μ) (s r x y : κ) (rest : List ο) (msgs : List μ) (st : σ) :
    (n.received s r rest msgs st).queue x y = if x = s ∧ y = r then msgs else n.queue x y :=
  n.setQueue_apply s r x y _

variable (ops : Operations κ ο σ μ)

/-- The next operation of `a`. A receive waits for a message. -/
def fire (n : Net κ ο σ μ) (a : κ) : Option (Net κ ο σ μ) :=
  match n.remaining a with
  | [] => none
  | op :: rest =>
    match ops.action op with
    | .send r => (ops.message (n.state a) op).map (n.sent a r rest)
    | .recv s =>
      match n.queue s a with
      | [] => none
      | msg :: msgs => (ops.receive (n.state a) op msg).map (n.received s a rest msgs)

inductive Fires (n : Net κ ο σ μ) (a : κ) : Net κ ο σ μ → Prop
  | send (op : ο) (rest : List ο) (r : κ) (msg : μ) (hnext : n.remaining a = op :: rest)
      (haction : ops.action op = .send r) (hmessage : ops.message (n.state a) op = some msg) :
      Fires n a (n.sent a r rest msg)
  | recv (op : ο) (rest : List ο) (s : κ) (msg : μ) (msgs : List μ) (st : σ) (hnext : n.remaining a = op :: rest)
      (haction : ops.action op = .recv s) (hqueue : n.queue s a = msg :: msgs)
      (hreceive : ops.receive (n.state a) op msg = some st) : Fires n a (n.received s a rest msgs st)

theorem fire_send {n : Net κ ο σ μ} {a r : κ} {op : ο} {rest : List ο} (hnext : n.remaining a = op :: rest)
    (haction : ops.action op = .send r) : fire ops n a = (ops.message (n.state a) op).map (n.sent a r rest) := by
  unfold fire
  rw [hnext]
  simp only [haction]

theorem fire_recv {n : Net κ ο σ μ} {a s : κ} {op : ο} {rest : List ο} {msg : μ} {msgs : List μ}
    (hnext : n.remaining a = op :: rest) (haction : ops.action op = .recv s) (hqueue : n.queue s a = msg :: msgs) :
    fire ops n a = (ops.receive (n.state a) op msg).map (n.received s a rest msgs) := by
  unfold fire
  rw [hnext]
  simp only [haction, hqueue]

theorem fire_eq_some {n n' : Net κ ο σ μ} {a : κ} : fire ops n a = some n' ↔ Fires ops n a n' := by
  constructor
  · intro h
    unfold fire at h
    split at h
    · cases h
    · rename_i op rest hnext
      split at h
      · rename_i r haction
        obtain ⟨msg, hmessage, rfl⟩ := Option.map_eq_some_iff.mp h
        exact .send op rest r msg hnext haction hmessage
      · rename_i s haction
        split at h
        · cases h
        · rename_i msg msgs hqueue
          obtain ⟨st, hreceive, rfl⟩ := Option.map_eq_some_iff.mp h
          exact .recv op rest s msg msgs st hnext haction hqueue hreceive
  · intro h
    cases h with
    | send op rest r msg hnext haction hmessage => rw [fire_send ops hnext haction, hmessage, Option.map_some]
    | recv op rest s msg msgs st hnext haction hqueue hreceive =>
      rw [fire_recv ops hnext haction hqueue, hreceive, Option.map_some]

theorem Fires.frame {n n' : Net κ ο σ μ} {a : κ} (h : Fires ops n a n') {b : κ} (hb : b ≠ a) :
    n'.remaining b = n.remaining b ∧ n'.state b = n.state b ∧ ∀ s, ∃ more, n'.queue s b = n.queue s b ++ more := by
  -- what `a` does is all that happens to its own operations and state, and only `a` takes from the queues to `a`
  cases h with
  | send op rest r msg hnext haction hmessage =>
    refine ⟨Function.update_of_ne hb _ _, rfl, fun s => ?_⟩
    simp only [Net.sent, Net.setQueue_apply]
    split_ifs with hs
    · obtain ⟨rfl, rfl⟩ := hs
      exact ⟨[msg], rfl⟩
    · exact ⟨[], (List.append_nil _).symm⟩
  | recv op rest s' msg msgs st hnext haction hqueue hreceive =>
    refine ⟨Function.update_of_ne hb _ _, Function.update_of_ne hb _ _, fun s => ⟨[], ?_⟩⟩
    simp only [Net.received, Net.setQueue_apply, List.append_nil]
    apply if_neg
    rintro ⟨-, rfl⟩
    exact hb rfl

theorem Fires.queue_ne_nil {n n' : Net κ ο σ μ} {a r : κ} (h : Fires ops n a n') {op : ο} {rest : List ο}
    (hnext : n.remaining a = op :: rest) (haction : ops.action op = .send r) : n'.queue a r ≠ [] := by
  cases h with
  | send op' rest' r' msg hnext' haction' hmessage =>
    obtain ⟨rfl, rfl⟩ := List.cons.inj (hnext.symm.trans hnext')
    obtain rfl := Action.send.inj (haction.symm.trans haction')
    rw [n.sent_queue_apply, if_pos ⟨rfl, rfl⟩]
    exact List.append_ne_nil_of_right_ne_nil _ (List.cons_ne_nil msg [])
  | recv op' rest' s msg msgs st hnext' haction' hqueue hreceive =>
    obtain ⟨rfl, rfl⟩ := List.cons.inj (hnext.symm.trans hnext')
    rw [haction] at haction'
    simp at haction'

section Order

variable (n : Net κ ο σ μ) {a b : κ} (hab : a ≠ b)

include hab

theorem Net.sent_sent (r r' : κ) (rest rest' : List ο) (msg msg' : μ) :
    (n.sent a r rest msg).sent b r' rest' msg' = (n.sent b r' rest' msg').sent a r rest msg := by
  unfold Net.sent
  congr 1
  · exact Function.update_comm hab _ _ _
  · funext x y
    simp only [Net.setQueue_apply]
    by_cases hx : x = a
    · subst hx
      simp [hab]
    · simp [hx, hab.symm]

theorem Net.sent_received (r s : κ) (rest rest' : List ο) (msg : μ) (msgs : List μ) (st : σ) {msgs' : List μ}
    (hmsgs : msgs' = if s = a ∧ b = r then msgs ++ [msg] else msgs) :
    (n.sent a r rest msg).received s b rest' msgs' st = (n.received s b rest' msgs st).sent a r rest msg := by
  unfold Net.sent Net.received
  congr 1
  · exact Function.update_comm hab _ _ _
  · funext x y
    simp only [Net.setQueue_apply, hmsgs]
    by_cases hsb : x = s ∧ y = b
    · obtain ⟨rfl, rfl⟩ := hsb
      by_cases har : x = a ∧ y = r
      · obtain ⟨rfl, rfl⟩ := har
        simp
      · simp [har]
    · by_cases har : x = a ∧ y = r
      · obtain ⟨rfl, rfl⟩ := har
        simp [hsb]
      · simp [har, hsb]

theorem Net.received_received (s s' : κ) (rest rest' : List ο) (msgs msgs' : List μ) (st st' : σ) :
    (n.received s a rest msgs st).received s' b rest' msgs' st' =
      (n.received s' b rest' msgs' st').received s a rest msgs st := by
  unfold Net.received
  congr 1
  · exact Function.update_comm hab _ _ _
  · exact Function.update_comm hab _ _ _
  · funext x y
    simp only [Net.setQueue_apply]
    by_cases hy : y = b
    · subst hy
      simp [hab.symm]
    · simp [hy]

omit hab in
theorem Net.sent_queue (r : κ) (rest : List ο) (msg : μ) (s : κ) {msg' : μ} {msgs : List μ}
    (hqueue : n.queue s b = msg' :: msgs) :
    (n.sent a r rest msg).queue s b = msg' :: if s = a ∧ b = r then msgs ++ [msg] else msgs := by
  simp only [Net.sent, Net.setQueue_apply]
  split_ifs with h
  · obtain ⟨rfl, rfl⟩ := h
    rw [hqueue, List.cons_append]
  · exact hqueue

theorem Net.received_queue (s s' : κ) (rest : List ο) (msgs : List μ) (st : σ) :
    (n.received s a rest msgs st).queue s' b = n.queue s' b := by
  simp only [Net.received, Net.setQueue_apply]
  apply if_neg
  rintro ⟨-, rfl⟩
  exact hab rfl

end Order

theorem Fires.commute {n n₁ n₂ : Net κ ο σ μ} {a b : κ} (hab : a ≠ b) (h₁ : Fires ops n a n₁) (h₂ : Fires ops n b n₂) :
    ∃ n₃, Fires ops n₁ b n₃ ∧ Fires ops n₂ a n₃ := by
  obtain ⟨hremaining₁, hstate₁, -⟩ := h₁.frame ops hab.symm
  obtain ⟨hremaining₂, hstate₂, -⟩ := h₂.frame ops hab
  cases h₁ with
  | send op rest r msg hnext haction hmessage =>
    cases h₂ with
    | send op' rest' r' msg' hnext' haction' hmessage' =>
      refine ⟨_, .send op' rest' r' msg' (hremaining₁.trans hnext') haction' hmessage', ?_⟩
      rw [n.sent_sent hab]
      exact .send op rest r msg (hremaining₂.trans hnext) haction hmessage
    | recv op' rest' s msg' msgs st hnext' haction' hqueue hreceive =>
      refine ⟨_, .recv op' rest' s msg' _ st (hremaining₁.trans hnext') haction' (n.sent_queue r rest msg s hqueue)
        hreceive, ?_⟩
      rw [n.sent_received hab r s rest rest' msg msgs st rfl]
      exact .send op rest r msg (hremaining₂.trans hnext) haction (hstate₂ ▸ hmessage)
  | recv op rest s msg msgs st hnext haction hqueue hreceive =>
    cases h₂ with
    | send op' rest' r msg' hnext' haction' hmessage =>
      refine ⟨_, .send op' rest' r msg' (hremaining₁.trans hnext') haction' (hstate₁ ▸ hmessage), ?_⟩
      rw [← n.sent_received hab.symm r s rest' rest msg' msgs st rfl]
      exact .recv op rest s msg _ st (hremaining₂.trans hnext) haction (n.sent_queue r rest' msg' s hqueue) hreceive
    | recv op' rest' s' msg' msgs' st' hnext' haction' hqueue' hreceive' =>
      have hq₁ := (n.received_queue hab s s' rest msgs st).trans hqueue'
      have hq₂ := (n.received_queue hab.symm s' s rest' msgs' st').trans hqueue
      refine ⟨_, .recv op' rest' s' msg' msgs' st' (hremaining₁.trans hnext') haction' hq₁ (hstate₁ ▸ hreceive'), ?_⟩
      rw [n.received_received hab]
      exact .recv op rest s msg msgs st (hremaining₂.trans hnext) haction hq₂ (hstate₂ ▸ hreceive)

theorem fire_commute : Commute (fire ops) := by
  intro n a b n₁ n₂ hab h₁ h₂
  rw [fire_eq_some] at h₁ h₂
  obtain ⟨n₃, hb, ha⟩ := h₁.commute ops hab h₂
  exact ⟨n₃, (fire_eq_some ops).mpr hb, (fire_eq_some ops).mpr ha⟩

section Ready

variable {ops}

/-- The next operation of `a` has nothing to wait for. -/
def Ready (ops : Operations κ ο σ μ) (n : Net κ ο σ μ) (a : κ) : Prop :=
  ∃ op rest, n.remaining a = op :: rest ∧ ∀ s, ops.action op = .recv s → n.queue s a ≠ []

theorem Ready.of_fires {n n' : Net κ ο σ μ} {a b : κ} (h : Fires ops n b n') (hab : a ≠ b) (ha : Ready ops n a) :
    Ready ops n' a := by
  obtain ⟨hremaining, -, hqueue⟩ := h.frame ops hab
  obtain ⟨op, rest, hnext, hwait⟩ := ha
  refine ⟨op, rest, hremaining.trans hnext, fun s hs => ?_⟩
  obtain ⟨more, hmore⟩ := hqueue s
  rw [hmore]
  exact List.append_ne_nil_of_left_ne_nil (hwait s hs) more

theorem Fires.before {n n' n₂ : Net κ ο σ μ} {a b : κ} (h : Fires ops n b n') (hab : a ≠ b) (ha : Ready ops n a)
    (h₂ : Fires ops n' a n₂) : ∃ n₃, Fires ops n a n₃ := by
  obtain ⟨hremaining, hstate, hqueue⟩ := h.frame ops hab
  obtain ⟨op', rest', hnext', hwait⟩ := ha
  cases h₂ with
  | send op rest r msg hnext haction hmessage =>
    exact ⟨_, .send op rest r msg (hremaining.symm.trans hnext) haction (hstate ▸ hmessage)⟩
  | recv op rest s msg msgs st hnext haction hmsgs hreceive =>
    obtain ⟨rfl, rfl⟩ := List.cons.inj (hnext'.symm.trans (hremaining.symm.trans hnext))
    obtain ⟨more, hmore⟩ := hqueue s
    obtain ⟨msg', msgs', hqueue'⟩ := List.exists_cons_of_ne_nil (hwait s haction)
    rw [hmsgs, hqueue', List.cons_append] at hmore
    obtain ⟨rfl, -⟩ := List.cons.inj hmore
    exact ⟨_, .recv op' rest' s msg msgs' st hnext' haction hqueue' (hstate ▸ hreceive)⟩

theorem Ready.fires {n m : Net κ ο σ μ} {a : κ} {schedule : List κ} (hrun : run (fire ops) n schedule = some m)
    (hm : m.Finished) (ha : Ready ops n a) : ∃ n', Fires ops n a n' := by
  induction schedule generalizing n with
  | nil =>
    obtain rfl := Option.some.inj hrun
    obtain ⟨op, rest, hnext, -⟩ := ha
    rw [hm a] at hnext
    exact absurd hnext (List.cons_ne_nil op rest).symm
  | cons b schedule ih =>
    obtain ⟨n₁, hfire, hrun₁⟩ := run_cons_eq_some.mp hrun
    rw [fire_eq_some] at hfire
    by_cases hab : a = b
    · subst hab
      exact ⟨n₁, hfire⟩
    · obtain ⟨n₂, h₂⟩ := ih hrun₁ (ha.of_fires hfire hab)
      exact hfire.before hab ha h₂

theorem Net.Finished.ended {n : Net κ ο σ μ} (h : n.Finished) : Ended (fire ops) n := by
  intro a
  unfold fire
  rw [h a]

end Ready

end Awex.Channels
