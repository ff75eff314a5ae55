import Awex.Library.Rendezvous
import Mathlib.Algebra.BigOperators.Group.Finset.Basic
import Mathlib.Algebra.GroupWithZero.Nat
import Mathlib.Algebra.Order.BigOperators.Group.Finset
import Mathlib.Data.List.GetD

namespace Awex.Rendezvous

variable {κ : Type} [DecidableEq κ]

abbrev PhasedState (κ : Type) := κ → List (List (Action κ))

inductive PhasedStep (group : Finset κ) : PhasedState κ → PhasedState κ → Prop
  | meet (st : PhasedState κ) (s r : κ) (ps qs : List (Action κ)) (pss qss : List (List (Action κ)))
      (hsg : s ∈ group) (hrg : r ∈ group) (hs : st s = (.send r :: ps) :: pss)
      (hr : st r = (.recv s :: qs) :: qss) :
      PhasedStep group st (Function.update (Function.update st s (ps :: pss)) r (qs :: qss))
  | barrier (st next : PhasedState κ) (h : ∀ a ∈ group, st a = [] :: next a)
      (hother : ∀ a ∉ group, next a = st a) : PhasedStep group st next

def PhasedReachable (group : Finset κ) (start st : PhasedState κ) : Prop :=
  Relation.ReflTransGen (PhasedStep group) start st

def PhasedFinished (group : Finset κ) (st : PhasedState κ) : Prop := ∀ a ∈ group, st a = []

/-- Whatever happened so far, all processes are done or something can still happen. -/
def NeverStuck (group : Finset κ) (start : PhasedState κ) : Prop :=
  ∀ st, PhasedReachable group start st → PhasedFinished group st ∨ ∃ st', PhasedStep group st st'

section Termination

variable {group : Finset κ}

def remaining (p : List (List (Action κ))) : ℕ := (p.map (fun actions => actions.length + 1)).sum

theorem PhasedStep.remaining_lt {st st' : PhasedState κ} (hne : group.Nonempty)
    (h : PhasedStep group st st') : ∑ a ∈ group, remaining (st' a) < ∑ a ∈ group, remaining (st a) := by
  cases h with
  | meet s r ps qs pss qss hsg hrg hs hr =>
    have hsr : s ≠ r := by rintro rfl; simp [hs] at hr
    have hsmall : remaining (qs :: qss) < remaining (st r) := by simp [hr, remaining]
    apply Finset.sum_lt_sum
    · intro a _
      by_cases har : a = r
      · subst har
        rw [Function.update_self]
        exact hsmall.le
      · rw [Function.update_of_ne har]
        by_cases has : a = s
        · subst has
          rw [Function.update_self, hs]
          simp [remaining]
        · rw [Function.update_of_ne has]
    · exact ⟨r, hrg, by rwa [Function.update_self]⟩
  | barrier _ hall _ =>
    apply Finset.sum_lt_sum_of_nonempty hne
    intro a ha
    rw [hall a ha]
    simp [remaining]

theorem NeverStuck.exists_finished {start : PhasedState κ} (hne : group.Nonempty)
    (h : NeverStuck group start) : ∃ st, PhasedReachable group start st ∧ PhasedFinished group st := by
  have hrun : ∀ n st, PhasedReachable group start st → ∑ a ∈ group, remaining (st a) = n →
      ∃ st, PhasedReachable group start st ∧ PhasedFinished group st := by
    intro n
    induction n using Nat.strong_induction_on with
    | _ n ih =>
      intro st hst hn
      rcases h st hst with hfin | ⟨st', hstep⟩
      · exact ⟨st, hst, hfin⟩
      · exact ih _ (hn ▸ hstep.remaining_lt hne) st' (hst.tail hstep) rfl
  exact hrun _ start .refl rfl

end Termination

section Balance

variable {group : Finset κ}

def sendsIn (p : List (List (Action κ))) (i : ℕ) (b : κ) : ℕ := (p.getD i []).count (.send b)

def recvsIn (p : List (List (Action κ))) (i : ℕ) (a : κ) : ℕ := (p.getD i []).count (.recv a)

/-- Between any two barriers every process sends as much to another one as that one receives. -/
def Balanced (group : Finset κ) (st : PhasedState κ) : Prop :=
  ∀ a ∈ group, ∀ b ∈ group, ∀ i, sendsIn (st a) i b = recvsIn (st b) i a

theorem sendsIn_meet {st : PhasedState κ} {s r : κ} {ps qs : List (Action κ)} {pss qss : List (List (Action κ))}
    (hs : st s = (.send r :: ps) :: pss) (hr : st r = (.recv s :: qs) :: qss) (a b : κ) (i : ℕ) :
    sendsIn (st a) i b = sendsIn (Function.update (Function.update st s (ps :: pss)) r (qs :: qss) a) i b +
      if a = s ∧ b = r ∧ i = 0 then 1 else 0 := by
  have hsr : s ≠ r := by rintro rfl; simp [hs] at hr
  by_cases har : a = r
  · subst har
    cases i <;> simp [sendsIn, hr, hsr.symm]
  · rw [Function.update_of_ne har]
    by_cases has : a = s
    · subst has
      cases i <;> simp [sendsIn, hs, List.count_cons, @eq_comm _ b r]
    · rw [Function.update_of_ne has]
      simp [has]

theorem recvsIn_meet {st : PhasedState κ} {s r : κ} {ps qs : List (Action κ)} {pss qss : List (List (Action κ))}
    (hs : st s = (.send r :: ps) :: pss) (hr : st r = (.recv s :: qs) :: qss) (a b : κ) (i : ℕ) :
    recvsIn (st b) i a = recvsIn (Function.update (Function.update st s (ps :: pss)) r (qs :: qss) b) i a +
      if a = s ∧ b = r ∧ i = 0 then 1 else 0 := by
  have hsr : s ≠ r := by rintro rfl; simp [hs] at hr
  by_cases hbr : b = r
  · subst hbr
    cases i <;> simp [recvsIn, hr, List.count_cons, @eq_comm _ a s]
  · rw [Function.update_of_ne hbr]
    by_cases hbs : b = s
    · subst hbs
      cases i <;> simp [recvsIn, hs, hbr]
    · rw [Function.update_of_ne hbs]
      simp [hbr]

theorem PhasedStep.balanced_of_balanced {st st' : PhasedState κ} (h : PhasedStep group st st')
    (hbalanced : Balanced group st') : Balanced group st := by
  intro a ha b hb i
  cases h with
  | meet s r ps qs pss qss _ _ hs hr =>
    rw [sendsIn_meet hs hr a b i, recvsIn_meet hs hr a b i, hbalanced a ha b hb i]
  | barrier _ hall _ =>
    rw [hall a ha, hall b hb]
    cases i with
    | zero => rfl
    | succ i => exact hbalanced a ha b hb i

theorem Balanced.count_eq {st : PhasedState κ} (h : Balanced group st) {a b : κ} (ha : a ∈ group) (hb : b ∈ group)
    {front front' back back' : List (List (Action κ))} {x y : List (Action κ)} (hsta : st a = front ++ x :: back)
    (hstb : st b = front' ++ y :: back') (hlength : front.length = front'.length) :
    x.count (.send b) = y.count (.recv a) := by
  have hcount := h a ha b hb front.length
  rw [sendsIn, recvsIn, hsta, hstb] at hcount
  rw [List.getD_append_right _ _ _ _ le_rfl, List.getD_append_right _ _ _ _ hlength.ge, hlength, Nat.sub_self] at hcount
  exact hcount

theorem balanced_of_finishes {start st : PhasedState κ} (h : PhasedReachable group start st)
    (hfin : PhasedFinished group st) : Balanced group start := by
  induction h using Relation.ReflTransGen.head_induction_on with
  | refl =>
    intro a ha b hb i
    rw [hfin a ha, hfin b hb]
    rfl
  | head hstep _ ih => exact hstep.balanced_of_balanced ih

end Balance

section Ordered

variable {group : Finset κ}

def phased (group : Finset κ) (segments : List (List (κ × κ))) : PhasedState κ := fun a =>
  if a ∈ group then segments.map (fun events => project events a) else []

theorem phased_apply {a : κ} (ha : a ∈ group) (segments : List (List (κ × κ))) :
    phased group segments a = segments.map (fun events => project events a) := if_pos ha

theorem PhasedStep.of_phased {segments : List (List (κ × κ))} {st : PhasedState κ}
    (hne : group.Nonempty) (h : PhasedStep group (phased group segments) st) :
    ∃ rest, st = phased group rest ∧
      ∀ events ∈ rest, ∃ events' ∈ segments, events.Sublist events' := by
  cases h with
  | meet s r ps qs pss qss hsg hrg hs hr =>
    rw [phased_apply hsg] at hs
    rw [phased_apply hrg] at hr
    cases segments with
    | nil => cases hs
    | cons events segments =>
      rw [List.map_cons] at hs hr
      obtain ⟨hsend, rfl⟩ := List.cons.inj hs
      obtain ⟨hrecv, rfl⟩ := List.cons.inj hr
      obtain ⟨events', hsub, hproject⟩ := project_meet events s r ps qs hsend hrecv
      refine ⟨events' :: segments, ?_, ?_⟩
      · funext a
        by_cases har : a = r
        · subst har
          have hnew : project events' a = qs := by rw [hproject, Function.update_self]
          rw [Function.update_self, phased_apply hrg, List.map_cons, hnew]
        · have hnew : project events' a = Function.update (project events) s ps a := by
            rw [hproject, Function.update_of_ne har]
          rw [Function.update_of_ne har]
          by_cases has : a = s
          · subst has
            rw [Function.update_self] at hnew ⊢
            rw [phased_apply hsg, List.map_cons, hnew]
          · rw [Function.update_of_ne has] at hnew ⊢
            by_cases hag : a ∈ group
            · rw [phased_apply hag, phased_apply hag, List.map_cons, List.map_cons, hnew]
            · rw [phased, phased, if_neg hag, if_neg hag]
      · intro es hes
        rcases List.mem_cons.mp hes with rfl | hes
        · exact ⟨events, List.mem_cons_self, hsub⟩
        · exact ⟨es, List.mem_cons_of_mem _ hes, .refl es⟩
  | barrier _ hall hother =>
    obtain ⟨g, hg⟩ := hne
    cases segments with
    | nil => cases (phased_apply hg []).symm.trans (hall g hg)
    | cons events segments =>
      refine ⟨segments, ?_, fun es hes => ⟨es, List.mem_cons_of_mem _ hes, .refl es⟩⟩
      funext a
      by_cases hag : a ∈ group
      · have ha := hall a hag
        rw [phased_apply hag, List.map_cons] at ha
        rw [phased_apply hag, (List.cons.inj ha).2]
      · rw [hother a hag, phased, phased, if_neg hag, if_neg hag]

/-- Barriers do not block processes that follow one global order between them. -/
theorem neverStuck_phased (hne : group.Nonempty) {segments : List (List (κ × κ))}
    (h : ∀ events ∈ segments, ∀ e ∈ events, e.1 ≠ e.2 ∧ e.1 ∈ group ∧ e.2 ∈ group) :
    NeverStuck group (phased group segments) := by
  intro st hst
  have hinv : ∃ rest, st = phased group rest ∧
      ∀ events ∈ rest, ∀ e ∈ events, e.1 ≠ e.2 ∧ e.1 ∈ group ∧ e.2 ∈ group := by
    induction hst with
    | refl => exact ⟨segments, rfl, h⟩
    | tail _ hstep ih =>
      obtain ⟨rest, rfl, hrest⟩ := ih
      obtain ⟨rest', rfl, hsub⟩ := hstep.of_phased hne
      refine ⟨rest', rfl, ?_⟩
      intro events hevents e he
      obtain ⟨events', hevents', hsublist⟩ := hsub events hevents
      exact hrest events' hevents' e (hsublist.subset he)
  obtain ⟨rest, rfl, hrest⟩ := hinv
  cases rest with
  | nil => exact .inl (fun a ha => phased_apply ha [])
  | cons events rest =>
    right
    cases events with
    | nil =>
      refine ⟨phased group rest, .barrier _ _ ?_ ?_⟩
      · intro a ha
        rw [phased_apply ha, phased_apply ha]
        rfl
      · intro a ha
        rw [phased, phased, if_neg ha, if_neg ha]
    | cons e events =>
      obtain ⟨hdistinct, hsg, hrg⟩ := hrest (e :: events) List.mem_cons_self e List.mem_cons_self
      have hs : phased group ((e :: events) :: rest) e.1 =
          (.send e.2 :: project events e.1) :: rest.map (fun events => project events e.1) := by
        rw [phased_apply hsg, List.map_cons, project_cons_some _ _ _ _ (view_sender e)]
      have hr : phased group ((e :: events) :: rest) e.2 =
          (.recv e.1 :: project events e.2) :: rest.map (fun events => project events e.2) := by
        rw [phased_apply hrg, List.map_cons, project_cons_some _ _ _ _ (view_receiver e hdistinct)]
      exact ⟨_, .meet _ e.1 e.2 _ _ _ _ hsg hrg hs hr⟩

end Ordered

end Awex.Rendezvous
