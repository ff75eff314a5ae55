import Awex.Library.Lists
import Mathlib.Logic.Function.Basic
import Mathlib.Logic.Relation

namespace Awex.Rendezvous

variable {κ : Type} [DecidableEq κ]

inductive Action (κ : Type) where
  | send (peer : κ)
  | recv (peer : κ)
  deriving DecidableEq, Repr

abbrev State (κ : Type) := κ → List (Action κ)

inductive Step : State κ → State κ → Prop
  | meet (st : State κ) (s r : κ) (ps qs : List (Action κ))
      (hs : st s = .send r :: ps) (hr : st r = .recv s :: qs) :
      Step st (Function.update (Function.update st s ps) r qs)

def Reachable (start st : State κ) : Prop := Relation.ReflTransGen Step start st

def Finished (st : State κ) : Prop := ∀ a, st a = []

/-- The action that the event "`e.1` sends to `e.2`" is for process `a`. -/
def view (a : κ) (e : κ × κ) : Option (Action κ) :=
  if e.1 = a then some (.send e.2) else if e.2 = a then some (.recv e.1) else none

def project (events : List (κ × κ)) : State κ := fun a => events.filterMap (view a)

theorem view_sender (e : κ × κ) : view e.1 e = some (.send e.2) := by simp [view]

theorem view_receiver (e : κ × κ) (h : e.1 ≠ e.2) : view e.2 e = some (.recv e.1) := by
  simp [view, h]

theorem view_other (a : κ) (e : κ × κ) (hs : e.1 ≠ a) (hr : e.2 ≠ a) : view a e = none := by
  simp [view, hs, hr]

theorem project_cons_none (e : κ × κ) (events : List (κ × κ)) (a : κ) (h : view a e = none) :
    project (e :: events) a = project events a := by
  simp [project, h]

theorem project_cons_some (e : κ × κ) (events : List (κ × κ)) (a : κ) (x : Action κ)
    (h : view a e = some x) : project (e :: events) a = x :: project events a := by
  simp [project, h]

theorem project_append (xs ys : List (κ × κ)) (a : κ) :
    project (xs ++ ys) a = project xs a ++ project ys a := List.filterMap_append

theorem project_flatMap {β : Type} (xs : List β) (f : β → List (κ × κ)) (a : κ) :
    project (xs.flatMap f) a = xs.flatMap (fun x => project (f x) a) := by
  simp [project, List.filterMap_flatMap]

/-- One meeting of every sender with every receiver that it has something for, the senders one
after another. -/
def grid (senders receivers : List κ) (wants : κ → κ → Prop) [∀ s r, Decidable (wants s r)] :
    List (κ × κ) :=
  senders.flatMap (fun s => (receivers.filter (wants s ·)).map (fun r => (s, r)))

section Grid

variable {senders receivers : List κ} {wants : κ → κ → Prop} [∀ s r, Decidable (wants s r)]

omit [DecidableEq κ] in
theorem mem_grid {e : κ × κ} : e ∈ grid senders receivers wants ↔
    e.1 ∈ senders ∧ e.2 ∈ receivers ∧ wants e.1 e.2 := by
  obtain ⟨s, r⟩ := e
  simp only [grid, List.mem_flatMap, List.mem_map, List.mem_filter, decide_eq_true_eq, Prod.mk.injEq]
  constructor
  · rintro ⟨s, hs, r, ⟨hr, hw⟩, rfl, rfl⟩
    exact ⟨hs, hr, hw⟩
  · rintro ⟨hs, hr, hw⟩
    exact ⟨s, hs, r, ⟨hr, hw⟩, rfl, rfl⟩

theorem project_own (a : κ) (rs : List κ) : project (rs.map (fun r => (a, r))) a = rs.map .send := by
  induction rs with
  | nil => rfl
  | cons r rs ih => rw [List.map_cons, project_cons_some _ _ _ _ (view_sender (a, r)), ih, List.map_cons]

theorem project_other (s a : κ) (rs : List κ) (hs : s ≠ a) :
    project (rs.map (fun r => (s, r))) a = (rs.filter (· = a)).map (fun _ => .recv s) := by
  induction rs with
  | nil => rfl
  | cons r rs ih =>
    by_cases hr : r = a
    · subst hr
      rw [List.map_cons, project_cons_some _ _ _ _ (view_receiver (s, r) hs), ih]
      simp
    · rw [List.map_cons, project_cons_none _ _ _ (view_other a (s, r) hs hr), ih]
      simp [hr]

theorem project_grid_send (a : κ) (hn : senders.Nodup) (ha : a ∈ senders) (h : ∀ s ∈ senders, ¬ wants s a) :
    project (grid senders receivers wants) a = (receivers.filter (wants a ·)).map .send := by
  rw [grid, project_flatMap]
  have hother : ∀ s ∈ senders, s ≠ a →
      project ((receivers.filter (wants s ·)).map (fun r => (s, r))) a = [] := by
    intro s hs hsa
    rw [project_other s a _ hsa, List.filter_filter, List.map_eq_nil_iff, List.filter_eq_nil_iff]
    intro r _
    simp only [Bool.and_eq_true, decide_eq_true_eq, not_and]
    rintro rfl
    exact h s hs
  clear h
  induction senders with
  | nil => simp at ha
  | cons s ss ih =>
    obtain ⟨hs, hn⟩ := List.nodup_cons.mp hn
    rw [List.flatMap_cons]
    rcases List.mem_cons.mp ha with rfl | ha
    · have hrest : ss.flatMap (fun s =>
          project ((receivers.filter (wants s ·)).map (fun r => (s, r))) a) = [] := by
        apply List.flatMap_eq_nil_iff.mpr
        intro s hsm
        exact hother s (List.mem_cons_of_mem _ hsm) (fun hsa => hs (hsa ▸ hsm))
      rw [hrest, project_own, List.append_nil]
    · rw [hother s List.mem_cons_self (fun hsa => hs (hsa ▸ ha)), List.nil_append]
      exact ih hn ha (fun t ht => hother t (List.mem_cons_of_mem _ ht))

theorem project_grid_recv (a : κ) (hn : receivers.Nodup) (ha : a ∈ receivers)
    (h : ∀ r ∈ receivers, ¬ wants a r) :
    project (grid senders receivers wants) a = (senders.filter (wants · a)).map .recv := by
  rw [grid, project_flatMap]
  induction senders with
  | nil => rfl
  | cons s ss ih =>
    rw [List.flatMap_cons, ih]
    by_cases hsa : s = a
    · subst hsa
      have hnone : receivers.filter (wants s ·) = [] :=
        List.filter_eq_nil_iff.mpr (fun r hr => by simpa using h r hr)
      simp [hnone, project, h s ha]
    · have hone : (receivers.filter (wants s ·)).filter (· = a) =
          if wants s a then [a] else [] := by
        rw [List.filter_filter]
        split_ifs with hw
        · rw [List.filter_congr (q := (· = a)) (fun r _ => by
            by_cases hr : r = a
            · subst hr; simp [hw]
            · simp [hr])]
          exact filter_eq_singleton receivers id (by simpa using hn) a ha
        · apply List.filter_eq_nil_iff.mpr
          intro r _
          simp only [Bool.and_eq_true, decide_eq_true_eq, not_and]
          rintro rfl
          exact hw
      rw [project_other s a _ hsa, hone]
      by_cases hw : wants s a <;> simp [hw]

end Grid

theorem project_meet (events : List (κ × κ)) (s r : κ) (ps qs : List (Action κ))
    (hs : project events s = .send r :: ps) (hr : project events r = .recv s :: qs) :
    ∃ rest, rest.Sublist events ∧
      project rest = Function.update (Function.update (project events) s ps) r qs := by
  -- the first event of the sender and the first event of the receiver are the same occurrence, since an event of
  -- the pair is an event of both
  have hsr : s ≠ r := by rintro rfl; simp [hs] at hr
  induction events generalizing ps qs with
  | nil => simp [project] at hs
  | cons e events ih =>
    by_cases h1 : e.1 = s
    · have hv := h1 ▸ view_sender e
      rw [project_cons_some _ _ _ _ hv] at hs
      obtain ⟨h2, rfl⟩ : e.2 = r ∧ project events s = ps := by simpa using hs
      have hw := h2 ▸ view_receiver e (by rw [h1, h2]; exact hsr)
      rw [project_cons_some _ _ _ _ hw] at hr
      obtain ⟨-, rfl⟩ : e.1 = s ∧ project events r = qs := by simpa using hr
      refine ⟨events, List.sublist_cons_self _ _, ?_⟩
      funext a
      by_cases har : a = r
      · simp [har]
      by_cases has : a = s
      · subst has; simp [hsr]
      have hn : view a e = none := view_other a e (h1.trans_ne (Ne.symm has)) (h2.trans_ne (Ne.symm har))
      simp [har, has, project_cons_none _ _ _ hn]
    · have h2 : e.2 ≠ s := by
        intro h2
        have hv := h2 ▸ view_receiver e (h2.symm ▸ h1)
        rw [project_cons_some _ _ _ _ hv] at hs
        simp at hs
      have h3 : e.1 ≠ r := by
        intro h3
        have hv := h3 ▸ view_sender e
        rw [project_cons_some _ _ _ _ hv] at hr
        simp at hr
      have h4 : e.2 ≠ r := by
        intro h4
        have hv := h4 ▸ view_receiver e (h4.symm ▸ h3)
        rw [project_cons_some _ _ _ _ hv] at hr
        simp [h1] at hr
      rw [project_cons_none _ _ _ (view_other s e h1 h2)] at hs
      rw [project_cons_none _ _ _ (view_other r e h3 h4)] at hr
      obtain ⟨rest, hsub, he⟩ := ih ps qs hs hr
      refine ⟨e :: rest, hsub.cons_cons e, ?_⟩
      funext a
      cases hv : view a e with
      | none =>
        rw [project_cons_none _ _ _ hv, he]
        simp [Function.update_apply, project_cons_none _ _ _ hv]
      | some x =>
        have har : a ≠ r := by rintro rfl; simp [view_other a e h3 h4] at hv
        have has : a ≠ s := by rintro rfl; simp [view_other a e h1 h2] at hv
        rw [project_cons_some _ _ _ _ hv, he]
        simp [har, has, project_cons_some _ _ _ _ hv]

theorem step_project (events : List (κ × κ)) (st : State κ) (h : Step (project events) st) :
    ∃ rest, rest.Sublist events ∧ st = project rest := by
  generalize hp : project events = p at h
  cases h with
  | meet s r ps qs hs hr =>
    subst hp
    obtain ⟨rest, hsub, he⟩ := project_meet events s r ps qs hs hr
    exact ⟨rest, hsub, he.symm⟩

theorem reachable_project (events : List (κ × κ)) (st : State κ)
    (h : Reachable (project events) st) : ∃ rest, rest.Sublist events ∧ st = project rest := by
  induction h with
  | refl => exact ⟨events, .refl _, rfl⟩
  | tail _ hstep ih =>
    obtain ⟨rest, hsub, rfl⟩ := ih
    obtain ⟨rest', hsub', rfl⟩ := step_project rest _ hstep
    exact ⟨rest', hsub'.trans hsub, rfl⟩

/-- Programs that follow one global order never wait in a cycle: the earliest event left is
next for both of its processes. -/
theorem deadlock_free (events : List (κ × κ)) (hne : ∀ e ∈ events, e.1 ≠ e.2) (st : State κ)
    (h : Reachable (project events) st) (hst : ¬ Finished st) : ∃ st', Step st st' := by
  obtain ⟨rest, hsub, rfl⟩ := reachable_project events st h
  cases rest with
  | nil => exact absurd (fun a => rfl) hst
  | cons e rest =>
    have he : e.1 ≠ e.2 := hne e (hsub.subset (by simp))
    exact ⟨_, .meet _ e.1 e.2 _ _ (project_cons_some _ _ _ _ (view_sender e))
      (project_cons_some _ _ _ _ (view_receiver e he))⟩

end Awex.Rendezvous
