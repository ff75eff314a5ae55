import Awex.Library.Lists
import Mathlib.Data.List.Induction
import Mathlib.Data.List.Perm.Basic

namespace Awex

variable {ε α β : Type}

@[simp] theorem Except.ok_bind (a : α) (f : α → Except ε β) : (Except.ok a >>= f) = f a := rfl

@[simp] theorem Except.error_bind (e : ε) (f : α → Except ε β) :
    ((Except.error e : Except ε α) >>= f) = .error e := rfl

@[simp] theorem Except.map_ok (a : α) (f : α → β) : (Except.ok a : Except ε α).map f = .ok (f a) := rfl

@[simp] theorem Except.map_error (e : ε) (f : α → β) :
    (Except.error e : Except ε α).map f = .error e := rfl

@[simp] theorem Except.toOption_ok (a : α) : (Except.ok a : Except ε α).toOption = some a := rfl

@[simp] theorem Except.toOption_error (e : ε) : (Except.error e : Except ε α).toOption = none := rfl

@[simp] theorem Except.toOption_map (x : Except ε α) (f : α → β) : (x.map f).toOption = x.toOption.map f := by
  cases x <;> rfl

@[simp] theorem Except.toOption_bind (x : Except ε α) (f : α → Except ε β) :
    (x >>= f).toOption = x.toOption.bind (fun a => (f a).toOption) := by
  cases x <;> rfl

theorem Except.bind_eq_ok {x : Except ε α} {f : α → Except ε β} {b : β} :
    (x >>= f) = .ok b ↔ ∃ a, x = .ok a ∧ f a = .ok b := by
  cases x with
  | error e => simp [bind, Except.bind]
  | ok a => simp [bind, Except.bind]

theorem Except.map_eq_ok {x : Except ε α} {f : α → β} {b : β} :
    x.map f = .ok b ↔ ∃ a, x = .ok a ∧ f a = b := by
  cases x with
  | error e => simp [Except.map]
  | ok a => simp [Except.map]

theorem Except.mapM_eq_ok {f : α → Except ε β} {xs : List α} {ys : List β} :
    xs.mapM f = .ok ys ↔ List.Forall₂ (fun x y => f x = .ok y) xs ys := by
  induction xs generalizing ys with
  | nil =>
    rw [List.mapM_nil, List.forall₂_nil_left_iff]
    exact ⟨fun h => (Except.ok.inj h).symm, fun h => h ▸ rfl⟩
  | cons x xs ih =>
    rw [List.mapM_cons, bind_eq_ok]
    constructor
    · rintro ⟨y, hy, h⟩
      obtain ⟨zs, hzs, h⟩ := bind_eq_ok.mp h
      obtain rfl := Except.ok.inj h
      exact .cons hy (ih.mp hzs)
    · intro h
      cases h with
      | @cons _ y _ zs hy hzs => exact ⟨y, hy, bind_eq_ok.mpr ⟨zs, ih.mpr hzs, rfl⟩⟩

theorem Except.mapM_isOk {f : α → Except ε β} {xs : List α} :
    (∃ ys, xs.mapM f = .ok ys) ↔ ∀ x ∈ xs, ∃ y, f x = .ok y := by
  induction xs with
  | nil => exact ⟨fun _ x hx => absurd hx List.not_mem_nil, fun _ => ⟨[], rfl⟩⟩
  | cons x xs ih =>
    rw [List.forall_mem_cons, ← ih]
    constructor
    · rintro ⟨ys, h⟩
      cases mapM_eq_ok.mp h with
      | cons hy hys => exact ⟨⟨_, hy⟩, ⟨_, mapM_eq_ok.mpr hys⟩⟩
    · rintro ⟨⟨y, hy⟩, ys, hys⟩
      exact ⟨y :: ys, mapM_eq_ok.mpr (.cons hy (mapM_eq_ok.mp hys))⟩

theorem Except.mapM_congr {f g : α → Except ε β} {xs : List α} (h : ∀ x ∈ xs, f x = g x) :
    xs.mapM f = xs.mapM g := by
  induction xs with
  | nil => rfl
  | cons x xs ih =>
    rw [List.mapM_cons, List.mapM_cons, h x List.mem_cons_self,
      ih (fun y hy => h y (List.mem_cons_of_mem x hy))]

theorem Except.mapM_eq_mapM_map {γ : Type} {f : α → Except ε β} {g : α → Except ε γ} {k : γ → β}
    (xs : List α) (h : ∀ x, f x = (g x).map k) : xs.mapM f = (xs.mapM g).map (List.map k) := by
  induction xs with
  | nil => rfl
  | cons x xs ih =>
    rw [List.mapM_cons, List.mapM_cons, h x, ih]
    cases g x with
    | error e => rfl
    | ok y => cases xs.mapM g <;> rfl

theorem Except.mapM_of_forall_ok {f : α → Except ε β} {g : α → β} {xs : List α}
    (h : ∀ x ∈ xs, f x = .ok (g x)) : xs.mapM f = .ok (xs.map g) := by
  rw [mapM_eq_ok, List.forall₂_map_right_iff, List.forall₂_same]
  exact h

theorem Except.mapM_eq_map {f : α → Except ε β} {g : α → β} {xs : List α} {ys : List β}
    (hg : ∀ x ∈ xs, ∀ y, f x = .ok y → y = g x) (h : xs.mapM f = .ok ys) : ys = xs.map g := by
  replace h := mapM_eq_ok.mp h
  induction h with
  | nil => rfl
  | cons hy _ ih =>
    rw [List.map_cons, hg _ List.mem_cons_self _ hy,
      ih (fun x hx => hg x (List.mem_cons_of_mem _ hx))]

theorem Except.mapM_perm {f : α → Except ε β} {xs ys : List α} {zs : List β} (h : xs.Perm ys)
    (hys : ys.mapM f = .ok zs) : ∃ zs', xs.mapM f = .ok zs' ∧ zs'.Perm zs := by
  obtain ⟨zs', hxs, hperm⟩ := List.perm_comp_forall₂ h (Except.mapM_eq_ok.mp hys)
  exact ⟨zs', Except.mapM_eq_ok.mpr hxs, hperm⟩

theorem Except.foldlM_exists {σ : Type} {f : σ → β → Except ε σ} (P : List β → σ → Prop) (s : σ)
    (xs : List β) (hinit : P [] s)
    (hstep : ∀ done x rest s, xs = done ++ x :: rest → P done s →
      ∃ s', f s x = .ok s' ∧ P (done ++ [x]) s') :
    ∃ s', xs.foldlM f s = .ok s' ∧ P xs s' := by
  induction xs using List.reverseRecOn with
  | nil => exact ⟨s, rfl, hinit⟩
  | append_singleton xs x ih =>
    obtain ⟨s', hs', hP⟩ := ih (fun done y rest s hxs => hstep done y (rest ++ [x]) s (by simp [hxs]))
    obtain ⟨s'', hs'', hP'⟩ := hstep xs x [] s' rfl hP
    refine ⟨s'', ?_, hP'⟩
    rw [List.foldlM_append, Except.bind_eq_ok]
    refine ⟨s', hs', ?_⟩
    rw [List.foldlM_cons, Except.bind_eq_ok]
    exact ⟨s'', hs'', rfl⟩

theorem Except.foldlM_induction {σ : Type} {f : σ → β → Except ε σ} (P : List β → σ → Prop) {s s' : σ}
    {xs : List β} (h : xs.foldlM f s = .ok s') (hinit : P [] s)
    (hstep : ∀ done x s s', x ∈ xs → P done s → f s x = .ok s' → P (done ++ [x]) s') : P xs s' := by
  induction xs using List.reverseRecOn generalizing s' with
  | nil =>
    obtain rfl := Except.ok.inj h
    exact hinit
  | append_singleton xs x ih =>
    rw [List.foldlM_append, Except.bind_eq_ok] at h
    obtain ⟨r, hr, hx⟩ := h
    rw [List.foldlM_cons, Except.bind_eq_ok] at hx
    obtain ⟨r', hr', hnil⟩ := hx
    obtain rfl := Except.ok.inj hnil
    exact hstep xs x r r' (by simp)
      (ih hr (fun done y s s' hy => hstep done y s s' (List.mem_append_left _ hy))) hr'

theorem Except.foldlM_visits {σ : Type} {f : σ → β → Except ε σ} {s s' : σ} {xs : List β}
    (h : xs.foldlM f s = .ok s') {x : β} (hx : x ∈ xs) : ∃ r r', f r x = .ok r' := by
  induction xs generalizing s with
  | nil => simp at hx
  | cons y ys ih =>
    rw [List.foldlM_cons, Except.bind_eq_ok] at h
    obtain ⟨r, hr, hrest⟩ := h
    rcases List.mem_cons.mp hx with rfl | hx
    · exact ⟨s, r, hr⟩
    · exact ih hrest hx

/-- Both computations raise the same error, or both return, with related values. -/
inductive Except.Both (R : α → β → Prop) : Except ε α → Except ε β → Prop where
  | ok {a : α} {b : β} (h : R a b) : Both R (.ok a) (.ok b)
  | error (e : ε) : Both R (.error e) (.error e)

theorem Except.Both.bind {α' β' : Type} {R : α → β → Prop} {S : α' → β' → Prop} {x : Except ε α} {y : Except ε β}
    {f : α → Except ε α'} {g : β → Except ε β'} (h : Both R x y) (hfg : ∀ a b, R a b → Both S (f a) (g b)) :
    Both S (x >>= f) (y >>= g) := by
  cases h with
  | ok h => exact hfg _ _ h
  | error e => exact .error e

theorem Except.Both.foldlM {σ σ' : Type} {R : σ → σ' → Prop} {f : σ → β → Except ε σ} {g : σ' → β → Except ε σ'}
    (hstep : ∀ s s' x, R s s' → Both R (f s x) (g s' x)) {s : σ} {s' : σ'} (h : R s s') (xs : List β) :
    Both R (xs.foldlM f s) (xs.foldlM g s') := by
  induction xs generalizing s s' with
  | nil => exact .ok h
  | cons x xs ih =>
    rw [List.foldlM_cons, List.foldlM_cons]
    exact (hstep s s' x h).bind (fun t t' ht => ih ht)

theorem Except.forM_eq_ok {f : β → Except ε Unit} {xs : List β} :
    xs.forM f = .ok () ↔ ∀ x ∈ xs, f x = .ok () := by
  induction xs with
  | nil => exact ⟨fun _ x hx => absurd hx List.not_mem_nil, fun _ => rfl⟩
  | cons x xs ih =>
    rw [List.forall_mem_cons, ← ih]
    exact bind_eq_ok.trans ⟨fun ⟨_, hx, hxs⟩ => ⟨hx, hxs⟩, fun ⟨hx, hxs⟩ => ⟨(), hx, hxs⟩⟩

end Awex
