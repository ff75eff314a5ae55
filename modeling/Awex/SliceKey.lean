import Awex.SliceTensor
import Mathlib.Tactic.Common

namespace Awex

theorem append_cons_inj_of {α : Type} (p : α → Prop) {xs ys rs ss : List α} {c d : α}
    (hx : ∀ x ∈ xs, p x) (hy : ∀ y ∈ ys, p y) (hc : ¬ p c) (hd : ¬ p d)
    (h : xs ++ c :: rs = ys ++ d :: ss) : xs = ys ∧ c :: rs = d :: ss := by
  induction xs generalizing ys with
  | nil =>
    cases ys with
    | nil => exact ⟨rfl, h⟩
    | cons y ys =>
      obtain ⟨rfl, -⟩ := List.cons.inj h
      exact absurd (hy c List.mem_cons_self) hc
  | cons x xs ih =>
    cases ys with
    | nil =>
      obtain ⟨rfl, -⟩ := List.cons.inj h
      exact absurd (hx x List.mem_cons_self) hd
    | cons y ys =>
      obtain ⟨hxy, htail⟩ := List.cons.inj h
      obtain ⟨hxs, hrest⟩ := ih (fun z hz => hx z (List.mem_cons_of_mem _ hz))
        (fun z hz => hy z (List.mem_cons_of_mem _ hz)) htail
      exact ⟨hxy ▸ hxs ▸ rfl, hrest⟩

theorem toDigits_inj {m n : ℕ} (h : Nat.toDigits 10 m = Nat.toDigits 10 n) : m = n := by
  rw [← Nat.ofDigitChars_ten_toDigits (n := m), h, Nat.ofDigitChars_ten_toDigits]

theorem isDigit_of_mem_toDigits {n : ℕ} : ∀ c ∈ Nat.toDigits 10 n, c.isDigit = true :=
  fun _ hc => Nat.isDigit_of_mem_toDigits (by decide) (by decide) hc

theorem digits_comma_inj {m n : ℕ} {rs ss : List Char}
    (h : Nat.toDigits 10 m ++ ',' :: rs = Nat.toDigits 10 n ++ ',' :: ss) : m = n ∧ rs = ss := by
  obtain ⟨hdigits, hrest⟩ := append_cons_inj_of (fun c : Char => c.isDigit = true)
    isDigit_of_mem_toDigits isDigit_of_mem_toDigits (by decide) (by decide) h
  exact ⟨toDigits_inj hdigits, (List.cons.inj hrest).2⟩

theorem Slice.repr_toList (s : Slice) : s.repr.toList =
    ['s', 'l', 'i', 'c', 'e', '('] ++ (Nat.toDigits 10 s.start ++
      ',' :: ' ' :: (Nat.toDigits 10 s.stop ++ ',' :: [' ', 'N', 'o', 'n', 'e', ')'])) := by
  simp [Slice.repr]

theorem Slice.repr_append (s : Slice) (rs : List Char) : s.repr.toList ++ rs =
    ['s', 'l', 'i', 'c', 'e', '('] ++ (Nat.toDigits 10 s.start ++
      ',' :: ' ' :: (Nat.toDigits 10 s.stop ++ ',' :: ([' ', 'N', 'o', 'n', 'e', ')'] ++ rs))) := by
  simp [Slice.repr_toList]

theorem Slice.repr_append_inj {s t : Slice} {rs ss : List Char}
    (h : s.repr.toList ++ rs = t.repr.toList ++ ss) : s = t ∧ rs = ss := by
  rw [Slice.repr_append, Slice.repr_append] at h
  replace h := List.append_cancel_left h
  obtain ⟨hstart, hafter⟩ := digits_comma_inj h
  obtain ⟨hstop, hrest⟩ := digits_comma_inj (List.cons.inj hafter).2
  obtain ⟨start, stop⟩ := s
  obtain ⟨start', stop'⟩ := t
  obtain rfl : start = start' := hstart
  obtain rfl : stop = stop' := hstop
  exact ⟨rfl, List.append_cancel_left hrest⟩

theorem joinSlices_inj {xs ys : List Slice} (h : (joinSlices xs).toList = (joinSlices ys).toList) :
    xs = ys := by
  induction xs generalizing ys with
  | nil =>
    cases ys with
    | nil => rfl
    | cons t ys => simp [joinSlices] at h
  | cons s xs ih =>
    cases ys with
    | nil => simp [joinSlices] at h
    | cons t ys =>
      simp only [joinSlices, String.toList_append, List.append_assoc, List.append_cancel_left_eq] at h
      obtain ⟨hst, hrest⟩ := Slice.repr_append_inj h
      rw [hst, ih hrest]

theorem exists_cons_repr (s : Slice) : ∃ cs, s.repr.toList = 's' :: cs := by
  rw [s.repr_toList]
  exact ⟨_, rfl⟩

theorem slicesRepr_inj {xs ys : List Slice} (h : (slicesRepr xs).toList = (slicesRepr ys).toList) :
    xs = ys := by
  -- a tuple of one slice has a comma before its bracket, a longer one a blank after its comma
  rcases xs with _ | ⟨s, _ | ⟨s', xs⟩⟩ <;> rcases ys with _ | ⟨t, _ | ⟨t', ys⟩⟩
  · rfl
  · obtain ⟨cs, ht⟩ := exists_cons_repr t
    simp [slicesRepr, ht] at h
  · obtain ⟨cs, ht⟩ := exists_cons_repr t
    simp [slicesRepr, ht] at h
  · obtain ⟨cs, hs⟩ := exists_cons_repr s
    simp [slicesRepr, hs] at h
  · simp only [slicesRepr, String.toList_append, List.append_assoc, List.append_cancel_left_eq] at h
    rw [(Slice.repr_append_inj h).1]
  · simp only [slicesRepr, joinSlices, String.toList_append, List.append_assoc,
      List.append_cancel_left_eq] at h
    simpa using (Slice.repr_append_inj h).2
  · obtain ⟨cs, hs⟩ := exists_cons_repr s
    simp [slicesRepr, hs] at h
  · simp only [slicesRepr, joinSlices, String.toList_append, List.append_assoc,
      List.append_cancel_left_eq] at h
    simpa using (Slice.repr_append_inj h).2
  · simp only [slicesRepr, String.toList_append, List.append_assoc, List.append_cancel_left_eq] at h
    obtain ⟨hst, hrest⟩ := Slice.repr_append_inj h
    rw [hst, joinSlices_inj hrest]

theorem Slice.dash_not_mem_repr (s : Slice) : '-' ∉ s.repr.toList := by
  have hdigits : ∀ n : ℕ, '-' ∉ Nat.toDigits 10 n := fun n hn => by
    simpa using isDigit_of_mem_toDigits _ hn
  simp [Slice.repr_toList, hdigits]

theorem dash_not_mem_joinSlices (slices : List Slice) : '-' ∉ (joinSlices slices).toList := by
  induction slices with
  | nil => simp [joinSlices]
  | cons s slices ih => simp [joinSlices, s.dash_not_mem_repr, ih]

theorem dash_not_mem_slicesRepr (slices : List Slice) : '-' ∉ (slicesRepr slices).toList := by
  match slices with
  | [] => simp [slicesRepr]
  | [s] => simp [slicesRepr, s.dash_not_mem_repr]
  | s :: t :: slices => simp [slicesRepr, s.dash_not_mem_repr, dash_not_mem_joinSlices]

/-- The last dash of a key ends the name of the parameter, whatever dashes the name has. -/
theorem sliceKey_inj {name name' : String} {slices slices' : List Slice}
    (h : sliceKey name slices = sliceKey name' slices') : name = name' ∧ slices = slices' := by
  have hone : "-".toList.reverse = ['-'] := rfl
  have hlist := congrArg (fun key => key.toList.reverse) h
  simp only [sliceKey, String.toList_append, List.reverse_append, List.append_assoc, hone,
    List.singleton_append] at hlist
  have hdash : ∀ ss : List Slice, ∀ c ∈ (slicesRepr ss).toList.reverse, c ≠ '-' := by
    rintro ss c hc rfl
    exact dash_not_mem_slicesRepr ss (List.mem_reverse.mp hc)
  obtain ⟨hslices, hname⟩ := append_cons_inj_of (fun c : Char => c ≠ '-') (hdash slices)
    (hdash slices') (by simp) (by simp) hlist
  obtain ⟨-, hname⟩ := List.cons.inj hname
  exact ⟨String.toList_inj.mp (List.reverse_inj.mp hname), slicesRepr_inj (List.reverse_inj.mp hslices)⟩

end Awex
