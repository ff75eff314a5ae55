import Awex.Library.Numerals
import Mathlib.Data.List.Infix

namespace Awex.Text

/-- Before and after the first occurrence of `sep`. -/
def splitFirst (sep : List Char) : List Char → Option (List Char × List Char)
  | [] => none
  | c :: cs =>
    if sep <+: c :: cs then some ([], (c :: cs).drop sep.length)
    else (splitFirst sep cs).map (fun (before, after) => (c :: before, after))

/-- Before and after the last occurrence of `sep`. -/
def splitLast (sep : List Char) : List Char → Option (List Char × List Char)
  | [] => none
  | c :: cs =>
    match splitLast sep cs with
    | some (before, after) => some (c :: before, after)
    | none => if sep <+: c :: cs then some ([], (c :: cs).drop sep.length) else none

/-- Every occurrence of `old`, from the left, with `new` for it; `skip` characters still belong to
the last one. -/
def replaceFrom (old new : List Char) : ℕ → List Char → List Char
  | _, [] => []
  | skip + 1, _ :: cs => replaceFrom old new skip cs
  | 0, c :: cs =>
    if old <+: c :: cs then new ++ replaceFrom old new (old.length - 1) cs
    else c :: replaceFrom old new 0 cs

def replaceAll (old new text : List Char) : List Char := replaceFrom old new 0 text

/-- The first occurrence of `old`, with `new` for it. -/
def replaceFirst (old new text : List Char) : List Char :=
  match splitFirst old text with
  | none => text
  | some (before, after) => before ++ (new ++ after)

def components (text : List Char) : List (List Char) := text.splitOn '.'

def digits (n : ℕ) : List Char := Nat.toDigits 10 n

/-- Decimal digits of any script. -/
def isNumeral (text : List Char) : Prop := text ≠ [] ∧ ∀ c ∈ text, (decimal? c).isSome

instance (text : List Char) : Decidable (isNumeral text) :=
  have := List.decidableBAll (fun c : Char => (decimal? c).isSome = true) text
  inferInstanceAs (Decidable (_ ∧ _))

def numeral? (text : List Char) : Option ℕ :=
  if isNumeral text then some (text.foldl (fun n c => 10 * n + (decimal? c).getD 0) 0) else none

theorem decimal?_of_isDigit {c : Char} (h : c.isDigit) : decimal? c = some (c.toNat - '0'.toNat) := by
  obtain ⟨hlow, hhigh⟩ := Char.isDigit_iff_toNat.mp h
  have hzero : 0x30 ≤ c.toNat ∧ c.toNat < 0x30 + 10 := ⟨hlow, Nat.lt_succ_of_le hhigh⟩
  rw [decimal?, decimalZeros, List.findSome?_cons, if_pos hzero]
  rfl

theorem decimal?_of_not_isDigit {c : Char} (hascii : c.toNat < 128) (h : c.isDigit = false) : decimal? c = none := by
  have hzeros : ∀ z ∈ decimalZeros, z = 0x30 ∨ 128 ≤ z := by
    decide
  apply List.findSome?_eq_none_iff.mpr
  intro z hz
  apply if_neg
  rintro ⟨hle, hlt⟩
  rcases hzeros z hz with rfl | hz
  · rw [Char.isDigit_iff_toNat.mpr ⟨hle, Nat.le_of_lt_succ hlt⟩] at h
    cases h
  · omega

theorem isNumeral_of_numeral? {text : List Char} {n : ℕ} (h : numeral? text = some n) : isNumeral text := by
  rw [numeral?] at h
  split_ifs at h with hnumeral
  exact hnumeral

theorem digits_ne_nil (n : ℕ) : digits n ≠ [] := Nat.toDigits_ne_nil

theorem isDigit_of_mem_digits {n : ℕ} {c : Char} (h : c ∈ digits n) : c.isDigit :=
  Nat.isDigit_of_mem_toDigits (by decide) (by decide) h

theorem numeral?_digits (n : ℕ) : numeral? (digits n) = some n := by
  have hdecimal : ∀ c ∈ digits n, decimal? c = some (c.toNat - '0'.toNat) :=
    fun c hc => decimal?_of_isDigit (isDigit_of_mem_digits hc)
  have hnumeral : isNumeral (digits n) := ⟨digits_ne_nil n, fun c hc => by rw [hdecimal c hc, Option.isSome_some]⟩
  rw [numeral?, if_pos hnumeral]
  apply congrArg some
  calc (digits n).foldl (fun n c => 10 * n + (decimal? c).getD 0) 0
      = (digits n).foldl (fun n c => 10 * n + (c.toNat - '0'.toNat)) 0 := by
        apply List.foldl_ext
        intro m c hc
        rw [hdecimal c hc, Option.getD_some]
    _ = Nat.ofDigitChars 10 (digits n) 0 := Nat.ofDigitChars_eq_foldl.symm
    _ = n := Nat.ofDigitChars_ten_toDigits

theorem digits_injective {m n : ℕ} (h : digits m = digits n) : m = n := by
  have hm := numeral?_digits m
  rw [h, numeral?_digits] at hm
  exact (Option.some.inj hm).symm

theorem not_mem_digits {n : ℕ} {c : Char} (hc : c.isDigit = false) : c ∉ digits n := by
  intro h
  have := isDigit_of_mem_digits h
  simp [hc] at this

theorem components_append (xs ys : List Char) : components (xs ++ '.' :: ys) = components xs ++ components ys :=
  List.splitOn_append_cons_self xs ys

theorem components_digits (n : ℕ) : components (digits n) = [digits n] :=
  List.splitOn_eq_singleton (not_mem_digits (by decide))

theorem infix_around {frag before between after : List Char} (hne : between ≠ [])
    (hapart : ∀ c ∈ between, c ∉ frag) :
    frag <:+: before ++ (between ++ after) ↔ frag <:+: before ∨ frag <:+: after := by
  constructor
  · rintro ⟨left, right, h⟩
    rw [List.append_assoc, List.append_eq_append_iff] at h
    obtain ⟨rest, rfl, h⟩ | ⟨rest, rfl, h⟩ := h
    · rw [List.append_eq_append_iff] at h
      obtain ⟨rest', rfl, -⟩ | ⟨rest', rfl, h⟩ := h
      · rw [← List.append_assoc]
        exact .inl (List.infix_append left frag rest')
      · cases rest' with
        | nil =>
          rw [List.append_nil]
          exact .inl (List.suffix_append left rest).isInfix
        | cons c cs =>
          obtain ⟨b, bs, rfl⟩ := List.exists_cons_of_ne_nil hne
          obtain rfl := (List.cons.inj h).1
          exact absurd (List.mem_append_right rest List.mem_cons_self) (hapart b List.mem_cons_self)
    · rw [List.append_eq_append_iff] at h
      obtain ⟨rest', rfl, h⟩ | ⟨rest', rfl, h⟩ := h
      · rw [h, ← List.append_assoc]
        exact .inr (List.infix_append rest' frag right)
      · cases rest' with
        | nil =>
          rw [List.nil_append] at h
          rw [← h]
          exact .inr (List.prefix_append frag right).isInfix
        | cons c cs =>
          cases frag with
          | nil => exact .inl List.nil_infix
          | cons f fs =>
            obtain rfl := (List.cons.inj h).1
            exact absurd List.mem_cons_self (hapart f (List.mem_append_right rest List.mem_cons_self))
  · rintro (h | h)
    · exact h.trans (List.infix_append' [] before _)
    · exact h.trans ((List.suffix_append _ _).trans (List.suffix_append _ _)).isInfix

theorem replaceFrom_eq {old new text : List Char} (h : ¬ old <:+: text) :
    replaceFrom old new 0 text = text := by
  induction text with
  | nil => rfl
  | cons c cs ih =>
    have hstart : ¬ old <+: c :: cs := fun hp => h hp.isInfix
    have hrest : ¬ old <:+: cs := fun hi => h (hi.trans (List.suffix_cons c cs).isInfix)
    rw [replaceFrom, if_neg hstart, ih hrest]

theorem replaceFrom_skip (old new before text : List Char) :
    replaceFrom old new before.length (before ++ text) = replaceFrom old new 0 text := by
  induction before with
  | nil => rfl
  | cons c cs ih => exact ih

theorem replaceAll_prefix {old new text : List Char} (hold : old ≠ []) (h : ¬ old <:+: text) :
    replaceAll old new (old ++ text) = new ++ text := by
  obtain ⟨c, cs, rfl⟩ := List.exists_cons_of_ne_nil hold
  rw [replaceAll, List.cons_append, replaceFrom, if_pos ⟨text, rfl⟩, List.length_cons, Nat.add_sub_cancel,
    replaceFrom_skip, replaceFrom_eq h]

theorem replaceAll_once {old before after : List Char} (new : List Char) (hold : old ≠ [])
    (hbefore : ¬ old <:+: before ++ old.dropLast) (hafter : ¬ old <:+: after) :
    replaceAll old new (before ++ (old ++ after)) = before ++ (new ++ after) := by
  induction before with
  | nil => exact replaceAll_prefix hold hafter
  | cons c cs ih =>
    rw [List.cons_append] at hbefore
    have hstart : ¬ old <+: c :: (cs ++ (old ++ after)) := by
      intro hp
      apply hbefore
      apply List.IsPrefix.isInfix
      apply List.prefix_of_prefix_length_le hp
      · obtain ⟨last, hlast⟩ := List.dropLast_prefix old
        exact ⟨last ++ after, by rw [List.cons_append, List.append_assoc, ← List.append_assoc _ last, hlast]⟩
      · have hpos := List.length_pos_of_ne_nil hold
        rw [List.length_cons, List.length_append, List.length_dropLast]
        omega
    have hrest : ¬ old <:+: cs ++ old.dropLast := fun hi => hbefore (hi.trans (List.suffix_cons c _).isInfix)
    rw [List.cons_append, replaceAll, replaceFrom, if_neg hstart, ← replaceAll, ih hrest, List.cons_append]

theorem splitFirst_eq_none {sep text : List Char} (h : ¬ sep <:+: text) : splitFirst sep text = none := by
  induction text with
  | nil => rfl
  | cons c cs ih =>
    obtain ⟨hstart, hrest⟩ := not_or.mp (mt List.infix_cons_iff.mpr h)
    rw [splitFirst, if_neg hstart, ih hrest]
    rfl

theorem splitLast_eq_none {sep text : List Char} (h : ¬ sep <:+: text) : splitLast sep text = none := by
  induction text with
  | nil => rfl
  | cons c cs ih =>
    obtain ⟨hstart, hrest⟩ := not_or.mp (mt List.infix_cons_iff.mpr h)
    rw [splitLast, ih hrest, if_neg hstart]

theorem splitFirst_append {c : Char} {cs before after : List Char} (h : c ∉ before) :
    splitFirst (c :: cs) (before ++ (c :: cs ++ after)) = some (before, after) := by
  induction before with
  | nil => simp [splitFirst, List.cons_prefix_cons]
  | cons b bs ih =>
    have hb : c ≠ b := fun hb => h (hb ▸ List.mem_cons_self)
    rw [List.cons_append, splitFirst, ih (fun hc => h (List.mem_cons_of_mem b hc))]
    simp [List.cons_prefix_cons, hb]

theorem splitFirst_eq_some {sep text before after : List Char} (hsep : sep ≠ [])
    (h : splitFirst sep text = some (before, after)) :
    text = before ++ (sep ++ after) ∧ ∀ rest, splitFirst sep (before ++ (sep ++ rest)) = some (before, rest) := by
  induction text generalizing before with
  | nil => cases h
  | cons c cs ih =>
    rw [splitFirst] at h
    split_ifs at h with hstart
    · obtain ⟨rest, hrest⟩ := hstart
      rw [← hrest, List.drop_left, Option.some_inj, Prod.mk.injEq] at h
      obtain ⟨rfl, rfl⟩ := h
      refine ⟨hrest.symm, fun rest' => ?_⟩
      obtain ⟨s, ss, rfl⟩ := List.exists_cons_of_ne_nil hsep
      rw [List.nil_append, List.cons_append, splitFirst, ← List.cons_append, if_pos (List.prefix_append _ _),
        List.drop_left]
    · obtain ⟨⟨before', after'⟩, hsplit, hpair⟩ := Option.map_eq_some_iff.mp h
      rw [Prod.mk.injEq] at hpair
      obtain ⟨rfl, rfl⟩ := hpair
      obtain ⟨rfl, hrest⟩ := ih hsplit
      refine ⟨rfl, fun rest => ?_⟩
      have hstart' : ¬ sep <+: c :: (before' ++ (sep ++ rest)) := by
        intro hs
        apply hstart
        have hshort : sep <+: c :: before' ++ sep := by
          apply List.prefix_of_prefix_length_le hs
          · exact ⟨rest, by simp⟩
          · simp only [List.cons_append, List.length_cons, List.length_append]
            omega
        exact hshort.trans ⟨after', by simp⟩
      rw [List.cons_append, splitFirst, if_neg hstart', hrest]
      rfl

theorem replaceFirst_prefix {old : List Char} (hold : old ≠ []) (new rest : List Char) :
    replaceFirst old new (old ++ rest) = new ++ rest := by
  have hsplit : splitFirst old (old ++ rest) = some ([], rest) := by
    obtain ⟨c, cs, rfl⟩ := List.exists_cons_of_ne_nil hold
    rw [List.cons_append, splitFirst, ← List.cons_append, if_pos (List.prefix_append _ _), List.drop_left]
  rw [replaceFirst, hsplit]
  rfl

theorem not_mem_of_splitFirst {c : Char} {text before after : List Char}
    (h : splitFirst [c] text = some (before, after)) : c ∉ before := by
  induction text generalizing before with
  | nil => cases h
  | cons b bs ih =>
    rw [splitFirst] at h
    split_ifs at h with hstart
    · obtain ⟨rfl, -⟩ := Prod.mk.inj (Option.some.inj h)
      exact List.not_mem_nil
    · obtain ⟨⟨before', after'⟩, hsplit, hpair⟩ := Option.map_eq_some_iff.mp h
      obtain ⟨rfl, rfl⟩ := Prod.mk.inj hpair
      intro hmem
      obtain rfl | hmem := List.mem_cons.mp hmem
      · exact hstart (by simp [List.cons_prefix_cons])
      · exact ih hsplit hmem

theorem splitLast_eq_some {sep text before after : List Char} (h : splitLast sep text = some (before, after)) :
    text = before ++ (sep ++ after) := by
  induction text generalizing before with
  | nil => cases h
  | cons c cs ih =>
    rw [splitLast] at h
    cases hsplit : splitLast sep cs with
    | some parts =>
      rw [hsplit, Option.some_inj, Prod.mk.injEq] at h
      obtain ⟨rfl, rfl⟩ := h
      rw [ih hsplit, List.cons_append]
    | none =>
      rw [hsplit] at h
      dsimp only at h
      split_ifs at h with hstart
      obtain ⟨rest, hrest⟩ := hstart
      rw [← hrest, List.drop_left, Option.some_inj, Prod.mk.injEq] at h
      obtain ⟨rfl, rfl⟩ := h
      exact hrest.symm

theorem splitLast_append {sep after : List Char} (before : List Char) (hsep : sep ≠ [])
    (h : ¬ sep <:+: sep.tail ++ after) : splitLast sep (before ++ (sep ++ after)) = some (before, after) := by
  induction before with
  | nil =>
    obtain ⟨c, cs, rfl⟩ := List.exists_cons_of_ne_nil hsep
    rw [List.tail_cons] at h
    rw [List.nil_append, List.cons_append, splitLast, splitLast_eq_none h]
    simp [List.cons_prefix_cons]
  | cons c cs ih => rw [List.cons_append, splitLast, ih]

end Awex.Text
