/-
  StructuralDiff.Proofs.Toml.Remainders

  What readers leave.

  Whatever a reader reads, it takes off the front of the text it is given, and
  leaves an end of that text (`Leaves`).  Each reader of the format does so: its
  parts do, and where it repeats them, so does every round.
-/

import Mathlib.Data.List.Basic
import StructuralDiff.Toml.Document

namespace StructuralDiff.Toml

/-- The reader leaves an end of the text. -/
def Leaves {α : Type} (r : Reader α) : Prop := ∀ s x rest, r s = some (x, rest) → rest <:+ s

variable {α β : Type} {s t rest : List Char} {c : Char}

/-- What a reader reads may be put into another form. -/
theorem Leaves.of_map {r : Reader α} (hr : Leaves r) {f : α × List Char → β × List Char} {x : β}
    (h : (r s).map f = some (x, rest)) (hf : ∀ p, (f p).2 = p.2) : rest <:+ s := by
  obtain ⟨p, hp, heq⟩ := Option.map_eq_some_iff.mp h
  have hrest : p.2 = rest := (hf p).symm.trans (congrArg Prod.snd heq)
  exact hrest ▸ hr s p.1 p.2 hp

theorem suffix_cons_of_suffix (h : rest <:+ s) (c : Char) : rest <:+ c :: s :=
  h.trans (List.suffix_cons c s)

theorem suffix_of_cons_suffix (h : c :: rest <:+ s) : rest <:+ s :=
  (List.suffix_cons c rest).trans h

-- ============================================================================
-- Blanks and ends of lines
-- ============================================================================

theorem skipBlanks_suffix (s : List Char) : skipBlanks s <:+ s := List.dropWhile_suffix _

theorem newline?_suffix (h : newline? s = some rest) : rest <:+ s := by
  unfold newline? at h
  split at h
  · cases h; exact List.suffix_cons _ _
  · cases h; exact suffix_cons_of_suffix (List.suffix_cons _ _) _
  · cases h

theorem skipComment_suffix (s : List Char) : skipComment s <:+ s := by
  unfold skipComment
  split
  · exact suffix_cons_of_suffix (List.dropWhile_suffix _) _
  · exact List.suffix_refl s

theorem lineEnd?_suffix (h : lineEnd? s = some rest) : rest <:+ s := by
  have hskip : skipComment (skipBlanks s) <:+ s :=
    (skipComment_suffix _).trans (skipBlanks_suffix s)
  unfold lineEnd? at h
  split at h
  · cases h; exact List.nil_suffix
  · exact (newline?_suffix h).trans hskip

theorem skipBlankLines_suffix (s : List Char) : skipBlankLines s <:+ s := by
  fun_induction skipBlankLines s with
  | case1 rest ih => exact suffix_cons_of_suffix (suffix_cons_of_suffix ih _) _
  | case2 rest ih => exact suffix_cons_of_suffix ih _
  | case3 rest ih => exact suffix_cons_of_suffix ih _
  | case4 rest ih => exact suffix_cons_of_suffix ih _
  | case5 => exact List.suffix_refl _

theorem skipFiller?_suffix {inComment : Bool} (h : skipFiller? inComment s = some rest) :
    rest <:+ s := by
  fun_induction skipFiller? inComment s with
  | _ => grind [suffix_cons_of_suffix]

-- ============================================================================
-- Strings
-- ============================================================================

theorem andThen_eq_some {r : Option (List Char × List Char)} {x : List Char}
    (h : andThen c r = some (x, rest)) : ∃ y, r = some (y, rest) := by
  obtain ⟨⟨y, _⟩, hr, heq⟩ := Option.map_eq_some_iff.mp h
  cases heq
  exact ⟨y, hr⟩

theorem codePoint_leaves (digits : Nat) : Leaves (codePoint digits) := by
  intro s x rest h
  simp only [codePoint] at h
  split at h
  · cases h; exact List.drop_suffix _ _
  · cases h

theorem escape_leaves : Leaves escape := by
  intro s x rest h
  unfold escape at h
  split at h
  all_goals grind [suffix_cons_of_suffix, codePoint_leaves, Leaves]

theorem literalString_leaves : Leaves literalString := by
  intro s x rest h
  fun_induction literalString s generalizing x with
  | _ => grind [suffix_cons_of_suffix, andThen_eq_some]

theorem closingQuotes_suffix (quote : Char) (s : List Char) : (closingQuotes quote s).2 <:+ s := by
  unfold closingQuotes
  split
  all_goals grind [suffix_cons_of_suffix]

theorem basicString_leaves (n : Nat) : Leaves (basicString n) := by
  intro s x rest h
  fun_induction basicString n s generalizing x with
  | case1 => cases h
  | case2 => cases h; exact List.suffix_cons _ _
  | case3 n t ih =>
    obtain ⟨⟨y, t'⟩, hescape, h⟩ := Option.bind_eq_some_iff.mp h
    obtain ⟨z, h⟩ := andThen_eq_some h
    exact suffix_cons_of_suffix ((ih _ _ h).trans (escape_leaves _ _ _ hescape)) _
  | case4 n c t _ _ htext ih =>
    obtain ⟨z, h⟩ := andThen_eq_some h
    exact suffix_cons_of_suffix (ih _ h) _
  | case5 => cases h
  | case6 => cases h

theorem literalLines_leaves : Leaves literalLines := by
  intro s x rest h
  fun_induction literalLines s generalizing x with
  | _ => grind [suffix_cons_of_suffix, andThen_eq_some, closingQuotes_suffix]

theorem basicLines_leaves (n : Nat) : Leaves (basicLines n) := by
  intro s x rest h
  fun_induction basicLines n s generalizing x with
  | case1 => cases h
  | case2 n t =>
    have hclose : rest <:+ t := by
      have hsuffix := closingQuotes_suffix '"' t
      rw [Option.some.inj h] at hsuffix
      exact hsuffix
    exact suffix_cons_of_suffix (suffix_cons_of_suffix (suffix_cons_of_suffix hclose _) _) _
  | case3 n t next hnext ih =>
    have hskip : skipBlankLines next <:+ t :=
      (skipBlankLines_suffix next).trans ((newline?_suffix hnext).trans (skipBlanks_suffix t))
    exact suffix_cons_of_suffix ((ih _ h).trans hskip) _
  | case4 n t hnext ih =>
    obtain ⟨⟨y, t'⟩, hescape, h⟩ := Option.bind_eq_some_iff.mp h
    obtain ⟨z, h⟩ := andThen_eq_some h
    exact suffix_cons_of_suffix ((ih _ _ h).trans (escape_leaves _ _ _ hescape)) _
  | case5 n t ih =>
    obtain ⟨z, h⟩ := andThen_eq_some h
    exact suffix_cons_of_suffix (suffix_cons_of_suffix (ih _ h) _) _
  | case6 n c t _ _ _ htext ih =>
    obtain ⟨z, h⟩ := andThen_eq_some h
    exact suffix_cons_of_suffix (ih _ h) _
  | case7 => cases h
  | case8 => cases h

theorem dropNewline_suffix (s : List Char) : dropNewline s <:+ s := by
  rw [dropNewline]
  cases h : newline? s with
  | some rest => exact newline?_suffix h
  | none => exact List.suffix_refl s

theorem string_leaves : Leaves string := by
  intro s x rest h
  unfold string at h
  split at h
  · have hbody := (basicLines_leaves _ _ _ _ h).trans (dropNewline_suffix _)
    exact suffix_cons_of_suffix (suffix_cons_of_suffix (suffix_cons_of_suffix hbody _) _) _
  · exact suffix_cons_of_suffix (basicString_leaves _ _ _ _ h) _
  · have hbody := (literalLines_leaves _ _ _ h).trans (dropNewline_suffix _)
    exact suffix_cons_of_suffix (suffix_cons_of_suffix (suffix_cons_of_suffix hbody _) _) _
  · exact suffix_cons_of_suffix (literalString_leaves _ _ _ h) _
  · cases h

-- ============================================================================
-- Keys
-- ============================================================================

theorem keyPart_leaves : Leaves keyPart := by
  intro s x rest h
  unfold keyPart at h
  split at h
  · exact suffix_cons_of_suffix ((basicString_leaves _).of_map h fun _ => rfl) _
  · exact suffix_cons_of_suffix (literalString_leaves.of_map h fun _ => rfl) _
  · split at h
    · cases h
    · cases h; exact List.dropWhile_suffix _

theorem key_leaves (n : Nat) : Leaves (key n) := by
  induction n with
  | zero =>
    intro s x rest h
    cases h
  | succ n ih =>
    intro s x rest h
    rw [key] at h
    cases hpart : keyPart (skipBlanks s) with
    | none => simp only [hpart, reduceCtorEq] at h
    | some p =>
      have hbehind : skipBlanks p.2 <:+ s :=
        (skipBlanks_suffix p.2).trans ((keyPart_leaves _ _ _ hpart).trans (skipBlanks_suffix s))
      simp only [hpart] at h
      split at h
      · next more heq =>
        have hmore : more <:+ s := suffix_of_cons_suffix (heq ▸ hbehind)
        exact (ih.of_map h fun _ => rfl).trans hmore
      · cases h; exact hbehind

-- ============================================================================
-- Numbers
-- ============================================================================

theorem moreDigits_leaves (isDigit : Char → Bool) : Leaves (moreDigits isDigit) := by
  intro s x rest h
  fun_induction moreDigits isDigit s generalizing x with
  | _ => grind [suffix_cons_of_suffix, andThen_eq_some]

theorem someDigits_leaves (isDigit : Char → Bool) : Leaves (someDigits isDigit) := by
  intro s x rest h
  unfold someDigits at h
  split at h
  · split at h
    · obtain ⟨y, h⟩ := andThen_eq_some h
      exact suffix_cons_of_suffix (moreDigits_leaves _ _ _ _ h) _
    · cases h
  · cases h

theorem decimalDigits_leaves : Leaves decimalDigits := by
  intro s x rest h
  unfold decimalDigits at h
  split at h
  · cases h; exact List.suffix_cons _ _
  · exact someDigits_leaves _ _ _ _ h

theorem sign_suffix (s : List Char) : (sign s).2 <:+ s := by
  unfold sign
  split
  · exact List.suffix_cons _ _
  · exact List.suffix_cons _ _
  · exact List.suffix_refl s

theorem integerInBase_leaves (base : Nat) : Leaves (integerInBase base) := by
  intro s x rest h
  unfold integerInBase at h
  split at h
  · next digits rest' hdigits =>
    dsimp only at h
    split at h
    · cases h; exact someDigits_leaves _ _ _ _ hdigits
    · cases h
  · cases h

theorem fraction_leaves : Leaves fraction := by
  intro s x rest h
  unfold fraction at h
  split at h
  · exact suffix_cons_of_suffix ((someDigits_leaves _).of_map h fun _ => rfl) _
  · cases h; exact List.suffix_refl _

theorem exponent_leaves : Leaves exponent := by
  intro s x rest h
  unfold exponent at h
  split at h
  · cases h; exact List.suffix_refl _
  · next c t =>
    split at h
    · have hunsigned : rest <:+ (sign t).2 := (someDigits_leaves _).of_map h fun _ => rfl
      exact suffix_cons_of_suffix (hunsigned.trans (sign_suffix t)) _
    · cases h; exact List.suffix_refl _

theorem decimal_leaves (negative : Bool) : Leaves (decimal negative) := by
  intro s x rest h
  simp only [decimal, Option.bind_eq_bind, Option.bind_eq_some_iff] at h
  obtain ⟨⟨whole, s₁⟩, hwhole, ⟨places, s₂⟩, hplaces, ⟨power, s₃⟩, hpower, h⟩ := h
  have hs₃ : s₃ <:+ s := (exponent_leaves _ _ _ hpower).trans
    ((fraction_leaves _ _ _ hplaces).trans (decimalDigits_leaves _ _ _ hwhole))
  dsimp only at h
  split at h
  · split at h
    · cases h; exact hs₃
    · cases h
  · split at h
    · cases h
    · cases h; exact hs₃

theorem number_leaves : Leaves number := by
  intro s x rest h
  unfold number at h
  split at h
  · next t =>
    have ht : rest <:+ t := (integerInBase_leaves _).of_map h fun _ => rfl
    exact suffix_cons_of_suffix (suffix_cons_of_suffix ht _) _
  · next t =>
    have ht : rest <:+ t := (integerInBase_leaves _).of_map h fun _ => rfl
    exact suffix_cons_of_suffix (suffix_cons_of_suffix ht _) _
  · next t =>
    have ht : rest <:+ t := (integerInBase_leaves _).of_map h fun _ => rfl
    exact suffix_cons_of_suffix (suffix_cons_of_suffix ht _) _
  · have hsign := sign_suffix s
    split at h
    · next heq =>
      rw [heq] at hsign
      cases h
      exact suffix_of_cons_suffix (suffix_of_cons_suffix (suffix_of_cons_suffix hsign))
    · next heq =>
      rw [heq] at hsign
      cases h
      exact suffix_of_cons_suffix (suffix_of_cons_suffix (suffix_of_cons_suffix hsign))
    · next heq =>
      rw [heq] at hsign
      exact (decimal_leaves _ _ _ _ h).trans hsign

-- ============================================================================
-- Dates and times
-- ============================================================================

theorem fixed_leaves (count low high : Nat) : Leaves (fixed count low high) := by
  intro s x rest h
  simp only [fixed] at h
  split at h
  · cases h; exact List.drop_suffix _ _
  · cases h

theorem behind?_eq_some (h : behind? c s = some rest) : s = c :: rest := by
  unfold behind? at h
  split at h
  · split at h
    · next heq => cases h; rw [heq]
    · cases h
  · cases h

theorem behind?_suffix (h : behind? c s = some rest) : rest <:+ s :=
  behind?_eq_some h ▸ List.suffix_cons _ _

theorem date_leaves : Leaves date := by
  intro s x rest h
  simp only [date, Option.bind_eq_bind, Option.bind_eq_some_iff] at h
  obtain ⟨⟨year, s₁⟩, hyear, s₂, h₂, ⟨month, s₃⟩, hmonth, s₄, h₄, ⟨day, s₅⟩, hday, h⟩ := h
  cases h
  exact (fixed_leaves _ _ _ _ _ _ hday).trans ((behind?_suffix h₄).trans
    ((fixed_leaves _ _ _ _ _ _ hmonth).trans ((behind?_suffix h₂).trans
      (fixed_leaves _ _ _ _ _ _ hyear))))

theorem skipFraction_suffix (s : List Char) : skipFraction s <:+ s := by
  unfold skipFraction
  split
  · split
    · exact suffix_cons_of_suffix (suffix_cons_of_suffix (List.dropWhile_suffix _) _) _
    · exact List.suffix_refl _
  · exact List.suffix_refl _

theorem time_leaves : Leaves time := by
  intro s x rest h
  simp only [time, Option.bind_eq_bind, Option.bind_eq_some_iff] at h
  obtain ⟨⟨hour, s₁⟩, hhour, s₂, h₂, ⟨minute, s₃⟩, hminute, s₄, h₄, ⟨second, s₅⟩, hsecond, h⟩ := h
  cases h
  exact (skipFraction_suffix _).trans ((fixed_leaves _ _ _ _ _ _ hsecond).trans
    ((behind?_suffix h₄).trans ((fixed_leaves _ _ _ _ _ _ hminute).trans
      ((behind?_suffix h₂).trans (fixed_leaves _ _ _ _ _ _ hhour)))))

theorem offset_leaves : Leaves offset := by
  intro s x rest h
  unfold offset at h
  split at h
  · cases h; exact List.suffix_cons _ _
  · cases h; exact List.suffix_cons _ _
  · next c t _ _ =>
    by_cases hc : (c != '+' && c != '-') = true
    · rw [if_pos hc] at h
      cases h
    · rw [if_neg hc] at h
      simp only [Option.bind_eq_bind, Option.bind_eq_some_iff] at h
      obtain ⟨⟨hour, s₁⟩, hhour, s₂, h₂, ⟨minute, s₃⟩, hminute, h⟩ := h
      cases h
      exact suffix_cons_of_suffix ((fixed_leaves _ _ _ _ _ _ hminute).trans
        ((behind?_suffix h₂).trans (fixed_leaves _ _ _ _ _ _ hhour))) _
  · cases h

theorem timeOfDay_leaves : Leaves timeOfDay := by
  intro s x rest h
  unfold timeOfDay at h
  split at h
  · next c t =>
    split at h
    · have ht : rest <:+ t := by
        obtain ⟨⟨day, t'⟩, htime, heq⟩ := Option.map_eq_some_iff.mp h
        have ht' : t' <:+ t := time_leaves _ _ _ htime
        dsimp only at heq
        split at heq
        · next hoffset => cases heq; exact (offset_leaves _ _ _ hoffset).trans ht'
        · cases heq; exact ht'
      exact suffix_cons_of_suffix ht _
    · cases h
  · cases h

theorem moment_leaves : Leaves moment := by
  intro s x rest h
  unfold moment at h
  split at h
  · next hdate =>
    split at h
    · next htime => cases h; exact (timeOfDay_leaves _ _ _ htime).trans (date_leaves _ _ _ hdate)
    · cases h; exact date_leaves _ _ _ hdate
  · exact time_leaves.of_map h fun _ => rfl

-- ============================================================================
-- Values
-- ============================================================================

theorem scalar_leaves : Leaves scalar := by
  intro s x rest h
  unfold scalar at h
  split at h
  · cases h
    exact suffix_cons_of_suffix (suffix_cons_of_suffix
      (suffix_cons_of_suffix (List.suffix_cons _ _) _) _) _
  · cases h
    exact suffix_cons_of_suffix (suffix_cons_of_suffix (suffix_cons_of_suffix
      (suffix_cons_of_suffix (List.suffix_cons _ _) _) _) _) _
  · split at h
    · next hstring => cases h; exact string_leaves _ _ _ hstring
    · split at h
      · next hmoment => cases h; exact moment_leaves _ _ _ hmoment
      · exact number_leaves.of_map h fun _ => rfl

theorem splitKey_leaves : Leaves splitKey := by
  intro s x rest h
  obtain ⟨p, hp, h⟩ := Option.bind_eq_some_iff.mp h
  obtain ⟨last, -, heq⟩ := Option.map_eq_some_iff.mp h
  cases heq
  exact key_leaves _ _ _ _ hp

section

variable {item : Reader Item}

/-- A pair takes its equals sign at least. -/
theorem pair_takes (hitem : Leaves item) {p : (List String × String) × Item}
    (h : pair item s = some (p, rest)) : ∃ t, rest <:+ t ∧ '=' :: t <:+ s := by
  simp only [pair, Option.bind_eq_bind, Option.bind_eq_some_iff] at h
  obtain ⟨⟨k, s₁⟩, hkey, t, ht, ⟨x, s₂⟩, hx, h⟩ := h
  cases h
  refine ⟨t, (hitem _ _ _ hx).trans (skipBlanks_suffix t), ?_⟩
  exact behind?_eq_some ht ▸ splitKey_leaves _ _ _ hkey

theorem pair_suffix (hitem : Leaves item) {p : (List String × String) × Item}
    (h : pair item s = some (p, rest)) : rest <:+ s := by
  obtain ⟨t, hrest, ht⟩ := pair_takes hitem h
  exact hrest.trans (suffix_of_cons_suffix ht)

theorem arrayItems_leaves (hitem : Leaves item) (n : Nat) : Leaves (arrayItems item n) := by
  induction n with
  | zero =>
    intro s x rest h
    cases h
  | succ n ih =>
    intro s x rest h
    simp only [arrayItems, Option.bind_eq_bind, Option.bind_eq_some_iff] at h
    obtain ⟨s₁, h₁, h⟩ := h
    have hs₁ : s₁ <:+ s := skipFiller?_suffix h₁
    by_cases hclose : s₁.head? = some ']'
    · rw [if_pos hclose] at h
      cases h
      exact (List.tail_suffix s₁).trans hs₁
    · rw [if_neg hclose] at h
      simp only [Option.bind_eq_some_iff] at h
      obtain ⟨⟨y, s₂⟩, hy, s₃, h₃, h⟩ := h
      have hs₃ : s₃ <:+ s := (skipFiller?_suffix h₃).trans ((hitem _ _ _ hy).trans hs₁)
      split at h
      · exact (ih.of_map h fun _ => rfl).trans (suffix_of_cons_suffix hs₃)
      · cases h; exact suffix_of_cons_suffix hs₃
      · cases h

theorem morePairs_leaves (hitem : Leaves item) (n : Nat) : Leaves (morePairs item n) := by
  induction n with
  | zero =>
    intro s x rest h
    cases h
  | succ n ih =>
    intro s x rest h
    have hskip := skipBlanks_suffix s
    rw [morePairs] at h
    split at h
    · next heq => cases h; exact suffix_of_cons_suffix (heq ▸ hskip)
    · next t heq =>
      simp only [Option.bind_eq_bind, Option.bind_eq_some_iff] at h
      obtain ⟨⟨p, s₁⟩, hp, ⟨ps, s₂⟩, hps, h⟩ := h
      cases h
      have hs₁ : s₁ <:+ s := (pair_suffix hitem hp).trans (suffix_of_cons_suffix (heq ▸ hskip))
      exact (ih _ _ _ hps).trans hs₁
    · cases h

theorem tablePairs_leaves (hitem : Leaves item) : Leaves (tablePairs item) := by
  intro s x rest h
  have hskip := skipBlanks_suffix s
  unfold tablePairs at h
  split at h
  · next heq => cases h; exact suffix_of_cons_suffix (heq ▸ hskip)
  · simp only [Option.bind_eq_bind, Option.bind_eq_some_iff] at h
    obtain ⟨⟨p, s₁⟩, hp, ⟨ps, s₂⟩, hps, h⟩ := h
    cases h
    exact (morePairs_leaves hitem _ _ _ _ hps).trans (pair_suffix hitem hp)

end

theorem valueWithin_leaves (depth : Nat) : Leaves (valueWithin depth) := by
  induction depth with
  | zero =>
    intro s x rest h
    unfold valueWithin at h
    exact scalar_leaves _ _ _ h
  | succ depth ih =>
    intro s x rest h
    unfold valueWithin at h
    split at h
    · next hdepth =>
      cases hdepth
      exact suffix_cons_of_suffix ((arrayItems_leaves ih _).of_map h fun _ => rfl) _
    · next hdepth =>
      cases hdepth
      simp only [Option.bind_eq_bind, Option.bind_eq_some_iff] at h
      obtain ⟨⟨pairs, s₁⟩, hpairs, entries, -, h⟩ := h
      cases h
      exact suffix_cons_of_suffix (tablePairs_leaves ih _ _ _ hpairs) _
    · exact scalar_leaves _ _ _ h

end StructuralDiff.Toml
