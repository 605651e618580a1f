/-
  StructuralDiff.Proofs.Toml.Lines

  Documents that are nothing but lines with a switch on each.

  `Lines` describes their texts: every line is empty or puts a bare name in a
  position, with blanks wherever a line may have them, a comment at its end if
  one likes, and either kind of line end; the last line need not end.  Such a
  text is read as the list of its switches, in order (`statements_of_lines`), and it
  is a document just when no name stands twice (`parse_of_lines`).
-/

import StructuralDiff.Proofs.Toml.Bounds

namespace StructuralDiff.Toml

-- ============================================================================
-- Lines
-- ============================================================================

/-- The text is blanks only. -/
def Blanks (s : List Char) : Prop := ∀ c ∈ s, isBlank c = true

/-- A comment, or nothing. -/
inductive Comment : List Char → Prop where
  | absent : Comment []
  | present {t : List Char} (h : ∀ c ∈ t, isText c = true) : Comment ('#' :: t)

/-- What follows a line: a line end with the text behind it, or nothing at
    all. -/
inductive Ends : List Char → List Char → Prop where
  | document : Ends [] []
  | short (s : List Char) : Ends ('\n' :: s) s
  | long (s : List Char) : Ends ('\r' :: '\n' :: s) s

/-- A name that is a key without quotes. -/
structure BareName (name : String) : Prop where
  nonempty : name.toList ≠ []
  bare : ∀ c ∈ name.toList, isBare c = true

/-- The position of a switch as it is written. -/
def word (on : Bool) : List Char := if on then ['t', 'r', 'u', 'e'] else ['f', 'a', 'l', 's', 'e']

/-- A line without its end, and the switch on it. -/
inductive Line : List Char → Option (String × Bool) → Prop where
  /-- Nothing but blanks and a comment. -/
  | empty {b c : List Char} (hb : Blanks b) (hc : Comment c) : Line (b ++ c) none
  /-- A name, an equals sign and a position. -/
  | switch {b₁ b₂ b₃ b₄ c : List Char} {name : String} {on : Bool} (h₁ : Blanks b₁)
      (hname : BareName name) (h₂ : Blanks b₂) (h₃ : Blanks b₃) (h₄ : Blanks b₄)
      (hc : Comment c) :
      Line (b₁ ++ (name.toList ++ (b₂ ++ '=' :: (b₃ ++ (word on ++ (b₄ ++ c))))))
        (some (name, on))

/-- The text of a document of such lines, and the switches on them, in order. -/
inductive Lines : List Char → List (String × Bool) → Prop where
  | nil : Lines [] []
  | cons {l e s : List Char} {o : Option (String × Bool)} {os : List (String × Bool)}
      (hl : Line l o) (he : Ends e s) (hs : Lines s os) : Lines (l ++ e) (o.toList ++ os)

-- ============================================================================
-- Parts of a line
-- ============================================================================

/-- The text does not go on with a character of the class `p`. -/
def Clear (p : Char → Bool) (s : List Char) : Prop := ∀ c ∈ s.head?, p c = false

section

variable {p : Char → Bool} {b c e s t : List Char} {x y : Char} {name : String}

theorem clear_nil : Clear p [] := by
  intro c hc
  cases hc

theorem clear_cons (hx : p x = false) (t : List Char) : Clear p (x :: t) := by
  intro c hc
  cases hc
  exact hx

theorem dropWhile_append_of_clear (hb : ∀ c ∈ b, p c = true) (hs : Clear p s) :
    (b ++ s).dropWhile p = s := by
  rw [List.dropWhile_append_of_pos hb]
  cases s with
  | nil => rfl
  | cons x t => rw [List.dropWhile_cons_of_neg (by simp [hs x rfl])]

theorem takeWhile_append_of_clear (hb : ∀ c ∈ b, p c = true) (hs : Clear p s) :
    (b ++ s).takeWhile p = b := by
  rw [List.takeWhile_append_of_pos hb]
  cases s with
  | nil => exact List.append_nil b
  | cons x t => rw [List.takeWhile_cons_of_neg (by simp [hs x rfl]), List.append_nil]

theorem skipBlanks_append (hb : Blanks b) (hs : Clear isBlank s) : skipBlanks (b ++ s) = s :=
  dropWhile_append_of_clear hb hs

theorem skipBlanks_of_clear (hs : Clear isBlank s) : skipBlanks s = s :=
  skipBlanks_append (List.forall_mem_nil _) hs

theorem ne_of_class (hx : p x = true) (hy : p y = false) : x ≠ y := by
  rintro rfl
  rw [hy] at hx
  cases hx

theorem isBlank_of_isBare (hx : isBare x = true) : isBlank x = false := by
  have hspace : x ≠ ' ' := ne_of_class hx rfl
  have htab : x ≠ '\t' := ne_of_class hx rfl
  simp [isBlank, hspace, htab]

theorem isBare_of_isBlank (hx : isBlank x = true) : isBare x = false := by
  cases hbare : isBare x with
  | false => rfl
  | true =>
    rw [isBlank_of_isBare hbare] at hx
    cases hx

theorem clear_append (hb : ∀ x ∈ b, p x = false) (hs : Clear p s) : Clear p (b ++ s) := by
  cases b with
  | nil => exact hs
  | cons x t => exact clear_cons (hb x List.mem_cons_self) _

theorem Ends.clear (he : Ends e s) (hshort : p '\n' = false) (hlong : p '\r' = false) :
    Clear p e := by
  cases he with
  | document => exact clear_nil
  | short => exact clear_cons hshort _
  | long => exact clear_cons hlong _

theorem Comment.clear (hc : Comment c) (hhash : p '#' = false) (hs : Clear p s) :
    Clear p (c ++ s) := by
  cases hc with
  | absent => exact hs
  | present h => exact clear_cons hhash _

theorem Comment.clear_blank (hc : Comment c) (he : Ends e s) : Clear isBlank (c ++ e) :=
  hc.clear rfl (he.clear rfl rfl)

theorem skipComment_append (hc : Comment c) (he : Ends e s) : skipComment (c ++ e) = e := by
  cases hc with
  | absent => cases he <;> rfl
  | present h => exact dropWhile_append_of_clear h (he.clear rfl rfl)

/-- The end of a line, behind its statement. -/
theorem lineEnd?_append (hb : Blanks b) (hc : Comment c) (he : Ends e s) :
    lineEnd? (b ++ (c ++ e)) = some s := by
  rw [lineEnd?, skipBlanks_append hb (hc.clear_blank he), skipComment_append hc he]
  cases he <;> rfl

theorem valueWithin_word (on : Bool) (s : List Char) :
    valueWithin deepest (word on ++ s) = some (.boolean on, s) := by
  cases on <;> rfl

theorem BareName.exists_cons (hname : BareName name) :
    ∃ x t, name.toList = x :: t ∧ isBare x = true := by
  obtain ⟨x, t, hxt⟩ := List.exists_cons_of_ne_nil hname.nonempty
  exact ⟨x, t, hxt, hname.bare x (hxt ▸ List.mem_cons_self)⟩

theorem keyPart_append (hname : BareName name) (hs : Clear isBare s) :
    keyPart (name.toList ++ s) = some (name, s) := by
  have htake := takeWhile_append_of_clear hname.bare hs
  have hdrop := dropWhile_append_of_clear hname.bare hs
  obtain ⟨x, t, hxt, hx⟩ := hname.exists_cons
  rw [hxt] at htake hdrop ⊢
  rw [List.cons_append] at htake hdrop ⊢
  unfold keyPart
  split
  · next heq => exact absurd (List.cons.inj heq).1 (ne_of_class hx (by decide))
  · next heq => exact absurd (List.cons.inj heq).1 (ne_of_class hx (by decide))
  · simp only [htake, hdrop]
    rw [← hxt, String.ofList_toList]

theorem BareName.clear (hname : BareName name) (hp : ∀ x, isBare x = true → p x = false)
    (s : List Char) : Clear p (name.toList ++ s) := by
  obtain ⟨x, t, hxt, hx⟩ := hname.exists_cons
  rw [hxt]
  exact clear_cons (hp x hx) _

theorem key_append (hname : BareName name) (hb : Blanks b) (s : List Char) :
    key deepest (name.toList ++ (b ++ '=' :: s)) = some ([name], '=' :: s) := by
  have hbare : Clear isBare (b ++ '=' :: s) :=
    clear_append (fun x hx => isBare_of_isBlank (hb x hx)) (clear_cons (by decide) s)
  have hblank : Clear isBlank ('=' :: s) := clear_cons (by decide) s
  have hstart : Clear isBlank (name.toList ++ (b ++ '=' :: s)) :=
    hname.clear (fun _ => isBlank_of_isBare) _
  rw [deepest, key, skipBlanks_of_clear hstart, keyPart_append hname hbare]
  simp only [skipBlanks_append hb hblank]
  rfl

theorem pair_append {b₂ b₃ : List Char} (hname : BareName name) (h₂ : Blanks b₂) (h₃ : Blanks b₃)
    (on : Bool) (s : List Char) :
    pair (valueWithin deepest) (name.toList ++ (b₂ ++ '=' :: (b₃ ++ (word on ++ s)))) =
      some ((([], name), .boolean on), s) := by
  have hclear : Clear isBlank (word on ++ s) := by
    cases on <;> exact clear_cons (by decide) _
  have hkey : splitKey (name.toList ++ (b₂ ++ '=' :: (b₃ ++ (word on ++ s)))) =
      some (([], name), '=' :: (b₃ ++ (word on ++ s))) := by
    rw [splitKey, key_append hname h₂]
    rfl
  have hequals : behind? '=' ('=' :: (b₃ ++ (word on ++ s))) = some (b₃ ++ (word on ++ s)) := rfl
  simp only [pair, hkey, hequals, skipBlanks_append h₃ hclear, valueWithin_word,
    Option.bind_eq_bind, Option.bind_some]
  rfl

-- ============================================================================
-- Statements
-- ============================================================================

/-- The statement that puts a switch in a position. -/
def setting (e : String × Bool) : Statement := .set [] e.1 (.boolean e.2)

theorem statement_of_bare (hx : isBare x = true) {path : List String} {k : String} {item : Item}
    (hpair : pair (valueWithin deepest) (x :: t) = some (((path, k), item), e))
    (hend : lineEnd? e = some s) : statement (x :: t) = some (.set path k item, s) := by
  unfold statement
  split
  · next heq => exact absurd (List.cons.inj heq).1 (ne_of_class hx (by decide))
  · next heq => exact absurd (List.cons.inj heq).1 (ne_of_class hx (by decide))
  · simp only [hpair, hend, Option.bind_eq_bind, Option.bind_some]
    rfl

theorem statements_of_bare (hb : Blanks b) (hx : isBare x = true) {first : Statement}
    (hfirst : statement (x :: t) = some (first, s)) (n : Nat) :
    statements (n + 1) (b ++ x :: t) = (statements n s).map fun others => first :: others := by
  have hskip : skipBlanks (b ++ x :: t) = x :: t :=
    skipBlanks_append hb (clear_cons (isBlank_of_isBare hx) t)
  rw [statements, hskip]
  split
  · next heq => cases heq
  · next heq => exact absurd (List.cons.inj heq).1 (ne_of_class hx (by decide))
  · next heq => exact absurd (List.cons.inj heq).1 (ne_of_class hx (by decide))
  · next heq => exact absurd (List.cons.inj heq).1 (ne_of_class hx (by decide))
  · next heq =>
    obtain ⟨rfl, rfl⟩ := List.cons.inj heq
    rw [hfirst, Option.map_eq_bind]
    rfl

theorem statements_empty (hb : Blanks b) (hc : Comment c) (he : Ends e s) {n : Nat} (hn : 0 < n) :
    statements (n + 1) (b ++ (c ++ e)) = statements n s := by
  obtain ⟨m, rfl⟩ := Nat.exists_eq_add_of_lt hn
  cases hc with
  | absent =>
    have hskip : skipBlanks (b ++ e) = e := skipBlanks_append hb (he.clear rfl rfl)
    rw [List.nil_append, statements, hskip]
    cases he with
    | document => rw [Nat.zero_add]; rfl
    | short => rfl
    | long => rfl
  | @present t ht =>
    have hskip : skipBlanks (b ++ '#' :: (t ++ e)) = '#' :: (t ++ e) :=
      skipBlanks_append hb (clear_cons (by decide) _)
    have hend : lineEnd? ('#' :: (t ++ e)) = some s :=
      lineEnd?_append (b := []) (List.forall_mem_nil _) (.present ht) he
    rw [List.cons_append, statements, hskip]
    simp only [hend, Option.bind_some]

/-- One line. -/
theorem statements_line {l : List Char} {o : Option (String × Bool)} (hl : Line l o)
    (he : Ends e s) {n : Nat} (hn : 0 < n) :
    statements (n + 1) (l ++ e) =
      (statements n s).map fun others => o.toList.map setting ++ others := by
  cases hl with
  | empty hb hc =>
    rw [List.append_assoc, statements_empty hb hc he hn]
    exact Option.map_id'.symm
  | @switch b₁ b₂ b₃ b₄ c name on h₁ hname h₂ h₃ h₄ hc =>
    have hpair := pair_append hname h₂ h₃ on (b₄ ++ (c ++ e))
    have hend := lineEnd?_append h₄ hc he
    obtain ⟨x, t, hxt, hx⟩ := hname.exists_cons
    rw [hxt, List.cons_append] at hpair
    simp only [List.append_assoc, List.cons_append, hxt]
    exact statements_of_bare h₁ hx (statement_of_bare hx hpair hend) n

theorem Ends.length_lt (he : Ends e s) : e = [] ∧ s = [] ∨ s.length < e.length := by
  cases he with
  | document => exact .inl ⟨rfl, rfl⟩
  | short => exact .inr (Nat.lt_succ_self _)
  | long => exact .inr (Nat.lt_succ_of_lt (Nat.lt_succ_self _))

theorem Line.eq_none {o : Option (String × Bool)} (hl : Line [] o) : o = none := by
  generalize hnil : ([] : List Char) = l at hl
  cases hl with
  | empty => rfl
  | switch => simp at hnil

end

/-- A text of such lines is read as its switches, in order, whatever number of lines
    above its length may be read. -/
theorem statements_of_lines {s : List Char} {os : List (String × Bool)} (h : Lines s os) {n : Nat}
    (hn : s.length < n) : statements n s = some (os.map setting) := by
  induction h generalizing n with
  | nil =>
    obtain ⟨m, rfl⟩ := Nat.exists_eq_add_of_lt hn
    rfl
  | @cons l e s o os hl he hs ih =>
    by_cases hempty : l ++ e = []
    · obtain ⟨rfl, rfl⟩ := List.append_eq_nil_iff.mp hempty
      cases he
      rw [hl.eq_none]
      exact ih hn
    · have hlength : 0 < (l ++ e).length := List.length_pos_iff.mpr hempty
      obtain ⟨m, rfl⟩ := Nat.exists_eq_add_of_lt (Nat.zero_lt_of_lt hn)
      rw [Nat.zero_add] at hn ⊢
      have hs : s.length < m := by
        rw [List.length_append] at hn hlength
        rcases he.length_lt with ⟨rfl, rfl⟩ | hlt
        · rw [List.length_nil] at hn hlength ⊢
          omega
        · omega
      rw [statements_line hl he (Nat.zero_lt_of_lt hs), ih hs, List.map_append]
      rfl

-- ============================================================================
-- Documents
-- ============================================================================

/-- The entries of a document of switches. -/
def entriesOf (os : List (String × Bool)) : Entries := os.map fun e => (e.1, .boolean e.2)

theorem map_fst_entriesOf (os : List (String × Bool)) :
    (entriesOf os).map Prod.fst = os.map Prod.fst := by
  rw [entriesOf, List.map_map]
  rfl

theorem findIn_entriesOf (k : String) (os : List (String × Bool)) :
    OrderedMap.findIn k (entriesOf os) = (OrderedMap.findIn k os).map Item.boolean := by
  induction os with
  | nil => rfl
  | cons e os ih =>
    show (if e.1 = k then some (Item.boolean e.2) else OrderedMap.findIn k (entriesOf os)) =
      (if e.1 = k then some e.2 else OrderedMap.findIn k os).map Item.boolean
    split
    · rfl
    · exact ih

/-- A switch whose name is new goes to the end; any other is refused. -/
theorem run_setting (os : List (String × Bool)) (e : String × Bool) :
    Progress.run ⟨entriesOf os, []⟩ (setting e) =
      if e.1 ∈ os.map Prod.fst then none else some ⟨entriesOf (os ++ [e]), []⟩ := by
  have hnone := OrderedMap.findIn_eq_none_iff e.1 (entriesOf os)
  rw [map_fst_entriesOf] at hnone
  simp only [setting, Progress.run, changeAt, addAt, reduceCtorEq, false_iff, not_true,
    if_false]
  by_cases hmem : e.1 ∈ os.map Prod.fst
  · have hsome : (OrderedMap.findIn e.1 (entriesOf os)).isSome = true := by
      rw [← Option.ne_none_iff_isSome]
      exact fun h => hnone.mp h hmem
    rw [if_pos hmem, if_pos hsome, Option.map_none]
  · have hnew : e.1 ∉ (entriesOf os).map Prod.fst := map_fst_entriesOf os ▸ hmem
    rw [if_neg hmem, hnone.mpr hmem, OrderedMap.insertIn_of_not_mem hnew, entriesOf, entriesOf,
      List.map_append]
    rfl

theorem run_settings (os rs : List (String × Bool)) (hrs : (rs.map Prod.fst).Nodup) :
    (os.map setting).foldlM Progress.run ⟨entriesOf rs, []⟩ =
      if ((rs ++ os).map Prod.fst).Nodup then some ⟨entriesOf (rs ++ os), []⟩ else none := by
  induction os generalizing rs with
  | nil =>
    rw [List.append_nil, if_pos hrs]
    rfl
  | cons e os ih =>
    have hsplit : rs ++ e :: os = (rs ++ [e]) ++ os := by simp
    have hnames : (rs ++ [e]).map Prod.fst = rs.map Prod.fst ++ [e.1] := List.map_append
    rw [List.map_cons, List.foldlM_cons, run_setting, hsplit]
    by_cases hmem : e.1 ∈ rs.map Prod.fst
    · have htwice : ¬ ((rs ++ [e] ++ os).map Prod.fst).Nodup := by
        rw [List.map_append, hnames]
        grind
      rw [if_pos hmem, if_neg htwice]
      rfl
    · have hnodup : ((rs ++ [e]).map Prod.fst).Nodup := by
        rw [hnames]
        grind
      rw [if_neg hmem]
      exact ih (rs ++ [e]) hnodup

/-- No such text starts with the mark that announces an encoding. -/
theorem Lines.skipMark_eq {s : List Char} {os : List (String × Bool)} (h : Lines s os) :
    skipMark s = s := by
  have hne {p : Char → Bool} (hmark : p '\ufeff' = false) (x : Char) (hx : p x = true) :
      (x == '\ufeff') = false := beq_false_of_ne (ne_of_class hx hmark)
  have hclear : Clear (· == '\ufeff') s := by
    cases h with
    | nil => exact clear_nil
    | cons hl he hs =>
      cases hl with
      | empty hb hc =>
        rw [List.append_assoc]
        exact clear_append (fun x hx => hne rfl x (hb x hx)) (hc.clear rfl (he.clear rfl rfl))
      | switch h₁ hname =>
        rw [List.append_assoc, List.append_assoc]
        exact clear_append (fun x hx => hne rfl x (h₁ x hx)) (hname.clear (hne (by decide)) _)
  unfold skipMark
  split
  · cases hclear _ rfl
  · rfl

/-- **A text of switches is a document just when no name stands twice**, and it has
    the switches for its entries then, in their order. -/
theorem parse_of_lines {text : String} {os : List (String × Bool)}
    (h : Lines (skipMark text.toList) os) :
    parse text = if (os.map Prod.fst).Nodup then some (entriesOf os) else none := by
  have hrun : (os.map setting).foldlM Progress.run ⟨[], []⟩ =
      if (os.map Prod.fst).Nodup then some ⟨entriesOf os, []⟩ else none :=
    run_settings os [] List.nodup_nil
  rw [parse_eq text (Nat.lt_succ_self _), statements_of_lines h (Nat.lt_succ_self _),
    Option.bind_some, hrun]
  split <;> rfl

end StructuralDiff.Toml
