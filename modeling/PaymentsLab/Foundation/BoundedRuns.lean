import Mathlib.Data.List.Basic

/-!
# Replacing runs that are words

The substitution of a text for every match of `\b\d{least,most}\b`, over any characters. A match is
a word of its own: a run with another word character beside it stays. So a text that has been
through the substitution has a run left iff it had an exposed one (`hasRun_sub_iff`).
-/

namespace Foundation

/-- `\b\d{least,most}\b`, over the classes `\d` and `\w`. -/
structure RunPattern (α : Type) where
  digit : α → Bool
  word : α → Bool
  least : Nat
  most : Nat
  word_of_digit : ∀ c, digit c = true → word c = true
  least_pos : 0 < least

namespace RunPattern

variable {α : Type} (p : RunPattern α)

/-! ## Matching -/

/-- `\b` between a character, of which `inWord` says whether it is one of a word, and a text. -/
def boundary (inWord : Bool) (s : List α) : Bool :=
  inWord != s.head?.any p.word

/-- Whether the first `n` characters are a match. -/
def matchesAt (inWord : Bool) (s : List α) (n : Nat) : Bool :=
  p.boundary inWord s && decide (n ≤ s.length) && (s.take n).all p.digit &&
    p.boundary ((s.take n).getLast?.elim inWord p.word) (s.drop n)

/-- The length of the match at the start of a text; the repetition is greedy. -/
def longest (inWord : Bool) (s : List α) : Option Nat :=
  (List.range' p.least (p.most + 1 - p.least)).reverse.find? (p.matchesAt inWord s)

/-- The scan of a text; `skip` characters are still those of the last match. -/
def subFrom (replacement : List α) : (inWord : Bool) → (skip : Nat) → List α → List α
  | _, _, [] => []
  | _, skip + 1, c :: s => subFrom replacement (p.word c) skip s
  | inWord, 0, c :: s =>
    match p.longest inWord (c :: s) with
    | some n => replacement ++ subFrom replacement (p.word c) (n - 1) s
    | none => c :: subFrom replacement (p.word c) 0 s

/-- `re.sub`. -/
def sub (replacement s : List α) : List α :=
  p.subFrom replacement false 0 s

/-! ## Runs and words -/

/-- A maximal run of digits has between `least` and `most` of them. -/
def HasRun (s : List α) : Prop :=
  ∃ run ∈ s.splitOnP fun c => !p.digit c, p.least ≤ run.length ∧ run.length ≤ p.most

instance (s : List α) : Decidable (p.HasRun s) :=
  inferInstanceAs (Decidable (∃ run ∈ s.splitOnP fun c => !p.digit c,
    p.least ≤ run.length ∧ run.length ≤ p.most))

/-- The word has a run, and a character that is not a digit. -/
def MixesRun (word : List α) : Prop :=
  p.HasRun word ∧ ∃ c ∈ word, p.digit c = false

instance (word : List α) : Decidable (p.MixesRun word) :=
  inferInstanceAs (Decidable (p.HasRun word ∧ ∃ c ∈ word, p.digit c = false))

/-- A run has another character of its word beside it. -/
def Exposed (s : List α) : Prop :=
  ∃ word ∈ s.splitOnP fun c => !p.word c, p.MixesRun word

instance (s : List α) : Decidable (p.Exposed s) :=
  inferInstanceAs (Decidable (∃ word ∈ s.splitOnP fun c => !p.word c, p.MixesRun word))

variable {p} {u v w rest : List α} {c : α}

theorem digit_of_not_word (h : p.word c = false) : p.digit c = false := by
  cases hdigit : p.digit c with
  | false => rfl
  | true => rw [p.word_of_digit c hdigit] at h; cases h

theorem hasRun_append_cons (h : p.digit c = false) :
    p.HasRun (u ++ c :: v) ↔ p.HasRun u ∨ p.HasRun v := by
  unfold HasRun
  rw [List.splitOnP_append_cons _ _ (by rw [h]; rfl)]
  simp only [List.mem_append, or_and_right, exists_or]

theorem hasRun_of_digits (h : ∀ c ∈ w, p.digit c = true) :
    p.HasRun w ↔ p.least ≤ w.length ∧ w.length ≤ p.most := by
  unfold HasRun
  rw [List.splitOnP_eq_singleton fun c hc => by rw [h c hc]; rfl]
  simp only [List.mem_singleton, exists_eq_left]

@[simp] theorem not_hasRun_nil : ¬ p.HasRun [] := by
  rw [hasRun_of_digits fun c hc => absurd hc List.not_mem_nil]
  exact fun h => absurd h.1 (Nat.not_le.2 p.least_pos)

theorem not_hasRun_of_no_digit (h : ∀ c ∈ w, p.digit c = false) : ¬ p.HasRun w := by
  induction w with
  | nil => exact not_hasRun_nil
  | cons c w ih =>
    have hsplit : p.HasRun ([] ++ c :: w) ↔ p.HasRun [] ∨ p.HasRun w :=
      hasRun_append_cons (h c List.mem_cons_self)
    intro hrun
    rcases hsplit.1 hrun with hnil | htail
    · exact not_hasRun_nil hnil
    · exact ih (fun c hc => h c (List.mem_cons_of_mem _ hc)) htail

theorem exposed_append_cons (h : p.word c = false) :
    p.Exposed (u ++ c :: v) ↔ p.Exposed u ∨ p.Exposed v := by
  unfold Exposed
  rw [List.splitOnP_append_cons _ _ (by rw [h]; rfl)]
  simp only [List.mem_append, or_and_right, exists_or]

theorem exposed_of_word (h : ∀ c ∈ w, p.word c = true) : p.Exposed w ↔ p.MixesRun w := by
  unfold Exposed
  rw [List.splitOnP_eq_singleton fun c hc => by rw [h c hc]; rfl]
  simp only [List.mem_singleton, exists_eq_left]

/-- A word has a run iff it is one, or mixes one with other characters. -/
theorem hasRun_word_iff : p.HasRun w ↔
    (∀ c ∈ w, p.digit c = true) ∧ p.least ≤ w.length ∧ w.length ≤ p.most ∨ p.MixesRun w := by
  by_cases hdigits : ∀ c ∈ w, p.digit c = true
  · rw [hasRun_of_digits hdigits]
    refine ⟨fun h => .inl ⟨hdigits, h⟩, ?_⟩
    rintro (⟨-, h⟩ | ⟨-, c, hc, hother⟩)
    · exact h
    · rw [hdigits c hc] at hother
      cases hother
  · refine ⟨fun h => .inr ⟨h, ?_⟩, ?_⟩
    · simpa using hdigits
    · rintro (⟨h, -⟩ | ⟨h, -⟩)
      · exact absurd h hdigits
      · exact h

/-- Induction over the words of a text. -/
theorem words_induction {motive : List α → Prop}
    (last : ∀ w, (∀ c ∈ w, p.word c = true) → motive w)
    (next : ∀ w c rest, (∀ c ∈ w, p.word c = true) → p.word c = false → motive rest →
      motive (w ++ c :: rest)) (s : List α) : motive s := by
  -- the word that is read so far is `w`
  have hread : ∀ s w, (∀ c ∈ w, p.word c = true) → motive s ∧ motive (w ++ s) := by
    intro s
    induction s with
    | nil =>
      intro w hw
      rw [List.append_nil]
      exact ⟨last [] (fun c hc => nomatch hc), last w hw⟩
    | cons c s ih =>
      intro w hw
      cases hc : p.word c with
      | false =>
        have hs := (ih [] fun c hc => nomatch hc).1
        exact ⟨next [] c s (fun c hc => nomatch hc) hc hs, next w c s hw hc hs⟩
      | true =>
        have hword : ∀ d ∈ w ++ [c], p.word d = true := by
          intro d hd
          rcases List.mem_append.1 hd with hd | hd
          · exact hw d hd
          · rw [List.mem_singleton.1 hd, hc]
        refine ⟨(ih [c] fun d hd => by rw [List.mem_singleton.1 hd, hc]).2, ?_⟩
        rw [List.append_cons]
        exact (ih _ hword).2
  exact (hread s [] fun c hc => nomatch hc).1

/-! ## The scan -/

/-- A match starts a word, has digits only, and ends it. -/
theorem matchesAt_iff {inWord : Bool} {s : List α} {n : Nat} (hpos : 0 < n) :
    p.matchesAt inWord s n = true ↔ inWord = false ∧ n ≤ s.length ∧
      (∀ c ∈ s.take n, p.digit c = true) ∧ (s.drop n).head?.any p.word = false := by
  simp only [matchesAt, boundary, Bool.and_eq_true, decide_eq_true_eq, List.all_eq_true,
    bne_iff_ne, and_assoc]
  have hends (hlength : n ≤ s.length) (hdigits : ∀ c ∈ s.take n, p.digit c = true) :
      s.head?.any p.word = true ∧ (s.take n).getLast?.elim inWord p.word = true := by
    have hne : s.take n ≠ [] := by
      rw [← List.length_pos_iff, List.length_take, Nat.min_eq_left hlength]
      exact hpos
    refine ⟨?_, ?_⟩
    · have hs : s ≠ [] := fun h => hne (by rw [h, List.take_nil])
      obtain ⟨c, s, rfl⟩ := List.exists_cons_of_ne_nil hs
      refine p.word_of_digit c (hdigits c ?_)
      rw [List.take_cons hpos]
      exact List.mem_cons_self
    · rw [List.getLast?_eq_some_getLast hne]
      exact p.word_of_digit _ (hdigits _ (List.getLast_mem hne))
  constructor
  · rintro ⟨hstart, hlength, hdigits, hend⟩
    obtain ⟨hhead, hlast⟩ := hends hlength hdigits
    rw [hhead] at hstart
    rw [hlast] at hend
    exact ⟨Bool.eq_false_iff.2 hstart, hlength, hdigits, Bool.eq_false_iff.2 hend.symm⟩
  · rintro ⟨rfl, hlength, hdigits, hend⟩
    obtain ⟨hhead, hlast⟩ := hends hlength hdigits
    rw [hhead, hlast, hend]
    exact ⟨Bool.false_ne_true, hlength, hdigits, Bool.false_ne_true.symm⟩

theorem mem_lengths_iff {n : Nat} :
    n ∈ (List.range' p.least (p.most + 1 - p.least)).reverse ↔ p.least ≤ n ∧ n ≤ p.most := by
  rw [List.mem_reverse, List.mem_range'_1]
  omega

theorem pos_of_mem_lengths {n : Nat}
    (h : n ∈ (List.range' p.least (p.most + 1 - p.least)).reverse) : 0 < n :=
  Nat.lt_of_lt_of_le p.least_pos (mem_lengths_iff.1 h).1

/-- No match starts within a word. -/
theorem longest_of_inWord (s : List α) : p.longest true s = none := by
  unfold longest
  rw [List.find?_eq_none]
  intro n hn hmatch
  cases ((matchesAt_iff (pos_of_mem_lengths hn)).1 hmatch).1

/-- A match at the start of a word takes all of it. -/
theorem length_of_match {n : Nat} (hw : ∀ c ∈ w, p.word c = true)
    (hrest : rest.head?.any p.word = false) (hlength : n ≤ (w ++ rest).length)
    (hdigits : ∀ c ∈ (w ++ rest).take n, p.digit c = true)
    (hend : ((w ++ rest).drop n).head?.any p.word = false) : n = w.length := by
  rcases Nat.lt_trichotomy n w.length with hlt | heq | hgt
  · -- the next character is one of the word
    rw [List.drop_append_of_le_length (Nat.le_of_lt hlt)] at hend
    have hne : w.drop n ≠ [] := fun h => absurd (List.drop_eq_nil_iff.1 h) (Nat.not_le.2 hlt)
    obtain ⟨c, s, hcons⟩ := List.exists_cons_of_ne_nil hne
    have hmem : c ∈ w := List.mem_of_mem_drop (hcons ▸ List.mem_cons_self)
    rw [hcons, List.cons_append, List.head?_cons, Option.any_some, hw c hmem] at hend
    cases hend
  · exact heq
  · -- the first character after the word is not a digit
    cases rest with
    | nil =>
      rw [List.append_nil] at hlength
      omega
    | cons c rest =>
      have hdigit : p.digit c = true := by
        refine hdigits c ?_
        rw [List.take_append, List.take_cons (Nat.sub_pos_of_lt hgt)]
        exact List.mem_append_right _ List.mem_cons_self
      rw [List.head?_cons, Option.any_some, p.word_of_digit c hdigit] at hrest
      cases hrest

/-- A match at the start of a word is the word. -/
theorem longest_word (hw : ∀ c ∈ w, p.word c = true) (hrest : rest.head?.any p.word = false) :
    p.longest false (w ++ rest) =
      if (∀ c ∈ w, p.digit c = true) ∧ p.least ≤ w.length ∧ w.length ≤ p.most then some w.length
      else none := by
  have hmatch {n : Nat} (hpos : 0 < n) : p.matchesAt false (w ++ rest) n = true ↔
      n = w.length ∧ ∀ c ∈ w, p.digit c = true := by
    rw [matchesAt_iff hpos]
    constructor
    · rintro ⟨-, hlength, hdigits, hend⟩
      obtain rfl := length_of_match hw hrest hlength hdigits hend
      rw [List.take_left] at hdigits
      exact ⟨rfl, hdigits⟩
    · rintro ⟨rfl, hdigits⟩
      refine ⟨rfl, ?_, ?_, ?_⟩
      · rw [List.length_append]
        omega
      · rwa [List.take_left]
      · rwa [List.drop_left]
  cases hfind : p.longest false (w ++ rest) with
  | none =>
    rw [if_neg]
    rintro ⟨hdigits, hbounds⟩
    have hmem := mem_lengths_iff.2 hbounds
    exact List.find?_eq_none.1 hfind _ hmem ((hmatch (pos_of_mem_lengths hmem)).2 ⟨rfl, hdigits⟩)
  | some n =>
    have hmem := List.mem_of_find?_eq_some hfind
    obtain ⟨rfl, hdigits⟩ := (hmatch (pos_of_mem_lengths hmem)).1 (List.find?_some hfind)
    rw [if_pos ⟨hdigits, mem_lengths_iff.1 hmem⟩]

section Scan

variable {replacement : List α}

/-- The rest of a match is skipped. -/
theorem subFrom_skip (inWord : Bool) (u s : List α) :
    p.subFrom replacement inWord u.length (u ++ s) =
      p.subFrom replacement (u.getLast?.elim inWord p.word) 0 s := by
  induction u generalizing inWord with
  | nil => rfl
  | cons c u ih =>
    rw [List.length_cons, List.cons_append, subFrom, ih]
    cases u with
    | nil => rfl
    | cons d u => rfl

/-- Within a word nothing is replaced. -/
theorem subFrom_inWord (hw : ∀ c ∈ w, p.word c = true) (s : List α) :
    p.subFrom replacement true 0 (w ++ s) = w ++ p.subFrom replacement true 0 s := by
  induction w with
  | nil => rfl
  | cons c w ih =>
    rw [List.cons_append, subFrom, longest_of_inWord, hw c List.mem_cons_self,
      ih fun c hc => hw c (List.mem_cons_of_mem _ hc), List.cons_append]

theorem subFrom_cons_of_not_word (inWord : Bool) (h : p.word c = false) (s : List α) :
    p.subFrom replacement inWord 0 (c :: s) = c :: p.sub replacement s := by
  have hnone : p.longest inWord (c :: s) = none := by
    cases inWord with
    | true => exact longest_of_inWord _
    | false =>
      have hrest : (c :: s).head?.any p.word = false := h
      have hempty := longest_word (fun d (hd : d ∈ []) => absurd hd List.not_mem_nil) hrest
      rwa [List.nil_append, if_neg fun h => absurd h.2.1 (Nat.not_le.2 p.least_pos)] at hempty
  rw [subFrom, hnone, h]
  rfl

variable (p) in
/-- What a word becomes. -/
def subWord (replacement w : List α) : List α :=
  if (∀ c ∈ w, p.digit c = true) ∧ p.least ≤ w.length ∧ w.length ≤ p.most then replacement else w

theorem sub_word_append (hw : ∀ c ∈ w, p.word c = true) (hrest : rest.head?.any p.word = false) :
    p.sub replacement (w ++ rest) =
      p.subWord replacement w ++ p.subFrom replacement true 0 rest := by
  unfold sub subWord
  cases w with
  | nil =>
    rw [if_neg fun h => absurd h.2.1 (Nat.not_le.2 p.least_pos)]
    cases rest with
    | nil => rfl
    | cons c rest =>
      rw [List.nil_append, List.nil_append, subFrom_cons_of_not_word _ hrest,
        subFrom_cons_of_not_word _ hrest]
  | cons c w =>
    have hc := hw c List.mem_cons_self
    have hlongest := longest_word hw hrest
    rw [List.cons_append] at hlongest ⊢
    rw [subFrom, hlongest, hc]
    split_ifs
    · have hlast : w.getLast?.elim true p.word = true := by
        cases hget : w.getLast? with
        | none => rfl
        | some d => exact hw d (List.mem_cons_of_mem _ (List.mem_of_getLast? hget))
      show replacement ++ p.subFrom replacement true w.length (w ++ rest) = _
      rw [subFrom_skip, hlast]
    · show c :: p.subFrom replacement true 0 (w ++ rest) = _
      rw [subFrom_inWord fun d hd => hw d (List.mem_cons_of_mem _ hd), List.cons_append]

theorem sub_of_word (hw : ∀ c ∈ w, p.word c = true) :
    p.sub replacement w = p.subWord replacement w := by
  have hsub : p.sub replacement (w ++ []) = p.subWord replacement w ++ [] :=
    sub_word_append hw rfl
  rwa [List.append_nil, List.append_nil] at hsub

theorem sub_append_cons (hw : ∀ c ∈ w, p.word c = true) (hc : p.word c = false) :
    p.sub replacement (w ++ c :: rest) =
      p.subWord replacement w ++ c :: p.sub replacement rest := by
  have hrest : (c :: rest).head?.any p.word = false := hc
  rw [sub_word_append hw hrest, subFrom_cons_of_not_word _ hc]

/-! ## What is left -/

/-- A run of a word is one of the text. -/
theorem Exposed.hasRun {s : List α} (h : p.Exposed s) : p.HasRun s := by
  induction s using p.words_induction with
  | last w hw => exact ((exposed_of_word hw).1 h).1
  | next w c rest hw hc ih =>
    rw [exposed_append_cons hc, exposed_of_word hw] at h
    rw [hasRun_append_cons (digit_of_not_word hc)]
    exact h.imp And.left ih

variable (hreplacement : ∀ c ∈ replacement, p.digit c = false)

include hreplacement

theorem hasRun_subWord_iff : p.HasRun (p.subWord replacement w) ↔ p.MixesRun w := by
  unfold subWord
  split_ifs with hrun
  · refine iff_of_false (not_hasRun_of_no_digit hreplacement) ?_
    rintro ⟨-, c, hc, hother⟩
    rw [hrun.1 c hc] at hother
    cases hother
  · rw [hasRun_word_iff]
    exact or_iff_right hrun

theorem exposed_subWord_iff (hw : ∀ c ∈ w, p.word c = true) :
    p.Exposed (p.subWord replacement w) ↔ p.MixesRun w := by
  refine ⟨fun h => (hasRun_subWord_iff hreplacement).1 h.hasRun, fun h => ?_⟩
  unfold subWord
  rw [if_neg fun hrun => ?_]
  · exact (exposed_of_word hw).2 h
  · obtain ⟨-, c, hc, hother⟩ := h
    rw [hrun.1 c hc] at hother
    cases hother

/-- After the substitution a run is left iff one was exposed. -/
theorem hasRun_sub_iff (s : List α) : p.HasRun (p.sub replacement s) ↔ p.Exposed s := by
  induction s using p.words_induction with
  | last w hw => rw [sub_of_word hw, hasRun_subWord_iff hreplacement, exposed_of_word hw]
  | next w c rest hw hc ih =>
    rw [sub_append_cons hw hc, hasRun_append_cons (digit_of_not_word hc),
      hasRun_subWord_iff hreplacement, ih, exposed_append_cons hc, exposed_of_word hw]

/-- The substitution leaves every exposed run. -/
theorem exposed_sub_iff (s : List α) : p.Exposed (p.sub replacement s) ↔ p.Exposed s := by
  induction s using p.words_induction with
  | last w hw => rw [sub_of_word hw, exposed_subWord_iff hreplacement hw, exposed_of_word hw]
  | next w c rest hw hc ih =>
    rw [sub_append_cons hw hc, exposed_append_cons hc, exposed_subWord_iff hreplacement hw, ih,
      exposed_append_cons hc, exposed_of_word hw]

end Scan

end RunPattern

end Foundation
