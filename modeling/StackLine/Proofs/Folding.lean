import StackLine.Proofs.Strict

/-!
Folding a text into ASCII.

The lenient reading folds a text first: the blanks beyond ASCII become spaces, and digits of every
script become those of ASCII. Nothing else folds, and nothing that is no blank or digit becomes
one, so blanks and digits may as well be looked for in the text as it stands.
-/

namespace StackLine

namespace Text

variable {c x : Char} {d : ℕ} {cs xs : List Char}

/-! ### Decimal digits -/

/-- Whether a character is a decimal digit of some script. -/
def isDecimal (c : Char) : Bool := (digitValue? c).isSome

/-- In ASCII, the decimal digits are the usual ones. -/
lemma digitValue?_of_ascii (h : c.toNat < 128) :
    digitValue? c = if c.isDigit then some (c.toNat - 48) else none := by
  have hzeros : digitZeros = 48 :: digitZeros.tail := rfl
  have hwide : ∀ first ∈ digitZeros.tail, 128 ≤ first := by decide
  have hnone : digitZeros.tail.find?
      (fun first => decide (first ≤ c.toNat ∧ c.toNat < first + 10)) = none := by
    refine List.find?_eq_none.2 fun first hfirst => ?_
    have := hwide first hfirst
    rw [decide_eq_true_iff]
    omega
  have hdigit : c.isDigit = true ↔ 48 ≤ c.toNat ∧ c.toNat ≤ 57 := Char.isDigit_iff_toNat
  rw [digitValue?, hzeros, List.find?_cons, hnone]
  by_cases hc : c.isDigit = true
  · rw [if_pos hc, decide_eq_true (by rw [hdigit] at hc; omega)]
    rfl
  · rw [if_neg hc, decide_eq_false (by rw [hdigit] at hc; omega)]
    rfl

lemma digitValue?_digitChar (h : d < 10) : digitValue? (Nat.digitChar d) = some d := by
  have hvalue := Nat.toNat_digitChar_of_lt_ten h
  have hdigit : (Nat.digitChar d).isDigit = true := by
    rw [Nat.isDigit_digitChar]
    exact decide_eq_true h
  rw [digitValue?_of_ascii (by omega), if_pos hdigit]
  congr 1
  omega

/-- No blank beyond ASCII is a digit. -/
lemma digitValue?_of_isWideBlank (h : isWideBlank c = true) : digitValue? c = none := by
  let blanks :=
    [0x85, 0xa0, 0x1680, 0x2028, 0x2029, 0x202f, 0x205f, 0x3000] ++ List.range' 0x2000 11
  have hmem : c.toNat ∈ blanks := by
    simp only [isWideBlank, Bool.or_eq_true, beq_iff_eq, Bool.and_eq_true, decide_eq_true_eq] at h
    simp [blanks, List.mem_range'_1]
    omega
  have hnone : ∀ n ∈ blanks,
      digitZeros.find? (fun first => decide (first ≤ n ∧ n < first + 10)) = none := by
    decide
  rw [digitValue?, hnone _ hmem]
  rfl

/-! ### Folding -/

/-- **What folds, and to what.** -/
lemma fold?_eq_some_cases (h : fold? c = some x) :
    (c.toNat < 128 ∧ x = c) ∨ (128 ≤ c.toNat ∧ isWideBlank c = true ∧ x = ' ') ∨
      ∃ d, 128 ≤ c.toNat ∧ isWideBlank c = false ∧ digitValue? c = some d ∧
        x = Nat.digitChar d := by
  unfold fold? at h
  split_ifs at h with hascii hblank
  · exact .inl ⟨hascii, (Option.some.inj h).symm⟩
  · exact .inr (.inl ⟨not_lt.1 hascii, hblank, (Option.some.inj h).symm⟩)
  · obtain ⟨d, hd, rfl⟩ := Option.map_eq_some_iff.1 h
    exact .inr (.inr ⟨d, not_lt.1 hascii, eq_false_of_ne_true hblank, hd, rfl⟩)

lemma toNat_lt_of_fold? (h : fold? c = some x) : x.toNat < 128 := by
  rcases fold?_eq_some_cases h with ⟨hc, rfl⟩ | ⟨-, -, rfl⟩ | ⟨d, -, -, hd, rfl⟩
  · exact hc
  · decide
  · rw [Nat.toNat_digitChar_of_lt_ten (digitValue?_lt hd)]
    have := digitValue?_lt hd
    omega

/-- A digit keeps its value, and nothing becomes a digit. -/
lemma digitValue?_of_fold? (h : fold? c = some x) : digitValue? c = digitValue? x := by
  rcases fold?_eq_some_cases h with ⟨-, rfl⟩ | ⟨-, hblank, rfl⟩ | ⟨d, -, -, hd, rfl⟩
  · rfl
  · rw [digitValue?_of_isWideBlank hblank]
    decide
  · rw [hd, digitValue?_digitChar (digitValue?_lt hd)]

lemma isDigit_of_fold? (h : fold? c = some x) : x.isDigit = isDecimal c := by
  rw [isDecimal, digitValue?_of_fold? h, digitValue?_of_ascii (toNat_lt_of_fold? h)]
  split_ifs with hx <;> simp [hx]

/-- A mark of ASCII that is no blank and no digit stands for itself alone. -/
lemma eq_iff_of_fold? (h : fold? c = some x) {mark : Char} (hmark : mark.toNat < 128)
    (hspace : mark ≠ ' ') (hdigit : mark.isDigit = false) : x = mark ↔ c = mark := by
  rcases fold?_eq_some_cases h with ⟨-, rfl⟩ | ⟨hc, -, rfl⟩ | ⟨d, hc, -, hd, rfl⟩
  · rfl
  · refine iff_of_false hspace.symm ?_
    rintro rfl
    omega
  · refine iff_of_false ?_ ?_
    · rintro rfl
      rw [Nat.isDigit_digitChar, decide_eq_false_iff_not] at hdigit
      exact hdigit (digitValue?_lt hd)
    · rintro rfl
      omega

lemma eq_underscore_iff_of_fold? (h : fold? c = some x) : x = '_' ↔ c = '_' :=
  eq_iff_of_fold? h (by decide) (by decide) (by decide)

lemma isWideBlank_of_ascii (h : c.toNat < 128) : isWideBlank c = false := by
  simp only [isWideBlank, Bool.or_eq_false_iff, Bool.and_eq_false_iff, beq_eq_false_iff_ne,
    decide_eq_false_iff_not]
  omega

lemma isAsciiBlank_of_not_ascii (h : 128 ≤ c.toNat) : isAsciiBlank c = false := by
  simp [isAsciiBlank]
  omega

lemma isAsciiBlank_of_fold? (h : fold? c = some x) (hseparator : isSeparator c = false) :
    isAsciiBlank x = isBlank c := by
  rw [isBlank, hseparator, Bool.or_false]
  rcases fold?_eq_some_cases h with ⟨hc, rfl⟩ | ⟨hc, hblank, rfl⟩ | ⟨d, hc, hblank, hd, rfl⟩
  · rw [isWideBlank_of_ascii hc, Bool.or_false]
  · rw [hblank, Bool.or_true]
    rfl
  · rw [hblank, isAsciiBlank_of_not_ascii hc]
    have hvalue := Nat.toNat_digitChar_of_lt_ten (digitValue?_lt hd)
    simp [isAsciiBlank, hvalue]
    omega

/-! ### Folded texts -/

/-- Each character of the text stands for the character at its place in the other. -/
abbrev Folds (cs xs : List Char) : Prop := List.Forall₂ (fun c x => fold? c = some x) cs xs

lemma mapM_fold?_eq_some_iff : cs.mapM fold? = some xs ↔ Folds cs xs := by
  induction cs generalizing xs with
  | nil => simp [Folds, eq_comm]
  | cons c cs ih =>
    simp only [List.mapM_cons, Option.bind_eq_bind, Option.bind_eq_some_iff, Option.pure_def,
      Option.some.injEq, ih]
    constructor
    · rintro ⟨x, hx, xs, hxs, rfl⟩
      exact .cons hx hxs
    · rintro (_ | ⟨hx, hxs⟩)
      exact ⟨_, hx, _, hxs, rfl⟩

lemma Folds.trim_eq_self (h : Folds cs xs) (hseparator : ∀ c ∈ cs, isSeparator c = false)
    (htrim : trim isBlank cs = cs) : trim isAsciiBlank xs = xs := by
  rw [trim_eq_self_iff] at htrim ⊢
  have hends : ∀ {cs xs : List Char}, Folds cs xs → (∀ c ∈ cs, isSeparator c = false) →
      (∀ c ∈ cs.head?, isBlank c = false) → ∀ x ∈ xs.head?, isAsciiBlank x = false := by
    rintro _ _ (_ | ⟨hc, -⟩) hsep hhead x hx
    · cases hx
    · cases hx
      rw [isAsciiBlank_of_fold? hc (hsep _ List.mem_cons_self)]
      exact hhead _ rfl
  refine ⟨hends h hseparator htrim.1, ?_⟩
  rw [← List.head?_reverse] at htrim ⊢
  exact hends (List.forall₂_reverse_iff.2 h) (fun c hc => hseparator c (List.mem_reverse.1 hc))
    htrim.2

lemma exists_folds {P : Char → Prop} (h : ∀ c ∈ cs, ∃ x, fold? c = some x ∧ P x) :
    ∃ xs, Folds cs xs ∧ ∀ x ∈ xs, P x := by
  induction cs with
  | nil => exact ⟨[], .nil, by simp⟩
  | cons c cs ih =>
    obtain ⟨⟨x, hx, hp⟩, hcs⟩ := List.forall_mem_cons.1 h
    obtain ⟨xs, hxs, hps⟩ := ih hcs
    exact ⟨x :: xs, .cons hx hxs, List.forall_mem_cons.2 ⟨hp, hps⟩⟩

lemma exists_fold?_of_isBlank (hblank : isBlank c = true) (hseparator : isSeparator c = false) :
    ∃ x, fold? c = some x ∧ isAsciiBlank x = true := by
  obtain ⟨x, hx⟩ : ∃ x, fold? c = some x := by
    unfold fold?
    split_ifs with hascii hwide
    · exact ⟨_, rfl⟩
    · exact ⟨_, rfl⟩
    · rw [isBlank, isAsciiBlank_of_not_ascii (not_lt.1 hascii), hseparator] at hblank
      exact absurd hblank hwide
  exact ⟨x, hx, by rw [isAsciiBlank_of_fold? hx hseparator, hblank]⟩

lemma exists_fold?_of_isDecimal (h : isDecimal c = true) : ∃ x, fold? c = some x := by
  obtain ⟨d, hd⟩ := Option.isSome_iff_exists.1 h
  unfold fold?
  split_ifs
  · exact ⟨_, rfl⟩
  · exact ⟨_, rfl⟩
  · exact ⟨_, by rw [hd]; rfl⟩

/-- Blanks are cut off the same before folding as after. -/
lemma folded?_eq {text : String} (h : ∀ c ∈ text.toList, isSeparator c = false) :
    folded? text = (trim isBlank text.toList).mapM fold? := by
  obtain ⟨front, back, hcs, hfront, hback⟩ := exists_eq_append_trim isBlank text.toList
  have hseparator : ∀ c, c ∈ front ++ (trim isBlank text.toList ++ back) →
      isSeparator c = false := by
    rwa [← hcs]
  simp only [List.mem_append] at hseparator
  obtain ⟨xs, hxs, hxblank⟩ :=
    exists_folds fun c hc => exists_fold?_of_isBlank (hfront c hc) (hseparator c (.inl hc))
  obtain ⟨ys, hys, hyblank⟩ :=
    exists_folds fun c hc => exists_fold?_of_isBlank (hback c hc) (hseparator c (.inr (.inr hc)))
  rw [folded?]
  conv_lhs => rw [hcs]
  rw [List.mapM_append, mapM_fold?_eq_some_iff.2 hxs, List.mapM_append,
    mapM_fold?_eq_some_iff.2 hys]
  rcases hmid : (trim isBlank text.toList).mapM fold? with _ | ms
  · rfl
  · have hms := mapM_fold?_eq_some_iff.1 hmid
    have hself := hms.trim_eq_self (fun c hc => hseparator c (.inr (.inl hc))) (trim_trim _ _)
    exact congrArg some (trim_append hxblank hyblank hself)

end Text

end StackLine
