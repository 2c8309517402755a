import StackLine.Proofs.Lenient

/-!
Integers in the digits of any script.

An integer is read leniently: from the folded text, without its underscores. The texts that are
read so can be described as they stand, by a grammar that knows nothing of folding.
-/

namespace StackLine

namespace Text

variable {c x : Char} {cs xs : List Char}

/-- The values of the decimal digits in a text. -/
def decimals (cs : List Char) : List ℕ := cs.filterMap digitValue?

def decimalValue (cs : List Char) : ℕ := (decimals cs).foldl (fun n d => 10 * n + d) 0

lemma Folds.grouped_iff (h : Folds cs xs) (afterDigit : Bool) :
    Grouped Char.isDigit afterDigit xs ↔ Grouped isDecimal afterDigit cs := by
  induction h generalizing afterDigit with
  | nil =>
    exact iff_of_true (grouped_of_notMem List.not_mem_nil) (grouped_of_notMem List.not_mem_nil)
  | cons hc hcs ih =>
    rw [grouped_cons, grouped_cons, ih, isDigit_of_fold? hc, eq_underscore_iff_of_fold? hc]
    rcases hcs with _ | ⟨hd, -⟩
    · rfl
    · rw [List.head?_cons, List.head?_cons, Option.any_some, Option.any_some, isDigit_of_fold? hd]

/-- Without its underscores the folded text has digits alone, if there were none but digits and
underscores to fold. -/
lemma Folds.digits_iff (h : Folds cs xs) :
    (∀ x ∈ xs.filter (· ≠ '_'), x.isDigit = true) ↔ ∀ c ∈ cs, isDecimal c = true ∨ c = '_' := by
  induction h with
  | nil => simp
  | @cons c x cs xs hc hcs ih =>
    rw [List.forall_mem_cons, ← ih, ← isDigit_of_fold? hc, ← eq_underscore_iff_of_fold? hc]
    by_cases hx : x = '_'
    · simp [hx]
    · simp [hx]

lemma Folds.decimals_eq (h : Folds cs xs) : decimals cs = decimals xs := by
  induction h with
  | nil => rfl
  | cons hc _ ih => rw [decimals, decimals, List.filterMap_cons, List.filterMap_cons,
      digitValue?_of_fold? hc, ← decimals, ← decimals, ih]

lemma decimals_filter (cs : List Char) : decimals (cs.filter (· ≠ '_')) = decimals cs := by
  rw [decimals, List.filterMap_filter, decimals]
  refine List.filterMap_congr fun c _ => ?_
  by_cases hc : c = '_'
  · rw [hc]
    decide
  · rw [if_pos (by simpa using hc)]

lemma decimals_of_isDigit (h : ∀ c ∈ cs, c.isDigit = true) :
    decimals cs = cs.map (·.toNat - 48) := by
  rw [decimals, ← List.filterMap_eq_map]
  refine List.filterMap_congr fun c hc => ?_
  have hrange : 48 ≤ c.toNat ∧ c.toNat ≤ 57 := Char.isDigit_iff_toNat.1 (h c hc)
  rw [digitValue?_of_ascii (by omega), if_pos (h c hc)]
  rfl

lemma decimalValue_of_isDigit (h : ∀ c ∈ cs, c.isDigit = true) :
    decimalValue cs = Numeral.digitsValue cs := by
  rw [decimalValue, decimals_of_isDigit h, List.foldl_map]
  rfl

lemma filter_ne_nil_iff {isDigit : Char → Bool} (h : Grouped isDigit false cs) :
    cs.filter (· ≠ '_') ≠ [] ↔ cs ≠ [] := by
  rcases cs with _ | ⟨c, cs⟩
  · rfl
  · refine iff_of_true ?_ (List.cons_ne_nil c cs)
    have hc : c ≠ '_' := fun hc => Bool.false_ne_true ((grouped_cons.1 h).1 hc).1
    rw [List.filter_cons_of_pos (by simpa using hc)]
    exact List.cons_ne_nil _ _

end Text

namespace Numeral

variable {text : String} {n : ℤ} {xs : List Char}

/-! ### Integers -/

/-- **The grammar of integers**: a sign or none, and digits of any script, with underscores that
stand each between two digits. -/
inductive DenotesInteger : List Char → ℤ → Prop
  | intro (sign : Sign) {body : List Char} (hne : body ≠ [])
      (hchars : ∀ c ∈ body, Text.isDecimal c = true ∨ c = '_')
      (hgrouped : Text.Grouped Text.isDecimal false body) :
      DenotesInteger (sign.chars ++ body)
        ((if sign.isNegative then -1 else 1) * Text.decimalValue body)

/-- The digits of an integer in ASCII, without the sign and the underscores. -/
def integerDigits (xs : List Char) : List Char := (takeSign xs).2.filter (· ≠ '_')

lemma integer?_eq_some_iff :
    integer? text = some n ↔ ∃ xs, Text.folded? text = some xs ∧
      Text.Grouped Char.isDigit false (takeSign xs).2 ∧ integerDigits xs ≠ [] ∧
      (∀ x ∈ integerDigits xs, x.isDigit = true) ∧ (integerDigits xs).length ≤ maxIntegerDigits ∧
      signedValue (takeSign xs).1 (integerDigits xs) = n := by
  unfold integer?
  split
  · next hnone => simp [hnone]
  · next xs hxs =>
    rw [hxs]
    simp only [Option.some.injEq, exists_eq_left']
    split
    · next hdrop =>
      refine iff_of_false (by simp) fun ⟨hgrouped, _⟩ => ?_
      rw [Text.dropUnderscores?_eq_some_iff.2 ⟨hgrouped, rfl⟩] at hdrop
      cases hdrop
    · next ds hdrop =>
      obtain ⟨hgrouped, rfl⟩ := Text.dropUnderscores?_eq_some_iff.1 hdrop
      change (if (integerDigits xs).isEmpty || !(integerDigits xs).all Char.isDigit ||
        decide (maxIntegerDigits < (integerDigits xs).length) then none
        else some (signedValue (takeSign xs).1 (integerDigits xs))) = some n ↔ _
      generalize integerDigits xs = ds
      split_ifs with h
      · refine iff_of_false (by simp) fun ⟨_, hne, hdigits, hlength, _⟩ => ?_
        simp [hne, List.all_eq_true.2 hdigits, hlength.not_gt] at h
      · simp only [Bool.or_eq_true, List.isEmpty_iff, Bool.not_eq_true', decide_eq_true_eq, not_or,
          Bool.not_eq_false, List.all_eq_true, not_lt] at h
        rw [Option.some.injEq, and_iff_right hgrouped, and_iff_right h.1.1, and_iff_right h.1.2,
          and_iff_right h.2]

/-! ### Signs -/

lemma eq_of_fold?_sign {c x : Char} (h : Text.fold? c = some x) (hx : x = '-' ∨ x = '+') :
    c = x := by
  rcases hx with rfl | rfl <;>
    exact (Text.eq_iff_of_fold? h (by decide) (by decide) (by decide)).1 rfl

lemma exists_sign_of_folds {cs : List Char} (h : Text.Folds cs xs) :
    ∃ (sign : Sign) (body : List Char), cs = sign.chars ++ body ∧
      sign.isNegative = (takeSign xs).1 ∧ Text.Folds body (takeSign xs).2 := by
  obtain ⟨sign, hnegative, hxs⟩ := exists_sign xs
  generalize (takeSign xs).2 = ys at *
  subst hxs
  cases sign with
  | absent => exact ⟨.absent, cs, rfl, hnegative, h⟩
  | plus =>
    rcases h with _ | ⟨hc, hbody⟩
    exact ⟨.plus, _, by rw [eq_of_fold?_sign hc (.inr rfl)]; rfl, hnegative, hbody⟩
  | minus =>
    rcases h with _ | ⟨hc, hbody⟩
    exact ⟨.minus, _, by rw [eq_of_fold?_sign hc (.inl rfl)]; rfl, hnegative, hbody⟩

lemma exists_takeSign_of_folds {sign : Sign} {body : List Char}
    (hchars : ∀ c ∈ body, Text.isDecimal c = true ∨ c = '_')
    (h : Text.Folds (sign.chars ++ body) xs) :
    ∃ ys, Text.Folds body ys ∧ takeSign xs = (sign.isNegative, ys) := by
  cases sign with
  | absent =>
    refine ⟨xs, h, takeSign_of_head fun x hx => ?_⟩
    rcases h with _ | ⟨hc, -⟩
    · cases hx
    · cases hx
      have hfirst := hchars _ List.mem_cons_self
      rw [← not_or]
      intro hsign
      rw [eq_of_fold?_sign hc hsign] at hfirst
      rcases hsign with rfl | rfl <;> exact absurd hfirst (by decide)
  | plus | minus =>
    rcases h with _ | ⟨hc, hbody⟩
    cases hc
    exact ⟨_, hbody, rfl⟩

lemma signedValue_of_folds {body ys : List Char} (sign : Sign) (h : Text.Folds body ys)
    (hdigits : ∀ y ∈ ys.filter (· ≠ '_'), y.isDigit = true) :
    signedValue sign.isNegative (ys.filter (· ≠ '_')) =
      (if sign.isNegative then -1 else 1) * Text.decimalValue body := by
  have hdecimal : Text.decimalValue body = Text.decimalValue (ys.filter (· ≠ '_')) := by
    rw [Text.decimalValue, h.decimals_eq, ← Text.decimals_filter]
    rfl
  rw [hdecimal, Text.decimalValue_of_isDigit hdigits, signedValue]
  split_ifs <;> simp

/-- **The grammar on the folded text.** -/
lemma denotesInteger_iff {cs : List Char} (h : Text.Folds cs xs) :
    DenotesInteger cs n ↔
      Text.Grouped Char.isDigit false (takeSign xs).2 ∧ integerDigits xs ≠ [] ∧
        (∀ x ∈ integerDigits xs, x.isDigit = true) ∧
        signedValue (takeSign xs).1 (integerDigits xs) = n := by
  constructor
  · rintro ⟨sign, hne, hchars, hgrouped⟩
    obtain ⟨ys, hbody, htake⟩ := exists_takeSign_of_folds hchars h
    rw [integerDigits, htake]
    have hgrouped' := (hbody.grouped_iff false).2 hgrouped
    have hdigits := hbody.digits_iff.2 hchars
    have hne' : ys ≠ [] := fun hys => hne (List.forall₂_nil_right_iff.1 (hys ▸ hbody))
    exact ⟨hgrouped', (Text.filter_ne_nil_iff hgrouped').2 hne', hdigits,
      signedValue_of_folds sign hbody hdigits⟩
  · rintro ⟨hgrouped, hne, hdigits, rfl⟩
    obtain ⟨sign, body, rfl, hnegative, hbody⟩ := exists_sign_of_folds h
    rw [integerDigits] at hne hdigits ⊢
    rw [← hnegative, signedValue_of_folds sign hbody hdigits]
    refine .intro sign (fun hnil => ?_) (hbody.digits_iff.1 hdigits)
      ((hbody.grouped_iff false).1 hgrouped)
    have hys := List.forall₂_nil_left_iff.1 (hnil ▸ hbody)
    exact (Text.filter_ne_nil_iff hgrouped).1 hne hys

lemma DenotesInteger.exists_folds {cs : List Char} (h : DenotesInteger cs n) :
    ∃ xs, Text.Folds cs xs := by
  obtain ⟨sign, hne, hchars, hgrouped⟩ := h
  refine (Text.exists_folds (P := fun _ => True) fun c hc => ?_).imp fun _ => And.left
  suffices h : ∃ x, Text.fold? c = some x from h.imp fun _ hx => ⟨hx, trivial⟩
  rcases List.mem_append.1 hc with hsign | hbody
  · have hascii : c.toNat < 128 := by
      cases sign <;> simp [Sign.chars] at hsign <;> rw [hsign] <;> decide
    exact ⟨c, if_pos hascii⟩
  · rcases hchars c hbody with hdecimal | rfl
    · exact Text.exists_fold?_of_isDecimal hdecimal
    · exact ⟨'_', rfl⟩

/-- **An integer is read from the texts of the grammar**, as long as its digits are not too many. -/
theorem integer?_eq_some_iff_denotes (hseparator : ∀ c ∈ text.toList, Text.isSeparator c = false)
    (hlimit : (Text.decimals text.toList).length ≤ maxIntegerDigits) :
    integer? text = some n ↔ DenotesInteger (Text.trim Text.isBlank text.toList) n := by
  rw [integer?_eq_some_iff, Text.folded?_eq hseparator]
  simp only [Text.mapM_fold?_eq_some_iff]
  constructor
  · rintro ⟨xs, hxs, hgrouped, hne, hdigits, -, hvalue⟩
    exact (denotesInteger_iff hxs).2 ⟨hgrouped, hne, hdigits, hvalue⟩
  · intro h
    obtain ⟨xs, hxs⟩ := h.exists_folds
    obtain ⟨hgrouped, hne, hdigits, hvalue⟩ := (denotesInteger_iff hxs).1 h
    refine ⟨xs, hxs, hgrouped, hne, hdigits, le_trans ?_ hlimit, hvalue⟩
    -- the digits that are read are among those of the text
    have htake : (takeSign xs).2.Sublist xs := by
      obtain ⟨sign, -, hsplit⟩ := exists_sign xs
      conv_rhs => rw [hsplit]
      exact List.sublist_append_right _ _
    calc (integerDigits xs).length
        = (Text.decimals (integerDigits xs)).length := by
          rw [Text.decimals_of_isDigit hdigits, List.length_map]
      _ = (Text.decimals (takeSign xs).2).length := by rw [integerDigits, Text.decimals_filter]
      _ ≤ (Text.decimals xs).length := (htake.filterMap _).length_le
      _ = (Text.decimals (Text.trim Text.isBlank text.toList)).length := by rw [hxs.decimals_eq]
      _ ≤ (Text.decimals text.toList).length := ((Text.trim_sublist _ _).filterMap _).length_le

end Numeral

end StackLine
