import StackLine.Numeral.Lenient
import StackLine.Proofs.Display
import StackLine.Proofs.Grammar

/-!
The strict reading.

It looks at the text as a whole first: one that is empty, not in ASCII, has an underscore, or has a
blank or a separator at an end, is refused at once. The texts that pass are read leniently, and as
there is nothing to fold, cut off or drop in them, this is the reading of numerals. Every numeral
passes, so the strict reading accepts the grammar and nothing else.
-/

namespace StackLine

namespace Text

/-! ### Texts that pass -/

section

variable {p q : Char → Bool} {cs front mid back : List Char}

lemma trim_eq_self_iff :
    trim p cs = cs ↔ (∀ c ∈ cs.head?, p c = false) ∧ ∀ c ∈ cs.getLast?, p c = false := by
  have hfront : cs.dropWhile p = cs ↔ ∀ c ∈ cs.head?, p c = false := by
    cases cs <;> simp
  have hback : cs.rdropWhile p = cs ↔ ∀ c ∈ cs.getLast?, p c = false := by
    rw [List.rdropWhile_eq_self_iff]
    rcases eq_or_ne cs [] with rfl | hne
    · simp
    · simp [hne, List.getLast?_eq_some_getLast hne]
  rw [← hfront, ← hback]
  change (cs.dropWhile p).rdropWhile p = cs ↔ _
  constructor
  · intro h
    -- what is cut off at the back is cut off a part of the text
    have hle : (cs.dropWhile p).rdropWhile p <+: cs.dropWhile p := List.rdropWhile_prefix p _
    rw [h] at hle
    have hdrop : cs.dropWhile p = cs := (List.dropWhile_suffix p).eq_of_length_le hle.length_le
    rw [hdrop] at h
    exact ⟨hdrop, h⟩
  · rintro ⟨hdrop, hrdrop⟩
    rw [hdrop, hrdrop]

/-- A smaller class cuts off less. -/
lemma trim_eq_self_of_imp (h : trim p cs = cs) (himp : ∀ c, p c = false → q c = false) :
    trim q cs = cs := by
  rw [trim_eq_self_iff] at h ⊢
  exact ⟨fun c hc => himp c (h.1 c hc), fun c hc => himp c (h.2 c hc)⟩

lemma exists_eq_append_trim (p : Char → Bool) (cs : List Char) :
    ∃ front back, cs = front ++ (trim p cs ++ back) ∧ (∀ c ∈ front, p c = true) ∧
      ∀ c ∈ back, p c = true := by
  refine ⟨cs.takeWhile p, (cs.dropWhile p).rtakeWhile p, ?_, fun c => List.mem_takeWhile_imp,
    fun c => List.mem_rtakeWhile_imp⟩
  have hback : trim p cs ++ (cs.dropWhile p).rtakeWhile p = cs.dropWhile p :=
    List.rdropWhile_append_rtakeWhile
  rw [hback, List.takeWhile_append_dropWhile]

lemma trim_sublist (p : Char → Bool) (cs : List Char) : (trim p cs).Sublist cs := by
  obtain ⟨front, back, hcs, -, -⟩ := exists_eq_append_trim p cs
  conv_rhs => rw [hcs]
  exact (List.sublist_append_left _ back).trans (List.sublist_append_right front _)

lemma trim_trim (p : Char → Bool) (cs : List Char) : trim p (trim p cs) = trim p cs := by
  have hlast := List.rdropWhile_eq_self_iff.1 (List.rdropWhile_idempotent p (cs.dropWhile p))
  refine trim_eq_self_iff.2 ⟨fun c hc => ?_, fun c hc => ?_⟩
  · -- it starts as the text does without the front that is cut off
    obtain ⟨back, hback⟩ : trim p cs <+: cs.dropWhile p := List.rdropWhile_prefix p _
    have hhead : (cs.dropWhile p).head? = some c := by
      rw [← hback, List.head?_append, hc]
      rfl
    exact eq_false_of_ne_true fun hp => by
      have := List.head?_dropWhile_not p cs
      simp [hhead, hp] at this
  · have hne : trim p cs ≠ [] := by
      rintro h
      rw [h] at hc
      cases hc
    obtain rfl : (trim p cs).getLast hne = c := List.getLast_of_mem_getLast? hc
    exact eq_false_of_ne_true (hlast hne)

lemma trim_append (hfront : ∀ c ∈ front, p c = true) (hback : ∀ c ∈ back, p c = true)
    (hmid : trim p mid = mid) : trim p (front ++ (mid ++ back)) = mid := by
  have hdrop : (mid ++ back).rdropWhile p = mid.rdropWhile p := by
    rw [List.rdropWhile, List.reverse_append,
      List.dropWhile_append_of_pos fun c hc => hback c (List.mem_reverse.1 hc)]
    rfl
  change ((front ++ (mid ++ back)).dropWhile p).rdropWhile p = mid
  rw [List.dropWhile_append_of_pos hfront]
  rcases mid with _ | ⟨c, rest⟩
  · rw [List.nil_append, List.dropWhile_eq_nil_iff.2 hback]
    rfl
  · have hc := (trim_eq_self_iff.1 hmid).1 c rfl
    have hstay : (c :: rest).dropWhile p = c :: rest := List.dropWhile_cons_of_neg (by simp [hc])
    rw [List.cons_append, List.dropWhile_cons_of_neg (by simp [hc]), ← List.cons_append, hdrop]
    rw [trim, hstay] at hmid
    exact hmid

lemma mapM_fold?_of_ascii (h : ∀ c ∈ cs, c.toNat < 128) : cs.mapM fold? = some cs := by
  induction cs with
  | nil => rfl
  | cons c cs ih =>
    obtain ⟨hc, hcs⟩ := List.forall_mem_cons.1 h
    have hfold : fold? c = some c := if_pos hc
    rw [List.mapM_cons, hfold, ih hcs]
    rfl

lemma dropUnderscores?_of_notMem (h : '_' ∉ cs) (afterDigit : Bool) :
    dropUnderscores? afterDigit cs = some cs := by
  induction cs generalizing afterDigit with
  | nil => rfl
  | cons c cs ih =>
    obtain ⟨hc, hcs⟩ := List.ne_and_not_mem_of_not_mem_cons h
    rw [dropUnderscores?, ih hcs]
    · rfl
    · exact fun hc' => hc hc'.symm

end

/-- What may not stand at the ends of a number. -/
def isEdge (c : Char) : Bool := isAsciiBlank c || isSeparator c

lemma isPlain_iff {cs : List Char} :
    isPlain cs = true ↔
      cs ≠ [] ∧ (∀ c ∈ cs, c.toNat < 128) ∧ '_' ∉ cs ∧ trim isEdge cs = cs := by
  have hmem : '_' ∉ cs ↔ ∀ c ∈ cs, c ≠ '_' := List.forall_mem_ne'.symm
  rw [hmem]
  change (!cs.isEmpty && cs.all (fun c => c.toNat < 128 && c != '_') && trim isEdge cs == cs) =
    true ↔ _
  simp [forall_and, and_assoc]

lemma folded?_of_isPlain {text : String} (h : isPlain text.toList = true) :
    folded? text = some text.toList := by
  obtain ⟨-, hascii, -, htrim⟩ := isPlain_iff.1 h
  have hblank : trim isAsciiBlank text.toList = text.toList :=
    trim_eq_self_of_imp htrim fun c hc => (Bool.or_eq_false_iff.1 hc).1
  rw [folded?, mapM_fold?_of_ascii hascii, Option.map_some, hblank]

/-- Every numeral passes. -/
lemma isPlain_of_denotes {cs : List Char} {n : Numeral} (h : Numeral.Denotes cs n) :
    isPlain cs = true := by
  have hread := Numeral.ofChars?_eq_some_iff.2 h
  have hmark := Numeral.forall_ofChars? hread
  have hedge : ∀ c ∈ cs, isEdge c = false := fun c hc =>
    (Bool.or_eq_false_iff.1 (Numeral.isBlank_of_isMark (hmark c hc))).1
  refine isPlain_iff.2 ⟨?_, fun c hc => ?_, fun hc => ?_, trim_eq_self_iff.2 ⟨fun c hc => ?_,
    fun c hc => ?_⟩⟩
  · rintro rfl
    cases hread
  · have := Numeral.toNat_of_isMark (hmark c hc)
    omega
  · exact absurd (hmark _ hc) (by decide)
  · exact hedge c (List.mem_of_mem_head? hc)
  · exact hedge c (List.mem_of_mem_getLast? hc)

end Text

namespace Binary64

/-! ### The strict reading -/

/-- On the texts that pass, the lenient reading is that of numerals. -/
lemma parseLenient?_of_isPlain {text : String} (h : Text.isPlain text.toList = true) :
    parseLenient? text = parse? text := by
  have hunderscore := (Text.isPlain_iff.1 h).2.2.1
  unfold parseLenient?
  rw [Text.folded?_of_isPlain h]
  dsimp only
  rw [Text.dropUnderscores?_of_notMem hunderscore]
  rfl

lemma parse?_eq_some_iff {text : String} {x : Binary64} :
    parse? text = some x ↔ ∃ n, Numeral.Denotes text.toList n ∧ n.toBinary64 = x := by
  simp [parse?, Numeral.ofChars?_eq_some_iff]

lemma parse_eq_ok_iff {text : String} {x : Binary64} :
    parse text = .ok x ↔ parse? text = some x := by
  unfold parse
  split
  · next h => simp [h]
  · next h =>
    rw [h]
    split <;> simp

lemma parse_eq_error {text : String} (h : parse? text = none) :
    parse text = .error (.notPlain text) ∨ parse text = .error (.malformed text) := by
  unfold parse
  rw [h]
  cases Text.isPlain text.toList
  · exact .inl rfl
  · exact .inr rfl

/-- The strict reading is the lenient one behind a guard. -/
lemma parse_eq_guarded (text : String) :
    parse text =
      if Text.isPlain text.toList then parseLenient text else .error (.notPlain text) := by
  have hpass : ∀ x, parse? text = some x → Text.isPlain text.toList = true := fun x h =>
    have ⟨_, hn, _⟩ := parse?_eq_some_iff.1 h
    Text.isPlain_of_denotes hn
  unfold parse
  split
  · next x hx => rw [if_pos (hpass x hx), parseLenient, parseLenient?_of_isPlain (hpass x hx), hx]
  · next hnone =>
    split
    · next hplain => rw [parseLenient, parseLenient?_of_isPlain hplain, hnone]
    · rfl

end Binary64

namespace Instruction

/-- As no word denotes a number, a token may as well be looked at as a number first. -/
lemma ofToken_eq_parse (text : String) :
    ofToken text =
      match Binary64.parse text with
      | .ok x => literal x
      | .error _ =>
        match Word.ofToken? text with
        | some w => operator w none
        | none => literal .zero := by
  rcases hx : Binary64.parse? text with _ | x
  · have hzero : Binary64.ofText text = .zero := by rw [Binary64.ofText, hx, Option.getD_none]
    obtain ⟨f, hf⟩ : ∃ f, Binary64.parse text = .error f :=
      (Binary64.parse_eq_error hx).elim (⟨_, ·⟩) (⟨_, ·⟩)
    unfold ofToken
    rw [hzero]
    rcases Word.ofToken? text with _ | w <;> rw [hf]
  · have hvalue : Binary64.ofText text = x := by rw [Binary64.ofText, hx, Option.getD_some]
    rw [Binary64.parse_eq_ok_iff.2 hx, ofToken, Word.ofToken?_of_parse? hx, hvalue]

end Instruction

namespace Binary64

/-- **The strict reading accepts exactly the grammar**, though it works by a guard before the
lenient reading. Any other text is refused with one of two errors, and as a token it is one of the
words or a literal of zero. No word is accepted, so whether a token is looked at as a word or as a
number first makes no difference. -/
theorem parse_grammar (text : String) :
    (∀ x, parse text = .ok x ↔ ∃ n, Numeral.Denotes text.toList n ∧ n.toBinary64 = x) ∧
      parse text =
        (if Text.isPlain text.toList then parseLenient text else .error (.notPlain text)) ∧
      ((∀ n, ¬Numeral.Denotes text.toList n) →
        (parse text = .error (.notPlain text) ∨ parse text = .error (.malformed text)) ∧
          ((∃ w : Word, text = w.token ∧ Instruction.ofToken text = .operator w none) ∨
            (∀ w : Word, text ≠ w.token) ∧ Instruction.ofToken text = .literal .zero)) ∧
      (∀ (w : Word) (x : Binary64), parse w.token ≠ .ok x) ∧
      Instruction.ofToken text =
        match parse text with
        | .ok x => .literal x
        | .error _ =>
          match Word.ofToken? text with
          | some w => .operator w none
          | none => .literal .zero := by
  refine ⟨fun x => parse_eq_ok_iff.trans parse?_eq_some_iff, parse_eq_guarded text, fun h => ?_,
    fun w x hx => ?_, Instruction.ofToken_eq_parse text⟩
  · have hnone : parse? text = none := Option.eq_none_iff_forall_ne_some.2 fun x hx =>
      have ⟨n, hn, _⟩ := parse?_eq_some_iff.1 hx
      h n hn
    refine ⟨parse_eq_error hnone, ?_⟩
    rcases hw : Word.ofToken? text with _ | w
    · refine .inr ⟨fun w hword => ?_, ?_⟩
      · rw [hword, Word.ofToken?_token] at hw
        cases hw
      · rw [Instruction.ofToken, hw, ofText, hnone, Option.getD_none]
    · exact .inl ⟨w, (Word.token_of_ofToken? hw).symm, by rw [Instruction.ofToken, hw]⟩
  · rw [parse_eq_ok_iff, w.parse?_token] at hx
    cases hx

/-- A special numeral that breaks off. -/
theorem parse_grammar_infin :
    (∀ n, ¬Numeral.Denotes "infin".toList n) ∧
      (parse "infin" = .error (.notPlain "infin") ∨ parse "infin" = .error (.malformed "infin")) ∧
      ((∃ w : Word, "infin" = w.token ∧ Instruction.ofToken "infin" = .operator w none) ∨
        (∀ w : Word, "infin" ≠ w.token) ∧ Instruction.ofToken "infin" = .literal .zero) := by
  have hnone : Numeral.ofChars? "infin".toList = none := by decide
  have h : ∀ n, ¬Numeral.Denotes "infin".toList n := fun n hn => by
    rw [← Numeral.ofChars?_eq_some_iff, hnone] at hn
    cases hn
  exact ⟨h, (parse_grammar "infin").2.2.1 h⟩

end Binary64

end StackLine
