import StackLine.Operand
import StackLine.Proofs.Folding

/-!
The lenient reading, beside the strict one.

It takes blanks off the ends and underscores out of the inside, and reads what is left as the
strict reading does. An underscore counts only between two digits; anywhere else it spoils the
text. So whatever the strict reading accepts, the lenient one reads as the same number, and what it
accepts beyond that has a blank at an end or an underscore.
-/

namespace StackLine

namespace Text

/-- Each underscore stands between two digits. The second argument says whether a digit stands
before the text. -/
def Grouped (isDigit : Char → Bool) (afterDigit : Bool) (cs : List Char) : Prop :=
  ∀ front back, cs = front ++ '_' :: back →
    front.getLast?.elim afterDigit isDigit = true ∧ back.head?.any isDigit = true

section

variable {isDigit : Char → Bool} {afterDigit : Bool} {c : Char}
  {cs ds front mid back : List Char}

lemma grouped_of_notMem (h : '_' ∉ cs) : Grouped isDigit afterDigit cs := by
  rintro front back rfl
  simp at h

lemma grouped_cons :
    Grouped isDigit afterDigit (c :: cs) ↔
      (c = '_' → afterDigit = true ∧ cs.head?.any isDigit = true) ∧
        Grouped isDigit (isDigit c) cs := by
  have hlast : ∀ front : List Char,
      (c :: front).getLast?.elim afterDigit isDigit = front.getLast?.elim (isDigit c) isDigit := by
    intro front
    rw [List.getLast?_cons]
    cases front.getLast? <;> rfl
  constructor
  · intro h
    refine ⟨?_, fun front back hcs => ?_⟩
    · rintro rfl
      exact h [] cs rfl
    · rw [← hlast]
      exact h (c :: front) back (congrArg (c :: ·) hcs)
  · rintro ⟨hc, hcs⟩ (_ | ⟨d, front⟩) back hsplit
    · obtain ⟨rfl, rfl⟩ := List.cons.inj hsplit
      exact hc rfl
    · obtain ⟨rfl, rfl⟩ := List.cons.inj hsplit
      rw [hlast]
      exact hcs front back rfl

/-- What stands around the text without a digit or an underscore makes no difference. -/
lemma grouped_append (hfront : ∀ c ∈ front, isDigit c = false ∧ c ≠ '_')
    (hback : ∀ c ∈ back, isDigit c = false ∧ c ≠ '_') :
    Grouped isDigit false (front ++ (mid ++ back)) ↔ Grouped isDigit false mid := by
  induction front with
  | cons c front ih =>
    obtain ⟨hc, hfront⟩ := List.forall_mem_cons.1 hfront
    rw [List.cons_append, grouped_cons, hc.1, ih hfront]
    exact and_iff_right fun h => absurd h hc.2
  | nil =>
    rw [List.nil_append]
    generalize false = afterDigit
    induction mid generalizing afterDigit with
    | nil =>
      exact iff_of_true (grouped_of_notMem fun h => (hback _ h).2 rfl) (grouped_of_notMem (by simp))
    | cons c mid ih =>
      have hhead : (mid ++ back).head?.any isDigit = mid.head?.any isDigit := by
        rcases mid with _ | ⟨d, mid⟩
        · rcases back with _ | ⟨b, back⟩
          · rfl
          · exact (hback b (by simp)).1
        · rfl
      rw [List.cons_append, grouped_cons, grouped_cons, hhead, ih]

lemma dropUnderscores?_underscore (afterDigit : Bool) (cs : List Char) :
    dropUnderscores? afterDigit ('_' :: cs) =
      if afterDigit && cs.head?.any Char.isDigit then dropUnderscores? false cs else none := by
  cases cs with
  | nil => simp [dropUnderscores?]
  | cons c cs => rfl

lemma dropUnderscores?_cons (h : c ≠ '_') (afterDigit : Bool) (cs : List Char) :
    dropUnderscores? afterDigit (c :: cs) = (dropUnderscores? c.isDigit cs).map (c :: ·) := by
  rw [dropUnderscores?]
  exact h

/-- **Which underscores may be dropped.** -/
lemma dropUnderscores?_eq_some_iff :
    dropUnderscores? afterDigit cs = some ds ↔
      Grouped Char.isDigit afterDigit cs ∧ cs.filter (· ≠ '_') = ds := by
  induction cs generalizing afterDigit ds with
  | nil => simp [dropUnderscores?, grouped_of_notMem]
  | cons c cs ih =>
    rw [grouped_cons]
    by_cases hc : c = '_'
    · subst hc
      have hfilter : ('_' :: cs).filter (· ≠ '_') = cs.filter (· ≠ '_') :=
        List.filter_cons_of_neg (by simp)
      rw [dropUnderscores?_underscore, hfilter]
      split_ifs with h
      · rw [Bool.and_eq_true] at h
        rw [ih, and_iff_right fun _ => h]
        rfl
      · rw [Bool.and_eq_true] at h
        exact iff_of_false (by simp) fun hgrouped => h (hgrouped.1.1 rfl)
    · rw [dropUnderscores?_cons hc, Option.map_eq_some_iff,
        List.filter_cons_of_pos (by simpa using hc), and_iff_right fun h => absurd h hc]
      simp only [ih, and_assoc]
      constructor
      · rintro ⟨_, hgrouped, rfl, rfl⟩
        exact ⟨hgrouped, rfl⟩
      · rintro ⟨hgrouped, rfl⟩
        exact ⟨_, hgrouped, rfl, rfl⟩

end

/-! ### ASCII without separators -/

/-- The text without the blanks around it and without its underscores. -/
def bare (text : String) : String :=
  String.ofList ((trim isBlank text.toList).filter (· ≠ '_'))

/-- A text in ASCII without a separator. -/
def IsSimple (text : String) : Prop :=
  ∀ c ∈ text.toList, c.toNat < 128 ∧ isSeparator c = false

variable {text : String}

instance : Decidable (IsSimple text) := List.decidableBAll _ _

lemma isDigit_of_isBlank {c : Char} (h : isBlank c = true) : c.isDigit = false ∧ c ≠ '_' := by
  constructor
  · refine eq_false_of_ne_true fun hdigit => ?_
    have hmark : Numeral.isMark c = true := by
      simp [Numeral.isMark, Char.isAlphanum, hdigit]
    rw [Numeral.isBlank_of_isMark hmark] at h
    cases h
  · rintro rfl
    exact absurd h (by decide)

lemma IsSimple.folded?_eq (h : IsSimple text) :
    folded? text = some (trim isBlank text.toList) := by
  rw [Text.folded?_eq fun c hc => (h c hc).2, mapM_fold?_of_ascii fun c hc => ?_]
  exact (h c ((trim_sublist _ _).subset hc)).1

lemma grouped_trim :
    Grouped Char.isDigit false (trim isBlank text.toList) ↔
      Grouped Char.isDigit false text.toList := by
  obtain ⟨front, back, hcs, hfront, hback⟩ := exists_eq_append_trim isBlank text.toList
  conv_rhs => rw [hcs]
  exact (grouped_append (fun c hc => isDigit_of_isBlank (hfront c hc))
    fun c hc => isDigit_of_isBlank (hback c hc)).symm

lemma bare_eq_self (htrim : trim isBlank text.toList = text.toList) (hmem : '_' ∉ text.toList) :
    bare text = text := by
  rw [bare, htrim, List.filter_eq_self.2, String.ofList_toList]
  rintro c hc
  exact decide_eq_true fun h => hmem (h ▸ hc)

end Text

namespace Binary64

variable {text : String} {x : Binary64}

lemma parseLenient_eq_ok_iff : parseLenient text = .ok x ↔ parseLenient? text = some x := by
  unfold parseLenient
  split
  · next h => simp [h]
  · next h => simp [h]

lemma parseLenient_eq (text : String) :
    (∃ x, parseLenient text = .ok x) ∨ parseLenient text = .error (.malformed text) := by
  unfold parseLenient
  split
  · exact .inl ⟨_, rfl⟩
  · exact .inr rfl

/-- **The lenient reading is the strict one of the bare text.** -/
lemma parseLenient_eq_ok_iff_bare (h : Text.IsSimple text) :
    parseLenient text = .ok x ↔
      Text.Grouped Char.isDigit false text.toList ∧ parse (Text.bare text) = .ok x := by
  rw [parseLenient_eq_ok_iff, parse_eq_ok_iff, ← Text.grouped_trim]
  unfold parseLenient?
  rw [h.folded?_eq]
  dsimp only
  split
  · next hdrop =>
    refine iff_of_false (by simp) fun ⟨hgrouped, _⟩ => ?_
    rw [Text.dropUnderscores?_eq_some_iff.2 ⟨hgrouped, rfl⟩] at hdrop
    cases hdrop
  · next ds hdrop =>
    obtain ⟨hgrouped, rfl⟩ := Text.dropUnderscores?_eq_some_iff.1 hdrop
    rw [and_iff_right hgrouped, parse?, Text.bare, String.toList_ofList]

/-- What the strict reading accepts has no blank at an end, and no underscore. -/
lemma edges_of_parse (h : parse text = .ok x) :
    Text.trim Text.isBlank text.toList = text.toList ∧ '_' ∉ text.toList := by
  obtain ⟨n, hn, -⟩ := parse?_eq_some_iff.1 (parse_eq_ok_iff.1 h)
  have hmark := Numeral.forall_ofChars? (Numeral.ofChars?_eq_some_iff.2 hn)
  refine ⟨Text.trim_eq_self_iff.2 ⟨fun c hc => ?_, fun c hc => ?_⟩, fun hc => ?_⟩
  · exact Numeral.isBlank_of_isMark (hmark c (List.mem_of_mem_head? hc))
  · exact Numeral.isBlank_of_isMark (hmark c (List.mem_of_mem_getLast? hc))
  · exact absurd (hmark _ hc) (by decide)

lemma ofText_of_parse (h : parse text = .ok x) : ofText text = x := by
  rw [ofText, parse_eq_ok_iff.1 h, Option.getD_some]

lemma ofText_eq_zero_of_edges
    (h : ¬(Text.trim Text.isBlank text.toList = text.toList ∧ '_' ∉ text.toList)) :
    ofText text = .zero := by
  have hnone : parse? text = none := Option.eq_none_iff_forall_ne_some.2 fun x hx =>
    h (edges_of_parse (parse_eq_ok_iff.2 hx))
  rw [ofText, hnone, Option.getD_none]

/-- **The two readings of a text agree.** What the strict reading accepts, the lenient one reads as
the same number. In ASCII without separators, the lenient reading succeeds exactly if each
underscore stands between two digits and the strict reading accepts the text without the blanks
around it and without underscores, and both then give the same number; else it fails with its one
error. So on such a text, what is read as a token is what is read leniently, unless that fails or
the text has a blank at an end or an underscore, and then it is zero as a token. -/
theorem parseLenient_agrees (text : String) :
    (∀ x, parse text = .ok x → (Operand.text text).toBinary64 = .ok x) ∧
      (Text.IsSimple text →
        (∀ x, (Operand.text text).toBinary64 = .ok x ↔
          Text.Grouped Char.isDigit false text.toList ∧ parse (Text.bare text) = .ok x) ∧
        ((∃ x, (Operand.text text).toBinary64 = .ok x) ∨
          (Operand.text text).toBinary64 = .error (.malformed text)) ∧
        if Text.trim Text.isBlank text.toList = text.toList ∧ '_' ∉ text.toList then
          (Operand.text text).toBinary64 = .ok (ofText text) ∨
            (Operand.text text).toBinary64 = .error (.malformed text)
        else ofText text = .zero) := by
  change (∀ x, _ → parseLenient text = _) ∧ (_ → (∀ x, parseLenient text = _ ↔ _) ∧
    ((∃ x, parseLenient text = _) ∨ parseLenient text = _) ∧
      if _ then parseLenient text = _ ∨ parseLenient text = _ else _)
  refine ⟨fun x hx => ?_, fun hsimple => ⟨fun x => parseLenient_eq_ok_iff_bare hsimple,
    parseLenient_eq text, ?_⟩⟩
  · obtain ⟨n, hn, -⟩ := parse?_eq_some_iff.1 (parse_eq_ok_iff.1 hx)
    rw [parseLenient_eq_ok_iff, parseLenient?_of_isPlain (Text.isPlain_of_denotes hn)]
    exact parse_eq_ok_iff.1 hx
  · split_ifs with hedges
    · refine (parseLenient_eq text).imp_left fun ⟨x, hx⟩ => ?_
      obtain ⟨-, hparse⟩ := (parseLenient_eq_ok_iff_bare hsimple).1 hx
      rw [Text.bare_eq_self hedges.1 hedges.2] at hparse
      rw [hx, ofText_of_parse hparse]
    · exact ofText_eq_zero_of_edges hedges

/-- A numeral with underscores between blanks, and one with an underscore beside its point. -/
theorem parseLenient_agrees_underscores :
    let spaced := "\t1_0.5e0_3 "
    let broken := "1_.5"
    (Operand.text "-.5e1").toBinary64 = .ok (ofText "-5") ∧
      Text.IsSimple spaced ∧ (Operand.text spaced).toBinary64 = .ok (ofText "10500") ∧
      ofText spaced = .zero ∧
      Text.IsSimple broken ∧ (Operand.text broken).toBinary64 = .error (.malformed broken) := by
  intro spaced broken
  obtain ⟨hstrict, -⟩ := parseLenient_agrees "-.5e1"
  have hfive : parse "-.5e1" = .ok (ofText "-5") := by decide +kernel
  have hspaced : Text.IsSimple spaced := by decide
  have hdrop : Text.dropUnderscores? false spaced.toList = some "\t10.5e03 ".toList := by decide
  have hgrouped := (Text.dropUnderscores?_eq_some_iff.1 hdrop).1
  have hbare : parse (Text.bare spaced) = .ok (ofText "10500") := by decide +kernel
  obtain ⟨hread, -, hzero⟩ := (parseLenient_agrees spaced).2 hspaced
  rw [if_neg (by decide)] at hzero
  have hbroken : Text.IsSimple broken := by decide
  have hsplit : broken.toList = ['1'] ++ '_' :: ['.', '5'] := by decide
  have hpoint : ¬Text.Grouped Char.isDigit false broken.toList := fun h =>
    absurd (h _ _ hsplit).2 (by decide)
  obtain ⟨hread', hfail, -⟩ := (parseLenient_agrees broken).2 hbroken
  exact ⟨hstrict _ hfive, hspaced, (hread _).2 ⟨hgrouped, hbare⟩, hzero, hbroken,
    hfail.resolve_left fun ⟨x, hx⟩ => hpoint ((hread' x).1 hx).1⟩

end Binary64

end StackLine
