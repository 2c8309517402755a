import StackLine.Proofs.Display
import StackLine.Repl

/-!
What a listing on command has to do with the program that runs.

The code that is listed is what the command leaves of its line once the blanks at both ends are
cut off, whereas a line that is evaluated keeps its blanks. So a listing is that of the program
that runs if the code does not end with a blank. A space at its end is followed by one more
token, a literal of zero, which is not listed, and another blank right after the last token makes
this token a literal of zero.
-/

namespace StackLine

/-! ### Pieces -/

lemma forall_pieces {P : Char → Prop} {cs : List Char} (h : ∀ c ∈ cs, P c) :
    ∀ piece ∈ pieces cs, ∀ c ∈ piece, P c := by
  induction cs with
  | nil => simp [pieces]
  | cons c rest ih =>
    obtain ⟨hc, hrest⟩ := List.forall_mem_cons.1 h
    have hpieces := ih hrest
    obtain ⟨first, others, hsplit⟩ := List.exists_cons_of_ne_nil (pieces_ne_nil rest)
    rw [hsplit] at hpieces
    obtain ⟨hfirst, hothers⟩ := List.forall_mem_cons.1 hpieces
    rw [pieces, hsplit]
    split
    · exact List.forall_mem_cons.2 ⟨by simp, hpieces⟩
    · exact List.forall_mem_cons.2 ⟨List.forall_mem_cons.2 ⟨hc, hfirst⟩, hothers⟩

lemma length_pieces (cs : List Char) : (pieces cs).length = cs.count ' ' + 1 := by
  induction cs with
  | nil => rfl
  | cons c rest ih =>
    obtain ⟨first, others, hrest⟩ := List.exists_cons_of_ne_nil (pieces_ne_nil rest)
    rw [hrest] at ih
    by_cases hc : c = ' ' <;> simp [pieces, hc, hrest, ← ih]

lemma head_pieces {cs first : List Char} {others : List (List Char)}
    (h : pieces cs = first :: others) : first = cs.takeWhile (· ≠ ' ') := by
  induction cs generalizing first others with
  | nil =>
    cases h
    rfl
  | cons c rest ih =>
    obtain ⟨head, tail, hrest⟩ := List.exists_cons_of_ne_nil (pieces_ne_nil rest)
    by_cases hc : c = ' '
    · rw [pieces, if_pos hc] at h
      cases h
      simp [hc]
    · rw [List.takeWhile_cons_of_pos (by simpa using hc), ← ih hrest]
      rw [pieces, if_neg hc, hrest] at h
      cases h
      rfl

/-- Of two texts put together, the last piece of the one and the first of the other are one. -/
lemma pieces_append (xs ys : List Char) :
    ∃ before last first others, pieces xs = before ++ [last] ∧ pieces ys = first :: others ∧
      pieces (xs ++ ys) = before ++ (last ++ first) :: others := by
  obtain ⟨first, others, hys⟩ := List.exists_cons_of_ne_nil (pieces_ne_nil ys)
  suffices h : ∃ before last, pieces xs = before ++ [last] ∧
      pieces (xs ++ ys) = before ++ (last ++ first) :: others by
    obtain ⟨before, last, hxs, happend⟩ := h
    exact ⟨before, last, first, others, hxs, hys, happend⟩
  induction xs with
  | nil => exact ⟨[], [], rfl, hys⟩
  | cons c xs ih =>
    obtain ⟨before, last, hxs, happend⟩ := ih
    by_cases hc : c = ' '
    · exact ⟨[] :: before, last, by simp [pieces, hc, hxs], by simp [pieces, hc, happend]⟩
    · cases before with
      | nil => exact ⟨[], c :: last, by simp [pieces, hc, hxs], by simp [pieces, hc, happend]⟩
      | cons piece before =>
        exact ⟨(c :: piece) :: before, last, by simp [pieces, hc, hxs],
          by simp [pieces, hc, happend]⟩

/-! ### Blanks in tokens -/

namespace Instruction

lemma isBlank_of_isTokenMark {c : Char} (h : isTokenMark c = true) : Text.isBlank c = false := by
  simp only [isTokenMark, Bool.or_eq_true, beq_iff_eq] at h
  rcases h with (h | rfl) | rfl
  · exact Numeral.isBlank_of_isMark h
  all_goals decide

/-- A token with a blank in it is neither a word nor a number. -/
lemma ofToken_of_isBlank {t : String} {c : Char} (hc : c ∈ t.toList)
    (hblank : Text.isBlank c = true) : ofToken t = .literal .zero := by
  have hmark : ¬isTokenMark c = true := fun h => by
    rw [isBlank_of_isTokenMark h] at hblank
    cases hblank
  have hword : Word.ofToken? t = none := by
    refine Option.eq_none_iff_forall_ne_some.2 fun w hw => hmark ?_
    rw [← Word.token_of_ofToken? hw] at hc
    exact isTokenMark_of_mem_word w c hc
  have hnumber : Binary64.parse? t = none := by
    refine Option.eq_none_iff_forall_ne_some.2 fun x hx => hmark ?_
    rw [isTokenMark, Binary64.isMark_of_parse? hx c hc]
    rfl
  rw [ofToken, hword, Binary64.ofText, hnumber]
  rfl

lemma ofToken_of_forall_isBlank {cs : List Char} (h : ∀ c ∈ cs, Text.isBlank c = true) :
    ofToken (String.ofList cs) = .literal .zero := by
  cases cs with
  | nil => decide
  | cons c rest => exact ofToken_of_isBlank (by simp) (h c List.mem_cons_self)

end Instruction

namespace Program

/-- The program that runs, when blanks follow the code of the program that is listed. The two
have the same instructions at the same positions, but for the last one listed and those after. -/
structure Blanked (blanks : List Char) (listed running : Program) : Prop where
  size : running.size = listed.size + blanks.count ' '
  before : ∀ n, n + 1 < listed.size → running[n]? = listed[n]?
  last : ∀ n, n + 1 = listed.size →
    running[n]? = if blanks.head?.all (· = ' ') then listed[n]? else some (.literal .zero)
  after : ∀ n, listed.size ≤ n → n < running.size → running[n]? = some (.literal .zero)

lemma length_splitOn_listing {p : Program} (hp : 0 < p.size) :
    (p.listing.toList.splitOn '\n').length = p.size := by
  simp [splitOn_listing hp]

lemma toList_ofLine (line : String) :
    (ofLine line).toList = (tokens line).map Instruction.ofToken := List.toList_toArray

lemma getElem?_ofLine (cs : List Char) (n : ℕ) :
    (ofLine (String.ofList cs))[n]? =
      (pieces cs)[n]?.map fun piece => Instruction.ofToken (String.ofList piece) := by
  simp [ofLine, ofTokens, tokens, Function.comp_def]

lemma blanked_ofLine {cs blanks : List Char} (h : ∀ c ∈ blanks, Text.isBlank c = true) :
    Blanked blanks (ofLine (String.ofList cs)) (ofLine (String.ofList (cs ++ blanks))) := by
  obtain ⟨before, last, first, others, hcs, hblanks, happend⟩ := pieces_append cs blanks
  have hsize : (ofLine (String.ofList cs)).size = before.length + 1 := by
    simp [ofLine, tokens, hcs]
  have hrunning : (ofLine (String.ofList (cs ++ blanks))).size =
      before.length + 1 + others.length := by
    simp [ofLine, tokens, happend, Nat.add_assoc, Nat.add_comm 1]
  have hothers : others.length = blanks.count ' ' := by
    simpa [hblanks] using length_pieces blanks
  have hall := forall_pieces h
  rw [hblanks, List.forall_mem_cons] at hall
  refine ⟨?_, fun n hn => ?_, fun n hn => ?_, fun n hn hlt => ?_⟩
  · rw [hrunning, hsize, hothers]
  · rw [hsize] at hn
    rw [getElem?_ofLine, getElem?_ofLine, hcs, happend, List.getElem?_append_left (by omega),
      List.getElem?_append_left (by omega)]
  · obtain rfl : n = before.length := by omega
    simp only [getElem?_ofLine, hcs, happend, List.getElem?_append_right le_rfl, Nat.sub_self,
      List.getElem?_cons_zero, Option.map_some]
    -- the last token of the code and the blanks up to the first space make one token
    rw [head_pieces hblanks]
    rcases blanks with _ | ⟨c, rest⟩
    · simp
    · by_cases hc : c = ' '
      · simp [hc]
      · have hzero := Instruction.ofToken_of_isBlank
          (t := String.ofList (last ++ (c :: rest).takeWhile (· ≠ ' '))) (c := c)
          (by simp [hc]) (h c List.mem_cons_self)
        simpa [hc] using hzero
  · obtain ⟨k, rfl⟩ : ∃ k, n = before.length + 1 + k := ⟨n - (before.length + 1), by omega⟩
    have hk : k < others.length := by omega
    rw [getElem?_ofLine, happend, List.getElem?_append_right (by omega), Nat.add_assoc,
      Nat.add_sub_cancel_left, Nat.add_comm 1, List.getElem?_cons_succ,
      List.getElem?_eq_getElem hk, Option.map_some,
      Instruction.ofToken_of_forall_isBlank (hall.2 _ (List.getElem_mem hk))]

end Program

namespace Repl

/-! ### The command -/

lemma trim_see {cs : List Char} (h : ∃ c ∈ cs, Text.isBlank c = false) :
    Text.trim Text.isBlank ("see ".toList ++ cs) =
      "see ".toList ++ cs.rdropWhile Text.isBlank := by
  have hfront : ("see ".toList ++ cs).dropWhile Text.isBlank = "see ".toList ++ cs :=
    List.dropWhile_cons_of_neg (by decide)
  have hback : ¬(cs.reverse.dropWhile Text.isBlank).isEmpty = true := by
    simpa using h
  rw [Text.trim, hfront, List.reverse_append, List.dropWhile_append, if_neg hback,
    List.reverse_append, List.reverse_reverse, List.rdropWhile]

lemma ofLine_see {c : String} (h : ∃ a ∈ c.toList, Text.isBlank a = false) :
    Command.ofLine ("see " ++ c) =
      .list (String.ofList (c.toList.rdropWhile Text.isBlank)) := by
  have hlowered : ("see ".toList ++ c.toList.rdropWhile Text.isBlank).map lower =
      's' :: 'e' :: 'e' :: ' ' :: (c.toList.rdropWhile Text.isBlank).map lower := by
    rfl
  rw [Command.ofLine, String.toList_append, trim_see h, hlowered]
  simp

/-- **What is listed on command.** The command answers with the listing of the program of its
code without the blanks at the end of the code: one line for each token, with the number of the
token. If there are no such blanks, this is the program that runs when the code is entered as a
line. If there are, the program that runs has one more instruction for each space among them,
all of them literals of zero, and if they do not start with a space its last instruction on the
listing is a literal of zero, too. -/
theorem respond_see (s : Session) (patience : ℕ) (c : String)
    (hc : ∃ a ∈ c.toList, Text.isBlank a = false) :
    let code := String.ofList (c.toList.rdropWhile Text.isBlank)
    let blanks := c.toList.rtakeWhile Text.isBlank
    let listed := Program.ofLine code
    let running := (Evaluation.ofLine s.budget patience c).program
    respond patience s (.line ("see " ++ c)) = some
        { text := listed.listing ++ "\n", records := [.compiled listed.size], session := s } ∧
      listed.listing.toList.splitOn '\n' =
        (tokens code).mapIdx (fun n t =>
          (Program.listingLine n (Instruction.ofToken t)).toList) ∧
      (blanks = [] → code = c ∧ listed = running) ∧
      Program.Blanked blanks listed running := by
  intro code blanks listed running
  have hsplit : c.toList.rdropWhile Text.isBlank ++ blanks = c.toList :=
    List.rdropWhile_append_rtakeWhile
  have hrunning : running = Program.ofLine (String.ofList
      (c.toList.rdropWhile Text.isBlank ++ blanks)) := by
    rw [hsplit, String.ofList_toList]
    rfl
  refine ⟨?_, ?_, fun hnone => ?_, ?_⟩
  · simp only [respond, ofLine_see hc]
    rfl
  · rw [Program.splitOn_listing (Program.size_ofLine_pos code), Program.toList_ofLine]
    exact List.ext_getElem? fun n => by simp [Function.comp_def]
  · rw [hnone, List.append_nil] at hsplit hrunning
    refine ⟨?_, hrunning.symm⟩
    rw [← String.toList_inj, String.toList_ofList, hsplit]
  · rw [hrunning]
    exact Program.blanked_ofLine fun a ha => List.mem_rtakeWhile_imp ha

/-- A space at the end of the code is one more literal when the code runs, and not listed. -/
theorem respond_see_trailing_space :
    let s : Session := {}
    let running := (Evaluation.ofLine s.budget 0 "1 ").program
    (∃ a ∈ "1 ".toList, Text.isBlank a = false) ∧
      running.size = 2 ∧
      (respond 0 s (.line ("see " ++ "1 "))).map Reply.text =
        some ((Program.ofLine "1").listing ++ "\n") ∧
      (Program.ofLine "1").listing ≠ running.listing := by
  intro s running
  have hc : ∃ a ∈ "1 ".toList, Text.isBlank a = false := ⟨'1', by decide, by decide⟩
  obtain ⟨hreply, -, -, hblanked⟩ := respond_see s 0 "1 " hc
  have hcode : String.ofList ("1 ".toList.rdropWhile Text.isBlank) = "1" := by decide
  rw [hcode] at hreply hblanked
  have hone : (Program.ofLine "1").size = 1 := by decide
  have htwo : running.size = 2 := hblanked.size.trans (by decide)
  refine ⟨hc, htwo, ?_, fun hlisting => ?_⟩
  · rw [hreply, Option.map_some]
  -- equal listings have equally many lines
  have hlines := Program.length_splitOn_listing (Program.size_ofLine_pos "1")
  have hlines' := Program.length_splitOn_listing (p := running) (by omega)
  rw [← hlisting, hlines] at hlines'
  omega

end Repl

end StackLine
