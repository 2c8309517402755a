import StackLine.Proofs.Written
import StackLine.Run

/-!
A program as a line.

Its tokens put together by single spaces decode to the program again, and they are what stands
last on the lines of its listing.
-/

namespace StackLine

/-! ### Tokens -/

lemma pieces_eq_splitOn (cs : List Char) : pieces cs = cs.splitOn ' ' := by
  induction cs with
  | nil => rfl
  | cons c cs ih =>
    rw [pieces, List.splitOn_cons_eq_if_modifyHead, ih]
    by_cases hc : c = ' '
    · simp [hc]
    · obtain ⟨first, others, hcs⟩ := List.exists_cons_of_ne_nil (List.splitOn_ne_nil ' ' cs)
      simp [hc, hcs]

lemma tokens_ne_nil (line : String) : tokens line ≠ [] := by
  simp [tokens, pieces_ne_nil]

/-- Tokens put together by single spaces are the tokens of the line. -/
lemma tokens_intercalate {ts : List String} (hne : ts ≠ []) (h : ∀ t ∈ ts, ' ' ∉ t.toList) :
    tokens (" ".intercalate ts) = ts := by
  have hspace : " ".toList = [' '] := rfl
  rw [tokens, pieces_eq_splitOn, String.toList_intercalate, hspace, List.splitOn_intercalate]
  · simp [Function.comp_def]
  · simpa using h
  · simpa using hne

/-- A text without spaces is one token. -/
lemma tokens_eq_singleton {t : String} (h : ' ' ∉ t.toList) : tokens t = [t] := by
  have htokens := tokens_intercalate (List.cons_ne_nil t []) (by simpa using h)
  rwa [String.intercalate_singleton] at htokens

namespace Instruction

/-- What numerals and words consist of. -/
def isTokenMark (c : Char) : Bool := Numeral.isMark c || c == '*' || c == '/'

lemma isTokenMark_of_mem_word (w : Word) : ∀ c ∈ w.token.toList, isTokenMark c = true := by
  cases w <;> exact List.all_eq_true.1 (by decide)

lemma isTokenMark_of_mem_token (i : Instruction) : ∀ c ∈ i.token.toList, isTokenMark c = true := by
  cases i with
  | operator w carried => exact isTokenMark_of_mem_word w
  | literal x =>
    intro c hc
    rw [isTokenMark, Binary64.isMark_of_parse? x.parse?_text c hc]
    rfl

lemma not_mem_token (i : Instruction) {c : Char} (h : isTokenMark c = false) :
    c ∉ i.token.toList := by
  intro hc
  rw [i.isTokenMark_of_mem_token c hc] at h
  cases h

/-- What is decoded from a token is decoded from its own token. -/
lemma ofToken_token_ofToken (t : String) : ofToken (ofToken t).token = ofToken t := by
  rw [ofToken_token]
  unfold ofToken
  cases Word.ofToken? t <;> rfl

end Instruction

/-! ### Listings -/

/-- What stands on each line of a listing after its last space. -/
def lastColumns (listing : String) : List String :=
  (listing.toList.splitOn '\n').map fun line => String.ofList ((line.splitOn ' ').getLastD [])

namespace Program

lemma newline_not_mem_listingLine (position : ℕ) (i : Instruction) :
    '\n' ∉ (listingLine position i).toList := by
  have hdigits : '\n' ∉ Nat.toDigits 10 position := fun h =>
    absurd (Nat.isDigit_of_mem_toDigits (by decide) (by decide) h) (by decide)
  have hname : '\n' ∉ i.opcode.name.toList := by
    rcases i.opcode with w | _
    · cases w <;> decide
    · decide
  have htoken := i.not_mem_token (c := '\n') (by decide)
  simp [listingLine, padLeft, padRight, List.mem_replicate, hdigits, hname, htoken]

lemma getLastD_splitOn_listingLine (position : ℕ) (i : Instruction) :
    String.ofList (((listingLine position i).toList.splitOn ' ').getLastD []) = i.token := by
  have htoken := i.not_mem_token (c := ' ') (by decide)
  have hline : (listingLine position i).toList =
      (padLeft 3 position.repr ++ ". " ++ padRight 10 i.opcode.name).toList ++
        ' ' :: i.token.toList := by
    simp [listingLine]
  rw [hline, List.splitOn_append_cons_self, List.splitOn_eq_singleton htoken]
  simp

/-- The lines of a listing, one for each instruction. -/
lemma splitOn_listing {p : Program} (hp : 0 < p.size) :
    p.listing.toList.splitOn '\n' = p.toList.mapIdx fun n i => (listingLine n i).toList := by
  have hnewline : "\n".toList = ['\n'] := rfl
  rw [listing, String.toList_intercalate, hnewline, List.splitOn_intercalate]
  · exact List.ext_getElem? fun n => by simp [Function.comp_def]
  · simp only [List.mem_map, List.mem_mapIdx]
    rintro _ ⟨_, ⟨n, hn, rfl⟩, rfl⟩
    exact newline_not_mem_listingLine n _
  · simpa [List.eq_nil_iff_length_eq_zero] using hp.ne'

lemma lastColumns_listing {p : Program} (hp : 0 < p.size) :
    lastColumns p.listing = p.toList.map Instruction.token := by
  rw [lastColumns, splitOn_listing hp]
  refine List.ext_getElem? fun n => ?_
  simp only [List.getElem?_map, List.getElem?_mapIdx, Option.map_map]
  exact congrArg (Option.map · _) (funext (getLastD_splitOn_listingLine n))

/-- The tokens of a program as a line. -/
def render (p : Program) : String := " ".intercalate (p.toList.map Instruction.token)

lemma ofLine_render_of_forall {p : Program} (hp : 0 < p.size)
    (h : ∀ i ∈ p, Instruction.ofToken i.token = i) : ofLine p.render = p := by
  have htokens : tokens p.render = p.toList.map Instruction.token := by
    refine tokens_intercalate ?_ ?_
    · simpa [List.eq_nil_iff_length_eq_zero] using hp.ne'
    · rw [List.forall_mem_map]
      exact fun i _ => i.not_mem_token (by decide)
  have hdecoded : p.toList.map (Instruction.ofToken ∘ Instruction.token) = p.toList :=
    (List.map_congr_left fun i hi => h i (Array.mem_toList_iff.1 hi)).trans (List.map_id' _)
  rw [ofLine, htokens, ofTokens, List.map_map, hdecoded, Array.toArray_toList]

lemma size_ofLine_pos (line : String) : 0 < (ofLine line).size := by
  rw [ofLine, size_ofTokens]
  exact List.length_pos_of_ne_nil (tokens_ne_nil line)

/-- **A program is decoded from its tokens.** Put together by single spaces, which gives the
last columns of its listing, the tokens of the program of any line decode to that program:
position by position it has the same opcode and, for a literal, the same number, the sign of
zero included. So the listing is the same, and every run is. -/
theorem ofLine_render (line : String) :
    let p := ofLine line
    let q := ofLine p.render
    " ".intercalate (lastColumns p.listing) = p.render ∧
      q.size = p.size ∧
      (∀ n : ℕ, q[n]? = p[n]?) ∧
      q.listing = p.listing ∧
      ∀ (k : ℕ) (c : Config), q.run k c = p.run k c := by
  intro p q
  have hq : q = p := by
    refine ofLine_render_of_forall (size_ofLine_pos line) fun i hi => ?_
    obtain ⟨t, -, rfl⟩ := List.mem_map.1 (List.mem_toArray.1 hi)
    exact Instruction.ofToken_token_ofToken t
  rw [hq, lastColumns_listing (size_ofLine_pos line)]
  exact ⟨rfl, rfl, fun _ => rfl, rfl, fun _ _ => rfl⟩

end Program

end StackLine
