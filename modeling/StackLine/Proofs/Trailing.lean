import StackLine.Proofs.Display

/-!
Numbers behind a line.

Tokens that are no words, put behind a line, are more numbers to push. A run that never ends does
not come to them, and a run that ends does so at the first or at a later one of them, by a jump
past the end, or beyond them all. So they never change what is printed: they only add to the stack,
from the place on at which the run would have ended.
-/

namespace StackLine

/-- One token after another behind a line. -/
lemma tokens_intercalate_cons (line : String) {ts : List String} (h : ∀ t ∈ ts, ' ' ∉ t.toList) :
    tokens (" ".intercalate (line :: ts)) = tokens line ++ ts := by
  cases ts with
  | nil => simp
  | cons t ts =>
    have hne : t :: ts ≠ [] := List.cons_ne_nil t ts
    rw [String.intercalate_cons_of_ne_nil hne, tokens_append, tokens_intercalate hne h]

lemma Instruction.ofToken_of_not_word {t : String} (h : Word.ofToken? t = none) :
    ofToken t = .literal (.ofText t) := by
  rw [ofToken, h]

namespace Program

variable {p : Program} {c : Config}

lemma ofTokens_eq_pushing {ts : List String} (h : ∀ t ∈ ts, Word.ofToken? t = none) :
    ofTokens ts = pushing (ts.map Binary64.ofText) := by
  have hliterals :
      ts.map Instruction.ofToken = (ts.map Binary64.ofText).map Instruction.literal := by
    rw [List.map_map]
    exact List.map_congr_left fun t ht => Instruction.ofToken_of_not_word (h t ht)
  rw [ofTokens, hliterals, pushing]

/-- Behind a run that ends, the numbers are pushed from its last position on. -/
lemma run_append_pushing {n : ℕ} (hn : p.duration c = n) (xs : List Binary64) :
    let d := p.run n c
    let rest := xs.drop (d.counter - p.size)
    (p ++ pushing xs).duration c = (n + rest.length : ℕ) ∧
      ((p ++ pushing xs).run (n + rest.length) c).machine =
        { d.machine with stack := rest.reverse ++ d.machine.stack } := by
  intro d rest
  have hrest : (pushing xs).toList.drop (d.counter - p.size) = rest.map Instruction.literal := by
    rw [toList_pushing, List.map_drop]
  obtain ⟨hduration, hrun⟩ := run_append_straight hn (opcode_ne_jump_of_mem_pushing xs)
  rw [hrest, List.length_map] at hduration hrun
  refine ⟨hduration, ?_⟩
  rw [hrun, Config.straight, Machine.foldl_perform_literal]

/-- **Numbers behind a line never change what it prints.** Let tokens that are no words stand
behind a line, each after one space. If the run of the line ends, so does that of the whole, and
with the same output. The first run may end past the line, and so past some of the tokens; the
numbers of the others are pushed on top of the stack that it leaves, by one instruction each. If the
run of the line never ends, neither does that of the whole. -/
theorem runToEnd_append_numbers (m : Machine) (line : String) (ts : List String)
    (hspace : ∀ t ∈ ts, ' ' ∉ t.toList) (hword : ∀ t ∈ ts, Word.ofToken? t = none) :
    let p := ofLine line
    let whole := ofLine (" ".intercalate (line :: ts))
    (∀ c ∈ p.runToEnd (.start m),
      let past := c.counter - (tokens line).length
      (tokens line).length ≤ c.counter ∧
        ∃ d ∈ whole.runToEnd (.start m), d.machine.output = c.machine.output ∧
          d.machine.stack.reverse =
            c.machine.stack.reverse ++ (ts.drop past).map Binary64.ofText ∧
          whole.duration (.start m) = p.duration (.start m) + (ts.length - past : ℕ)) ∧
      (p.duration (.start m) = ⊤ → whole.duration (.start m) = ⊤) := by
  intro p whole
  have hwhole : whole = p ++ pushing (ts.map Binary64.ofText) := by
    rw [← ofTokens_eq_pushing hword]
    exact (congrArg ofTokens (tokens_intercalate_cons line hspace)).trans (ofTokens_append _ _)
  have hsize : p.size = (tokens line).length := size_ofTokens _
  rw [hwhole, ← hsize]
  constructor
  · intro c hc past
    obtain ⟨n, hn, rfl⟩ := mem_runToEnd_iff.1 hc
    have hend : p.size ≤ (p.run n (.start m)).counter := by
      simpa [hasEnded] using duration_le_iff.1 hn.le
    obtain ⟨hduration, hmachine⟩ := run_append_pushing hn (ts.map Binary64.ofText)
    refine ⟨hend, _, run_mem_runToEnd hduration.le, ?_, ?_, ?_⟩
    · rw [hmachine]
      rfl
    · rw [hmachine]
      simp [List.map_drop, past]
    · rw [hduration, hn]
      simp [past]
  · intro htop
    exact top_le_iff.1 (htop ▸ duration_le_append p _ _)

/-- A jump past the first of three tokens, two of them no numbers, and a line that never ends. -/
theorem runToEnd_append_numbers_past_first :
    let line := "7 1 6 jnz print"
    let ts := ["x", "", "nan"]
    let c := (ofLine line).run 4 {}
    (∀ t ∈ ts, ' ' ∉ t.toList) ∧ (∀ t ∈ ts, Word.ofToken? t = none) ∧
      c ∈ (ofLine line).runToEnd {} ∧ c.counter - (tokens line).length = 1 ∧
      (∃ d ∈ (ofLine "7 1 6 jnz print x  nan").runToEnd {},
        d.machine.stack.reverse = c.machine.stack.reverse ++ [.ofText "", .ofText "nan"]) ∧
      (ofLine "1 0 jnz").duration {} = ⊤ ∧ (ofLine "1 0 jnz x  nan").duration {} = ⊤ := by
  intro line ts c
  have hspace : ∀ t ∈ ts, ' ' ∉ t.toList := by decide
  have hword : ∀ t ∈ ts, Word.ofToken? t = none := by decide
  have hc : c ∈ (ofLine line).runToEnd {} :=
    run_mem_runToEnd (duration_le_iff.2 (by decide +kernel))
  have hpast : c.counter - (tokens line).length = 1 := by decide +kernel
  have hloop : (ofLine "1 0 jnz").duration {} = ⊤ :=
    duration_eq_top_of_alike (n := 3) (.of_visible (by decide +kernel) (by decide +kernel))
      three_pos (by decide)
  obtain ⟨-, d, hd, -, hstack, -⟩ := (runToEnd_append_numbers {} line ts hspace hword).1 c hc
  rw [hpast] at hstack
  exact ⟨hspace, hword, hc, hpast, ⟨d, hd, hstack⟩, hloop,
    (runToEnd_append_numbers {} "1 0 jnz" ts hspace hword).2 hloop⟩

end Program

end StackLine
