import StackLine.Proofs.Recurrence
import StackLine.Proofs.Rendering

/-!
One program behind another.

The tokens of two lines put together by a space are those of the one and then those of the other.
So long as a run stays inside the first program, what stands behind it has no effect. Once the run
is at its end, a second program without jumps runs as it would from its own start.
-/

namespace StackLine

/-! ### Lines -/

lemma pieces_append_space (xs ys : List Char) :
    pieces (xs ++ ' ' :: ys) = pieces xs ++ pieces ys := by
  rw [pieces_eq_splitOn, pieces_eq_splitOn, pieces_eq_splitOn, List.splitOn_append_cons_self]

lemma tokens_append (a b : String) : tokens (a ++ " " ++ b) = tokens a ++ tokens b := by
  have hsplit : (a ++ " " ++ b).toList = a.toList ++ ' ' :: b.toList := by simp
  rw [tokens, hsplit, pieces_append_space, List.map_append, tokens, tokens]

lemma tokens_append_of_eq {a s b : String} (h : s = " " ++ b) :
    tokens (a ++ s) = tokens a ++ tokens b := by
  rw [h, ← String.append_assoc, tokens_append]

lemma Instruction.opcode_ofToken_ne_jump {t : String} (h : t ≠ "jnz") :
    (ofToken t).opcode ≠ .word .jump := by
  unfold ofToken
  split
  · next w hw =>
    rintro ⟨⟩
    exact h (Word.token_of_ofToken? hw).symm
  · rintro ⟨⟩

lemma Config.after_of_no_jump {c : Config} {i : Instruction} (h : i.opcode ≠ .word .jump) :
    c.after i = ⟨c.counter + 1, c.machine.perform i, c.jumps⟩ := by
  rw [after, c.machine.jump?_eq_none h]

/-- The configuration after instructions none of which jumps. -/
def Config.straight (c : Config) (is : List Instruction) : Config :=
  ⟨c.counter + is.length, is.foldl Machine.perform c.machine, c.jumps⟩

namespace Program

variable {p q : Program} {c : Config} {is : List Instruction}

lemma ofTokens_append (ts us : List String) : ofTokens (ts ++ us) = ofTokens ts ++ ofTokens us := by
  rw [ofTokens, List.map_append, ← List.append_toArray, ofTokens, ofTokens]

lemma ofLine_append (a b : String) : ofLine (a ++ " " ++ b) = ofLine a ++ ofLine b := by
  rw [ofLine, tokens_append, ofTokens_append, ofLine, ofLine]

lemma opcode_ne_jump_of_mem_ofTokens {ts : List String} (h : "jnz" ∉ ts) :
    ∀ i ∈ ts.map Instruction.ofToken, i.opcode ≠ .word .jump := by
  rw [List.forall_mem_map]
  exact fun t ht => Instruction.opcode_ofToken_ne_jump fun hjump => h (hjump ▸ ht)

lemma opcode_ne_jump_of_mem_ofLine {line : String} (h : "jnz" ∉ tokens line) :
    ∀ i ∈ (ofLine line).toList, i.opcode ≠ .word .jump := by
  rw [ofLine, ofTokens, List.toList_toArray]
  exact opcode_ne_jump_of_mem_ofTokens h

/-! ### Inside the first program -/

lemma step?_append_left (q : Program) (h : p.hasEnded c = false) :
    (p ++ q).step? c = p.step? c := by
  rw [step?, step?, Array.getElem?_append_left (hasEnded_eq_false_iff.1 h)]

lemma run_append_left (q : Program) {k : ℕ} (h : k ≤ p.duration c) :
    (p ++ q).run k c = p.run k c := by
  induction k generalizing c with
  | zero => rfl
  | succ k ih =>
    have hopen : p.hasEnded c = false :=
      lt_duration_iff.1 ((Nat.cast_lt.2 k.succ_pos).trans_le h)
    rw [run_succ, run_succ, step?_append_left q hopen]
    rcases hstep : p.step? c with _ | d
    · rfl
    · exact ih ((succ_le_duration_iff hstep).1 h)

lemma duration_le_append (p q : Program) (c : Config) : p.duration c ≤ (p ++ q).duration c := by
  refine le_of_forall_lt fun k hk => ?_
  cases k with
  | top => exact absurd hk not_top_lt
  | coe k =>
    rw [lt_duration_iff] at hk ⊢
    rw [run_append_left q (lt_duration_iff.2 hk).le]
    rw [hasEnded_eq_false_iff] at hk ⊢
    rw [Array.size_append]
    omega

/-! ### Straight on to the end -/

lemma drop_of_cons {n : ℕ} {i : Instruction} (h : p.toList.drop n = i :: is) :
    p[n]? = some i ∧ p.toList.drop (n + 1) = is := by
  constructor
  · rw [← Array.getElem?_toList, ← Nat.add_zero n, ← List.getElem?_drop, h]
    rfl
  · rw [← List.tail_drop, h]
    rfl

/-- **Without jumps** a run performs the instructions ahead of it one after another. -/
lemma run_block {rest : List Instruction} (h : p.toList.drop c.counter = is ++ rest)
    (hstraight : ∀ i ∈ is, i.opcode ≠ .word .jump) :
    is.length ≤ p.duration c ∧ p.run is.length c = c.straight is := by
  induction is generalizing c with
  | nil => exact ⟨zero_le, rfl⟩
  | cons i is ih =>
    obtain ⟨hi, his⟩ := List.forall_mem_cons.1 hstraight
    obtain ⟨hfetch, hdrop⟩ := drop_of_cons h
    have hstep : p.step? c = some ⟨c.counter + 1, c.machine.perform i, c.jumps⟩ := by
      rw [step?, hfetch, ← Config.after_of_no_jump hi]
    obtain ⟨hle, hrun⟩ := ih (c := ⟨c.counter + 1, c.machine.perform i, c.jumps⟩) hdrop his
    constructor
    · exact (succ_le_duration_iff hstep).2 hle
    · rw [List.length_cons, run_succ_of_step? hstep, hrun, Config.straight, Config.straight,
        List.length_cons, List.foldl_cons, Nat.add_assoc, Nat.add_comm 1]

/-- With nothing behind these instructions the run ends. -/
lemma run_straight (h : p.toList.drop c.counter = is)
    (hstraight : ∀ i ∈ is, i.opcode ≠ .word .jump) :
    p.duration c = is.length ∧ p.run is.length c = c.straight is := by
  have hall : p.toList.drop c.counter = is ++ [] := by rw [h, List.append_nil]
  obtain ⟨hle, hrun⟩ := run_block hall hstraight
  have hend : p.hasEnded (c.straight is) = true := by
    have hlength : p.size - c.counter = is.length := by
      rw [← h, List.length_drop, Array.length_toList]
    rw [hasEnded, decide_eq_true_eq]
    dsimp only [Config.straight]
    omega
  exact ⟨le_antisymm (duration_le_iff.2 (hrun ▸ hend)) hle, hrun⟩

lemma straight_mem_runToEnd (h : p.toList.drop c.counter = is)
    (hstraight : ∀ i ∈ is, i.opcode ≠ .word .jump) : c.straight is ∈ p.runToEnd c := by
  obtain ⟨hduration, hrun⟩ := run_straight h hstraight
  rw [← hrun]
  exact run_mem_runToEnd hduration.le

/-- A program without jumps behind another runs from the position at which the other ends. -/
lemma run_append_straight {n : ℕ} (hn : p.duration c = n)
    (hstraight : ∀ i ∈ q.toList, i.opcode ≠ .word .jump) :
    let d := p.run n c
    let rest := q.toList.drop (d.counter - p.size)
    (p ++ q).duration c = (n + rest.length : ℕ) ∧
      (p ++ q).run (n + rest.length) c = d.straight rest := by
  intro d rest
  have hfirst : (p ++ q).run n c = d := run_append_left q hn.ge
  have hend : p.size ≤ d.counter := by simpa [hasEnded] using duration_le_iff.1 hn.le
  have hdrop : (p ++ q).toList.drop d.counter = rest := by
    rw [Array.toList_append, List.drop_append, List.drop_eq_nil_of_le hend, List.nil_append]
    rfl
  obtain ⟨hduration, hrun⟩ :=
    run_straight hdrop fun i hi => hstraight i (List.mem_of_mem_drop hi)
  constructor
  · rw [duration_eq_add (hn.ge.trans (duration_le_append p q c)), hfirst, hduration,
      Nat.cast_add]
  · rw [run_add, hfirst, hrun]

/-- **One line behind another.** Let the line `b` have no jumps, and let the run of `a` on a
machine end right behind its last token. Then `a` and `b` put together by a space end with the
machine that `b` leaves when it is run on the machine that `a` leaves, and perform the
instructions of both. And if the run of `a` never leaves `a`, neither does that of the two. -/
theorem runToEnd_append (m : Machine) (a b : String) (hb : "jnz" ∉ tokens b) :
    let p := ofLine a
    let q := ofLine b
    let whole := ofLine (a ++ " " ++ b)
    (∀ c ∈ p.runToEnd (.start m), c.counter = (tokens a).length →
      ∃ d ∈ q.runToEnd (.start c.machine), ∃ e ∈ whole.runToEnd (.start m),
        e.machine = d.machine ∧
          whole.duration (.start m) = p.duration (.start m) + q.duration (.start c.machine)) ∧
      ((∀ k, (p.run k (.start m)).counter < (tokens a).length) →
        whole.duration (.start m) = ⊤ ∧
          ∀ k, (whole.run k (.start m)).counter < (tokens a).length) := by
  intro p q whole
  have hwhole : whole = p ++ q := ofLine_append a b
  have hsize : p.size = (tokens a).length := size_ofTokens _
  rw [hwhole, ← hsize]
  refine ⟨fun c hc hcounter => ?_, fun hinside => ?_⟩
  · obtain ⟨n, hn, rfl⟩ := mem_runToEnd_iff.1 hc
    have hstraight := opcode_ne_jump_of_mem_ofLine hb
    obtain ⟨hq, hqrun⟩ :=
      run_straight (p := q) (c := .start (p.run n (.start m)).machine) List.drop_zero hstraight
    obtain ⟨hduration, hrun⟩ := run_append_straight hn hstraight
    -- the first line ends right where the second one starts
    rw [hcounter, Nat.sub_self, List.drop_zero] at hduration hrun
    refine ⟨_, run_mem_runToEnd hq.le, _, run_mem_runToEnd hduration.le, ?_, ?_⟩
    · rw [hrun, hqrun]
      rfl
    · rw [hduration, hn, hq, Nat.cast_add]
  · have htop : p.duration (.start m) = ⊤ := duration_eq_top_iff.2 hinside
    refine ⟨top_le_iff.1 (htop ▸ duration_le_append p q (.start m)), fun k => ?_⟩
    rw [run_append_left q (htop ▸ le_top)]
    exact hinside k

/-- A jump to the empty token at the end of the first line, before a second line that starts with
an empty token; and a first line that never ends. -/
theorem runToEnd_append_empty_tokens :
    let m : Machine := ⟨[.nan], [.zero]⟩
    let a := "1 4 jnz 9 "
    let b := " print"
    let c := (ofLine a).run 4 (.start m)
    "jnz" ∉ tokens b ∧ c ∈ (ofLine a).runToEnd (.start m) ∧ c.counter = (tokens a).length ∧
      (∃ d ∈ (ofLine b).runToEnd (.start c.machine),
        ∃ e ∈ (ofLine (a ++ " " ++ b)).runToEnd (.start m), e.machine = d.machine ∧
          (ofLine (a ++ " " ++ b)).duration (.start m) =
            (ofLine a).duration (.start m) + (ofLine b).duration (.start c.machine)) ∧
      (∀ k, ((ofLine "1 0 jnz").run k (.start m)).counter < (tokens "1 0 jnz").length) ∧
      (ofLine ("1 0 jnz" ++ " " ++ b)).duration (.start m) = ⊤ := by
  intro m a b c
  have hb : "jnz" ∉ tokens b := by decide
  have hc : c ∈ (ofLine a).runToEnd (.start m) :=
    run_mem_runToEnd (duration_le_iff.2 (by decide +kernel))
  have hcounter : c.counter = (tokens a).length := by decide +kernel
  have hloop : (ofLine "1 0 jnz").duration (.start m) = ⊤ :=
    duration_eq_top_of_alike (n := 3) (.of_visible (by decide +kernel) (by decide +kernel))
      three_pos (by decide)
  have hinside := duration_eq_top_iff.1 hloop
  exact ⟨hb, hc, hcounter, (runToEnd_append m a b hb).1 c hc hcounter, hinside,
    ((runToEnd_append m "1 0 jnz" b hb).2 hinside).1⟩

end Program

end StackLine
