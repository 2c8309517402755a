import StackLine.CommandLine
import StackLine.Proofs.Prompts

/-!
One line, two front ends.

A line given on the command line, whole or in pieces, is reported as the interactive loop answers
it, on the stream that the outcome calls for. Only an empty output is shown in two ways: the loop
shows nothing and the command line an empty line.
-/

namespace StackLine

open Evaluation

namespace Repl

variable {patience : ℕ} {s : Session} {reads : List Read} {d : Dialogue}

/-- The line is a command: without the blanks around it, in lower case, it is one of the words of
the loop, or starts with the one that lists code. -/
def IsCommand (line : String) : Prop :=
  let lowered := (Text.trim Text.isBlank line.toList).map lower
  lowered ∈ ["bye".toList, "help".toList, "stack".toList, ".s".toList] ∨ "see ".toList <+: lowered

instance (line : String) : Decidable (IsCommand line) := inferInstanceAs (Decidable (_ ∨ _))

lemma Command.ofLine_of_not_isCommand {line : String} (h : ¬IsCommand line) :
    ofLine line = .execute line := by
  simp only [IsCommand, List.mem_cons, List.not_mem_nil, or_false, not_or] at h
  obtain ⟨⟨hbye, hhelp, hstack, hs⟩, hsee⟩ := h
  rw [ofLine]
  simp only [hbye, hhelp, hstack, hs, List.isPrefixOf_iff_prefix, hsee, or_self, if_false]

lemma resultText_of_nil {m : Machine} (h : m.output = []) : resultText (.ok m) = "" := by
  simp [resultText, h]

lemma resultText_of_ne_nil {m : Machine} (h : m.output ≠ []) :
    resultText (.ok m) = m.outputText ++ "\n" := by
  simp [resultText, h]

/-- A dialogue starts with a prompt. -/
lemma exists_text_eq_append (h : converse patience s reads = some d) (prompt : String) :
    ∃ tail, d.text prompt = prompt ++ tail ∧ (reads = [] → tail = "") := by
  rcases reads with _ | ⟨r, rest⟩
  · cases h
    exact ⟨"", by simp [Dialogue.text], fun _ => rfl⟩
  · obtain ⟨reply, -, ⟨-, rfl⟩ | ⟨-, e, -, rfl⟩⟩ := converse_cons_eq_some h
    · exact ⟨reply.text, by simp [Dialogue.text], fun hnil => by cases hnil⟩
    · refine ⟨reply.text ++ e.text prompt, ?_, fun hnil => by cases hnil⟩
      rw [← List.singleton_append, Dialogue.text_append]
      simp [String.append_assoc]

/-- **The loop.** What stands between the first two prompts is the result of the first line. -/
lemma exists_transcript?_line {b : Int} {line : String} {result : Except Fault Machine}
    (hbudget : s.budget = some b) (hline : ¬IsCommand line)
    (hresult : ∀ patience, (ofLine (some b) patience line).machine? = some result)
    (patience : ℕ) (prompt : String) (later : List Read) :
    ∃ t tail, transcript? patience s none prompt (.line line :: later) = some t ∧
      t.out = greeting ++ "\n" ++ prompt ++ resultText result ++ prompt ++ tail ∧
      (later = [] → tail = "") := by
  have hreply : respond patience s (.line line) = some
      { text := resultText result
        records := (ofLine s.budget patience line).records
        session := s.after result } := by
    simp only [respond, Command.ofLine_of_not_isCommand hline, hbudget, hresult, Option.map_some]
  obtain ⟨d, hd⟩ := exists_converse ((replied_of_respond hreply).budget.trans hbudget) later
  obtain ⟨tail, htail, hnil⟩ := exists_text_eq_append (hd patience) prompt
  have hconverse := converse_cons hreply later
  rw [hd patience, if_neg Bool.false_ne_true, Option.map_some] at hconverse
  refine ⟨_, tail, transcript?_of_converse prompt hconverse, ?_, hnil⟩
  rw [← List.singleton_append, Dialogue.text_append, htail]
  simp [String.append_assoc]

end Repl

namespace CommandLine

/-- **The command line.** The report on a line holds its result and no log. -/
lemma report?_ofArguments {patience : ℕ} {s : Session} {first : String} {rest : List String}
    {result : Except Fault Machine} (hverbose : first ≠ "-v") (hloop : first ≠ "repl")
    (hresult : (ofLine s.budget patience (" ".intercalate (first :: rest))).machine? = some result)
    (around : Surroundings) :
    report? patience s around (.ofArguments (first :: rest)) = some (match result with
      | .ok m => ⟨0, m.outputText ++ "\n", ""⟩
      | .error fault => ⟨1, "", Repl.resultText (.error fault)⟩) := by
  have harguments : Invocation.ofArguments (first :: rest) =
      ⟨false, .evaluate (" ".intercalate (first :: rest))⟩ := by
    rw [Invocation.ofArguments, if_neg hverbose, Invocation.requestOf, if_neg hloop]
  simp only [report?, harguments, reportLine, hresult, Option.map_some, log_records]
  rcases result with fault | m
  · rw [String.empty_append]
    rfl
  · rfl

/-- **The command line and the loop agree.** Let a line that is no command be given as arguments
of which the first is neither `-v` nor `repl`, and let `shown` be what the loop shows between its
first two prompts after reading this line, the environment setting no budget. If the line exhausts
the budget, the command line writes `shown` to the error stream, nothing to the other, and exits
with `1`. If not, it exits with `0`, writes nothing to the error stream, and to the other `shown`,
or an empty line if `shown` is empty because the line prints nothing. -/
theorem report?_agrees (b : Int) (first : String) (rest : List String)
    (hverbose : first ≠ "-v") (hloop : first ≠ "repl")
    (hline : ¬Repl.IsCommand (" ".intercalate (first :: rest))) :
    let line := " ".intercalate (first :: rest)
    let s : Session := { budget := some b }
    let allowed := (max 1 b).toNat
    ∃ shown : String,
      (∀ (patience : ℕ) (prompt : String) (later : List Repl.Read), ∃ t tail,
        Repl.transcript? patience s none prompt (.line line :: later) = some t ∧
          t.out = Repl.greeting ++ "\n" ++ prompt ++ shown ++ prompt ++ tail ∧
          (later = [] → tail = "")) ∧
      (allowed < duration line → ∀ (patience : ℕ) (around : Surroundings),
        report? patience s around (.ofArguments (first :: rest)) = some ⟨1, "", shown⟩) ∧
      (duration line ≤ allowed → ∃ m ∈ unbounded line,
        (m.output = [] → shown = "") ∧ ∀ (patience : ℕ) (around : Surroundings),
          report? patience s around (.ofArguments (first :: rest)) =
            some ⟨0, if m.output = [] then "\n" else shown, ""⟩) := by
  intro line s allowed
  rcases le_or_gt (duration line) allowed with hshort | hlong
  · obtain ⟨m, hm, hresult⟩ : ∃ m ∈ unbounded line, ∀ patience,
        (ofLine s.budget patience line).machine? = some (.ok m) :=
      ⟨_, run_mem_unbounded hshort, fun _ => machine?_ofLine_of_duration_le hshort⟩
    refine ⟨_, Repl.exists_transcript?_line rfl hline hresult,
      fun hlong => absurd hshort (not_le.2 hlong), fun _ => ⟨m, hm, ?_, fun patience around => ?_⟩⟩
    · exact Repl.resultText_of_nil
    · rw [report?_ofArguments hverbose hloop (hresult patience)]
      split_ifs with hnone
      · simp [Machine.outputText, hnone]
      · rw [Repl.resultText_of_ne_nil hnone]
  · have hresult : ∀ patience, (ofLine s.budget patience line).machine? =
        some (.error (.budgetExhausted allowed)) :=
      fun _ => machine?_ofLine_of_lt_duration hlong
    exact ⟨_, Repl.exists_transcript?_line rfl hline hresult,
      fun _ patience => report?_ofArguments hverbose hloop (hresult patience),
      fun hshort => absurd hlong (not_lt.2 hshort)⟩

/-- Arguments with blanks of their own and an empty one among them: under a budget below one, and
under one that suffices for a line that prints nothing. -/
theorem report?_agrees_split_line :
    let rest := ["", "print\t", "BYE"]
    let line := " ".intercalate ("7" :: rest)
    "7" ≠ "-v" ∧ "7" ≠ "repl" ∧ ¬Repl.IsCommand line ∧
      (max 1 (-3 : Int)).toNat < duration line ∧ duration line ≤ (max 1 (4 : Int)).toNat ∧
      (∃ shown : String,
        (∀ (patience : ℕ) (prompt : String), ∃ t,
          Repl.transcript? patience { budget := some (-3) } none prompt [.line line] = some t ∧
            t.out = Repl.greeting ++ "\n" ++ prompt ++ shown ++ prompt) ∧
        ∀ (patience : ℕ) (around : Surroundings),
          report? patience { budget := some (-3) } around (.ofArguments ("7" :: rest)) =
            some ⟨1, "", shown⟩) ∧
      ∀ (patience : ℕ) (around : Surroundings),
        report? patience { budget := some 4 } around (.ofArguments ("7" :: rest)) =
          some ⟨0, "\n", ""⟩ := by
  intro rest line
  have hline : ¬Repl.IsCommand line := by decide
  have hlong : (max 1 (-3 : Int)).toNat < duration line :=
    Program.lt_duration_iff.2 (by decide)
  have hshort : duration line ≤ (4 : ℕ) := Program.duration_le_iff.2 (by decide)
  obtain ⟨shown, hshown, hreport, -⟩ :=
    report?_agrees (-3) "7" rest (by decide) (by decide) hline
  obtain ⟨_, -, -, hends⟩ := report?_agrees 4 "7" rest (by decide) (by decide) hline
  obtain ⟨m, hm, -, hreport'⟩ := hends hshort
  have hnone : m.output = [] := by
    rw [Part.mem_unique hm (run_mem_unbounded hshort)]
    decide
  refine ⟨by decide, by decide, hline, hlong, hshort, ⟨shown, fun patience prompt => ?_,
    hreport hlong⟩, fun patience around => ?_⟩
  · obtain ⟨t, tail, ht, hout, htail⟩ := hshown patience prompt []
    exact ⟨t, ht, by rw [hout, htail rfl, String.append_empty]⟩
  · rw [hreport' patience around, if_pos hnone]

end CommandLine

end StackLine
