import StackLine.CommandLine
import StackLine.Proofs.Dialogue
import StackLine.Proofs.Effect

/-!
The log of an evaluation.

An evaluation notes the size of its program, the target of each jump that it takes, and its end if
it comes to one. With the log shown, the exit code and the output are what they are without it.
-/

namespace StackLine

open Filter

namespace Program

variable {p : Program} {c : Config} {k : ℕ}

/-- The targets of the jumps that the first `k` instructions of a run take, in order. -/
def targets (p : Program) (k : ℕ) (c : Config) : List Binary64 :=
  (List.range k).filterMap fun j => p.target? (p.run j c)

lemma targets_succ (p : Program) (k : ℕ) (c : Config) :
    p.targets (k + 1) c = p.targets k c ++ (p.target? (p.run k c)).toList :=
  filterMap_range_succ _ k

/-- **A run.** The jumps that it remembers are those it has taken. -/
lemma jumps_run (p : Program) (k : ℕ) (c : Config) :
    (p.run k c).jumps.reverse = c.jumps.reverse ++ p.targets k c := by
  induction k with
  | zero => simp [targets]
  | succ k ih =>
    rw [targets_succ]
    rcases hi : p[(p.run k c).counter]? with _ | i
    · rw [run_succ_of_getElem?_eq_none hi, target?_of_getElem?_eq_none hi, ih]
      simp
    · rw [run_succ_of_getElem? hi, target?_of_getElem? hi, Config.jumps_after, List.reverse_append,
        ih, List.append_assoc]
      cases i.target? (p.run k c).machine.top (p.run k c).machine.next <;> rfl

/-- A run that may go on for `n` instructions performs as many, or all that there are. -/
lemma exists_run_eq (p : Program) (n : ℕ) (c : Config) :
    ∃ k : ℕ, (k : ℕ∞) = min (p.duration c) n ∧ p.run k c = p.run n c := by
  rcases le_total (p.duration c) n with h | h
  · obtain ⟨k, hk⟩ := ENat.ne_top_iff_exists.1 (ne_top_of_le_ne_top (ENat.natCast_ne_top n) h)
    rw [← hk, Nat.cast_le] at h
    refine ⟨k, ?_, (run_eq_of_le h (duration_le_iff.1 hk.ge)).symm⟩
    rw [← hk, min_eq_left (Nat.cast_le.2 h)]
  · exact ⟨n, (min_eq_right h).symm, rfl⟩

end Program

/-! ### Evaluations -/

namespace Evaluation

variable {b : Budget} {patience : ℕ} {line : String} {r : Except Fault Machine}

/-- The number of instructions that a line performs within a budget. -/
noncomputable def performed : Budget → String → ℕ∞
  | some n, line => min (duration line) (Program.allowance n)
  | none, line => duration line

/-- An evaluation that gives an answer: where its run stopped, and whether it came to its end. -/
lemma exists_performed (h : (ofLine b patience line).machine? = some r) :
    ∃ k : ℕ, (k : ℕ∞) = performed b line ∧
      (ofLine b patience line).final = (Program.ofLine line).run k {} ∧
      (ofLine b patience line).outcome =
        if (Program.ofLine line).hasEnded ((Program.ofLine line).run k {}) then .ended
        else .exhausted k := by
  rcases b with _ | n
  · obtain ⟨k, hk, hrun⟩ := (Program.ofLine line).exists_run_eq patience {}
    have hend : (Program.ofLine line).hasEnded ((Program.ofLine line).run patience {}) = true := by
      by_contra hend
      simp [ofLine, machine?, Program.runWithin, hend] at h
    refine ⟨k, ?_, ?_⟩
    · rw [hk, min_eq_left (Program.duration_le_iff.2 hend)]
      rfl
    · simp [ofLine, Program.runWithin, hrun, hend]
  · obtain ⟨k, hk, hrun⟩ := (Program.ofLine line).exists_run_eq (Program.allowance n) {}
    refine ⟨k, hk, ?_⟩
    rw [hrun]
    cases hend :
        (Program.ofLine line).hasEnded ((Program.ofLine line).run (Program.allowance n) {}) with
    | true => simp [ofLine, Program.runWithin, Program.runCounted_eq, hend]
    | false =>
      -- the run was given up, so it has performed all that the budget allows
      rw [min_eq_right (Program.lt_duration_iff.2 hend).le, Nat.cast_inj] at hk
      simp [ofLine, Program.runWithin, Program.runCounted_eq, hend, hk]

/-- **The notes of an evaluation.** -/
lemma records_eq {k : ℕ} (hfinal : (ofLine b patience line).final = (Program.ofLine line).run k {})
    (houtcome : (ofLine b patience line).outcome =
      if (Program.ofLine line).hasEnded ((Program.ofLine line).run k {}) then .ended
      else .exhausted k) :
    (ofLine b patience line).records =
      .compiled (tokens line).length ::
        (((Program.ofLine line).targets k {}).map Record.jumped ++
          if (Program.ofLine line).hasEnded ((Program.ofLine line).run k {}) then
            [.ended ((Program.ofLine line).run k {}).counter (tokens line).length]
          else []) := by
  have hsize : (ofLine b patience line).program.size = (tokens line).length :=
    Program.size_ofTokens _
  rw [records, hfinal, houtcome, hsize, Program.jumps_run, List.reverse_nil, List.nil_append]
  split_ifs <;> rfl

end Evaluation

/-! ### Lines of the log -/

namespace Record

lemma log_cons (verbose : Bool) (r : Record) (rs : List Record) :
    log verbose (r :: rs) = line verbose r ++ log verbose rs := by
  simp [log]

/-- A line of the whole log, unless it is a warning. -/
def debugLine (source message : String) : String := source ++ " DEBUG " ++ message ++ "\n"

lemma line_of_not_isWarning {r : Record} (h : r.isWarning = false) :
    line true r = debugLine r.source r.message := by
  rw [line, if_pos rfl, h]
  rfl

lemma log_ended (counter size : ℕ) :
    log true [.ended counter size] =
      debugLine "imastack.repl" ("halted at " ++ counter.repr ++ " of " ++ size.repr) := by
  rw [log_cons, line_of_not_isWarning rfl]
  exact String.append_empty

/-- The whole log of an evaluation, but for its end. -/
lemma log_opening (size : ℕ) (targets : List Binary64) (rs : List Record) :
    log true (.compiled size :: (targets.map .jumped ++ rs)) =
      debugLine "imastack.compiler" ("compiled " ++ size.repr ++ " instructions") ++
        String.join (targets.map fun x =>
          debugLine "imastack.control_flow" ("jnz taken -> " ++ x.text)) ++
        log true rs := by
  have hjumps : log true (targets.map .jumped) = String.join (targets.map fun x =>
      debugLine "imastack.control_flow" ("jnz taken -> " ++ x.text)) := by
    rw [log, List.map_map]
    rfl
  rw [log_cons, log_append, hjumps, line_of_not_isWarning rfl, String.append_assoc]
  rfl

end Record

namespace CommandLine

open Record

variable {patience : ℕ} {s : Session} {around : Surroundings} {request : Request}

/-- No line that the request has evaluated goes on for ever without a budget. -/
def Request.Settles (s : Session) (around : Surroundings) : Request → Prop
  | .usage => True
  | .interactive => ∀ r ∈ Repl.heard around.reads,
      r.Settles (s.underEnvironment around.environment).1.budget
  | .evaluate line => Evaluation.Settles s.budget line

lemma eventually_report? (h : request.Settles s around) :
    ∀ᶠ patience in atTop, ∀ verbose, ∃ report,
      report? patience s around ⟨verbose, request⟩ = some report := by
  rcases request with _ | _ | line
  · exact Eventually.of_forall fun _ _ => ⟨_, rfl⟩
  · filter_upwards [Repl.eventually_converse h] with patience hconverse verbose
    obtain ⟨d, hd⟩ := hconverse _ rfl
    simp only [report?, Repl.transcript?_of_converse _ hd, Option.map_some]
    exact ⟨_, rfl⟩
  · filter_upwards [Evaluation.eventually_machine? h] with patience hresult verbose
    obtain ⟨r, hr⟩ := hresult
    simp only [report?, reportLine, hr, Option.map_some]
    exact ⟨_, rfl⟩

/-- **The log is beside the answer.** -/
lemma report?_verbose_eq {quiet loud : Report}
    (hquiet : report? patience s around ⟨false, request⟩ = some quiet)
    (hloud : report? patience s around ⟨true, request⟩ = some loud) :
    loud.exitCode = quiet.exitCode ∧ loud.out = quiet.out := by
  rcases request with _ | _ | line
  · cases hquiet
    cases hloud
    exact ⟨rfl, rfl⟩
  · obtain ⟨t, ht, rfl⟩ := Option.map_eq_some_iff.1 hquiet
    obtain ⟨t', ht', rfl⟩ := Option.map_eq_some_iff.1 hloud
    cases ht.symm.trans ht'
    exact ⟨rfl, rfl⟩
  · obtain ⟨r, hr, rfl⟩ := Option.map_eq_some_iff.1 hquiet
    obtain ⟨r', hr', rfl⟩ := Option.map_eq_some_iff.1 hloud
    cases hr.symm.trans hr'
    rcases r with fault | m <;> exact ⟨rfl, rfl⟩

/-- What is written to the error stream beside the answer to a line. -/
lemma exists_err_eq {line : String} {report : Report}
    (h : report? patience s around ⟨true, .evaluate line⟩ = some report) :
    let p := Program.ofLine line
    let size := (tokens line).length
    ∃ k : ℕ, (k : ℕ∞) = Evaluation.performed s.budget line ∧
      report.exitCode = (if p.hasEnded (p.run k {}) then 0 else 1) ∧
      report.err =
        debugLine "imastack.compiler" ("compiled " ++ size.repr ++ " instructions") ++
          String.join ((p.targets k {}).map fun x =>
            debugLine "imastack.control_flow" ("jnz taken -> " ++ x.text)) ++
          if report.exitCode = 0 then
            debugLine "imastack.repl"
              ("halted at " ++ (p.run k {}).counter.repr ++ " of " ++ size.repr)
          else "Error: " ++ (Fault.budgetExhausted k).message ++ "\n" := by
  intro p size
  obtain ⟨r, hr, rfl⟩ := Option.map_eq_some_iff.1 h
  obtain ⟨k, hk, hfinal, houtcome⟩ := Evaluation.exists_performed hr
  have hrecords := Evaluation.records_eq hfinal houtcome
  refine ⟨k, hk, ?_⟩
  rw [Evaluation.machine?, houtcome] at hr
  cases hend : p.hasEnded (p.run k {}) with
  | true =>
    rw [if_pos hend] at hr hrecords
    cases hr
    refine ⟨rfl, ?_⟩
    simp only [hrecords, log_opening, log_ended]
    rfl
  | false =>
    rw [if_neg (by simp [p, hend])] at hr hrecords
    cases hr
    refine ⟨rfl, ?_⟩
    simp only [hrecords, log_opening, String.append_assoc]
    rfl

lemma ofArguments_verbose (args : List String) :
    Invocation.ofArguments ("-v" :: args) = ⟨true, Invocation.requestOf args⟩ := by
  rw [Invocation.ofArguments, if_pos rfl]

lemma ofArguments_quiet {args : List String} (h : args.head? ≠ some "-v") :
    Invocation.ofArguments args = ⟨false, Invocation.requestOf args⟩ := by
  rcases args with _ | ⟨first, rest⟩
  · rfl
  · rw [Invocation.ofArguments, if_neg fun hfirst => h (congrArg some hfirst)]

lemma requestOf_line {args : List String} (hne : args ≠ []) (hloop : args.head? ≠ some "repl") :
    Invocation.requestOf args = .evaluate (" ".intercalate args) := by
  rcases args with _ | ⟨first, rest⟩
  · exact absurd rfl hne
  · rw [Invocation.requestOf, if_neg fun hfirst => hloop (congrArg some hfirst)]

/-- **The log observes and does not disturb.** Let every line that is evaluated for the arguments
without a budget have an end. With `-v` in front of arguments that do not start with it, the exit
code and the output are the same as without. If the arguments make a line, the error stream has
the number of its tokens, then the target of each jump that its instructions take, as text and in
the order in which they take them, and at last, if and only if the exit code is `0`, the position
at which the run ended; if it is not, the message of the exhausted budget instead. -/
theorem report?_verbose (s : Session) (around : Surroundings) (args : List String)
    (hsettles : (Invocation.requestOf args).Settles s around) :
    ∀ᶠ patience in atTop, ∃ loud : Report,
      report? patience s around (.ofArguments ("-v" :: args)) = some loud ∧
      (args.head? ≠ some "-v" → ∃ quiet : Report,
        report? patience s around (.ofArguments args) = some quiet ∧
          loud.exitCode = quiet.exitCode ∧ loud.out = quiet.out) ∧
      (args ≠ [] → args.head? ≠ some "repl" →
        let line := " ".intercalate args
        let p := Program.ofLine line
        let size := (tokens line).length
        ∃ k : ℕ, (k : ℕ∞) = Evaluation.performed s.budget line ∧
          loud.exitCode = (if p.hasEnded (p.run k {}) then 0 else 1) ∧
          loud.err =
            debugLine "imastack.compiler" ("compiled " ++ size.repr ++ " instructions") ++
              String.join ((p.targets k {}).map fun x =>
                debugLine "imastack.control_flow" ("jnz taken -> " ++ x.text)) ++
              if loud.exitCode = 0 then
                debugLine "imastack.repl"
                  ("halted at " ++ (p.run k {}).counter.repr ++ " of " ++ size.repr)
              else "Error: " ++ (Fault.budgetExhausted k).message ++ "\n") := by
  filter_upwards [eventually_report? hsettles] with patience hreport
  obtain ⟨loud, hloud⟩ := hreport true
  obtain ⟨quiet, hquiet⟩ := hreport false
  rw [ofArguments_verbose]
  refine ⟨loud, hloud, fun hfirst => ⟨quiet, ?_, report?_verbose_eq hquiet hloud⟩,
    fun hne hloop => ?_⟩
  · rw [ofArguments_quiet hfirst, hquiet]
  · rw [requestOf_line hne hloop] at hloud
    exact exists_err_eq hloud

/-- A run that ends with the last instruction that the budget allows, after a jump to a fraction;
and the same line under a budget that is one less. -/
theorem report?_verbose_last_step :
    let args := ["1", "4.5", "jnz", "0 1", "print"]
    let opening := "imastack.compiler DEBUG compiled 6 instructions\n" ++
      "imastack.control_flow DEBUG jnz taken -> 4.5\n"
    args.head? ≠ some "-v" ∧ args ≠ [] ∧ args.head? ≠ some "repl" ∧
      (∀ b : Int, (Invocation.requestOf args).Settles { budget := some b } {}) ∧
      (∀ᶠ patience in atTop, ∃ loud quiet,
        report? patience { budget := some 5 } {} (.ofArguments ("-v" :: args)) = some loud ∧
        report? patience { budget := some 5 } {} (.ofArguments args) = some quiet ∧
        loud.exitCode = 0 ∧ quiet.exitCode = 0 ∧ loud.out = quiet.out ∧
        loud.err = opening ++ "imastack.repl DEBUG halted at 6 of 6\n") ∧
      ∀ᶠ patience in atTop, ∃ loud,
        report? patience { budget := some 4 } {} (.ofArguments ("-v" :: args)) = some loud ∧
        loud.exitCode = 1 ∧
        loud.err = opening ++ "Error: step budget exhausted after 4 instructions\n" := by
  intro args opening
  let line := "1 4.5 jnz 0 1 print"
  let p := Program.ofLine line
  have hfirst : args.head? ≠ some "-v" := by decide
  have hne : args ≠ [] := by decide
  have hloop : args.head? ≠ some "repl" := by decide
  have hline : " ".intercalate args = line := by decide
  have hsettles : ∀ b : Int, (Invocation.requestOf args).Settles { budget := some b } {} := by
    intro b
    rw [requestOf_line hne hloop]
    rintro ⟨⟩
  have hlong : (4 : ℕ) < Evaluation.duration line := Program.lt_duration_iff.2 (by decide +kernel)
  have hfour : Evaluation.performed (some 4) line = (4 : ℕ) := min_eq_right hlong.le
  have hfive : Evaluation.performed (some 5) line = (5 : ℕ) :=
    min_eq_right (Order.add_one_le_of_lt hlong)
  have htext : (Binary64.ofText "4.5").text = "4.5" := by decide +kernel
  have hopening : ∀ k, p.targets k {} = [.ofText "4.5"] →
      debugLine "imastack.compiler" ("compiled " ++ (tokens line).length.repr ++ " instructions") ++
        String.join ((p.targets k {}).map fun x =>
          debugLine "imastack.control_flow" ("jnz taken -> " ++ x.text)) = opening := by
    intro k hk
    rw [hk, List.map_singleton, htext]
    decide
  refine ⟨hfirst, hne, hloop, hsettles, ?_, ?_⟩
  · filter_upwards [report?_verbose _ {} args (hsettles 5)] with patience h
    obtain ⟨loud, hloud, hsame, herr⟩ := h
    obtain ⟨quiet, hquiet, hexit, hout⟩ := hsame hfirst
    obtain ⟨k, hk, hcode, herr⟩ := herr hne hloop
    rw [hline] at hk hcode herr
    obtain rfl : k = 5 := Nat.cast_injective (hk.trans hfive)
    have hend : p.hasEnded (p.run 5 {}) = true := by decide +kernel
    have hcounter : (p.run 5 {}).counter = 6 := by decide +kernel
    have hhalted : debugLine "imastack.repl"
        ("halted at " ++ (6 : ℕ).repr ++ " of " ++ (tokens line).length.repr) =
          "imastack.repl DEBUG halted at 6 of 6\n" := by
      decide
    rw [if_pos hend] at hcode
    rw [hcode, if_pos rfl, hopening 5 (by decide +kernel), hcounter,
      hhalted] at herr
    exact ⟨loud, quiet, hloud, hquiet, hcode, hexit.symm.trans hcode, hout, herr⟩
  · filter_upwards [report?_verbose _ {} args (hsettles 4)] with patience h
    obtain ⟨loud, hloud, -, herr⟩ := h
    obtain ⟨k, hk, hcode, herr⟩ := herr hne hloop
    rw [hline] at hk hcode herr
    obtain rfl : k = 4 := Nat.cast_injective (hk.trans hfour)
    have hopen : ¬p.hasEnded (p.run 4 {}) = true := by decide +kernel
    rw [if_neg hopen] at hcode
    rw [hcode, if_neg one_ne_zero, hopening 4 (by decide +kernel)] at herr
    exact ⟨loud, hloud, hcode, herr⟩

end CommandLine

end StackLine
