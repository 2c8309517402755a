import StackLine.Proofs.Dialogue
import StackLine.Proofs.IntegerGrammar

/-!
The budget in the environment.

It is read once, before the first prompt, and no read changes it. So a session at the keyboard is
the one that would have been started with that budget in the first place, but for the warning when
the text is no integer.
-/

namespace StackLine

/-! ### Warnings -/

lemma Record.isWarning_of_log_eq_empty {rs : List Record} (h : log false rs = "") :
    ∀ r ∈ rs, r.isWarning = false := by
  induction rs with
  | nil => simp
  | cons r rs ih =>
    rw [← List.singleton_append, log_append, String.append_eq_empty_iff] at h
    refine List.forall_mem_cons.2 ⟨?_, ih h.2⟩
    have hline : line false r = "" := by simpa [log] using h.1
    refine eq_false_of_ne_true fun hwarning => ?_
    simp [line, hwarning] at hline

/-! ### The budget that is taken over -/

namespace Session

variable {s : Session} {raw : String} {n : Int}

lemma underEnvironment_of_integer (h : Numeral.integer? raw = some n) :
    s.underEnvironment (some raw) = ({ s with budget := if 0 < n then some n else none }, []) := by
  simp only [underEnvironment, h]

lemma underEnvironment_of_none (h : Numeral.integer? raw = none) :
    s.underEnvironment (some raw) = (s, [.budgetIgnored raw]) := by
  simp only [underEnvironment, h]

lemma underEnvironment_eq_bound_iff (hn : 0 < n) :
    s.underEnvironment (some raw) = ({ s with budget := some n }, []) ↔
      Numeral.integer? raw = some n := by
  rcases h : Numeral.integer? raw with _ | m
  · simp [underEnvironment_of_none h]
  · rw [underEnvironment_of_integer h]
    by_cases hm : 0 < m
    · simp [hm]
    · simp [hm]
      omega

lemma underEnvironment_eq_unbounded_iff :
    s.underEnvironment (some raw) = ({ s with budget := none }, []) ↔
      ∃ n ≤ 0, Numeral.integer? raw = some n := by
  rcases h : Numeral.integer? raw with _ | m
  · simp [underEnvironment_of_none h]
  · simp [underEnvironment_of_integer h]

lemma underEnvironment_eq_ignored_iff :
    s.underEnvironment (some raw) = (s, [.budgetIgnored raw]) ↔
      ∀ n, Numeral.integer? raw ≠ some n := by
  rcases h : Numeral.integer? raw with _ | m
  · simp [underEnvironment_of_none h]
  · simp [underEnvironment_of_integer h]

lemma isWarning_underEnvironment (s : Session) (raw : String) :
    ∀ r ∈ (s.underEnvironment (some raw)).2, r.isWarning = true := by
  rcases h : Numeral.integer? raw with _ | m
  · simp [underEnvironment_of_none h, Record.isWarning]
  · simp [underEnvironment_of_integer h]

end Session

namespace Repl

variable {patience : ℕ} {s : Session} {r : Read} {reads : List Read} {d : Dialogue}

/-- If the read is a line to be evaluated, then the reply has what comes of it under the budget. -/
def Reply.EvaluatedUnder (b : Budget) (patience : ℕ) (r : Read) (reply : Reply) : Prop :=
  ∀ line, r.command? = some (.execute line) →
    ∃ result, (Evaluation.ofLine b patience line).machine? = some result ∧
      reply.text = resultText result ∧
      reply.records = (Evaluation.ofLine b patience line).records

lemma evaluatedUnder_of_respond {reply : Reply} (h : respond patience s r = some reply) :
    reply.EvaluatedUnder s.budget patience r := by
  intro line hline
  rcases r with text | _
  · rw [respond, Option.some.inj hline] at h
    obtain ⟨result, hresult, rfl⟩ := Option.map_eq_some_iff.1 h
    exact ⟨result, hresult, rfl, rfl⟩
  · cases hline

/-- **Every line of a dialogue is evaluated under the budget that it starts with.** -/
lemma evaluatedUnder_of_converse (h : converse patience s reads = some d) :
    List.Forall₂ (fun r reply => reply.EvaluatedUnder s.budget patience r) (heard reads)
      d.replies := by
  induction reads generalizing s d with
  | nil =>
    cases h
    exact .nil
  | cons r rest ih =>
    obtain ⟨reply, hreply, hcases⟩ := converse_cons_eq_some h
    have hr := replied_of_respond hreply
    have hfirst := evaluatedUnder_of_respond hreply
    rw [heard]
    obtain ⟨hl, rfl⟩ | ⟨hl, e, he, rfl⟩ := hcases
    · rw [if_pos (hr.leaves.1 hl)]
      exact .cons hfirst .nil
    · rw [if_neg (mt hr.leaves.2 (by simp [hl]))]
      have hrest := ih he
      rw [hr.budget] at hrest
      exact .cons hfirst hrest

/-- **As if the session had had that budget from the start**, but for the warning. -/
lemma transcript?_underEnvironment (patience : ℕ) (s : Session) (environment : Option String)
    (prompt : String) (reads : List Read) :
    transcript? patience s environment prompt reads =
      (transcript? patience (s.underEnvironment environment).1 none prompt reads).map fun t =>
        { t with records := (s.underEnvironment environment).2 ++ t.records } := by
  simp only [transcript?, Session.underEnvironment, Option.map_map]
  rfl

lemma exists_converse_of_transcript? {environment : Option String} {prompt : String}
    {t : Transcript} (h : transcript? patience s environment prompt reads = some t) :
    ∃ d, converse patience (s.underEnvironment environment).1 reads = some d ∧
      t.out = greeting ++ "\n" ++ d.text prompt ∧
      t.records = (s.underEnvironment environment).2 ++ d.records ∧ t.session = d.session := by
  obtain ⟨d, hd, rfl⟩ := Option.map_eq_some_iff.1 h
  exact ⟨d, hd, rfl, rfl, rfl⟩

/-- **The budget in the environment is read exactly, and kept.** Let the text have no separators,
and not too many digits. A positive integer that the text denotes, without the blanks around it,
becomes the budget, and any other integer lifts the bound, both without a warning. A text that
denotes none leaves the budget as it is, and there is one warning. From then on the session is the
one that has this budget from the start: every line in it is evaluated under it, there is no other
warning, and the budget is still the same in the end. -/
theorem transcript?_environment (s : Session) (raw : String)
    (hseparator : ∀ c ∈ raw.toList, Text.isSeparator c = false)
    (hlimit : (Text.decimals raw.toList).length ≤ maxIntegerDigits) :
    let stripped := Text.trim Text.isBlank raw.toList
    let started := s.underEnvironment (some raw)
    (∀ n > 0, started = ({ s with budget := some n }, []) ↔ Numeral.DenotesInteger stripped n) ∧
      (started = ({ s with budget := none }, []) ↔
        ∃ n ≤ 0, Numeral.DenotesInteger stripped n) ∧
      (started = (s, [.budgetIgnored raw]) ↔ ∀ n, ¬Numeral.DenotesInteger stripped n) ∧
      ∀ (patience : ℕ) (prompt : String) (reads : List Read),
        (transcript? patience s (some raw) prompt reads =
          (transcript? patience started.1 none prompt reads).map fun t =>
            { t with records := started.2 ++ t.records }) ∧
        ∀ t, transcript? patience s (some raw) prompt reads = some t →
          t.session.budget = started.1.budget ∧ t.records.filter Record.isWarning = started.2 ∧
          ∃ d, converse patience started.1 reads = some d ∧
            t.out = greeting ++ "\n" ++ d.text prompt ∧
            List.Forall₂ (fun r reply => reply.EvaluatedUnder started.1.budget patience r)
              (heard reads) d.replies := by
  intro stripped started
  have hread : ∀ n, Numeral.integer? raw = some n ↔ Numeral.DenotesInteger stripped n := fun n =>
    Numeral.integer?_eq_some_iff_denotes hseparator hlimit
  simp only [← hread]
  refine ⟨fun n hn => Session.underEnvironment_eq_bound_iff hn,
    Session.underEnvironment_eq_unbounded_iff, Session.underEnvironment_eq_ignored_iff,
    fun patience prompt reads => ⟨transcript?_underEnvironment patience s (some raw) prompt reads,
      fun t ht => ?_⟩⟩
  obtain ⟨d, hd, hout, hrecords, hsession⟩ := exists_converse_of_transcript? ht
  have hconversed := conversed_of_converse hd
  refine ⟨by rw [hsession, hconversed.budget], ?_, d, hd, hout, evaluatedUnder_of_converse hd⟩
  have hquiet : d.records.filter Record.isWarning = [] := List.filter_eq_nil_iff.2 fun r hr => by
    simp [Record.isWarning_of_log_eq_empty hconversed.quiet r hr]
  rw [hrecords, List.filter_append, hquiet, List.append_nil,
    List.filter_eq_self.2 (s.isWarning_underEnvironment raw)]

/-- Ten in the digits of two scripts, zero, and two underscores in a row. -/
theorem transcript?_environment_scripts :
    let ten := "\u3000+\uff11_\u0660\n"
    let zero := " -0"
    let twice := "1__0"
    (∀ raw ∈ [ten, zero, twice], (∀ c ∈ raw.toList, Text.isSeparator c = false) ∧
      (Text.decimals raw.toList).length ≤ maxIntegerDigits) ∧
      ({} : Session).underEnvironment (some ten) = ({ budget := some 10 }, []) ∧
      ({} : Session).underEnvironment (some zero) = ({ budget := none }, []) ∧
      ∀ (patience : ℕ) (reads : List Read) (t : Transcript),
        (transcript? patience {} (some ten) promptText reads = some t →
          t.session.budget = some 10 ∧ t.records.filter Record.isWarning = []) ∧
        (transcript? patience {} (some twice) promptText reads = some t →
          t.session.budget = Budget.standard ∧
            t.records.filter Record.isWarning = [.budgetIgnored twice]) := by
  intro ten zero twice
  have hplain : ∀ raw ∈ [ten, zero, twice], (∀ c ∈ raw.toList, Text.isSeparator c = false) ∧
      (Text.decimals raw.toList).length ≤ maxIntegerDigits := by
    have hany : ∀ raw ∈ [ten, zero, twice], raw.toList.any Text.isSeparator = false ∧
        (Text.decimals raw.toList).length ≤ maxIntegerDigits := by decide
    simpa only [List.any_eq_false, Bool.not_eq_true] using hany
  have hten := hplain ten (by simp)
  have hzero := hplain zero (by simp)
  have htwice := hplain twice (by simp)
  have hdenotes : Numeral.DenotesInteger (Text.trim Text.isBlank ten.toList) 10 := by
    let body := ['\uff11', '_', '\u0660']
    have hchars : ∀ c ∈ body, Text.isDecimal c = true ∨ c = '_' := by
      have hall : body.all (fun c => Text.isDecimal c || c == '_') = true := by decide
      simpa only [List.all_eq_true, Bool.or_eq_true, beq_iff_eq] using hall
    have htext : Text.trim Text.isBlank ten.toList = '+' :: body := by decide
    have hgrouped : Text.Grouped Text.isDecimal false body :=
      Text.grouped_cons.2 ⟨by decide, Text.grouped_cons.2 ⟨by decide, Text.grouped_cons.2
        ⟨by decide, Text.grouped_of_notMem List.not_mem_nil⟩⟩⟩
    rw [htext]
    exact .intro .plus (by decide) hchars hgrouped
  have hdenotes₀ : Numeral.DenotesInteger (Text.trim Text.isBlank zero.toList) 0 := by
    let body := ['0']
    have htext : Text.trim Text.isBlank zero.toList = '-' :: body := by decide
    have hgrouped : Text.Grouped Text.isDecimal false body := Text.grouped_of_notMem (by decide)
    rw [htext]
    exact .intro .minus (by decide) (List.forall_mem_singleton.2 (.inl (by decide))) hgrouped
  have hdenotes₁ : ∀ n, ¬Numeral.DenotesInteger (Text.trim Text.isBlank twice.toList) n := by
    intro n
    rw [← Numeral.integer?_eq_some_iff_denotes htwice.1 htwice.2]
    have hnone : Numeral.integer? twice = none := by decide
    simp [hnone]
  obtain ⟨hbound, -, -, hsession⟩ := transcript?_environment {} ten hten.1 hten.2
  obtain ⟨-, hunbounded, -, -⟩ := transcript?_environment {} zero hzero.1 hzero.2
  obtain ⟨-, -, hignored, hsession₁⟩ := transcript?_environment {} twice htwice.1 htwice.2
  have hstarted := (hbound 10 (by decide)).2 hdenotes
  have hstarted₁ := hignored.2 hdenotes₁
  rw [hstarted] at hsession
  rw [hstarted₁] at hsession₁
  refine ⟨hplain, hstarted, hunbounded.2 ⟨0, le_rfl, hdenotes₀⟩, fun patience reads t =>
    ⟨fun ht => ?_, fun ht => ?_⟩⟩
  · obtain ⟨hbudget, hwarnings, -⟩ := (hsession patience promptText reads).2 t ht
    exact ⟨hbudget, hwarnings⟩
  · obtain ⟨hbudget, hwarnings, -⟩ := (hsession₁ patience promptText reads).2 t ht
    exact ⟨hbudget, hwarnings⟩

end Repl

end StackLine
