import StackLine.Proofs.Verdict
import StackLine.Session

/-!
What a session remembers.

After any history of actions the budget is the one set last, and the last machine is that of
the latest line that finished within the budget in force when it was entered. All else that was
done before has no effect on what an action gives back, and an action that fails leaves the
session as it was.
-/

namespace StackLine

namespace Session

open Filter Evaluation

/-! ### Histories -/

/-- The line that an action enters. -/
def Action.line? : Action → Option String
  | call line | execute line => some line
  | setBudget _ => none

def Action.budgetAfter (b : Budget) : Action → Budget
  | setBudget budget => budget
  | call _ | execute _ => b

/-- What an action gives back under a budget, whatever was done before. -/
noncomputable def Action.answer (b : Budget) : Action → Part (Except Fault Result)
  | call line => (verdict b line).map fun r => r.map fun m => .numbers m.output
  | execute line => (verdict b line).map fun r => r.map fun m => .session ⟨b, m⟩
  | setBudget _ => Part.some (.ok .nothing)

/-- The budget in force when action number `n` is done. -/
def budgetAt (b : Budget) (actions : List Action) (n : ℕ) : Budget :=
  (actions.take n).foldl Action.budgetAfter b

def EntersAt (actions : List Action) (n : ℕ) (line : String) : Prop :=
  ∃ a, actions[n]? = some a ∧ a.line? = some line

/-- Action number `n` enters a line that finishes within the budget in force. -/
def FinishesAt (b : Budget) (actions : List Action) (n : ℕ) (line : String) : Prop :=
  EntersAt actions n line ∧ Finishes (budgetAt b actions n) line

/-- Of the lines entered by the first `n` actions, the latest that finished. -/
def LatestBefore (b : Budget) (actions : List Action) (n : ℕ) (line : String) : Prop :=
  ∃ k < n, FinishesAt b actions k line ∧
    ∀ j, k < j → j < n → ∀ other, ¬FinishesAt b actions j other

/-! ### One action -/

lemma execute?_eq_some {s t : Session} {patience : ℕ} {line : String} {r : Except Fault Machine}
    (h : s.execute? patience line = some (r, t)) : r ∈ verdict s.budget line ∧ t = s.after r := by
  obtain ⟨q, hq, hqt⟩ := Option.map_eq_some_iff.1 h
  cases hqt
  exact ⟨mem_verdict_of_machine? hq, rfl⟩

/-- What the step of an action has to do with the session before it. -/
structure Done (s : Session) (a : Action) (step : Step) : Prop where
  result : step.result ∈ a.answer s.budget
  budget : step.session.budget = a.budgetAfter s.budget
  finished : ∀ line, a.line? = some line → Finishes s.budget line →
    step.session.last ∈ unbounded line
  kept : (∀ line, a.line? = some line → ¬Finishes s.budget line) → step.session.last = s.last
  failed : ∀ fault, step.result = .error fault →
    step.session = s ∧ ∃ count, fault = .budgetExhausted count

/-- A line that is entered either leaves its machine as the last one, or nothing. -/
lemma done_of_line {s t : Session} {patience : ℕ} {line : String} {r : Except Fault Machine}
    {a : Action} {result : Except Fault Result} (h : s.execute? patience line = some (r, t))
    (ha : a.line? = some line) (hbudget : a.budgetAfter s.budget = s.budget)
    (hanswer : result ∈ a.answer s.budget)
    (hfault : ∀ fault, result = .error fault → r = .error fault) : Done s a ⟨result, t⟩ := by
  obtain ⟨hr, rfl⟩ := execute?_eq_some h
  have hline : ∀ other, a.line? = some other → other = line := fun other hother =>
    Option.some_injective _ (hother.symm.trans ha)
  rcases r with fault | m
  · obtain ⟨hnot, n, -, rfl⟩ := error_mem_verdict_iff.1 hr
    refine ⟨hanswer, hbudget.symm, ?_, fun _ => rfl, fun fault hf => ⟨rfl, ?_⟩⟩
    · rintro other hother hfin
      exact absurd (hline other hother ▸ hfin) hnot
    · cases hfault fault hf
      exact ⟨_, rfl⟩
  · obtain ⟨hfin, hm⟩ := ok_mem_verdict_iff.1 hr
    refine ⟨hanswer, hbudget.symm, ?_, fun hnot => absurd hfin (hnot line ha), ?_⟩
    · rintro other hother -
      rw [hline other hother]
      exact hm
    · intro fault hf
      cases hfault fault hf

/-- **One action.** -/
lemma done_of_act? {s : Session} {patience : ℕ} {a : Action} {step : Step}
    (h : s.act? patience a = some step) : Done s a step := by
  cases a with
  | call line | execute line =>
    obtain ⟨⟨r, t⟩, hrt, rfl⟩ := Option.map_eq_some_iff.1 h
    obtain ⟨hr, rfl⟩ := execute?_eq_some hrt
    refine done_of_line hrt rfl rfl (Part.mem_map_iff _ |>.2 ⟨r, hr, ?_⟩) fun fault hf => ?_
    · cases r <;> rfl
    · cases r <;> cases hf
      rfl
  | setBudget budget =>
    cases h
    refine ⟨Part.mem_some _, rfl, ?_, fun _ => rfl, ?_⟩
    · rintro line hline
      cases hline
    · rintro fault hf
      cases hf

lemma eventually_act? {b : Budget} {a : Action}
    (h : ∀ line, a.line? = some line → Settles b line) :
    ∀ᶠ patience in atTop, ∀ s : Session, s.budget = b → ∃ step, s.act? patience a = some step := by
  cases a with
  | call line | execute line =>
    filter_upwards [eventually_machine? (h line rfl)] with patience hr
    rintro s rfl
    obtain ⟨r, hr⟩ := hr
    simp [act?, execute?, hr]
  | setBudget budget => exact Eventually.of_forall fun _ _ _ => ⟨_, rfl⟩

/-! ### Histories of actions -/

lemma budgetAt_succ {b : Budget} {actions : List Action} {n : ℕ} {a : Action}
    (h : actions[n]? = some a) :
    budgetAt b actions (n + 1) = a.budgetAfter (budgetAt b actions n) := by
  rw [budgetAt, List.take_add_one, h, Option.toList_some, List.foldl_append]
  rfl

/-- A history is done with patience enough, since no line in it goes on for ever. -/
lemma eventually_replay? {b : Budget} {actions : List Action}
    (h : ∀ n line, EntersAt actions n line → Settles (budgetAt b actions n) line) :
    ∀ᶠ patience in atTop, ∀ s : Session, s.budget = b →
      ∃ steps, replay? patience s actions = some steps := by
  induction actions generalizing b with
  | nil => exact Eventually.of_forall fun _ _ _ => ⟨[], rfl⟩
  | cons a rest ih =>
    have hhead : ∀ line, a.line? = some line → Settles b line :=
      fun line hline => h 0 line ⟨a, rfl, hline⟩
    have htail : ∀ n line, EntersAt rest n line →
        Settles (budgetAt (a.budgetAfter b) rest n) line :=
      fun n line hline => h (n + 1) line hline
    filter_upwards [eventually_act? hhead, ih htail] with patience hact hrest
    rintro s rfl
    obtain ⟨step, hstep⟩ := hact s rfl
    obtain ⟨steps, hsteps⟩ := hrest step.session (done_of_act? hstep).budget
    exact ⟨step :: steps, by rw [replay?, hstep]; simp [hsteps]⟩

/-- Each step is that of its action on the session that the step before it left. -/
lemma act?_of_replay? {s : Session} {patience : ℕ} {actions : List Action} {steps : List Step}
    (h : replay? patience s actions = some steps) :
    steps.length = actions.length ∧ ∀ (n : ℕ) (a : Action), actions[n]? = some a →
      ∃ (before : Session) (step : Step), (s :: steps.map Step.session)[n]? = some before ∧
        steps[n]? = some step ∧ before.act? patience a = some step := by
  induction actions generalizing s steps with
  | nil =>
    cases h
    exact ⟨rfl, fun n a ha => by simp at ha⟩
  | cons a rest ih =>
    rw [replay?] at h
    split at h
    · cases h
    · next step hstep =>
      obtain ⟨tail, htail, rfl⟩ := Option.map_eq_some_iff.1 h
      obtain ⟨hlength, hsteps⟩ := ih htail
      refine ⟨by simp [hlength], fun n a' ha' => ?_⟩
      cases n with
      | zero =>
        cases ha'
        exact ⟨s, step, rfl, rfl, hstep⟩
      | succ n => exact hsteps n a' ha'

/-- The session is what the first `n` actions of a history leave. -/
structure Remembers (b : Budget) (actions : List Action) (n : ℕ) (s : Session) : Prop where
  budget : s.budget = budgetAt b actions n
  last : ∀ line, LatestBefore b actions n line → s.last ∈ unbounded line
  fresh : (∀ k < n, ∀ line, ¬FinishesAt b actions k line) → s.last = {}

namespace Remembers

variable {b : Budget} {actions : List Action} {n : ℕ} {s : Session} {a : Action} {step : Step}

lemma init (b : Budget) (actions : List Action) : Remembers b actions 0 { budget := b } :=
  ⟨rfl, fun _ ⟨_, hk, _⟩ => absurd hk (Nat.not_lt_zero _), fun _ => rfl⟩

lemma done (h : Remembers b actions n s) (ha : actions[n]? = some a) (hstep : Done s a step) :
    Remembers b actions (n + 1) step.session := by
  have hfin : ∀ line, FinishesAt b actions n line ↔
      a.line? = some line ∧ Finishes s.budget line := fun line => by
    rw [FinishesAt, EntersAt, ha, h.budget]
    simp
  refine ⟨?_, ?_, ?_⟩
  · rw [hstep.budget, h.budget, budgetAt_succ ha]
  · rintro line ⟨k, hk, hline, hlatest⟩
    rcases Nat.lt_succ_iff_lt_or_eq.1 hk with hk | rfl
    · -- nothing finished after it, so the last machine was kept
      have hkept := hstep.kept fun other hother hf =>
        hlatest n hk (Nat.lt_succ_self n) other ((hfin other).2 ⟨hother, hf⟩)
      rw [hkept]
      exact h.last line ⟨k, hk, hline, fun j hkj hj => hlatest j hkj (Nat.lt_succ_of_lt hj)⟩
    · obtain ⟨hother, hf⟩ := (hfin line).1 hline
      exact hstep.finished line hother hf
  · intro hnone
    have hkept := hstep.kept fun other hother hf =>
      hnone n (Nat.lt_succ_self n) other ((hfin other).2 ⟨hother, hf⟩)
    rw [hkept]
    exact h.fresh fun k hk => hnone k (Nat.lt_succ_of_lt hk)

end Remembers

/-- **A whole history.** -/
lemma remembers_of_replay? {b : Budget} {patience : ℕ} {actions : List Action} {steps : List Step}
    (h : replay? patience { budget := b } actions = some steps) {n : ℕ} {s : Session}
    (hs : (({ budget := b } : Session) :: steps.map Step.session)[n]? = some s) :
    Remembers b actions n s := by
  obtain ⟨hlength, hsteps⟩ := act?_of_replay? h
  induction n generalizing s with
  | zero =>
    cases hs
    exact .init b actions
  | succ n ih =>
    have hn : n < actions.length := by
      have := (List.getElem?_eq_some_iff.1 hs).1
      simp only [List.length_cons, List.length_map, hlength] at this
      omega
    obtain ⟨before, step, hbefore, hstep, hact⟩ :=
      hsteps n _ (List.getElem?_eq_getElem hn)
    rw [List.getElem?_cons_succ, List.getElem?_map, hstep, Option.map_some] at hs
    cases hs
    exact (ih hbefore).done (List.getElem?_eq_getElem hn) (done_of_act? hact)

/-- **A session remembers its budget and the latest line that finished.** In a history of actions
on a new session, whose lines without a budget all have an end, each action is done, and after
it the budget is the one set last, and the last machine is the one that the unbounded run of the
latest line leaves that finished within the budget in force when it was entered, or a new one if
there is no such line. What an action gives back depends on nothing but the action and the
budget in force. An action fails only by its budget, and then leaves the session as it was. -/
theorem replay?_history (b : Budget) (actions : List Action)
    (hsettles : ∀ n line, EntersAt actions n line → Settles (budgetAt b actions n) line) :
    ∀ᶠ patience in atTop, ∃ steps,
      replay? patience { budget := b } actions = some steps ∧
      steps.length = actions.length ∧
      ∀ n a, actions[n]? = some a → ∃ before step,
        (({ budget := b } : Session) :: steps.map Step.session)[n]? = some before ∧
        steps[n]? = some step ∧
        step.session.budget = budgetAt b actions (n + 1) ∧
        (∀ line, LatestBefore b actions (n + 1) line → step.session.last ∈ unbounded line) ∧
        ((∀ k ≤ n, ∀ line, ¬FinishesAt b actions k line) → step.session.last = {}) ∧
        step.result ∈ a.answer (budgetAt b actions n) ∧
        ∀ fault, step.result = .error fault →
          step.session = before ∧ ∃ count, fault = .budgetExhausted count := by
  filter_upwards [eventually_replay? hsettles] with patience hreplay
  obtain ⟨steps, hsteps⟩ := hreplay { budget := b } rfl
  obtain ⟨hlength, hacts⟩ := act?_of_replay? hsteps
  refine ⟨steps, hsteps, hlength, fun n a ha => ?_⟩
  obtain ⟨before, step, hbefore, hstep, hact⟩ := hacts n a ha
  have hdone := done_of_act? hact
  have hremembers := remembers_of_replay? hsteps hbefore
  have hnext := hremembers.done ha hdone
  refine ⟨before, step, hbefore, hstep, hnext.budget, hnext.last, ?_, ?_, hdone.failed⟩
  · exact fun hnone => hnext.fresh fun k hk => hnone k (Nat.lt_succ_iff.1 hk)
  · rw [← hremembers.budget]
    exact hdone.result

/-- A line without a budget that finishes, and under a budget one that does not. -/
theorem replay?_history_runaway :
    let actions : List Action := [.call "7 print", .setBudget (some 2), .execute "1 0 jnz"]
    (∀ n line, EntersAt actions n line → Settles (budgetAt none actions n) line) ∧
      LatestBefore none actions 3 "7 print" ∧
      ∀ᶠ patience in atTop, ∃ steps, replay? patience { budget := none } actions = some steps ∧
        ∃ step, steps[2]? = some step ∧ step.session.budget = some 2 ∧
          step.session.last ∈ unbounded "7 print" := by
  intro actions
  have hfin : Finishes none "7 print" :=
    ne_top_of_le_ne_top (ENat.natCast_ne_top 2) (Program.duration_le_iff.2 (by decide))
  have hrunaway : ¬Finishes (some 2) "1 0 jnz" :=
    not_le.2 (Program.lt_duration_iff.2 (by decide))
  have hsettles : ∀ n line, EntersAt actions n line → Settles (budgetAt none actions n) line := by
    rintro (_ | _ | _ | n) line ⟨a, ha, hline⟩ <;> cases ha <;> cases hline
    · exact fun _ => hfin
    · intro hnone
      cases hnone
  have hlatest : LatestBefore none actions 3 "7 print" := by
    refine ⟨0, by decide, ⟨⟨_, rfl, rfl⟩, hfin⟩, ?_⟩
    rintro (_ | _ | _ | j) hpos hlt other ⟨⟨a, ha, hline⟩, hother⟩
    · exact hpos.false
    · cases ha
      cases hline
    · cases ha
      cases hline
      exact hrunaway hother
    · omega
  refine ⟨hsettles, hlatest, ?_⟩
  filter_upwards [replay?_history none actions hsettles] with patience h
  obtain ⟨steps, hsteps, -, hall⟩ := h
  obtain ⟨-, step, -, hstep, hbudget, hlast, -⟩ := hall 2 _ rfl
  exact ⟨steps, hsteps, step, hstep, hbudget, hlast _ hlatest⟩

end Session

end StackLine
