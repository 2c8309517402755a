import StackLine.Proofs.Dialogue

/-!
How far a dialogue goes.

Under a budget every read is answered, so a dialogue comes to its end. It prompts for one read
after the other, up to the first command to leave, or until it meets the end of the input. What
there would have been to read after that command makes no difference to it.
-/

namespace StackLine

namespace Repl

open Filter

variable {patience : ℕ} {s : Session} {n : Int} {r : Read} {reads : List Read} {d : Dialogue}

/-! ### Under a budget -/

/-- Patience is for lines without a budget. -/
lemma respond_of_budget (h : s.budget = some n) (patience : ℕ) (r : Read) :
    respond patience s r = respond 0 s r := by
  rcases r with text | _
  · simp only [respond, h]
    rfl
  · rfl

lemma exists_respond (h : s.budget = some n) (r : Read) :
    ∃ reply, ∀ patience, respond patience s r = some reply := by
  have hsettles : r.Settles s.budget := by
    rintro line - hnone
    cases h.symm.trans hnone
  obtain ⟨enough, hrespond⟩ := (eventually_respond hsettles).exists
  obtain ⟨reply, hreply⟩ := hrespond s rfl
  refine ⟨reply, fun patience => ?_⟩
  rw [respond_of_budget h, ← respond_of_budget h enough, hreply]

/-- **A dialogue under a budget comes to its end.** -/
lemma exists_converse (h : s.budget = some n) (reads : List Read) :
    ∃ d, ∀ patience, converse patience s reads = some d := by
  induction reads generalizing s with
  | nil => exact ⟨⟨[], s, false⟩, fun _ => rfl⟩
  | cons r rest ih =>
    obtain ⟨reply, hreply⟩ := exists_respond h r
    obtain ⟨d, hd⟩ := ih ((replied_of_respond (hreply 0)).budget.trans h)
    rcases hl : reply.leaves with _ | _
    · exact ⟨_, fun patience => by rw [converse_cons (hreply patience), hl, hd]; rfl⟩
    · exact ⟨_, fun patience => by rw [converse_cons (hreply patience), hl]; rfl⟩

/-! ### Prompts -/

/-- Whether a read is the command to leave, in any case and with blanks around it or not. -/
def Read.isBye : Read → Bool
  | line text => (Text.trim Text.isBlank text.toList).map lower = "bye".toList
  | interrupt => false

lemma Read.isBye_iff : r.isBye = true ↔ r.command? = some .leave := by
  rcases r with text | _
  · simp only [isBye, command?, Command.ofLine, decide_eq_true_eq, Option.some.injEq]
    split_ifs <;> simp_all
  · simp [isBye, command?]

lemma leaves_eq_isBye {reply : Reply} (h : respond patience s r = some reply) :
    reply.leaves = r.isBye := by
  rw [Bool.eq_iff_iff, Read.isBye_iff, (replied_of_respond h).leaves]

/-- What is shown after each prompt: a reply, or nothing when the prompt met the end of the
input. -/
def Dialogue.shown (d : Dialogue) : List String :=
  d.replies.map Reply.text ++ if d.left then [] else [""]

lemma Dialogue.text_eq_join (prompt : String) (d : Dialogue) :
    d.text prompt = String.join (d.shown.map (prompt ++ ·)) := by
  rcases d with ⟨replies, s, _ | _⟩ <;>
    simp [Dialogue.text, Dialogue.shown, Function.comp_def]

lemma length_shown (h : converse patience s reads = some d) :
    d.shown.length = reads.findIdx Read.isBye + 1 := by
  induction reads generalizing s d with
  | nil =>
    cases h
    rfl
  | cons r rest ih =>
    obtain ⟨reply, hreply, hcases⟩ := converse_cons_eq_some h
    rw [List.findIdx_cons, ← leaves_eq_isBye hreply]
    obtain ⟨hl, rfl⟩ | ⟨hl, e, he, rfl⟩ := hcases
    · simp [Dialogue.shown, hl]
    · have hrest := ih he
      rw [hl, cond_false, ← hrest]
      rfl

/-- What follows the first command to leave is not read. -/
lemma converse_take_append (hbye : reads.findIdx Read.isBye < reads.length) (later : List Read) :
    converse patience s (reads.take (reads.findIdx Read.isBye + 1) ++ later) =
      converse patience s reads := by
  induction reads generalizing s with
  | nil => cases hbye
  | cons r rest ih =>
    rw [List.findIdx_cons] at hbye ⊢
    rw [List.take_succ_cons, List.cons_append]
    rcases hreply : respond patience s r with _ | reply
    · rw [converse, hreply, converse, hreply]
    · rw [← leaves_eq_isBye hreply] at hbye ⊢
      rw [converse_cons hreply, converse_cons hreply]
      rcases hl : reply.leaves with _ | _
      · rw [hl, cond_false, List.length_cons, Nat.add_lt_add_iff_right] at hbye
        rw [cond_false, ih hbye]
      · rfl

/-- **A session at the keyboard ends, and reads what it should.** Under a budget, be it the
session's own or that of the environment, every list of reads makes a transcript. It prompts once
for each read up to the first command to leave and, if there is none, once more at the end of the
input: what stands before, between and after the prompts is the same whatever the prompt is. The
transcript is the same, whatever else there is to read after that command. -/
theorem transcript?_prompts (s : Session) (environment : Option String) {n : Int}
    (hbudget : (s.underEnvironment environment).1.budget = some n) (reads : List Read) :
    let j := reads.findIdx Read.isBye
    (∃ shown : List String, shown.length = j + 1 ∧
      ∀ (patience : ℕ) (prompt : String), ∃ t,
        transcript? patience s environment prompt reads = some t ∧
          t.out = greeting ++ "\n" ++ String.join (shown.map (prompt ++ ·))) ∧
      (j < reads.length → ∀ (later : List Read) (patience : ℕ) (prompt : String),
        transcript? patience s environment prompt (reads.take (j + 1) ++ later) =
          transcript? patience s environment prompt reads) := by
  intro j
  obtain ⟨d, hd⟩ := exists_converse hbudget reads
  refine ⟨⟨d.shown, length_shown (hd 0), fun patience prompt => ?_⟩, ?_⟩
  · refine ⟨_, transcript?_of_converse prompt (hd patience), ?_⟩
    rw [Dialogue.text_eq_join]
  · intro hbye later patience prompt
    have hsame : converse patience (s.underEnvironment environment).1
        (reads.take (j + 1) ++ later) = converse patience _ reads :=
      converse_take_append hbye later
    simp only [transcript?, hsame]

/-- The environment sets the budget of a session without one; three prompts, of which one meets
an interrupt, and no fourth after the command to leave. -/
theorem transcript?_prompts_early_bye :
    let s : Session := { budget := none }
    let reads : List Read := [.line "1 0 jnz", .interrupt, .line " \tBYE", .line "8 print"]
    (s.underEnvironment (some "7")).1.budget = some 7 ∧
      reads.findIdx Read.isBye = 2 ∧
      (∃ shown : List String, shown.length = 3 ∧ ∀ (patience : ℕ) (prompt : String), ∃ t,
        transcript? patience s (some "7") prompt reads = some t ∧
          t.out = greeting ++ "\n" ++ String.join (shown.map (prompt ++ ·))) ∧
      ∀ (patience : ℕ) (prompt : String),
        transcript? patience s (some "7") prompt (reads.take 3) =
          transcript? patience s (some "7") prompt reads := by
  intro s reads
  have hbudget : (s.underEnvironment (some "7")).1.budget = some 7 := by decide
  have hbye : reads.findIdx Read.isBye = 2 := by decide
  obtain ⟨⟨shown, hlength, hshown⟩, hsame⟩ := transcript?_prompts s (some "7") hbudget reads
  rw [hbye] at hlength hsame
  refine ⟨hbudget, hbye, ⟨shown, hlength, hshown⟩, fun patience prompt => ?_⟩
  simpa using hsame (by decide) [] patience prompt

end Repl

end StackLine
