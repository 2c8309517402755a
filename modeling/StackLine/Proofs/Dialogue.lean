import StackLine.Proofs.Verdict
import StackLine.Repl

/-!
What one read changes in a dialogue.

From read to read the loop carries a budget, which no read changes, and the last machine. Only a
line that finishes changes that machine, and only one command shows it. So a read that is put
into a dialogue adds its prompt and its reply and, unless it is a line that finishes, nothing
else.
-/

namespace StackLine

open Filter

/-! ### Warnings -/

namespace Record

lemma log_append (verbose : Bool) (rs ts : List Record) :
    log verbose (rs ++ ts) = log verbose rs ++ log verbose ts := by
  rw [log, List.map_append, String.join_append]
  rfl

lemma log_eq_empty {rs : List Record} (h : ∀ r ∈ rs, r.isWarning = false) :
    log false rs = "" := by
  induction rs with
  | nil => rfl
  | cons r rs ih =>
    obtain ⟨hr, hrs⟩ := List.forall_mem_cons.1 h
    rw [← List.singleton_append, log_append, ih hrs]
    simp [log, line, hr]

end Record

/-- An evaluation warns of nothing. -/
lemma Evaluation.log_records (e : Evaluation) : Record.log false e.records = "" := by
  refine Record.log_eq_empty (List.forall_mem_append.2 ⟨List.forall_mem_cons.2 ⟨rfl, ?_⟩, ?_⟩)
  · rw [List.forall_mem_map]
    exact fun _ _ => rfl
  · rcases e.outcome with _ | n | _ <;> simp [Record.isWarning]

namespace Repl

/-! ### Reads -/

/-- The command that a read gives; an interrupt gives none. -/
def Read.command? : Read → Option Command
  | line text => some (Command.ofLine text)
  | interrupt => none

/-- The read is a line to be evaluated, and it finishes within the budget. -/
def Read.Finishes (b : Budget) (r : Read) : Prop :=
  ∃ line, r.command? = some (.execute line) ∧ Evaluation.Finishes b line

lemma Read.not_finishes {b : Budget} {r : Read} (h : ∀ line, r.command? ≠ some (.execute line)) :
    ¬r.Finishes b := fun ⟨_, hline, _⟩ => h _ hline

def Read.Settles (b : Budget) (r : Read) : Prop :=
  ∀ line, r.command? = some (.execute line) → Evaluation.Settles b line

/-- The reads that are answered: none after the command to leave. -/
def heard : List Read → List Read
  | [] => []
  | r :: rest => if r.command? = some .leave then [r] else r :: heard rest

lemma heard_append {r₁ : List Read} (h : ∀ r ∈ r₁, r.command? ≠ some .leave) (r₂ : List Read) :
    heard (r₁ ++ r₂) = r₁ ++ heard r₂ := by
  induction r₁ with
  | nil => rfl
  | cons r rest ih =>
    obtain ⟨hr, hrest⟩ := List.forall_mem_cons.1 h
    rw [List.cons_append, heard, if_neg hr, ih hrest, List.cons_append]

/-! ### One reply -/

variable {patience : ℕ} {s t : Session} {r : Read}

/-- What a reply has to do with the session before it. -/
structure Replied (s : Session) (r : Read) (reply : Reply) : Prop where
  leaves : reply.leaves = true ↔ r.command? = some .leave
  budget : reply.session.budget = s.budget
  kept : ¬r.Finishes s.budget → reply.session = s
  quiet : Record.log false reply.records = ""

lemma replied_of_respond {reply : Reply} (h : respond patience s r = some reply) :
    Replied s r reply := by
  rcases r with text | _
  · have hcommand : (Read.line text).command? = some (Command.ofLine text) := rfl
    rcases hc : Command.ofLine text with _ | _ | _ | code | line <;> rw [hc] at hcommand <;>
      simp only [respond, hc] at h
    case execute =>
      obtain ⟨result, hresult, rfl⟩ := Option.map_eq_some_iff.1 h
      have hverdict := Evaluation.mem_verdict_of_machine? hresult
      refine ⟨by simp [hcommand], by cases result <;> rfl, fun hnot => ?_,
        Evaluation.log_records _⟩
      rcases result with fault | m
      · rfl
      · exact absurd ⟨line, hcommand, (Evaluation.ok_mem_verdict_iff.1 hverdict).1⟩ hnot
    all_goals
      cases h
      exact ⟨by simp [hcommand], rfl, fun _ => rfl, rfl⟩
  · cases h
    exact ⟨by simp [Read.command?], rfl, fun _ => rfl, rfl⟩

/-- Two replies to the same read under the same budget. -/
structure Alike (b : Budget) (r : Read) (u v : Reply) : Prop where
  text : v.text ≠ u.text → r.command? = some .showStack
  session : r.Finishes b → v.session = u.session

/-- **One read.** What a reply owes to the last machine is seen only where the stack is shown. -/
lemma exists_respond_alike {u : Reply} (hb : t.budget = s.budget)
    (h : respond patience s r = some u) :
    ∃ v, respond patience t r = some v ∧ Alike s.budget r u v := by
  rcases r with text | _
  · have hcommand : (Read.line text).command? = some (Command.ofLine text) := rfl
    rcases hc : Command.ofLine text with _ | _ | _ | code | line <;> rw [hc] at hcommand <;>
      simp only [respond, hc, hb] at h ⊢
    case execute =>
      obtain ⟨result, hresult, rfl⟩ := Option.map_eq_some_iff.1 h
      rw [hresult]
      refine ⟨_, rfl, fun hne => absurd rfl hne, ?_⟩
      rintro ⟨other, hother, hfin⟩
      cases Option.some_injective _ (hcommand.symm.trans hother)
      rcases result with fault | m
      · have hverdict := Evaluation.mem_verdict_of_machine? hresult
        exact absurd hfin (Evaluation.error_mem_verdict_iff.1 hverdict).1
      · simp [Session.after, hb]
    case showStack =>
      cases h
      have hnot : ∀ line, (Read.line text).command? ≠ some (.execute line) := by simp [hcommand]
      exact ⟨_, rfl, fun _ => hcommand, fun hfin => absurd hfin (Read.not_finishes hnot)⟩
    all_goals
      cases h
      have hnot : ∀ line, (Read.line text).command? ≠ some (.execute line) := by simp [hcommand]
      exact ⟨_, rfl, fun hne => absurd rfl hne, fun hfin => absurd hfin (Read.not_finishes hnot)⟩
  · cases h
    have hnot : ∀ line, Read.interrupt.command? ≠ some (.execute line) := by simp [Read.command?]
    exact ⟨_, rfl, fun hne => absurd rfl hne, fun hfin => absurd hfin (Read.not_finishes hnot)⟩

/-! ### Dialogues -/

variable {reads : List Read} {d : Dialogue}

lemma converse_cons {reply : Reply} (h : respond patience s r = some reply) (rest : List Read) :
    converse patience s (r :: rest) =
      if reply.leaves then some ⟨[reply], reply.session, true⟩
      else (converse patience reply.session rest).map fun d =>
        { d with replies := reply :: d.replies } := by
  rw [converse, h]

/-- A dialogue starts with a reply, and then it is left or goes on. -/
lemma converse_cons_eq_some (h : converse patience s (r :: reads) = some d) :
    ∃ reply, respond patience s r = some reply ∧
      (reply.leaves = true ∧ d = ⟨[reply], reply.session, true⟩ ∨
        reply.leaves = false ∧ ∃ e, converse patience reply.session reads = some e ∧
          d = { e with replies := reply :: e.replies }) := by
  rcases hr : respond patience s r with _ | reply
  · rw [converse, hr] at h
    cases h
  · rw [converse_cons hr] at h
    refine ⟨reply, rfl, ?_⟩
    rcases hl : reply.leaves with _ | _ <;> rw [hl] at h
    · obtain ⟨e, he, rfl⟩ := Option.map_eq_some_iff.1 h
      exact .inr ⟨rfl, e, he, rfl⟩
    · cases h
      exact .inl ⟨rfl, rfl⟩

/-- What a dialogue has to do with the session before it. -/
structure Conversed (s : Session) (reads : List Read) (d : Dialogue) : Prop where
  budget : d.session.budget = s.budget
  left : (∀ r ∈ reads, r.command? ≠ some .leave) → d.left = false
  quiet : Record.log false d.records = ""

lemma conversed_of_converse (h : converse patience s reads = some d) : Conversed s reads d := by
  induction reads generalizing s d with
  | nil =>
    cases h
    exact ⟨rfl, fun _ => rfl, rfl⟩
  | cons r rest ih =>
    obtain ⟨reply, hreply, ⟨hl, rfl⟩ | ⟨hl, e, he, rfl⟩⟩ := converse_cons_eq_some h
    all_goals have hr := replied_of_respond hreply
    · refine ⟨hr.budget, fun hstay => ?_, ?_⟩
      · exact absurd (hr.leaves.1 hl) (hstay r List.mem_cons_self)
      · simpa [Dialogue.records] using hr.quiet
    · have htail := ih he
      refine ⟨htail.budget.trans hr.budget, fun hstay => ?_, ?_⟩
      · exact htail.left fun r' hr' => hstay r' (List.mem_cons_of_mem r hr')
      · have hsplit : Dialogue.records { e with replies := reply :: e.replies } =
            reply.records ++ e.records := rfl
        rw [hsplit, Record.log_append, hr.quiet, htail.quiet]
        rfl

/-- What is read after a dialogue that was not left goes on with it. -/
lemma converse_append (h : converse patience s reads = some d) (hleft : d.left = false)
    (rest : List Read) :
    converse patience s (reads ++ rest) =
      (converse patience d.session rest).map fun e =>
        { e with replies := d.replies ++ e.replies } := by
  induction reads generalizing s d with
  | nil =>
    cases h
    simp
  | cons r tail ih =>
    obtain ⟨reply, hreply, ⟨hl, rfl⟩ | ⟨hl, e, he, rfl⟩⟩ := converse_cons_eq_some h
    · cases hleft
    · rw [List.cons_append, converse_cons hreply, hl, ih he hleft]
      simp [Function.comp_def]

lemma eventually_respond {b : Budget} (h : r.Settles b) :
    ∀ᶠ patience in atTop, ∀ s : Session, s.budget = b →
      ∃ reply, respond patience s r = some reply := by
  rcases r with text | _
  · rcases hc : Command.ofLine text with _ | _ | _ | code | line
    case execute =>
      have hsettles : Evaluation.Settles b line := h line (congrArg some hc)
      filter_upwards [Evaluation.eventually_machine? hsettles] with patience hresult
      rintro s rfl
      obtain ⟨result, hresult⟩ := hresult
      simp [respond, hc, hresult]
    all_goals exact Eventually.of_forall fun _ _ _ => by simp [respond, hc]
  · exact Eventually.of_forall fun _ _ _ => ⟨_, rfl⟩

/-- A dialogue comes about with patience enough, since no line in it goes on for ever. -/
lemma eventually_converse {b : Budget} (h : ∀ r ∈ heard reads, r.Settles b) :
    ∀ᶠ patience in atTop, ∀ s : Session, s.budget = b →
      ∃ d, converse patience s reads = some d := by
  induction reads with
  | nil => exact Eventually.of_forall fun _ _ _ => ⟨_, rfl⟩
  | cons r rest ih =>
    by_cases hleave : r.command? = some .leave
    · rw [heard, if_pos hleave, List.forall_mem_singleton] at h
      filter_upwards [eventually_respond h] with patience hr s hs
      obtain ⟨reply, hreply⟩ := hr s hs
      have hleaves := (replied_of_respond hreply).leaves.2 hleave
      exact ⟨⟨[reply], reply.session, true⟩, by rw [converse_cons hreply, if_pos hleaves]⟩
    · rw [heard, if_neg hleave, List.forall_mem_cons] at h
      filter_upwards [eventually_respond h.1, ih h.2] with patience hr hrest s hs
      obtain ⟨reply, hreply⟩ := hr s hs
      have hreplied := replied_of_respond hreply
      obtain ⟨d, hd⟩ := hrest reply.session (hreplied.budget.trans hs)
      refine ⟨{ d with replies := reply :: d.replies }, ?_⟩
      rw [converse_cons hreply, if_neg (mt hreplied.leaves.1 hleave), hd, Option.map_some]

/-! ### Two dialogues -/

/-- Two dialogues on the same reads, under the same budget but after different last machines.
They differ only in replies that show the stack before the next line that finishes, and in the
machine at the end, if no line finishes. -/
structure Similar (b : Budget) (reads : List Read) (d e : Dialogue) : Prop where
  left : e.left = d.left
  length : e.replies.length = d.replies.length
  text : ∀ (n : ℕ) (r : Read) (u v : Reply), reads[n]? = some r → d.replies[n]? = some u →
    e.replies[n]? = some v → v.text ≠ u.text →
      r.command? = some .showStack ∧ ∀ r' ∈ reads.take n, ¬r'.Finishes b
  budget : e.session.budget = d.session.budget
  last : e.session.last ≠ d.session.last → ∀ r ∈ heard reads, ¬r.Finishes b

namespace Similar

variable {b : Budget} {e : Dialogue} {u v : Reply}

lemma refl (b : Budget) (reads : List Read) (d : Dialogue) : Similar b reads d d where
  left := rfl
  length := rfl
  text _ _ _ _ _ hu hv hne := absurd (Option.some_injective _ (hv.symm.trans hu) ▸ rfl) hne
  budget := rfl
  last hne := absurd rfl hne

lemma cons (h : Similar b reads d e) (halike : Alike b r u v) (hstay : r.command? ≠ some .leave)
    (hfin : r.Finishes b → e = d) :
    Similar b (r :: reads) { d with replies := u :: d.replies }
      { e with replies := v :: e.replies } where
  left := h.left
  length := by simp [h.length]
  text n r' u' v' hr hu hv hne := by
    cases n with
    | zero =>
      cases hr
      cases hu
      cases hv
      exact ⟨halike.text hne, by simp⟩
    | succ n =>
      rw [List.getElem?_cons_succ] at hr hu hv
      obtain ⟨hshow, hbefore⟩ := h.text n r' u' v' hr hu hv hne
      refine ⟨hshow, List.forall_mem_cons.2 ⟨fun hr' => ?_, hbefore⟩⟩
      rw [hfin hr'] at hv
      exact hne (Option.some_injective _ (hv.symm.trans hu) ▸ rfl)
  budget := h.budget
  last hne := by
    rw [heard, if_neg hstay]
    refine List.forall_mem_cons.2 ⟨fun hr => ?_, h.last hne⟩
    rw [hfin hr] at hne
    exact hne rfl

/-- The dialogue ends with the command to leave. -/
lemma leave (halike : Alike b r u v) (hleave : r.command? = some .leave)
    (hbudget : v.session.budget = u.session.budget) (reads : List Read) :
    Similar b (r :: reads) ⟨[u], u.session, true⟩ ⟨[v], v.session, true⟩ where
  left := rfl
  length := rfl
  text n r' u' v' hr hu hv hne := by
    cases n with
    | zero =>
      cases hr
      cases hu
      cases hv
      exact ⟨halike.text hne, by simp⟩
    | succ n => cases hu
  budget := hbudget
  last _ := by
    rw [heard, if_pos hleave, List.forall_mem_singleton]
    exact Read.not_finishes (by simp [hleave])

end Similar

/-- **Two dialogues.** -/
lemma exists_converse_similar (hb : t.budget = s.budget)
    (h : converse patience s reads = some d) :
    ∃ e, converse patience t reads = some e ∧ Similar s.budget reads d e := by
  induction reads generalizing s t d with
  | nil =>
    cases h
    exact ⟨⟨[], t, false⟩, rfl, ⟨rfl, rfl, fun n r u v hr => by simp at hr, hb, by simp [heard]⟩⟩
  | cons r rest ih =>
    obtain ⟨u, hu, hcases⟩ := converse_cons_eq_some h
    obtain ⟨v, hv, halike⟩ := exists_respond_alike hb hu
    have hru := replied_of_respond hu
    have hrv := replied_of_respond hv
    have hleaves : v.leaves = u.leaves := by
      rw [Bool.eq_iff_iff, hru.leaves, hrv.leaves]
    have hbudget : v.session.budget = u.session.budget := by
      rw [hru.budget, hrv.budget, hb]
    rw [converse_cons hv, hleaves]
    obtain ⟨hl, rfl⟩ | ⟨hl, d', hd', rfl⟩ := hcases
    · exact ⟨_, by rw [if_pos hl], .leave halike (hru.leaves.1 hl) hbudget rest⟩
    · have hstay : r.command? ≠ some .leave := mt hru.leaves.2 (by simp [hl])
      by_cases hfin : r.Finishes s.budget
      · -- from here on the two sessions are one
        rw [halike.session hfin, hd', hl]
        exact ⟨_, rfl, (Similar.refl s.budget rest d').cons halike hstay fun _ => rfl⟩
      · have hkept := hru.kept hfin
        obtain ⟨e, he, hsimilar⟩ := ih hbudget hd'
        rw [hru.budget] at hsimilar
        rw [he, hl]
        exact ⟨_, rfl, hsimilar.cons halike hstay fun hfin' => absurd hfin' hfin⟩

/-! ### A read more -/

/-- The dialogue `d` on `r₁ ++ r₂` and the dialogue with `x` put in between are the dialogue `d₁`
on `r₁`, and then two dialogues on `r₂`, one after the reply to `x` and one without it. -/
structure Inserted (patience : ℕ) (s : Session) (r₁ r₂ : List Read) (x : Read)
    (d₁ : Dialogue) (own : Reply) (d e : Dialogue) : Prop where
  first : converse patience s r₁ = some d₁
  stays : d₁.left = false
  reply : respond patience d₁.session x = some own
  without : converse patience d₁.session r₂ = some d
  after : converse patience own.session r₂ = some e
  short : converse patience s (r₁ ++ r₂) = some { d with replies := d₁.replies ++ d.replies }
  long : converse patience s (r₁ ++ x :: r₂) =
    some { e with replies := d₁.replies ++ own :: e.replies }
  same : ¬x.Finishes s.budget → e = d
  similar : Similar s.budget r₂ d e

lemma eventually_inserted {b : Budget} {r₁ r₂ : List Read} {x : Read}
    (hstay : ∀ r ∈ r₁ ++ [x], r.command? ≠ some .leave)
    (hsettles : ∀ r ∈ heard (r₁ ++ x :: r₂), r.Settles b) :
    ∀ᶠ patience in atTop, ∀ s : Session, s.budget = b →
      ∃ d₁ own d e, Inserted patience s r₁ r₂ x d₁ own d e := by
  obtain ⟨hstay₁, hx⟩ := List.forall_mem_append.1 hstay
  rw [List.forall_mem_singleton] at hx
  rw [heard_append hstay₁, heard, if_neg hx, List.forall_mem_append, List.forall_mem_cons]
    at hsettles
  obtain ⟨hsettles₁, hsettlesx, hsettles₂⟩ := hsettles
  have hheard : heard r₁ = r₁ := by simpa [heard] using heard_append hstay₁ []
  rw [← hheard] at hsettles₁
  filter_upwards [eventually_converse hsettles₁, eventually_respond hsettlesx,
    eventually_converse hsettles₂] with patience hrun₁ hrunx hrun₂
  rintro s rfl
  obtain ⟨d₁, hd₁⟩ := hrun₁ s rfl
  have hconv₁ := conversed_of_converse hd₁
  obtain ⟨own, hown⟩ := hrunx d₁.session hconv₁.budget
  have hreplied := replied_of_respond hown
  obtain ⟨d, hd⟩ := hrun₂ d₁.session hconv₁.budget
  obtain ⟨e, he, hsimilar⟩ := exists_converse_similar hreplied.budget hd
  rw [hconv₁.budget] at hsimilar
  have hx₂ : converse patience d₁.session (x :: r₂) =
      some { e with replies := own :: e.replies } := by
    rw [converse_cons hown, if_neg (mt hreplied.leaves.1 hx), he, Option.map_some]
  have hleft := hconv₁.left hstay₁
  refine ⟨d₁, own, d, e, hd₁, hleft, hown, hd, he, ?_, ?_, fun hfin => ?_, hsimilar⟩
  · rw [converse_append hd₁ hleft, hd, Option.map_some]
  · rw [converse_append hd₁ hleft, hx₂, Option.map_some]
  · rw [← hconv₁.budget] at hfin
    rw [hreplied.kept hfin] at he
    exact Option.some_injective _ (he.symm.trans hd)

lemma transcript?_of_converse {environment : Option String} (prompt : String)
    (h : converse patience (s.underEnvironment environment).1 reads = some d) :
    transcript? patience s environment prompt reads = some
      { out := greeting ++ "\n" ++ d.text prompt
        records := (s.underEnvironment environment).2 ++ d.records
        session := d.session } := by
  simp only [transcript?, h, Option.map_some]

lemma Dialogue.text_append (prompt : String) (replies : List Reply) (d : Dialogue) :
    Dialogue.text prompt { d with replies := replies ++ d.replies } =
      String.join (replies.map fun reply => prompt ++ reply.text) ++ d.text prompt := by
  simp [Dialogue.text, String.append_assoc]

/-- **Reads do not interfere.** One read `x` more, before which and with which the dialogue is
not left, adds its prompt and its reply to what is shown, and no warning. Unless it is a line
that finishes it changes nothing else. A line that finishes changes at most those later replies
that show the stack before the next line that finishes, and the last machine at the end, if no
later line finishes. All this holds with patience enough, if every line that is answered has an
end or the budget is finite. -/
theorem transcript?_insert (s : Session) (environment : Option String) (prompt : String)
    (r₁ r₂ : List Read) (x : Read) (hstay : ∀ r ∈ r₁ ++ [x], r.command? ≠ some .leave)
    (hsettles : ∀ r ∈ heard (r₁ ++ x :: r₂),
      r.Settles (s.underEnvironment environment).1.budget) :
    ∀ᶠ patience in atTop, ∃ (before short long : Transcript) (opening : String) (own : Reply)
        (d e : Dialogue),
      let b := (s.underEnvironment environment).1.budget
      transcript? patience s environment prompt r₁ = some before ∧
      transcript? patience s environment prompt (r₁ ++ r₂) = some short ∧
      transcript? patience s environment prompt (r₁ ++ x :: r₂) = some long ∧
      respond patience before.session x = some own ∧
      converse patience before.session r₂ = some d ∧
      converse patience own.session r₂ = some e ∧
      before.out = opening ++ prompt ∧
      short.out = opening ++ d.text prompt ∧ short.session = d.session ∧
      long.out = opening ++ (prompt ++ own.text) ++ e.text prompt ∧ long.session = e.session ∧
      Record.log false long.records = Record.log false short.records ∧
      long.session.budget = short.session.budget ∧
      (¬x.Finishes b → e = d) ∧ (x.Finishes b → Similar b r₂ d e) := by
  filter_upwards [eventually_inserted hstay hsettles] with patience hinserted
  obtain ⟨d₁, own, d, e, h⟩ := hinserted _ rfl
  refine ⟨_, _, _, greeting ++ "\n" ++ String.join (d₁.replies.map fun u => prompt ++ u.text),
    own, d, e, transcript?_of_converse prompt h.first, transcript?_of_converse prompt h.short,
    transcript?_of_converse prompt h.long, h.reply, h.without, h.after, ?_, ?_, rfl, ?_, rfl, ?_,
    h.similar.budget, h.same, fun _ => h.similar⟩
  · simp [Dialogue.text, h.stays, String.append_assoc]
  · simp only [Dialogue.text_append, String.append_assoc]
  · simp [Dialogue.text, String.append_assoc]
  · simp only [Record.log_append, (conversed_of_converse h.long).quiet,
      (conversed_of_converse h.short).quiet]

/-- A line that outlasts the budget of the environment leaves the stack as it was. -/
theorem transcript?_insert_runaway :
    let b := (({} : Session).underEnvironment (some "2")).1.budget
    let r₁ : List Read := [.line "7"]
    let x : Read := .line "1 0 jnz"
    let r₂ : List Read := [.line " .S", .line "bye", .line "8"]
    (∀ r ∈ r₁ ++ [x], r.command? ≠ some .leave) ∧
      (∀ r ∈ heard (r₁ ++ x :: r₂), r.Settles b) ∧ ¬x.Finishes b ∧
      ∀ᶠ patience in atTop, ∃ (short long : Transcript) (opening : String) (own : Reply)
          (d : Dialogue),
        transcript? patience {} (some "2") promptText (r₁ ++ r₂) = some short ∧
        transcript? patience {} (some "2") promptText (r₁ ++ x :: r₂) = some long ∧
        short.out = opening ++ d.text promptText ∧
        long.out = opening ++ (promptText ++ own.text) ++ d.text promptText ∧
        long.session = short.session := by
  intro b r₁ x r₂
  have hb : b = some 2 := by decide
  have hstay : ∀ r ∈ r₁ ++ [x], r.command? ≠ some .leave := by decide
  have hsettles : ∀ r ∈ heard (r₁ ++ x :: r₂), r.Settles b := by
    rintro r - line - hnone
    cases hb.symm.trans hnone
  have hrunaway : ¬x.Finishes b := by
    have hlong : ¬Evaluation.Finishes (some 2) "1 0 jnz" :=
      not_le.2 (Program.lt_duration_iff.2 (by decide))
    have hx : x.command? = some (.execute "1 0 jnz") := by decide
    rintro ⟨line, hline, hfin⟩
    cases hx.symm.trans hline
    rw [hb] at hfin
    exact hlong hfin
  refine ⟨hstay, hsettles, hrunaway, ?_⟩
  filter_upwards [transcript?_insert {} (some "2") promptText r₁ r₂ x hstay hsettles]
    with patience h
  obtain ⟨-, short, long, opening, own, d, e, -, hshort, hlong, -, -, -, -, hout, hsession,
    hout', hsession', -, -, hsame, -⟩ := h
  obtain rfl := hsame hrunaway
  exact ⟨short, long, opening, own, e, hshort, hlong, hout, hout', hsession'.trans hsession.symm⟩

end Repl

end StackLine
