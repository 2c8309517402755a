import Mathlib.Tactic.NormNum
import StackLine.Proofs.Perform
import StackLine.Session

/-!
A machine that fails wherever an operation it uses is not defined: reading outside the program,
looking up an opcode that has no handler, pushing the number of a literal that carries none,
dividing by zero, taking the integer of what is not a finite number, writing an integer with
more digits than are allowed.

None of these failures occurs: the checked machine does what the machine of this library does.
-/

namespace StackLine

inductive Failure
  | noInstruction (position : Int)
  | noHandler (op : Opcode)
  | noNumber
  | zeroDivisor
  | notFinite (x : Binary64)
  | tooManyDigits (n : Int)
  /-- A text could not be read, and nothing made up for it. -/
  | unread (fault : Fault)
  | budgetExhausted (steps : ℕ)
  deriving DecidableEq

namespace Checked

/-! ### Operations that are not always defined -/

/-- The number without its fraction. -/
def truncate (x : Binary64) : Except Failure Int :=
  match x with
  | .finite negative m => .ok ((m.signed negative).tdiv (2 ^ Binary64.unitExponent))
  | _ => .error (.notFinite x)

/-- Comparison with an integer, which is not rounded. -/
def atMost : Binary64 → Int → Bool
  | .nan, _ => false
  | .infinite negative, _ => negative
  | .finite negative m, n => m.signed negative ≤ n * 2 ^ Binary64.unitExponent

def atLeast : Binary64 → Int → Bool
  | .nan, _ => false
  | .infinite negative, _ => !negative
  | .finite negative m, n => n * 2 ^ Binary64.unitExponent ≤ m.signed negative

/-- The position that a number names. The comparisons come first, so that only numbers between
the bounds are truncated. -/
def index (x : Binary64) : Except Failure Int :=
  if x = .nan ∨ atMost x 0 then .ok 0
  else if atLeast x Binary64.maxIndex then .ok Binary64.maxIndex
  else truncate x

def divide (a b : Binary64) : Except Failure Binary64 :=
  if b.equals .zero then .error .zeroDivisor else .ok (a.div b)

/-- An integer in decimal. -/
def digits (n : Int) : Except Failure String :=
  if maxIntegerDigits < (Nat.toDigits 10 n.natAbs).length then .error (.tooManyDigits n)
  else .ok n.repr

/-- The number as it is shown. -/
def display (x : Binary64) : Except Failure String :=
  if x = .nan then .ok "NaN"
  else if x = .infinite false then .ok "inf"
  else if x = .infinite true then .ok "-inf"
  else do
    let n ← truncate x
    if x.equalsInt n then digits n else .ok x.text

def stackText (m : Machine) : Except Failure String := do
  let shown ← m.stack.reverse.mapM display
  .ok (" ".intercalate (("<" ++ m.stack.length.repr ++ ">") :: shown))

def outputText (m : Machine) : Except Failure String := do
  let shown ← m.output.mapM display
  .ok (" ".intercalate shown)

/-! ### Handlers and instructions -/

/-- What a word does to a machine, with the position it jumps to if it jumps. -/
abbrev Handler := Machine → Except Failure (Option Int × Machine)

def binary (f : Binary64 → Binary64 → Except Failure Binary64) : Handler := fun m => do
  let (b, a, m) := m.popTwo
  let x ← f a b
  .ok (none, m.push x)

def division (a b : Binary64) : Except Failure Binary64 :=
  if b.equals .zero then .ok .zero else divide a b

def jump : Handler := fun m => do
  let (target, condition, m) := m.popTwo
  if condition.equals .zero then .ok (none, m)
  else
    let position ← index target
    .ok (some position, m)

def arithmeticHandlers : List (Opcode × Handler) :=
  [(.word .add, binary fun a b => .ok (a.add b)), (.word .sub, binary fun a b => .ok (a.sub b)),
    (.word .mul, binary fun a b => .ok (a.mul b)), (.word .div, binary division)]

def stackHandlers : List (Opcode × Handler) :=
  [(.word .dup, fun m => let (x, m) := m.pop; .ok (none, (m.push x).push x)),
    (.word .swap, fun m => let (b, a, m) := m.popTwo; .ok (none, (m.push b).push a)),
    (.word .print, fun m => let (x, m) := m.pop; .ok (none, m.emit x))]

def jumpHandlers : List (Opcode × Handler) := [(.word .jump, jump)]

/-- The handlers by opcode. A literal has none. -/
def handlers : List (Opcode × Handler) := arithmeticHandlers ++ stackHandlers ++ jumpHandlers

def dispatch (m : Machine) (i : Instruction) : Except Failure (Option Int × Machine) :=
  if i.opcode = .literal then
    match i.carried? with
    | some x => .ok (none, m.push x)
    | none => .error .noNumber
  else
    match handlers.lookup i.opcode with
    | some handler => handler m
    | none => .error (.noHandler i.opcode)

end Checked

/-- A position and a machine. The position is an integer, which might be negative. -/
structure Checked where
  counter : Int
  machine : Machine
  deriving DecidableEq

namespace Checked

def ofConfig (c : Config) : Checked := ⟨c.counter, c.machine⟩

def fetch (p : Program) : Int → Except Failure Instruction
  | .ofNat n =>
    match p[n]? with
    | some i => .ok i
    | none => .error (.noInstruction n)
  | position => .error (.noInstruction position)

/-- The next configuration, if the position is not past the last instruction. -/
def step (p : Program) (s : Checked) : Except Failure (Option Checked) :=
  if s.counter < p.size then do
    let i ← fetch p s.counter
    let (target, m) ← dispatch s.machine i
    .ok (some ⟨target.getD (s.counter + 1), m⟩)
  else .ok none

def run (p : Program) : ℕ → Checked → Except Failure Checked
  | 0, s => .ok s
  | k + 1, s => do
    match ← step p s with
    | some t => run p k t
    | none => .ok s

lemma lt_size_of_step {p : Program} {s t : Checked} (h : step p s = .ok (some t)) :
    s.counter < p.size := by
  by_contra hs
  rw [step, if_neg hs] at h
  cases h

/-- The run that counts its instructions, as far as its limit allows. -/
def runCounted (p : Program) (limit : Int) (count : ℕ) (s : Checked) : Except Failure Checked :=
  match h : step p s with
  | .error failure => .error failure
  | .ok none => .ok s
  | .ok (some t) =>
    if limit ≤ (count + 1 : ℕ) ∧ t.counter < p.size then .error (.budgetExhausted (count + 1))
    else runCounted p limit (count + 1) t
termination_by ((limit - count).toNat, if s.counter < p.size then 1 else 0)
decreasing_by
  have hs := lt_size_of_step h
  by_cases hl : limit ≤ (count + 1 : ℕ)
  · have ht : ¬t.counter < p.size := by simp_all
    rw [if_pos hs, if_neg ht, Prod.lex_def]
    simp
    omega
  · apply Prod.Lex.left
    omega

/-! ### Lines -/

/-- The instruction of a token. A text that is no number counts as zero; no other fault is made
up for. -/
def decode (token : String) : Except Failure Instruction :=
  match Word.ofToken? token with
  | some w => .ok (.make (.word w) none)
  | none =>
    match Binary64.parse token with
    | .ok x => .ok (.make .literal (some x))
    | .error (.notPlain _) | .error (.malformed _) => .ok (.make .literal (some .zero))
    | .error fault => .error (.unread fault)

def compile (line : String) : Except Failure Program := do
  let instructions ← (tokens line).mapM decode
  .ok instructions.toArray

/-- The evaluation of a line on a fresh machine. Without a budget it goes on for a number of
steps. -/
def evaluate (budget : Budget) (steps : ℕ) (line : String) : Except Failure Checked := do
  let p ← compile line
  match budget with
  | some limit => runCounted p limit 0 (ofConfig {})
  | none => run p steps (ofConfig {})

/-- The session after a line. -/
def execute (s : Session) (steps : ℕ) (line : String) : Except Failure Session := do
  let c ← evaluate s.budget steps line
  .ok { s with last := c.machine }

end Checked

end StackLine
