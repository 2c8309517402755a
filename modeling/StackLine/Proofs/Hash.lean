import StackLine.Hash
import StackLine.Proofs.Classes

/-!
Equality and hashes of numbers and instructions.

Equality of numbers makes the two zeros one and takes what is not a number for different from
itself; equality of instructions goes by the opcode and the number carried. Hashes respect both, so
a set of either has one member for each class, and every object that carries what is not a number.
-/

namespace StackLine

namespace Binary64

variable {x y z : Binary64}

/-- Equal numbers are one infinity, or finite and of as many units. -/
lemma exists_of_equals (h : x.equals y = true) :
    (∃ s, x = .infinite s ∧ y = .infinite s) ∨
      ∃ s m t n, x = .finite s m ∧ y = .finite t n ∧ m.signed s = n.signed t := by
  unfold equals at h
  split at h
  · exact .inl ⟨_, rfl, by rw [eq_of_beq h]⟩
  · exact .inr ⟨_, _, _, _, rfl, rfl, eq_of_beq h⟩
  · cases h

lemma equals_self_iff (x : Binary64) : x.equals x = true ↔ x ≠ .nan := by
  cases x <;> simp [equals]

lemma equals_trans (hxy : x.equals y = true) (hyz : y.equals z = true) : x.equals z = true := by
  obtain ⟨s, rfl, rfl⟩ | ⟨s, m, t, n, rfl, rfl, hmn⟩ := exists_of_equals hxy
  · exact hyz
  · obtain ⟨_, ⟨⟩, -⟩ | ⟨_, _, u, l, ⟨⟩, rfl, hnl⟩ := exists_of_equals hyz
    exact beq_iff_eq.2 (hmn.trans hnl)

lemma hash_eq_of_equals (hashing : Hashing) (h : x.equals y = true) (i j : ℕ) :
    x.hash hashing i = y.hash hashing j := by
  obtain ⟨s, rfl, rfl⟩ | ⟨s, m, t, n, rfl, rfl, hmn⟩ := exists_of_equals h
  · rfl
  · rw [hash, hash, hmn]

/-- Numbers of one hash need not be equal. -/
example :
    let hashing : Hashing := ⟨fun _ => 0, 0, fun _ _ => 0, fun _ => 0⟩
    (ofText "-1").hash hashing 0 = -2 ∧ (ofText "-2").hash hashing 1 = -2 ∧
      (ofText "0.5").hash hashing 2 = 1152921504606846976 := by decide +kernel

lemma respectsHash (hashing : Hashing) : RespectsHash (hash hashing) equals where
  symm h := equals_comm _ _ ▸ h
  trans := equals_trans
  hash_eq := hash_eq_of_equals hashing

end Binary64

namespace Instruction

variable {i j k : Instruction}

/-- Equal instructions have one opcode, and carry nothing or equal numbers. -/
lemma equals_iff : i.equals j = true ↔
    i.opcode = j.opcode ∧ Option.Rel (fun x y => x.equals y = true) i.carried? j.carried? := by
  rw [equals, Bool.and_eq_true, beq_iff_eq, and_congr_right_iff]
  intro _
  cases i.carried? <;> cases j.carried? <;> simp

lemma equals_self_iff (i : Instruction) : i.equals i = true ↔ i.carried? ≠ some .nan := by
  rw [equals_iff, and_iff_right rfl]
  cases i.carried? with
  | none => exact iff_of_true .none nofun
  | some x => rw [Option.rel_some_some, Binary64.equals_self_iff, ne_eq, ne_eq, Option.some_inj]

lemma equals_symm (h : i.equals j = true) : j.equals i = true := by
  obtain ⟨hop, hcarried⟩ := equals_iff.1 h
  refine equals_iff.2 ⟨hop.symm, ?_⟩
  generalize i.carried? = a, j.carried? = b at hcarried ⊢
  cases hcarried with
  | none => exact .none
  | some hxy => exact .some (Binary64.equals_comm _ _ ▸ hxy)

lemma equals_trans (hij : i.equals j = true) (hjk : j.equals k = true) : i.equals k = true := by
  obtain ⟨hop, hcarried⟩ := equals_iff.1 hij
  obtain ⟨hop', hcarried'⟩ := equals_iff.1 hjk
  refine equals_iff.2 ⟨hop.trans hop', ?_⟩
  generalize i.carried? = a, j.carried? = b, k.carried? = c at hcarried hcarried' ⊢
  cases hcarried with
  | none => exact hcarried'
  | some hxy =>
    cases hcarried' with
    | some hyz => exact .some (Binary64.equals_trans hxy hyz)

lemma hash_eq_of_equals (hashing : Hashing) (h : i.equals j = true) (a b : ℕ) :
    i.hash hashing a = j.hash hashing b := by
  obtain ⟨hop, hcarried⟩ := equals_iff.1 h
  rw [hash, hash, hop]
  generalize i.carried? = x, j.carried? = y at hcarried ⊢
  cases hcarried with
  | none => rfl
  | some hxy => exact congrArg _ (Binary64.hash_eq_of_equals hashing hxy a b)

lemma respectsHash (hashing : Hashing) : RespectsHash (hash hashing) equals where
  symm := equals_symm
  trans := equals_trans
  hash_eq := hash_eq_of_equals hashing

/-- **Equality and the members of a set cohere.** Equality of instructions is symmetric and
transitive, and an instruction is equal to itself exactly if it does not carry what is not a number.
A set of instructions made apart has one member for each class of those that are equal to
themselves, and one for each of the others, in whatever order they are put in and whatever the
hashes rest on. The same holds of numbers, where the two zeros are in one class. -/
theorem equality_coheres (hashing : Hashing) :
    Coheres (hash hashing) equals (fun i => i.carried? = some .nan) ∧
      Coheres (Binary64.hash hashing) Binary64.equals (fun x => x = .nan) ∧
      ∀ x, Binary64.equals (.finite true .zero) x = Binary64.equals (.finite false .zero) x :=
  ⟨(respectsHash hashing).coheres equals_self_iff,
    (Binary64.respectsHash hashing).coheres Binary64.equals_self_iff,
    fun x => by cases x <;> simp [Binary64.equals, Magnitude.signed]⟩

/-- All hashes agree here: two zeros, an addition twice, and two instructions that carry what is not
a number. -/
theorem equality_coheres_colliding :
    let hashing : Hashing := ⟨fun _ => 0, 0, fun _ _ => 0, fun _ => 0⟩
    let objects : List (Object Instruction) :=
      [⟨0, .ofToken "0"⟩, ⟨1, .ofToken "nan"⟩, ⟨2, .ofToken "+"⟩, ⟨3, .ofToken "-0"⟩,
        ⟨4, .make (.word .add) (some .nan)⟩, ⟨5, .make (.word .add) none⟩]
    let is := objects.map Object.value
    (objects.map Object.identity).Nodup ∧
      (Object.members (hash hashing) equals objects).length = 4 ∧
      (classes equals (is.filter fun i => ¬i.carried? = some .nan)).ncard = 2 := by
  intro hashing objects is
  have hnodup : (objects.map Object.identity).Nodup := by decide
  have hmembers : (Object.members (hash hashing) equals objects).length = 4 := by decide +kernel
  have hcount : is.countP (fun i => i.carried? = some .nan) = 2 := by decide +kernel
  have hlength := (equality_coheres hashing).1.length_members objects hnodup
  rw [hmembers, hcount] at hlength
  exact ⟨hnodup, hmembers, Nat.add_right_cancel hlength.symm⟩

end Instruction

end StackLine
