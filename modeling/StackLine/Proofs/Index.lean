import Mathlib.Data.EReal.Basic
import StackLine.Proofs.Exact
import StackLine.Proofs.Perform

/-!
Where a jump lands.

The index of a number is its exact value without the fraction, kept between `0` and the largest
index. One fact carries all the rest: a position `n` from `1` up to the largest index is reached
exactly by the numbers that are at least `n`.
-/

namespace StackLine

/-- A rational without its fraction. -/
def wholePart (q : ℚ) : ℤ := if 0 ≤ q then ⌊q⌋ else ⌈q⌉

lemma wholePart_of_nonneg {q : ℚ} (h : 0 ≤ q) : wholePart q = ⌊q⌋₊ := by
  rw [wholePart, if_pos h, Int.natCast_floor_eq_floor h]

lemma wholePart_nonpos {q : ℚ} (h : q ≤ 0) : wholePart q ≤ 0 := by
  unfold wholePart
  split
  case isTrue hq => rw [le_antisymm h hq, Int.floor_zero]
  case isFalse => exact Int.ceil_le.2 (by simpa using h)

namespace Binary64

/-- The place of a number on the line of the reals with both infinities. What is not a number has
no place there; it is put at zero. -/
noncomputable def toEReal : Binary64 → EReal
  | nan => 0
  | infinite negative => if negative then ⊥ else ⊤
  | finite negative m => (m.signedValue negative : ℝ)

lemma toIndex_finite (negative : Bool) (m : Magnitude) :
    toIndex (.finite negative m) = min maxIndex ⌊max (m.signedValue negative) 0⌋₊ := by
  have h := toIndex_eq_min (.finite negative m)
  rw [position, ← Nat.mono_cast.map_min, Nat.cast_inj] at h
  rw [h, min_comm]

lemma natCast_le_toEReal_finite {n : ℕ} {negative : Bool} {m : Magnitude} :
    (n : EReal) ≤ toEReal (.finite negative m) ↔ (n : ℚ) ≤ m.signedValue negative := by
  rw [toEReal, ← EReal.coe_natCast, EReal.coe_le_coe_iff]
  exact_mod_cast Iff.rfl

/-- **The numbers that reach a position.** -/
lemma le_toIndex_iff {n : ℕ} (hpos : 0 < n) (hn : n ≤ maxIndex) {x : Binary64} :
    n ≤ x.toIndex ↔ x ≠ .nan ∧ (n : EReal) ≤ x.toEReal := by
  rcases x with _ | negative | ⟨negative, m⟩
  · simp [hpos.ne']
  · cases negative
    · simp [toIndex, toEReal, hn]
    · simp [toIndex, toEReal, hpos.ne', EReal.natCast_ne_bot]
  · have hzero : ¬(n : ℚ) ≤ 0 := by simpa using hpos.ne'
    rw [natCast_le_toEReal_finite, toIndex_finite, le_min_iff, Nat.le_floor_iff (le_max_right _ _),
      le_max_iff]
    simp [hn, hzero]

lemma toIndex_mono {x y : Binary64} (hy : y ≠ .nan) (h : x.toEReal ≤ y.toEReal) :
    x.toIndex ≤ y.toIndex := by
  rcases Nat.eq_zero_or_pos x.toIndex with hx | hx
  · rw [hx]
    exact Nat.zero_le _
  · rw [le_toIndex_iff hx x.toIndex_le]
    exact ⟨hy, ((le_toIndex_iff hx x.toIndex_le).1 le_rfl).2.trans h⟩

lemma toIndex_finite_eq_wholePart (negative : Bool) (m : Magnitude) :
    (toIndex (.finite negative m) : ℤ) =
      max 0 (min (maxIndex : ℤ) (wholePart (m.signedValue negative))) := by
  rw [toIndex_finite]
  rcases le_total 0 (m.signedValue negative) with h | h
  · rw [max_eq_left h, wholePart_of_nonneg h, ← Nat.cast_min]
    exact (max_eq_right (Int.natCast_nonneg _)).symm
  · have hle : min (maxIndex : ℤ) (wholePart (m.signedValue negative)) ≤ 0 :=
      (min_le_right _ _).trans (wholePart_nonpos h)
    rw [max_eq_right h, max_eq_left hle]
    simp

/-- Below the largest index nothing is cut off. -/
lemma exists_toIndex_eq_wholePart {x : Binary64} (hx : x ≠ .nan) (h : x.toIndex < maxIndex) :
    ∃ v : ℚ, max x.toEReal 0 = (v : ℝ) ∧ (x.toIndex : ℤ) = wholePart v := by
  rcases x with _ | negative | ⟨negative, m⟩
  · exact absurd rfl hx
  · cases negative
    · exact absurd h (lt_irrefl _)
    · exact ⟨0, by simp [toEReal], by simp [toIndex, wholePart]⟩
  · refine ⟨max (m.signedValue negative) 0, ?_, ?_⟩
    · rw [toEReal, Rat.cast_max, EReal.coe_strictMono.monotone.map_max]
      simp
    · rw [toIndex_finite] at h ⊢
      rw [wholePart_of_nonneg (le_max_right _ _), min_eq_right (by omega)]

/-- **Where a jump lands.** The index of a number is its exact value without the fraction, kept
within `0` and `2 ^ 63 - 1`; what is not a number has the index `0`. So the index never falls when
the number grows. A jump to `x`, taken in a program of at most `2 ^ 63 - 1` instructions, ends the
run at the next fetch if and only if `x` is a number and not less than the size of the program. If
not, it lands on the instruction whose position is the whole part of `x`, or of zero if `x` is
negative, and on the first one if `x` is not a number. -/
theorem toIndex_exact :
    toIndex .nan = 0 ∧ toIndex (.infinite true) = 0 ∧ toIndex (.infinite false) = 2 ^ 63 - 1 ∧
      (∀ negative m, (toIndex (.finite negative m) : ℤ) =
        max 0 (min (2 ^ 63 - 1) (wholePart (m.signedValue negative)))) ∧
      (∀ x y : Binary64, x ≠ .nan → y ≠ .nan → x.toEReal ≤ y.toEReal → x.toIndex ≤ y.toIndex) ∧
      ∀ (p : Program) (c : Config) (i : Instruction) (x : Binary64), p.size ≤ 2 ^ 63 - 1 →
        p[c.counter]? = some i → c.machine.jump? i = some x →
          ∃ d, p.step? c = some d ∧
            (p.step? d = none ↔ x ≠ .nan ∧ (p.size : EReal) ≤ x.toEReal) ∧
            (p.step? d ≠ none → d.counter < p.size ∧ (x = .nan → d.counter = 0) ∧
              (x ≠ .nan → ∃ v : ℚ, max x.toEReal 0 = (v : ℝ) ∧ (d.counter : ℤ) = wholePart v)) := by
  refine ⟨rfl, rfl, rfl, fun negative m => ?_, fun x y _ hy h => toIndex_mono hy h,
    fun p c i x hsize hfetch hjump => ?_⟩
  · exact toIndex_finite_eq_wholePart negative m
  · have hpos : 0 < p.size := Nat.zero_lt_of_lt (Array.getElem?_eq_some_iff.1 hfetch).1
    have hcounter : (c.after i).counter = x.toIndex := Config.counter_after_of_jump hjump
    have hend : p.step? (c.after i) = none ↔ p.size ≤ x.toIndex := by
      rw [Program.step?_eq_none_iff, Program.hasEnded, decide_eq_true_eq, hcounter]
    refine ⟨c.after i, by rw [Program.step?, hfetch], ?_, fun hinside => ?_⟩
    · rw [hend, le_toIndex_iff hpos hsize]
    · rw [ne_eq, hend, not_le] at hinside
      rw [hcounter]
      refine ⟨hinside, ?_, fun hx => exists_toIndex_eq_wholePart hx (hinside.trans_le hsize)⟩
      rintro rfl
      rfl

/-- A jump to the last instruction by a target just below the size of the program. -/
theorem toIndex_exact_below_size :
    let p := Program.ofLine "1 4.9 jnz 9 print"
    let c := p.run 2 (.start {})
    let i : Instruction := .operator .jump none
    let x := ofText "4.9"
    p.size ≤ 2 ^ 63 - 1 ∧ p[c.counter]? = some i ∧ c.machine.jump? i = some x ∧ x ≠ .nan ∧
      (∃ d, p.step? c = some d ∧ p.step? d ≠ none ∧ d.counter < p.size ∧
        ∃ v : ℚ, max x.toEReal 0 = (v : ℝ) ∧ (d.counter : ℤ) = wholePart v) ∧
      infinite false ≠ .nan ∧ x.toEReal ≤ toEReal (infinite false) ∧
      x.toIndex ≤ (infinite false).toIndex := by
  intro p c i x
  have hsize : p.size ≤ 2 ^ 63 - 1 := by decide
  have hfetch : p[c.counter]? = some i := by decide +kernel
  have hjump : c.machine.jump? i = some x := by decide +kernel
  have hx : x ≠ .nan := by decide +kernel
  have hinside : p.step? (c.after i) ≠ none := by decide +kernel
  obtain ⟨-, -, -, -, hmono, hland⟩ := toIndex_exact
  obtain ⟨d, hd, -, hnext⟩ := hland p c i x hsize hfetch hjump
  obtain rfl : c.after i = d := by
    rw [Program.step?, hfetch] at hd
    exact Option.some.inj hd
  obtain ⟨hcounter, -, hwhole⟩ := hnext hinside
  have hle : x.toEReal ≤ toEReal (infinite false) := le_top
  exact ⟨hsize, hfetch, hjump, hx, ⟨_, hd, hinside, hcounter, hwhole hx⟩, nofun, hle,
    hmono x _ hx nofun hle⟩

end Binary64

end StackLine
