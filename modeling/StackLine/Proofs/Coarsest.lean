import Mathlib.Algebra.Order.Field.Power
import StackLine.Proofs.ReadBack

/-!
The coarsest grid.

Counted in its last decimal place a magnitude is a whole number, and the rationals that round to it
are an interval around that number. If the interval has a point of a grid of powers of ten, it has
one of the two neighbours of the magnitude on that grid. So the search for the shortest decimal
stops at the coarsest grid with a point in the interval, and takes the point nearest to the
magnitude.
-/

namespace StackLine

namespace Magnitude

variable {m : Magnitude} {s t u q : ℚ}

/-! ### Last places -/

/-- The magnitude, counted in its last decimal place. -/
def lastPlaces (m : Magnitude) : ℕ := m.significand * m.grain

/-- So many last places, whole or not, round to the magnitude. -/
def Admits (m : Magnitude) (t : ℚ) : Prop :=
  let low : ℚ := (4 * m.significand - m.halfGapBelow : ℕ) * m.grain
  let high : ℚ := (4 * m.significand + 2) * m.grain
  if m.significand % 2 = 0 then low ≤ 4 * t ∧ 4 * t ≤ high else low < 4 * t ∧ 4 * t < high

lemma grain_pos (m : Magnitude) : 0 < m.grain := by
  unfold grain
  positivity

lemma covers_iff_admits {n : ℕ} : m.covers m.grain n = true ↔ m.Admits n := by
  unfold covers Admits
  dsimp only
  split
  · rw [decide_eq_true_eq]
    exact_mod_cast Iff.rfl
  · rw [decide_eq_true_eq]
    exact_mod_cast Iff.rfl

lemma rounds_iff_admits :
    m.Rounds (q * 2 ^ Binary64.unitExponent) ↔ m.Admits (q * 10 ^ m.places) := by
  have hT : (0 : ℚ) < 10 ^ m.places := by positivity
  have hU : (0 : ℚ) < 2 ^ Binary64.unitExponent := by positivity
  have hgrain : (2 : ℚ) ^ m.shift * 10 ^ m.places = 2 ^ Binary64.unitExponent * m.grain := by
    exact_mod_cast m.two_pow_shift_mul
  have hle : ∀ {x y x' y' : ℚ}, x * 10 ^ m.places = x' * 2 ^ Binary64.unitExponent →
      y * 10 ^ m.places = y' * 2 ^ Binary64.unitExponent → (x ≤ y ↔ x' ≤ y') := by
    intro x y x' y' hx hy
    rw [← mul_le_mul_iff_of_pos_right hT, hx, hy, mul_le_mul_iff_of_pos_right hU]
  have hend : ∀ a : ℚ, a * 2 ^ m.shift * 10 ^ m.places =
      a * m.grain * 2 ^ Binary64.unitExponent := fun a => by
    rw [mul_assoc, hgrain, mul_assoc, mul_comm (m.grain : ℚ)]
  have hpoint : 4 * (q * 2 ^ Binary64.unitExponent) * 10 ^ m.places =
      4 * (q * 10 ^ m.places) * 2 ^ Binary64.unitExponent := by ring
  unfold Rounds Admits
  dsimp only
  split
  · exact and_congr (hle (hend _) hpoint) (hle hpoint (hend _))
  · rw [← not_le, ← not_le, ← not_le, ← not_le]
    exact and_congr (not_congr (hle hpoint (hend _))) (not_congr (hle (hend _) hpoint))

lemma Admits.between (hs : m.Admits s) (hu : m.Admits u) (hst : s ≤ t) (htu : t ≤ u) :
    m.Admits t := by
  unfold Admits at *
  dsimp only at *
  split at hs
  case isTrue heven =>
    rw [if_pos heven] at hu ⊢
    exact ⟨by linarith, by linarith⟩
  case isFalse hodd =>
    rw [if_neg hodd] at hu ⊢
    exact ⟨by linarith, by linarith⟩

/-- Both ends of the interval belong to it at most. -/
lemma Admits.bounds (h : m.Admits t) :
    (4 * m.significand - 2) * m.grain ≤ 4 * t ∧ 4 * t ≤ (4 * m.significand + 2) * m.grain := by
  have hgap : (4 * (m.significand : ℚ) - 2) ≤ (4 * m.significand - m.halfGapBelow : ℕ) := by
    have := m.halfGapBelow_le
    rw [sub_le_iff_le_add]
    exact_mod_cast (show 4 * m.significand ≤ 4 * m.significand - m.halfGapBelow + 2 by omega)
  have hlow := mul_le_mul_of_nonneg_right hgap (Nat.cast_nonneg m.grain)
  unfold Admits at h
  dsimp only at h
  split at h
  · exact ⟨hlow.trans h.1, h.2⟩
  · exact ⟨hlow.trans h.1.le, h.2.le⟩

lemma Admits.pos (h : m.Admits t) (hm : m.significand ≠ 0) : 0 < t := by
  have hone : (1 : ℚ) ≤ m.significand := Nat.one_le_cast.2 (Nat.pos_of_ne_zero hm)
  have hgrain : (0 : ℚ) < m.grain := Nat.cast_pos.2 m.grain_pos
  have := h.bounds.1
  nlinarith

lemma admits_self (m : Magnitude) : m.Admits m.lastPlaces := covers_iff_admits.1 m.covers_self

/-! ### One grid -/

/-- No point of a grid is nearer than the rounded one. -/
lemma abs_roundHalfEven_sub_le (num : ℕ) {den : ℕ} (hden : 0 < den) (c : ℕ) :
    |((roundHalfEven num den * den : ℕ) : ℚ) - num| ≤ |((c * den : ℕ) : ℚ) - num| := by
  obtain ⟨hlow, hhigh, -⟩ := roundHalfEven_bounds num hden
  have hlow' : (2 : ℚ) * (roundHalfEven num den * den : ℕ) ≤ 2 * num + den := by
    exact_mod_cast hlow
  have hhigh' : (2 : ℚ) * num ≤ 2 * (roundHalfEven num den * den : ℕ) + den := by
    exact_mod_cast hhigh
  have hstep : ∀ {i j : ℕ}, i < j → ((i * den : ℕ) : ℚ) + den ≤ (j * den : ℕ) := fun {i j} h => by
    have := Nat.mul_le_mul_right den (Nat.succ_le_of_lt h)
    rw [Nat.succ_mul] at this
    exact_mod_cast this
  rcases lt_trichotomy c (roundHalfEven num den) with h | rfl | h
  · have := hstep h
    rw [abs_sub_comm ((c * den : ℕ) : ℚ)]
    exact (abs_le.2 ⟨by linarith, by linarith⟩).trans (le_abs_self _)
  · exact le_rfl
  · have := hstep h
    exact (abs_le.2 ⟨by linarith, by linarith⟩).trans (le_abs_self _)

/-- What lies between the magnitude and a number that rounds to it rounds to it too, and is as
near. -/
lemma Admits.toward (hu : m.Admits u) (h : m.lastPlaces ≤ t ∧ t ≤ u ∨ u ≤ t ∧ t ≤ m.lastPlaces) :
    m.Admits t ∧ |t - m.lastPlaces| ≤ |u - m.lastPlaces| := by
  rcases h with ⟨hle, htu⟩ | ⟨hut, hle⟩
  · refine ⟨m.admits_self.between hu hle htu, ?_⟩
    rw [abs_of_nonneg (sub_nonneg.2 hle), abs_of_nonneg (sub_nonneg.2 (hle.trans htu))]
    linarith
  · refine ⟨hu.between m.admits_self hut hle, ?_⟩
    rw [abs_of_nonpos (sub_nonpos.2 hle), abs_of_nonpos (sub_nonpos.2 (hut.trans hle))]
    linarith

lemma onGrid?_eq (m : Magnitude) (step : ℕ) :
    m.onGrid? m.grain step =
      let below := m.lastPlaces / step
      let nearest := roundHalfEven m.lastPlaces step
      let other := if nearest = below then below + 1 else below
      if m.covers m.grain (nearest * step) then some nearest
      else if m.covers m.grain (other * step) then some other
      else none := rfl

/-- If the interval has a point of the grid, the search on the grid takes a point, and none is
nearer. -/
lemma exists_onGrid? {step c : ℕ} (hstep : 0 < step) (hc : m.Admits (c * step : ℕ)) :
    ∃ n, m.onGrid? m.grain step = some n ∧
      |((n * step : ℕ) : ℚ) - m.lastPlaces| ≤ |((c * step : ℕ) : ℚ) - m.lastPlaces| := by
  have hnearest := abs_roundHalfEven_sub_le m.lastPlaces hstep c
  have hbelow := le_roundHalfEven m.lastPlaces step
  have habove := roundHalfEven_le m.lastPlaces step
  -- the magnitude lies between its two neighbours
  have hfloor : m.lastPlaces / step * step ≤ m.lastPlaces := Nat.div_mul_le_self _ _
  have hceil : m.lastPlaces ≤ (m.lastPlaces / step + 1) * step :=
    (Nat.lt_mul_of_div_lt (Nat.lt_succ_self _) hstep).le
  rw [onGrid?_eq]
  dsimp only
  generalize roundHalfEven m.lastPlaces step = r at *
  generalize m.lastPlaces / step = b at *
  by_cases hr : m.covers m.grain (r * step) = true
  · exact ⟨r, if_pos hr, hnearest⟩
  rw [if_neg hr]
  rw [covers_iff_admits] at hr
  have hmono : ∀ {i j : ℕ}, i ≤ j → ((i * step : ℕ) : ℚ) ≤ (j * step : ℕ) := fun h =>
    Nat.cast_le.2 (Nat.mul_le_mul_right step h)
  rw [← Nat.cast_le (α := ℚ)] at hfloor hceil
  obtain ⟨other, hother, hadmits, hnear⟩ : ∃ other, (if r = b then b + 1 else b) = other ∧
      m.Admits (other * step : ℕ) ∧
        |((other * step : ℕ) : ℚ) - m.lastPlaces| ≤ |((c * step : ℕ) : ℚ) - m.lastPlaces| := by
    rcases hbelow.eq_or_lt with rfl | hlt
    · rcases le_or_gt c b with hcb | hbc
      · exact absurd (hc.toward (.inr ⟨hmono hcb, hfloor⟩)).1 hr
      · exact ⟨b + 1, if_pos rfl, hc.toward (.inl ⟨hceil, hmono hbc⟩)⟩
    · obtain rfl : r = b + 1 := le_antisymm habove hlt
      rcases le_or_gt c b with hcb | hbc
      · exact ⟨b, if_neg (by omega), hc.toward (.inr ⟨hmono hcb, hfloor⟩)⟩
      · exact absurd (hc.toward (.inl ⟨hceil, hmono hbc⟩)).1 hr
  rw [hother, if_pos (covers_iff_admits.2 hadmits)]
  exact ⟨other, rfl, hnear⟩

/-! ### The search -/

/-- The point `c` on the grid of the `k`-th power of ten rounds to the magnitude; none of that grid
that does is nearer, and on coarser grids there is none. -/
structure IsCoarsest (m : Magnitude) (c k : ℕ) : Prop where
  admits : m.Admits (c * 10 ^ k : ℕ)
  nearest : ∀ n, m.Admits (n * 10 ^ k : ℕ) →
    |((c * 10 ^ k : ℕ) : ℚ) - m.lastPlaces| ≤ |((n * 10 ^ k : ℕ) : ℚ) - m.lastPlaces|
  none_above : ∀ j n, k < j → ¬m.Admits (n * 10 ^ j : ℕ)

/-- The search from some power of ten downwards, above which there is nothing to be found. -/
lemma exists_coarsest (k : ℕ) (habove : ∀ j n, k < j → ¬m.Admits (n * 10 ^ j : ℕ)) :
    ∃ c j : ℕ, m.coarsest m.grain k = ⟨c, (j : ℤ) - m.places⟩ ∧ m.IsCoarsest c j := by
  induction k with
  | zero =>
    refine ⟨m.lastPlaces, 0, ?_, ?_, ?_, habove⟩
    · rw [coarsest, exactDecimal, Nat.cast_zero, zero_sub]
      rfl
    · rw [pow_zero, mul_one]
      exact m.admits_self
    · intro n _
      rw [pow_zero, mul_one, sub_self, abs_zero]
      exact abs_nonneg _
  | succ k ih =>
    rw [coarsest]
    rcases hgrid : m.onGrid? m.grain (10 ^ (k + 1)) with _ | c
    · refine ih fun j n hj hn => ?_
      rcases (Nat.succ_le_of_lt hj).eq_or_lt with rfl | hlt
      · obtain ⟨_, hsome, -⟩ := exists_onGrid? (by positivity) hn
        rw [hgrid] at hsome
        cases hsome
      · exact habove j n hlt hn
    · refine ⟨c, k + 1, rfl, covers_iff_admits.1 (covers_of_onGrid? hgrid), fun n hn => ?_, habove⟩
      obtain ⟨c', hsome, hnear⟩ := exists_onGrid? (by positivity) hn
      rw [hgrid] at hsome
      cases hsome
      exact hnear

lemma lt_ten_pow_powerAbove (n : ℕ) : n < 10 ^ powerAbove n := by
  have hexp : (n.log2 + 1) * 28 < 93 * powerAbove n := by
    unfold powerAbove
    omega
  have hpow : (2 ^ (n.log2 + 1)) ^ 28 < (10 ^ powerAbove n) ^ 28 :=
    calc (2 ^ (n.log2 + 1)) ^ 28 = 2 ^ ((n.log2 + 1) * 28) := (pow_mul _ _ _).symm
      _ < 2 ^ (93 * powerAbove n) := Nat.pow_lt_pow_right one_lt_two hexp
      _ = (2 ^ 93) ^ powerAbove n := pow_mul _ _ _
      _ ≤ (10 ^ 28) ^ powerAbove n := Nat.pow_le_pow_left (by decide) _
      _ = (10 ^ powerAbove n) ^ 28 := by rw [← pow_mul, ← pow_mul, mul_comm]
  exact Nat.lt_log2_self.trans (lt_of_pow_lt_pow_left₀ 28 (Nat.zero_le _) hpow)

/-- The search starts above all that rounds to the magnitude. -/
theorem exists_isCoarsest (hm : m.significand ≠ 0) :
    ∃ c k : ℕ, m.shortest = ⟨c, (k : ℤ) - m.places⟩ ∧ m.IsCoarsest c k := by
  unfold shortest
  rw [if_neg hm]
  refine exists_coarsest _ fun j n hj hn => ?_
  have hfew : (m.lastPlaces : ℚ) < 10 ^ powerAbove m.lastPlaces := by
    exact_mod_cast lt_ten_pow_powerAbove m.lastPlaces
  have hmany : (10 : ℚ) * 10 ^ powerAbove m.lastPlaces ≤ 10 ^ j := by
    rw [← pow_succ']
    exact pow_le_pow_right₀ (by norm_num) hj
  have hpos := hn.pos hm
  have hone : (1 : ℚ) ≤ n := by
    refine Nat.one_le_cast.2 (Nat.pos_of_ne_zero ?_)
    rintro rfl
    simp at hpos
  have hpoint : (10 : ℚ) ^ j ≤ (n * 10 ^ j : ℕ) := by
    push_cast
    exact le_mul_of_one_le_left (by positivity) hone
  have hsig : (1 : ℚ) ≤ m.significand := Nat.one_le_cast.2 (Nat.pos_of_ne_zero hm)
  have hgrain : (0 : ℚ) < m.grain := Nat.cast_pos.2 m.grain_pos
  have hlast : (m.lastPlaces : ℚ) = m.significand * m.grain := Nat.cast_mul _ _
  have hhigh := hn.bounds.2
  nlinarith

/-! ### Other decimals -/

/-- A grain of the least magnitudes between powers of ten. -/
lemma five_pow_bounds : 10 ^ 750 ≤ 5 ^ 1074 ∧ 2 * 5 ^ 1074 < 10 ^ 751 ∧
    19 * 10 ^ 751 ≤ 40 * 5 ^ 1074 := by
  decide +kernel

/-- Suppose that a power of ten and a number that is a tenth less or lesser still round to the
magnitude, which is less than the power. Then the magnitude is twice the least one, and the power
is nearer to it. -/
lemma add_le_of_admits_ten_pow {k : ℕ} (hm : m.significand ≠ 0) (hk : m.Admits (10 ^ k : ℕ))
    (ht : m.Admits t) (hle : 10 * t ≤ 9 * (10 ^ k : ℕ)) (hlt : m.lastPlaces < 10 ^ k) :
    ((10 ^ k : ℕ) : ℚ) + t ≤ 2 * m.lastPlaces := by
  obtain ⟨hlow, hmid, hhigh⟩ := five_pow_bounds
  have hupper := hk.bounds.2
  have hlower := ht.bounds.1
  have hlast : (m.lastPlaces : ℚ) = m.significand * m.grain := Nat.cast_mul _ _
  have hone : 1 * m.grain ≤ m.lastPlaces := Nat.mul_le_mul_right _ (Nat.pos_of_ne_zero hm)
  have hwide : (10 ^ k : ℕ) ≤ 10 * m.grain := by
    have : ((10 ^ k : ℕ) : ℚ) ≤ 10 * m.grain := by linarith
    exact_mod_cast this
  have hsmall : m.significand < 10 :=
    Nat.lt_of_mul_lt_mul_right (hlt.trans_le hwide)
  have hgrain : m.grain = 5 ^ 1074 := by
    have hshift : m.shift = 0 := by
      have := m.canonical.2.2
      omega
    rw [grain, places, hshift, Nat.sub_zero, Nat.zero_sub, pow_zero, mul_one]
  rw [hgrain] at hone hwide hupper
  have hten : ∀ {i j : ℕ}, i ≤ j → 10 ^ i ≤ 10 ^ j := fun h => Nat.pow_le_pow_right (by decide) h
  obtain rfl : k = 751 := by
    refine le_antisymm ?_ ?_
    · by_contra hgt
      have := hten (not_le.1 hgt)
      omega
    · by_contra hgt
      have := hten (Nat.le_of_lt_succ (not_le.1 hgt))
      omega
  -- from here on the two powers are numbers like any other
  clear hlow
  rw [hlast, hgrain]
  generalize 10 ^ 751 = T, 5 ^ 1074 = G at *
  have hmid' : (2 : ℚ) * G < T := by exact_mod_cast hmid
  have hhigh' : (19 : ℚ) * T ≤ 40 * G := by exact_mod_cast hhigh
  have hG : (0 : ℚ) ≤ G := Nat.cast_nonneg G
  have htwo : 2 ≤ m.significand := by
    by_contra hless
    have hsig : (m.significand : ℚ) ≤ 1 := by exact_mod_cast Nat.le_of_lt_succ (not_le.1 hless)
    have hsmall := mul_le_mul_of_nonneg_right hsig hG
    linarith
  have hsig : (2 : ℚ) * G ≤ m.significand * G :=
    mul_le_mul_of_nonneg_right (by exact_mod_cast htwo) hG
  linarith

namespace IsCoarsest

variable {c k n d : ℕ} {e : ℤ}

/-- A decimal that rounds to the magnitude stands on no coarser grid. -/
lemma exponent_le (h : m.IsCoarsest c k) (hn : m.Admits (n * 10 ^ e)) : e ≤ k := by
  by_contra hlt
  obtain ⟨j, rfl⟩ := Int.eq_ofNat_of_zero_le (show 0 ≤ e by omega)
  refine h.none_above j n (by omega) ?_
  rw [zpow_natCast] at hn
  exact_mod_cast hn

/-- Between a decimal of fewer digits and the point of the coarsest grid stands a power of ten,
which is a point of a coarser grid. -/
lemma admits_ten_pow (h : m.IsCoarsest c k) (hn : m.Admits (n * 10 ^ e))
    (hle : (n : ℚ) * 10 ^ e ≤ 10 ^ d * 10 ^ k) (hc : 10 ^ d ≤ c) : m.Admits (10 ^ (d + k) : ℕ) := by
  refine hn.between h.admits ?_ ?_
  · rw [pow_add]
    exact_mod_cast hle
  · rw [pow_add]
    exact_mod_cast Nat.mul_le_mul_right _ hc

lemma eq_zero_of_admits_ten_pow (h : m.IsCoarsest c k) (hten : m.Admits (10 ^ (d + k) : ℕ)) :
    d = 0 := by
  by_contra hd
  refine h.none_above (d + k) 1 (by omega) ?_
  rwa [one_mul]

/-- **The fewest digits.** No decimal of fewer digits rounds to the magnitude. -/
theorem lt_ten_pow (h : m.IsCoarsest c k) (hm : m.significand ≠ 0) (hn : m.Admits (n * 10 ^ e))
    (hd : n < 10 ^ d) : c < 10 ^ d := by
  by_contra hc
  have hexp : (10 : ℚ) ^ e ≤ 10 ^ k := by
    rw [← zpow_natCast]
    exact zpow_le_zpow_right₀ (by norm_num) (h.exponent_le hn)
  have hdigits : (n : ℚ) ≤ 10 ^ d := by exact_mod_cast hd.le
  have hle : (n : ℚ) * 10 ^ e ≤ 10 ^ d * 10 ^ k :=
    mul_le_mul hdigits hexp (by positivity) (by positivity)
  obtain rfl := h.eq_zero_of_admits_ten_pow (h.admits_ten_pow hn hle (not_lt.1 hc))
  have hpos := hn.pos hm
  rw [pow_zero, Nat.lt_one_iff] at hd
  rw [hd, Nat.cast_zero, zero_mul] at hpos
  exact lt_irrefl _ hpos

/-- **The nearest of them.** No decimal of as many digits that rounds to the magnitude is nearer. -/
theorem abs_sub_le (h : m.IsCoarsest c k) (hm : m.significand ≠ 0) (hn : m.Admits (n * 10 ^ e))
    (hd : n < 10 ^ d) (hc : 10 ^ d ≤ 10 * c) :
    |((c * 10 ^ k : ℕ) : ℚ) - m.lastPlaces| ≤ |(n : ℚ) * 10 ^ e - m.lastPlaces| := by
  rcases (h.exponent_le hn).eq_or_lt with rfl | hlt
  · rw [zpow_natCast] at hn ⊢
    have hnear := h.nearest n (by exact_mod_cast hn)
    push_cast at hnear ⊢
    exact hnear
  have hexp : (10 : ℚ) * 10 ^ e ≤ 10 ^ k := by
    rw [← zpow_natCast, mul_comm, ← zpow_add_one₀ (by norm_num)]
    exact zpow_le_zpow_right₀ (by norm_num) hlt
  -- on a finer grid a decimal of so many digits is below a power of ten, and so has one digit
  obtain ⟨d, rfl⟩ : ∃ d', d = d' + 1 := by
    refine Nat.exists_eq_succ_of_ne_zero ?_
    rintro rfl
    exact absurd (h.lt_ten_pow hm hn hd) (by omega)
  have hdigits : (n : ℚ) ≤ 10 * 10 ^ d := by
    rw [← pow_succ']
    exact_mod_cast hd.le
  have hle : (n : ℚ) * 10 ^ e ≤ 10 ^ d * 10 ^ k := by
    have h1 := mul_le_mul_of_nonneg_right hdigits (show (0 : ℚ) ≤ 10 ^ e by positivity)
    have h2 := mul_le_mul_of_nonneg_left hexp (show (0 : ℚ) ≤ 10 ^ d by positivity)
    linarith
  have hten := h.admits_ten_pow hn hle (by rw [pow_succ] at hc; omega)
  obtain rfl := h.eq_zero_of_admits_ten_pow hten
  rw [zero_add] at hten
  have hpower := h.nearest 1 (by rwa [one_mul])
  rw [one_mul] at hpower
  refine hpower.trans ?_
  rcases le_or_gt (10 ^ k) m.lastPlaces with hk | hk
  · refine (hn.toward (.inr ⟨?_, Nat.cast_le.2 hk⟩)).2
    rw [pow_zero, one_mul] at hle
    exact_mod_cast hle
  · have hnine : (n : ℚ) ≤ 9 := by
      rw [zero_add, pow_one] at hd
      exact_mod_cast Nat.le_of_lt_succ hd
    have htenth : 10 * ((n : ℚ) * 10 ^ e) ≤ 9 * (10 ^ k : ℕ) := by
      have h1 := mul_le_mul_of_nonneg_right hnine (show (0 : ℚ) ≤ 10 * 10 ^ e by positivity)
      push_cast
      linarith
    have hsum := add_le_of_admits_ten_pow hm hten hn htenth hk
    have hk' : (m.lastPlaces : ℚ) < (10 ^ k : ℕ) := Nat.cast_lt.2 hk
    rw [abs_of_pos (sub_pos.2 hk'), abs_sub_comm]
    exact le_trans (by linarith) (le_abs_self _)

end IsCoarsest

/-! ### The shortest decimal -/

section

variable {n k : ℕ} {e : ℤ}

lemma lastPlaces_eq (m : Magnitude) : (m.lastPlaces : ℚ) = m.value * 10 ^ m.places := by
  have hunits : m.lastPlaces * 2 ^ Binary64.unitExponent = m.units * 10 ^ m.places := by
    rw [lastPlaces, mul_assoc, mul_comm m.grain, ← two_pow_shift_mul, ← mul_assoc, units]
  rw [value, div_mul_eq_mul_div, eq_div_iff (by positivity)]
  exact_mod_cast hunits

lemma rounds_decimal_iff :
    m.Rounds (n * 10 ^ e * 2 ^ Binary64.unitExponent) ↔ m.Admits (n * 10 ^ (e + m.places)) := by
  rw [rounds_iff_admits, zpow_add₀ (by norm_num), zpow_natCast, mul_assoc]

lemma shortest_coefficient_ne_zero (hm : m.significand ≠ 0) : m.shortest.coefficient ≠ 0 := by
  obtain ⟨c, k, hshortest, hc⟩ := exists_isCoarsest hm
  rw [hshortest]
  rintro rfl
  have hpos := hc.admits.pos hm
  simp at hpos

/-- **The fewest digits.** No decimal of fewer digits rounds to the magnitude. -/
theorem shortest_lt_ten_pow (h : m.Rounds (n * 10 ^ e * 2 ^ Binary64.unitExponent))
    (hn : n < 10 ^ k) : m.shortest.coefficient < 10 ^ k := by
  by_cases hm : m.significand = 0
  · rw [shortest, if_pos hm]
    positivity
  · obtain ⟨c, j, hshortest, hc⟩ := exists_isCoarsest hm
    rw [hshortest]
    exact hc.lt_ten_pow hm (rounds_decimal_iff.1 h) hn

/-- **The nearest.** No decimal of as many digits that rounds to the magnitude is nearer. -/
theorem abs_shortest_sub_le (h : m.Rounds (n * 10 ^ e * 2 ^ Binary64.unitExponent))
    (hn : n < 10 ^ k) (hk : 10 ^ k ≤ 10 * m.shortest.coefficient) :
    |m.shortest.value - m.value| ≤ |(n : ℚ) * 10 ^ e - m.value| := by
  have hm : m.significand ≠ 0 := fun hm => by
    rw [shortest, if_pos hm] at hk
    exact absurd hk (not_le.2 (by positivity))
  obtain ⟨c, j, hshortest, hc⟩ := exists_isCoarsest hm
  have hT : (0 : ℚ) < 10 ^ m.places := by positivity
  have hscale : ∀ (x : ℕ) (i : ℤ), |(x : ℚ) * 10 ^ i - m.value| * 10 ^ m.places =
      |(x : ℚ) * 10 ^ (i + m.places) - m.lastPlaces| := fun x i => by
    rw [lastPlaces_eq, zpow_add₀ (by norm_num), zpow_natCast, ← mul_assoc, ← sub_mul, abs_mul,
      abs_of_pos hT]
  rw [hshortest] at hk ⊢
  have hnear := hc.abs_sub_le hm (rounds_decimal_iff.1 h) hn hk
  rw [← hscale] at hnear
  refine le_of_mul_le_mul_right ?_ hT
  rw [Decimal.value, hscale, sub_add_cancel, zpow_natCast]
  exact_mod_cast hnear

end

end Magnitude

end StackLine
