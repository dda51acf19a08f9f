import Mathlib

/-!
# Sixteen-bit arithmetic and its exact reading

`Int16` wraps. `Fits n` says that the exact result `n` is representable, and the
`toInt_*` lemmas read a wrapped operation as the exact one when its result fits.

* `truncQ`, `ofQ`: a rational truncated toward zero, and its low sixteen bits.
* `clamp`: the two comparisons that limit a value to an interval, with its exact
  reading `toInt_clamp` as `max lo (min hi x)`.
-/

namespace FixedWidth

/-- `n` is the value of a signed sixteen-bit integer. -/
def Fits (n : ℤ) : Prop := -2 ^ 15 ≤ n ∧ n < 2 ^ 15

instance (n : ℤ) : Decidable (Fits n) := by unfold Fits; infer_instance

theorem bmod_of_fits {n : ℤ} (h : Fits n) : n.bmod (2 ^ 16) = n := by
  unfold Fits at h
  exact Int.bmod_eq_of_le (by omega) (by omega)

theorem toInt_ofInt {n : ℤ} (h : Fits n) : (Int16.ofInt n).toInt = n :=
  Int16.toInt_ofInt_of_le h.1 h.2

theorem toInt_sub {a b : Int16} (h : Fits (a.toInt - b.toInt)) : (a - b).toInt = a.toInt - b.toInt := by
  rw [Int16.toInt_sub, bmod_of_fits h]

theorem toInt_add {a b : Int16} (h : Fits (a.toInt + b.toInt)) : (a + b).toInt = a.toInt + b.toInt := by
  rw [Int16.toInt_add, bmod_of_fits h]

theorem toInt_mul {a b : Int16} (h : Fits (a.toInt * b.toInt)) : (a * b).toInt = a.toInt * b.toInt := by
  rw [Int16.toInt_mul, bmod_of_fits h]

theorem toInt_neg {a : Int16} (h : Fits (-a.toInt)) : (-a).toInt = -a.toInt := by
  rw [Int16.toInt_neg, bmod_of_fits h]

theorem toInt_mul_neg_one {a : Int16} (h : Fits (-a.toInt)) : (a * -1).toInt = -a.toInt := by
  rw [Int16.toInt_mul, show (-1 : Int16).toInt = -1 by decide, mul_neg_one, bmod_of_fits h]

theorem toInt_neg_one_mul {a : Int16} (h : Fits (-a.toInt)) : (-1 * a).toInt = -a.toInt := by
  rw [Int16.mul_comm, toInt_mul_neg_one h]

/-- A wrapped sum is the exact one modulo 2^16. -/
theorem toInt_add_modEq (a b : Int16) : (a + b).toInt ≡ a.toInt + b.toInt [ZMOD 2 ^ 16] := by
  rw [Int16.toInt_add]
  exact Int.bmod_emod

/-- Steps of `e > 0` from below a bound `b` meet the `e` values from `b` on. -/
theorem atteint {s e b : ℤ} (he : 0 < e) (hs : s < b) : ∃ n : ℕ, b ≤ s + (n + 1 : ℕ) * e ∧ s + (n + 1 : ℕ) * e < b + e := by
  obtain ⟨n, hn⟩ := Int.eq_ofNat_of_zero_le (Int.ediv_nonneg (show 0 ≤ b - s - 1 by omega) he.le)
  have hdiv := Int.mul_ediv_add_emod (b - s - 1) e
  have hmod := Int.emod_nonneg (b - s - 1) he.ne'
  have hmod' := Int.emod_lt_of_pos (b - s - 1) he
  rw [hn] at hdiv
  refine ⟨n, ?_, ?_⟩ <;> push_cast <;> linarith [mul_comm e (n : ℤ)]

/-- **Equal steps visit every wide window.** A sum that grows by `e ≠ 0` at each step, kept modulo
`2 ^ 16` in the signed range, enters every window of the range at least as wide as `|e|`. -/
theorem visite (s : ℤ) {e a : ℤ} {w : ℕ} (he : e ≠ 0) (hw : |e| ≤ w) (hlo : -2 ^ 15 ≤ a) (hhi : a + w ≤ 2 ^ 15) :
    ∃ n : ℕ, a ≤ (s + (n + 1 : ℕ) * e).bmod (2 ^ 16) ∧ (s + (n + 1 : ℕ) * e).bmod (2 ^ 16) < a + w := by
  -- some multiple of the modulus away, the window lies ahead
  obtain ⟨n, k, h1, h2⟩ : ∃ (n : ℕ) (k : ℤ), a ≤ s + (n + 1 : ℕ) * e + k * (2 ^ 16 : ℕ) ∧
      s + (n + 1 : ℕ) * e + k * (2 ^ 16 : ℕ) < a + w := by
    rw [abs_le] at hw
    rcases lt_or_gt_of_ne he with hneg | hpos
    · obtain ⟨n, h1, h2⟩ := atteint (s := -s) (e := -e) (b := -(a + w - 1) + (s.natAbs + a.natAbs + w) * 2 ^ 16)
        (by omega) (by omega)
      refine ⟨n, s.natAbs + a.natAbs + w, ?_, ?_⟩ <;> push_cast at * <;> linarith
    · obtain ⟨n, h1, h2⟩ := atteint (s := s) (e := e) (b := a + (s.natAbs + a.natAbs + 1) * 2 ^ 16) hpos (by omega)
      refine ⟨n, -(s.natAbs + a.natAbs + 1), ?_, ?_⟩ <;> push_cast at * <;> linarith
  have hfit : Fits (s + (n + 1 : ℕ) * e + k * (2 ^ 16 : ℕ)) := ⟨hlo.trans h1, h2.trans_le hhi⟩
  have hmod : (s + (n + 1 : ℕ) * e).bmod (2 ^ 16) = s + (n + 1 : ℕ) * e + k * (2 ^ 16 : ℕ) := by
    rw [← Int.add_mul_bmod_self_right _ k, bmod_of_fits hfit]
  refine ⟨n, ?_⟩
  rw [hmod]
  exact ⟨h1, h2⟩

/-- A rational truncated toward zero. -/
def truncQ (q : ℚ) : ℤ := q.num.tdiv q.den

@[simp] theorem truncQ_intCast (n : ℤ) : truncQ n = n := by simp [truncQ]

/-- Truncation keeps every integer bound from below. -/
theorem le_truncQ {n : ℤ} {q : ℚ} (h : n ≤ q) : n ≤ truncQ q := by
  have hpos : 0 < (q.den : ℤ) := Int.natCast_pos.2 q.den_pos
  have hmul : n * q.den ≤ q.num := by
    rw [← Rat.num_div_den q, le_div_iff₀ (by exact_mod_cast hpos)] at h
    exact_mod_cast h
  have hdiv := Int.tdiv_mul_add_tmod q.num q.den
  have hmod := Int.tmod_lt_of_pos q.num hpos
  refine Int.le_of_lt_add_one (lt_of_mul_lt_mul_right ?_ hpos.le)
  calc n * q.den ≤ q.num := hmul
    _ < (truncQ q + 1) * q.den := by rw [add_mul, one_mul, truncQ]; omega

theorem truncQ_neg (q : ℚ) : truncQ (-q) = -truncQ q := by
  unfold truncQ
  rw [Rat.num_neg_eq_neg_num, Rat.den_neg_eq_den, Int.neg_tdiv]

theorem truncQ_le {n : ℤ} {q : ℚ} (h : q ≤ n) : truncQ q ≤ n := by
  have hneg : ((-n : ℤ) : ℚ) ≤ -q := by
    push_cast
    exact neg_le_neg h
  have := le_truncQ hneg
  rw [truncQ_neg] at this
  omega

/-- A rational between the ends of the range converts without loss. -/
theorem fits_truncQ {q : ℚ} (hlo : -2 ^ 15 ≤ q) (hhi : q ≤ 2 ^ 15 - 1) : Fits (truncQ q) := by
  have h1 : -2 ^ 15 ≤ truncQ q := le_truncQ (by exact_mod_cast hlo)
  have h2 : truncQ q ≤ 2 ^ 15 - 1 := truncQ_le (by exact_mod_cast hhi)
  exact ⟨h1, by omega⟩

/-- The low sixteen bits of a truncated rational. -/
def ofQ (q : ℚ) : Int16 := Int16.ofInt (truncQ q)

theorem toInt_ofQ {q : ℚ} (h : Fits (truncQ q)) : (ofQ q).toInt = truncQ q := toInt_ofInt h

/-- Limit `x` to `[lo, hi]`, the lower bound first. -/
def clamp (lo hi x : Int16) : Int16 := if x < lo then lo else if hi < x then hi else x

/-- **The exact reading of a clamp.** -/
theorem toInt_clamp {lo hi : Int16} (h : lo ≤ hi) (x : Int16) :
    (clamp lo hi x).toInt = max lo.toInt (min hi.toInt x.toInt) := by
  rw [Int16.le_iff_toInt_le] at h
  unfold clamp
  simp only [Int16.lt_iff_toInt_lt]
  split
  · omega
  · split <;> omega

theorem clamp_mem {lo hi : Int16} (h : lo ≤ hi) (x : Int16) :
    lo.toInt ≤ (clamp lo hi x).toInt ∧ (clamp lo hi x).toInt ≤ hi.toInt := by
  rw [toInt_clamp h]
  rw [Int16.le_iff_toInt_le] at h
  omega

end FixedWidth
