import Mathlib.Algebra.Order.Field.Rat
import Mathlib.Order.Bounds.Basic
import Mathlib.Tactic.FieldSimp
import Mathlib.Tactic.Linarith
import Mathlib.Tactic.Ring
import SdfShader.Geometry.Distance

/-!
# SmoothMin — the smooth minimum in exact arithmetic

Two distances can be mixed in any proportion, and a mixture loses a depth that is greatest halfway
between them. The smooth minimum is the least of all mixtures (`isLeast_smoothMin`): the clamped
weight of the formula is where that least one is. All bounds follow from this without looking at the
formula again:

* a mixture with one distance only is that distance, so `smoothMin_le_left`, `smoothMin_le_right`;
* no mixture lies more than the smoothness below what bounds the distances, even if one of them is
  already that far below (`sub_le_smoothMin`);
* the seam is nowhere deeper than halfway, so `min_sub_quarter_le_smoothMin`;
* mixtures of exchanged distances are the same, so `smoothMin_comm`;
* every mixture follows the distances, so the least one does (`smoothMin_mono`, `smoothMin_add`,
  `abs_smoothMin_sub_le`), and loses more with more smoothness (`smoothMin_antitone`).
-/

namespace SdfShader

/-- A mixture of two distances with weight `h` of the first one, and with the depth of the seam. -/
def blend (a b k h : ℚ) : ℚ :=
  b + (a - b) * h - k * h * (1 - h)

theorem blend_one (a b k : ℚ) : blend a b k 1 = a := by
  simp [blend]

theorem blend_zero (a b k : ℚ) : blend a b k 0 = b := by
  simp [blend]

theorem smoothMin_of_nonpos {a b k : ℚ} (h : k ≤ 0) : smoothMin a b k = min a b :=
  if_pos h

theorem smoothMin_of_pos {a b k : ℚ} (h : 0 < k) :
    smoothMin a b k = blend a b k (clampUnit (1 / 2 + 1 / 2 * (b - a) / k)) :=
  if_neg (not_le.2 h)

theorem clampUnit_mem (x : ℚ) : 0 ≤ clampUnit x ∧ clampUnit x ≤ 1 := by
  unfold clampUnit
  split
  · exact ⟨le_rfl, zero_le_one⟩
  · next hlow =>
      split
      · exact ⟨zero_le_one, le_rfl⟩
      · next hhigh => exact ⟨not_lt.1 hlow, not_lt.1 hhigh⟩

/-- How much a mixture lies above that of another weight, in terms of the vertex `u` of the parabola
that mixtures lie on. -/
theorem blend_sub_blend {a b k : ℚ} (hk : 0 < k) (h g : ℚ) :
    blend a b k h - blend a b k g
      = k * ((h - g) * (h + g - 2 * (1 / 2 + 1 / 2 * (b - a) / k))) := by
  unfold blend
  field_simp
  ring

/-- The weight of the vertex, or the nearest weight to it that there is, gives the least mixture. -/
theorem blend_clampUnit_le {a b k : ℚ} (hk : 0 < k) {h : ℚ} (h0 : 0 ≤ h) (h1 : h ≤ 1) :
    blend a b k (clampUnit (1 / 2 + 1 / 2 * (b - a) / k)) ≤ blend a b k h := by
  rw [← sub_nonneg, blend_sub_blend hk]
  generalize 1 / 2 + 1 / 2 * (b - a) / k = u
  refine mul_nonneg hk.le ?_
  unfold clampUnit
  split
  · next hlow =>
      exact mul_nonneg (by linarith) (by linarith)
  · split
    · next hhigh =>
        exact mul_nonneg_of_nonpos_of_nonpos (by linarith) (by linarith)
    · have hsquare : (h - u) * (h + u - 2 * u) = (h - u) * (h - u) := by ring
      rw [hsquare]
      exact mul_self_nonneg _

/-- The smooth minimum is the least mixture; without smoothness the least one has no seam. -/
theorem isLeast_smoothMin (a b k : ℚ) :
    IsLeast {x | ∃ h, 0 ≤ h ∧ h ≤ 1 ∧ blend a b k h = x} (smoothMin a b k) := by
  rcases le_or_gt k 0 with hk | hk
  · rw [smoothMin_of_nonpos hk]
    constructor
    · rcases min_choice a b with hmin | hmin
      · exact ⟨1, zero_le_one, le_rfl, by rw [blend_one, hmin]⟩
      · exact ⟨0, le_rfl, zero_le_one, by rw [blend_zero, hmin]⟩
    · rintro x ⟨h, h0, h1, rfl⟩
      have hseam : 0 ≤ -k * (h * (1 - h)) :=
        mul_nonneg (neg_nonneg.2 hk) (mul_nonneg h0 (sub_nonneg.2 h1))
      have ha : min a b * h ≤ a * h := mul_le_mul_of_nonneg_right (min_le_left a b) h0
      have hb : min a b * (1 - h) ≤ b * (1 - h) :=
        mul_le_mul_of_nonneg_right (min_le_right a b) (sub_nonneg.2 h1)
      unfold blend
      linarith
  · rw [smoothMin_of_pos hk]
    constructor
    · exact ⟨_, (clampUnit_mem _).1, (clampUnit_mem _).2, rfl⟩
    · rintro x ⟨h, h0, h1, rfl⟩
      exact blend_clampUnit_le hk h0 h1

/-! ## Bounds -/

variable {a b k : ℚ}

theorem smoothMin_le_left (a b k : ℚ) : smoothMin a b k ≤ a :=
  (isLeast_smoothMin a b k).2 ⟨1, zero_le_one, le_rfl, blend_one a b k⟩

theorem smoothMin_le_right (a b k : ℚ) : smoothMin a b k ≤ b :=
  (isLeast_smoothMin a b k).2 ⟨0, le_rfl, zero_le_one, blend_zero a b k⟩

theorem smoothMin_le_min (a b k : ℚ) : smoothMin a b k ≤ min a b :=
  le_min (smoothMin_le_left a b k) (smoothMin_le_right a b k)

/-- A mixture lies between the distances but for its depth, and a product of two proportions that
add up to one is a quarter at most. -/
theorem min_sub_quarter_le_smoothMin (hk : 0 ≤ k) : min a b - k / 4 ≤ smoothMin a b k := by
  rcases (isLeast_smoothMin a b k).1 with ⟨h, h0, h1, hblend⟩
  have hfirst : min a b * h ≤ a * h := mul_le_mul_of_nonneg_right (min_le_left a b) h0
  have hsecond : min a b * (1 - h) ≤ b * (1 - h) :=
    mul_le_mul_of_nonneg_right (min_le_right a b) (sub_nonneg.2 h1)
  have hdepth : 0 ≤ k * ((h - 1 / 2) * (h - 1 / 2)) := mul_nonneg hk (mul_self_nonneg _)
  rw [← hblend]
  unfold blend
  linarith

/-- What bounds the second distance bounds the smooth minimum but for the smoothness, even if the
first distance is that much lower already. So folding any number of distances into one register
lowers it by no more than one smoothness. -/
theorem sub_le_smoothMin {least : ℚ} (hk : 0 ≤ k) (ha : least - k ≤ a) (hb : least ≤ b) :
    least - k ≤ smoothMin a b k := by
  rcases (isLeast_smoothMin a b k).1 with ⟨h, h0, h1, hblend⟩
  rw [← hblend]
  have hfirst : (least - k) * h ≤ a * h := mul_le_mul_of_nonneg_right ha h0
  have hsecond : least * (1 - h) ≤ b * (1 - h) :=
    mul_le_mul_of_nonneg_right hb (sub_nonneg.2 h1)
  have hdepth : 0 ≤ k * ((1 - h) * (1 - h)) := mul_nonneg hk (mul_self_nonneg _)
  unfold blend
  linarith

/-- The same without the bound itself. -/
theorem sub_lt_smoothMin {least : ℚ} (hk : 0 ≤ k) (ha : least - k < a) (hb : least < b) :
    least - k < smoothMin a b k := by
  rcases (isLeast_smoothMin a b k).1 with ⟨h, h0, h1, hblend⟩
  rw [← hblend]
  rcases h0.eq_or_lt with rfl | hpos
  · rw [blend_zero]
    linarith
  · have hfirst : (least - k) * h < a * h := mul_lt_mul_of_pos_right ha hpos
    have hsecond : least * (1 - h) ≤ b * (1 - h) :=
      mul_le_mul_of_nonneg_right hb.le (sub_nonneg.2 h1)
    have hdepth : 0 ≤ k * ((1 - h) * (1 - h)) := mul_nonneg hk (mul_self_nonneg _)
    unfold blend
    linarith

/-! ## Laws -/

/-- The two distances count alike: weights are exchanged with them. -/
theorem smoothMin_comm (a b k : ℚ) : smoothMin a b k = smoothMin b a k := by
  have hexchange : ∀ a b h : ℚ, blend b a k (1 - h) = blend a b k h := by
    intro a b h
    unfold blend
    ring
  have hmixtures : {x | ∃ h, 0 ≤ h ∧ h ≤ 1 ∧ blend a b k h = x}
      = {x | ∃ h, 0 ≤ h ∧ h ≤ 1 ∧ blend b a k h = x} := by
    ext x
    constructor
    · rintro ⟨h, h0, h1, hx⟩
      exact ⟨1 - h, by linarith, by linarith, (hexchange a b h).trans hx⟩
    · rintro ⟨h, h0, h1, hx⟩
      exact ⟨1 - h, by linarith, by linarith, (hexchange b a h).trans hx⟩
  exact (isLeast_smoothMin a b k).unique (hmixtures ▸ isLeast_smoothMin b a k)

/-- A distance that is nearer by the smoothness or more is kept. -/
theorem smoothMin_eq_right (hk : 0 ≤ k) (h : b + k ≤ a) : smoothMin a b k = b := by
  refine le_antisymm (smoothMin_le_right a b k) ?_
  rcases (isLeast_smoothMin a b k).1 with ⟨weight, h0, -, hblend⟩
  have hgap : 0 ≤ (a - b - k) * weight := mul_nonneg (by linarith) h0
  have hseam : 0 ≤ k * (weight * weight) := mul_nonneg hk (mul_self_nonneg _)
  rw [← hblend]
  unfold blend
  linarith

/-- Distances that are no closer together than the smoothness do not blend. -/
theorem smoothMin_eq_min (hk : 0 ≤ k) (h : k ≤ |a - b|) : smoothMin a b k = min a b := by
  rcases le_total a b with hab | hab
  · rw [abs_of_nonpos (sub_nonpos.2 hab)] at h
    rw [min_eq_left hab, smoothMin_comm]
    exact smoothMin_eq_right hk (by linarith)
  · rw [abs_of_nonneg (sub_nonneg.2 hab)] at h
    rw [min_eq_right hab]
    exact smoothMin_eq_right hk (by linarith)

/-- Distances that are farther by `e` at most give a smooth minimum that is farther by `e` at
most. -/
theorem smoothMin_le_add {a' b' e : ℚ} (ha : a' ≤ a + e) (hb : b' ≤ b + e) :
    smoothMin a' b' k ≤ smoothMin a b k + e := by
  rcases (isLeast_smoothMin a b k).1 with ⟨h, h0, h1, hblend⟩
  have hmixture : smoothMin a' b' k ≤ blend a' b' k h :=
    (isLeast_smoothMin a' b' k).2 ⟨h, h0, h1, rfl⟩
  have hfirst : a' * h ≤ (a + e) * h := mul_le_mul_of_nonneg_right ha h0
  have hsecond : b' * (1 - h) ≤ (b + e) * (1 - h) :=
    mul_le_mul_of_nonneg_right hb (sub_nonneg.2 h1)
  refine hmixture.trans ?_
  rw [← hblend]
  unfold blend
  linarith

theorem smoothMin_mono {a' b' : ℚ} (ha : a ≤ a') (hb : b ≤ b') :
    smoothMin a b k ≤ smoothMin a' b' k := by
  have hle : smoothMin a b k ≤ smoothMin a' b' k + 0 :=
    smoothMin_le_add (by linarith) (by linarith)
  rwa [add_zero] at hle

/-- Distances that are both farther by the same amount give a smooth minimum that is, too. -/
theorem smoothMin_add (a b k c : ℚ) : smoothMin (a + c) (b + c) k = smoothMin a b k + c := by
  have hup : smoothMin (a + c) (b + c) k ≤ smoothMin a b k + c :=
    smoothMin_le_add le_rfl le_rfl
  have hdown : smoothMin a b k ≤ smoothMin (a + c) (b + c) k + -c :=
    smoothMin_le_add (by linarith) (by linarith)
  linarith

/-- The more smoothness, the deeper each seam. -/
theorem smoothMin_antitone (a b : ℚ) : Antitone (smoothMin a b) := by
  intro k k' hk
  rcases (isLeast_smoothMin a b k).1 with ⟨h, h0, h1, hblend⟩
  have hmixture : smoothMin a b k' ≤ blend a b k' h :=
    (isLeast_smoothMin a b k').2 ⟨h, h0, h1, rfl⟩
  have hseam : k * (h * (1 - h)) ≤ k' * (h * (1 - h)) :=
    mul_le_mul_of_nonneg_right hk (mul_nonneg h0 (sub_nonneg.2 h1))
  refine hmixture.trans ?_
  rw [← hblend]
  unfold blend
  linarith

/-- The smooth minimum changes no more than the distances do. -/
theorem abs_smoothMin_sub_le {a' b' e : ℚ} (ha : |a' - a| ≤ e) (hb : |b' - b| ≤ e) :
    |smoothMin a' b' k - smoothMin a b k| ≤ e := by
  rw [abs_le] at ha hb ⊢
  have hup : smoothMin a' b' k ≤ smoothMin a b k + e :=
    smoothMin_le_add (by linarith) (by linarith)
  have hdown : smoothMin a b k ≤ smoothMin a' b' k + e :=
    smoothMin_le_add (by linarith) (by linarith)
  constructor <;> linarith

end SdfShader
