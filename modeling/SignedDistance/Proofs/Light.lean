import SignedDistance.March.Light
import SignedDistance.Proofs.Number.Cubic
import SignedDistance.Proofs.Number.Single
import SignedDistance.Proofs.Rounds

set_option autoImplicit false

/-! # Soft shadows are attenuations

A shadow ray is told by the samples that it would take if it went on for ever. It takes them up to
the light, or up to the first one that is well inside a surface, and what is seen of the light is
told by the least ratio among them. That is a number, since a NaN never takes its place, and the
cubic takes every number into `[0, 1]`. -/

namespace SignedDistance

namespace Light

/-! ## The cubic -/

/-- All the numbers on the way are small, so there is room for each of them. -/
theorem exists_cubic {r : Float32} {x : ℝ} (h : Single.Denotes r x) (h₁ : -1 ≤ x) (h₂ : x ≤ 1) :
    ∃ sum quarter square diff v : ℝ, Cubic x sum quarter square diff v ∧
      Single.Denotes (0.25 * (1 + r) * (1 + r) * (2 - r)) v := by
  have hroom {y : ℝ} (h₀ : 0 ≤ y) (h₁₆ : y ≤ 16) : |y| ≤ 2 ^ 127 := by
    rw [abs_of_nonneg h₀]
    norm_num
    linarith
  have hfour : Representable .binary32 4 :=
    representable_binary32 1 2 (by norm_num) (by norm_num) (by norm_num)
  have hmem {y : ℝ} (h₀ : 0 ≤ y) (h₄ : y ≤ 4) :
      0 ≤ nearest .binary32 y ∧ nearest .binary32 y ≤ 4 :=
    ⟨nearest_nonneg _ h₀, nearest_le hfour h₄⟩
  have hsum := Single.denotes_one.add_real h (hroom (by linarith) (by linarith))
  have hdiff := Single.denotes_two.sub_real h (hroom (by linarith) (by linarith))
  obtain ⟨hsum₀, hsum₄⟩ := hmem (y := 1 + x) (by linarith) (by linarith)
  obtain ⟨hdiff₀, hdiff₄⟩ := hmem (y := 2 - x) (by linarith) (by linarith)
  have hquarter := Single.denotes_quarter.mul_real hsum (hroom (by linarith) (by linarith))
  have hquarter₀ : 0 ≤ nearest .binary32 (1 / 4 * nearest .binary32 (1 + x)) :=
    nearest_nonneg _ (by linarith)
  have hquarter₁ : nearest .binary32 (1 / 4 * nearest .binary32 (1 + x)) ≤ 1 :=
    nearest_le representable_one (by linarith)
  have hproduct₀ := mul_nonneg hquarter₀ hsum₀
  have hproduct₄ := mul_le_mul hquarter₁ hsum₄ hsum₀ zero_le_one
  have hsquare := hquarter.mul_real hsum (hroom hproduct₀ (by linarith))
  obtain ⟨hsquare₀, hsquare₄⟩ := hmem hproduct₀ (by linarith)
  have hproduct₁₆ := mul_le_mul hsquare₄ hdiff₄ hdiff₀ zero_le_four
  exact ⟨_, _, _, _, _, ⟨rfl, rfl, rfl, rfl, rfl⟩,
    hsquare.mul_real hdiff (hroom (mul_nonneg hsquare₀ hdiff₀) (by linarith))⟩

theorem neg_one_le_one : (-1 : Float32) ≤ 1 :=
  (Single.denotes_neg_one.le_iff Single.denotes_one).2 (EReal.coe_le_coe_iff.2 (by norm_num))

theorem visibility_mem {ratio : Float32} (h : ratio.isNaN = false) :
    0 ≤ visibility ratio ∧ visibility ratio ≤ 1 := by
  have hlower := Single.le_clamp h neg_one_le_one
  have hupper := Single.clamp_le h neg_one_le_one
  obtain ⟨y, hy⟩ := Single.exists_denotes (Single.isNaN_right_of_le hlower)
  rw [Single.denotes_neg_one.le_iff hy] at hlower
  rw [hy.le_iff Single.denotes_one] at hupper
  lift y to ℝ using ⟨(hupper.trans_lt (EReal.coe_lt_top 1)).ne,
    ((EReal.bot_lt_coe (-1)).trans_le hlower).ne'⟩
  rw [EReal.coe_le_coe_iff] at hlower hupper
  obtain ⟨_, _, _, _, v, hcubic, hv⟩ := exists_cubic hy hlower hupper
  exact ⟨hv.nonneg (EReal.coe_nonneg.2 (hcubic.nonneg hlower hupper)),
    (hv.le_iff Single.denotes_one).2 (EReal.coe_le_coe_iff.2 (hcubic.le_one hlower hupper))⟩

theorem visibility_one : visibility 1 = 1 := rfl

theorem visibility_of_le {ratio : Float32} (h : ratio ≤ -1) : visibility ratio = 0 := by
  rw [visibility, Single.clamp_eq_left h neg_one_le_one Single.denotes_neg_one (by simp)]
  rfl

/-! ## Samples -/

/-- What a light query is asked for. -/
structure Query where
  config : TraceConfig
  field : Field
  start : Vec3
  stop : Vec3
  lightSize : Float32

namespace Query

variable (q : Query)

/-- How far the light is. -/
def length : Float32 := (q.stop - q.start).length

def dir : Vec3 := (q.stop - q.start).unscale q.length

def size : Float32 := Single.greatest q.lightSize leastSize

/-- The distance of a sample from the start: a sample is as far behind the one before as that one
    has found free, and never nearer than the least step. -/
def travel : ℕ → Float32
  | 0 => q.config.shadowMinStep
  | k + 1 => travel k +
    Single.greatest (q.field (q.start + q.dir.scale (travel k))) q.config.shadowMinStep

def point (k : ℕ) : Vec3 := q.start + q.dir.scale (q.travel k)

def sample (k : ℕ) : Float32 := q.field (q.point k)

/-- The clearance of a sample over the width of the light at its distance. -/
def ratio (k : ℕ) : Float32 := q.sample k / (q.size * q.travel k)

/-- There is a way to go to the light. -/
def Apart : Prop := ¬q.length ≤ 0 ∧ q.length.isFinite = true

/-- The sample is taken: there is a way to go and room for the sample, it is before the light, and
    no sample before it is well inside a surface. -/
structure Takes (k : ℕ) : Prop where
  apart : q.Apart
  room : k < q.config.maxSteps.toNat
  before : ∀ j ≤ k, q.travel j < q.length
  outside : ∀ j < k, ¬q.ratio j ≤ -1

/-- The least ratio of the first samples, and one if all of those are clear. -/
def least : ℕ → Float32
  | 0 => 1
  | k + 1 => Single.least (least k) (q.ratio k)

variable {q} {k n : ℕ}

theorem isNaN_least : (q.least k).isNaN = false := by
  induction k with
  | zero => exact Single.denotes_one.isNaN
  | succ k ih => exact Single.isNaN_left_of_le (Single.least_le_left ih)

/-- The least ratio is that of a ray well inside a surface exactly if one of its samples was. -/
theorem least_le_neg_one_iff : q.least k ≤ -1 ↔ ∃ j < k, q.ratio j ≤ -1 := by
  induction k with
  | zero =>
    have hone : ¬(1 : Float32) ≤ -1 := by
      rw [Single.denotes_one.le_iff Single.denotes_neg_one, EReal.coe_le_coe_iff]
      norm_num
    exact iff_of_false hone (by simp)
  | succ k ih => rw [least, Single.least_le_iff isNaN_least, ih, Nat.exists_lt_succ_right]

/-- Clear samples leave the least ratio as it was. -/
theorem least_eq_one (h : ∀ k < n, ¬q.ratio k < 1) : q.least n = 1 := by
  induction n with
  | zero => rfl
  | succ n ih =>
    rw [least, ih fun k hk => h k (hk.trans n.lt_succ_self)]
    exact Single.least_eq_left Single.denotes_one.isNaN (h n n.lt_succ_self)

/-! ## Rounds -/

variable (q)

/-- The ray before a sample. -/
def ray (k : ℕ) : Ray := ⟨q.least k, q.travel k⟩

/-- The ray is over: the light is reached, or a sample up to this one was well inside. -/
def Ends (k : ℕ) : Prop := ¬q.travel k < q.length ∨ ∃ j < k + 1, q.ratio j ≤ -1

/-- A round takes the next sample, unless the light is reached. -/
theorem round_ray (k : ℕ) :
    round q.config q.field q.start q.dir q.length q.size (q.ray k) =
      if q.travel k < q.length then
        if q.least (k + 1) ≤ -1 then .answer (q.least (k + 1)) else .goOn (q.ray (k + 1))
      else .answer (q.least k) := rfl

theorem unrolls : Unrolls (round q.config q.field q.start q.dir q.length q.size) q.ray q.Ends where
  answer k h := by
    rw [round_ray]
    split_ifs with hbefore hinside
    · exact ⟨_, rfl⟩
    · exact (h.elim (absurd hbefore) fun hj => hinside (least_le_neg_one_iff.2 hj)).elim
    · exact ⟨_, rfl⟩
  goOn k h := by
    obtain ⟨hbefore, hinside⟩ := not_or.1 h
    rw [round_ray, if_pos (not_not.1 hbefore), if_neg (mt least_le_neg_one_iff.1 hinside)]

variable {q}

/-- A round after rounds that went on takes a sample, unless the light is reached. -/
theorem takes_of_goesOn (apart : q.Apart) (hk : k < q.config.maxSteps.toNat)
    (hgoesOn : ∀ j < k, ¬q.Ends j) (hbefore : q.travel k < q.length) : q.Takes k where
  apart := apart
  room := hk
  before j hj := by
    rcases hj.eq_or_lt with rfl | hj
    · exact hbefore
    · exact not_not.1 (not_or.1 (hgoesOn j hj)).1
  outside j hj hinside := hgoesOn j hj (.inr ⟨j, j.lt_succ_self, hinside⟩)

theorem takes_of_lt (apart : q.Apart) (hn : n ≤ q.config.maxSteps.toNat)
    (hgoesOn : ∀ j < n, ¬q.Ends j) (hk : k < n) : q.Takes k :=
  takes_of_goesOn apart (hk.trans_le hn) (fun j hj => hgoesOn j (hj.trans hk))
    (not_not.1 (not_or.1 (hgoesOn k hk)).1)

theorem lightTrace_eq (q : Query) : lightTrace q.config q.field q.start q.stop q.lightSize =
    if q.length ≤ 0 || !q.length.isFinite then 1
    else
      match rounds (round q.config q.field q.start q.dir q.length q.size) q.config.maxSteps.toNat
        (q.ray 0) with
      | .answer ratio => visibility ratio
      | .goOn ray => visibility ray.ratio := rfl

theorem lightTrace_eq_one_of_not_apart (h : ¬q.Apart) :
    lightTrace q.config q.field q.start q.stop q.lightSize = 1 := by
  rw [Apart, not_and_or, not_not, Bool.not_eq_true] at h
  rw [lightTrace_eq, if_pos (by simpa using h)]

/-- **A query tells the least ratio of the samples that it takes.** -/
theorem exists_lightTrace_eq (apart : q.Apart) :
    ∃ n, (∀ k, k < n ↔ q.Takes k) ∧
      lightTrace q.config q.field q.start q.stop q.lightSize = visibility (q.least n) := by
  rw [lightTrace_eq, if_neg (by simp [apart.1, apart.2])]
  cases hrounds : rounds (round q.config q.field q.start q.dir q.length q.size)
      q.config.maxSteps.toNat (q.ray 0) with
  | answer ratio =>
    obtain ⟨n, hn, hgoesOn, hround⟩ := q.unrolls.rounds_eq_answer_iff.1 hrounds
    rw [round_ray] at hround
    split_ifs at hround with hbefore hinside
    · -- the last sample is well inside a surface
      cases hround
      obtain ⟨j, hj, hratio⟩ := least_le_neg_one_iff.1 hinside
      refine ⟨n + 1, fun k => ⟨fun hk => ?_, fun htakes => ?_⟩, rfl⟩
      · rcases Nat.lt_succ_iff_lt_or_eq.1 hk with hk | rfl
        · exact takes_of_lt apart hn.le hgoesOn hk
        · exact takes_of_goesOn apart hn hgoesOn hbefore
      · by_contra hk
        exact htakes.outside j (by omega) hratio
    · -- there is no room for a sample before the light
      cases hround
      refine ⟨n, fun k => ⟨takes_of_lt apart hn.le hgoesOn, fun htakes => ?_⟩, rfl⟩
      by_contra hk
      exact hbefore (htakes.before n (by omega))
  | goOn ray =>
    obtain ⟨rfl, hgoesOn⟩ := q.unrolls.rounds_eq_goOn_iff.1 hrounds
    exact ⟨_, fun k => ⟨takes_of_lt apart le_rfl hgoesOn, Takes.room⟩, rfl⟩

theorem lightTrace_mem (q : Query) :
    0 ≤ lightTrace q.config q.field q.start q.stop q.lightSize ∧
      lightTrace q.config q.field q.start q.stop q.lightSize ≤ 1 := by
  by_cases apart : q.Apart
  · obtain ⟨n, -, h⟩ := exists_lightTrace_eq apart
    rw [h]
    exact visibility_mem isNaN_least
  · rw [lightTrace_eq_one_of_not_apart apart]
    exact ⟨Single.denotes_one.nonneg (EReal.coe_nonneg.2 zero_le_one),
      Single.le_refl Single.denotes_one.isNaN⟩

/-- A sample well inside a surface leaves nothing of the light. -/
theorem lightTrace_eq_zero (htakes : q.Takes k) (h : q.ratio k ≤ -1) :
    lightTrace q.config q.field q.start q.stop q.lightSize = 0 := by
  obtain ⟨n, hn, heq⟩ := exists_lightTrace_eq htakes.apart
  rw [heq]
  exact visibility_of_le (least_le_neg_one_iff.2 ⟨k, (hn k).2 htakes, h⟩)

theorem lightTrace_eq_one (h : ∀ k, q.Takes k → ¬q.ratio k < 1) :
    lightTrace q.config q.field q.start q.stop q.lightSize = 1 := by
  by_cases apart : q.Apart
  · obtain ⟨n, hn, heq⟩ := exists_lightTrace_eq apart
    rw [heq, least_eq_one fun k hk => h k ((hn k).1 hk), visibility_one]
  · exact lightTrace_eq_one_of_not_apart apart

end Query

end Light

open Light in
/-- **A soft shadow is an attenuation for every field**, whatever it answers: a number between zero
    and one, zero where a sample is well inside a surface, and one where every sample is clear. -/
theorem lightTrace_attenuates (q : Query) :
    let visibility := lightTrace q.config q.field q.start q.stop q.lightSize
    visibility.isNaN = false ∧ 0 ≤ visibility ∧ visibility ≤ 1 ∧
      ((∃ k, q.Takes k ∧ q.ratio k ≤ -1) → visibility = 0) ∧
      ((∀ k, q.Takes k → 1 ≤ q.ratio k ∨ (q.ratio k).isNaN = true) → visibility = 1) := by
  intro visibility
  obtain ⟨hlower, hupper⟩ := q.lightTrace_mem
  refine ⟨Single.isNaN_right_of_le hlower, hlower, hupper, ?_, fun h => ?_⟩
  · rintro ⟨k, htakes, h⟩
    exact Query.lightTrace_eq_zero htakes h
  · refine Query.lightTrace_eq_one fun k htakes => ?_
    rcases h k htakes with hone | hnan
    · exact Single.not_lt_of_le hone
    · exact Single.not_lt_of_isNaN hnan

open Light in
theorem lightTrace_attenuates_inside :
    let q : Query := ⟨.default, .constant (-1), .zero, ⟨1, 0, 0⟩, 1⟩
    (∃ k, q.Takes k ∧ q.ratio k ≤ -1) ∧
      lightTrace q.config q.field q.start q.stop q.lightSize = 0 := by
  intro q
  have htakes : q.Takes 0 := {
    apart := ⟨by decide +kernel, by decide +kernel⟩
    room := by decide
    before := fun j hj => by
      rw [Nat.le_zero.1 hj]
      decide +kernel
    outside := fun j hj => absurd hj j.not_lt_zero }
  have hinside : q.ratio 0 ≤ -1 := by decide +kernel
  exact ⟨⟨0, htakes, hinside⟩, (lightTrace_attenuates q).2.2.2.1 ⟨0, htakes, hinside⟩⟩

end SignedDistance
