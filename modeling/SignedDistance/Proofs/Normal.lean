import SignedDistance.Program.Basic
import SignedDistance.Proofs.Number.Special

set_option autoImplicit false

/-! # Unit normals

A vector is brought to unit length by the reciprocal of the root of its squared length, each of them
rounded. Where the squared length is rounded neither to zero nor to infinity, every rounding is
within a factor of two, which leaves a vector that is of use. What decides is the greatest lane: up
to `2 ^ -75` all squares vanish, and from `2 ^ 64` on one of them is infinite, so that the reciprocal
is zero and the vector as well. -/

namespace SignedDistance

/-! ## Squares and their sums -/

theorem abs_le_of_nearest_eq_zero {x : ℝ} (h : nearest .binary32 x = 0) : |x| ≤ 2 ^ (-150 : ℤ) := by
  rcases abs_cases x with ⟨habs, -⟩ | ⟨habs, -⟩ <;> rw [habs, ← not_lt, ← nearest_pos_iff]
  · rw [h]
    exact lt_irrefl 0
  · rw [nearest_neg, h, neg_zero]
    exact lt_irrefl 0

namespace Single

variable {a b : Float32} {x y p s : ℝ}

protected theorem Denotes.mul_self_nonneg (ha : Denotes a x) : 0 ≤ a * a := square_nonneg ha.isNaN

theorem Denotes.mul_self_pos_iff (ha : Denotes a x) : 0 < a * a ↔ 2 ^ (-75 : ℤ) < |x| := by
  have hsquare : (2 : ℝ) ^ (-150 : ℤ) = 2 ^ (-75 : ℤ) * 2 ^ (-75 : ℤ) := by norm_num
  rw [denotes_zero.lt_iff (ha.mul ha), rounded_pos_iff, hsquare, ← abs_mul_abs_self x]
  exact (mul_self_lt_mul_self_iff (by positivity) (by positivity)).symm

/-- A square and its rounding are within a factor of two, but for squares that are next to
    nothing. -/
theorem Denotes.mul_self_bounds (ha : Denotes a x) (hp : Denotes (a * a) p) :
    p ≤ 2 * (x * x) ∧ (2 ^ (-149 : ℤ) ≤ x * x → x * x ≤ 2 * p) := by
  obtain rfl := eq_nearest_of_rounded ((ha.mul ha).unique hp)
  refine ⟨nearest_le_two_mul _ (mul_self_nonneg x), fun h => le_two_mul_nearest ?_⟩
  exact (zpow_le_zpow_right₀ one_le_two (by decide)).trans h

/-- The square of a number up to `2 ^ 63` has room. -/
theorem Denotes.exists_mul_self (ha : Denotes a x) (hx : |x| ≤ 2 ^ 63) :
    ∃ p : ℝ, Denotes (a * a) p ∧ 0 ≤ p ∧ p ≤ 2 ^ 126 := by
  have hsquare : x * x ≤ 2 ^ 126 := by
    rw [← abs_mul_abs_self x]
    exact (mul_self_le_mul_self (by positivity) hx).trans_eq (by norm_num)
  have hroom : |x * x| ≤ 2 ^ 127 := by
    rw [abs_of_nonneg (mul_self_nonneg x)]
    exact hsquare.trans (by norm_num)
  have hpower : Representable .binary32 (2 ^ 126) :=
    representable_binary32 1 126 (by norm_num) (by norm_num) (by norm_num)
  exact ⟨_, ha.mul_real ha hroom, nearest_nonneg _ (mul_self_nonneg x), nearest_le hpower hsquare⟩

theorem add_pos_iff (ha : 0 ≤ a) (hb : 0 ≤ b) : 0 < a + b ↔ 0 < a ∨ 0 < b := by
  constructor
  · intro hpos
    by_contra! h
    obtain ⟨y, z, hy, hz, hy₀, hz₀, hsum⟩ := exists_denotes_add_of_nonneg ha hb
    rw [denotes_zero.lt_iff hy, denotes_zero.lt_iff hz, not_lt, not_lt] at h
    rw [denotes_zero.lt_iff hsum, le_antisymm h.1 hy₀, le_antisymm h.2 hz₀, add_zero,
      rounded_zero] at hpos
    exact lt_irrefl 0 hpos
  · rintro (h | h)
    · exact Single.lt_of_lt_of_le h (le_add_right ha hb)
    · exact Single.lt_of_lt_of_le h (le_add_left ha hb)

/-- A sum that is finite is not below its parts, and within a factor of two. -/
theorem Denotes.add_bounds (ha : Denotes a x) (hb : Denotes b y) (hs : Denotes (a + b) s)
    (hx : 0 ≤ x) (hy : 0 ≤ y) : x ≤ s ∧ y ≤ s ∧ s ≤ 2 * (x + y) := by
  have hsum := ha.add hb (not_opposite_coe x _)
  rw [← EReal.coe_add] at hsum
  obtain rfl := eq_nearest_of_rounded (hsum.unique hs)
  refine ⟨?_, ?_, nearest_le_two_mul _ (add_nonneg hx hy)⟩
  · exact ha.nearest_eq.ge.trans (nearest_mono _ (le_add_of_nonneg_right hy))
  · exact hb.nearest_eq.ge.trans (nearest_mono _ (le_add_of_nonneg_left hx))

end Single

/-! ## Three lanes -/

namespace Vec3

/-- The lanes are finite numbers, and `a`, `b`, `c` are these numbers. -/
structure Denotes (v : Vec3) (a b c : ℝ) : Prop where
  x : Single.Denotes v.x a
  y : Single.Denotes v.y b
  z : Single.Denotes v.z c

variable {v : Vec3} {a b c s : ℝ}

theorem isFinite_iff : v.isFinite = true ↔ ∃ a b c, v.Denotes a b c := by
  rw [isFinite, Bool.and_eq_true, Bool.and_eq_true, Single.isFinite_iff, Single.isFinite_iff,
    Single.isFinite_iff]
  constructor
  · rintro ⟨⟨⟨a, ha⟩, b, hb⟩, c, hc⟩
    exact ⟨a, b, c, ha, hb, hc⟩
  · rintro ⟨a, b, c, h⟩
    exact ⟨⟨⟨a, h.x⟩, b, h.y⟩, c, h.z⟩

theorem isZero_iff : v.isZero = true ↔ v.Denotes 0 0 0 := by
  rw [isZero, Bool.and_eq_true, Bool.and_eq_true]
  constructor
  · rintro ⟨⟨hx, hy⟩, hz⟩
    exact ⟨Single.denotes_zero.of_beq hx, Single.denotes_zero.of_beq hy,
      Single.denotes_zero.of_beq hz⟩
  · intro h
    exact ⟨⟨(h.x.beq_iff Single.denotes_zero).2 rfl, (h.y.beq_iff Single.denotes_zero).2 rfl⟩,
      (h.z.beq_iff Single.denotes_zero).2 rfl⟩

theorem Denotes.flat_nonneg (h : v.Denotes a b c) : 0 ≤ v.x * v.x + v.y * v.y :=
  Single.le_trans h.x.mul_self_nonneg
    (Single.le_add_right h.x.mul_self_nonneg h.y.mul_self_nonneg)

theorem Denotes.lengthSquared_nonneg (h : v.Denotes a b c) : 0 ≤ v.lengthSquared :=
  Single.le_trans h.flat_nonneg (Single.le_add_right h.flat_nonneg h.z.mul_self_nonneg)

/-- The squared length is not rounded to zero if one of the squares is not. -/
theorem Denotes.lengthSquared_pos_iff (h : v.Denotes a b c) :
    0 < v.lengthSquared ↔ 2 ^ (-75 : ℤ) < max |a| (max |b| |c|) := by
  rw [lengthSquared, dot, Single.add_pos_iff h.flat_nonneg h.z.mul_self_nonneg,
    Single.add_pos_iff h.x.mul_self_nonneg h.y.mul_self_nonneg, h.x.mul_self_pos_iff,
    h.y.mul_self_pos_iff, h.z.mul_self_pos_iff, lt_max_iff, lt_max_iff, or_assoc]

/-- Up to `2 ^ 63` the squares have room, and so has their sum. -/
theorem Denotes.isFinite_lengthSquared (h : v.Denotes a b c)
    (hle : max |a| (max |b| |c|) ≤ 2 ^ 63) : v.lengthSquared.isFinite = true := by
  obtain ⟨ha, hb, hc⟩ : |a| ≤ 2 ^ 63 ∧ |b| ≤ 2 ^ 63 ∧ |c| ≤ 2 ^ 63 := by simpa using hle
  obtain ⟨p, hp, hp₀, hple⟩ := h.x.exists_mul_self ha
  obtain ⟨q, hq, hq₀, hqle⟩ := h.y.exists_mul_self hb
  obtain ⟨t, ht, ht₀, htle⟩ := h.z.exists_mul_self hc
  have hpower : Representable .binary32 (2 ^ 127) :=
    representable_binary32 1 127 (by norm_num) (by norm_num) (by norm_num)
  have hpq : p + q ≤ 2 ^ 127 := by linarith
  have hsum := hp.add_real hq (by rwa [abs_of_nonneg (add_nonneg hp₀ hq₀)])
  have hsum₀ : 0 ≤ nearest .binary32 (p + q) := nearest_nonneg _ (add_nonneg hp₀ hq₀)
  have hsumle : nearest .binary32 (p + q) ≤ 2 ^ 127 := nearest_le hpower hpq
  have htotal := hsum.add ht (Single.not_opposite_coe _ _)
  rw [← EReal.coe_add, Single.rounded_coe_of_lt (add_nonneg hsum₀ ht₀) (by linarith)] at htotal
  exact Single.isFinite_iff.2 ⟨_, htotal⟩

/-- From `2 ^ 64` on one of them has none. -/
theorem Denotes.not_isFinite_lengthSquared (h : v.Denotes a b c)
    (hle : 2 ^ 64 ≤ max |a| (max |b| |c|)) : ¬v.lengthSquared.isFinite = true := by
  intro hfinite
  obtain ⟨hxy, hz⟩ := Single.isFinite_of_isFinite_add hfinite
  obtain ⟨hx, hy⟩ := Single.isFinite_of_isFinite_add hxy
  rw [le_max_iff, le_max_iff] at hle
  rcases hle with ha | hb | hc
  · exact Bool.eq_false_iff.1 (Single.not_isFinite_of_top (h.x.mul_self_eq_top ha)) hx
  · exact Bool.eq_false_iff.1 (Single.not_isFinite_of_top (h.y.mul_self_eq_top hb)) hy
  · exact Bool.eq_false_iff.1 (Single.not_isFinite_of_top (h.z.mul_self_eq_top hc)) hz

/-- The squared length is not below the square of a lane by more than a factor of two, and not above
    the sum of the squares by more than a factor of eight. -/
theorem Denotes.lengthSquared_bounds (h : v.Denotes a b c)
    (hs : Single.Denotes v.lengthSquared s) (hpos : 0 < s) :
    a * a ≤ 2 * s ∧ b * b ≤ 2 * s ∧ c * c ≤ 2 * s ∧ s ≤ 8 * (a * a + b * b + c * c) := by
  have hfinite := Single.isFinite_iff.2 ⟨s, hs⟩
  obtain ⟨hxy, hz⟩ := Single.isFinite_of_isFinite_add hfinite
  obtain ⟨hx, hy⟩ := Single.isFinite_of_isFinite_add hxy
  obtain ⟨p, hp, hp₀⟩ := Single.exists_real hx h.x.mul_self_nonneg
  obtain ⟨q, hq, hq₀⟩ := Single.exists_real hy h.y.mul_self_nonneg
  obtain ⟨t, ht, ht₀⟩ := Single.exists_real hz h.z.mul_self_nonneg
  obtain ⟨u, hu⟩ := Single.isFinite_iff.1 hxy
  obtain ⟨hpu, hqu, huupper⟩ := hp.add_bounds hq hu hp₀ hq₀
  obtain ⟨hus, hts, hsupper⟩ := hu.add_bounds ht hs (hp₀.trans hpu) ht₀
  obtain ⟨hpupper, hplower⟩ := h.x.mul_self_bounds hp
  obtain ⟨hqupper, hqlower⟩ := h.y.mul_self_bounds hq
  obtain ⟨htupper, htlower⟩ := h.z.mul_self_bounds ht
  -- a square that is next to nothing is small against the squared length, which is not
  have hleast : (2 : ℝ) ^ (-149 : ℤ) < 2 * s := by
    rw [← hs.nearest_eq, nearest_pos_iff] at hpos
    norm_num at hpos ⊢
    linarith
  have hlane : ∀ {r p : ℝ}, p ≤ s → (2 ^ (-149 : ℤ) ≤ r → r ≤ 2 * p) → r ≤ 2 * s := by
    intro r p hps hlower
    by_cases hr : 2 ^ (-149 : ℤ) ≤ r
    · linarith [hlower hr]
    · linarith
  refine ⟨hlane (hpu.trans hus) hplower, hlane (hqu.trans hus) hqlower, hlane hts htlower, ?_⟩
  linarith [mul_self_nonneg c]

/-- The reciprocal of the length brings the lanes near to one: not beyond eight, and not all of them
    to next to nothing. -/
theorem Denotes.exists_normalize (h : v.Denotes a b c)
    (hs : Single.Denotes v.lengthSquared s) (hpos : 0 < s) :
    ∃ a' b' c', v.normalize.Denotes (nearest .binary32 a') (nearest .binary32 b')
      (nearest .binary32 c') ∧ 1 ≤ 128 * (a' * a' + b' * b' + c' * c') := by
  obtain ⟨r, hr, hlower, hupper⟩ := hs.exists_inv_sqrt hpos
  obtain ⟨ha, hb, hc, hsum⟩ := h.lengthSquared_bounds hs hpos
  have hsquare : r * √s * (r * √s) = r * r * s := by
    rw [mul_mul_mul_comm, Real.mul_self_sqrt hpos.le]
  have hlane : ∀ {f : Float32} {x : ℝ}, Single.Denotes f x → x * x ≤ 2 * s →
      Single.Denotes (f * (1 / v.length)) (nearest .binary32 (x * r) : ℝ) := by
    intro f x hf hx
    have hproduct : (x * r) ^ 2 ≤ 8 ^ 2 := by
      calc (x * r) ^ 2 = x * x * (r * r) := by ring
        _ ≤ 2 * s * (r * r) := mul_le_mul_of_nonneg_right hx (mul_self_nonneg r)
        _ = 2 * (r * √s * (r * √s)) := by rw [hsquare]; ring
        _ ≤ 2 * (4 * 4) := by gcongr; linarith
        _ ≤ 8 ^ 2 := by norm_num
    have habs := abs_le_of_sq_le_sq hproduct (by norm_num)
    exact hf.mul_real hr (habs.trans (by norm_num))
  refine ⟨a * r, b * r, c * r, ⟨hlane h.x ha, hlane h.y hb, hlane h.z hc⟩, ?_⟩
  have hlower_square : 1 ≤ 16 * (r * r * s) := by
    rw [← hsquare]
    nlinarith
  calc 1 ≤ 16 * (r * r * s) := hlower_square
    _ ≤ 16 * (r * r * (8 * (a * a + b * b + c * c))) := by
        gcongr
        exact mul_self_nonneg r
    _ = 128 * (a * r * (a * r) + b * r * (b * r) + c * r * (c * r)) := by ring

/-- Where the squared length is positive and finite, the normal is finite and not zero. -/
theorem Denotes.normalize_usable (h : v.Denotes a b c)
    (hs : Single.Denotes v.lengthSquared s) (hpos : 0 < s) :
    v.normalize.isFinite = true ∧ v.normalize.isZero = false := by
  obtain ⟨a', b', c', hn, hsum⟩ := h.exists_normalize hs hpos
  refine ⟨isFinite_iff.2 ⟨_, _, _, hn⟩, Bool.eq_false_iff.2 fun hzero => ?_⟩
  rw [isZero_iff] at hzero
  have hsmall : ∀ {x : ℝ}, nearest .binary32 x = 0 → x * x ≤ 1 / 1000 := by
    intro x hx
    rw [← abs_mul_abs_self x]
    have hle := (abs_le_of_nearest_eq_zero hx).trans (by norm_num : _ ≤ (1 / 100 : ℝ))
    nlinarith [abs_nonneg x]
  have ha := hsmall (EReal.coe_eq_coe_iff.1 (hn.x.unique hzero.x))
  have hb := hsmall (EReal.coe_eq_coe_iff.1 (hn.y.unique hzero.y))
  have hc := hsmall (EReal.coe_eq_coe_iff.1 (hn.z.unique hzero.z))
  linarith

/-- Where it is infinite, the normal is zero. -/
theorem Denotes.normalize_isZero (h : v.Denotes a b c) (hs : Single.Denotes v.lengthSquared ⊤) :
    v.normalize.isZero = true := by
  have hlane : ∀ {f : Float32} {x : ℝ}, Single.Denotes f x →
      Single.Denotes (f * (1 / v.length)) (0 : ℝ) := by
    intro f x hf
    have hproduct := hf.mul hs.inv_sqrt_top
    rwa [mul_zero, EReal.coe_zero, Single.rounded_zero] at hproduct
  exact isZero_iff.2 ⟨hlane h.x, hlane h.y, hlane h.z⟩

end Vec3

/-! ## Planes -/

namespace Program

variable {n : Vec3}

theorem plane_of_pos (hfinite : n.isFinite = true) (hpos : 0 < n.lengthSquared) :
    plane n = .ok (leaf (.plane n.normalize)) := by
  rw [plane, if_pos (by simp [hfinite, hpos])]

theorem plane_of_not_pos (h : ¬(0 < n.lengthSquared ∧ n.isFinite = true)) :
    plane n = .error (.normal n) := by
  rw [plane, if_neg (by simpa using h)]

/-- Of a normal with finite lanes, the squared length decides whether it is refused, brought to
    length or stored as zero. -/
theorem plane_cases {a b c : ℝ} (h : n.Denotes a b c) :
    (¬0 < n.lengthSquared ∧ n.lengthSquared.isFinite = true ∧ plane n = .error (.normal n)) ∨
    0 < n.lengthSquared ∧ plane n = .ok (leaf (.plane n.normalize)) ∧
      (n.lengthSquared.isFinite = true ∧
          n.normalize.isFinite = true ∧ n.normalize.isZero = false ∨
        n.lengthSquared.isFinite = false ∧ n.normalize.isZero = true) := by
  by_cases hpos : 0 < n.lengthSquared
  · refine .inr ⟨hpos, plane_of_pos (Vec3.isFinite_iff.2 ⟨a, b, c, h⟩) hpos, ?_⟩
    rcases Single.eq_top_or_exists_real h.lengthSquared_nonneg with htop | ⟨s, hs, -⟩
    · refine .inr ⟨Bool.eq_false_iff.2 fun hfinite => ?_, h.normalize_isZero htop⟩
      obtain ⟨s, hs⟩ := Single.isFinite_iff.1 hfinite
      exact EReal.coe_ne_top s (hs.unique htop)
    · have hs₀ : 0 < s := EReal.coe_pos.1 ((Single.denotes_zero.lt_iff hs).1 hpos)
      exact .inl ⟨Single.isFinite_iff.2 ⟨s, hs⟩, h.normalize_usable hs hs₀⟩
  · refine .inl ⟨hpos, h.isFinite_lengthSquared ?_, plane_of_not_pos fun hboth => hpos hboth.1⟩
    rw [h.lengthSquared_pos_iff, not_lt] at hpos
    exact hpos.trans (by norm_num)

/-- **Which planes have a normal that is of use.** A normal that is zero or not finite is refused.
    One with finite lanes is refused if they are all so small that their squares are rounded to
    zero, and only then. What is stored of the others is finite and not zero if the squared length
    has room, and zero if it has none; there is room up to lanes of `2 ^ 63`, and none from `2 ^ 64`
    on. -/
theorem plane_normal (n : Vec3) :
    (n.isFinite = false ∨ n.isZero = true → plane n = .error (.normal n)) ∧
    ∀ a b c : ℝ, n.Denotes a b c →
      (plane n = .error (.normal n) ↔ max |a| (max |b| |c|) ≤ 2 ^ (-75 : ℤ)) ∧
      (plane n = .ok (leaf (.plane n.normalize)) ∧
          n.normalize.isFinite = true ∧ n.normalize.isZero = false ↔
        2 ^ (-75 : ℤ) < max |a| (max |b| |c|) ∧ n.lengthSquared.isFinite = true) ∧
      (plane n = .ok (leaf (.plane n.normalize)) ∧ n.normalize.isZero = true ↔
        n.lengthSquared.isFinite = false) ∧
      (max |a| (max |b| |c|) ≤ 2 ^ 63 → n.lengthSquared.isFinite = true) ∧
      (2 ^ 64 ≤ max |a| (max |b| |c|) → n.lengthSquared.isFinite = false) := by
  constructor
  · rintro (hinfinite | hzero)
    · exact plane_of_not_pos fun h => by simp [hinfinite] at h
    · refine plane_of_not_pos fun h => ?_
      have hpos := (Vec3.isZero_iff.1 hzero).lengthSquared_pos_iff.1 h.1
      norm_num at hpos
  · intro a b c h
    have hroom := h.isFinite_lengthSquared
    have hnone := fun hle => Bool.eq_false_iff.2 (h.not_isFinite_lengthSquared hle)
    have hvanish : max |a| (max |b| |c|) ≤ 2 ^ (-75 : ℤ) ↔ ¬0 < n.lengthSquared := by
      rw [h.lengthSquared_pos_iff, not_lt]
    rw [hvanish, ← h.lengthSquared_pos_iff]
    rcases plane_cases h with ⟨hpos, hfinite, hplane⟩ | ⟨hpos, hplane, hstored⟩
    · exact ⟨by simp [hpos, hplane], by simp [hpos, hplane], by simp [hplane, hfinite],
        hroom, hnone⟩
    · rcases hstored with ⟨hfinite, hnormal, hzero⟩ | ⟨hfinite, hzero⟩
      · exact ⟨by simp [hpos, hplane], by simp [hpos, hplane, hfinite, hnormal, hzero],
          by simp [hfinite, hzero], hroom, hnone⟩
      · exact ⟨by simp [hpos, hplane], by simp [hfinite, hzero],
          by simp [hplane, hfinite, hzero], hroom, hnone⟩

/-- A normal that is stored, one that is refused, and one whose squared length has no room. -/
theorem plane_normal_two :
    let two : Vec3 := ⟨0, 0, 2⟩
    let zero : Vec3 := ⟨0, -0, 0⟩
    let huge : Vec3 := ⟨0, .ofBits 0x71800000, 0⟩
    (plane two = .ok (leaf (.plane two.normalize)) ∧
      two.normalize.isFinite = true ∧ two.normalize.isZero = false) ∧
    plane zero = .error (.normal zero) ∧
    plane huge = .ok (leaf (.plane huge.normalize)) ∧ huge.normalize.isZero = true := by
  intro two zero huge
  have htwo : two.Denotes (0 : ℝ) (0 : ℝ) 2 :=
    ⟨Single.denotes_zero, Single.denotes_zero, Single.denotes_two⟩
  obtain ⟨-, hstored, -⟩ := (plane_normal two).2 0 0 2 htwo
  obtain ⟨a, b, c, hhuge⟩ := Vec3.isFinite_iff.1 (by decide +kernel : huge.isFinite = true)
  obtain ⟨-, -, hvanishes, -⟩ := (plane_normal huge).2 a b c hhuge
  exact ⟨hstored.2 ⟨by norm_num, by decide +kernel⟩,
    (plane_normal zero).1 (.inr (by decide +kernel)), hvanishes.2 (by decide +kernel)⟩

/-- A normal may be a good way from zero, and yet its square is not, so that it is refused; or its
    square is infinite, and zeros are stored. -/
theorem plane_unusable :
    let small : Vec3 := ⟨.ofBits 0x0d800000, 0, 0⟩
    let huge : Vec3 := ⟨.ofBits 0x71800000, 0, 0⟩
    (small.isFinite = true ∧ small.isZero = false ∧ plane small = .error (.normal small)) ∧
    huge.isFinite = true ∧ huge.isZero = false ∧
      plane huge = .ok (leaf (.plane huge.normalize)) ∧ huge.normalize.isZero = true := by
  intro small huge
  exact ⟨⟨by decide +kernel, by decide +kernel, plane_of_not_pos (by decide +kernel)⟩,
    by decide +kernel, by decide +kernel,
    plane_of_pos (by decide +kernel) (by decide +kernel), by decide +kernel⟩

end Program

end SignedDistance
