import SignedDistance.Proofs.Fixed.Products

set_option autoImplicit false

/-! # Interpolation between positions

A position between two others is the first of them and a part of the offset to the second. Where the
offset fits, so does all that comes after it: a part of an offset, rounded down, still lies between
zero and the offset, whatever its sign, and so the sum lies between the two positions. Only the
offset itself can be at fault. -/

namespace SignedDistance

namespace Fixed

variable {a b c d s t : Fixed} {n : ℤ}

/-! ## On one lane -/

/-- A part of an integer, rounded down, lies between zero and the integer. -/
theorem mul_ediv_unit_mem (m : ℤ) (h₀ : 0 ≤ n) (h₁ : n ≤ unit) : m * n / unit ∈ Set.uIcc 0 m := by
  rw [Set.mem_uIcc]
  rcases le_total 0 m with hm | hm
  · left
    have hle : m * n ≤ m * unit := mul_le_mul_of_nonneg_left h₁ hm
    exact ⟨Int.ediv_nonneg (mul_nonneg hm h₀) (by decide), Int.ediv_le_of_le_mul (by decide) hle⟩
  · right
    have hle : m * unit ≤ m * n := mul_le_mul_of_nonpos_left h₁ hm
    have hnonpos : m * n ≤ 0 := mul_nonpos_of_nonpos_of_nonneg hm h₀
    refine ⟨Int.le_ediv_of_mul_le (by decide) hle, Int.ediv_le_of_le_mul (by decide) ?_⟩
    rwa [zero_mul]

/-- The raw value a part `t` of the way from `a` to `b`. -/
def partWay (a b t : Fixed) : ℤ := a.raw + (b.raw - a.raw) * t.raw / unit

theorem partWay_zero (a b : Fixed) : partWay a b zero = a.raw := by
  unfold partWay
  change a.raw + (b.raw - a.raw) * 0 / unit = a.raw
  rw [mul_zero, Int.zero_ediv, add_zero]

theorem partWay_one (a b : Fixed) : partWay a b one = b.raw := by
  unfold partWay
  change a.raw + (b.raw - a.raw) * unit / unit = b.raw
  rw [Int.mul_ediv_cancel _ (by decide), add_sub_cancel]

theorem partWay_mem (h₀ : zero ≤ t) (h₁ : t ≤ one) : partWay a b t ∈ Set.uIcc a.raw b.raw := by
  have hmem := mul_ediv_unit_mem (b.raw - a.raw) (le_iff_raw.1 h₀) (le_iff_raw.1 h₁)
  unfold partWay
  rw [Set.mem_uIcc] at hmem ⊢
  omega

theorem partWay_monotone (h : a ≤ b) : Monotone (partWay a b) := by
  intro s t hst
  have hoffset : 0 ≤ b.raw - a.raw := sub_nonneg.2 (le_iff_raw.1 h)
  have hle := mul_le_mul_of_nonneg_left (le_iff_raw.1 hst) hoffset
  exact add_le_add_right (ediv_unit_monotone hle) a.raw

theorem partWay_antitone (h : b ≤ a) : Antitone (partWay a b) := by
  intro s t hst
  have hoffset : b.raw - a.raw ≤ 0 := sub_nonpos.2 (le_iff_raw.1 h)
  have hle := mul_le_mul_of_nonpos_left (le_iff_raw.1 hst) hoffset
  exact add_le_add_right (ediv_unit_monotone hle) a.raw

/-- Behind an offset that fits, neither the product saturates nor the sum fails. -/
theorem exists_add_mul (hd : b.sub a = .ok d) (h₀ : zero ≤ t) (h₁ : t ≤ one) :
    ∃ c, a.add (d.mul t) = .ok c ∧ c.raw = partWay a b t := by
  have hoffset := sub_eq_ok_iff.1 hd
  have hmem := mul_ediv_unit_mem d.raw (le_iff_raw.1 h₀) (le_iff_raw.1 h₁)
  have hmul : (d.mul t).raw = d.raw * t.raw / unit :=
    raw_mul (not_not.2 (fits_of_mem (a := zero) hmem))
  obtain ⟨c, hc⟩ := exists_raw_eq (fits_of_mem (partWay_mem (a := a) (b := b) h₀ h₁))
  refine ⟨c, add_eq_ok_iff.2 ?_, hc⟩
  rw [hc, hmul, hoffset]
  rfl

/-- The step from `c` to `d` leads the way from `a` to `b`, if anywhere. -/
def Along (a b c d : Fixed) : Prop := (a ≤ b → c ≤ d) ∧ (b ≤ a → d ≤ c)

theorem along_partWay (hst : s ≤ t) (hc : c.raw = partWay a b s)
    (hd : d.raw = partWay a b t) : Along a b c d := by
  constructor
  · intro h
    rw [le_iff_raw, hc, hd]
    exact partWay_monotone h hst
  · intro h
    rw [le_iff_raw, hc, hd]
    exact partWay_antitone h hst

end Fixed

namespace FixedVec

variable {u v w p q : FixedVec} {s t : Fixed} {fault : Fault}

/-! ## On all lanes -/

/-- The offset between two positions does not fit on some lane. -/
def FarApart (v w : FixedVec) : Prop :=
  ¬Fixed.Fits (w.x.raw - v.x.raw) ∨ ¬Fixed.Fits (w.y.raw - v.y.raw) ∨
    ¬Fixed.Fits (w.z.raw - v.z.raw)

instance (v w : FixedVec) : Decidable (v.FarApart w) := inferInstanceAs (Decidable (_ ∨ _))

theorem sub_eq_error_iff : w.sub v = .error fault ↔ fault = .subtraction ∧ v.FarApart w :=
  zipLanes_eq_error_iff fun _ _ _ => Fixed.checked_eq_error_iff

theorem exists_sub (h : ¬v.FarApart w) : ∃ offset, w.sub v = .ok offset := by
  cases hsub : w.sub v with
  | error fault => exact absurd (sub_eq_error_iff.1 hsub).2 h
  | ok offset => exact ⟨offset, rfl⟩

/-- The position is a part `t` of the way from `v` to `w`. -/
structure IsPartWay (v w : FixedVec) (t : Fixed) (u : FixedVec) : Prop where
  x : u.x.raw = Fixed.partWay v.x w.x t
  y : u.y.raw = Fixed.partWay v.y w.y t
  z : u.z.raw = Fixed.partWay v.z w.z t

/-- Every lane lies between those of two positions. -/
structure IsBetween (v w u : FixedVec) : Prop where
  x : u.x.raw ∈ Set.uIcc v.x.raw w.x.raw
  y : u.y.raw ∈ Set.uIcc v.y.raw w.y.raw
  z : u.z.raw ∈ Set.uIcc v.z.raw w.z.raw

/-- On every lane, the step from `p` to `q` leads the way from `v` to `w`. -/
structure IsAlong (v w p q : FixedVec) : Prop where
  x : Fixed.Along v.x w.x p.x q.x
  y : Fixed.Along v.y w.y p.y q.y
  z : Fixed.Along v.z w.z p.z q.z

theorem exists_lerp (h : ¬v.FarApart w) (h₀ : Fixed.zero ≤ t) (h₁ : t ≤ Fixed.one) :
    ∃ u, v.lerp w t = .ok u ∧ IsPartWay v w t u := by
  obtain ⟨offset, hoffset⟩ := exists_sub h
  obtain ⟨hx, hy, hz⟩ := zipLanes_eq_ok_iff.1 hoffset
  obtain ⟨x, hx, hxraw⟩ := Fixed.exists_add_mul hx h₀ h₁
  obtain ⟨y, hy, hyraw⟩ := Fixed.exists_add_mul hy h₀ h₁
  obtain ⟨z, hz, hzraw⟩ := Fixed.exists_add_mul hz h₀ h₁
  refine ⟨⟨x, y, z⟩, ?_, hxraw, hyraw, hzraw⟩
  rw [lerp, hoffset]
  exact zipLanes_eq_ok_iff.2 ⟨hx, hy, hz⟩

/-- Behind the offset nothing fails. -/
theorem lerp_eq_error_iff (h₀ : Fixed.zero ≤ t) (h₁ : t ≤ Fixed.one) :
    v.lerp w t = .error fault ↔ fault = .subtraction ∧ v.FarApart w := by
  by_cases hfar : v.FarApart w
  · have hlerp : v.lerp w t = .error .subtraction := by
      rw [lerp, sub_eq_error_iff.2 ⟨rfl, hfar⟩]
      rfl
    rw [hlerp, Except.error.injEq, eq_comm]
    exact (and_iff_left hfar).symm
  · obtain ⟨u, hu, -⟩ := exists_lerp hfar h₀ h₁
    rw [hu]
    exact iff_of_false nofun fun h => hfar h.2

theorem IsPartWay.eq_left (h : IsPartWay v w Fixed.zero u) : u = v :=
  ext_raw (h.x.trans (Fixed.partWay_zero ..)) (h.y.trans (Fixed.partWay_zero ..))
    (h.z.trans (Fixed.partWay_zero ..))

theorem IsPartWay.eq_right (h : IsPartWay v w Fixed.one u) : u = w :=
  ext_raw (h.x.trans (Fixed.partWay_one ..)) (h.y.trans (Fixed.partWay_one ..))
    (h.z.trans (Fixed.partWay_one ..))

theorem IsPartWay.isBetween (h : IsPartWay v w t u) (h₀ : Fixed.zero ≤ t) (h₁ : t ≤ Fixed.one) :
    IsBetween v w u where
  x := h.x ▸ Fixed.partWay_mem h₀ h₁
  y := h.y ▸ Fixed.partWay_mem h₀ h₁
  z := h.z ▸ Fixed.partWay_mem h₀ h₁

theorem IsPartWay.isAlong (hp : IsPartWay v w s p) (hq : IsPartWay v w t q) (h : s ≤ t) :
    IsAlong v w p q where
  x := Fixed.along_partWay h hp.x hq.x
  y := Fixed.along_partWay h hp.y hq.y
  z := Fixed.along_partWay h hp.z hq.z

/-- **Interpolation fails only on an offset that does not fit**, and otherwise leads from the first
    position to the second without leaving the lanes between them or turning back. -/
theorem lerp_interpolates (v w : FixedVec) :
    (∀ t, Fixed.zero ≤ t → t ≤ Fixed.one → ∀ fault,
        v.lerp w t = .error fault ↔ fault = .subtraction ∧ v.FarApart w) ∧
      (¬v.FarApart w →
        v.lerp w .zero = .ok v ∧ v.lerp w .one = .ok w ∧
          (∀ t, Fixed.zero ≤ t → t ≤ Fixed.one → ∃ u, v.lerp w t = .ok u ∧ IsBetween v w u) ∧
          ∀ s t, Fixed.zero ≤ s → s ≤ t → t ≤ Fixed.one →
            ∃ p q, v.lerp w s = .ok p ∧ v.lerp w t = .ok q ∧ IsAlong v w p q) := by
  refine ⟨fun t h₀ h₁ fault => lerp_eq_error_iff h₀ h₁, fun h => ⟨?_, ?_, ?_, ?_⟩⟩
  · obtain ⟨u, hu, hpart⟩ := exists_lerp h le_rfl (Fixed.le_iff_raw.2 (by decide))
    rw [hu, hpart.eq_left]
  · obtain ⟨u, hu, hpart⟩ := exists_lerp h (Fixed.le_iff_raw.2 (by decide)) le_rfl
    rw [hu, hpart.eq_right]
  · intro t h₀ h₁
    obtain ⟨u, hu, hpart⟩ := exists_lerp h h₀ h₁
    exact ⟨u, hu, hpart.isBetween h₀ h₁⟩
  · intro s t h₀ hst h₁
    obtain ⟨p, hp, hps⟩ := exists_lerp h h₀ (hst.trans h₁)
    obtain ⟨q, hq, hqt⟩ := exists_lerp h (h₀.trans hst) h₁
    exact ⟨p, q, hp, hq, hps.isAlong hqt hst⟩

/-- Hardly a third of the way: on one lane over half of the range, on another down by two raw
    units, of which the rounded part is one. -/
theorem lerp_interpolates_third :
    let v : FixedVec := ⟨.least, .saturate 1, .zero⟩
    let w : FixedVec := ⟨.saturate (-1), .saturate (-1), .zero⟩
    let t : Fixed := .saturate 21845
    ¬v.FarApart w ∧ Fixed.zero ≤ t ∧ t ≤ Fixed.one ∧
      ∃ u, v.lerp w t = .ok u ∧ IsBetween v w u ∧ u.y.raw = 0 := by
  intro v w t
  have hfar : ¬v.FarApart w := by decide
  have h₀ : Fixed.zero ≤ t := Fixed.le_iff_raw.2 (by decide)
  have h₁ : t ≤ Fixed.one := Fixed.le_iff_raw.2 (by decide)
  obtain ⟨u, hu, hbetween⟩ := ((lerp_interpolates v w).2 hfar).2.2.1 t h₀ h₁
  have hlane : v.lerp w t = .ok ⟨.saturate (-6148961603732635649), .saturate 0, .zero⟩ := by decide
  rw [hlane] at hu
  cases hu
  exact ⟨hfar, h₀, h₁, _, hlane, hbetween, by decide⟩

end FixedVec

end SignedDistance
