import SignedDistance.Proofs.Fixed.Conversion

set_option autoImplicit false

/-! # Offsets between positions

An offset is the difference of two positions, taken in integers and made a vector of singles after
that. So it depends on nothing but the difference of the raw values, and where the two positions are
in the world does not matter, as long as the difference fits. Up to `2 ^ 24` units, which is 256 to
either side, singles have room for every digit of it. -/

namespace SignedDistance

/-- The single is the number with the raw value `n`, unless that has more digits than there is room
    for. -/
def Single.IsUnits (a : Float32) (n : ℤ) : Prop := |n| ≤ 2 ^ 24 → Denotes a (n / 65536 : ℝ)

namespace Fixed

variable {a b c a' b' : Fixed} {fault : Fault}

theorem isUnits_toSingle (a : Fixed) : Single.IsUnits a.toSingle a.raw := denotes_toSingle

theorem sub_eq_error_iff : a.sub b = .error fault ↔ fault = .subtraction ∧ ¬Fits (a.raw - b.raw) :=
  checked_eq_error_iff

/-- What is added to both numbers does not show in their difference. -/
theorem sub_shift (ha : a.add c = .ok a') (hb : b.add c = .ok b') : a'.sub b' = a.sub b := by
  rw [sub, sub, add_eq_ok_iff.1 ha, add_eq_ok_iff.1 hb, add_sub_add_right_eq_sub]

end Fixed

namespace FixedVec

variable {v w o d v' o' : FixedVec} {fault : Fault} {offset : Vec3}

theorem relativeTo_eq_ok_iff :
    v.relativeTo o = .ok offset ↔ ∃ w, v.sub o = .ok w ∧ w.toVec3 = offset := by
  rw [relativeTo, bind_eq_ok_iff]
  simp [pure, Except.pure]

theorem relativeTo_eq_error_iff : v.relativeTo o = .error fault ↔ v.sub o = .error fault := by
  rw [relativeTo, bind_eq_error_iff]
  simp [pure, Except.pure]

theorem sub_shift (hv : v.add d = .ok v') (ho : o.add d = .ok o') : v'.sub o' = v.sub o := by
  obtain ⟨hvx, hvy, hvz⟩ := zipLanes_eq_ok_iff.1 hv
  obtain ⟨hox, hoy, hoz⟩ := zipLanes_eq_ok_iff.1 ho
  rw [sub, zipLanes, zipLanes, Fixed.sub_shift hvx hox, Fixed.sub_shift hvy hoy,
    Fixed.sub_shift hvz hoz]

/-- **An offset is as precise far from the world's origin as it is near it.** There is none only if
    a lane of the difference does not fit. Otherwise every lane with no more than `2 ^ 24` units is
    exact, and moving both positions along makes no difference at all. -/
theorem relativeTo_exact (v o : FixedVec) :
    (∀ fault, v.relativeTo o = .error fault ↔ fault = .subtraction ∧
      (¬Fixed.Fits (v.x.raw - o.x.raw) ∨ ¬Fixed.Fits (v.y.raw - o.y.raw) ∨
        ¬Fixed.Fits (v.z.raw - o.z.raw))) ∧
    (∀ offset, v.relativeTo o = .ok offset →
      Single.IsUnits offset.x (v.x.raw - o.x.raw) ∧ Single.IsUnits offset.y (v.y.raw - o.y.raw) ∧
        Single.IsUnits offset.z (v.z.raw - o.z.raw)) ∧
    ∀ d v' o', v.add d = .ok v' → o.add d = .ok o' → v'.relativeTo o' = v.relativeTo o := by
  refine ⟨fun fault => ?_, fun offset h => ?_, fun d v' o' hv ho => ?_⟩
  · rw [relativeTo_eq_error_iff]
    exact zipLanes_eq_error_iff fun _ _ _ => Fixed.sub_eq_error_iff
  · obtain ⟨w, hw, rfl⟩ := relativeTo_eq_ok_iff.1 h
    obtain ⟨hx, hy, hz⟩ := zipLanes_eq_ok_iff.1 hw
    rw [← Fixed.sub_eq_ok_iff.1 hx, ← Fixed.sub_eq_ok_iff.1 hy, ← Fixed.sub_eq_ok_iff.1 hz]
    exact ⟨w.x.isUnits_toSingle, w.y.isUnits_toSingle, w.z.isUnits_toSingle⟩
  · rw [relativeTo, relativeTo, sub_shift hv ho]

/-- Two positions far out that are not far from each other, both moved along, and two at the ends of
    the range. -/
theorem relativeTo_exact_far :
    let o := ofInts 50000000 (-20000000) 7
    let v : FixedVec := ⟨.saturate (o.x.raw + 8192), .saturate (o.y.raw - 1), o.z⟩
    (∃ offset, v.relativeTo o = .ok offset ∧ Single.Denotes offset.x (8192 / 65536 : ℝ) ∧
      Single.Denotes offset.y (-1 / 65536 : ℝ) ∧
      ∃ d v' o', v.add d = .ok v' ∧ o.add d = .ok o' ∧ v' ≠ v ∧ v'.relativeTo o' = .ok offset) ∧
    (splat .greatest).relativeTo (splat .least) = .error .subtraction := by
  intro o v
  obtain ⟨-, hexact, hshift⟩ := relativeTo_exact v o
  constructor
  · obtain ⟨offset, hoffset⟩ : ∃ offset, v.relativeTo o = .ok offset := ⟨_, rfl⟩
    obtain ⟨v', hv⟩ : ∃ v', v.add (ofInts 1 2 (-3)) = .ok v' := ⟨_, rfl⟩
    obtain ⟨o', ho⟩ : ∃ o', o.add (ofInts 1 2 (-3)) = .ok o' := ⟨_, rfl⟩
    obtain ⟨hx, hy, -⟩ := hexact offset hoffset
    have hdx : v.x.raw - o.x.raw = 8192 := by decide
    have hdy : v.y.raw - o.y.raw = -1 := by decide
    rw [hdx] at hx
    rw [hdy] at hy
    have hne : v' ≠ v := by
      rintro rfl
      exact absurd hv (by decide)
    refine ⟨offset, hoffset, ?_, ?_, _, v', o', hv, ho, hne, (hshift _ _ _ hv ho).trans hoffset⟩
    · rw [← Int.cast_ofNat]
      exact hx (by decide)
    · rw [← Int.cast_one, ← Int.cast_neg]
      exact hy (by decide)
  · exact ((relativeTo_exact _ _).1 _).2 ⟨rfl, .inl (by decide)⟩

end FixedVec

end SignedDistance
