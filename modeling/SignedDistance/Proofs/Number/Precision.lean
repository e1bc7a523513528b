import SignedDistance.Proofs.Number.Double
import SignedDistance.Proofs.Number.Single

set_option autoImplicit false

/-! # Changing precision

A change of precision rounds a number once, to the nearest one of the new format, or to an infinity
if there is no room for it. Every single is a double, so that nothing is lost on the way there. -/

namespace SignedDistance

open Float.Model (Format UnpackedFloat)

variable {S T : Format} {u : UnpackedFloat} {y : EReal} {g : ℝ}

/-! ## From format to format -/

theorem fit_top (S : Format) : fit S ⊤ = ⊤ := if_pos le_top

theorem fit_bot (S : Format) : fit S ⊥ = ⊥ := by rw [fit, if_neg (by simp), if_pos bot_le]

theorem fit_fit (S : Format) (y : EReal) : fit S (fit S y) = fit S y := by
  by_cases htop : (limit S : EReal) ≤ y
  · rw [show fit S y = ⊤ from if_pos htop, fit_top]
  by_cases hbot : y ≤ (-limit S : ℝ)
  · rw [show fit S y = ⊥ by rw [fit, if_neg htop, if_pos hbot], fit_bot]
  · have hself : fit S y = y := by rw [fit, if_neg htop, if_neg hbot]
    rw [hself, hself]

theorem abs_lt_limit_of_fit {x : ℝ} (h : fit S x = x) : |x| < limit S := by
  rw [fit] at h
  split_ifs at h with htop hbot
  · exact absurd h (EReal.top_ne_coe x)
  · exact absurd h (EReal.bot_ne_coe x)
  · rw [EReal.coe_le_coe_iff, not_le] at htop hbot
    exact abs_lt.2 ⟨hbot, htop⟩

/-- What one format has room for, another one with a greater limit has as well. -/
theorem fit_eq_self_of_limit_le (hlimit : limit T ≤ limit S) (h : fit T y = y) : fit S y = y := by
  induction y with
  | bot => exact fit_bot S
  | top => exact fit_top S
  | coe x => exact fit_coe ((abs_lt_limit_of_fit h).trans_le hlimit)

/-- With more digits and smaller exponents there are more numbers. -/
theorem Representable.mono (hbits : T.mantissaBits ≤ S.mantissaBits)
    (hmin : S.minExponent ≤ T.minExponent) (h : Representable T g) : Representable S g := by
  obtain ⟨n, k, hn, hk, rfl⟩ := h
  exact ⟨n, k, hn.trans (pow_le_pow_right₀ one_le_two hbits), hmin.trans hk, rfl⟩

namespace Unpacked

/-- **A change of format is one rounding.** -/
theorem holds_reformat (S : Format) (hu : Holds T u y) :
    Holds S (reformat S u) (nearestExt S y) := by
  obtain ⟨-, hnan, hvalue⟩ := hu
  rcases u with (_ | _) | _ | s | ⟨s, m, e, hm⟩
  · rw [← hvalue, value_bot, nearestExt_bot]
    exact Holds.bot S
  · rw [← hvalue, value_top, nearestExt_top]
    exact Holds.top S
  · exact absurd hnan Bool.noConfusion
  · rw [← hvalue, value_zero, ← EReal.coe_zero, nearestExt_coe, nearest_zero]
    exact Holds.zero S s
  · rw [← hvalue, value_finite, nearestExt_coe, ← signed_mul_zpow]
    exact holds_round hm e s

theorem isNaN_reformat (S : Format) (h : u.isNaN = true) : reformat S u = .notANumber := by
  rcases u with _ | _ | _ | _
  · exact absurd h Bool.noConfusion
  · rfl
  · exact absurd h Bool.noConfusion
  · exact absurd h Bool.noConfusion

/-- Parts are put together, and taken apart and put together again as bits; only the first time is
    there anything to fit. -/
theorem holds_repack (hbias : 0 < S.exponentBias) (hu : Holds S u y) :
    Holds S (.unpack S (UnpackedFloat.pack S (.unpack S (UnpackedFloat.pack S u)))) (fit S y) := by
  have hpacked := holds_unpack_pack hbias (holds_unpack_pack hbias hu)
  rwa [fit_fit] at hpacked

end Unpacked

/-! ## Singles to doubles -/

theorem Double.denotes_ofParts_fit (hu : Unpacked.Holds .binary64 u y) :
    Double.Denotes (Double.ofParts u) (fit .binary64 y) :=
  Unpacked.holds_repack Double.binary64_bias_pos hu

theorem Single.denotes_ofParts_fit (hu : Unpacked.Holds .binary32 u y) :
    Single.Denotes (Single.ofParts u) (fit .binary32 y) :=
  Unpacked.holds_repack Single.binary32_bias_pos hu

/-- **A single becomes the double of the same number.** -/
theorem Single.Denotes.toDouble {a : Float32} (ha : Single.Denotes a y) :
    Double.Denotes (Single.toDouble a) y := by
  have hnearest : nearestExt .binary64 y = y := by
    induction y with
    | bot => exact nearestExt_bot
    | top => exact nearestExt_top
    | coe x =>
      have hsingle : Representable .binary32 x :=
        ha.nearest_eq ▸ representable_nearest .binary32 x
      rw [nearestExt_coe, nearest_eq_self (hsingle.mono (by decide) (by decide))]
  have hfit : fit .binary64 y = y := by
    have hsingle : fit .binary32 y = y := by
      rw [← ha.value]
      exact Unpacked.fit_value_unpack Single.binary32_bias_pos a.toModel.valid
    refine fit_eq_self_of_limit_le ?_ hsingle
    rw [Single.limit_binary32]
    exact (Double.two_pow_lt_limit (by decide)).le
  have hdouble := Double.denotes_ofParts_fit (Unpacked.holds_reformat .binary64 ha)
  rw [hnearest, hfit] at hdouble
  exact hdouble

theorem Single.isNaN_toDouble {a : Float32} (h : a.isNaN = true) :
    (Single.toDouble a).isNaN = true := by
  have hreformat : reformat .binary64 (Single.parts a) = .notANumber :=
    Unpacked.isNaN_reformat .binary64 h
  rw [Single.toDouble, hreformat]
  rfl

/-! ## Doubles to singles -/

/-- **A double becomes the nearest single.** -/
theorem Double.Denotes.toSingle {a : Float} (ha : Double.Denotes a y) :
    Single.Denotes (Double.toSingle a) (Single.rounded y) :=
  Single.denotes_ofParts_fit (Unpacked.holds_reformat .binary32 ha)

end SignedDistance
