import SignedDistance.Proofs.Gradient

set_option autoImplicit false

/-! # Fields turned inside out

Where solid and empty space change places, every distance changes its sign, and the surface is seen
from its other side: the normal is the opposite one. Every operation on the way from the samples to
the normal is a sum, a product with the same factor, or a square, and rounding treats both signs
alike. Only the sign of a zero may differ, and a square does not see that either, so that both
fields take the same branch. -/

namespace SignedDistance

namespace Single

variable {a b : Float32}

theorem Void.alike_neg (h : Void a) : Alike a (-a) := by
  rcases void_iff.1 h with hnan | hzero
  · exact .inl (eq_of_isNaN hnan ((isNaN_neg a).trans hnan))
  · have hneg := hzero.neg
    rw [neg_zero] at hneg
    exact hzero.alike hneg

theorem Alike.mul_right (h : Alike a b) (c : Float32) : Alike (a * c) (b * c) := by
  have hzero : Alike (0 * c) (-0 * c) := by
    rw [Single.neg_mul]
    exact (denotes_zero.void.mul c).alike_neg
  rcases h with rfl | h
  · rfl
  · obtain ⟨-, -, rfl | ⟨rfl, rfl⟩ | ⟨rfl, rfl⟩⟩ := Float32.beq_iff_ne_nan_and_eq.1 h
    · rfl
    · exact hzero
    · exact hzero.symm

theorem Alike.mul_self_eq (h : Alike a (-b)) : a * a = b * b := by
  rw [← mul_abs_self a, h.abs_eq, abs_neg, mul_abs_self]

theorem neg_sub_neg_alike (a b : Float32) : Alike (-a - -b) (-(a - b)) := by
  rw [Single.sub_eq_add_neg, Single.sub_eq_add_neg]
  exact (neg_add_alike a (-b)).symm

end Single

/-! ## Vectors -/

namespace Vec3

/-- The lanes are the same, up to the sign of zeros. -/
structure Alike (v w : Vec3) : Prop where
  x : Single.Alike v.x w.x
  y : Single.Alike v.y w.y
  z : Single.Alike v.z w.z

variable {v w : Vec3}

/-- A vector and its opposite are of the same length. -/
theorem Alike.lengthSquared_eq (h : Alike v (-w)) : v.lengthSquared = w.lengthSquared := by
  rw [lengthSquared, lengthSquared, dot, dot, h.x.mul_self_eq, h.y.mul_self_eq, h.z.mul_self_eq]

theorem Alike.scale (h : Alike v (-w)) (a : Float32) : Alike (v.scale a) (-w.scale a) := by
  have hlane : ∀ {f g : Float32}, Single.Alike f (-g) → Single.Alike (f * a) (-(g * a)) := by
    intro f g h
    rw [← Single.neg_mul]
    exact h.mul_right a
  exact ⟨hlane h.x, hlane h.y, hlane h.z⟩

theorem Alike.normalize (h : Alike v (-w)) : Alike v.normalize (-w.normalize) := by
  rw [Vec3.normalize, Vec3.normalize, length, length, h.lengthSquared_eq]
  exact h.scale _

theorem Alike.normalizeOrZero (h : Alike v (-w)) :
    Alike v.normalizeOrZero (-w.normalizeOrZero) := by
  rw [Vec3.normalizeOrZero, Vec3.normalizeOrZero, length, length, h.lengthSquared_eq]
  split_ifs
  · exact h.scale _
  · have hzero := Single.denotes_zero.void.alike_neg
    exact ⟨hzero, hzero, hzero⟩

/-- Adding the opposite of what is added on the other side. -/
theorem Alike.add_neg {u : Vec3} (h : Alike v (-w)) : Alike (v + -u) (-(w + u)) := by
  have hlane : ∀ {f g k : Float32}, Single.Alike f (-g) → Single.Alike (f + -k) (-(g + k)) :=
    fun h => (h.add (.refl _)).trans (Single.neg_add_alike _ _).symm
  exact ⟨hlane h.x, hlane h.y, hlane h.z⟩

end Vec3

/-! ## Fields -/

namespace Field

/-- The field in which solid and empty space have changed places. -/
def reversed (field : Field) : Field := fun p => -field p

variable (field : Field) (p : Vec3) (step : Float32)

/-- Samples of both fields added to opposite sums. -/
theorem foldl_reversed (ks : List Vec3) {s t : Vec3} (h : Vec3.Alike s (-t)) :
    Vec3.Alike
      (ks.foldl (fun sum k => sum + k.scale (field.reversed (p + k.scale step))) s)
      (-ks.foldl (fun sum k => sum + k.scale (field (p + k.scale step))) t) := by
  induction ks generalizing s t with
  | nil => exact h
  | cons k ks ih =>
    have hsample : ∀ d : Float32, k.scale (-d) = -k.scale d := by
      intro d
      rw [Vec3.scale, Single.mul_neg, Single.mul_neg, Single.mul_neg]
      rfl
    rw [List.foldl_cons, List.foldl_cons, reversed, hsample]
    exact ih h.add_neg

theorem cornerSum_reversed :
    Vec3.Alike (field.reversed.cornerSum p step) (-field.cornerSum p step) := by
  have hzero := Single.denotes_zero.void.alike_neg
  exact field.foldl_reversed p step corners ⟨hzero, hzero, hzero⟩

theorem forwardDifferences_reversed :
    Vec3.Alike (field.reversed.forwardDifferences p step) (-field.forwardDifferences p step) :=
  ⟨Single.neg_sub_neg_alike _ _, Single.neg_sub_neg_alike _ _, Single.neg_sub_neg_alike _ _⟩

/-- **Inside out, the normal is the opposite one**, lane by lane and up to the sign of zeros. The
    corners decide for one field if they decide for the other, and else the differences do, which
    are of use for both fields or for none. -/
theorem estimate_reversed :
    (0 < (field.reversed.cornerSum p step).lengthSquared ↔
      0 < (field.cornerSum p step).lengthSquared) ∧
    (field.reversed.forwardDifferences p step).lengthSquared =
      (field.forwardDifferences p step).lengthSquared ∧
    Vec3.Alike (field.reversed.estimate p step) (-field.estimate p step) := by
  have hcorners := field.cornerSum_reversed p step
  have hdifferences := field.forwardDifferences_reversed p step
  refine ⟨by rw [hcorners.lengthSquared_eq], hdifferences.lengthSquared_eq, ?_⟩
  rw [estimate, estimate, hcorners.lengthSquared_eq]
  split_ifs
  · exact hcorners.normalize
  · exact hdifferences.normalizeOrZero

end Field

end SignedDistance
