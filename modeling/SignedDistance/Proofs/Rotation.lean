import SignedDistance.Program.Basic
import SignedDistance.Proofs.Number.Doubling
import SignedDistance.Proofs.Overflow

set_option autoImplicit false

/-! # Rotations by quaternions of any length

A quaternion and twice that quaternion denote one rotation. In a transform that is turned, the
composed rotation is brought back to unit length, so that it is the same for both. The translation
is turned by the quaternion as it is given, which stretches by the square of its length, so that it
is four times as long for the second as for the first. -/

namespace SignedDistance

open Single (KeepsDigits KeepAll testDigits testAll keepsDigits_of_testDigits keepAll_of_testAll)

/-! ## Lanes -/

namespace Vec3

def lanes (v : Vec3) : List Float32 := [v.x, v.y, v.z]

theorem forall_mem_lanes {P : Float32 → Prop} {v : Vec3} :
    (∀ a ∈ v.lanes, P a) ↔ P v.x ∧ P v.y ∧ P v.z := by
  simp [lanes]

/-- Lane by lane, `v` is `2 ^ k` times `w` if it is finite. -/
structure Times (k : ℕ) (v w : Vec3) : Prop where
  x : Single.Times k v.x w.x
  y : Single.Times k v.y w.y
  z : Single.Times k v.z w.z

namespace Times

variable {v w v' w' : Vec3} {a b : Float32} {j k : ℕ}

theorem refl (v : Vec3) : Times 0 v v := ⟨.refl _, .refl _, .refl _⟩

theorem add (h : Times k v w) (h' : Times k v' w') : Times k (v + v') (w + w') :=
  ⟨h.x.add h'.x, h.y.add h'.y, h.z.add h'.z⟩

theorem scale (h : Times j v w) (h' : Single.Times k a b) (hkeeps : KeepAll w.lanes [b]) :
    Times (j + k) (v.scale a) (w.scale b) :=
  have ⟨hx, hy, hz⟩ := forall_mem_lanes.1 fun c hc => hkeeps c hc b (.head _)
  ⟨h.x.mul h' hx, h.y.mul h' hy, h.z.mul h' hz⟩

theorem dot (h : Times j v w) (h' : Times k v' w') (hx : KeepsDigits w.x w'.x)
    (hy : KeepsDigits w.y w'.y) (hz : KeepsDigits w.z w'.z) :
    Single.Times (j + k) (v.dot v') (w.dot w') :=
  ((h.x.mul h'.x hx).add (h.y.mul h'.y hy)).add (h.z.mul h'.z hz)

theorem cross (h : Times j v w) (h' : Times k v' w') (hkeeps : KeepAll w.lanes w'.lanes) :
    Times (j + k) (v.cross v') (w.cross w') := by
  simp only [KeepAll, forall_mem_lanes] at hkeeps
  obtain ⟨⟨-, hxy, hxz⟩, ⟨hyx, -, hyz⟩, hzx, hzy, -⟩ := hkeeps
  exact ⟨(h.y.mul h'.z hyz).sub (h.z.mul h'.y hzy), (h.z.mul h'.x hzx).sub (h.x.mul h'.z hxz),
    (h.x.mul h'.y hxy).sub (h.y.mul h'.x hyx)⟩

theorem eq_scale_four (h : Times 2 v w) (hfinite : v.isFinite = true) : v = w.scale 4 := by
  rw [isFinite, Bool.and_eq_true, Bool.and_eq_true] at hfinite
  obtain ⟨⟨hx, hy⟩, hz⟩ := hfinite
  rw [Vec3.scale, ← h.x.eq_mul_four hx, ← h.y.eq_mul_four hy, ← h.z.eq_mul_four hz]

theorem isFinite_right (h : Times k v w) (hfinite : v.isFinite = true) : w.isFinite = true := by
  rw [isFinite, Bool.and_eq_true, Bool.and_eq_true] at hfinite ⊢
  exact ⟨⟨h.x.isFinite_right hfinite.1.1, h.y.isFinite_right hfinite.1.2⟩,
    h.z.isFinite_right hfinite.2⟩

end Times

/-- Only the zero vector is four times itself. -/
theorem scale_four_eq_self_iff {v : Vec3} (hfinite : v.isFinite = true) :
    v.scale 4 = v ↔ v.isZero = true := by
  rw [isFinite, Bool.and_eq_true, Bool.and_eq_true] at hfinite
  obtain ⟨⟨hx, hy⟩, hz⟩ := hfinite
  obtain ⟨x, y, z⟩ := v
  rw [scale, isZero, Vec3.mk.injEq, Single.mul_four_eq_self_iff hx, Single.mul_four_eq_self_iff hy,
    Single.mul_four_eq_self_iff hz, Bool.and_eq_true, Bool.and_eq_true, and_assoc]

end Vec3

namespace Quat

/-! ## Composing -/

/-- Twice a quaternion, which denotes the same rotation. -/
def double (q : Quat) : Quat := ⟨2 * q.x, 2 * q.y, 2 * q.z, 2 * q.w⟩

def lanes (q : Quat) : List Float32 := [q.x, q.y, q.z, q.w]

theorem forall_mem_lanes {P : Float32 → Prop} {q : Quat} :
    (∀ a ∈ q.lanes, P a) ↔ P q.x ∧ P q.y ∧ P q.z ∧ P q.w := by
  simp [lanes]

/-- Lane by lane, `p` is `2 ^ k` times `q` if it is finite. -/
structure Times (k : ℕ) (p q : Quat) : Prop where
  x : Single.Times k p.x q.x
  y : Single.Times k p.y q.y
  z : Single.Times k p.z q.z
  w : Single.Times k p.w q.w

theorem times_double (q : Quat) : Times 1 q.double q :=
  ⟨Single.times_two_mul _, Single.times_two_mul _, Single.times_two_mul _, Single.times_two_mul _⟩

namespace Times

variable {p q r s : Quat} {j k : ℕ}

theorem refl (q : Quat) : Times 0 q q := ⟨.refl _, .refl _, .refl _, .refl _⟩

theorem mul (h : Times j p q) (h' : Times k r s) (hkeeps : KeepAll q.lanes s.lanes) :
    Times (j + k) (p * r) (q * s) := by
  simp only [KeepAll, forall_mem_lanes] at hkeeps
  obtain ⟨⟨hxx, hxy, hxz, hxw⟩, ⟨hyx, hyy, hyz, hyw⟩, ⟨hzx, hzy, hzz, hzw⟩, hwx, hwy, hwz, hww⟩ :=
    hkeeps
  exact
    ⟨((h.w.mul h'.x hwx).add (h.x.mul h'.w hxw)).add ((h.y.mul h'.z hyz).sub (h.z.mul h'.y hzy)),
      ((h.w.mul h'.y hwy).sub (h.x.mul h'.z hxz)).add ((h.y.mul h'.w hyw).add (h.z.mul h'.x hzx)),
      ((h.w.mul h'.z hwz).add (h.x.mul h'.y hxy)).add ((h.z.mul h'.w hzw).sub (h.y.mul h'.x hyx)),
      ((h.w.mul h'.w hww).sub (h.x.mul h'.x hxx)).add
        ((h.y.mul h'.y hyy).neg.sub (h.z.mul h'.z hzz))⟩

end Times

/-- The lanes of a quaternion whose length is finite are finite, and so is the length. -/
theorem isFinite_of_lengthSquared {q : Quat} (h : q.lengthSquared.isFinite = true) :
    q.x.isFinite = true ∧ q.y.isFinite = true ∧ q.z.isFinite = true ∧ q.w.isFinite = true ∧
      0 ≤ q.lengthSquared ∧ q.length.isFinite = true := by
  obtain ⟨heven, hodd⟩ := Single.isFinite_of_isFinite_add h
  obtain ⟨hx, hz⟩ := Single.isFinite_of_isFinite_add heven
  obtain ⟨hy, hw⟩ := Single.isFinite_of_isFinite_add hodd
  have hsquare : ∀ {a : Float32}, (a * a).isFinite = true → a.isFinite = true ∧ 0 ≤ a * a := by
    intro a ha
    have hfinite := (Single.isFinite_of_isFinite_mul ha).1
    obtain ⟨x, hx⟩ := Single.isFinite_iff.1 hfinite
    exact ⟨hfinite, Single.square_nonneg hx.isNaN⟩
  have hadd : ∀ {a b : Float32}, 0 ≤ a → 0 ≤ b → 0 ≤ a + b := fun ha hb =>
    Single.le_trans ha (Single.le_add_right ha hb)
  have hnonneg : 0 ≤ q.lengthSquared :=
    hadd (hadd (hsquare hx).2 (hsquare hz).2) (hadd (hsquare hy).2 (hsquare hw).2)
  exact ⟨(hsquare hx).1, (hsquare hy).1, (hsquare hz).1, (hsquare hw).1, hnonneg,
    Single.isFinite_sqrt h hnonneg⟩

/-- **The factor cancels when a quaternion is brought to unit length.** -/
theorem Times.normalize_eq {p q : Quat} (h : Times 1 p q)
    (hkeeps : ∀ a ∈ q.lanes, KeepsDigits a a) (hfinite : p.lengthSquared.isFinite = true) :
    p.normalize = q.normalize := by
  obtain ⟨hx, hy, hz, hw, hnonneg, hlength⟩ := isFinite_of_lengthSquared hfinite
  obtain ⟨hxx, hyy, hzz, hww⟩ := forall_mem_lanes.1 hkeeps
  have hsquares : Single.Times (2 * 1) p.lengthSquared q.lengthSquared :=
    ((h.x.mul h.x hxx).add (h.z.mul h.z hzz)).add ((h.y.mul h.y hyy).add (h.w.mul h.w hww))
  have hroot : Single.Times 1 p.length q.length := hsquares.sqrt hfinite hnonneg
  simp only [normalize, h.x.div_eq hroot hx hlength, h.y.div_eq hroot hy hlength,
    h.z.div_eq hroot hz hlength, h.w.div_eq hroot hw hlength]

/-- Where a rotation is composed with another and brought to unit length, no product loses digits,
    and there is room for the length also if the first of them is doubled. -/
structure ComposesWell (q r : Quat) : Prop where
  products : KeepAll q.lanes r.lanes
  squares : ∀ a ∈ (q * r).lanes, KeepsDigits a a
  fits : (q.double * r).lengthSquared.isFinite = true

/-- A test that is passed only if a rotation is composed well. -/
def testComposing (q r : Quat) : Bool :=
  testAll q.lanes r.lanes && (q * r).lanes.all (fun a => testDigits a a) &&
    (q.double * r).lengthSquared.isFinite

theorem composesWell_of_test {q r : Quat} (h : q.testComposing r = true) : q.ComposesWell r := by
  simp only [testComposing, Bool.and_eq_true] at h
  obtain ⟨⟨hproducts, hsquares⟩, hfits⟩ := h
  exact ⟨keepAll_of_testAll hproducts,
    fun a ha => keepsDigits_of_testDigits (List.all_eq_true.1 hsquares a ha), hfits⟩

/-! ## Turning -/

/-- The imaginary lanes. -/
def imaginary (q : Quat) : Vec3 := ⟨q.x, q.y, q.z⟩

theorem rotate_eq (q : Quat) (v : Vec3) : q.rotate v =
    v.scale (q.w * q.w - q.imaginary.dot q.imaginary) +
        q.imaginary.scale (v.dot q.imaginary * 2) + (q.imaginary.cross v).scale (q.w * 2) :=
  rfl

/-- Where a vector is turned, no product loses digits, and there is room for the result also if the
    quaternion is doubled. -/
structure TurnsWell (q : Quat) (v : Vec3) : Prop where
  squares : ∀ a ∈ q.lanes, KeepsDigits a a
  products : KeepAll q.imaginary.lanes v.lanes
  stretch : KeepAll v.lanes [q.w * q.w - q.imaginary.dot q.imaginary]
  along : KeepAll q.imaginary.lanes [v.dot q.imaginary * 2]
  across : KeepAll (q.imaginary.cross v).lanes [q.w * 2]
  fits : (q.double.rotate v).isFinite = true

/-- A test that is passed only if a vector is turned well. -/
def testTurning (q : Quat) (v : Vec3) : Bool :=
  q.lanes.all (fun a => testDigits a a) && testAll q.imaginary.lanes v.lanes &&
    testAll v.lanes [q.w * q.w - q.imaginary.dot q.imaginary] &&
    testAll q.imaginary.lanes [v.dot q.imaginary * 2] &&
    testAll (q.imaginary.cross v).lanes [q.w * 2] && (q.double.rotate v).isFinite

theorem turnsWell_of_test {q : Quat} {v : Vec3} (h : q.testTurning v = true) : q.TurnsWell v := by
  simp only [testTurning, Bool.and_eq_true] at h
  obtain ⟨⟨⟨⟨⟨hsquares, hproducts⟩, hstretch⟩, halong⟩, hacross⟩, hfits⟩ := h
  exact ⟨fun a ha => keepsDigits_of_testDigits (List.all_eq_true.1 hsquares a ha),
    keepAll_of_testAll hproducts, keepAll_of_testAll hstretch,
    keepAll_of_testAll halong, keepAll_of_testAll hacross, hfits⟩

/-- **A vector is stretched by the square of the length.** -/
theorem TurnsWell.times_rotate {q : Quat} {v : Vec3} (h : q.TurnsWell v) :
    Vec3.Times 2 (q.double.rotate v) (q.rotate v) := by
  have hq := q.times_double
  have himaginary : Vec3.Times 1 q.double.imaginary q.imaginary := ⟨hq.x, hq.y, hq.z⟩
  have hv := Vec3.Times.refl v
  obtain ⟨hxx, hyy, hzz, hww⟩ := forall_mem_lanes.1 h.squares
  have hproducts := h.products
  simp only [KeepAll, Vec3.forall_mem_lanes] at hproducts
  obtain ⟨⟨hx, -, -⟩, ⟨-, hy, -⟩, -, -, hz⟩ := hproducts
  have hstretch := (hq.w.mul hq.w hww).sub (himaginary.dot himaginary hxx hyy hzz)
  have halong := (hv.dot himaginary hx.symm hy.symm hz.symm).mul_two
  have hacross := himaginary.cross hv h.products
  rw [rotate_eq, rotate_eq]
  exact ((hv.scale hstretch h.stretch).add (himaginary.scale halong h.along)).add
    (hacross.scale hq.w.mul_two h.across)

end Quat

/-! ## Transforms -/

namespace Transform

/-- No operation loses digits where a transform is turned, and there is room for the results also
    if the quaternion is doubled. -/
structure TurnsWell (t : Transform) (q : Quat) : Prop where
  rotation : q.ComposesWell t.rotation
  translation : q.TurnsWell t.translation

/-- The same but for a translation that is four times as long. -/
def stretch (t : Transform) : Transform := { t with translation := t.translation.scale 4 }

variable {t : Transform} {q : Quat}

theorem TurnsWell.rotate_eq_stretch (h : t.TurnsWell q) :
    t.rotate q.double = (t.rotate q).stretch := by
  have hcomposed := q.times_double.mul (.refl t.rotation) h.rotation.products
  rw [rotate, rotate, hcomposed.normalize_eq h.rotation.squares h.rotation.fits,
    h.translation.times_rotate.eq_scale_four h.translation.fits]
  rfl

theorem TurnsWell.stretch_eq_self_iff (h : t.TurnsWell q) :
    (t.rotate q).stretch = t.rotate q ↔ (t.rotate q).translation.isZero = true := by
  have hfinite : (t.rotate q).translation.isFinite = true :=
    h.translation.times_rotate.isFinite_right h.translation.fits
  rw [← Vec3.scale_four_eq_self_iff hfinite]
  constructor
  · intro heq
    exact congrArg Transform.translation heq
  · intro heq
    rw [stretch, heq]

end Transform

/-! ## Programs -/

/-- **A quaternion twice as long turns in the same way and stretches four times as much.** Where no
    digits are lost and there is room for the results, doubling the quaternion leaves rotation and
    scale of a transform that is turned as they are and makes its translation four times as long,
    which changes the transform unless the translation is zero. A program that is turned has this
    done to each of its leaves. A transform that is made of its parts does not see the doubling. -/
theorem Program.rotate_double (q : Quat) :
    (∀ t : Transform, t.TurnsWell q →
      t.rotate q.double = (t.rotate q).stretch ∧
      (t.rotate q.double = t.rotate q ↔ (t.rotate q).translation.isZero = true)) ∧
    (∀ p : Program, (∀ t ∈ p.transforms, t.TurnsWell q) →
      p.rotate q.double = (p.rotate q).mapTransforms Transform.stretch) ∧
    ∀ translation factor, (∀ a ∈ q.lanes, KeepsDigits a a) →
      q.double.lengthSquared.isFinite = true →
      Transform.new q.double translation factor = Transform.new q translation factor := by
  refine ⟨fun t ht => ⟨ht.rotate_eq_stretch, ?_⟩, fun p hp => ?_,
    fun translation factor hq hfits => ?_⟩
  · rw [ht.rotate_eq_stretch]
    exact ht.stretch_eq_self_iff
  · rw [rotate, rotate, mapTransforms, mapTransforms, mapTransforms, List.map_map]
    congr 1
    exact List.map_congr_left fun t ht => (hp t ht).rotate_eq_stretch
  · rw [Transform.new, Transform.new, q.times_double.normalize_eq hq hfits]

/-- A ball that a quaternion of some length turns by a right angle about the upright axis. -/
theorem Program.rotate_double_sphere :
    let q : Quat := ⟨0, 0, 1, 1⟩
    let p := (Program.sphere 1).translate ⟨1, 2, 3⟩
    (∀ t ∈ p.transforms, t.TurnsWell q) ∧
      p.rotate q.double = (p.rotate q).mapTransforms Transform.stretch ∧
      (p.rotate q).transforms.map (·.translation) = [⟨-4, 2, 6⟩] ∧
      (p.rotate q.double).transforms.map (·.translation) = [⟨-16, 8, 24⟩] ∧
      Transform.new q.double .zero 1 = Transform.new q .zero 1 := by
  intro q p
  obtain ⟨-, hprogram, hnew⟩ := Program.rotate_double q
  have hwell : ∀ t ∈ p.transforms, t.TurnsWell q := by
    intro t ht
    obtain rfl := List.mem_singleton.1 ht
    exact ⟨Quat.composesWell_of_test (by decide +kernel),
      Quat.turnsWell_of_test (by decide +kernel)⟩
  have htest : q.lanes.all (fun a => testDigits a a) = true := by decide +kernel
  have hkeeps : ∀ a ∈ q.lanes, KeepsDigits a a := fun a ha =>
    keepsDigits_of_testDigits (List.all_eq_true.1 htest a ha)
  exact ⟨hwell, hprogram p hwell, by decide +kernel, by decide +kernel,
    hnew _ _ hkeeps (by decide +kernel)⟩

/-- Twice the identity moves what the identity leaves where it is. -/
theorem Transform.rotate_double_moves :
    let t := Transform.identity.translate ⟨1, 0, 0⟩
    t.TurnsWell .identity ∧ t.rotate (.double .identity) ≠ t.rotate .identity ∧
      (t.rotate (.double .identity)).rotation = (t.rotate .identity).rotation ∧
      (t.rotate (.double .identity)).translation.x = 4 ∧
      (t.rotate .identity).translation.x = 1 := by
  intro t
  have hwell : t.TurnsWell .identity :=
    ⟨Quat.composesWell_of_test (by decide +kernel), Quat.turnsWell_of_test (by decide +kernel)⟩
  have hfour : (t.rotate (.double .identity)).translation.x = 4 := by decide +kernel
  have hone : (t.rotate .identity).translation.x = 1 := by decide +kernel
  refine ⟨hwell, fun heq => ?_, ?_, hfour, hone⟩
  · rw [heq, hone] at hfour
    exact absurd hfour (by decide +kernel)
  · rw [hwell.rotate_eq_stretch]
    rfl

end SignedDistance
