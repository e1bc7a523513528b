import SignedDistance.Proofs.Blend
import SignedDistance.Proofs.Construction

set_option autoImplicit false

/-! # Thresholds of blends

A blend of finite operands is finite exactly if its fillet is, and that depends on the threshold
alone as long as the operands are not too large. The combinators accept every positive finite
threshold, and parts that are put together may have any; yet the overlap is squared before it is
divided, which leads out of the range from a threshold of `2 ^ 64` on, and zero over zero is a NaN.
A negative threshold is never more than the gap, so there is no fillet at all. -/

namespace SignedDistance

/-! ## Around `2 ^ 64` -/

/-- Next to `2 ^ 64` singles are far apart. -/
theorem nearest_sub_two_million : nearest .binary32 (2 ^ 64 - 2000000) = 2 ^ 64 := by
  have hquantum : quantum .binary32 (2 ^ 64 - 2000000) = 40 :=
    quantum_eq (k := 63) (by norm_num) (by norm_num) (by decide)
  have hround : roundEven ((2 ^ 64 - 2000000) / 2 ^ (40 : ℤ)) = 2 ^ 24 :=
    roundEven_eq_iff.2 (.inl (by norm_num [abs_lt]))
  rw [nearest, hquantum, hround]
  norm_num

/-- The greatest single below `2 ^ 64`. -/
theorem le_of_lt_two_pow {x : ℝ} (hx : nearest .binary32 x = x) (hlt : x < 2 ^ 64) :
    x ≤ 2 ^ 64 - 2 ^ 40 := by
  by_contra hgt
  have hquantum : quantum .binary32 x = 40 :=
    quantum_eq (k := 63) (by norm_num at hgt ⊢; linarith) (by norm_num at hlt ⊢; linarith)
      (by decide)
  -- there is no integer left for the digits
  rw [nearest, hquantum] at hx
  generalize roundEven (x / 2 ^ (40 : ℤ)) = n at hx
  rw [← hx] at hlt hgt
  have hbelow : (n : ℝ) < (2 ^ 24 : ℤ) := by norm_num at hlt ⊢; linarith
  have habove : ((2 ^ 24 - 1 : ℤ) : ℝ) < n := by norm_num at hgt ⊢; linarith
  rw [Int.cast_lt] at hbelow habove
  omega

namespace Single

variable {a b : Float32} {x m : ℝ} {y : EReal}

theorem denotes_two_pow : Denotes 18446744073709551616 (2 ^ 64 : ℝ) := by
  have h : (18446744073709551616 : Float32).toModel.unpack =
      .finite .positive 8388608 41 (by decide) := rfl
  convert denotes_of_unpack h
  norm_num [Float.Model.UnpackedFloat.Sign.apply]

theorem denotes_million : Denotes 1000000 (1000000 : ℝ) := by
  have h : (1000000 : Float32).toModel.unpack = .finite .positive 16000000 (-4) (by decide) := rfl
  convert denotes_of_unpack h
  norm_num [Float.Model.UnpackedFloat.Sign.apply]

theorem Denotes.mul_self_top (ha : Denotes a y) (hy : (2 ^ 64 : ℝ) ≤ y) : Denotes (a * a) ⊤ := by
  have hpos : (0 : EReal) < (2 ^ 64 : ℝ) := EReal.coe_pos.2 (by positivity)
  rcases eq_top_or_exists_real (ha.nonneg (hpos.le.trans hy)) with htop | ⟨x, hx, -⟩
  · exact htop.top_mul htop EReal.zero_lt_top
  · exact hx.mul_self_eq_top ((EReal.coe_le_coe_iff.1 (ha.unique hx ▸ hy)).trans (le_abs_self x))

/-! ## Bounded numbers -/

/-- The single is a number of magnitude at most `m`. -/
def Within (m : ℝ) (a : Float32) : Prop := ∃ x : ℝ, Denotes a x ∧ |x| ≤ m

theorem within_of_abs_le (h : a.abs ≤ 1000000) : Within 1000000 a := by
  have hfinite := isFinite_of_abs_le (isFinite_iff.2 ⟨_, denotes_million⟩) h
  obtain ⟨x, hx⟩ := isFinite_iff.1 hfinite
  exact ⟨x, hx, EReal.coe_le_coe_iff.1 ((hx.abs_real.le_iff denotes_million).1 h)⟩

theorem Within.isFinite (h : Within m a) : a.isFinite = true := by
  obtain ⟨x, hx, -⟩ := h
  exact isFinite_iff.2 ⟨x, hx⟩

theorem Within.neg (h : Within m a) : Within m (-a) := by
  obtain ⟨x, hx, hle⟩ := h
  exact ⟨-x, hx.neg, by simpa using hle⟩

theorem Within.add (ha : Within 1000000 a) (hb : Within 1000000 b) : Within 2000000 (a + b) := by
  obtain ⟨x, hx, hxle⟩ := ha
  obtain ⟨y, hy, hyle⟩ := hb
  have hsum : |x + y| ≤ 2000000 := (abs_add_le x y).trans (by linarith)
  have hroom : Representable .binary32 2000000 :=
    representable_binary32 2000000 0 (by norm_num) (by norm_num) (by norm_num)
  exact ⟨_, hx.add_real hy (hsum.trans (by norm_num)), abs_nearest_le hroom hsum⟩

theorem Within.sub (ha : Within 1000000 a) (hb : Within 1000000 b) : Within 2000000 (a - b) := by
  rw [Single.sub_eq_add_neg]
  exact ha.add hb.neg

/-- Whether a sum is finite is up to the part that may not be. -/
theorem Within.isFinite_add_iff (ha : Within 1000000 a)
    (hb : b.isFinite = true → Within (2 ^ 64) b) : (a + b).isFinite = true ↔ b.isFinite = true := by
  constructor
  · intro h
    exact (isFinite_of_isFinite_add h).2
  · intro h
    obtain ⟨x, hx, hxle⟩ := ha
    obtain ⟨y, hy, hyle⟩ := hb h
    have hsum : |x + y| ≤ 2 ^ 127 := by
      refine (abs_add_le x y).trans ?_
      norm_num at hyle ⊢
      linarith
    exact isFinite_iff.2 ⟨_, hx.add_real hy hsum⟩

end Single

namespace Combination

open Single

variable {t gap hard a b : Float32} {x : ℝ} {y : EReal}

/-- The thresholds under which a fillet stays finite. -/
def Tame (t : Float32) : Prop := t < 0 ∨ 0 < t ∧ t < 18446744073709551616

/-! ## Fillets that stay finite -/

theorem exists_overlap_of_lt (ht : Denotes t x) (h : gap.abs < t) :
    ∃ r : ℝ, Denotes (overlap t gap) r ∧ 0 ≤ r ∧ r ≤ x := by
  have hfinite : t.isFinite = true := isFinite_iff.2 ⟨x, ht⟩
  have hle := Single.le_of_lt h
  obtain ⟨hlower, hupper⟩ := sub_mem hfinite (abs_nonneg_of_le hle) hle
  have hoverlap : overlap t gap ≤ t := greatest_le hupper (Single.le_trans hlower hupper)
  obtain ⟨r, hr, hr₀⟩ := exists_real (isFinite_of_le (overlap_nonneg t gap) hoverlap hfinite)
    (overlap_nonneg t gap)
  exact ⟨r, hr, hr₀, EReal.coe_le_coe_iff.1 ((hr.le_iff ht).1 hoverlap)⟩

/-- Rounding at most doubles, twice here, which undoes the quarter. -/
theorem exists_quarter_square {r : ℝ} (ha : Denotes a r) (h₀ : 0 ≤ r)
    (hlt : r * r < 2 ^ 128 - 2 ^ 103) :
    ∃ q : ℝ, Denotes (a * a * 0.25) q ∧ 0 ≤ q ∧ q ≤ r * r := by
  have hrr₀ : 0 ≤ r * r := mul_nonneg h₀ h₀
  have hsquare := ha.mul ha
  rw [rounded_coe_of_lt hrr₀ hlt] at hsquare
  have hs₀ := nearest_nonneg .binary32 hrr₀
  have hs := nearest_le_two_mul .binary32 hrr₀
  generalize nearest .binary32 (r * r) = s at hsquare hs₀ hs
  have hquarter₀ : 0 ≤ s * (1 / 4) := by positivity
  have hroom : |s * (1 / 4)| ≤ 2 ^ 127 := by
    rw [abs_of_nonneg hquarter₀]
    norm_num at hlt ⊢
    linarith
  have hq := nearest_le_two_mul .binary32 hquarter₀
  exact ⟨_, hsquare.mul_real denotes_quarter hroom, nearest_nonneg _ hquarter₀, by linarith⟩

/-- The overlap is at most the threshold, so its square has room. -/
theorem within_fillet_of_lt (ht : Denotes t x) (hpos : 0 < x) (hx : x < 2 ^ 64)
    (h : gap.abs < t) : Within (2 ^ 64) (fillet t gap) := by
  obtain ⟨r, hr, hr₀, hrx⟩ := exists_overlap_of_lt ht h
  have hle := hrx.trans (le_of_lt_two_pow ht.nearest_eq hx)
  have hlt : r * r < 2 ^ 128 - 2 ^ 103 := by
    have hrr := mul_le_mul hle hle hr₀ (by norm_num)
    norm_num at hrr ⊢
    linarith
  obtain ⟨q, hq, hq₀, hqle⟩ := exists_quarter_square hr hr₀ hlt
  have hquotient : |q / x| ≤ 2 ^ 64 := by
    rw [abs_of_nonneg (div_nonneg hq₀ hpos.le), div_le_iff₀ hpos]
    calc q ≤ r * r := hqle
      _ ≤ 2 ^ 64 * x := mul_le_mul (hrx.trans hx.le) hrx hr₀ (by positivity)
  have hroom : Representable .binary32 (2 ^ 64) :=
    representable_binary32 1 64 (by norm_num) (by norm_num) (by norm_num)
  have hfillet := hq.div ht hpos.ne'
  rw [rounded_coe (hquotient.trans (by norm_num))] at hfillet
  exact ⟨_, hfillet, abs_nearest_le hroom hquotient⟩

theorem within_fillet (ht : Tame t) (gap : Float32) : Within (2 ^ 64) (fillet t gap) := by
  by_cases h : gap.abs < t
  · have hle := Single.le_of_lt h
    have h₀ : 0 ≤ t := Single.le_trans (abs_nonneg_of_le hle) hle
    obtain ⟨hpos, hlt⟩ := ht.resolve_left (Single.not_lt_of_le h₀)
    have hfinite := isFinite_of_le h₀ (Single.le_of_lt hlt) (isFinite_iff.2 ⟨_, denotes_two_pow⟩)
    obtain ⟨x, hx, -⟩ := exists_real hfinite h₀
    exact within_fillet_of_lt hx (EReal.coe_pos.1 ((denotes_zero.lt_iff hx).1 hpos))
      (EReal.coe_lt_coe_iff.1 ((hx.lt_iff denotes_two_pow).1 hlt)) h
  · have hne : ∃ y, Denotes t y ∧ y ≠ 0 := by
      rcases ht with hneg | ⟨hpos, -⟩
      · obtain ⟨y, z, hy, hz, hlt⟩ := exists_denotes_of_lt hneg
        exact ⟨y, hy, (hz.unique denotes_zero ▸ hlt).ne⟩
      · obtain ⟨z, y, hz, hy, hlt⟩ := exists_denotes_of_lt hpos
        exact ⟨y, hy, (hz.unique denotes_zero ▸ hlt).ne'⟩
    obtain ⟨y, hy, hy₀⟩ := hne
    exact ⟨0, EReal.coe_zero ▸ fillet_of_not_lt hy hy₀ h, by norm_num⟩

/-! ## Fillets that do not -/

/-- No overlap over no threshold is no number. -/
theorem isNaN_fillet_of_zero (ht : Denotes t 0) : (fillet t gap).isNaN = true := by
  have hoverlap : Denotes (overlap t gap) 0 := by
    refine overlap_of_not_lt fun hlt => ?_
    have h₀ := abs_nonneg_of_le (Single.le_of_lt hlt)
    obtain ⟨z, hz, hz₀⟩ := exists_denotes_of_nonneg h₀
    exact absurd ((hz.lt_iff ht).1 hlt) (not_lt.2 hz₀)
  have hnan : ∀ h ∈ [0, -0], ∀ t ∈ [0, -0], (h * h * 0.25 / t : Float32).isNaN = true := by
    decide +kernel
  exact hnan _ hoverlap.mem_of_zero t ht.mem_of_zero

theorem rounded_sub_two_million : rounded ((2 ^ 64 - 2000000 : ℝ)) = (2 ^ 64 : ℝ) := by
  have hle : |(2 ^ 64 - 2000000 : ℝ)| ≤ 2 ^ 127 := by norm_num [abs_le]
  rw [rounded_coe hle, nearest_sub_two_million]

/-- From `2 ^ 64` on a threshold absorbs the gap. -/
theorem exists_overlap_of_le (ht : Denotes t y) (hy : (2 ^ 64 : ℝ) ≤ y)
    (hgap : Within 2000000 gap) : ∃ z, Denotes (overlap t gap) z ∧ (2 ^ 64 : ℝ) ≤ z := by
  obtain ⟨g, hg, hle⟩ := hgap
  have hdiff := ht.sub hg.abs_real (by simp [Opposite, ← EReal.coe_neg])
  have hlarge : ((2 ^ 64 : ℝ) : EReal) ≤ rounded (y - (|g| : ℝ)) := by
    rw [← rounded_sub_two_million]
    refine rounded_mono ?_
    rw [EReal.coe_sub]
    exact EReal.sub_le_sub hy (EReal.coe_le_coe_iff.2 hle)
  have hpos : (0 : EReal) ≤ (2 ^ 64 : ℝ) := EReal.coe_nonneg.2 (by positivity)
  refine ⟨_, ?_, hlarge⟩
  rw [overlap, greatest_eq_left hdiff.isNaN]
  · exact hdiff
  · exact Single.not_lt_of_le (hdiff.nonneg (hpos.trans hlarge))

/-- The square of the overlap is infinite then, and so is any part of it that is a number. -/
theorem not_isFinite_fillet_of_le (ht : Denotes t y) (hy : (2 ^ 64 : ℝ) ≤ y)
    (hgap : Within 2000000 gap) : ¬(fillet t gap).isFinite = true := by
  have hpos : (0 : EReal) < (2 ^ 64 : ℝ) := EReal.coe_pos.2 (by positivity)
  obtain ⟨z, hz, hz'⟩ := exists_overlap_of_le ht hy hgap
  have hquarter := (hz.mul_self_top hz').top_mul denotes_quarter (EReal.coe_pos.2 (by norm_num))
  rw [fillet_eq]
  rcases eq_top_or_exists_real (ht.nonneg (hpos.le.trans hy)) with htop | ⟨x, hx, -⟩
  · rw [hquarter.eq_of_ne_zero denotes_top EReal.top_ne_zero,
      htop.eq_of_ne_zero denotes_top EReal.top_ne_zero]
    decide +kernel
  · have hx₀ : 0 < x := EReal.coe_pos.1 (ht.unique hx ▸ hpos.trans_le hy)
    intro hfinite
    obtain ⟨f, hf⟩ := isFinite_iff.1 hfinite
    exact EReal.top_ne_coe f ((hquarter.top_div hx hx₀).unique hf)

theorem not_isFinite_fillet (ht : ¬Tame t) (hgap : Within 2000000 gap) :
    ¬(fillet t gap).isFinite = true := by
  rcases number?_cases t with ⟨hnan, -⟩ | ⟨y, hy, -⟩
  · exact not_isFinite_of_isNaN (isNaN_div (.inr hnan))
  rw [Tame, hy.lt_iff denotes_zero, denotes_zero.lt_iff hy, hy.lt_iff denotes_two_pow] at ht
  rcases lt_trichotomy y 0 with hneg | rfl | hpos
  · exact absurd (.inl hneg) ht
  · exact not_isFinite_of_isNaN (isNaN_fillet_of_zero hy)
  · refine not_isFinite_fillet_of_le hy (not_lt.1 fun hlt => ?_) hgap
    exact ht (.inr ⟨hpos, hlt⟩)

/-! ## Blends -/

theorem isFinite_fillet_iff (hgap : Within 2000000 gap) :
    (fillet t gap).isFinite = true ↔ Tame t := by
  constructor
  · intro h
    by_contra ht
    exact not_isFinite_fillet ht hgap h
  · intro ht
    exact (within_fillet ht gap).isFinite

theorem isFinite_add_fillet_iff (hhard : Within 1000000 hard) (hgap : Within 2000000 gap) :
    (hard + fillet t gap).isFinite = true ↔ Tame t := by
  rw [hhard.isFinite_add_iff, isFinite_fillet_iff hgap]
  intro h
  exact within_fillet ((isFinite_fillet_iff hgap).1 h) gap

theorem isFinite_sub_fillet_iff (hhard : Within 1000000 hard) (hgap : Within 2000000 gap) :
    (hard - fillet t gap).isFinite = true ↔ Tame t := by
  rw [Single.sub_eq_add_neg, hhard.isFinite_add_iff, isFinite_neg, isFinite_fillet_iff hgap]
  intro h
  rw [isFinite_neg] at h
  exact (within_fillet ((isFinite_fillet_iff hgap).1 h) gap).neg

theorem isFinite_apply_iff {c : Combination} (hc : c.threshold? = some t) (ha : a.abs ≤ 1000000)
    (hb : b.abs ≤ 1000000) : (c.apply a b).isFinite = true ↔ Tame t := by
  have ha := within_of_abs_le ha
  have hb := within_of_abs_le hb
  cases c with
  | union | inter | diff => cases hc
  | blendUnion t =>
    cases hc
    exact isFinite_sub_fillet_iff (least_rec ha hb) (ha.sub hb)
  | blendInter t =>
    cases hc
    exact isFinite_add_fillet_iff (greatest_rec ha hb) (ha.sub hb)
  | blendDiff t =>
    cases hc
    exact isFinite_add_fillet_iff (greatest_rec ha hb.neg) (ha.add hb)

end Combination

/-! ## Blends in a program -/

namespace Program

variable {programs : List Program} {prog : Program} {c : Combination} {done rest : List Word}

/-- At a point, the run of a program comes to a combination behind the words `done`, finds the
    operands `a` and `b` on the stack and leaves its value there. -/
def Combines (prog : Program) (p : Vec3) (done : List Word) (c : Combination) (a b : Float32) :
    Prop :=
  ∃ below pending, prog.Reaches p done ⟨b :: a :: below, pending⟩ ∧
    prog.Reaches p (done ++ (Instruction.combine c).words) ⟨c.apply a b :: below, pending⟩

/-- The operands are told by the point and the place in the program. -/
theorem Combines.unique {p : Vec3} {a b a' b' : Float32} (h : prog.Combines p done c a b)
    (h' : prog.Combines p done c a' b') : a = a' ∧ b = b' := by
  obtain ⟨below, pending, hreach, -⟩ := h
  obtain ⟨below', pending', hreach', -⟩ := h'
  have hmachine := hreach.2.symm.trans hreach'.2
  simp only [Except.ok.injEq, Machine.mk.injEq, List.cons.injEq] at hmachine
  exact ⟨hmachine.1.2.1, hmachine.1.1⟩

/-- Every combination in a program of a session is come to. -/
theorem exists_combines (h : Session programs) (hprog : prog ∈ programs)
    (hwords : prog.words = done ++ ((Instruction.combine c).words ++ rest)) (p : Vec3) :
    ∃ a b, prog.Combines p done c a b := by
  obtain ⟨e, rfl⟩ := h.exists_assembly prog hprog
  have hsteps := Walk.run_eq_ok_iff.1 (reaches_value e p).2
  obtain ⟨⟨stack, pending⟩, m', hdone, hstep⟩ := hsteps.exists_step hwords
  obtain ⟨a, b, below, rfl, -, rfl⟩ := Machine.step_combine_eq_ok hstep
  have hpre : done ++ (Instruction.combine c).words <+: e.program.words :=
    ⟨rest, by rw [hwords, List.append_assoc]⟩
  refine ⟨a, b, below, pending, ⟨⟨_, hwords.symm⟩, hdone.run_eq⟩, hpre, ?_⟩
  exact (hdone.append (.single hstep)).run_eq

/-- **A blend stays finite exactly under a tame threshold**: wherever a program of a session has a
    blend, it is come to at every point, and of operands that are not too large it makes a finite
    value if and only if its threshold is negative, or positive and less than `2 ^ 64`. -/
theorem blend_isFinite_iff (h : Session programs) (hprog : prog ∈ programs) {t : Float32}
    (hc : c.threshold? = some t)
    (hwords : prog.words = done ++ ((Instruction.combine c).words ++ rest)) (p : Vec3) :
    ∃ a b, prog.Combines p done c a b ∧ (a.abs ≤ 1000000 → b.abs ≤ 1000000 →
      ((c.apply a b).isFinite = true ↔ t < 0 ∨ 0 < t ∧ t < 18446744073709551616)) := by
  obtain ⟨a, b, hcombines⟩ := exists_combines h hprog hwords p
  exact ⟨a, b, hcombines, fun ha hb => Combination.isFinite_apply_iff hc ha hb⟩

/-- A ball and a cube, with a threshold that the combinators accept. -/
theorem blend_isFinite_iff_near_edge :
    let a := sphere 2
    let b := cube 1
    ∃ prog, a.blendUnion b 0.5 = .ok prog ∧ Session [prog, b, a] ∧
      prog.words = (a.words ++ b.words) ++ ((Instruction.combine (.blendUnion 0.5)).words ++ []) ∧
      ∃ x y, prog.Combines ⟨1, 1, 0⟩ (a.words ++ b.words) (.blendUnion 0.5) x y ∧
        x.abs ≤ 1000000 ∧ y.abs ≤ 1000000 ∧
          ((Combination.blendUnion 0.5).apply x y).isFinite = true := by
  have ht : Single.isPositiveFinite 0.5 = true := by decide +kernel
  have hblend : combineChecked (.blendUnion 0.5) (sphere 2) (cube 1) = .ok _ :=
    combineChecked_of_accepted rfl ht _ _
  have hsession : Session [_, cube 1, sphere 2] :=
    .call (.call (.call .start (.sphere 2)) (.cube 1))
      (.blendUnion (.tail _ (.head _)) (.head _) hblend)
  have hwords : (combine (.blendUnion 0.5) (sphere 2) (cube 1)).words =
      ((sphere 2).words ++ (cube 1).words) ++
        ((Instruction.combine (.blendUnion 0.5)).words ++ []) := rfl
  obtain ⟨x, y, hcombines, hiff⟩ := blend_isFinite_iff hsession (.head _) rfl hwords ⟨1, 1, 0⟩
  have hbounds : x.abs ≤ 1000000 ∧ y.abs ≤ 1000000 := by
    obtain ⟨rfl, rfl⟩ := hcombines.unique ⟨_, _, ⟨⟨_, rfl⟩, rfl⟩, ⟨_, rfl⟩, rfl⟩
    decide +kernel
  refine ⟨_, hblend, hsession, hwords, x, y, hcombines, hbounds.1, hbounds.2, ?_⟩
  refine (hiff hbounds.1 hbounds.2).2 (.inr ?_)
  constructor <;> decide +kernel

/-- The parts of a program with the threshold zero pass, and its blend is a NaN; a threshold of
    `2 ^ 64` is accepted by the combinators, and the blend is infinite. -/
theorem blend_not_finite :
    (∃ prog x y, ofParts [.op .sphere, .imm 1, .op .sphere, .imm 1, .op .blendUnion, .imm 0]
        [.identity, .identity] 2 = .ok prog ∧
      prog.Combines ⟨0, 0, 0⟩ [.op .sphere, .imm 1, .op .sphere, .imm 1] (.blendUnion 0) x y ∧
      x.abs ≤ 1000000 ∧ y.abs ≤ 1000000 ∧ ((Combination.blendUnion 0).apply x y).isNaN = true) ∧
    ∃ prog x y, (sphere 2).blendUnion (sphere 2) 18446744073709551616 = .ok prog ∧
      prog.Combines ⟨0, 0, 0⟩ ((sphere 2).words ++ (sphere 2).words)
        (.blendUnion 18446744073709551616) x y ∧
      x.abs ≤ 1000000 ∧ y.abs ≤ 1000000 ∧
        ((Combination.blendUnion 18446744073709551616).apply x y).isInf = true := by
  refine ⟨⟨_, _, _, rfl, ⟨_, _, ⟨⟨_, rfl⟩, rfl⟩, ⟨_, rfl⟩, rfl⟩, ?_, ?_, ?_⟩, ?_⟩
  · decide +kernel
  · decide +kernel
  · decide +kernel
  have ht : Single.isPositiveFinite 18446744073709551616 = true := by decide +kernel
  refine ⟨_, _, _, combineChecked_of_accepted rfl ht _ _,
    ⟨_, _, ⟨⟨_, rfl⟩, rfl⟩, ⟨_, rfl⟩, rfl⟩, ?_, ?_, ?_⟩
  · decide +kernel
  · decide +kernel
  · decide +kernel

end Program

end SignedDistance
