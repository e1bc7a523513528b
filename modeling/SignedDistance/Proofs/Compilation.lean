import SignedDistance.Proofs.Construction
import SignedDistance.Proofs.Evaluation

set_option autoImplicit false

/-! # Compiling scenes

A scene is compiled by moving whole programs about, and measured by carrying the motions down to
its leaves. Both come to the same tree of placed solids: the one that the program is written out
from, moved on by whatever motions are still to come. -/

namespace SignedDistance

/-! ## Moving trees -/

namespace Assembly

variable {ε : Type} {f g : Transform → Except ε Transform}

theorem mapM_pure (e : Assembly) : e.mapM (fun t => (pure t : Except ε Transform)) = .ok e := by
  induction e with
  | solid s t => rfl
  | combine c a b iha ihb => exact mapM_combine_eq_ok.2 ⟨a, iha, b, ihb, rfl⟩
  | flate a amount ih => exact mapM_flate_eq_ok.2 ⟨a, ih, rfl⟩

/-- To move a tree and then move it again is to do both to every transform. -/
theorem mapM_mapM {e e' e'' : Assembly} (h : e.mapM f = .ok e') (h' : e'.mapM g = .ok e'') :
    e.mapM (fun t => f t >>= g) = .ok e'' := by
  induction e generalizing e' e'' with
  | solid s t =>
    obtain ⟨u, hu, rfl⟩ := mapM_solid_eq_ok.1 h
    obtain ⟨v, hv, rfl⟩ := mapM_solid_eq_ok.1 h'
    exact mapM_solid_eq_ok.2 ⟨v, bind_eq_ok_iff.2 ⟨u, hu, hv⟩, rfl⟩
  | combine c a b iha ihb =>
    obtain ⟨a', ha, b', hb, rfl⟩ := mapM_combine_eq_ok.1 h
    obtain ⟨a'', ha', b'', hb', rfl⟩ := mapM_combine_eq_ok.1 h'
    exact mapM_combine_eq_ok.2 ⟨a'', iha ha ha', b'', ihb hb hb', rfl⟩
  | flate a amount ih =>
    obtain ⟨a', ha, rfl⟩ := mapM_flate_eq_ok.1 h
    obtain ⟨a'', ha', rfl⟩ := mapM_flate_eq_ok.1 h'
    exact mapM_flate_eq_ok.2 ⟨a'', ih ha ha', rfl⟩

end Assembly

namespace Motion

/-- Put a sequence of motions behind a transform, the first one first. -/
def moveAll (ms : List Motion) (t : Transform) : Except InvalidScale Transform :=
  ms.foldlM (fun t m => m.moveTransform t) t

theorem moveAll_cons (m : Motion) (ms : List Motion) :
    moveAll (m :: ms) = fun t => m.moveTransform t >>= moveAll ms := by
  funext t
  rw [moveAll, List.foldlM_cons]
  rfl

/-- To move a program is to move its tree. -/
theorem exists_program_of_moveProgram {m : Motion} {e : Assembly} {prog : Program}
    (h : m.moveProgram e.program = .ok prog) :
    ∃ e', e.mapM m.moveTransform = .ok e' ∧ e'.program = prog := by
  obtain ⟨ts, hts, rfl⟩ := moveProgram_eq_ok h
  exact Assembly.exists_program_of_mapM hts

end Motion

/-! ## The tree of a scene -/

namespace Shape

theorem leafDistance_of_mapM {ms : List Motion} {s : Solid} {e : Assembly}
    (h : (Assembly.solid s .identity).mapM (Motion.moveAll ms) = .ok e) (p : Vec3) :
    leafDistance ms p s = .ok (e.value p) := by
  obtain ⟨t, ht, rfl⟩ := Assembly.mapM_solid_eq_ok.1 h
  rw [leafDistance, Motion.frame, show ms.foldlM _ _ = Except.ok t from ht]
  rfl

/-- A scene that compiles has a tree: its program is that of the tree, and its distance behind any
    motions is the value of the tree so moved. -/
theorem exists_assembly_of_compile {s : Shape} {prog : Program} (h : s.compile = .ok prog) :
    ∃ e : Assembly, e.program = prog ∧
      ∀ (ms : List Motion) (e' : Assembly), e.mapM (Motion.moveAll ms) = .ok e' →
        ∀ p : Vec3, s.distance ms p = .ok (e'.value p) := by
  induction s generalizing prog with
  | leaf l =>
    -- whatever the primitive was refused for has been passed, and recursion does not repeat it
    rw [Primitive.program_eq_ok h]
    exact ⟨.solid l.solid .identity, Assembly.program_solid _, fun ms e' => leafDistance_of_mapM⟩
  | combine c a b iha ihb =>
    rw [compile, bind_eq_ok_iff] at h
    obtain ⟨pa, ha, h⟩ := h
    obtain ⟨pb, hb, h⟩ := bind_eq_ok_iff.1 h
    obtain ⟨ea, rfl, hdistancea⟩ := iha ha
    obtain ⟨eb, rfl, hdistanceb⟩ := ihb hb
    rw [Combination.joinPrograms_eq_ok h]
    refine ⟨.combine c ea eb, Assembly.program_combine c ea eb, fun ms e' he' p => ?_⟩
    obtain ⟨a', ha', b', hb', rfl⟩ := Assembly.mapM_combine_eq_ok.1 he'
    rw [distance, hdistancea ms a' ha' p, hdistanceb ms b' hb' p]
    rfl
  | flate a amount ih =>
    rw [compile, bind_eq_ok_iff] at h
    obtain ⟨pa, ha, h⟩ := h
    cases h
    obtain ⟨ea, rfl, hdistance⟩ := ih ha
    refine ⟨.flate ea amount, ea.program_flate amount, fun ms e' he' p => ?_⟩
    obtain ⟨a', ha', rfl⟩ := Assembly.mapM_flate_eq_ok.1 he'
    rw [distance, hdistance ms a' ha' p]
    rfl
  | place m a ih =>
    rw [compile, bind_eq_ok_iff] at h
    obtain ⟨pa, ha, h⟩ := h
    obtain ⟨ea, rfl, hdistance⟩ := ih ha
    obtain ⟨e, he, rfl⟩ := Motion.exists_program_of_moveProgram h
    refine ⟨e, rfl, fun ms e' he' p => ?_⟩
    -- the motion of this node is the first of those that the operand sees
    have hmoved : ea.mapM (Motion.moveAll (m :: ms)) = .ok e' := by
      rw [Motion.moveAll_cons]
      exact Assembly.mapM_mapM he he'
    rw [distance, hdistance (m :: ms) e' hmoved p]

/-- **Compiling keeps the meaning of a scene.** Where a scene compiles, its program runs to the end
    at every point, with the distance that recursion on the scene gives there. -/
theorem evaluate_compile {s : Shape} {prog : Program} (h : s.compile = .ok prog) (p : Vec3) :
    ∃ v, s.distance [] p = .ok v ∧ prog.evaluate p = .ok v := by
  obtain ⟨e, rfl, hdistance⟩ := exists_assembly_of_compile h
  exact ⟨e.value p, hdistance [] e e.mapM_pure p, Program.evaluate_assembly e p⟩

/-- A scene with motions above and below a combination. -/
theorem evaluate_compile_scaled_blend :
    ∃ (s : Shape) (prog : Program) (v : Float32),
      s = .place (.scale 2) (.combine (.blendDiff 0.5) (.flate (.leaf (.plane ⟨0, 0, 3⟩)) 0.25)
        (.place (.rotateY 1) (.place (.translate ⟨1, 0, 0⟩) (.leaf (.torus 4 1))))) ∧
      s.compile = .ok prog ∧ s.distance [] ⟨1, 2, 3⟩ = .ok v ∧
      prog.evaluate ⟨1, 2, 3⟩ = .ok v := by
  obtain ⟨prog, hcompile⟩ : ∃ prog, compile (.place (.scale 2) (.combine (.blendDiff 0.5)
      (.flate (.leaf (.plane ⟨0, 0, 3⟩)) 0.25)
      (.place (.rotateY 1) (.place (.translate ⟨1, 0, 0⟩) (.leaf (.torus 4 1)))))) = .ok prog :=
    ⟨_, rfl⟩
  obtain ⟨v, hdistance, hevaluate⟩ := evaluate_compile hcompile ⟨1, 2, 3⟩
  exact ⟨_, prog, v, rfl, hcompile, hdistance, hevaluate⟩

end Shape

end SignedDistance
