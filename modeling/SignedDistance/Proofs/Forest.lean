import SignedDistance.Proofs.Walk
import SignedDistance.Program.Assembly

set_option autoImplicit false

/-! # Growing trees from a stream

A word stream can be walked with trees on the stack instead of numbers: a solid takes the next
transform and becomes a leaf, an operation takes the trees on top as its operands. The trees
remember the words and the transforms they have grown from, and every tree grows from its own, so
this walk is what ties a stream to a tree. The walk of the validator and that of the machine are
images of it: one sees of each tree that it is there and what it needs, the other its value. -/

namespace SignedDistance

/-- The trees grown so far, the last one first, and the transforms that are still to be used. -/
structure Forest where
  trees : List Assembly
  pending : List Transform

namespace Forest

/-- One instruction: the trees it takes off the stack become the operands of the one it puts on. -/
def step (_ : Nat) (f : Forest) (i : Instruction) : Except Unit Forest :=
  match i with
  | .solid s =>
    match f.pending with
    | [] => .error ()
    | t :: rest => .ok ⟨.solid s t :: f.trees, rest⟩
  | .combine c =>
    match f.trees with
    | b :: a :: rest => .ok ⟨.combine c a b :: rest, f.pending⟩
    | _ => .error ()
  | .flate amount =>
    match f.trees with
    | a :: rest => .ok ⟨.flate a amount :: rest, f.pending⟩
    | [] => .error ()

/-- The walk that grows trees. -/
def walk : Walk Unit Forest where
  strayImmediate _ := ()
  missingImmediates _ _ := ()
  step := step

/-- What one instruction can do to a forest. -/
inductive Grows : Forest → Instruction → Forest → Prop
  | solid (s : Solid) (t : Transform) (trees : List Assembly) (pending : List Transform) :
      Grows ⟨trees, t :: pending⟩ (.solid s) ⟨.solid s t :: trees, pending⟩
  | combine (c : Combination) (a b : Assembly) (trees : List Assembly) (pending : List Transform) :
      Grows ⟨b :: a :: trees, pending⟩ (.combine c) ⟨.combine c a b :: trees, pending⟩
  | flate (amount : Float32) (a : Assembly) (trees : List Assembly) (pending : List Transform) :
      Grows ⟨a :: trees, pending⟩ (.flate amount) ⟨.flate a amount :: trees, pending⟩

theorem Grows.step_eq {f f' : Forest} {i : Instruction} (h : Grows f i f') (index : Nat) :
    walk.step index f i = .ok f' := by
  cases h <;> rfl

theorem grows_of_step {index : Nat} {f f' : Forest} {i : Instruction}
    (h : walk.step index f i = .ok f') : Grows f i f' := by
  obtain ⟨trees, pending⟩ := f
  cases i with
  | solid s =>
    match pending, h with
    | t :: pending, h =>
      cases h
      exact .solid s t trees pending
  | combine c =>
    match trees, h with
    | b :: a :: trees, h =>
      cases h
      exact .combine c a b trees pending
  | flate amount =>
    match trees, h with
    | a :: trees, h =>
      cases h
      exact .flate amount a trees pending

/-- An instruction that finds its operands, and a transform if it is a solid, can be done. -/
theorem exists_grows (f : Forest) (i : Instruction) (hop : i.opcode.operands ≤ f.trees.length)
    (hleaf : i.opcode.isLeaf = true → f.pending ≠ []) : ∃ f', Grows f i f' := by
  obtain ⟨trees, pending⟩ := f
  cases i with
  | solid s =>
    match pending, hleaf s.isLeaf_opcode with
    | t :: pending, _ => exact ⟨_, .solid s t trees pending⟩
  | combine c =>
    simp only [Instruction.opcode, Combination.operands_opcode] at hop
    match trees, hop with
    | b :: a :: trees, _ => exact ⟨_, .combine c a b trees pending⟩
  | flate amount =>
    simp only [Instruction.opcode, Opcode.operands] at hop
    match trees, hop with
    | a :: trees, _ => exact ⟨_, .flate amount a trees pending⟩

/-! ## What a forest has grown from -/

/-- The words of a stack of trees, the oldest tree first. -/
def words : List Assembly → List Word
  | [] => []
  | e :: trees => words trees ++ e.words

/-- The transforms of a stack of trees, the oldest tree first. -/
def transforms : List Assembly → List Transform
  | [] => []
  | e :: trees => transforms trees ++ e.transforms

theorem Grows.words_eq {f f' : Forest} {i : Instruction} (h : Grows f i f') :
    words f'.trees = words f.trees ++ i.words := by
  cases h with
  | solid s t trees pending => simp [words]
  | combine c a b trees pending => simp [words]
  | flate amount a trees pending => simp [words]

theorem Grows.transforms_eq {f f' : Forest} {i : Instruction} (h : Grows f i f') :
    transforms f'.trees ++ f'.pending = transforms f.trees ++ f.pending := by
  cases h with
  | solid s t trees pending => simp [transforms, Assembly.transforms]
  | combine c a b trees pending => simp [transforms, Assembly.transforms]
  | flate amount a trees pending => simp [transforms, Assembly.transforms]

/-- What has been walked over is in the words and the transforms of the trees. -/
theorem words_of_steps {index : Nat} {f f' : Forest} {ws : List Word}
    (h : walk.Steps index f ws f') : words f'.trees = words f.trees ++ ws := by
  induction h with
  | nil index f => rw [List.append_nil]
  | cons head tail ih => rw [ih, (grows_of_step head).words_eq, List.append_assoc]

theorem transforms_of_steps {index : Nat} {f f' : Forest} {ws : List Word}
    (h : walk.Steps index f ws f') :
    transforms f'.trees ++ f'.pending = transforms f.trees ++ f.pending := by
  induction h with
  | nil index f => rfl
  | cons head tail ih => rw [ih, (grows_of_step head).transforms_eq]

/-- **Every tree grows from its own words and transforms**, whatever else is on the stack and
    whatever transforms follow. -/
theorem steps_words (e : Assembly) (index : Nat) (trees : List Assembly)
    (pending : List Transform) :
    walk.Steps index ⟨trees, e.transforms ++ pending⟩ e.words ⟨e :: trees, pending⟩ := by
  induction e generalizing index trees pending with
  | solid s t =>
    rw [Assembly.words_solid]
    exact .single ((Grows.solid s t trees pending).step_eq index)
  | combine c a b iha ihb =>
    rw [Assembly.words_combine, Assembly.transforms, List.append_assoc]
    -- the right operand grows on top of the left one, from the transforms that one has left
    refine ((iha index trees _).append (ihb _ _ pending)).append (.single ?_)
    exact (Grows.combine c a b trees pending).step_eq _
  | flate a amount ih =>
    rw [Assembly.words_flate, Assembly.transforms]
    exact (ih index trees pending).append (.single ((Grows.flate amount a trees pending).step_eq _))

/-- A tree is determined by its words and its transforms. -/
theorem assembly_unique {e e' : Assembly} (hwords : e.words = e'.words)
    (htransforms : e.transforms = e'.transforms) : e = e' := by
  -- both trees grow from nothing on the same words and transforms
  have h := steps_words e 0 [] []
  have h' := steps_words e' 0 [] []
  rw [← hwords, ← htransforms] at h'
  have heq := congrArg trees (h.unique h')
  exact (List.cons.inj heq).1

end Forest

end SignedDistance
