import SignedDistance.Program.Shape

set_option autoImplicit false

/-! # The demo scene

The scene that the commands work on: a rounded pillar that grows out of the ground, an arch beside
it, and a cube with a ball carved out. -/

namespace SignedDistance.Demo

/-- A quarter of a turn. -/
def quarterTurn : Float32 := .ofBits 0x3fc90fdb

/-- A column with a rounded head. -/
def pillar : Shape :=
  .translate (.blendUnion (.cylinder 1 4) (.translate (.sphere 1.6) 0 0 2) 0.3) 0 0 2

/-- The upper half of an upright ring. -/
def arch : Shape :=
  .translate
    (.diff (.rotateX (.torus 4 0.6) quarterTurn) (.translate (.box 6 2 3) 0 0 (-1.5))) 4 0 0

/-- A cube with a ball carved out. -/
def block : Shape :=
  .translate (.rotateZ (.diff (.cube 2) (.sphere 2.5)) 0.4) (-3) 3 1

/-- All of it, on the ground. -/
def scene : Shape := .union (.union (.blendUnion .ground pillar 0.5) arch) block

def program : Except BuildError Program := scene.compile

end SignedDistance.Demo
