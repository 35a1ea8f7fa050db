import Metafile.Geometry.Affine

/-!
# `Metafile.Geometry.Mapping`: from logical units to the page

Records draw in logical units. The map mode gives a factor for each axis: one, a metric or an
English unit, a printer's unit, or the ratio of a viewport to a window. In the last two modes the
origins of the window and the viewport count as well. The page then scales everything alike.

The world transform is not part of the mapping. It is written as a group around what is drawn, so
its matrix must act on page units. `Mapping.wrapper` gives that matrix.
-/

set_option autoImplicit false

namespace Metafile

/-- The ways to choose logical units. -/
inductive MapMode
  | text | loMetric | hiMetric | loEnglish | hiEnglish | twips | isotropic | anisotropic
deriving DecidableEq, Repr, Inhabited

namespace MapMode

/-- The map mode with this number. -/
def ofCode? : Nat → Option MapMode
  | 1 => some .text
  | 2 => some .loMetric
  | 3 => some .hiMetric
  | 4 => some .loEnglish
  | 5 => some .hiEnglish
  | 6 => some .twips
  | 7 => some .isotropic
  | 8 => some .anisotropic
  | _ => none

/-- The name of a map mode. -/
def name : MapMode → String
  | .text => "Text"
  | .loMetric => "LoMetric"
  | .hiMetric => "HiMetric"
  | .loEnglish => "LoEnglish"
  | .hiEnglish => "HiEnglish"
  | .twips => "Twips"
  | .isotropic => "Isotropic"
  | .anisotropic => "Anisotropic"

end MapMode

/-- The origin and the extent of a window or a viewport. -/
structure Frame (α : Type) where
  origin : Point α
  extent : Point α
deriving BEq, Repr, Inhabited

/-- What is fixed for the whole picture. -/
structure Page (α : Type) where
  /-- The size of a device unit on the page. -/
  scale : α
  /-- The number of device units in a millimeter. -/
  perMillimeter : α
deriving BEq, Repr, Inhabited

/-- The map mode with its window and viewport. -/
structure Mapping (α : Type) where
  mode : MapMode
  window : Frame α
  viewport : Frame α
deriving BEq, Repr, Inhabited

variable {α : Type} [Scalar α]

/-- The page before anything is known about it. -/
def Page.initial : Page α := ⟨1.0, 1.0⟩

/-- The frame of no extent at the origin. -/
def Frame.zero : Frame α := ⟨Point.zero, Point.zero⟩

namespace Mapping

/-- The mapping before any record changes it. -/
def initial : Mapping α := ⟨.text, Frame.zero, Frame.zero⟩

/-- The factor between two extents. A window of no extent leaves lengths as they are. -/
def ratio (viewport window : α) : α :=
  if Scalar.isZero window then 1.0 else viewport / window

/-- The signed factor of each axis, without the page scale. In the metric and English modes the
vertical axis points up. -/
def factors (m : Mapping α) (page : Page α) : Point α :=
  let mm := page.perMillimeter
  match m.mode with
  | .text => ⟨1.0, 1.0⟩
  | .loMetric => ⟨mm * 0.1, -(mm * 0.1)⟩
  | .hiMetric => ⟨mm * 0.01, -(mm * 0.01)⟩
  | .loEnglish => ⟨mm * 0.01 * 25.4, -(mm * 0.01 * 25.4)⟩
  | .hiEnglish => ⟨mm * 0.001 * 25.4, -(mm * 0.001 * 25.4)⟩
  | .twips => ⟨mm / 1440.0 * 25.4, -(mm / 1440.0 * 25.4)⟩
  | .isotropic =>
    let s := ratio m.viewport.extent.x m.window.extent.x
    ⟨s, s⟩
  | .anisotropic =>
    ⟨ratio m.viewport.extent.x m.window.extent.x, ratio m.viewport.extent.y m.window.extent.y⟩

/-- Whether the origins of the window and the viewport count. -/
def usesOrigins (m : Mapping α) : Bool :=
  match m.mode with
  | .isotropic | .anisotropic => true
  | _ => false

/-- A logical point on the page. -/
def point (m : Mapping α) (page : Page α) (p : Point α) : Point α :=
  let s := m.factors page
  let q : Point α :=
    if m.usesOrigins then
      ⟨(p.x - m.window.origin.x) * s.x + m.viewport.origin.x,
        (p.y - m.window.origin.y) * s.y + m.viewport.origin.y⟩
    else ⟨p.x * s.x, p.y * s.y⟩
  ⟨q.x * page.scale, q.y * page.scale⟩

/-- A horizontal length on the page. Neither the origins nor the direction of the axis count. -/
def lengthX (m : Mapping α) (page : Page α) (v : α) : α :=
  v * Scalar.abs (m.factors page).x * page.scale

/-- A vertical length on the page. -/
def lengthY (m : Mapping α) (page : Page α) (v : α) : α :=
  v * Scalar.abs (m.factors page).y * page.scale

/-- A pair of radii on the page. -/
def lengths (m : Mapping α) (page : Page α) (v : Point α) : Point α :=
  ⟨m.lengthX page v.x, m.lengthY page v.y⟩

/-- Whether the vertical axis of the logical units points up. -/
def pointsUp (m : Mapping α) (page : Page α) : Bool :=
  Scalar.less (m.factors page).y 0.0

/-- Whether the vertical axis of the logical units points down. -/
def pointsDown (m : Mapping α) (page : Page α) : Bool :=
  Scalar.less 0.0 (m.factors page).y

/-- The world transform as a map of page units: conjugated by the factors of the axes, with its
translation scaled to the page. A factor of zero cannot be undone and is left out. -/
def wrapper (m : Mapping α) (page : Page α) (world : Affine α) : Affine α :=
  let s := m.factors page
  -- the off-diagonal entries mix the axes, so they change by the ratio of the factors
  let k : α := if Scalar.isZero s.x then 1.0 else s.y / s.x
  { m11 := world.m11
    m12 := if Scalar.isZero k then world.m12 else world.m12 * k
    m21 := if Scalar.isZero k then world.m21 else world.m21 / k
    m22 := world.m22
    dx := world.dx * s.x * page.scale
    dy := world.dy * s.y * page.scale }

end Mapping

end Metafile
