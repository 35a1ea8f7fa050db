import Metafile.Support

/-!
# `Metafile.Plus.Kind`: the kinds of EMF+ records

EMF+ records travel inside comment records. Their kinds form one unbroken run of numbers, from
`firstCode` to `lastCode`; a number outside it ends the reading of a comment. `code_mem_range`
states that the kinds fill no other number, and `ofCode?_code` that each is reached by its own.
-/

set_option autoImplicit false

namespace Metafile.Plus

/-- The EMF+ record kinds, in the order of their numbers. -/
inductive Kind
  | header | endOfFile | comment | getDc | multiFormatStart | multiFormatSection
  | multiFormatEnd | object | clear | fillRects | drawRects | fillPolygon | drawLines
  | fillEllipse | drawEllipse | fillPie | drawPie | drawArc | fillRegion | fillPath | drawPath
  | fillClosedCurve | drawClosedCurve | drawCurve | drawBeziers | drawImage | drawImagePoints
  | drawString | setRenderingOrigin | setAntiAliasMode | setTextRenderingHint | setTextContrast
  | setInterpolationMode | setPixelOffsetMode | setCompositingMode | setCompositingQuality
  | save | restore | beginContainer | beginContainerNoParams | endContainer | setWorldTransform
  | resetWorldTransform | multiplyWorldTransform | translateWorldTransform
  | scaleWorldTransform | rotateWorldTransform | setPageTransform | resetClip | setClipRect
  | setClipPath | setClipRegion | offsetClip | drawDriverString | strokeFillPath
  | serializableObject | setTsGraphics | setTsClip
deriving DecidableEq, Repr, Inhabited

namespace Kind

/-- The number of the first kind. -/
def firstCode : Nat := 0x4001

/-- The number of the last kind. -/
def lastCode : Nat := 0x403A

/-- The number that announces a kind. -/
def code : Kind → Nat
  | .header => 0x4001 | .endOfFile => 0x4002 | .comment => 0x4003 | .getDc => 0x4004
  | .multiFormatStart => 0x4005 | .multiFormatSection => 0x4006 | .multiFormatEnd => 0x4007
  | .object => 0x4008 | .clear => 0x4009 | .fillRects => 0x400A | .drawRects => 0x400B
  | .fillPolygon => 0x400C | .drawLines => 0x400D | .fillEllipse => 0x400E
  | .drawEllipse => 0x400F | .fillPie => 0x4010 | .drawPie => 0x4011 | .drawArc => 0x4012
  | .fillRegion => 0x4013 | .fillPath => 0x4014 | .drawPath => 0x4015
  | .fillClosedCurve => 0x4016 | .drawClosedCurve => 0x4017 | .drawCurve => 0x4018
  | .drawBeziers => 0x4019 | .drawImage => 0x401A | .drawImagePoints => 0x401B
  | .drawString => 0x401C | .setRenderingOrigin => 0x401D | .setAntiAliasMode => 0x401E
  | .setTextRenderingHint => 0x401F | .setTextContrast => 0x4020
  | .setInterpolationMode => 0x4021 | .setPixelOffsetMode => 0x4022
  | .setCompositingMode => 0x4023 | .setCompositingQuality => 0x4024 | .save => 0x4025
  | .restore => 0x4026 | .beginContainer => 0x4027 | .beginContainerNoParams => 0x4028
  | .endContainer => 0x4029 | .setWorldTransform => 0x402A | .resetWorldTransform => 0x402B
  | .multiplyWorldTransform => 0x402C | .translateWorldTransform => 0x402D
  | .scaleWorldTransform => 0x402E | .rotateWorldTransform => 0x402F
  | .setPageTransform => 0x4030 | .resetClip => 0x4031 | .setClipRect => 0x4032
  | .setClipPath => 0x4033 | .setClipRegion => 0x4034 | .offsetClip => 0x4035
  | .drawDriverString => 0x4036 | .strokeFillPath => 0x4037 | .serializableObject => 0x4038
  | .setTsGraphics => 0x4039 | .setTsClip => 0x403A

/-- The kind that a number announces, if the format defines one. -/
def ofCode? : Nat → Option Kind
  | 0x4001 => some .header | 0x4002 => some .endOfFile | 0x4003 => some .comment
  | 0x4004 => some .getDc | 0x4005 => some .multiFormatStart
  | 0x4006 => some .multiFormatSection | 0x4007 => some .multiFormatEnd
  | 0x4008 => some .object | 0x4009 => some .clear | 0x400A => some .fillRects
  | 0x400B => some .drawRects | 0x400C => some .fillPolygon | 0x400D => some .drawLines
  | 0x400E => some .fillEllipse | 0x400F => some .drawEllipse | 0x4010 => some .fillPie
  | 0x4011 => some .drawPie | 0x4012 => some .drawArc | 0x4013 => some .fillRegion
  | 0x4014 => some .fillPath | 0x4015 => some .drawPath | 0x4016 => some .fillClosedCurve
  | 0x4017 => some .drawClosedCurve | 0x4018 => some .drawCurve | 0x4019 => some .drawBeziers
  | 0x401A => some .drawImage | 0x401B => some .drawImagePoints | 0x401C => some .drawString
  | 0x401D => some .setRenderingOrigin | 0x401E => some .setAntiAliasMode
  | 0x401F => some .setTextRenderingHint | 0x4020 => some .setTextContrast
  | 0x4021 => some .setInterpolationMode | 0x4022 => some .setPixelOffsetMode
  | 0x4023 => some .setCompositingMode | 0x4024 => some .setCompositingQuality
  | 0x4025 => some .save | 0x4026 => some .restore | 0x4027 => some .beginContainer
  | 0x4028 => some .beginContainerNoParams | 0x4029 => some .endContainer
  | 0x402A => some .setWorldTransform | 0x402B => some .resetWorldTransform
  | 0x402C => some .multiplyWorldTransform | 0x402D => some .translateWorldTransform
  | 0x402E => some .scaleWorldTransform | 0x402F => some .rotateWorldTransform
  | 0x4030 => some .setPageTransform | 0x4031 => some .resetClip | 0x4032 => some .setClipRect
  | 0x4033 => some .setClipPath | 0x4034 => some .setClipRegion | 0x4035 => some .offsetClip
  | 0x4036 => some .drawDriverString | 0x4037 => some .strokeFillPath
  | 0x4038 => some .serializableObject | 0x4039 => some .setTsGraphics
  | 0x403A => some .setTsClip | _ => none

/-- Each kind is found under its own number. -/
theorem ofCode?_code (k : Kind) : ofCode? k.code = some k := by
  cases k <;> rfl

/-- The number of every kind lies in the range of numbers that a comment may hold. -/
theorem code_mem_range (k : Kind) : firstCode ≤ k.code ∧ k.code ≤ lastCode := by
  cases k <;> decide

/-- The name that the format gives to a kind. -/
def name : Kind → String
  | .header => "EmfPlusHeader" | .endOfFile => "EmfPlusEndOfFile"
  | .comment => "EmfPlusComment" | .getDc => "EmfPlusGetDC"
  | .multiFormatStart => "EmfPlusMultiFormatStart"
  | .multiFormatSection => "EmfPlusMultiFormatSection"
  | .multiFormatEnd => "EmfPlusMultiFormatEnd" | .object => "EmfPlusObject"
  | .clear => "EmfPlusClear" | .fillRects => "EmfPlusFillRects"
  | .drawRects => "EmfPlusDrawRects" | .fillPolygon => "EmfPlusFillPolygon"
  | .drawLines => "EmfPlusDrawLines" | .fillEllipse => "EmfPlusFillEllipse"
  | .drawEllipse => "EmfPlusDrawEllipse" | .fillPie => "EmfPlusFillPie"
  | .drawPie => "EmfPlusDrawPie" | .drawArc => "EmfPlusDrawArc"
  | .fillRegion => "EmfPlusFillRegion" | .fillPath => "EmfPlusFillPath"
  | .drawPath => "EmfPlusDrawPath" | .fillClosedCurve => "EmfPlusFillClosedCurve"
  | .drawClosedCurve => "EmfPlusDrawClosedCurve" | .drawCurve => "EmfPlusDrawCurve"
  | .drawBeziers => "EmfPlusDrawBeziers" | .drawImage => "EmfPlusDrawImage"
  | .drawImagePoints => "EmfPlusDrawImagePoints" | .drawString => "EmfPlusDrawString"
  | .setRenderingOrigin => "EmfPlusSetRenderingOrigin"
  | .setAntiAliasMode => "EmfPlusSetAntiAliasMode"
  | .setTextRenderingHint => "EmfPlusSetTextRenderingHint"
  | .setTextContrast => "EmfPlusSetTextContrast"
  | .setInterpolationMode => "EmfPlusSetInterpolationMode"
  | .setPixelOffsetMode => "EmfPlusSetPixelOffsetMode"
  | .setCompositingMode => "EmfPlusSetCompositingMode"
  | .setCompositingQuality => "EmfPlusSetCompositingQuality" | .save => "EmfPlusSave"
  | .restore => "EmfPlusRestore" | .beginContainer => "EmfPlusBeginContainer"
  | .beginContainerNoParams => "EmfPlusBeginContainerNoParams"
  | .endContainer => "EmfPlusEndContainer" | .setWorldTransform => "EmfPlusSetWorldTransform"
  | .resetWorldTransform => "EmfPlusResetWorldTransform"
  | .multiplyWorldTransform => "EmfPlusMultiplyWorldTransform"
  | .translateWorldTransform => "EmfPlusTranslateWorldTransform"
  | .scaleWorldTransform => "EmfPlusScaleWorldTransform"
  | .rotateWorldTransform => "EmfPlusRotateWorldTransform"
  | .setPageTransform => "EmfPlusSetPageTransform" | .resetClip => "EmfPlusResetClip"
  | .setClipRect => "EmfPlusSetClipRect" | .setClipPath => "EmfPlusSetClipPath"
  | .setClipRegion => "EmfPlusSetClipRegion" | .offsetClip => "EmfPlusOffsetClip"
  | .drawDriverString => "EmfPlusDrawDriverString" | .strokeFillPath => "EmfPlusStrokeFillPath"
  | .serializableObject => "EmfPlusSerializableObject"
  | .setTsGraphics => "EmfPlusSetTSGraphics" | .setTsClip => "EmfPlusSetTSClip"

/-- How completely records of a kind are drawn. -/
def support : Kind → Support
  | .header | .endOfFile | .object | .fillRects | .drawRects | .fillPolygon | .drawLines |
    .fillEllipse | .drawEllipse | .fillPath | .drawPath | .drawBeziers | .save | .restore |
    .beginContainer | .beginContainerNoParams | .endContainer | .setWorldTransform |
    .resetWorldTransform | .multiplyWorldTransform | .translateWorldTransform |
    .scaleWorldTransform | .rotateWorldTransform | .setPageTransform =>
    .supported
  | .drawString =>
    .limited
  | .comment | .getDc | .multiFormatStart | .multiFormatSection | .multiFormatEnd |
    .setRenderingOrigin | .setAntiAliasMode | .setTextRenderingHint | .setTextContrast |
    .setInterpolationMode | .setPixelOffsetMode | .setCompositingMode |
    .setCompositingQuality | .setTsGraphics | .setTsClip =>
    .unused
  | _ => .ignored

end Kind

/-- The name of the kind with this number, as messages show it. -/
def nameOfCode (code : Nat) : String :=
  (Kind.ofCode? code).elim "EmfPlusUnknown" Kind.name

/-- The support class of the kind with this number. What the format does not define is ignored. -/
def supportOfCode (code : Nat) : Support :=
  (Kind.ofCode? code).elim .ignored Kind.support

end Metafile.Plus
