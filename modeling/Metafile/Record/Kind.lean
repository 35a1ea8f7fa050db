import Metafile.Support

/-!
# `Metafile.Record.Kind`: the kinds of metafile records

A record announces its kind by a number. `Kind` names the kinds that the format defines,
`Kind.code` gives the number of each, and `Kind.ofCode?` finds the kind of a number. A number
without a kind is legal in a stream: such a record is passed over. `ofCode?_code` states that no
kind is out of reach.

Names and support classes appear in messages, so both are defined for every number.
-/

set_option autoImplicit false

namespace Metafile.Record

/-- The record kinds of the format. Kinds whose name ends in 16 carry points of 16 bits and
otherwise mean the same as the kind without the ending. -/
inductive Kind
  | header | polyBezier | polygon | polyline | polyBezierTo | polylineTo | polyPolyline
  | polyPolygon | setWindowExtent | setWindowOrigin | setViewportExtent | setViewportOrigin
  | setBrushOrigin | endOfFile | setPixel | setMapperFlags | setMapMode | setBackgroundMode
  | setPolyFillMode | setRasterOperation | setStretchMode | setTextAlign | setColorAdjustment
  | setTextColor | setBackgroundColor | offsetClipRegion | moveTo | setMetaRegion
  | excludeClipRect | intersectClipRect | scaleViewportExtent | scaleWindowExtent | saveContext
  | restoreContext | setWorldTransform | modifyWorldTransform | selectObject | createPen
  | createBrush | deleteObject | angleArc | ellipse | rectangle | roundRect | arc | chord | pie
  | selectPalette | createPalette | setPaletteEntries | resizePalette | realizePalette
  | floodFill | lineTo | arcTo | polyDraw | setArcDirection | setMiterLimit | beginPath
  | endPath | closeFigure | fillPath | strokeAndFillPath | strokePath | flattenPath | widenPath
  | selectClipPath | abortPath | comment | fillRegion | frameRegion | invertRegion
  | paintRegion | selectClipRegion | bitBlt | stretchBlt | maskBlt | parallelogramBlt
  | setBitsToDevice | stretchBits | createFont | textOutNarrow | textOutWide | polyBezier16
  | polygon16 | polyline16 | polyBezierTo16 | polylineTo16 | polyPolyline16 | polyPolygon16
  | polyDraw16 | createMonoBrush | createPatternBrush | createExtendedPen | polyTextOutNarrow
  | polyTextOutWide | setColorMatching | createColorSpace | setColorSpace | deleteColorSpace
  | glRecord | glBoundedRecord | pixelFormat | drawEscape | escape | smallTextOut
  | forceFontMapping | namedEscape | correctPalette | setProfileNarrow | setProfileWide
  | alphaBlend | setLayout | transparentBlt | gradientFill | setLinkedFonts
  | setTextJustification | matchToTarget | createColorSpaceWide
deriving DecidableEq, Repr, Inhabited

namespace Kind

/-- The number that announces a kind. -/
def code : Kind → Nat
  | .header => 1 | .polyBezier => 2 | .polygon => 3 | .polyline => 4 | .polyBezierTo => 5
  | .polylineTo => 6 | .polyPolyline => 7 | .polyPolygon => 8 | .setWindowExtent => 9
  | .setWindowOrigin => 10 | .setViewportExtent => 11 | .setViewportOrigin => 12
  | .setBrushOrigin => 13 | .endOfFile => 14 | .setPixel => 15 | .setMapperFlags => 16
  | .setMapMode => 17 | .setBackgroundMode => 18 | .setPolyFillMode => 19
  | .setRasterOperation => 20 | .setStretchMode => 21 | .setTextAlign => 22
  | .setColorAdjustment => 23 | .setTextColor => 24 | .setBackgroundColor => 25
  | .offsetClipRegion => 26 | .moveTo => 27 | .setMetaRegion => 28 | .excludeClipRect => 29
  | .intersectClipRect => 30 | .scaleViewportExtent => 31 | .scaleWindowExtent => 32
  | .saveContext => 33 | .restoreContext => 34 | .setWorldTransform => 35
  | .modifyWorldTransform => 36 | .selectObject => 37 | .createPen => 38 | .createBrush => 39
  | .deleteObject => 40 | .angleArc => 41 | .ellipse => 42 | .rectangle => 43
  | .roundRect => 44 | .arc => 45 | .chord => 46 | .pie => 47 | .selectPalette => 48
  | .createPalette => 49 | .setPaletteEntries => 50 | .resizePalette => 51
  | .realizePalette => 52 | .floodFill => 53 | .lineTo => 54 | .arcTo => 55 | .polyDraw => 56
  | .setArcDirection => 57 | .setMiterLimit => 58 | .beginPath => 59 | .endPath => 60
  | .closeFigure => 61 | .fillPath => 62 | .strokeAndFillPath => 63 | .strokePath => 64
  | .flattenPath => 65 | .widenPath => 66 | .selectClipPath => 67 | .abortPath => 68
  | .comment => 70 | .fillRegion => 71 | .frameRegion => 72 | .invertRegion => 73
  | .paintRegion => 74 | .selectClipRegion => 75 | .bitBlt => 76 | .stretchBlt => 77
  | .maskBlt => 78 | .parallelogramBlt => 79 | .setBitsToDevice => 80 | .stretchBits => 81
  | .createFont => 82 | .textOutNarrow => 83 | .textOutWide => 84 | .polyBezier16 => 85
  | .polygon16 => 86 | .polyline16 => 87 | .polyBezierTo16 => 88 | .polylineTo16 => 89
  | .polyPolyline16 => 90 | .polyPolygon16 => 91 | .polyDraw16 => 92 | .createMonoBrush => 93
  | .createPatternBrush => 94 | .createExtendedPen => 95 | .polyTextOutNarrow => 96
  | .polyTextOutWide => 97 | .setColorMatching => 98 | .createColorSpace => 99
  | .setColorSpace => 100 | .deleteColorSpace => 101 | .glRecord => 102
  | .glBoundedRecord => 103 | .pixelFormat => 104 | .drawEscape => 105 | .escape => 106
  | .smallTextOut => 108 | .forceFontMapping => 109 | .namedEscape => 110
  | .correctPalette => 111 | .setProfileNarrow => 112 | .setProfileWide => 113
  | .alphaBlend => 114 | .setLayout => 115 | .transparentBlt => 116 | .gradientFill => 118
  | .setLinkedFonts => 119 | .setTextJustification => 120 | .matchToTarget => 121
  | .createColorSpaceWide => 122

/-- The kind that a number announces, if the format defines one. -/
def ofCode? : Nat → Option Kind
  | 1 => some .header | 2 => some .polyBezier | 3 => some .polygon | 4 => some .polyline
  | 5 => some .polyBezierTo | 6 => some .polylineTo | 7 => some .polyPolyline
  | 8 => some .polyPolygon | 9 => some .setWindowExtent | 10 => some .setWindowOrigin
  | 11 => some .setViewportExtent | 12 => some .setViewportOrigin | 13 => some .setBrushOrigin
  | 14 => some .endOfFile | 15 => some .setPixel | 16 => some .setMapperFlags
  | 17 => some .setMapMode | 18 => some .setBackgroundMode | 19 => some .setPolyFillMode
  | 20 => some .setRasterOperation | 21 => some .setStretchMode | 22 => some .setTextAlign
  | 23 => some .setColorAdjustment | 24 => some .setTextColor | 25 => some .setBackgroundColor
  | 26 => some .offsetClipRegion | 27 => some .moveTo | 28 => some .setMetaRegion
  | 29 => some .excludeClipRect | 30 => some .intersectClipRect
  | 31 => some .scaleViewportExtent | 32 => some .scaleWindowExtent | 33 => some .saveContext
  | 34 => some .restoreContext | 35 => some .setWorldTransform
  | 36 => some .modifyWorldTransform | 37 => some .selectObject | 38 => some .createPen
  | 39 => some .createBrush | 40 => some .deleteObject | 41 => some .angleArc
  | 42 => some .ellipse | 43 => some .rectangle | 44 => some .roundRect | 45 => some .arc
  | 46 => some .chord | 47 => some .pie | 48 => some .selectPalette | 49 => some .createPalette
  | 50 => some .setPaletteEntries | 51 => some .resizePalette | 52 => some .realizePalette
  | 53 => some .floodFill | 54 => some .lineTo | 55 => some .arcTo | 56 => some .polyDraw
  | 57 => some .setArcDirection | 58 => some .setMiterLimit | 59 => some .beginPath
  | 60 => some .endPath | 61 => some .closeFigure | 62 => some .fillPath
  | 63 => some .strokeAndFillPath | 64 => some .strokePath | 65 => some .flattenPath
  | 66 => some .widenPath | 67 => some .selectClipPath | 68 => some .abortPath
  | 70 => some .comment | 71 => some .fillRegion | 72 => some .frameRegion
  | 73 => some .invertRegion | 74 => some .paintRegion | 75 => some .selectClipRegion
  | 76 => some .bitBlt | 77 => some .stretchBlt | 78 => some .maskBlt
  | 79 => some .parallelogramBlt | 80 => some .setBitsToDevice | 81 => some .stretchBits
  | 82 => some .createFont | 83 => some .textOutNarrow | 84 => some .textOutWide
  | 85 => some .polyBezier16 | 86 => some .polygon16 | 87 => some .polyline16
  | 88 => some .polyBezierTo16 | 89 => some .polylineTo16 | 90 => some .polyPolyline16
  | 91 => some .polyPolygon16 | 92 => some .polyDraw16 | 93 => some .createMonoBrush
  | 94 => some .createPatternBrush | 95 => some .createExtendedPen
  | 96 => some .polyTextOutNarrow | 97 => some .polyTextOutWide | 98 => some .setColorMatching
  | 99 => some .createColorSpace | 100 => some .setColorSpace | 101 => some .deleteColorSpace
  | 102 => some .glRecord | 103 => some .glBoundedRecord | 104 => some .pixelFormat
  | 105 => some .drawEscape | 106 => some .escape | 108 => some .smallTextOut
  | 109 => some .forceFontMapping | 110 => some .namedEscape | 111 => some .correctPalette
  | 112 => some .setProfileNarrow | 113 => some .setProfileWide | 114 => some .alphaBlend
  | 115 => some .setLayout | 116 => some .transparentBlt | 118 => some .gradientFill
  | 119 => some .setLinkedFonts | 120 => some .setTextJustification
  | 121 => some .matchToTarget | 122 => some .createColorSpaceWide | _ => none

/-- Each kind is found under its own number. -/
theorem ofCode?_code (k : Kind) : ofCode? k.code = some k := by
  cases k <;> rfl

/-- The name that the format gives to a kind. -/
def name : Kind → String
  | .header => "EMR_HEADER" | .polyBezier => "EMR_POLYBEZIER" | .polygon => "EMR_POLYGON"
  | .polyline => "EMR_POLYLINE" | .polyBezierTo => "EMR_POLYBEZIERTO"
  | .polylineTo => "EMR_POLYLINETO" | .polyPolyline => "EMR_POLYPOLYLINE"
  | .polyPolygon => "EMR_POLYPOLYGON" | .setWindowExtent => "EMR_SETWINDOWEXTEX"
  | .setWindowOrigin => "EMR_SETWINDOWORGEX" | .setViewportExtent => "EMR_SETVIEWPORTEXTEX"
  | .setViewportOrigin => "EMR_SETVIEWPORTORGEX" | .setBrushOrigin => "EMR_SETBRUSHORGEX"
  | .endOfFile => "EMR_EOF" | .setPixel => "EMR_SETPIXELV"
  | .setMapperFlags => "EMR_SETMAPPERFLAGS" | .setMapMode => "EMR_SETMAPMODE"
  | .setBackgroundMode => "EMR_SETBKMODE" | .setPolyFillMode => "EMR_SETPOLYFILLMODE"
  | .setRasterOperation => "EMR_SETROP2" | .setStretchMode => "EMR_SETSTRETCHBLTMODE"
  | .setTextAlign => "EMR_SETTEXTALIGN" | .setColorAdjustment => "EMR_SETCOLORADJUSTMENT"
  | .setTextColor => "EMR_SETTEXTCOLOR" | .setBackgroundColor => "EMR_SETBKCOLOR"
  | .offsetClipRegion => "EMR_OFFSETCLIPRGN" | .moveTo => "EMR_MOVETOEX"
  | .setMetaRegion => "EMR_SETMETARGN" | .excludeClipRect => "EMR_EXCLUDECLIPRECT"
  | .intersectClipRect => "EMR_INTERSECTCLIPRECT"
  | .scaleViewportExtent => "EMR_SCALEVIEWPORTEXTEX"
  | .scaleWindowExtent => "EMR_SCALEWINDOWEXTEX" | .saveContext => "EMR_SAVEDC"
  | .restoreContext => "EMR_RESTOREDC" | .setWorldTransform => "EMR_SETWORLDTRANSFORM"
  | .modifyWorldTransform => "EMR_MODIFYWORLDTRANSFORM" | .selectObject => "EMR_SELECTOBJECT"
  | .createPen => "EMR_CREATEPEN" | .createBrush => "EMR_CREATEBRUSHINDIRECT"
  | .deleteObject => "EMR_DELETEOBJECT" | .angleArc => "EMR_ANGLEARC"
  | .ellipse => "EMR_ELLIPSE" | .rectangle => "EMR_RECTANGLE" | .roundRect => "EMR_ROUNDRECT"
  | .arc => "EMR_ARC" | .chord => "EMR_CHORD" | .pie => "EMR_PIE"
  | .selectPalette => "EMR_SELECTPALETTE" | .createPalette => "EMR_CREATEPALETTE"
  | .setPaletteEntries => "EMR_SETPALETTEENTRIES" | .resizePalette => "EMR_RESIZEPALETTE"
  | .realizePalette => "EMR_REALIZEPALETTE" | .floodFill => "EMR_EXTFLOODFILL"
  | .lineTo => "EMR_LINETO" | .arcTo => "EMR_ARCTO" | .polyDraw => "EMR_POLYDRAW"
  | .setArcDirection => "EMR_SETARCDIRECTION" | .setMiterLimit => "EMR_SETMITERLIMIT"
  | .beginPath => "EMR_BEGINPATH" | .endPath => "EMR_ENDPATH"
  | .closeFigure => "EMR_CLOSEFIGURE" | .fillPath => "EMR_FILLPATH"
  | .strokeAndFillPath => "EMR_STROKEANDFILLPATH" | .strokePath => "EMR_STROKEPATH"
  | .flattenPath => "EMR_FLATTENPATH" | .widenPath => "EMR_WIDENPATH"
  | .selectClipPath => "EMR_SELECTCLIPPATH" | .abortPath => "EMR_ABORTPATH"
  | .comment => "EMR_COMMENT" | .fillRegion => "EMR_FILLRGN" | .frameRegion => "EMR_FRAMERGN"
  | .invertRegion => "EMR_INVERTRGN" | .paintRegion => "EMR_PAINTRGN"
  | .selectClipRegion => "EMR_EXTSELECTCLIPRGN" | .bitBlt => "EMR_BITBLT"
  | .stretchBlt => "EMR_STRETCHBLT" | .maskBlt => "EMR_MASKBLT"
  | .parallelogramBlt => "EMR_PLGBLT" | .setBitsToDevice => "EMR_SETDIBITSTODEVICE"
  | .stretchBits => "EMR_STRETCHDIBITS" | .createFont => "EMR_EXTCREATEFONTINDIRECTW"
  | .textOutNarrow => "EMR_EXTTEXTOUTA" | .textOutWide => "EMR_EXTTEXTOUTW"
  | .polyBezier16 => "EMR_POLYBEZIER16" | .polygon16 => "EMR_POLYGON16"
  | .polyline16 => "EMR_POLYLINE16" | .polyBezierTo16 => "EMR_POLYBEZIERTO16"
  | .polylineTo16 => "EMR_POLYLINETO16" | .polyPolyline16 => "EMR_POLYPOLYLINE16"
  | .polyPolygon16 => "EMR_POLYPOLYGON16" | .polyDraw16 => "EMR_POLYDRAW16"
  | .createMonoBrush => "EMR_CREATEMONOBRUSH"
  | .createPatternBrush => "EMR_CREATEDIBPATTERNBRUSHPT"
  | .createExtendedPen => "EMR_EXTCREATEPEN" | .polyTextOutNarrow => "EMR_POLYTEXTOUTA"
  | .polyTextOutWide => "EMR_POLYTEXTOUTW" | .setColorMatching => "EMR_SETICMMODE"
  | .createColorSpace => "EMR_CREATECOLORSPACE" | .setColorSpace => "EMR_SETCOLORSPACE"
  | .deleteColorSpace => "EMR_DELETECOLORSPACE" | .glRecord => "EMR_GLSRECORD"
  | .glBoundedRecord => "EMR_GLSBOUNDEDRECORD" | .pixelFormat => "EMR_PIXELFORMAT"
  | .drawEscape => "EMR_DRAWESCAPE" | .escape => "EMR_EXTESCAPE"
  | .smallTextOut => "EMR_SMALLTEXTOUT" | .forceFontMapping => "EMR_FORCEUFIMAPPING"
  | .namedEscape => "EMR_NAMEDESCAPE" | .correctPalette => "EMR_COLORCORRECTPALETTE"
  | .setProfileNarrow => "EMR_SETICMPROFILEA" | .setProfileWide => "EMR_SETICMPROFILEW"
  | .alphaBlend => "EMR_ALPHABLEND" | .setLayout => "EMR_SETLAYOUT"
  | .transparentBlt => "EMR_TRANSPARENTBLT" | .gradientFill => "EMR_GRADIENTFILL"
  | .setLinkedFonts => "EMR_SETLINKEDUFIS"
  | .setTextJustification => "EMR_SETTEXTJUSTIFICATION"
  | .matchToTarget => "EMR_COLORMATCHTOTARGETW"
  | .createColorSpaceWide => "EMR_CREATECOLORSPACEW"

/-- How completely records of a kind are drawn. -/
def support : Kind → Support
  | .polyBezier | .polygon | .polyline | .polyBezierTo | .polylineTo | .polyPolyline |
    .polyPolygon | .setWindowExtent | .setWindowOrigin | .setViewportExtent |
    .setViewportOrigin | .setPolyFillMode | .moveTo | .saveContext | .restoreContext |
    .setWorldTransform | .modifyWorldTransform | .createBrush | .deleteObject | .angleArc |
    .ellipse | .rectangle | .roundRect | .lineTo | .setArcDirection | .beginPath |
    .closeFigure | .polyBezier16 | .polygon16 | .polyline16 | .polyBezierTo16 |
    .polylineTo16 | .polyPolyline16 | .polyPolygon16 | .createMonoBrush |
    .createPatternBrush =>
    .supported
  | .header | .endOfFile | .setMapMode | .setBackgroundMode | .setStretchMode |
    .setTextAlign | .setTextColor | .setBackgroundColor | .offsetClipRegion |
    .excludeClipRect | .intersectClipRect | .selectObject | .createPen | .arc | .chord |
    .pie | .arcTo | .polyDraw | .endPath | .fillPath | .strokeAndFillPath | .strokePath |
    .flattenPath | .selectClipPath | .comment | .selectClipRegion | .bitBlt | .stretchBlt |
    .stretchBits | .createFont | .textOutNarrow | .textOutWide | .polyDraw16 |
    .createExtendedPen | .smallTextOut | .alphaBlend | .setLayout =>
    .limited
  | .setBrushOrigin | .polyTextOutNarrow | .polyTextOutWide | .setColorMatching |
    .glRecord | .glBoundedRecord | .drawEscape | .escape | .forceFontMapping |
    .namedEscape | .correctPalette | .setProfileNarrow | .setProfileWide | .setLinkedFonts |
    .setTextJustification | .matchToTarget =>
    .unused
  | _ => .ignored

/-- Whether the points of a record of this kind have 16 bits per coordinate. -/
def hasShortPoints : Kind → Bool
  | .polyBezier16 | .polygon16 | .polyline16 | .polyBezierTo16 | .polylineTo16
  | .polyPolyline16 | .polyPolygon16 | .polyDraw16 => true
  | _ => false

/-- Whether a record of this kind adds visible geometry to an open path. -/
def drawsGeometry : Kind → Bool
  | .polyBezier | .polygon | .polyline | .polyBezierTo | .polylineTo | .polyPolyline
  | .polyPolygon | .lineTo | .arcTo | .polyDraw | .polyBezier16 | .polygon16 | .polyline16
  | .polyBezierTo16 | .polylineTo16 | .polyPolyline16 | .polyPolygon16 | .polyDraw16
  | .angleArc | .arc | .chord | .pie | .ellipse | .rectangle | .roundRect => true
  | _ => false

end Kind

/-- The name of the kind with this number, as messages show it. -/
def nameOfCode (code : Nat) : String :=
  (Kind.ofCode? code).elim "EMR_UNKNOWN" Kind.name

/-- The support class of the kind with this number. What the format does not define is ignored. -/
def supportOfCode (code : Nat) : Support :=
  (Kind.ofCode? code).elim .ignored Kind.support

end Metafile.Record
