import Metafile.Proofs.Playback.Alike
import Metafile.Proofs.Record.PointWidths

/-!
# `Metafile.Proofs.Playback.Narrowing`: points of 16 bits draw the same

A record of points may be replaced by the one with short points that holds the same, wherever it
stands and whatever is drawn around it. The survey treats both alike, so the changes of the world
transform inside of a bracket are deferred in the same way, and both are drawn as the same shape.
-/

set_option autoImplicit false

namespace Metafile.Playback

open Metafile.Record (Entry Kind Narrowed PointContent Survey neededBytes)

/-- Records of points with short coordinates can be narrowed. Any of the records of an accepted
stream may be replaced by the one with short points that holds the same counts, points and types,
and any bytes may follow the end record: the stream is still accepted and gives the same picture,
which is complete if it was before. -/
theorem convert_narrowed (setup : Setup) {stream : Bytes} {survey : Survey} {records : List Bytes}
    (h : Survey.ofBytes stream = .ok survey)
    (hnarrowed : List.Forall₂ Narrowed (survey.entries.map Entry.body) records) (tail : Bytes) :
    ∃ c log log', convert setup stream = .ok (c, log) ∧
      convert setup (records.flatten ++ tail) = .ok (c, log') := by
  obtain ⟨original, _, _, hframed, hentries⟩ := Survey.framed_of_ofBytes h
  rw [hentries, Record.map_body_placed] at hnarrowed
  obtain ⟨hsame, hmeasured⟩ := Record.counterparts_narrowed setup.options.plus hnarrowed
    hframed.measured 0 0
  rw [← hentries] at hsame
  exact convert_of_counterparts setup h hmeasured hsame tail

/-- What the records of points of a picture hold: a curve, two triangles and points with types. -/
def pictureContents : PointContent × PointContent × PointContent :=
  (.plain [⟨10, -20⟩, ⟨30, 40⟩, ⟨-32768, 32767⟩],
    .grouped [3, 3] [⟨0, 0⟩, ⟨9, 0⟩, ⟨0, 9⟩, ⟨5, 5⟩, ⟨8, 5⟩, ⟨5, 8⟩],
    .typed [(⟨1, 2⟩, 6), (⟨3, 4⟩, 2), (⟨5, 6⟩, 3)])

/-- A curve in a path whose world transform is changed, then two triangles, points with types, and
a polyline with fewer points than it announces. -/
def pictureRecords (short : Bool) (bounds : Bytes) : List Bytes :=
  let kind (long narrow : Kind) : Kind := if short then narrow else long
  let (curve, triangles, steps) := pictureContents
  let rotation := List.replicate 24 0
  [Kind.header.record (List.replicate 80 0), Kind.beginPath.record [],
    (kind .polyBezierTo .polyBezierTo16).record (bounds ++ curve.fields short ++ []),
    Kind.setWorldTransform.record rotation, Kind.endPath.record [], Kind.strokePath.record [],
    (kind .polyPolygon .polyPolygon16).record (bounds ++ triangles.fields short ++ [0, 0]),
    (kind .polyDraw .polyDraw16).record (bounds ++ steps.fields short ++ []),
    (kind .polyline .polyline16).record (bounds ++ Bytes.ofNat 4 7 ++ [1, 2, 3, 4]),
    Kind.endOfFile.record []]

/-- The picture is the same with short points. -/
theorem convert_picture :
    ∃ c log log',
      convert .plain (pictureRecords false (List.replicate 16 0)).flatten = .ok (c, log) ∧
      convert .plain ((pictureRecords true (List.replicate 16 9)).flatten ++ [1]) =
        .ok (c, log') := by
  have haccepted := Survey.ofBytes_ofStream (by decide +kernel :
    (Survey.ofBytes (pictureRecords false (List.replicate 16 0)).flatten).isOk = true)
  have hbodies :
      (Survey.ofStream (pictureRecords false (List.replicate 16 0)).flatten).entries.map
      Entry.body = pictureRecords false (List.replicate 16 0) := by decide +kernel
  refine convert_narrowed .plain haccepted ?_ [1]
  rw [hbodies]
  -- each record stays as it is, or is narrowed in one of the four ways
  refine .cons (.same _) (.cons (.same _) (.cons ?curve (.cons (.same _) (.cons (.same _)
    (.cons (.same _) (.cons ?triangles (.cons ?steps (.cons ?cut (.cons (.same _) .nil)))))))))
  case curve => exact .content pictureContents.1 rfl (by decide) rfl rfl [] [] (by decide)
  case triangles => exact .content pictureContents.2.1 rfl (by decide) rfl rfl _ _ (by decide)
  case steps => exact .content pictureContents.2.2 rfl (by decide) rfl rfl [] [] (by decide)
  case cut =>
    exact .cut (rfl : Kind.polyline.narrow? = some (.polyline16, .plain)) (by decide) (by decide)
      (by decide)

end Metafile.Playback
