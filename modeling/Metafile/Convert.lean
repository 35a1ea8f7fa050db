import Metafile.Playback.Step

/-!
# `Metafile.Convert`: from a metafile to a document

A conversion walks over the bytes of a metafile twice. The survey refuses what is not a sequence
of records. Then the records are played, and the pieces that they draw are the document. A record
that is out of bounds ends the playing: what was drawn before it is kept, and the conversion is
incomplete. A fault of any other sort, in the survey or in the playing, is that of the conversion.
-/

set_option autoImplicit false

namespace Metafile

open Metafile.Playback (Setup State)
open Metafile.Record (Survey)

/-- The result of a conversion. -/
structure Conversion where
  svg : String
  /-- Whether every record was played. -/
  complete : Bool
deriving DecidableEq, Repr, Inhabited

namespace Conversion

/-- The result that a state stands for. -/
def ofState (o : Options) (s : State) : Conversion :=
  ⟨s.text o.qualifier, !s.failed⟩

/-- The message about the result of a conversion. -/
def message (c : Conversion) : Message :=
  ⟨.info, s!"rendered {c.svg.utf8ByteSize} bytes of svg, complete: {c.complete}"⟩

/-- The message about the records that are going to be played. -/
def startMessage (survey : Survey) : Message :=
  ⟨.info, s!"rendering {survey.entries.length} records"⟩

end Conversion

/-- Plays the records of a survey, and gives what is left behind with the fault that is passed on,
if there is one. -/
def playThrough (setup : Setup) (survey : Survey) : State × Option Fault :=
  State.run setup survey.paths survey.entries
    { State.initial with log := #[survey.message, Conversion.startMessage survey] }

/-- What playing the records of a survey leaves behind. -/
def play (setup : Setup) (survey : Survey) : State :=
  (playThrough setup survey).1

/-- The result of playing the records of a survey, and the messages about it. -/
def Conversion.ofSurvey (setup : Setup) (survey : Survey) : Conversion × Log :=
  let state := play setup survey
  let result := Conversion.ofState setup.options state
  (result, state.log.push result.message)

/-- Converts a metafile, and gives the messages about it along with the result. It is refused for
the fault of the survey, or for a fault that the playing passes on. -/
def convert (setup : Setup) (stream : Bytes) : Except Fault (Conversion × Log) :=
  match Survey.ofBytes stream with
  | .error fault => .error fault
  | .ok survey =>
    match (playThrough setup survey).2 with
    | none => .ok (Conversion.ofSurvey setup survey)
    | some fault => .error fault

end Metafile
