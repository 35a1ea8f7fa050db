import Metafile.Playback.Clipping
import Metafile.Playback.Figure
import Metafile.Playback.Frame
import Metafile.Playback.Label
import Metafile.Playback.Picture

/-!
# `Metafile.Playback.Step`: playing one record

`State.perform` does what a command asks for, and `State.step` reads a record and does it. Either
may answer a fault of any sort. `State.steps` plays records up to the first fault, and `State.run`
says what becomes of it: where something is out of bounds the picture is left as incomplete, and
any other fault is passed on. `State.steps_append` states that a history of records can be cut in
two.
-/

set_option autoImplicit false

namespace Metafile.Playback

open Metafile.Record (Command Entry PathUse)

namespace State

/-- Sets the map mode. An unknown number changes nothing. -/
def setMapMode (code : Nat) (s : State) : State :=
  match MapMode.ofCode? code with
  | some mode => s.update fun c => { c with mapping := { c.mapping with mode } }
  | none => s.note .warn s!"unknown map mode {code}"

/-- Selects the tool of a handle. -/
def select (handle : Nat) (s : State) : State × Option Fault :=
  if Device.Context.isStock handle then
    match s.context.selectStock? handle with
    | some context => ({ s with context }, none)
    | none =>
      (s.note .debug ("stock object " ++ Log.hexadecimal 1 handle ++ " ignored"), none)
  else
    match s.objects.select handle s.context with
    | .ok context => ({ s with context }, none)
    | .error fault => (s, some fault)

/-- Deletes the tool of a handle. Tools which every device has are not deleted. -/
def delete (handle : Nat) (s : State) : State × Option Fault :=
  if Device.Context.isStock handle then (s, none)
  else
    match s.objects.delete handle with
    | .ok objects => ({ s with objects }, none)
    | .error fault => (s, some fault)

/-- Does what a command asks for. A fault is the reason why it could not be done. -/
def perform (setup : Setup) (uses : List PathUse) (c : Command) (s : State) :
    State × Option Fault :=
  match c with
  | .header h => (s.beginDocument setup.options h, none)
  | .endOfFile => (s.endDocument setup.options, none)
  | .draw shape => (s.draw shape, none)
  | .beginPath => s.beginPath uses
  | .endPath => s.endPath uses
  | .closeFigure => (s.closeFigure, none)
  | .abortPath => (s.abortPath, none)
  | .flattenPath => (s.flattenPath, none)
  | .set setting => (s.update setting.onto, none)
  | .mapMode code => (s.setMapMode code, none)
  | .layout bits => ({ s with rightToLeft := bits % 2 == 1 }, none)
  | .moveTo p => (s.moveTo (.ofInt p), none)
  | .save => ({ s with saved := s.saved.save s.context }, none)
  | .restore relative => s.restore relative
  | .transform change => (s.transform change, none)
  | .create index tool => s.put index tool
  | .createPattern index picture twoColors =>
    s.createPattern setup.encode index picture twoColors
  | .select handle => s.select handle
  | .delete handle => s.delete handle
  | .clip change => (s.changeClip setup.combine change, none)
  | .blit area => (s.blit setup.encode area, none)
  | .label origin text => (s.label origin text, none)
  | .plus records => (s.runPlus (·.play setup.options.verbose s.page.scale records), none)
  | .nothing => (s, none)

/-- Reads a record and does what it asks for. A kind that the format does not define asks for
nothing. -/
def step (setup : Setup) (uses : List PathUse) (e : Entry) (s : State) :
    State × Option Fault :=
  match e.kind? with
  | none => (s, none)
  | some kind =>
    match Command.ofRecord setup.options.plus kind e.body with
    | .ok c => s.perform setup uses c
    | .error fault => (s, some fault)

/-- The message that lists a record. -/
def listing (e : Entry) : String :=
  Log.alignRight 8 (toString e.offset) ++ " " ++ Log.alignRight 3 (toString e.code) ++ " " ++
    Log.alignLeft 28 e.name ++ " " ++ (Record.supportOfCode e.code).name

/-- Lists a record in the log, if every record is to be listed. -/
def announce (setup : Setup) (e : Entry) (s : State) : State :=
  if setup.options.verbose then s.note .debug (listing e) else s

/-- Plays records until one of them cannot be done, and gives that record and its fault along with
what is left behind. -/
def steps (setup : Setup) (uses : List PathUse) :
    List Entry → State → State × Option (Entry × Fault)
  | [], s => (s, none)
  | e :: rest, s =>
    match (s.announce setup e).step setup uses e with
    | (s, none) => steps setup uses rest s
    | (s, some fault) => (s, some (e, fault))

/-- Playing can be cut where nothing went wrong: the later records are played in the state that
the earlier ones left behind. -/
theorem steps_append {setup : Setup} {uses : List PathUse} {earlier : List Entry} {s t : State}
    (h : s.steps setup uses earlier = (t, none)) (later : List Entry) :
    s.steps setup uses (earlier ++ later) = t.steps setup uses later := by
  induction earlier generalizing s with
  | nil =>
    obtain ⟨rfl, _⟩ := Prod.mk.inj h
    rfl
  | cons e rest ih =>
    rw [List.cons_append]
    rw [steps] at h ⊢
    split at h
    · exact ih h
    · cases h

/-- The message about a record that is out of bounds. -/
def haltText (e : Entry) (cause : OutOfBounds) : String :=
  s!"{e.name} at offset {e.offset}: {cause.text}"

/-- Plays the records of a conversion. A record that is out of bounds ends the playing, and the
picture is incomplete. Any other fault of a record is passed on. -/
def run (setup : Setup) (uses : List PathUse) (entries : List Entry) (s : State) :
    State × Option Fault :=
  match s.steps setup uses entries with
  | (s, none) => (s, none)
  | (s, some (e, .outOfBounds cause)) => (s.fail (haltText e cause), none)
  | (s, some (_, fault)) => (s, some fault)

end State

end Metafile.Playback
