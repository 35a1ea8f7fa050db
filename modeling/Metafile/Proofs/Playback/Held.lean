import Metafile.Proofs.Markup.PathData
import Metafile.Proofs.Markup.Writing
import Metafile.Proofs.Playback.History

/-!
# `Metafile.Proofs.Playback.Held`: what is drawn while a path is open

While a bracket is open the document ends inside of the attribute with the path data, so nothing
else can be written. What is drawn meanwhile is held back. `Reaches.held_back` states the two
things that this is for. The text after the opening quote is path data and nothing else, at every
boundary at which a path is open. And the record that closes the path, whichever it is, writes the
end of the path element and then everything that was drawn since the path began, in the order of
the records.

`State.drawings` says what that is, record by record. The proof follows one bracket:
`Reaches.opening` finds the record that began it, `State.steps_holds` runs from there to the
boundary, and `State.closes` is the step that closes it.
-/

set_option autoImplicit false

namespace Metafile.Playback

open Metafile.Markup (Attribute Document Piece Sink)
open Metafile.Record (Command Entry Kind PathUse Survey)

namespace State

/-! ### What the records of a bracket draw -/

/-- What a record draws in a state in which a path is open. -/
def drawingOf (setup : Setup) (e : Entry) (s : State) : Document :=
  match e.command setup.options.plus with
  | .ok c => (s.announce setup e).drawing setup c
  | .error _ => #[]

/-- What records draw one after the other while a path is open. -/
def drawings (setup : Setup) (uses : List PathUse) : List Entry → State → Document
  | [], _ => #[]
  | e :: rest, s => s.drawingOf setup e ++ drawings setup uses rest (s.next setup uses e).1

/-- Whether a record closes a path that is open. -/
def closesPath (e : Entry) : Bool :=
  [some Kind.beginPath, some .endPath, some .abortPath, some .endOfFile].contains e.kind?

/-- What a step inside of an open bracket does to the document: pieces are held back. -/
structure Holds (s t : State) (pieces : Document) : Prop where
  clip : t.bracket.map Bracket.clip = s.bracket.map Bracket.clip
  written : t.written = s.written
  held : t.held = s.held ++ pieces

/-- What only holds pieces back leaves the bracket open. -/
theorem Holds.inPath {s t : State} {pieces : Document} (h : Holds s t pieces) :
    t.inPath = s.inPath := by
  have hclip := congrArg Option.isSome h.clip
  rwa [Option.isSome_map, Option.isSome_map] at hclip

/-- What is added while a bracket is open is held back. -/
theorem Adds.holds {s t : State} {pieces : Document} (h : Adds s t pieces)
    (hopen : s.inPath = true) : Holds s t pieces :=
  ⟨h.clip, by rw [h.written, if_pos hopen], by rw [h.held, if_pos hopen]⟩

/-- What is held back later comes behind what was held back first. -/
theorem Holds.trans {s t u : State} {a b : Document} (h : Holds s t a) (k : Holds t u b) :
    Holds s u (a ++ b) :=
  ⟨k.clip.trans h.clip, k.written.trans h.written, by rw [k.held, h.held, Array.append_assoc]⟩

/-- While a path is open, a command that does not close it holds back what it draws. -/
theorem perform_holds {setup : Setup} {uses : List PathUse} {c : Command} {s t : State}
    (hopen : s.inPath = true) (hkeeps : inPathAfter c true = true)
    (hbegin : c.soleKind? ≠ some .beginPath) (hheader : c.soleKind? ≠ some .header)
    (h : s.perform setup uses c = (t, none)) : Holds s t (s.drawing setup c) := by
  cases honly : onlyAdds c with
  | true =>
      obtain ⟨pieces, hadds, hdrawn, _⟩ := perform_adds setup uses s honly
      rw [h, hdrawn hopen hheader] at hadds
      exact hadds.holds hopen
  | false =>
      -- only the world transform and the saved contexts are left, and no group begins here
      cases c with
      | save =>
          obtain ⟨rfl, _⟩ := Prod.mk.inj h
          exact ⟨rfl, rfl, (Array.append_empty ..).symm⟩
      | transform change =>
          obtain ⟨rfl, _⟩ := Prod.mk.inj h
          change Holds s (s.transform change) #[]
          rw [transform_of_open hopen]
          exact ⟨rfl, rfl, (Array.append_empty ..).symm⟩
      | restore relative =>
          obtain rfl : (s.restore relative).1 = t := congrArg Prod.fst h
          unfold restore
          split
          · split
            · rename_i context saved _ _
              have hwrap : ({ s with context, saved } : State).wrap = { s with context, saved } :=
                wrap_of_open hopen
              dsimp only
              rw [hwrap]
              exact ⟨rfl, rfl, (Array.append_empty ..).symm⟩
            · exact ⟨rfl, rfl, (Array.append_empty ..).symm⟩
          · exact ⟨rfl, rfl, (Array.append_empty ..).symm⟩
          · exact ⟨rfl, rfl, (Array.append_empty ..).symm⟩
      | beginPath => exact absurd rfl hbegin
      | endPath | abortPath | endOfFile => cases hkeeps
      | _ => cases honly

/-- The records that close a path. -/
theorem closesPath_eq_false {e : Entry} :
    closesPath e = false ↔ e.kind? ≠ some .beginPath ∧ e.kind? ≠ some .endPath ∧
      e.kind? ≠ some .abortPath ∧ e.kind? ≠ some .endOfFile := by
  simp [closesPath]

/-- While a path is open, a record that does not close it holds back what it draws. -/
theorem next_holds {setup : Setup} {uses : List PathUse} {e : Entry} {s t : State}
    (hopen : s.inPath = true) (hkeeps : closesPath e = false)
    (hheader : e.kind? ≠ some .header) (h : s.next setup uses e = (t, none)) :
    Holds s t (s.drawingOf setup e) := by
  obtain ⟨c, hc, hperform⟩ := next_eq_ok h
  obtain ⟨hbegin, hend, habort, hlast⟩ := closesPath_eq_false.1 hkeeps
  have hsole (kind : Kind) (h : kind.isSole = true) :
      c.soleKind? = some kind ↔ e.kind? = some kind :=
    Entry.command_soleKind? hc h
  -- the record does not close the bracket, so its command does not either
  have hstays : inPathAfter c true = true := by
    rw [inPathAfter_eq hc]
    split <;> first | rfl | contradiction
  have hannounced := announce_adds setup e s
  have hholds := perform_holds (hannounced.inPath.trans hopen) hstays
    (fun hsome => hbegin ((hsole .beginPath rfl).1 hsome))
    (fun hsome => hheader ((hsole .header rfl).1 hsome)) hperform
  have hboth := (hannounced.holds hopen).trans hholds
  unfold drawingOf
  rw [hc]
  rwa [Array.empty_append] at hboth

/-- While a path is open, records that do not close it hold back what they draw, in their order.
-/
theorem steps_holds {setup : Setup} {uses : List PathUse} {records : List Entry} {s t : State}
    (hopen : s.inPath = true) (hkeeps : ∀ e ∈ records, closesPath e = false)
    (hheader : ∀ e ∈ records, e.kind? ≠ some .header)
    (h : s.steps setup uses records = (t, none)) :
    Holds s t (s.drawings setup uses records) := by
  induction records generalizing s with
  | nil =>
      obtain ⟨rfl, _⟩ := Prod.mk.inj h
      exact ⟨rfl, rfl, (Array.append_empty ..).symm⟩
  | cons e rest ih =>
      change s.steps setup uses ([e] ++ rest) = (t, none) at h
      obtain ⟨u, hfirst, hrest⟩ := steps_split h
      have hnext := steps_singleton.1 hfirst
      -- the bracket is still open after the first record
      have hone := next_holds hopen (hkeeps e List.mem_cons_self) (hheader e List.mem_cons_self)
        hnext
      have hmany := ih (hone.inPath.trans hopen)
        (fun other hmem => hkeeps other (List.mem_cons_of_mem e hmem))
        (fun other hmem => hheader other (List.mem_cons_of_mem e hmem)) hrest
      rw [drawings, show (s.next setup uses e).1 = u from congrArg Prod.fst hnext]
      exact hone.trans hmany

/-! ### Closing a path -/

/-- The paint with which a record closes a path: the end record of a bracket paints it as later
records say, and any other record leaves it unpainted. -/
def ClosedWith (uses : List PathUse) (e : Entry) (s : State) (paint : List Attribute) : Prop :=
  if e.kind? = some .endPath then
    ∃ use, uses[s.brackets - 1]? = some use ∧ paint = s.pathPaint use
  else paint = unpainted

/-- A record that closes an open path is played without a fault. It writes the path, then what was
held back, and then it may write more. Nothing is held back after it. -/
theorem closes {setup : Setup} {uses : List PathUse} {e : Entry} {s : State} {bracket : Bracket}
    (hbracket : s.bracket = some bracket) (hcloses : closesPath e = true)
    (hbegin : e.kind? = some .beginPath → ∃ use, uses[s.brackets]? = some use)
    (hopened : s.brackets ≠ 0) (hend : ∃ use, uses[s.brackets - 1]? = some use) :
    ∃ t paint more, s.next setup uses e = (t, none) ∧ ClosedWith uses e s paint ∧
      t.written = s.written.push (bracket.piece paint) ++ s.held ++ more ∧ t.held = #[] := by
  obtain ⟨log, hlog⟩ := announce_eq setup e s
  have habandon : ({ s with log } : State).abandon = { s with log }.close unpainted bracket :=
    abandon_of_open hbracket
  obtain ⟨hreadBegin, hreadEnd, hreadAbort, hreadLast⟩ :=
    Entry.command_of_kind setup.options.plus (e := e)
  rw [closesPath, List.contains_iff_mem] at hcloses
  simp only [List.mem_cons, List.not_mem_nil, or_false] at hcloses
  rw [next, step_eq, hlog]
  -- a record that begins another path, one that ends or aborts this one, and the end record
  rcases hcloses with hkind | hkind | hkind | hkind
  · obtain ⟨use, huse⟩ := hbegin hkind
    obtain ⟨more, hwritten, hheld⟩ := replay_written
      (s := { { s with log }.close unpainted bracket with brackets := s.brackets + 1 }) rfl
      use.before
    rw [hreadBegin hkind]
    dsimp only [perform]
    rw [beginPath_of_use (s := { s with log }) huse, habandon]
    exact ⟨_, unpainted, more, rfl, by rw [ClosedWith, hkind, if_neg (by decide)],
      hwritten, hheld⟩
  · obtain ⟨use, huse⟩ := hend
    obtain ⟨more, hwritten, hheld⟩ := replay_written
      (s := { s with log }.close (({ s with log } : State).pathPaint use) bracket) rfl use.after
    rw [hreadEnd hkind]
    dsimp only [perform]
    rw [endPath_of_use (s := { s with log }) hbracket hopened huse]
    exact ⟨_, s.pathPaint use, more, rfl,
      by rw [ClosedWith, if_pos hkind]; exact ⟨use, huse, rfl⟩, hwritten, hheld⟩
  · rw [hreadAbort hkind]
    dsimp only [perform, abortPath]
    rw [habandon]
    exact ⟨_, unpainted, #[], rfl, by rw [ClosedWith, hkind, if_neg (by decide)],
      (Array.append_empty ..).symm, rfl⟩
  · obtain ⟨player, log', heq⟩ := endDocument_eq setup.options { s with log }
    rw [hreadLast hkind]
    dsimp only [perform]
    rw [heq, habandon]
    exact ⟨_, unpainted, _, rfl, by rw [ClosedWith, hkind, if_neg (by decide)], rfl, rfl⟩

/-! ### The text of an open path -/

/-- The text of a document before the path data of an open bracket. -/
def textBefore (qualifier : String) (bracket : Bracket) (s : State) : String :=
  Document.text qualifier s.written ++
    ("<" ++ qualifier ++ "path" ++ " " ++ Markup.attributesText bracket.clip)

/-- The end of the path element, from the quote after the path data on. -/
def pathEnd (paint : List Attribute) : String := "\" " ++ Markup.attributesText paint ++ "/>\n"

/-- While a path is open, the text ends with the path data after its opening quote. -/
theorem text_of_open {qualifier : String} {s : State} {bracket : Bracket}
    (h : s.bracket = some bracket) :
    s.text qualifier = s.textBefore qualifier bracket ++ "d=\"" ++
      String.ofList (Outline.chars bracket.drawn.outline) := by
  unfold text textBefore
  rw [h]
  change Document.text qualifier s.written ++
    (((Sink.empty qualifier).tag "path" bracket.clip).text ++ _) = _
  rw [Sink.tag_eq]
  simp only [Sink.empty, String.empty_append, String.append_assoc]

/-- The path of a closed bracket is the text before the data, the data without the blanks at its
end, and the end of the element. -/
theorem text_push_piece (qualifier : String) (bracket : Bracket) (paint : List Attribute)
    (s : State) :
    Document.text qualifier (s.written.push (bracket.piece paint)) =
      s.textBefore qualifier bracket ++ "d=\"" ++
        String.ofList (Outline.trimBlanks (Outline.chars bracket.drawn.outline)) ++
        pathEnd paint := by
  rw [Document.text_push, Bracket.piece, Markup.Piece.text_shape, Markup.attributesText_append,
    Markup.attributesText_append, show ("d=\"" : String) = "d" ++ "=\"" from rfl]
  simp only [textBefore, pathEnd, Markup.attributesText, Markup.Attribute.inTag, Outline.data,
    String.append_assoc, String.append_empty]

/-! ### What is left after closing -/

/-- A group for the world transform holds nothing back. -/
theorem wrap_held (s : State) : s.wrap.held = s.held := by
  cases h : s.inPath with
  | true => rw [wrap_of_open h]
  | false => rw [wrap_of_closed h]

/-- A change of the world transform holds nothing back. -/
theorem transform_held (change : Record.TransformChange) (s : State) :
    (s.transform change).held = s.held := by
  unfold transform
  split
  · rfl
  · split
    · exact wrap_held _
    · rfl

/-- A return to a saved context holds nothing back. -/
theorem restore_held (relative : Int) (s : State) : (s.restore relative).1.held = s.held := by
  unfold restore
  split
  · split
    · exact wrap_held _
    · rfl
  · rfl
  · rfl

/-- A bracket that is given up leaves nothing held back. -/
theorem abandon_held {s : State} (h : s.inPath = false → s.held = #[]) :
    s.abandon.held = #[] := by
  cases hbracket : s.bracket with
  | none =>
      have hclosed : s.inPath = false := by rw [inPath, hbracket]; rfl
      rw [abandon_of_closed hclosed]
      exact h hclosed
  | some bracket => rw [abandon_of_open hbracket]; rfl

/-- If something is held back in open brackets only, then nothing is held back where a command
leaves no bracket open, and nothing where it has just opened one. -/
theorem perform_held {setup : Setup} {uses : List PathUse} {c : Command} {s t : State}
    (hempty : s.inPath = false → s.held = #[]) (h : s.perform setup uses c = (t, none))
    (hfresh : t.inPath = false ∨ c.soleKind? = some .beginPath) : t.held = #[] := by
  -- a path that stays open keeps what it holds, so only its beginning and its end count
  cases honly : onlyAdds c with
  | true =>
      obtain ⟨pieces, hadds, _⟩ := perform_adds setup uses s honly
      rw [h] at hadds
      have hclosed : t.inPath = false := by
        rcases hfresh with hclosed | hbegin
        · exact hclosed
        · cases c <;> first | exact (Bool.false_ne_true honly).elim | cases hbegin
      rw [hadds.inPath] at hclosed
      rw [hadds.held, hclosed]
      exact hempty hclosed
  | false =>
      cases c with
      | beginPath =>
          change s.beginPath uses = (t, none) at h
          unfold beginPath at h
          simp only at h
          split at h
          · cases h
          · rename_i use _
            obtain ⟨rfl, _⟩ := Prod.mk.inj h
            -- an open bracket is given up before the new one begins, and lets go of what it held
            have hgiven : ({ s.abandon with brackets := s.abandon.brackets + 1 } : State).inPath =
                false := congrArg Option.isSome (abandon_keeps s).1
            obtain ⟨_, _, hheld⟩ := replay_written hgiven use.before
            exact hheld.trans (abandon_held hempty)
      | endPath =>
          change s.endPath uses = (t, none) at h
          unfold endPath at h
          split at h
          · rename_i hbracket
            obtain ⟨rfl, _⟩ := Prod.mk.inj h
            exact hempty (by rw [inPath, hbracket]; rfl)
          · split at h
            · cases h
            · rename_i bracket _ _ use _
              obtain ⟨rfl, _⟩ := Prod.mk.inj h
              -- what was held is written behind the path before the deferred changes are replayed
              have hgiven : (s.close (s.pathPaint use) bracket).inPath = false := rfl
              obtain ⟨_, _, hheld⟩ := replay_written hgiven use.after
              exact hheld
      | endOfFile =>
          obtain ⟨rfl, _⟩ := Prod.mk.inj h
          obtain ⟨player, log, heq⟩ := endDocument_eq setup.options s
          rw [heq]
          exact abandon_held hempty
      | abortPath =>
          obtain ⟨rfl, _⟩ := Prod.mk.inj h
          exact abandon_held hempty
      | save =>
          obtain ⟨rfl, _⟩ := Prod.mk.inj h
          exact hempty (hfresh.resolve_right (by simp [Command.soleKind?]))
      | transform change =>
          obtain ⟨rfl, _⟩ := Prod.mk.inj h
          have hclosed := hfresh.resolve_right (by simp [Command.soleKind?])
          obtain ⟨world, wrapped, written, held, log, heq⟩ := transform_eq change s
          rw [heq] at hclosed
          exact (transform_held change s).trans (hempty hclosed)
      | restore relative =>
          obtain rfl : (s.restore relative).1 = t := congrArg Prod.fst h
          have hclosed := hfresh.resolve_right (by simp [Command.soleKind?])
          obtain ⟨context, saved, wrapped, failed, written, held, log, heq⟩ :=
            restore_eq relative s
          rw [heq] at hclosed
          exact (restore_held relative s).trans (hempty hclosed)
      | _ => cases honly

end State

/-! ### Boundaries inside of a bracket -/

/-- The bracket that is open at a boundary: the record `b` began it in the state `s`, and since
then the records `inside` were played, none of which closes it. -/
structure Opening (setup : Setup) (stream : Bytes) (survey : Survey) (opened : List Entry)
    (b : Entry) (inside later : List Entry) (s t : State) : Prop where
  begins : b.kind? = some .beginPath
  keeps : ∀ e ∈ inside, State.closesPath e = false
  reaches : Reaches setup stream survey (opened ++ [b]) (inside ++ later) s
  played : s.steps setup survey.paths inside = (t, none)

namespace Opening

variable {setup : Setup} {stream : Bytes} {survey : Survey} {opened inside later : List Entry}
  {b : Entry} {s t : State}

/-- The record that begins a bracket leaves it open. -/
theorem inPath (h : Opening setup stream survey opened b inside later s t) : s.inPath = true := by
  -- the record `b` was the last one to be played
  obtain ⟨r, _, hlast⟩ := h.reaches.cut
  obtain ⟨c, hc, hperform⟩ := State.next_eq_ok (State.steps_singleton.1 hlast)
  rw [(State.perform_bracket hperform).1, State.inPathAfter_eq hc, h.begins]

/-- What the records of an open bracket draw is held back. -/
theorem holds (h : Opening setup stream survey opened b inside later s t) :
    State.Holds s t (s.drawings setup survey.paths inside) := by
  refine State.steps_holds h.inPath h.keeps (fun e hmem hheader => ?_) h.played
  -- a header is the first record of the stream, and this one comes after `b`
  obtain ⟨before, after, rfl⟩ := List.append_of_mem hmem
  have hsplit : survey.entries = (opened ++ [b] ++ before) ++ e :: (after ++ later) := by
    rw [h.reaches.split]
    simp
  have hfirst := (Survey.header_first h.reaches.accepted hsplit).1 hheader
  simp at hfirst

end Opening

namespace Reaches

variable {setup : Setup} {stream : Bytes} {survey : Survey} {earlier later : List Entry}
  {t : State}

/-- Where no bracket is open, nothing is held back. -/
theorem held_empty (h : Reaches setup stream survey earlier later t) :
    t.inPath = false → t.held = #[] := by
  refine h.induction (motive := fun _ _ t => t.inPath = false → t.held = #[]) (fun _ => rfl) ?_
  intro earlier e later s t c _ ih _ hperform hclosed
  refine State.perform_held (fun hbefore => ?_) hperform (Or.inl hclosed)
  obtain ⟨log, hlog⟩ := State.announce_eq setup e s
  rw [hlog] at hbefore ⊢
  exact ih hbefore

/-- An open path was begun by a record, and since then it was not closed. -/
theorem opening (h : Reaches setup stream survey earlier later t) (hopen : t.inPath = true) :
    ∃ opened b inside s, earlier = opened ++ b :: inside ∧ s.held = #[] ∧
      Opening setup stream survey opened b inside later s t := by
  -- by induction on the records played, each of which begins the path or finds it open
  refine h.induction (motive := fun earlier later t => t.inPath = true →
    ∃ opened b inside s, earlier = opened ++ b :: inside ∧ s.held = #[] ∧
      Opening setup stream survey opened b inside later s t)
    (fun hnone => by cases hnone) ?_ hopen
  intro earlier e later s t c hs ih hc hperform hafter
  have hnext : s.next setup survey.paths e = (t, none) :=
    (State.next_of_command hc).trans hperform
  by_cases hbegin : e.kind? = some .beginPath
  · -- the record has just begun the path
    refine ⟨earlier, e, [], t, rfl, ?_, hbegin, fun _ hmem => (List.not_mem_nil hmem).elim,
      hs.concat hnext, rfl⟩
    refine State.perform_held (fun hbefore => ?_) hperform
      (Or.inr ((Entry.command_soleKind? hc rfl).2 hbegin))
    obtain ⟨log, hlog⟩ := State.announce_eq setup e s
    rw [hlog] at hbefore ⊢
    exact hs.held_empty hbefore
  · -- the path was open before the record
    have hstays := (State.perform_bracket hperform).1
    rw [hafter, (State.announce_adds setup e s).inPath, State.inPathAfter_eq hc] at hstays
    -- a record after which the path is open has not closed it
    have hkeeps : State.closesPath e = false ∧ s.inPath = true := by
      rw [State.closesPath_eq_false]
      split at hstays
      · contradiction
      · cases hstays
      · cases hstays
      · cases hstays
      · rename_i hend habort hlast
        exact ⟨⟨hbegin, hend, habort, hlast⟩, hstays.symm⟩
    obtain ⟨opened, b, inside, s₀, rfl, hheld, hopening⟩ := ih hkeeps.2
    refine ⟨opened, b, inside ++ [e], s₀, by simp, hheld, hopening.begins, ?_, ?_, ?_⟩
    · intro other hmem
      rcases List.mem_append.1 hmem with hmem | hmem
      · exact hopening.keeps other hmem
      · rw [List.mem_singleton.1 hmem]
        exact hkeeps.1
    · rw [List.append_assoc]
      exact hopening.reaches
    · rw [State.steps_append hopening.played]
      exact State.steps_singleton.2 hnext

/-- While a path is open, the text of the document ends with path data after its opening quote.
When the path is closed, by whatever record, the text goes on with the end of the path element,
and then with everything that the records since the beginning of the path have drawn, in their
order. After that nothing is held back. -/
theorem held_back (h : Reaches setup stream survey earlier later t) (hopen : t.inPath = true)
    (qualifier : String) :
    ∃ opened b inside s before data, earlier = opened ++ b :: inside ∧
      Opening setup stream survey opened b inside later s t ∧
      t.text qualifier = before ++ "d=\"" ++ String.ofList data ∧
      (∀ c ∈ data, isPathChar c = true) ∧
      ∀ e rest, later = e :: rest → State.closesPath e = true →
        ∃ u paint more, t.next setup survey.paths e = (u, none) ∧ u.held = #[] ∧
          State.ClosedWith survey.paths e t paint ∧
          u.text qualifier = before ++ "d=\"" ++ String.ofList (Outline.trimBlanks data) ++
            State.pathEnd paint ++
            Document.text qualifier (s.drawings setup survey.paths inside) ++ more := by
  obtain ⟨opened, b, inside, s, hsplit, hempty, hopening⟩ := h.opening hopen
  obtain ⟨bracket, hbracket⟩ := Option.isSome_iff_exists.1 hopen
  -- what is held back at the boundary is what the records inside have drawn
  have hheld : t.held = s.drawings setup survey.paths inside := by
    rw [hopening.holds.held, hempty, Array.empty_append]
  refine ⟨opened, b, inside, s, t.textBefore qualifier bracket,
    Outline.chars bracket.drawn.outline, hsplit, hopening, State.text_of_open hbracket,
    Outline.chars_isPathChar _, ?_⟩
  intro e rest hlater hcloses
  subst hlater
  obtain ⟨hopened, hend⟩ := h.use_of_end hopen
  obtain ⟨u, paint, more, hnext, hpaint, hwritten, hnothing⟩ : ∃ u paint more,
      t.next setup survey.paths e = (u, none) ∧ State.ClosedWith survey.paths e t paint ∧
      u.written = t.written.push (bracket.piece paint) ++ t.held ++ more ∧ u.held = #[] :=
    State.closes hbracket hcloses h.use_of_begin hopened hend
  refine ⟨u, paint,
    Document.text qualifier more ++ u.bracket.elim "" (State.unfinished qualifier), hnext,
    hnothing, hpaint, ?_⟩
  rw [State.text, hwritten, Document.text_append, Document.text_append,
    State.text_push_piece, hheld]
  simp only [String.append_assoc]

end Reaches

/-- The fields of a text of one character. -/
def letterFields (code : UInt8) : Bytes :=
  List.replicate 8 0 ++ [1, 0, 0, 0, 0, 3, 0, 0] ++ List.replicate 12 0 ++ [code, 0, 0, 0]

/-- A path with a line, and two texts of one character that are drawn before the path is ended. -/
def lettersInPathStream : Bytes :=
  Record.streamOf [(.header, List.replicate 80 0), (.beginPath, []),
    (.lineTo, List.replicate 8 0), (.smallTextOut, letterFields 65),
    (.smallTextOut, letterFields 66), (.endPath, []), (.endOfFile, List.replicate 12 0)]

/-- What is written before the data of the path: the shell of the document and the beginning of
the path element. -/
def lettersHead : String :=
  "<?xml version=\"1.0\"  encoding=\"UTF-8\" standalone=\"no\"?>\n" ++
    "<svg version=\"1.1\" xmlns=\"http://www.w3.org/2000/svg\" " ++
    "xmlns:xlink=\"http://www.w3.org/1999/xlink\" width=\"0\" height=\"0\">\n" ++
    "<g transform=\"translate(0, 0)\">\n<path "

/-- The text element of one character. -/
def letterElement (letter : String) : String :=
  "<text fill=\"#000000\" style=\"white-space:pre;\" text-anchor=\"start\" x=\"0\" y=\"0\">" ++
    "<![CDATA[" ++ letter ++ "]]></text>\n"

/-- Two texts inside of a path are held back. Ending the path ends its element, which is not
painted, and then writes the two texts in the order in which they were drawn. -/
theorem held_back_letters :
    ∃ earlier e later t u,
      Reaches .plain lettersInPathStream (.ofStream lettersInPathStream) earlier (e :: later) t ∧
      t.inPath = true ∧ t.text "" = lettersHead ++ "d=\"" ++ "L 0,0 " ∧
      t.next .plain (Survey.ofStream lettersInPathStream).paths e = (u, none) ∧ u.held = #[] ∧
      u.text "" = lettersHead ++ "d=\"" ++ "L 0,0" ++
        State.pathEnd [("fill", "none"), ("stroke", "none")] ++ letterElement "A" ++
        letterElement "B" := by
  have h : Reaches .plain lettersInPathStream _ _
      ((Survey.ofStream lettersInPathStream).entries.drop 5) _ :=
    .of_steps 5 (by decide +kernel) (by decide +kernel)
  have hopen : ((State.start (.ofStream lettersInPathStream)).steps .plain
      (Survey.ofStream lettersInPathStream).paths
      ((Survey.ofStream lettersInPathStream).entries.take 5)).1.inPath = true := by decide +kernel
  have hdrop : (Survey.ofStream lettersInPathStream).entries.drop 5 =
      ⟨192, 60, Kind.endPath.record []⟩ ::
        (Survey.ofStream lettersInPathStream).entries.drop 6 := by decide +kernel
  rw [hdrop] at h
  obtain ⟨_, _, _, _, _, _, _, _, _, _, hcloses⟩ := h.held_back hopen ""
  obtain ⟨u, _, _, hnext, hnothing, _, _⟩ := hcloses _ _ rfl (by decide)
  refine ⟨_, _, _, _, u, h, hopen, by decide +kernel, hnext, hnothing, ?_⟩
  obtain rfl : _ = u := congrArg Prod.fst hnext
  decide +kernel

end Metafile.Playback
