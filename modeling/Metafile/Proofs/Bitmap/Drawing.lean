import Metafile.Proofs.Bitmap.RunBytes

/-!
# `Metafile.Proofs.Bitmap.Drawing`: run-length data draws what its commands say

What commands draw is said on a `Plane`: it has no borders, so a command paints a stretch of a row
and goes on behind it, and `Plane.picture` cuts the columns and rows of the bitmap out of the
result.

A canvas has borders, and checks them for every pixel. It `Shows` its part of the plane, and each
command keeps that up (`Shows.draw`). So the canvas of a run shows what its commands draw
(`drawFrom_of_writesAll`), and the right edge and the top do not matter until the end.

`EndsShort` says that behind some commands there is one that is cut short, and that the ones
before it do not end the bitmap or leave it. That is what comes to an error
(`drawFrom_of_continues`), and nothing else does (`endsShort_of_error`). `decode_drawing` puts all
of this together.
-/

set_option autoImplicit false

namespace Metafile.Bitmap.Runs

variable {form : Form} {c : Command} {data rest written : Bytes}

/-! ### Drawing on a plane -/

/-- The pixel of a run at a place. The halves of a byte alternate. -/
def Form.shade : Form → UInt8 → Nat → UInt8
  | .eight, value, _ => value
  | .four, value, i => if i % 2 = 0 then upper value else lower value

/-- A plane of pixels without borders, and the place of the next pixel. Row 0 is the bottom row.
-/
structure Plane where
  x : Nat
  y : Nat
  /-- The pixel in a column and a row. -/
  value : Nat → Nat → UInt8

namespace Plane

/-- A plane on which nothing is drawn. -/
def blank : Plane := ⟨0, 0, fun _ _ => 0⟩

/-- Draws so many pixels, from the place to the right. -/
def paint (p : Plane) (count : Nat) (pixel : Nat → UInt8) : Plane where
  x := p.x + count
  y := p.y
  value column row :=
    if row = p.y ∧ p.x ≤ column ∧ column < p.x + count then pixel (column - p.x)
    else p.value column row

/-- Does what a command says. -/
def draw (form : Form) (p : Plane) : Command → Plane
  | .run count value => p.paint count (form.shade value)
  | .absolute pixels => p.paint pixels.length fun i => pixels.getD i 0
  | .endOfLine => { p with x := 0, y := p.y + 1 }
  | .endOfBitmap => p
  | .delta dx dy => { p with x := p.x + dx, y := p.y + dy }

/-- Does what commands say, until the bitmap ends or the place is above so many rows. -/
def drawAll (form : Form) (height : Nat) : Plane → List Command → Plane
  | p, [] => p
  | p, c :: commands =>
    if height ≤ p.y ∨ c = .endOfBitmap then p else drawAll form height (p.draw form c) commands

/-- The pixels of so many columns and rows, row by row from the bottom. What is outside of them is
left out. -/
def picture (p : Plane) (width height : Nat) : Array UInt8 :=
  Array.ofFn fun i : Fin (width * height) => p.value (i % width) (i / width)

end Plane

/-! ### Canvases show planes -/

/-- A run has as many pixels as it counts. -/
theorem length_runPixels (form : Form) (count : Nat) (value : UInt8) :
    (form.runPixels count value).length = count := by
  cases form with
  | eight => exact List.length_replicate
  | four => rw [Form.runPixels, List.length_map, List.length_range]

/-- The pixels of a run alternate between the halves of its byte, or are all alike. -/
theorem getD_runPixels (form : Form) {count i : Nat} (value : UInt8) (h : i < count) :
    (form.runPixels count value).getD i 0 = form.shade value i := by
  cases form with
  | eight => simp [Form.runPixels, Form.shade, h]
  | four => simp [Form.runPixels, Form.shade, h]

/-- A canvas shows the part of a plane that lies within its columns and rows. -/
structure Shows (width height : Nat) (c : Canvas) (p : Plane) : Prop where
  columns : c.width = width
  rows : c.height = height
  x : c.x = p.x
  y : c.y = p.y
  size : c.cells.size = width * height
  value : ∀ column row, column < width → row < height →
    c.cells[row * width + column]? = some (p.value column row)

namespace Plane

variable {p : Plane} {count : Nat}

/-- No pixels change nothing. -/
theorem paint_zero (pixel : Nat → UInt8) : p.paint 0 pixel = p := by
  have hnone (column row : Nat) : ¬(row = p.y ∧ p.x ≤ column ∧ column < p.x) := by omega
  simp only [paint, Nat.add_zero, hnone, if_false]

/-- Only the pixels that are drawn count. -/
theorem paint_congr {f g : Nat → UInt8} (h : ∀ i < count, f i = g i) :
    p.paint count f = p.paint count g := by
  unfold paint
  congr
  funext column row
  split
  · exact h _ (by omega)
  · rfl

/-- Pixels are drawn one after the other. -/
theorem paint_cons (p : Plane) (v : UInt8) (rest : List UInt8) :
    (p.paint 1 fun _ => v).paint rest.length (rest.getD · 0) =
      p.paint (v :: rest).length ((v :: rest).getD · 0) := by
  have hx : p.x + 1 + rest.length = p.x + (rest.length + 1) := by omega
  simp only [paint, List.length_cons, hx, mk.injEq, true_and]
  funext column row
  by_cases hrow : row = p.y
  · -- a column is to the left of the first pixel, holds it or is to the right of it
    rcases Nat.lt_trichotomy column p.x with hleft | rfl | hright
    · rw [if_neg (by omega), if_neg (by omega), if_neg (by omega)]
    · rw [if_neg (by omega), if_pos (by omega), if_pos (by omega), Nat.sub_self]
      rfl
    · obtain ⟨k, rfl⟩ := Nat.exists_eq_add_of_lt hright
      have hk : p.x + k + 1 - (p.x + 1) = k := by omega
      have hk' : p.x + k + 1 - p.x = k + 1 := by omega
      by_cases hlast : k < rest.length
      · rw [if_pos (by omega), if_pos (by omega), hk, hk']
        rfl
      · rw [if_neg (by omega), if_neg (by omega), if_neg (by omega)]
  · rw [if_neg (by omega), if_neg (by omega), if_neg (by omega)]

end Plane

/-- A place on a canvas is one of its pixels. -/
theorem place_lt {width height column row : Nat} (hcolumn : column < width)
    (hrow : row < height) :
    row * width + column < width * height :=
  calc row * width + column < row * width + width := Nat.add_lt_add_left hcolumn _
    _ = (row + 1) * width := (Nat.succ_mul row width).symm
    _ ≤ height * width := Nat.mul_le_mul_right width hrow
    _ = width * height := Nat.mul_comm height width

/-- Places on a canvas of so many columns are different if their columns or rows are. -/
theorem place_inj {width x y column row : Nat} (hx : x < width) (hcolumn : column < width) :
    y * width + x = row * width + column ↔ row = y ∧ column = x := by
  refine ⟨fun h => ?_, by rintro ⟨rfl, rfl⟩; rfl⟩
  have hpos : 0 < width := Nat.zero_lt_of_lt hx
  have hrow := congrArg (· / width) h
  simp only [Nat.mul_comm _ width, Nat.mul_add_div hpos, Nat.div_eq_of_lt hx,
    Nat.div_eq_of_lt hcolumn, Nat.add_zero] at hrow
  subst hrow
  exact ⟨rfl, (Nat.add_left_cancel h).symm⟩

/-- A pixel takes the place of another one, or is dropped. -/
theorem size_put (c : Canvas) (v : UInt8) : (c.put v).cells.size = c.cells.size := by
  unfold Canvas.put
  dsimp only
  split
  · exact Array.size_setIfInBounds
  · rfl

namespace Shows

variable {width height : Nat} {c : Canvas} {p : Plane}

/-- A canvas on which nothing is drawn shows the plane on which nothing is drawn. -/
theorem blank (width height : Nat) :
    Shows width height (Canvas.blank width height) Plane.blank where
  columns := rfl
  rows := rfl
  x := rfl
  y := rfl
  size := Array.size_replicate
  value column row hcolumn hrow := by
    rw [Canvas.blank, Array.getElem?_replicate, if_pos (place_lt hcolumn hrow)]
    rfl

/-- A pixel is drawn where the plane has it, and dropped where the canvas ends. -/
theorem put (h : Shows width height c p) (v : UInt8) :
    Shows width height (c.put v) (p.paint 1 fun _ => v) where
  columns := h.columns
  rows := h.rows
  x := congrArg (· + 1) h.x
  y := h.y
  size := (size_put c v).trans h.size
  value column row hcolumn hrow := by
    have hold := h.value column row hcolumn hrow
    simp only [Canvas.put, Plane.paint, h.columns, h.rows, h.x, h.y, Bool.and_eq_true,
      decide_eq_true_eq]
    by_cases hinside : p.x < width ∧ p.y < height
    · rw [if_pos hinside, Array.getElem?_setIfInBounds]
      by_cases hplace : row = p.y ∧ column = p.x
      · obtain ⟨rfl, rfl⟩ := hplace
        rw [if_pos rfl, if_pos (h.size.symm ▸ place_lt hcolumn hrow), if_pos (by omega)]
      · rw [if_neg fun heq => hplace ((place_inj hinside.1 hcolumn).1 heq), if_neg (by omega)]
        exact hold
    · -- the plane changes in a column or a row that is not shown
      rw [if_neg hinside, if_neg (by omega)]
      exact hold

/-- Given pixels are drawn one by one on the canvas, and at once on the plane. -/
theorem putAll (h : Shows width height c p) (values : List UInt8) :
    Shows width height (c.putAll values) (p.paint values.length (values.getD · 0)) := by
  induction values generalizing c p with
  | nil => exact (Plane.paint_zero (p := p) _).symm ▸ h
  | cons v rest ih => exact Plane.paint_cons p v rest ▸ ih (h.put v)

/-- A canvas that shows a plane still does after a command on both. -/
theorem draw (h : Shows width height c p) (form : Form) (command : Command) :
    Shows width height (c.draw form command) (p.draw form command) := by
  cases command with
  | run count value =>
      have hrun := h.putAll (form.runPixels count value)
      rw [length_runPixels, Plane.paint_congr fun i hi => getD_runPixels form value hi] at hrun
      exact hrun
  | absolute pixels => exact h.putAll pixels
  | endOfLine => exact { h with x := rfl, y := congrArg (· + 1) h.y }
  | endOfBitmap => exact h
  | delta dx dy => exact { h with x := congrArg (· + dx) h.x, y := congrArg (· + dy) h.y }

/-- What is shown is the picture. -/
theorem cells_eq (h : Shows width height c p) : c.cells = p.picture width height := by
  refine Array.ext_getElem? fun i => ?_
  rw [Plane.picture, Array.getElem?_ofFn]
  split
  · rename_i hi
    have hpos : 0 < width := Nat.pos_of_mul_pos_right (Nat.zero_lt_of_lt hi)
    have hplace := h.value (i % width) (i / width) (Nat.mod_lt i hpos) (Nat.div_lt_of_lt_mul hi)
    rwa [Nat.div_add_mod'] at hplace
  · exact Array.getElem?_eq_none (h.size ▸ Nat.le_of_not_lt ‹_›)

end Shows

/-! ### Drawing what was written -/

section Run

variable {canvas canvas' : Canvas} {commands : List Command}

/-- A canvas whose rows are full takes no more commands. -/
theorem drawFrom_full (h : canvas.isFull = true) : drawFrom form data canvas = .ok canvas := by
  rw [drawFrom, if_pos h]

/-- Data without another command ends the drawing. -/
theorem drawFrom_exhausted (h : next form data = .exhausted) :
    drawFrom form data canvas = .ok canvas := by
  rw [drawFrom]
  split
  · rfl
  · split <;> rename_i heq <;> rw [h] at heq <;> cases heq

/-- A command that is reached and cut short is an error. -/
theorem drawFrom_truncated (hfull : canvas.isFull = false) (h : next form data = .truncated) :
    drawFrom form data canvas = .error .truncatedRuns := by
  rw [drawFrom, hfull]
  simp only [Bool.false_eq_true, if_false]
  split <;> rename_i heq <;> rw [h] at heq <;> cases heq

/-- A command that is reached is drawn and the drawing goes on, unless it ends the bitmap. -/
theorem drawFrom_command (hfull : canvas.isFull = false) (h : next form data = .command c rest) :
    drawFrom form data canvas =
      if c = .endOfBitmap then .ok canvas else drawFrom form rest (canvas.draw form c) := by
  rw [drawFrom, hfull]
  simp only [Bool.false_eq_true, if_false]
  split <;> rename_i heq <;> rw [h] at heq <;> cases heq
  · rw [if_pos rfl]
  · rename_i hne
    rw [if_neg hne]

/-- Data that was written is drawn as its commands say. -/
theorem drawFrom_of_writesAll {width height : Nat} {p : Plane} (h : WritesAll form commands data)
    (hshows : Shows width height canvas p) :
    ∃ canvas', drawFrom form data canvas = .ok canvas' ∧
      Shows width height canvas' (p.drawAll form height commands) := by
  -- the canvas is full exactly if the plane has reached the height, so both stop together
  induction h generalizing canvas p with
  | nil => exact ⟨canvas, drawFrom_exhausted rfl, hshows⟩
  | @cons c commands written data hwrites _ ih =>
      have hfull : canvas.isFull = decide (height ≤ p.y) := by
        rw [Canvas.isFull, hshows.rows, hshows.y]
      rw [Plane.drawAll]
      by_cases habove : height ≤ p.y
      · rw [if_pos (Or.inl habove)]
        exact ⟨canvas, drawFrom_full (hfull.trans (decide_eq_true habove)), hshows⟩
      · rw [drawFrom_command (hfull.trans (decide_eq_false habove)) (next_of_writes hwrites data)]
        by_cases hend : c = .endOfBitmap
        · rw [if_pos hend, if_pos (Or.inr hend)]
          exact ⟨canvas, rfl, hshows⟩
        · rw [if_neg hend, if_neg (not_or.2 ⟨habove, hend⟩)]
          exact ih (hshows.draw form c)

/-! ### Data that is cut short -/

/-- The number of rows that a command goes up. -/
def Command.rise : Command → Nat
  | .endOfLine => 1
  | .delta _ dy => dy
  | _ => 0

/-- The number of rows that commands go up. -/
def rises : List Command → Nat
  | [] => 0
  | c :: commands => c.rise + rises commands

/-- Commands do not end the bitmap, and from a row on they stay below so many rows. -/
structure Continues (height y : Nat) (commands : List Command) : Prop where
  endless : .endOfBitmap ∉ commands
  inside : y + rises commands < height

/-- Data has commands, and behind them one that is cut short and that is still reached. -/
def EndsShort (form : Form) (height y : Nat) (data : Bytes) : Prop :=
  ∃ commands written tail, WritesAll form commands written ∧ data = written ++ tail ∧
    CutShort form tail ∧ Continues height y commands

/-- Pixels never leave their row: what goes past the right edge is dropped. -/
theorem putAll_rows (canvas : Canvas) (values : List UInt8) :
    (canvas.putAll values).height = canvas.height ∧ (canvas.putAll values).y = canvas.y := by
  induction values generalizing canvas with
  | nil => exact ⟨rfl, rfl⟩
  | cons v rest ih => exact ih (canvas.put v)

/-- A command goes up by its rows, and the canvas keeps its height. -/
theorem draw_rows (form : Form) (canvas : Canvas) (c : Command) :
    (canvas.draw form c).height = canvas.height ∧ (canvas.draw form c).y = canvas.y + c.rise := by
  cases c with
  | run count value => exact putAll_rows canvas _
  | absolute pixels => exact putAll_rows canvas _
  | _ => exact ⟨rfl, rfl⟩

/-- Commands go on if the first of them does, and the others from the row that it leads to. -/
theorem continues_cons {height y : Nat} :
    Continues height y (c :: commands) ↔
      c ≠ .endOfBitmap ∧ Continues height (y + c.rise) commands := by
  constructor
  · rintro ⟨hendless, hinside⟩
    rw [rises, ← Nat.add_assoc] at hinside
    exact ⟨fun h => hendless (h ▸ List.mem_cons_self),
      fun h => hendless (List.mem_cons_of_mem c h), hinside⟩
  · rintro ⟨hne, hendless, hinside⟩
    refine ⟨fun h => (List.mem_cons.1 h).elim (fun heq => hne heq.symm) hendless, ?_⟩
    rwa [rises, ← Nat.add_assoc]

/-- Where commands go on, the canvas is not full yet. -/
theorem Continues.not_full (h : Continues canvas.height canvas.y commands) :
    canvas.isFull = false :=
  decide_eq_false (Nat.not_le_of_lt (Nat.lt_of_le_of_lt (Nat.le_add_right ..) h.inside))

/-- What is cut short is an error if it is reached. -/
theorem drawFrom_of_continues {tail : Bytes} (h : WritesAll form commands written)
    (htail : CutShort form tail) (hcontinues : Continues canvas.height canvas.y commands) :
    drawFrom form (written ++ tail) canvas = .error .truncatedRuns := by
  induction h generalizing canvas with
  | nil => exact drawFrom_truncated hcontinues.not_full (next_eq_truncated_iff.2 htail)
  | @cons c commands written data hwrites _ ih =>
      obtain ⟨hne, hrest⟩ := continues_cons.1 hcontinues
      obtain ⟨hheight, hy⟩ := draw_rows form canvas c
      rw [List.append_assoc, drawFrom_command hcontinues.not_full (next_of_writes hwrites _),
        if_neg hne]
      exact ih (hheight.symm ▸ hy.symm ▸ hrest)

/-- Nothing but what is cut short and reached is an error. -/
theorem endsShort_of_error {cause : Undecodable} (h : drawFrom form data canvas = .error cause) :
    cause = .truncatedRuns ∧ EndsShort form canvas.height canvas.y data := by
  fun_induction drawFrom form data canvas with
  | case1 data canvas hfull => cases h
  | case2 data canvas hfull hnext => cases h
  | case3 data canvas hfull hnext =>
      cases h
      have hbelow : canvas.y < canvas.height :=
        Nat.lt_of_not_le fun habove => hfull (decide_eq_true habove)
      exact ⟨rfl, [], [], data, .nil, rfl, next_eq_truncated_iff.1 hnext, nofun, hbelow⟩
  | case4 data canvas hfull rest hnext => cases h
  | case5 data canvas hfull c rest hne hnext ih =>
      obtain ⟨hcause, commands, written, tail, hwritten, rfl, htail, hcontinues⟩ := ih h
      -- what is cut short has bytes, so the byte after given pixels is there
      have hrest : written ++ tail ≠ [] := by
        cases htail <;> exact fun hnil => by simp at hnil
      obtain ⟨first, hfirst, rfl⟩ := writes_of_next hnext hrest
      obtain ⟨hheight, hy⟩ := draw_rows form canvas c
      rw [hheight, hy] at hcontinues
      exact ⟨hcause, c :: commands, first ++ written, tail, .cons hfirst hwritten,
        (List.append_assoc ..).symm, htail, continues_cons.2 ⟨hne, hcontinues⟩⟩

/-! ### Every pixel -/

/-- A canvas has so many pixels, with values of a form. -/
structure Sound (form : Form) (size : Nat) (canvas : Canvas) : Prop where
  size : canvas.cells.size = size
  allows : ∀ v ∈ canvas.cells, form.Allows v

namespace Sound

variable {size : Nat}

/-- A pixel of the form keeps all values in it. -/
theorem put (h : Sound form size canvas) {v : UInt8} (hv : form.Allows v) :
    Sound form size (canvas.put v) where
  size := (size_put canvas v).trans h.size
  allows w hw := by
    unfold Canvas.put at hw
    dsimp only at hw
    split at hw
    · rcases Array.mem_or_eq_of_mem_setIfInBounds hw with hw | rfl
      · exact h.allows w hw
      · exact hv
    · exact h.allows w hw

/-- Pixels of the form keep all values in it. -/
theorem putAll (h : Sound form size canvas) {values : List UInt8}
    (hvalues : ∀ v ∈ values, form.Allows v) : Sound form size (canvas.putAll values) := by
  induction values generalizing canvas with
  | nil => exact h
  | cons v rest ih =>
      exact ih (h.put (hvalues v List.mem_cons_self)) fun w hw =>
        hvalues w (List.mem_cons_of_mem v hw)

/-- A command whose pixels are values of the form keeps all values in it. -/
theorem draw (h : Sound form size canvas) (hpixels : ∀ v ∈ c.pixels form, form.Allows v) :
    Sound form size (canvas.draw form c) := by
  cases c with
  | run count value => exact h.putAll hpixels
  | absolute pixels => exact h.putAll hpixels
  | _ => exact ⟨h.size, h.allows⟩

/-- Whatever the data is, drawing it keeps the number of pixels, and no pixel gets another value.
-/
theorem drawFrom (h : Sound form size canvas) (hdraw : drawFrom form data canvas = .ok canvas') :
    Sound form size canvas' := by
  fun_induction Runs.drawFrom form data canvas with
  | case1 data canvas hfull => exact Except.ok.inj hdraw ▸ h
  | case2 data canvas hfull hnext => exact Except.ok.inj hdraw ▸ h
  | case3 data canvas hfull hnext => cases hdraw
  | case4 data canvas hfull rest hnext => exact Except.ok.inj hdraw ▸ h
  | case5 data canvas hfull c rest hne hnext ih => exact ih (h.draw (allows_of_next hnext)) hdraw

end Sound

end Run

/-! ### Decoding -/

/-- A canvas has from 1 to 4096 columns and rows. -/
def Sized (width height : Nat) : Prop :=
  (1 ≤ width ∧ width ≤ 4096) ∧ (1 ≤ height ∧ height ≤ 4096)

section Decode

variable {width height : Nat}

/-- The check that the decoder makes is the one for the size of a canvas. -/
theorem fits_iff (width height : Nat) : Header.fits width height = true ↔ Sized width height := by
  simp only [Header.fits, Bool.and_eq_true, bne_iff_ne, ne_eq, decide_eq_true_eq]
  unfold limit Sized
  omega

/-- On a canvas of some size, decoding is drawing on it from nothing. -/
theorem decode_of_sized (h : Sized width height) :
    decode form data width height =
      (drawFrom form data (Canvas.blank width height)).map Canvas.cells := by
  rw [decode, (fits_iff width height).2 h]
  cases drawFrom form data (Canvas.blank width height) <;> rfl

/-- Without such a canvas nothing is drawn, and the data is not looked at. -/
theorem decode_of_not_sized (h : ¬Sized width height) :
    decode form data width height = .error (.runDimensions width height) := by
  rw [decode, Bool.eq_false_iff.2 (mt (fits_iff width height).1 h)]
  rfl

/-- What is decoded are the pixels of a canvas. -/
theorem exists_canvas {cells : Array UInt8} (h : decode form data width height = .ok cells) :
    ∃ canvas, drawFrom form data (Canvas.blank width height) = .ok canvas ∧
      canvas.cells = cells := by
  by_cases hsized : Sized width height
  · rw [decode_of_sized hsized] at h
    cases hdraw : drawFrom form data (Canvas.blank width height) with
    | ok canvas =>
        rw [hdraw] at h
        exact ⟨canvas, rfl, Except.ok.inj h⟩
    | error cause =>
        rw [hdraw] at h
        cases h
  · rw [decode_of_not_sized hsized] at h
    cases h

/-- A canvas begins with zeros, which are values of either form. -/
theorem Sound.blank (form : Form) (width height : Nat) :
    Sound form (width * height) (Canvas.blank width height) where
  size := Array.size_replicate
  allows v hv := by
    rintro rfl
    rw [(Array.mem_replicate.1 hv).2]
    decide

/-- What is decoded has the right number of pixels, with values of the form. -/
theorem decode_sound {cells : Array UInt8} (h : decode form data width height = .ok cells) :
    cells.size = width * height ∧ ∀ v ∈ cells, form.Allows v := by
  obtain ⟨canvas, hdraw, rfl⟩ := exists_canvas h
  have hsound := (Sound.blank form width height).drawFrom hdraw
  exact ⟨hsound.size, hsound.allows⟩

/-- On a canvas of a right size the only error is that data is cut short where it is reached. -/
theorem decode_eq_error_iff (h : Sized width height) {cause : Undecodable} :
    decode form data width height = .error cause ↔
      cause = .truncatedRuns ∧ EndsShort form height 0 data := by
  rw [decode_of_sized h]
  constructor
  · intro herror
    cases hdraw : drawFrom form data (Canvas.blank width height) with
    | ok canvas =>
        rw [hdraw] at herror
        cases herror
    | error cause' =>
        rw [hdraw] at herror
        cases herror
        exact endsShort_of_error hdraw
  · rintro ⟨rfl, commands, written, tail, hwrites, rfl, htail, hcontinues⟩
    rw [drawFrom_of_continues hwrites htail hcontinues]
    rfl

end Decode

/-- Commands that were written are decoded into the picture that they draw. -/
theorem decode_of_writesAll {form : Form} {data : Bytes} {width height : Nat}
    (hsized : Sized width height) {commands : List Command}
    (hwrites : WritesAll form commands data) :
    decode form data width height =
      .ok ((Plane.blank.drawAll form height commands).picture width height) := by
  obtain ⟨canvas, hdraw, hshows⟩ := drawFrom_of_writesAll hwrites (.blank width height)
  rw [decode_of_sized hsized, hdraw, ← hshows.cells_eq]
  rfl

/-- Run-length data that was written as a list of commands is decoded into the picture that they
draw, and every list of commands in range can be written. Whatever the data is, what is decoded
has the right number of pixels, and in the form for 4 bits each of them is below 16. There is an
error exactly if the canvas has too few or too many columns or rows, or if a jump or given pixels
are reached and cut short by the end of the data. -/
theorem decode_drawing (form : Form) (data : Bytes) (width height : Nat) :
    (Sized width height → ∀ commands, WritesAll form commands data →
      decode form data width height =
        .ok ((Plane.blank.drawAll form height commands).picture width height)) ∧
    (∀ cells, decode form data width height = .ok cells →
      cells.size = width * height ∧ (form = .four → ∀ v ∈ cells, v < 16)) ∧
    (∀ cause, decode form data width height = .error cause ↔
      (¬Sized width height ∧ cause = .runDimensions width height) ∨
        (Sized width height ∧ cause = .truncatedRuns ∧ EndsShort form height 0 data)) ∧
    (Sized width height → ∀ commands, (∀ c ∈ commands, c.InRange form) →
      ∃ written, WritesAll form commands written ∧ decode form written width height =
        .ok ((Plane.blank.drawAll form height commands).picture width height)) := by
  refine ⟨fun hsized commands => decode_of_writesAll hsized, fun cells hcells => ?_,
    fun cause => ?_, fun hsized commands hrange => ?_⟩
  · obtain ⟨hsize, hallows⟩ := decode_sound hcells
    exact ⟨hsize, fun hfour v hv => hallows v hv hfour⟩
  · by_cases hsized : Sized width height
    · rw [decode_eq_error_iff hsized]
      simp only [hsized, not_true_eq_false, false_and, false_or, true_and]
    · rw [decode_of_not_sized hsized]
      simp only [hsized, not_false_eq_true, true_and, false_and, or_false, Except.error.injEq,
        eq_comm]
  · obtain ⟨written, hwrites⟩ := exists_writesAll hrange
    exact ⟨written, hwrites, decode_of_writesAll hsized hwrites⟩

/-- A run that goes past the right edge, and given pixels in the line above it. Given pixels that
are not all there are an error. -/
theorem decode_drawing_clipped :
    let commands : List Command :=
      [.run 5 0x12, .endOfLine, .absolute [1, 2, 3], .endOfBitmap, .run 9 0x77]
    let data : Bytes := [5, 0x12, 0, 0, 0, 3, 0x12, 0x3F, 0, 1, 9, 0x77]
    WritesAll .four commands data ∧ Sized 3 2 ∧
      decode .four data 3 2 = .ok ((Plane.blank.drawAll .four 2 commands).picture 3 2) ∧
      (Plane.blank.drawAll .four 2 commands).picture 3 2 = #[1, 2, 1, 1, 2, 3] ∧
      CutShort .eight [0, 5, 1, 2] ∧
      decode .eight [2, 9, 0, 5, 1, 2] 8 1 = .error .truncatedRuns := by
  intro commands data
  have hwrites : WritesAll .four commands data :=
    .cons (.run 0x12 (by decide) (by decide)) <| .cons .endOfLine <|
      .cons (@Writes.absolute .four [1, 2, 3] [0x12, 0x3F] [] (by decide) (by decide)
        ⟨rfl, rfl, rfl⟩ rfl) <| .cons .endOfBitmap <|
      .cons (.run 0x77 (by decide) (by decide)) .nil
  have hcut : CutShort .eight [0, 5, 1, 2] := .absolute (by decide) (by decide)
  have hsized : Sized 3 2 := by unfold Sized; decide
  have hsized' : Sized 8 1 := by unfold Sized; decide
  refine ⟨hwrites, hsized, (decode_drawing .four data 3 2).1 hsized commands hwrites,
    by decide +kernel, hcut, ?_⟩
  have hrun : Writes .eight (.run 2 9) [2, 9] := .run 9 (by decide) (by decide)
  exact ((decode_drawing .eight [2, 9, 0, 5, 1, 2] 8 1).2.2.1 .truncatedRuns).2 <| .inr
    ⟨hsized', rfl, [.run 2 9], [2, 9], [0, 5, 1, 2], .cons hrun .nil, rfl, hcut,
      by decide, by decide⟩

end Metafile.Bitmap.Runs
