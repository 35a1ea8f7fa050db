import Metafile.Proofs.Bytes.Integers
import Metafile.Proofs.Plus.ObjectBytes

/-!
# `Metafile.Proofs.Plus.PathBytes`: the many ways to write one path

The points of a path have three forms, its types have two, and steps and runs leave a choice of
their own. `Path.Source` is one way to write a path down, and `Path.Source.reads_bytes` states
that all of them are read as the same path. What writes a path does not look at the reader: steps,
points and runs are relations between values and bytes.

The reader goes on until it has as many points and types as are declared. It cannot go on for
ever, for each run gives a type at least (`Path.spends_runTypes`), and an empty run is refused
(`Path.gives_emptyRun`).
-/

set_option autoImplicit false

namespace Metafile

namespace Cursor

open Decode (Reads)

/-- The bits of a small integer fit into a number of 32 bits, and the integer is read from them.
-/
theorem reads_f32_ofInt {n : Int} (h : n.natAbs < 2 ^ 24) :
    Reads f32 (Bytes.ofNat 4 (Single.ofInt n)) (Float.ofInt n) := by
  have hread := (reads_word (Single.ofInt_lt h)).map Single.toFloat
  rwa [Single.toFloat_ofInt h] at hread

end Cursor

namespace Plus

open Cursor (takes_many takes_word)
open Decode (Gives Reads Spends Yields bind_eq_ok reads_pure spends_pure yields_pure
  yields_bind yields_throw)

/-- What follows a number may give an answer. -/
theorem gives_word_bind {α : Type} {f : Nat → Decode α} {w : UInt32} {words : List UInt32}
    {data : Bytes} {answer : Except Fault α}
    (h : Gives (f w.toNat) (wordBytes words ++ data) answer) :
    Gives (Cursor.u32 >>= f) (wordBytes (w :: words) ++ data) answer := by
  rw [wordBytes, List.flatMap_cons, List.append_assoc]
  exact (Cursor.reads_u32 w).bind_gives h

/-! ### Steps -/

/-- The bytes of a step: one byte for a step of seven bits, or two for a step of fifteen bits, the
highest byte first and with its highest bit set. -/
inductive StepWritten (d : Int) : Bytes → Prop
  | short (hlow : -64 ≤ d) (hhigh : d ≤ 63) : StepWritten d [UInt8.ofNat (d % 128).toNat]
  | long (hlow : -16384 ≤ d) (hhigh : d ≤ 16383) :
      StepWritten d
        [UInt8.ofNat (128 + (d % 32768).toNat / 256), UInt8.ofNat ((d % 32768).toNat % 256)]

/-- A step is the same number whichever of its two forms it is written in. -/
theorem reads_step {d : Int} {data : Bytes} (h : StepWritten d data) : Reads step data d := by
  unfold step
  cases h with
  | short hlow hhigh =>
      -- the top bit of the byte is clear, which says that the step is short
      have hbyte : (UInt8.ofNat (d % 128).toNat).toNat = (d % 128).toNat := by
        rw [UInt8.toNat_ofNat']
        omega
      have hsigned : signed 7 (d % 128).toNat = d :=
        signed_emod 7 (by simp; omega) (by simp; omega)
      have hread := Cursor.reads_u8 (UInt8.ofNat (d % 128).toNat)
      rw [hbyte] at hread
      show Reads _ ([_] ++ []) d
      refine hread.bind ?_
      rw [if_pos (by omega), hsigned]
      exact reads_pure d
  | long hlow hhigh =>
      -- the top bit is set, and two bytes hold the step
      have hfirst : (UInt8.ofNat (128 + (d % 32768).toNat / 256)).toNat =
          128 + (d % 32768).toNat / 256 := by
        rw [UInt8.toNat_ofNat']
        omega
      have hsecond : (UInt8.ofNat ((d % 32768).toNat % 256)).toNat = (d % 32768).toNat % 256 := by
        rw [UInt8.toNat_ofNat']
        omega
      have hsum : (128 + (d % 32768).toNat / 256 - 0x80) * 256 + (d % 32768).toNat % 256 =
          (d % 32768).toNat := by omega
      have hsigned : signed 15 (d % 32768).toNat = d :=
        signed_emod 15 (by simp; omega) (by simp; omega)
      have hread := Cursor.reads_u8 (UInt8.ofNat (128 + (d % 32768).toNat / 256))
      have hread' := (Cursor.reads_u8 (UInt8.ofNat ((d % 32768).toNat % 256))).map fun second =>
        signed 15 ((128 + (d % 32768).toNat / 256 - 0x80) * 256 + second)
      rw [hfirst] at hread
      rw [hsecond, hsum, hsigned] at hread'
      refine hread.bind ?_
      rw [if_neg (by omega)]
      exact hread'

/-- The bytes of points as steps from a place. -/
inductive StepsWritten : Point Int → List (Point Int) → Bytes → Prop
  | nil (place : Point Int) : StepsWritten place [] []
  | cons {place p : Point Int} {ps : List (Point Int)} {dx dy data : Bytes}
      (hx : StepWritten (p.x - place.x) dx) (hy : StepWritten (p.y - place.y) dy)
      (h : StepsWritten p ps data) : StepsWritten place (p :: ps) (dx ++ (dy ++ data))

/-- A small coordinate is not clamped on the way to it, and it is not rounded. -/
theorem narrowFloat_step (place : Int) {n : Int} (h : -32768 ≤ n ∧ n ≤ 32767) :
    clampedSum place (n - place) = n ∧ narrowFloat n = Float.ofInt n := by
  refine ⟨?_, Single.toFloat_ofInt (by omega)⟩
  unfold clampedSum
  omega

/-- Points that are written as steps from a place are read back, each from the place of the one
before. -/
theorem reads_stepPoints {place : Point Int} {ps : List (Point Int)} {data : Bytes}
    (h : StepsWritten place ps data) (hfits : ∀ p ∈ ps, Cursor.FitsShort p) :
    Reads (stepPoints ps.length place.x place.y) data (ps.map Point.ofInt) := by
  induction h with
  | nil place => exact reads_pure []
  | @cons place p ps dx dy data hx hy _ ih =>
      obtain ⟨⟨hpx, hpy⟩, hrest⟩ := List.forall_mem_cons.1 hfits
      obtain ⟨hsumx, hx'⟩ := narrowFloat_step place.x hpx
      obtain ⟨hsumy, hy'⟩ := narrowFloat_step place.y hpy
      have htail := (ih hrest).map ((⟨narrowFloat p.x, narrowFloat p.y⟩ : Point Float) :: ·)
      rw [hx', hy'] at htail
      refine (reads_step hx).bind ((reads_step hy).bind ?_)
      simp only [hsumx, hsumy, hx', hy']
      exact htail

/-! ### Points -/

/-- The bytes of a point as two numbers of 32 bits. -/
def singleBytes (p : Point Int) : Bytes :=
  Bytes.ofNat 4 (Single.ofInt p.x) ++ Bytes.ofNat 4 (Single.ofInt p.y)

/-- The bytes of points in the form that two flags ask for. Steps come before the other two forms.
-/
inductive PointsWritten (ps : List (Point Int)) : (compressed relative : Bool) → Bytes → Prop
  | singles : PointsWritten ps false false (ps.flatMap singleBytes)
  | shorts : PointsWritten ps true false (ps.flatMap (Cursor.pointBytes true))
  | steps {compressed : Bool} {data : Bytes} (h : StepsWritten ⟨0, 0⟩ ps data) :
      PointsWritten ps compressed true data

/-- A point of two small integers is read back. -/
theorem reads_integerPoint {p : Point Int} (h : Cursor.FitsShort p) :
    Reads integerPoint (Cursor.pointBytes true p) p.ofInt :=
  (Cursor.reads_i16 h.x).bind
    ((Cursor.reads_i16 h.y).map fun y => (⟨Float.ofInt p.x, Float.ofInt y⟩ : Point Float))

/-- A point of two numbers of 32 bits is read back, for these hold small integers exactly. -/
theorem reads_floatPoint {p : Point Int} (h : Cursor.FitsShort p) :
    Reads floatPoint (singleBytes p) p.ofInt := by
  obtain ⟨hx, hy⟩ := h
  have hx' : p.x.natAbs < 2 ^ 24 := by omega
  have hy' : p.y.natAbs < 2 ^ 24 := by omega
  exact (Cursor.reads_f32_ofInt hx').bind
    ((Cursor.reads_f32_ofInt hy').map fun y => (⟨Float.ofInt p.x, y⟩ : Point Float))

/-- Points are the same in each of their forms. -/
theorem reads_points {ps : List (Point Int)} {compressed relative : Bool} {data : Bytes}
    (h : PointsWritten ps compressed relative data) (hfits : ∀ p ∈ ps, Cursor.FitsShort p) :
    Reads (points ps.length compressed relative) data (ps.map Point.ofInt) := by
  unfold points
  cases h with
  | singles =>
      have hlength : (ps.flatMap singleBytes).length = ps.length * 8 :=
        Bytes.length_flatMap (fun p => by simp [singleBytes, Bytes.length_ofNat]) ps
      exact Cursor.reads_require_bind
        (Cursor.reads_many_map fun p hp => reads_floatPoint (hfits p hp))
        (Nat.le_of_eq hlength.symm)
  | shorts =>
      have hlength : (ps.flatMap (Cursor.pointBytes true)).length = ps.length * 4 :=
        Bytes.length_flatMap (Cursor.length_pointBytes true) ps
      exact Cursor.reads_require_bind
        (Cursor.reads_many_map fun p hp => reads_integerPoint (hfits p hp))
        (Nat.le_of_eq hlength.symm)
  | steps h => exact reads_stepPoints h hfits

/-- As many points in steps are read as are asked for. -/
theorem yields_stepPoints (count : Nat) (x y : Int) :
    Yields (stepPoints count x y) fun ps => ps.length = count := by
  induction count generalizing x y with
  | zero => exact yields_pure rfl
  | succ count ih =>
      exact yields_bind fun dx => yields_bind fun dy => (ih _ _).map (f := (_ :: ·))
        fun _ h => congrArg (· + 1) h

/-- As many points are read as are asked for, in each of the three forms. -/
theorem yields_points (count : Nat) (compressed relative : Bool) :
    Yields (points count compressed relative) fun ps => ps.length = count := by
  unfold points
  split
  · exact yields_stepPoints count 0 0
  · split
    · exact yields_bind fun _ => Cursor.yields_many integerPoint count
    · exact yields_bind fun _ => Cursor.yields_many floatPoint count

/-- A step has two bytes at most. -/
theorem spends_step : Spends step 2 := by
  unfold step
  refine (takes_word 1).spends.bind (m := 1) fun first => ?_
  split
  · exact (spends_pure _).weaken (Nat.zero_le 1)
  · exact (takes_word 1).spends.map _

/-- A point in steps has four bytes at most. -/
theorem spends_stepPoints (count : Nat) (x y : Int) :
    Spends (stepPoints count x y) (count * 4) := by
  induction count generalizing x y with
  | zero => exact (Nat.zero_mul 4).symm ▸ spends_pure []
  | succ count ih =>
      have hpoint := spends_step.bind fun dx => spends_step.bind fun dy =>
        (ih (clampedSum x dx) (clampedSum y dy)).map
          (⟨narrowFloat (clampedSum x dx), narrowFloat (clampedSum y dy)⟩ :: ·)
      exact hpoint.weaken (by omega)

/-- No form of a point takes more than eight bytes. -/
theorem spends_points (count : Nat) (compressed relative : Bool) :
    Spends (points count compressed relative) (count * 8) := by
  unfold points
  split
  · exact (spends_stepPoints count 0 0).weaken (by omega)
  · split
    · exact (Cursor.takes_require_bind (takes_many takes_integerPoint count)).spends.weaken
        (by omega)
    · exact (Cursor.takes_require_bind (takes_many takes_floatPoint count)).spends

/-- Each point is a step of fifteen bits away from the one before it. -/
def Near : Point Int → List (Point Int) → Prop
  | _, [] => True
  | place, p :: ps => (-16384 ≤ p.x - place.x ∧ p.x - place.x ≤ 16383) ∧
      (-16384 ≤ p.y - place.y ∧ p.y - place.y ≤ 16383) ∧ Near p ps

/-- Whether all steps between given points have fifteen bits is found by going through them. -/
instance decidableNear (place : Point Int) (ps : List (Point Int)) : Decidable (Near place ps) :=
  match ps with
  | [] => isTrue trivial
  | p :: ps =>
    have := decidableNear p ps
    inferInstanceAs (Decidable (_ ∧ _ ∧ _))

/-- Points near each other can be written as steps, for example all in the long form. -/
theorem exists_stepsWritten {place : Point Int} {ps : List (Point Int)} (h : Near place ps) :
    ∃ data, StepsWritten place ps data := by
  induction ps generalizing place with
  | nil => exact ⟨[], .nil place⟩
  | cons p ps ih =>
      obtain ⟨hx, hy, hrest⟩ := h
      obtain ⟨data, hdata⟩ := ih hrest
      exact ⟨_, .cons (.long hx.1 hx.2) (.long hy.1 hy.2) hdata⟩

/-- Points near each other can be written in every form that the flags ask for. -/
theorem exists_pointsWritten {ps : List (Point Int)} (h : Near ⟨0, 0⟩ ps)
    (compressed relative : Bool) : ∃ data, PointsWritten ps compressed relative data := by
  cases relative with
  | true =>
      obtain ⟨data, hdata⟩ := exists_stepsWritten h
      exact ⟨data, .steps hdata⟩
  | false =>
      cases compressed with
      | true => exact ⟨_, .shorts⟩
      | false => exact ⟨_, .singles⟩

namespace Path

/-! ### Types -/

/-- A run of types: how many there are, two bits without a meaning, and the type. -/
structure Run where
  length : Nat
  spare : Nat
  type : UInt8
  pos : 0 < length
  length_lt : length < 64
  spare_lt : spare < 4

namespace Run

/-- The bytes of a run. -/
def bytes (r : Run) : Bytes := [UInt8.ofNat (r.spare * 64 + r.length), r.type]

/-- The types of a run. -/
def types (r : Run) : List UInt8 := List.replicate r.length r.type

/-- The lower six bits of the first byte of a run are its length, whatever the other two say. -/
theorem toNat_first_byte (r : Run) :
    (UInt8.ofNat (r.spare * 64 + r.length)).toNat % 64 = r.length := by
  have hlength := r.length_lt
  have hspare := r.spare_lt
  rw [UInt8.toNat_ofNat']
  omega

end Run

/-- The bytes of types in runs. The last run may be longer than the types that are left. -/
inductive RunsWritten : List UInt8 → Bytes → Prop
  | nil : RunsWritten [] []
  | cons (r : Run) {types : List UInt8} {data : Bytes} (h : RunsWritten types data) :
      RunsWritten (r.types ++ types) (r.bytes ++ data)
  | last (r : Run) {count : Nat} (hpos : 0 < count) (hcount : count ≤ r.length) :
      RunsWritten (List.replicate count r.type) r.bytes

/-- A run that begins is read as far as types are wanted, and then the rest. -/
theorem reads_run (r : Run) {count : Nat} (hcount : 0 < count) {data : Bytes} {types : List Nat}
    (h : Reads (runTypes (count - min r.length count)) data types) :
    Reads (runTypes count) (r.bytes ++ data)
      (List.replicate (min r.length count) r.type.toNat ++ types) := by
  have hfirst := r.toNat_first_byte
  have hpos := r.pos
  rw [runTypes, dif_neg (by omega)]
  refine (Cursor.reads_u8 _).bind ((Cursor.reads_u8 r.type).bind ?_)
  simp only [hfirst]
  rw [dif_neg (by omega)]
  exact h.map _

/-- Types that are written in runs are read back, however they are cut into runs. -/
theorem reads_runTypes {types : List UInt8} {data : Bytes} (h : RunsWritten types data) :
    Reads (runTypes types.length) data (types.map UInt8.toNat) := by
  induction h with
  | nil =>
      rw [runTypes]
      exact reads_pure []
  | @cons r types data _ ih =>
      have hpos := r.pos
      have hmin : min r.length (r.length + types.length) = r.length := by omega
      have hleft : r.length + types.length - r.length = types.length := by omega
      have hread : Reads (runTypes (r.length + types.length)) (r.bytes ++ data)
          (List.replicate (min r.length (r.length + types.length)) r.type.toNat ++
            types.map UInt8.toNat) :=
        reads_run r (by omega) (by rwa [hmin, hleft])
      rw [hmin] at hread
      simpa only [List.length_append, Run.types, List.length_replicate, List.map_append,
        List.map_replicate] using hread
  | @last r count hpos hcount =>
      have hmin : min r.length count = count := by omega
      -- the last run may be longer than what is left to be read
      have hread : Reads (runTypes count) (r.bytes ++ [])
          (List.replicate (min r.length count) r.type.toNat ++ []) :=
        reads_run r hpos (by
          rw [hmin, Nat.sub_self, runTypes]
          exact reads_pure [])
      rw [hmin] at hread
      simpa using hread

/-! ### Paths -/

/-- The bytes of types in the form that a flag asks for. -/
inductive TypesWritten (types : List UInt8) : (runs : Bool) → Bytes → Prop
  | plain : TypesWritten types false types
  | runs {data : Bytes} (h : RunsWritten types data) : TypesWritten types true data

/-- Types can be written in both forms, for example each in a run of its own. -/
theorem exists_typesWritten (types : List UInt8) (runs : Bool) :
    ∃ data, TypesWritten types runs data := by
  cases runs with
  | false => exact ⟨types, .plain⟩
  | true =>
      have hruns : ∃ data, RunsWritten types data := by
        induction types with
        | nil => exact ⟨[], .nil⟩
        | cons type types ih =>
            obtain ⟨data, hdata⟩ := ih
            exact ⟨_, .cons ⟨1, 0, type, by decide, by decide, by decide⟩ hdata⟩
      obtain ⟨data, hdata⟩ := hruns
      exact ⟨data, .runs hdata⟩

/-- A way to write a path with points in whole units: the flags choose the forms, and the forms of
steps and runs leave a choice of bytes. -/
structure Source (ps : List (Point Int)) (types : List UInt8) where
  version : UInt32
  flags : UInt32
  pointData : Bytes
  typeData : Bytes
  pointsWritten : PointsWritten ps (flags.toNat.testBit 14) (flags.toNat.testBit 11) pointData
  typesWritten : TypesWritten types (flags.toNat.testBit 12) typeData

/-- The path of points in whole units. -/
def ofIntegers (ps : List (Point Int)) (types : List UInt8) : Path :=
  ⟨ps.map Point.ofInt, types.map UInt8.toNat⟩

namespace Source

variable {ps : List (Point Int)} {types : List UInt8} (s : Source ps types)

/-- The bytes of a path. -/
def bytes : Bytes :=
  wordBytes [s.version, UInt32.ofNat ps.length, s.flags] ++ (s.pointData ++ s.typeData)

/-- Whichever way a path is written down, it is read as the path. -/
theorem reads_bytes (hfits : ∀ p ∈ ps, Cursor.FitsShort p) (htypes : types.length = ps.length)
    (hcount : ps.length < 4294967296) : Reads Path.decode s.bytes (ofIntegers ps types) := by
  have hlength : (UInt32.ofNat ps.length).toNat = ps.length := UInt32.toNat_ofNat_of_lt' hcount
  unfold decode
  refine reads_word_bind (reads_word_bind (reads_word_bind ?_))
  have hpoints := reads_points s.pointsWritten hfits
  have htypeData := s.typesWritten
  simp only [Nat.testBit_eq_decide_div_mod_eq] at hpoints htypeData
  rw [hlength]
  refine hpoints.bind ?_
  generalize s.typeData = data at htypeData
  -- the types are written in the form that the flags name
  split
  · rename_i hbit
    have hruns : decide (s.flags.toNat / 2 ^ 12 % 2 = 1) = true := decide_eq_true hbit
    rw [hruns] at htypeData
    cases htypeData with
    | runs h =>
        rw [← htypes]
        exact (reads_runTypes h).map _
  · rename_i hbit
    have hplain : decide (s.flags.toNat / 2 ^ 12 % 2 = 1) = false := decide_eq_false hbit
    rw [hplain] at htypeData
    cases htypeData with
    | plain =>
        rw [← htypes]
        exact (Cursor.reads_bytes types).map _

end Source

/-! ### What is read from any bytes -/

/-- The number of points that the bytes of a path declare. -/
def declaredCount (content : Bytes) : Nat := Bytes.toNat ((content.drop 4).take 4)

/-- As many types are read from runs as are asked for, also if the last run is longer. -/
theorem yields_runTypes (count : Nat) :
    Yields (runTypes count) fun types => types.length = count := by
  induction count using Nat.strongRecOn with
  | ind count ih =>
      rw [runTypes]
      split
      · rename_i hzero
        exact yields_pure hzero.symm
      · refine yields_bind fun first => yields_bind fun type => ?_
        split
        · exact yields_throw _
        · refine (ih _ (by omega)).map fun rest hrest => ?_
          rw [List.length_append, List.length_replicate, hrest]
          omega

/-- A run gives at least one type for its two bytes. -/
theorem spends_runTypes (count : Nat) : Spends (runTypes count) (count * 2) := by
  induction count using Nat.strongRecOn with
  | ind count ih =>
      rw [runTypes]
      split
      · rename_i hzero
        rw [hzero]
        exact Decode.spends_pure []
      · -- a run leaves fewer types to be read, and it takes two bytes
        have hrun (first type : Nat) : Spends (if _hr : first % 64 = 0 then
            throw (.outOfBounds .emptyRun)
          else do
            let rest ← runTypes (count - min (first % 64) count)
            return List.replicate (min (first % 64) count) type ++ rest) ((count - 1) * 2) := by
          split
          · exact Decode.spends_throw _
          · exact ((ih _ (by omega)).map _).weaken (by omega)
        have hspent := (takes_word 1).spends.bind fun first =>
          (takes_word 1).spends.bind fun type => hrun first type
        exact hspent.weaken (by omega)

/-- A path that is read has as many points and as many types as were declared, and it is read from
a number of bytes that is bounded by the declared count. -/
theorem decode_eq_ok {content : Bytes} {path : Path} {c : Cursor}
    (h : Path.decode (Cursor.start content) = .ok (path, c)) :
    path.points.length = declaredCount content ∧ path.types.length = declaredCount content ∧
      content.length ≤ c.remaining + (12 + 10 * declaredCount content) := by
  obtain ⟨version, c₁, hversion, h⟩ := bind_eq_ok h
  obtain ⟨count, c₂, hcount, h⟩ := bind_eq_ok h
  obtain ⟨flags, c₃, hflags, h⟩ := bind_eq_ok h
  obtain ⟨ps, c₄, hpoints, h⟩ := bind_eq_ok h
  obtain ⟨_, hrest₁, hleft₁⟩ := Cursor.u32_eq_ok hversion
  obtain ⟨hdeclared, _, hleft₂⟩ := Cursor.u32_eq_ok hcount
  obtain ⟨_, _, hleft₃⟩ := Cursor.u32_eq_ok hflags
  have hstart : (Cursor.start content).remaining = content.length := Nat.sub_zero _
  have hcontent : count = declaredCount content := by
    rw [hdeclared, hrest₁]
    rfl
  have hlength : ps.length = count := yields_points _ _ _ _ _ _ hpoints
  have hspent := spends_points _ _ _ _ _ _ hpoints
  -- the types, in runs or plain
  have htypes : ∃ types, path = ⟨ps, types⟩ ∧ types.length = count ∧
      c₄.remaining ≤ c.remaining + count * 2 := by
    split at h
    · obtain ⟨types, c₅, hruns, h⟩ := bind_eq_ok h
      obtain ⟨rfl, rfl⟩ := Prod.mk.inj (Except.ok.inj h)
      exact ⟨types, rfl, yields_runTypes _ _ _ _ hruns, spends_runTypes _ _ _ _ hruns⟩
    · obtain ⟨types, c₅, hplain, h⟩ := bind_eq_ok h
      obtain ⟨rfl, rfl⟩ := Prod.mk.inj (Except.ok.inj h)
      have hplainSpent := (Cursor.takes_bytes _).spends _ _ _ hplain
      refine ⟨types.map UInt8.toNat, rfl, ?_, by omega⟩
      rw [List.length_map]
      exact Cursor.yields_bytes _ _ _ _ hplain
  obtain ⟨types, rfl, htypesLength, htypesSpent⟩ := htypes
  refine ⟨hlength.trans hcontent, htypesLength.trans hcontent, ?_⟩
  omega

/-! ### Empty runs -/

/-- An empty run is refused, whatever runs stand before it, as long as types are still wanted. -/
theorem gives_emptyRun {runs : List Run} {count : Nat}
    (hcount : (runs.flatMap Run.types).length < count) {first : UInt8}
    (hempty : first.toNat % 64 = 0) (type : UInt8) :
    Gives (runTypes count) (runs.flatMap Run.bytes ++ [first, type])
      (.error (.outOfBounds .emptyRun)) := by
  induction runs generalizing count with
  | nil =>
      have hzero : count ≠ 0 := Nat.ne_of_gt hcount
      rw [runTypes, dif_neg hzero]
      show Gives _ ([first] ++ ([type] ++ [])) _
      refine (Cursor.reads_u8 first).bind_gives ((Cursor.reads_u8 type).bind_gives ?_)
      simp only [hempty]
      exact Decode.gives_throw _
  | cons r runs ih =>
      have hfirst := r.toNat_first_byte
      have hpos := r.pos
      rw [List.flatMap_cons, List.length_append, Run.types, List.length_replicate] at hcount
      -- the run before leaves some types to be read, so the induction goes on behind it
      have hleft : Gives (runTypes (count - min r.length count))
          (runs.flatMap Run.bytes ++ [first, type]) (.error (.outOfBounds .emptyRun)) :=
        ih (by omega)
      rw [List.flatMap_cons, List.append_assoc, runTypes, dif_neg (by omega)]
      show Gives _ ([_] ++ ([r.type] ++ _)) _
      refine (Cursor.reads_u8 _).bind_gives ((Cursor.reads_u8 r.type).bind_gives ?_)
      simp only [hfirst]
      rw [dif_neg (by omega)]
      exact hleft.error_bind _

/-- A path with an empty run is refused, whatever form its points have. -/
theorem gives_decode_emptyRun {version count flags : UInt32} (hruns : flags.toNat.testBit 12)
    {pointData : Bytes} {ps : List (Point Float)}
    (hpoints : Reads (Plus.points count.toNat (flags.toNat.testBit 14) (flags.toNat.testBit 11))
      pointData ps)
    {runs : List Run} (hcount : (runs.flatMap Run.types).length < count.toNat)
    {first : UInt8} (hempty : first.toNat % 64 = 0) (type : UInt8) :
    Gives Path.decode
      (wordBytes [version, count, flags] ++
        (pointData ++ (runs.flatMap Run.bytes ++ [first, type])))
      (.error (.outOfBounds .emptyRun)) := by
  unfold decode
  refine gives_word_bind (gives_word_bind (gives_word_bind ?_))
  simp only [Nat.testBit_eq_decide_div_mod_eq, decide_eq_true_eq] at hpoints hruns
  refine hpoints.bind_gives ?_
  rw [if_pos hruns]
  exact (gives_emptyRun hcount hempty type).error_bind _

/-! ### All of it -/

/-- Points in whole units that have 16 bits, and types for them, are one path, whatever form the
points have, whether each step takes one byte or two, and however the types are cut into runs.
There is a way to write them for all flags, what follows does not matter, and nothing can be
missing.

Any path that is read has the declared number of points and types. For it a number of bytes is
read that is bounded by the declared count, and all of them are needed. A path with too few bytes
for its count is refused, as is one with an empty run. -/
theorem decode_forms_agree :
    (∀ (ps : List (Point Int)) (types : List UInt8), (∀ p ∈ ps, Cursor.FitsShort p) →
      Near ⟨0, 0⟩ ps → types.length = ps.length → ps.length < 4294967296 →
        (∀ flags, ∃ s : Source ps types, s.flags = flags) ∧
        ∀ s : Source ps types,
          (∀ tail, Path.decode.first (s.bytes ++ tail) = .ok (ofIntegers ps types)) ∧
          ∀ n < s.bytes.length, ∃ cause, Path.decode.first (s.bytes.take n) = .error cause) ∧
    (∀ (content : Bytes) (path : Path), Path.decode.first content = .ok path →
      path.points.length = declaredCount content ∧ path.types.length = declaredCount content ∧
      ∃ taken rest, content = taken ++ rest ∧ taken.length ≤ 12 + 10 * declaredCount content ∧
        ∀ n < taken.length, ∃ cause, Path.decode.first (taken.take n) = .error cause) ∧
    (∀ (version count flags : UInt32) (rest : Bytes),
      rest.length < leastBytes count.toNat flags.toNat →
        ∃ cause, Path.decode.first (wordBytes [version, count, flags] ++ rest) = .error cause) ∧
    ∀ (version count flags : UInt32) (pointData : Bytes) (ps : List (Point Float))
      (runs : List Run) (first type : UInt8) (tail : Bytes), flags.toNat.testBit 12 →
      Reads (Plus.points count.toNat (flags.toNat.testBit 14) (flags.toNat.testBit 11))
        pointData ps →
      (runs.flatMap Run.types).length < count.toNat → first.toNat % 64 = 0 →
        Path.decode.first (wordBytes [version, count, flags] ++
          (pointData ++ (runs.flatMap Run.bytes ++ [first, type])) ++ tail) =
            .error (.outOfBounds .emptyRun) := by
  refine ⟨fun ps types hfits hnear htypes hcount => ⟨fun flags => ?_, fun s => ?_⟩,
    fun content path h => ?_, fun version count flags rest hshort => ?_,
    fun version count flags pointData ps runs first type tail hruns hpoints hcount hempty => ?_⟩
  · -- near points and types can be written in the form that any flags name
    obtain ⟨pointData, hpointData⟩ :=
      exists_pointsWritten hnear (flags.toNat.testBit 14) (flags.toNat.testBit 11)
    obtain ⟨typeData, htypeData⟩ := exists_typesWritten types (flags.toNat.testBit 12)
    exact ⟨⟨0, flags, pointData, typeData, hpointData, htypeData⟩, rfl⟩
  · have hread := s.reads_bytes hfits htypes hcount
    exact ⟨hread.first, fun n hn => (hread.failsOn_take contained_decode hn).first⟩
  · -- the counts come from the lengths of what was read, and what was read lies in front
    obtain ⟨c, hok⟩ := Decode.first_eq_ok h
    obtain ⟨hpoints, htypes, hbound⟩ := decode_eq_ok hok
    obtain ⟨_, taken, hrest, _, hfails⟩ := contained_decode.takes hok
    have hlength := congrArg List.length hrest
    rw [List.length_append, Cursor.length_rest, Cursor.length_rest] at hlength
    have hstart : (Cursor.start content).remaining = content.length := Nat.sub_zero _
    exact ⟨hpoints, htypes, taken, c.rest, hrest, by omega, fun n hn => (hfails n hn).first⟩
  · exact (failsOn_short version count flags hshort).first
  · exact (gives_decode_emptyRun hruns hpoints hcount hempty type).first tail

/-- The two points of a segment as four numbers of 32 bits and as five bytes of steps are the same
path, and with a run of no types they are none. -/
theorem decode_forms_agree_segment :
    let ps : List (Point Int) := [⟨10, -20⟩, ⟨300, -20⟩]
    let singles : Bytes :=
      [0, 0, 0x20, 0x41, 0, 0, 0xA0, 0xC1, 0, 0, 0x96, 0x43, 0, 0, 0xA0, 0xC1]
    let steps : Bytes := [10, 0x6C, 0x81, 0x22, 0]
    Path.decode.first (wordBytes [0xDBC01001, 2, 0] ++ (singles ++ [0, 1]) ++ []) =
        .ok (ofIntegers ps [0, 1]) ∧
      Path.decode.first
        (wordBytes [0xDBC01001, 2, 0x1800] ++ (steps ++ [0xC1, 0, 0x3F, 1]) ++ [7]) =
        .ok (ofIntegers ps [0, 1]) ∧
      Path.decode.first
        (wordBytes [0xDBC01001, 2, 0x1800] ++ (steps ++ [0x41, 0, 0x40, 1]) ++ []) =
        .error (.outOfBounds .emptyRun) := by
  intro ps singles steps
  have hsingles : ps.flatMap singleBytes = singles := by decide +kernel
  -- each point is given by its distance from the one before
  have hsteps : StepsWritten ⟨0, 0⟩ ps steps :=
    .cons (.short (by decide) (by decide)) (.short (by decide) (by decide))
      (.cons (.long (by decide) (by decide)) (.short (by decide) (by decide)) (.nil _))
  let r : Run := ⟨1, 3, 0, by decide, by decide, by decide⟩
  have hruns : RunsWritten [0, 1] [0xC1, 0, 0x3F, 1] :=
    .cons r (.last ⟨63, 0, 1, by decide, by decide, by decide⟩ (show 0 < 1 by decide) (by decide))
  obtain ⟨hforms, _, _, hempty⟩ := decode_forms_agree
  obtain ⟨_, hread⟩ := hforms ps [0, 1] (by decide) (by decide) rfl (by decide)
  refine ⟨?_, ?_, ?_⟩
  · exact (hread ⟨0xDBC01001, 0, singles, [0, 1], hsingles ▸ .singles, .plain⟩).1 []
  · exact (hread ⟨0xDBC01001, 0x1800, steps, [0xC1, 0, 0x3F, 1], .steps hsteps, .runs hruns⟩).1
      [7]
  · exact hempty 0xDBC01001 2 0x1800 steps (ps.map Point.ofInt)
      [⟨1, 1, 0, by decide, by decide, by decide⟩] 0x40 1 [] (by decide)
      (reads_points (.steps hsteps) (by decide)) (by decide) (by decide)

end Path

end Plus

end Metafile
