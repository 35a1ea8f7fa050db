import Mathlib.Algebra.Group.Nat.Defs
import Metafile.Bytes.Cursor

/-!
# `Metafile.Proofs.Bytes.Bits`: numbers that lie anywhere in a row of bits

Bytes are a row of bits, the highest bit of each byte first. `number? data offset count` reads so
many of them as a number, from any bit on. It is undefined where one of the bits does not exist,
so an equation `number? data offset count = some n` also says that the reading stays inside.

A number that lies within one byte is a quotient and a remainder of that byte (`number?_of_byte`).
That ties reading by bits to reading by bytes. A number depends on its own bits only
(`number?_congr`).
-/

set_option autoImplicit false

namespace Metafile.Bytes

/-- The bit at an offset, if it exists. -/
def bit? (data : Bytes) (offset : Nat) : Option Bool :=
  data[offset / 8]?.map fun byte => byte.toNat.testBit (7 - offset % 8)

/-- The number that so many bits from an offset on stand for, the first of them the highest. -/
def number? (data : Bytes) (offset : Nat) : Nat → Option Nat
  | 0 => some 0
  | count + 1 => do
    let high ← number? data offset count
    let low ← bit? data (offset + count)
    return 2 * high + low.toNat

variable {data data' : Bytes} {offset count : Nat}

/-- A number depends on its own bits only. -/
theorem number?_congr (h : ∀ i < count, bit? data' (offset + i) = bit? data (offset + i)) :
    number? data' offset count = number? data offset count := by
  induction count with
  | zero => rfl
  | succ count ih =>
      have hhigh := ih fun i hi => h i (by omega)
      rw [number?, number?, hhigh, h count (by omega)]

/-- Bytes in front move all bits. -/
theorem bit?_append (before data : Bytes) (offset : Nat) :
    bit? (before ++ data) (8 * before.length + offset) = bit? data offset := by
  have hplace : (8 * before.length + offset) / 8 = before.length + offset / 8 := by omega
  have hshift : (8 * before.length + offset) % 8 = offset % 8 := by omega
  rw [bit?, bit?, hplace, hshift, List.getElem?_append_right (by omega), Nat.add_sub_cancel_left]

/-- Bytes in front move a number by all their bits. -/
theorem number?_append (before data : Bytes) (offset count : Nat) :
    number? (before ++ data) (8 * before.length + offset) count = number? data offset count := by
  induction count with
  | zero => rfl
  | succ count ih => rw [number?, number?, ih, Nat.add_assoc, bit?_append]

/-- A number of so many bits is bounded by them. -/
theorem number?_lt {n : Nat} (h : number? data offset count = some n) : n < 2 ^ count := by
  induction count generalizing n with
  | zero =>
      obtain rfl : 0 = n := Option.some.inj h
      decide
  | succ count ih =>
      rw [number?] at h
      simp only [Option.bind_eq_bind, Option.bind_eq_some_iff, Option.pure_def,
        Option.some.injEq] at h
      obtain ⟨high, hhigh, low, _, rfl⟩ := h
      have hlt := ih hhigh
      have hbit := Bool.toNat_lt low
      rw [Nat.pow_succ]
      omega

/-- A number that lies within one byte. -/
theorem number?_of_byte {byte : UInt8} (hbyte : data[offset / 8]? = some byte)
    (h : offset % 8 + count ≤ 8) :
    number? data offset count =
      some (byte.toNat / 2 ^ (8 - (offset % 8 + count)) % 2 ^ count) := by
  induction count with
  | zero => rw [number?, Nat.pow_zero, Nat.mod_one]
  | succ count ih =>
      have hplace : (offset + count) / 8 = offset / 8 := by omega
      have hshift : 7 - (offset + count) % 8 = 8 - (offset % 8 + (count + 1)) := by omega
      have hhigh : 8 - (offset % 8 + count) = 8 - (offset % 8 + (count + 1)) + 1 := by omega
      have hlow : bit? data (offset + count) =
          some (byte.toNat.testBit (8 - (offset % 8 + (count + 1)))) := by
        rw [bit?, hplace, hbyte, hshift]
        rfl
      -- the bits so far are those of the byte above the new one, which is the last digit of the
      -- rest
      rw [number?, ih (by omega), hlow, hhigh, Nat.pow_succ, ← Nat.div_div_eq_div_mul]
      simp only [Option.bind_eq_bind, Option.bind_some, Option.pure_def, Option.some.injEq]
      rw [Nat.toNat_testBit, Nat.pow_succ', Nat.mod_mul, Nat.add_comm]

/-- The eight bits of a byte are that byte. -/
theorem number?_byte (data : Bytes) (i : Nat) :
    number? data (8 * i) 8 = data[i]?.map UInt8.toNat := by
  have hplace : 8 * i / 8 = i := by omega
  have hstart : 8 * i % 8 = 0 := by omega
  cases hbyte : data[i]? with
  | some byte =>
      have hlt := byte.toNat_lt
      rw [number?_of_byte (by rw [hplace, hbyte]) (by omega), hstart]
      show some (byte.toNat / 1 % 256) = some byte.toNat
      rw [Nat.div_one, Nat.mod_eq_of_lt hlt]
  | none =>
      -- the first bit is already missing
      have hfirst : number? data (8 * i) 1 = none := by
        rw [number?, number?, bit?, Nat.add_zero, hplace, hbyte]
        rfl
      simp only [number?, Option.bind_eq_bind] at hfirst ⊢
      rw [hfirst]
      rfl

end Metafile.Bytes
