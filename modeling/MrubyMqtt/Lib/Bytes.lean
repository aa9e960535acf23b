import Mathlib.Data.List.Basic
import Mathlib.Data.List.TakeWhile
import Mathlib.Tactic.Ring

/-!
# Byte strings as C sees them

A buffer is a list of bytes. What a C string function makes of it is `cString`: the bytes before
the first NUL. A buffer is its own C string exactly when it is **NUL-free**, and writing a
terminator into a buffer cuts its C string at that place (`cString_set_zero`). The two integer
conversions that C performs silently are here as well: `toInt32` wraps a mathematical integer
into a signed 32-bit `int`, at any point of a sum with the same result, and `toChar` keeps its low
byte.
-/

/-- A string of bytes. -/
abbrev Bytes := List UInt8

namespace Bytes

/-- The bytes of an ASCII literal. -/
def ascii (literal : String) : Bytes := literal.toList.map fun c ↦ UInt8.ofNat c.toNat

/-! ### C strings -/

/-- The C string at the front of a buffer: everything before the first NUL. -/
def cString (bs : Bytes) : Bytes := bs.takeWhile (· ≠ 0)

/-- No byte is NUL. -/
def NulFree (bs : Bytes) : Prop := (0 : UInt8) ∉ bs

instance (bs : Bytes) : Decidable (NulFree bs) := inferInstanceAs (Decidable (_ ∉ _))

@[simp] theorem cString_nil : cString [] = [] := rfl

theorem cString_cons_of_ne {b : UInt8} (hb : b ≠ 0) (bs : Bytes) :
    cString (b :: bs) = b :: cString bs := by
  simp [cString, hb]

/-- A buffer is its own C string exactly when it holds no NUL. -/
theorem cString_eq_self_iff {bs : Bytes} : cString bs = bs ↔ NulFree bs := by
  rw [cString, List.takeWhile_eq_self_iff]
  constructor
  · intro h h0
    simpa using h 0 h0
  · intro h b hb
    simpa using fun h0 : b = 0 ↦ h (h0 ▸ hb)

theorem NulFree.cString_eq {bs : Bytes} (h : NulFree bs) : cString bs = bs :=
  cString_eq_self_iff.2 h

/-- A C string is as long as its buffer exactly when the buffer holds no NUL. -/
theorem length_cString_eq_iff {bs : Bytes} : (cString bs).length = bs.length ↔ NulFree bs := by
  rw [← cString_eq_self_iff]
  constructor
  · exact fun h ↦ (List.takeWhile_prefix _).eq_of_length h
  · exact fun h ↦ congrArg List.length h

/-- A C string ends at the terminator, whatever follows it. -/
theorem cString_append_zero (bs rest : Bytes) : cString (bs ++ 0 :: rest) = cString bs := by
  induction bs with
  | nil => rfl
  | cons b bs ih =>
    by_cases hb : b = 0
    · subst hb; rfl
    · rw [List.cons_append, cString_cons_of_ne hb, cString_cons_of_ne hb, ih]

/-- Writing a terminator at place `n` leaves the C string of the first `n` bytes. -/
theorem cString_set_zero {mem : Bytes} {n : ℕ} (h : n < mem.length) :
    cString (mem.set n 0) = cString (mem.take n) := by
  rw [List.set_eq_take_append_cons_drop, if_pos h]
  exact cString_append_zero _ _

/-! ### Conversions between integers -/

/-- A mathematical integer stored in a signed 32-bit `int`. -/
def toInt32 (x : ℤ) : ℤ := x.bmod (2 ^ 32)

/-- A mathematical integer stored in a `char`: its low byte. -/
def toChar (x : ℤ) : UInt8 := UInt8.ofNat (x % 256).toNat

theorem toInt32_eq_self {x : ℤ} (hlo : -2 ^ 31 ≤ x) (hhi : x < 2 ^ 31) : toInt32 x = x := by
  rw [toInt32, Int.bmod_def]
  omega

theorem toInt32_zero : toInt32 0 = 0 := toInt32_eq_self (by decide) (by decide)

/-- Converting twice is converting once. -/
@[simp] theorem toInt32_toInt32 (x : ℤ) : toInt32 (toInt32 x) = toInt32 x :=
  Int.bmod_bmod

/-- Wrapping around before an addition makes no difference after it. -/
@[simp] theorem toInt32_toInt32_add (x y : ℤ) : toInt32 (toInt32 x + y) = toInt32 (x + y) :=
  Int.bmod_add_bmod

@[simp] theorem toInt32_toInt32_sub (x y : ℤ) : toInt32 (toInt32 x - y) = toInt32 (x - y) := by
  rw [sub_eq_add_neg, toInt32_toInt32_add, ← sub_eq_add_neg]

theorem toChar_natCast_toNat (n : ℕ) : (toChar n).toNat = n % 256 := by
  rw [toChar, UInt8.toNat_ofNat']
  omega

end Bytes
