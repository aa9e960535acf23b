import MrubyMqtt.Lib.Bytes

/-!
# UTF-8 validation

The validation that guards `MQTTAsync_create`, `MQTTAsync_send` and `MQTTAsync_subscribe`. A
character is accepted when it matches a row of `validRanges`; the loop walks character by
character and always passes the length of the **whole** string to the character check, so a
sequence cut short at the end of the string is refused by the terminating NUL, not by the length.
-/

open Bytes

/-- The table of valid ranges, one row for each form of a character. -/
def validRanges : List (List (UInt8 × UInt8)) :=
  [[(0x00, 0x7F)],
   [(0xC2, 0xDF), (0x80, 0xBF)],
   [(0xE0, 0xE0), (0xA0, 0xBF), (0x80, 0xBF)],
   [(0xE1, 0xEC), (0x80, 0xBF), (0x80, 0xBF)],
   [(0xED, 0xED), (0x80, 0x9F), (0x80, 0xBF)],
   [(0xEE, 0xEF), (0x80, 0xBF), (0x80, 0xBF)],
   [(0xF0, 0xF0), (0x90, 0xBF), (0x80, 0xBF), (0x80, 0xBF)],
   [(0xF1, 0xF3), (0x80, 0xBF), (0x80, 0xBF), (0x80, 0xBF)],
   [(0xF4, 0xF4), (0x80, 0x8F), (0x80, 0xBF), (0x80, 0xBF)]]

/-- How many bytes the first byte announces. A continuation byte announces two, and is then
refused by the table. -/
def charLen (b : UInt8) : ℕ :=
  if b &&& 128 = 0 then 1 else if b &&& 0xF0 = 0xF0 then 4 else if b &&& 0xE0 = 0xE0 then 3 else 2

/-- `UTF8_char_validate`: what follows the first character of `data`, if that character is valid.
`data` runs up to and including the terminator, so it is never empty where the code looks at it. -/
def utf8CharValidate (len : ℤ) : Bytes → Option Bytes
  | [] => none
  | b :: bs =>
    let charlen := charLen b
    if (charlen : ℤ) > len then none
    else if validRanges.any fun range ↦ range.length == charlen &&
        (range.zip (b :: bs)).all fun p ↦ p.1.1 ≤ p.2 && p.2 ≤ p.1.2 then
      some ((b :: bs).drop charlen)
    else none

/-- The loop of `UTF8_validate` from a place in the string: `curdata` still to go, `size` the
length of the string with its terminator. Every turn takes at least one byte, so a fuel of
`curdata.length` is enough. -/
def utf8ValidateLoop (len : ℤ) (size : ℕ) : ℕ → Bytes → Bool
  | 0, _ => true
  | fuel + 1, curdata =>
    if (size - curdata.length : ℤ) < len then
      match utf8CharValidate len curdata with
      | none => false
      | some rest => utf8ValidateLoop len size fuel rest
    else true

/-- `UTF8_validate`: the first character is checked before the loop asks whether there is one. -/
def utf8Validate (len : ℤ) (data : Bytes) : Bool :=
  if len = 0 then true
  else
    match utf8CharValidate len data with
    | none => false
    | some rest => utf8ValidateLoop len data.length data.length rest

/-- `UTF8_validateString`: `strlen` is stored in an `int`. -/
def utf8ValidateString (string : Bytes) : Bool :=
  utf8Validate (toInt32 string.length) (string ++ [0])

theorem charLen_pos (b : UInt8) : 0 < charLen b := by
  rw [charLen]
  split_ifs <;> omega

/-- A valid character takes at least one byte off the front. -/
theorem length_of_utf8CharValidate {len : ℤ} {data rest : Bytes}
    (h : utf8CharValidate len data = some rest) : rest.length < data.length := by
  rcases data with - | ⟨b, bs⟩
  · cases h
  · have hpos : 0 < charLen b := charLen_pos b
    simp only [utf8CharValidate] at h
    split_ifs at h
    rw [← Option.some.inj h, List.length_drop, List.length_cons]
    omega

/-- **Fuel.** With as much fuel as there are bytes left, more fuel changes nothing: the loop has
come to its own end. -/
theorem utf8ValidateLoop_fuel (len : ℤ) (size : ℕ) {fuel : ℕ} (extra : ℕ) {curdata : Bytes}
    (hfuel : curdata.length < fuel) :
    utf8ValidateLoop len size (fuel + extra) curdata = utf8ValidateLoop len size fuel curdata := by
  induction fuel generalizing curdata with
  | zero => omega
  | succ fuel ih =>
    rw [Nat.add_right_comm, utf8ValidateLoop, utf8ValidateLoop]
    rcases hchar : utf8CharValidate len curdata with - | rest
    · rfl
    · have hlt : rest.length < curdata.length := length_of_utf8CharValidate hchar
      have hrest : utf8ValidateLoop len size (fuel + extra) rest =
          utf8ValidateLoop len size fuel rest := ih (by omega)
      simp only [hrest]

/-! ### ASCII -/

theorem charLen_ascii {b : UInt8} (hb : b.toNat < 128) : charLen b = 1 := by
  have hall : ∀ n : Fin 128, UInt8.ofNat n.val &&& 128 = 0 := by decide
  have hand : b &&& 128 = 0 := by
    simpa using hall ⟨b.toNat, hb⟩
  rw [charLen, if_pos hand]

/-- An ASCII character is taken off the front. -/
theorem utf8CharValidate_ascii {len : ℤ} (hlen : 1 ≤ len) {b : UInt8} (hb : b.toNat < 128)
    (bs : Bytes) : utf8CharValidate len (b :: bs) = some bs := by
  have hle : b ≤ 0x7F := UInt8.le_iff_toNat_le.2 (by simpa using Nat.le_of_lt_succ hb)
  have hrow : (validRanges.any fun range ↦ range.length == 1 &&
      (range.zip (b :: bs)).all fun p ↦ p.1.1 ≤ p.2 && p.2 ≤ p.1.2) = true := by
    rw [validRanges, List.any_cons]
    simp [hle]
  simp only [utf8CharValidate, charLen_ascii hb, Nat.cast_one, not_lt.2 hlen, hrow, if_true,
    if_false, List.drop_succ_cons, List.drop_zero]

/-- The loop accepts an ASCII rest. -/
theorem utf8ValidateLoop_ascii (size : ℕ) (fuel : ℕ) {rest : Bytes}
    (hrest : ∀ b ∈ rest, b.toNat < 128) (hsize : rest.length < size) :
    utf8ValidateLoop (size - 1) size fuel (rest ++ [0]) = true := by
  induction fuel generalizing rest with
  | zero => rfl
  | succ fuel ih =>
    rw [utf8ValidateLoop]
    rcases rest with - | ⟨b, bs⟩
    · rw [if_neg (by simp)]
    · have hb : b.toNat < 128 := hrest b List.mem_cons_self
      have hlen : (1 : ℤ) ≤ size - 1 := by
        simp only [List.length_cons] at hsize
        omega
      rw [if_pos (by simp), List.cons_append, utf8CharValidate_ascii hlen hb]
      refine ih (fun c hc ↦ hrest c (List.mem_cons_of_mem b hc)) ?_
      simp only [List.length_cons] at hsize
      omega

/-- **ASCII strings are valid.** -/
theorem utf8ValidateString_ascii {string : Bytes} (hascii : ∀ b ∈ string, b.toNat < 128)
    (hlen : string.length < 2 ^ 31) : utf8ValidateString string = true := by
  have hint : toInt32 string.length = string.length := toInt32_eq_self (by omega) (by omega)
  rw [utf8ValidateString, hint, utf8Validate]
  rcases string with - | ⟨b, bs⟩
  · rfl
  · have hb : b.toNat < 128 := hascii b List.mem_cons_self
    have hone : (1 : ℤ) ≤ (b :: bs).length := by simp
    have hsize : (((b :: bs).length : ℕ) : ℤ) = ((b :: bs ++ [0]).length : ℕ) - 1 := by simp
    rw [if_neg (by omega), List.cons_append, utf8CharValidate_ascii hone hb]
    simp only []
    rw [hsize]
    exact utf8ValidateLoop_ascii _ _ (fun c hc ↦ hascii c (List.mem_cons_of_mem b hc)) (by
      simp only [List.length_append, List.length_cons]
      omega)
