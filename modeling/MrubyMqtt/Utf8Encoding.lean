import MrubyMqtt.Utf8

/-!
# What the UTF-8 validation accepts

A string whose length fits an `int` is accepted exactly if it is the UTF-8 encoding of a sequence of
characters (`utf8ValidateString_iff`): the table has a row for every form of a scalar value, and
overlong forms, surrogates and values above `10FFFF` match none. A sequence that is cut short at the
end of the string is compared with the terminator, which no row has in second place or later.
-/

open Bytes

/-- The string is the encoding of a sequence of characters. -/
def IsUtf8 (string : Bytes) : Prop := ∃ cs : List Char, string = cs.flatMap String.utf8EncodeChar

/-- What `UTF8_char_validate` compares with the table. -/
def matchesRow (charlen : ℕ) (data : Bytes) : Bool :=
  validRanges.any fun range ↦ range.length == charlen &&
    (range.zip data).all fun p ↦ p.1.1 ≤ p.2 && p.2 ≤ p.1.2

theorem charLen_eq (b : UInt8) :
    charLen b = if b.toNat < 128 then 1 else if 240 ≤ b.toNat then 4 else
      if 224 ≤ b.toNat then 3 else 2 := by
  have hall : ∀ n : Fin 256, charLen (UInt8.ofNat n.val) = if n.val < 128 then 1 else
      if 240 ≤ n.val then 4 else if 224 ≤ n.val then 3 else 2 := by decide +kernel
  simpa using hall ⟨b.toNat, b.toNat_lt⟩

/-! ### The rows of the table -/

theorem matchesRow_one (b : UInt8) (rest : Bytes) :
    matchesRow 1 (b :: rest) = true ↔ b.toNat ≤ 0x7F := by
  simp [matchesRow, validRanges, UInt8.le_iff_toNat_le]

theorem matchesRow_two (b c : UInt8) (rest : Bytes) :
    matchesRow 2 (b :: c :: rest) = true ↔
      (0xC2 ≤ b.toNat ∧ b.toNat ≤ 0xDF) ∧ 0x80 ≤ c.toNat ∧ c.toNat ≤ 0xBF := by
  simp [matchesRow, validRanges, UInt8.le_iff_toNat_le]

theorem matchesRow_three (b c d : UInt8) (rest : Bytes) :
    matchesRow 3 (b :: c :: d :: rest) = true ↔
      (0xE0 ≤ b.toNat ∧ b.toNat ≤ 0xEF) ∧ (0x80 ≤ c.toNat ∧ c.toNat ≤ 0xBF) ∧
      (b.toNat = 0xE0 → 0xA0 ≤ c.toNat) ∧ (b.toNat = 0xED → c.toNat ≤ 0x9F) ∧
      0x80 ≤ d.toNat ∧ d.toNat ≤ 0xBF := by
  simp [matchesRow, validRanges, UInt8.le_iff_toNat_le]
  omega

theorem matchesRow_four (b c d e : UInt8) (rest : Bytes) :
    matchesRow 4 (b :: c :: d :: e :: rest) = true ↔
      (0xF0 ≤ b.toNat ∧ b.toNat ≤ 0xF4) ∧ (0x80 ≤ c.toNat ∧ c.toNat ≤ 0xBF) ∧
      (b.toNat = 0xF0 → 0x90 ≤ c.toNat) ∧ (b.toNat = 0xF4 → c.toNat ≤ 0x8F) ∧
      (0x80 ≤ d.toNat ∧ d.toNat ≤ 0xBF) ∧ 0x80 ≤ e.toNat ∧ e.toNat ≤ 0xBF := by
  simp [matchesRow, validRanges, UInt8.le_iff_toNat_le]
  omega

/-- No row has the terminator in second place or later. -/
theorem matchesRow_cut {charlen : ℕ} {data : Bytes} (hdata : data ≠ [])
    (hcut : data.length < charlen) : matchesRow charlen (data ++ [0]) = false := by
  have hrow : (validRanges.all fun range ↦ range.tail.all fun p ↦ 0 < p.1) = true := by decide
  rw [matchesRow, List.any_eq_false]
  intro range hrange hmatch
  obtain ⟨hlength, hall⟩ := Bool.and_eq_true_iff.1 hmatch
  have hlt : data.length < range.length := hcut.trans_eq (beq_iff_eq.1 hlength).symm
  -- The terminator meets the entry at its place, which is not the first.
  have hterminator : (range[data.length], (0 : UInt8)) ∈ range.zip (data ++ [0]) := by
    refine List.mem_iff_getElem.2 ⟨data.length, by simp [hlt], ?_⟩
    simp
  have hlower : range[data.length].1 ≤ 0 := by
    simpa using (Bool.and_eq_true_iff.1 (List.all_eq_true.1 hall _ hterminator)).1
  have htail : range[data.length] ∈ range.tail := by
    obtain ⟨n, hn⟩ := Nat.exists_eq_succ_of_ne_zero (by simpa using hdata : data.length ≠ 0)
    refine List.mem_iff_getElem.2 ⟨n, by simp; omega, ?_⟩
    simp [hn]
  have hpositive := List.all_eq_true.1 (List.all_eq_true.1 hrow range hrange) _ htail
  exact UInt8.not_le.2 (of_decide_eq_true hpositive) hlower

/-! ### Characters -/

/-- Every scalar value is that of a character. -/
theorem exists_char {v : ℕ} (hv : v.isValidChar) : ∃ x : Char, x.val.toNat = v :=
  ⟨Char.ofNatAux v hv, rfl⟩

theorem encode_one {b : UInt8} (hb : b.toNat ≤ 0x7F) :
    ∃ x : Char, String.utf8EncodeChar x = [b] := by
  obtain ⟨x, hx⟩ := exists_char (.inl (by omega) : b.toNat.isValidChar)
  refine ⟨x, ?_⟩
  simp [String.utf8EncodeChar, hx, hb]

theorem encode_two {b c : UInt8} (hb : 0xC2 ≤ b.toNat ∧ b.toNat ≤ 0xDF)
    (hc : 0x80 ≤ c.toNat ∧ c.toNat ≤ 0xBF) : ∃ x : Char, String.utf8EncodeChar x = [b, c] := by
  set v := (b.toNat - 192) * 64 + (c.toNat - 128) with hv
  obtain ⟨x, hx⟩ := exists_char (.inl (by omega) : v.isValidChar)
  have h₁ : v / 64 % 32 + 192 = b.toNat := by omega
  have h₂ : v % 64 + 128 = c.toNat := by omega
  refine ⟨x, ?_⟩
  simp only [String.utf8EncodeChar, hx]
  rw [if_neg (by omega), if_pos (by omega)]
  simp [h₁, h₂]

theorem encode_three {b c d : UInt8} (hb : 0xE0 ≤ b.toNat ∧ b.toNat ≤ 0xEF)
    (hc : 0x80 ≤ c.toNat ∧ c.toNat ≤ 0xBF) (hlow : b.toNat = 0xE0 → 0xA0 ≤ c.toNat)
    (hhigh : b.toNat = 0xED → c.toNat ≤ 0x9F) (hd : 0x80 ≤ d.toNat ∧ d.toNat ≤ 0xBF) :
    ∃ x : Char, String.utf8EncodeChar x = [b, c, d] := by
  set v := (b.toNat - 224) * 4096 + (c.toNat - 128) * 64 + (d.toNat - 128) with hv
  -- The row of `ED` leaves the surrogates out.
  obtain ⟨x, hx⟩ := exists_char (v := v) (by rw [Nat.isValidChar]; omega)
  have h₁ : v / 4096 % 16 + 224 = b.toNat := by omega
  have h₂ : v / 64 % 64 + 128 = c.toNat := by omega
  have h₃ : v % 64 + 128 = d.toNat := by omega
  refine ⟨x, ?_⟩
  simp only [String.utf8EncodeChar, hx]
  rw [if_neg (by omega), if_neg (by omega), if_pos (by omega)]
  simp [h₁, h₂, h₃]

theorem encode_four {b c d e : UInt8} (hb : 0xF0 ≤ b.toNat ∧ b.toNat ≤ 0xF4)
    (hc : 0x80 ≤ c.toNat ∧ c.toNat ≤ 0xBF) (hlow : b.toNat = 0xF0 → 0x90 ≤ c.toNat)
    (hhigh : b.toNat = 0xF4 → c.toNat ≤ 0x8F) (hd : 0x80 ≤ d.toNat ∧ d.toNat ≤ 0xBF)
    (he : 0x80 ≤ e.toNat ∧ e.toNat ≤ 0xBF) :
    ∃ x : Char, String.utf8EncodeChar x = [b, c, d, e] := by
  set v := (b.toNat - 240) * 262144 + (c.toNat - 128) * 4096 + (d.toNat - 128) * 64 +
    (e.toNat - 128) with hv
  obtain ⟨x, hx⟩ := exists_char (.inr (by omega) : v.isValidChar)
  have h₁ : v / 262144 % 8 + 240 = b.toNat := by omega
  have h₂ : v / 4096 % 64 + 128 = c.toNat := by omega
  have h₃ : v / 64 % 64 + 128 = d.toNat := by omega
  have h₄ : v % 64 + 128 = e.toNat := by omega
  refine ⟨x, ?_⟩
  simp only [String.utf8EncodeChar, hx]
  rw [if_neg (by omega), if_neg (by omega), if_neg (by omega)]
  simp [h₁, h₂, h₃, h₄]

/-- **A place of the string that matches a row** begins with the encoding of a character. -/
theorem char_of_matchesRow {b : UInt8} {bs : Bytes}
    (hmatch : matchesRow (charLen b) (b :: bs ++ [0]) = true) :
    ∃ (x : Char) (tail : Bytes), b :: bs = String.utf8EncodeChar x ++ tail ∧
      (String.utf8EncodeChar x).length = charLen b := by
  have hlong : charLen b ≤ (b :: bs).length := by
    by_contra hcut
    rw [matchesRow_cut (List.cons_ne_nil b bs) (not_le.1 hcut)] at hmatch
    cases hmatch
  have hlen := charLen_eq b
  split_ifs at hlen with hone hfour hthree <;> rw [hlen] at hlong hmatch ⊢
  · obtain ⟨x, hx⟩ := encode_one ((matchesRow_one ..).1 hmatch)
    exact ⟨x, bs, by rw [hx]; rfl, by rw [hx]; rfl⟩
  · obtain ⟨c, d, e, tail, rfl⟩ : ∃ c d e tail, bs = c :: d :: e :: tail := by
      match bs, hlong with
      | c :: d :: e :: tail, _ => exact ⟨c, d, e, tail, rfl⟩
    obtain ⟨hb, hc, hlow, hhigh, hd, he⟩ := (matchesRow_four ..).1 hmatch
    obtain ⟨x, hx⟩ := encode_four hb hc hlow hhigh hd he
    exact ⟨x, tail, by rw [hx]; rfl, by rw [hx]; rfl⟩
  · obtain ⟨c, d, tail, rfl⟩ : ∃ c d tail, bs = c :: d :: tail := by
      match bs, hlong with
      | c :: d :: tail, _ => exact ⟨c, d, tail, rfl⟩
    obtain ⟨hb, hc, hlow, hhigh, hd⟩ := (matchesRow_three ..).1 hmatch
    obtain ⟨x, hx⟩ := encode_three hb hc hlow hhigh hd
    exact ⟨x, tail, by rw [hx]; rfl, by rw [hx]; rfl⟩
  · obtain ⟨c, tail, rfl⟩ : ∃ c tail, bs = c :: tail := by
      match bs, hlong with
      | c :: tail, _ => exact ⟨c, tail, rfl⟩
    obtain ⟨hb, hc⟩ := (matchesRow_two ..).1 hmatch
    obtain ⟨x, hx⟩ := encode_two hb hc
    exact ⟨x, tail, by rw [hx]; rfl, by rw [hx]; rfl⟩

/-- **The encoding of every character** matches a row of its length. -/
theorem matchesRow_encode (x : Char) (rest : Bytes) :
    ∃ b bs, String.utf8EncodeChar x = b :: bs ∧
      charLen b = (String.utf8EncodeChar x).length ∧
      matchesRow (charLen b) (b :: bs ++ rest) = true := by
  have hvalid : x.val.toNat.isValidChar := x.valid
  rw [Nat.isValidChar] at hvalid
  generalize hv : x.val.toNat = v at hvalid
  have hbyte : ∀ n < 256, (UInt8.ofNat n).toNat = n := fun n hn ↦ by
    rw [UInt8.toNat_ofNat', Nat.mod_eq_of_lt hn]
  simp only [String.utf8EncodeChar, hv]
  split_ifs with hone htwo hthree
  · refine ⟨_, _, rfl, ?_⟩
    have hlen : charLen (UInt8.ofNat v) = 1 := by
      rw [charLen_eq, hbyte v (by omega), if_pos (by omega)]
    refine ⟨hlen, ?_⟩
    rw [hlen]
    exact (matchesRow_one ..).2 (by rw [hbyte v (by omega)]; exact hone)
  · refine ⟨_, _, rfl, ?_⟩
    have hb := hbyte (v / 64 % 32 + 192) (by omega)
    have hc := hbyte (v % 64 + 128) (by omega)
    have hlen : charLen (UInt8.ofNat (v / 64 % 32 + 192)) = 2 := by
      rw [charLen_eq, hb, if_neg (by omega), if_neg (by omega), if_neg (by omega)]
    refine ⟨hlen, ?_⟩
    rw [hlen]
    refine (matchesRow_two ..).2 ?_
    rw [hb, hc]
    omega
  · refine ⟨_, _, rfl, ?_⟩
    have hb := hbyte (v / 4096 % 16 + 224) (by omega)
    have hc := hbyte (v / 64 % 64 + 128) (by omega)
    have hd := hbyte (v % 64 + 128) (by omega)
    have hlen : charLen (UInt8.ofNat (v / 4096 % 16 + 224)) = 3 := by
      rw [charLen_eq, hb, if_neg (by omega), if_neg (by omega), if_pos (by omega)]
    refine ⟨hlen, ?_⟩
    rw [hlen]
    refine (matchesRow_three ..).2 ?_
    rw [hb, hc, hd]
    omega
  · refine ⟨_, _, rfl, ?_⟩
    have hb := hbyte (v / 262144 % 8 + 240) (by omega)
    have hc := hbyte (v / 4096 % 64 + 128) (by omega)
    have hd := hbyte (v / 64 % 64 + 128) (by omega)
    have he := hbyte (v % 64 + 128) (by omega)
    have hlen : charLen (UInt8.ofNat (v / 262144 % 8 + 240)) = 4 := by
      rw [charLen_eq, hb, if_neg (by omega), if_pos (by omega)]
    refine ⟨hlen, ?_⟩
    rw [hlen]
    refine (matchesRow_four ..).2 ?_
    rw [hb, hc, hd, he]
    omega

/-! ### The loop -/

/-- The character check, at a place of the string. -/
theorem utf8CharValidate_eq_some_iff {len : ℤ} {b : UInt8} {bs rest : Bytes} :
    utf8CharValidate len (b :: bs ++ [0]) = some rest ↔
      (charLen b : ℤ) ≤ len ∧ matchesRow (charLen b) (b :: bs ++ [0]) = true ∧
        rest = (b :: bs ++ [0]).drop (charLen b) := by
  rw [List.cons_append, utf8CharValidate]
  change (if (charLen b : ℤ) > len then none
    else if matchesRow (charLen b) (b :: (bs ++ [0])) = true then _ else none) = _ ↔ _
  split_ifs with hlen hmatch
  · simp [not_le.2 hlen]
  · simp [not_lt.1 hlen, hmatch, eq_comm]
  · simp [hmatch]

/-- **The loop accepts exactly what is left to encode.** The induction is on the fuel; each turn
takes one character off. -/
theorem utf8ValidateLoop_iff {size fuel : ℕ} {string : Bytes} (hfuel : string.length < fuel)
    (hsize : string.length < size) :
    utf8ValidateLoop (size - 1) size fuel (string ++ [0]) = true ↔ IsUtf8 string := by
  induction fuel generalizing string with
  | zero => omega
  | succ fuel ih =>
    rw [utf8ValidateLoop]
    rcases string with - | ⟨b, bs⟩
    · rw [if_neg (by simp)]
      exact iff_of_true rfl ⟨[], rfl⟩
    · rw [if_pos (by simp)]
      constructor
      · intro hloop
        split at hloop
        · cases hloop
        · rename_i rest hchar
          obtain ⟨-, hmatch, rfl⟩ := utf8CharValidate_eq_some_iff.1 hchar
          obtain ⟨x, tail, hx, hlength⟩ := char_of_matchesRow hmatch
          have hlt : tail.length < (b :: bs).length := by
            rw [hx, List.length_append, hlength]
            have := charLen_pos b
            omega
          rw [hx, ← hlength, List.append_assoc, List.drop_left] at hloop
          obtain ⟨cs, rfl⟩ := (ih (by omega) (by omega)).1 hloop
          exact ⟨x :: cs, by rw [hx, List.flatMap_cons]⟩
      · rintro ⟨cs, hcs⟩
        rcases cs with - | ⟨x, cs⟩
        · cases hcs
        obtain ⟨b', bs', hencode, hlength, hmatch⟩ :=
          matchesRow_encode x (cs.flatMap String.utf8EncodeChar ++ [0])
        rw [List.flatMap_cons] at hcs
        have hsplit : b' :: bs' ++ (cs.flatMap String.utf8EncodeChar ++ [0]) = b :: bs ++ [0] := by
          rw [hcs, hencode, List.append_assoc]
        obtain rfl : b' = b := (List.cons.inj hsplit).1
        have hlen : (b' :: bs).length = charLen b' + (cs.flatMap String.utf8EncodeChar).length := by
          rw [hcs, List.length_append, hlength]
        have hpos : 0 < charLen b' := charLen_pos b'
        rw [hsplit] at hmatch
        have hchar : utf8CharValidate (size - 1) (b' :: bs ++ [0]) =
            some (cs.flatMap String.utf8EncodeChar ++ [0]) := by
          refine utf8CharValidate_eq_some_iff.2 ⟨by omega, hmatch, ?_⟩
          rw [hcs, hlength, List.append_assoc, List.drop_left]
        rw [hchar]
        exact (ih (by omega) (by omega)).2 ⟨cs, rfl⟩

/-- **`UTF8_validateString` accepts exactly the encodings**, if the length fits an `int`. -/
theorem utf8ValidateString_iff {string : Bytes} (hlen : string.length < 2 ^ 31) :
    utf8ValidateString string = true ↔ IsUtf8 string := by
  have hint : toInt32 string.length = string.length := toInt32_eq_self (by omega) (by omega)
  rcases string with - | ⟨b, bs⟩
  · exact iff_of_true rfl ⟨[], rfl⟩
  have hsize : (((b :: bs).length : ℕ) : ℤ) = ((b :: bs ++ [0]).length : ℕ) - 1 := by simp
  have hne : (((b :: bs ++ [0]).length : ℕ) : ℤ) - 1 ≠ 0 := by
    rw [← hsize, Nat.cast_ne_zero]
    exact Nat.succ_ne_zero bs.length
  have hloop : utf8ValidateLoop ((b :: bs ++ [0]).length - 1) (b :: bs ++ [0]).length
      ((b :: bs ++ [0]).length + 1) (b :: bs ++ [0]) = true ↔ IsUtf8 (b :: bs) :=
    utf8ValidateLoop_iff (by simp) (by simp)
  rw [utf8ValidateLoop, if_pos (by simp)] at hloop
  rw [utf8ValidateString, hint, hsize, utf8Validate, if_neg hne, hloop]
