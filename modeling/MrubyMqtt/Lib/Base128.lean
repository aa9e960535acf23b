import Mathlib.Tactic.Ring
import MrubyMqtt.Lib.Bytes

/-!
# Base-128 numerals with a continuation bit

A number is written seven bits to a byte, lowest first, with the high bit set on every byte but
the last. Writer and reader take a bound on the number of bytes: a reader that accepts at most
`k` bytes reads back exactly the numbers below `128 ^ k` (`decode_encode`, `decode_lt`).

`decode` is the reader as a function of the remaining digits. `decodeAcc` is the same reader in
the form loops take: a running value and a multiplier; `decodeAcc_eq` relates the two.
-/

namespace Base128

open Bytes

/-- The digits of `n`, at most `k` of them. -/
def encode : ℕ → ℕ → Bytes
  | 0, _ => []
  | k + 1, n =>
    if n / 128 = 0 then [UInt8.ofNat (n % 128)]
    else UInt8.ofNat (n % 128 + 128) :: encode k (n / 128)

/-- Reads one numeral of at most `k` bytes off the front of a stream. -/
def decode : ℕ → Bytes → Option (ℕ × Bytes)
  | 0, _ => none
  | _ + 1, [] => none
  | k + 1, b :: bs =>
    if b.toNat < 128 then some (b.toNat, bs)
    else (decode k bs).map fun d ↦ (b.toNat - 128 + 128 * d.1, d.2)

/-- The reader with its loop variables: the value so far and the weight of the next digit. -/
def decodeAcc : ℕ → ℕ → ℕ → Bytes → Option (ℕ × Bytes)
  | 0, _, _, _ => none
  | _ + 1, _, _, [] => none
  | k + 1, value, multiplier, b :: bs =>
    let value := value + b.toNat % 128 * multiplier
    if b.toNat < 128 then some (value, bs) else decodeAcc k value (multiplier * 128) bs

/-- A digit that carries the continuation bit, and one that does not, read back as written. -/
private theorem toNat_digit {n : ℕ} (h : n < 256) : (UInt8.ofNat n).toNat = n := by
  rw [UInt8.toNat_ofNat']
  omega

/-- A number with more than one digit leaves room for the higher ones. -/
private theorem higher_digits {k n : ℕ} (h : n < 128 ^ (k + 1)) (hmore : n / 128 ≠ 0) :
    0 < k ∧ n / 128 < 128 ^ k := by
  have hdiv : n / 128 < 128 ^ k := by
    rw [Nat.div_lt_iff_lt_mul (by omega)]
    rwa [pow_succ] at h
  refine ⟨?_, hdiv⟩
  rcases k with - | k
  · rw [pow_zero] at hdiv
    omega
  · omega

/-- **Round trip.** A reader of `k` bytes reads back every number below `128 ^ k`, and leaves the
bytes after it alone. -/
theorem decode_encode {k n : ℕ} (hk : 0 < k) (h : n < 128 ^ k) (rest : Bytes) :
    decode k (encode k n ++ rest) = some (n, rest) := by
  induction k generalizing n with
  | zero => omega
  | succ k ih =>
    rw [encode]
    by_cases hlast : n / 128 = 0
    · have hn : n < 128 := by omega
      rw [if_pos hlast, List.singleton_append, decode, toNat_digit (by omega), if_pos (by omega),
        Nat.mod_eq_of_lt hn]
    · obtain ⟨hkpos, hdiv⟩ := higher_digits h hlast
      rw [if_neg hlast, List.cons_append, decode, toNat_digit (by omega), if_neg (by omega),
        ih hkpos hdiv]
      simp only [Option.map_some, Option.some.injEq, Prod.mk.injEq, and_true]
      omega

/-- Room for more digits than the number needs changes nothing. -/
theorem encode_of_le {j k n : ℕ} (hk : 0 < k) (hjk : k ≤ j) (h : n < 128 ^ k) :
    encode j n = encode k n := by
  induction k generalizing j n with
  | zero => omega
  | succ k ih =>
    obtain ⟨j, rfl⟩ : ∃ i, j = i + 1 := ⟨j - 1, by omega⟩
    rw [encode, encode]
    by_cases hlast : n / 128 = 0
    · rw [if_pos hlast, if_pos hlast]
    · obtain ⟨hkpos, hdiv⟩ := higher_digits h hlast
      rw [if_neg hlast, if_neg hlast, ih hkpos (by omega) hdiv]

/-- What a reader of `k` bytes accepts lies below `128 ^ k`. -/
theorem decode_lt {k n : ℕ} {bs rest : Bytes} (h : decode k bs = some (n, rest)) :
    n < 128 ^ k := by
  induction k generalizing bs n rest with
  | zero => simp [decode] at h
  | succ k ih =>
    rcases bs with - | ⟨b, bs⟩
    · simp [decode] at h
    · have hb : b.toNat < 256 := b.toNat_lt
      have hpos : 1 ≤ 128 ^ k := Nat.one_le_pow _ _ (by omega)
      have hpow : 128 ^ (k + 1) = 128 * 128 ^ k := pow_succ' _ _
      rw [decode] at h
      by_cases hlast : b.toNat < 128
      · rw [if_pos hlast] at h
        have hn : b.toNat = n := congrArg Prod.fst (Option.some.inj h)
        omega
      · rw [if_neg hlast, Option.map_eq_some_iff] at h
        obtain ⟨⟨m, r⟩, hm, heq⟩ := h
        have hlt : m < 128 ^ k := ih hm
        have hn : b.toNat - 128 + 128 * m = n := congrArg Prod.fst heq
        omega

/-- **The loop computes the numeral.** Running the reader with a value and a multiplier adds the
multiplier's share of what is read. -/
theorem decodeAcc_eq (k value multiplier : ℕ) (bs : Bytes) :
    decodeAcc k value multiplier bs =
      (decode k bs).map fun d ↦ (value + multiplier * d.1, d.2) := by
  induction k generalizing value multiplier bs with
  | zero => rfl
  | succ k ih =>
    rcases bs with - | ⟨b, bs⟩
    · rfl
    · have hb : b.toNat < 256 := b.toNat_lt
      rw [decodeAcc, decode]
      by_cases hlast : b.toNat < 128
      · rw [if_pos hlast, if_pos hlast, Nat.mod_eq_of_lt hlast, Option.map_some, Nat.mul_comm]
      · have hdigit : b.toNat % 128 = b.toNat - 128 := by omega
        rw [if_neg hlast, if_neg hlast, ih, hdigit, Option.map_map]
        congr 1
        funext d
        simp only [Function.comp_apply, Prod.mk.injEq, and_true]
        ring

/-- What follows the numeral is not looked at. -/
theorem decode_append {k n : ℕ} {bs rest : Bytes} (h : decode k bs = some (n, rest))
    (more : Bytes) : decode k (bs ++ more) = some (n, rest ++ more) := by
  induction k generalizing bs n rest with
  | zero => simp [decode] at h
  | succ k ih =>
    rcases bs with - | ⟨b, bs⟩
    · simp [decode] at h
    · rw [decode] at h
      rw [List.cons_append, decode]
      by_cases hlast : b.toNat < 128
      · rw [if_pos hlast] at h ⊢
        simp only [Option.some.injEq, Prod.mk.injEq] at h
        rw [h.1, h.2]
      · rw [if_neg hlast, Option.map_eq_some_iff] at h
        obtain ⟨⟨m, r⟩, hm, heq⟩ := h
        simp only [Prod.mk.injEq] at heq
        rw [if_neg hlast, ih hm, Option.map_some, ← heq.1, ← heq.2]

/-- A numeral has at least one digit. -/
theorem length_lt_of_decode {k n : ℕ} {bs rest : Bytes} (h : decode k bs = some (n, rest)) :
    rest.length < bs.length := by
  induction k generalizing bs n rest with
  | zero => simp [decode] at h
  | succ k ih =>
    rcases bs with - | ⟨b, bs⟩
    · simp [decode] at h
    · rw [decode] at h
      by_cases hlast : b.toNat < 128
      · rw [if_pos hlast] at h
        simp only [Option.some.injEq, Prod.mk.injEq] at h
        rw [h.2, List.length_cons]
        omega
      · rw [if_neg hlast, Option.map_eq_some_iff] at h
        obtain ⟨⟨m, r⟩, hm, heq⟩ := h
        simp only [Prod.mk.injEq] at heq
        have := ih hm
        rw [← heq.2, List.length_cons]
        omega

/-- **A numeral that has begun.** Digits that all carry the continuation bit are no numeral
yet. -/
theorem decode_eq_none_of_continued (k : ℕ) {bs : Bytes} (h : ∀ b ∈ bs, 128 ≤ b.toNat) :
    decode k bs = none := by
  induction k generalizing bs with
  | zero => rfl
  | succ k ih =>
    rcases bs with - | ⟨b, bs⟩
    · rfl
    · have hb : 128 ≤ b.toNat := h b (List.mem_cons_self ..)
      rw [decode, if_neg (by omega), ih fun c hc ↦ h c (List.mem_cons_of_mem _ hc)]
      rfl

end Base128
