import Mathlib.Data.List.Basic
import Mathlib.Data.Nat.Basic

/-! Python's decimal numbers as bytes: `str(index).encode()` and `int(text)`. -/
namespace Peerz.Library

def decimalBytes (index : Nat) : List UInt8 :=
  (Nat.toDigits 10 index).map fun digit => UInt8.ofNat digit.toNat

/-- Digits with single underscores between them. -/
def digitsValue? : Nat → Bool → List UInt8 → Option Nat
  | value, true, [] => some value
  | _, false, [] => none
  | value, afterDigit, byte :: rest =>
      if 48 ≤ byte ∧ byte ≤ 57 then digitsValue? (10 * value + (byte.toNat - 48)) true rest
      else if byte = 95 ∧ afterDigit then digitsValue? value false rest
      else none

def isSpaceByte (byte : UInt8) : Bool := byte = 32 ∨ 9 ≤ byte ∧ byte ≤ 13

/-- `int(text)` of bytes; `none` is a `ValueError`. -/
def pyInt? (text : List UInt8) : Option Int :=
  let text := ((text.dropWhile isSpaceByte).reverse.dropWhile isSpaceByte).reverse
  match text with
  | 43 :: digits => (digitsValue? 0 false digits).map Int.ofNat
  | 45 :: digits => (digitsValue? 0 false digits).map fun value => -(value : Int)
  | digits => (digitsValue? 0 false digits).map Int.ofNat

private theorem toNat_digit {digit : Char} (h : digit.isDigit = true) :
    (UInt8.ofNat digit.toNat).toNat = digit.toNat ∧ 48 ≤ digit.toNat ∧ digit.toNat ≤ 57 := by
  obtain ⟨hlow, hhigh⟩ : digit.val ≥ 48 ∧ digit.val ≤ 57 := by simpa [Char.isDigit] using h
  have hlow' : 48 ≤ digit.toNat := UInt32.le_iff_toNat_le.mp hlow
  have hhigh' : digit.toNat ≤ 57 := UInt32.le_iff_toNat_le.mp hhigh
  refine ⟨?_, hlow', hhigh'⟩
  rw [UInt8.toNat_ofNat', Nat.mod_eq_of_lt (by omega)]

theorem decimalBytes_digit {index : Nat} {byte : UInt8} (h : byte ∈ decimalBytes index) :
    48 ≤ byte ∧ byte ≤ 57 := by
  obtain ⟨digit, hdigit, rfl⟩ := List.mem_map.mp h
  obtain ⟨hbyte, hlow, hhigh⟩ :=
    toNat_digit (Nat.isDigit_of_mem_toDigits (by decide) (by decide) hdigit)
  rw [UInt8.le_iff_toNat_le, UInt8.le_iff_toNat_le, hbyte]
  exact ⟨hlow, hhigh⟩

theorem digitsValue?_digits (digits : List Char) (hdigits : ∀ digit ∈ digits, digit.isDigit = true)
    (value : Nat) (afterDigit : Bool) (hne : digits ≠ [] ∨ afterDigit = true) :
    digitsValue? value afterDigit (digits.map fun digit => UInt8.ofNat digit.toNat) =
      some (Nat.ofDigitChars 10 digits value) := by
  induction digits generalizing value afterDigit with
  | nil =>
      obtain rfl := hne.resolve_left (fun h => h rfl)
      simp [digitsValue?]
  | cons digit rest ih =>
      obtain ⟨hbyte, hlow, hhigh⟩ := toNat_digit (hdigits digit List.mem_cons_self)
      have hrange : 48 ≤ UInt8.ofNat digit.toNat ∧ UInt8.ofNat digit.toNat ≤ 57 := by
        rw [UInt8.le_iff_toNat_le, UInt8.le_iff_toNat_le, hbyte]
        exact ⟨hlow, hhigh⟩
      rw [List.map_cons, digitsValue?, if_pos hrange, hbyte, Nat.ofDigitChars_cons]
      exact ih (fun other hother => hdigits other (List.mem_cons_of_mem _ hother)) _ _ (.inr rfl)

private theorem dropWhile_space {text : List UInt8} (h : ∀ byte ∈ text, 48 ≤ byte) :
    text.dropWhile isSpaceByte = text := by
  cases text with
  | nil => rfl
  | cons byte rest =>
      have hbyte := UInt8.le_iff_toNat_le.mp (h byte List.mem_cons_self)
      have hspace : isSpaceByte byte = false := by
        unfold isSpaceByte
        rw [decide_eq_false_iff_not, ← UInt8.toNat_inj, UInt8.le_iff_toNat_le,
          UInt8.le_iff_toNat_le]
        change ¬ (byte.toNat = 32 ∨ 9 ≤ byte.toNat ∧ byte.toNat ≤ 13)
        change 48 ≤ byte.toNat at hbyte
        omega
      rw [List.dropWhile_cons, hspace]
      rfl

theorem pyInt?_decimalBytes (index : Nat) : pyInt? (decimalBytes index) = some (index : Int) := by
  have hlow : ∀ byte ∈ decimalBytes index, 48 ≤ byte := fun _ hbyte => (decimalBytes_digit hbyte).1
  have hreverse : ∀ byte ∈ (decimalBytes index).reverse, 48 ≤ byte :=
    fun byte hbyte => hlow byte (List.mem_reverse.mp hbyte)
  have hvalue : digitsValue? 0 false (decimalBytes index) = some index := by
    refine (digitsValue?_digits _ (fun _ hdigit => Nat.isDigit_of_mem_toDigits (by decide)
      (by decide) hdigit) 0 false (.inl Nat.toDigits_ne_nil)).trans ?_
    rw [Nat.ofDigitChars_ten_toDigits]
  unfold pyInt?
  rw [dropWhile_space hlow, dropWhile_space hreverse, List.reverse_reverse]
  dsimp only
  split
  · rename_i digits hdigits
    exact absurd (hlow 43 (hdigits ▸ List.mem_cons_self)) (by decide)
  · rename_i digits hdigits
    exact absurd (hlow 45 (hdigits ▸ List.mem_cons_self)) (by decide)
  · rw [hvalue]
    rfl

end Peerz.Library
