/-
# Decimal numbers as a language

The numbers from `lo` to `hi`, written in decimal without leading zeros (`between`), and the
regular expressions that match them: a class of digits (`denotes_range`), one digit more
(`between_mul`), and one range after another (`between_add`).

Key definition: `between`.
Key theorems: `denotes_range`, `between_mul`, `between_add`.
-/
import EasyVoiceCall.Lib.Regex

namespace Decimal

open Nat (digitChar toDigits)

/-- The numbers from `lo` to `hi`, in decimal. -/
def between (lo hi : ℕ) : Language Char := {w | ∃ n, (lo ≤ n ∧ n ≤ hi) ∧ w = toDigits 10 n}

theorem mem_between {lo hi : ℕ} {w : List Char} : w ∈ between lo hi ↔ ∃ n, (lo ≤ n ∧ n ≤ hi) ∧ w = toDigits 10 n :=
  Iff.rfl

/-! ### A digit -/

theorem le_iff_toNat_le {c d : Char} : c ≤ d ↔ c.toNat ≤ d.toNat := by
  rw [Char.le_def]
  exact UInt32.le_iff_toNat_le

/-- The characters between two digits are digits. -/
theorem digit_between_iff {lo hi : ℕ} (h : lo ≤ hi) (hhi : hi ≤ 9) (c : Char) :
    digitChar lo ≤ c ∧ c ≤ digitChar hi ↔ ∃ n, (lo ≤ n ∧ n ≤ hi) ∧ c = digitChar n := by
  rw [le_iff_toNat_le, le_iff_toNat_le, Nat.toNat_digitChar_of_lt_ten (by omega),
    Nat.toNat_digitChar_of_lt_ten (by omega)]
  constructor
  · intro hc
    refine ⟨c.toNat - 48, by omega, ?_⟩
    apply Char.toNat_inj.mp
    rw [Nat.toNat_digitChar_of_lt_ten (by omega)]
    omega
  · rintro ⟨n, hn, rfl⟩
    rw [Nat.toNat_digitChar_of_lt_ten (by omega)]
    omega

theorem mem_between_digit {lo hi : ℕ} (hhi : hi ≤ 9) {w : List Char} :
    w ∈ between lo hi ↔ ∃ n, (lo ≤ n ∧ n ≤ hi) ∧ w = [digitChar n] := by
  rw [mem_between]
  apply exists_congr
  intro n
  apply and_congr_right
  intro hn
  rw [Nat.toDigits_of_lt_base (by omega)]

/-- **A class of digits** is the numbers of one digit between its ends. -/
theorem denotes_range {lo hi : ℕ} (h : lo ≤ hi) (hhi : hi ≤ 9) :
    (Regex.range (digitChar lo) (digitChar hi)).Denotes (between lo hi) := by
  apply Regex.Denotes.cls
  intro w
  rw [mem_between_digit hhi]
  constructor
  · rintro ⟨n, hn, rfl⟩
    exact ⟨digitChar n, decide_eq_true ((digit_between_iff h hhi _).mpr ⟨n, hn, rfl⟩), rfl⟩
  · rintro ⟨c, hc, rfl⟩
    obtain ⟨n, hn, rfl⟩ := (digit_between_iff h hhi c).mp (of_decide_eq_true hc)
    exact ⟨n, hn, rfl⟩

/-- A digit is the one number. -/
theorem denotes_digit {n : ℕ} (h : n ≤ 9) : (Regex.lit (digitChar n)).Denotes (between n n) := by
  have hself : between n n = {[digitChar n]} := by
    ext w
    rw [mem_between_digit h]
    constructor
    · rintro ⟨m, hm, rfl⟩
      rw [show m = n by omega]
      exact Set.mem_singleton _
    · intro hw
      exact ⟨n, ⟨Nat.le_refl n, Nat.le_refl n⟩, hw⟩
  rw [hself]
  exact Regex.Denotes.lit _

/-! ### More digits -/

/-- **Numbers, and a digit after them**: one number and some digits, or some numbers and any
digit. -/
theorem between_mul {lo hi d e : ℕ} (hlo : 1 ≤ lo) (he : e ≤ 9) (h : lo = hi ∨ d = 0 ∧ e = 9) :
    between lo hi * between d e = between (10 * lo + d) (10 * hi + e) := by
  ext w
  rw [Language.mem_mul]
  constructor
  · rintro ⟨u, ⟨n, hn, rfl⟩, v, ⟨k, hk, rfl⟩, rfl⟩
    exact ⟨10 * n + k, by omega, Nat.toDigits_append_toDigits (by omega) (by omega) (by omega)⟩
  · rintro ⟨n, hn, rfl⟩
    refine ⟨_, ⟨n / 10, by omega, rfl⟩, _, ⟨n % 10, by omega, rfl⟩, ?_⟩
    rw [Nat.toDigits_append_toDigits (by omega) (by omega) (by omega), Nat.div_add_mod]

/-- Numbers, and the next ones. -/
theorem between_add {a b b' c : ℕ} (hb : b + 1 = b') (hab : a ≤ b') (hbc : b ≤ c) :
    between a b + between b' c = between a c := by
  ext w
  rw [Language.mem_add]
  constructor
  · rintro (⟨n, hn, rfl⟩ | ⟨n, hn, rfl⟩)
    · exact ⟨n, by omega, rfl⟩
    · exact ⟨n, by omega, rfl⟩
  · rintro ⟨n, hn, rfl⟩
    rcases Nat.lt_or_ge b n with hlt | hle
    · exact Or.inr ⟨n, by omega, rfl⟩
    · exact Or.inl ⟨n, by omega, rfl⟩

end Decimal
