/-
# The address that the Android worker takes

`isIpv4` and `tryCheckServer` of `Worker.java`, and the datagrams that are made for the address.
The address is matched as a whole against a pattern of four octets, each a list of alternatives
that are tried in order. The order and the anchors change nothing: what the pattern matches are
four octets with dots between them (`fullMatch_ip_iff`).

`\d` is a class of the library that has the ten digits. On Android it has every decimal digit of
Unicode, and the check takes an address that is written with those; where the pattern does not
meet one, it takes the dotted quads and nothing else (`isIpv4_exact_iff`).

The groups of the pattern are not modelled: nothing reads what they hold.

Key definitions: `isIpv4`, `DottedQuad`, `OtherDigits`, `tryCheckServer`, `AndroidWorker.send`.
Key theorems: `isIpv4_iff`, `isIpv4_exact_iff`.
-/
import EasyVoiceCall.Lib.Decimal
import Mathlib.Data.List.Count

namespace EasyVoiceCall

namespace AndroidWorker

open Regex Decimal

/-! ### The pattern -/

/-- `^`. -/
def atStart (pre _post : List Char) : Bool := pre.isEmpty

/-- `$`: the end, or the line terminator that ends the input. -/
def atEnd (pre post : List Char) : Bool :=
  match post with
  | [] => true
  | ['\n'] => pre.head? != some '\r'
  | ['\r', '\n'] => true
  | [c] => c == '\r' || c == '\u0085' || c == '\u2028' || c == '\u2029'
  | _ => false

/-- `0` to `9`. -/
def digit (c : Char) : Bool := decide ('0' ≤ c ∧ c ≤ '9')

/-- `1\d{2}|2[0-4]\d|25[0-5]|[1-9]\d|` and the alternative of one digit. -/
def octet (d : Char → Bool) (one : Regex Char) : Regex Char :=
  lit '1' ++ (cls d).times 2 |||
    lit '2' ++ range '0' '4' ++ cls d |||
    lit '2' ++ lit '5' ++ range '0' '5' |||
    range '1' '9' ++ cls d |||
    one

/-- The pattern, `d` being the class `\d`. -/
def ip (d : Char → Bool) : Regex Char :=
  look atStart ++
    (octet d (range '1' '9') ++ lit '.' ++
      octet d (cls d) ++ lit '.' ++
      octet d (cls d) ++ lit '.' ++
      octet d (cls d)) ++
    look atEnd

/-- The check, `d` being the class `\d`. -/
def isIpv4 (d : Char → Bool) (ipAddress : String) : Bool := (ip d).fullMatch ipAddress.toList

/-! ### What it is to match -/

/-- Four decimal numbers with dots between them: the first from 1 to 255, the others up to 255. -/
def DottedQuad (s : String) : Prop :=
  ∃ a b c d : ℕ, (1 ≤ a ∧ a ≤ 255) ∧ b ≤ 255 ∧ c ≤ 255 ∧ d ≤ 255 ∧
    s = toString a ++ "." ++ toString b ++ "." ++ toString c ++ "." ++ toString d

/-- An octet as the pattern has it: one character of `one`, or two or three with a character of
`d` wherever the pattern has `\d`. -/
def Octet (d one : Char → Bool) : Language Char := fun w =>
  match w with
  | [x] => one x = true
  | [x, y] => ('1' ≤ x ∧ x ≤ '9') ∧ d y = true
  | [x, y, z] =>
    (x = '1' ∧ d y = true ∧ d z = true) ∨ (x = '2' ∧ ('0' ≤ y ∧ y ≤ '4') ∧ d z = true) ∨
      (x = '2' ∧ y = '5' ∧ '0' ≤ z ∧ z ≤ '5')
  | _ => False

/-- `[1-9]`, of which the first octet is, if it has one character. -/
def nonZero (c : Char) : Bool := decide ('1' ≤ c ∧ c ≤ '9')

/-- Four octets of the pattern, with a character other than `0` to `9` among them: it stands where
the pattern has `\d`. -/
def OtherDigits (d : Char → Bool) (s : String) : Prop :=
  ∃ w ∈ Octet d nonZero, ∃ x ∈ Octet d d, ∃ y ∈ Octet d d, ∃ z ∈ Octet d d,
    s.toList = w ++ ['.'] ++ x ++ ['.'] ++ y ++ ['.'] ++ z ∧ ∃ c ∈ w ++ x ++ y ++ z, digit c = false

/-! ### What it matches -/

/-- A word of `first` and three of `other`, with dots between them. -/
def dotted (first other : Language Char) : Language Char :=
  first * {['.']} * other * {['.']} * other * {['.']} * other

theorem mem_dot_iff {l m : Language Char} {w : List Char} :
    w ∈ l * {['.']} * m ↔ ∃ u ∈ l, ∃ v ∈ m, u ++ ['.'] ++ v = w := by
  rw [Language.mem_mul]
  constructor
  · rintro ⟨_, ⟨u, hu, _, rfl, rfl⟩, v, hv, rfl⟩
    exact ⟨u, hu, v, hv, rfl⟩
  · rintro ⟨u, hu, v, hv, rfl⟩
    exact ⟨_, Language.append_mem_mul hu rfl, v, hv, rfl⟩

theorem mem_dotted_iff {first other : Language Char} {t : List Char} : t ∈ dotted first other ↔
    ∃ w ∈ first, ∃ x ∈ other, ∃ y ∈ other, ∃ z ∈ other, t = w ++ ['.'] ++ x ++ ['.'] ++ y ++ ['.'] ++ z := by
  rw [dotted, mem_dot_iff]
  constructor
  · rintro ⟨_, hwxy, z, hz, rfl⟩
    obtain ⟨_, hwx, y, hy, rfl⟩ := mem_dot_iff.mp hwxy
    obtain ⟨w, hw, x, hx, rfl⟩ := mem_dot_iff.mp hwx
    exact ⟨w, hw, x, hx, y, hy, z, hz, rfl⟩
  · rintro ⟨w, hw, x, hx, y, hy, z, hz, rfl⟩
    exact ⟨_, mem_dot_iff.mpr ⟨_, mem_dot_iff.mpr ⟨w, hw, x, hx, rfl⟩, y, hy, rfl⟩, z, hz, rfl⟩

theorem mem_dotted_between_iff (s : String) : s.toList ∈ dotted (between 1 255) (between 0 255) ↔ DottedQuad s := by
  rw [mem_dotted_iff]
  constructor
  · rintro ⟨_, ⟨a, ha, rfl⟩, _, ⟨b, hb, rfl⟩, _, ⟨c, hc, rfl⟩, _, ⟨d, hd, rfl⟩, hs⟩
    refine ⟨a, b, c, d, ha, hb.2, hc.2, hd.2, ?_⟩
    apply String.toList_injective
    rw [hs]
    simp
  · rintro ⟨a, b, c, d, ha, hb, hc, hd, rfl⟩
    refine ⟨_, ⟨a, ha, rfl⟩, _, ⟨b, ⟨b.zero_le, hb⟩, rfl⟩, _, ⟨c, ⟨c.zero_le, hc⟩, rfl⟩, _,
      ⟨d, ⟨d.zero_le, hd⟩, rfl⟩, ?_⟩
    simp

/-- **What the pattern matches**: what its octets match, with dots between them. -/
theorem fullMatch_ip_iff {d : Char → Bool} {first other : Language Char}
    (hfirst : (octet d (range '1' '9')).Denotes first) (hother : (octet d (cls d)).Denotes other) (s : String) :
    isIpv4 d s = true ↔ s.toList ∈ dotted first other := by
  have hdot := Denotes.lit '.'
  rw [isIpv4, ip, dotted]
  apply fullMatch_anchored_iff
  · exact (((((hfirst.append hdot).append hother).append hdot).append hother).append hdot).append hother
  · rfl
  · rfl

/-! ### The ten digits -/

/-- **An octet** is a number up to 255, if its alternative of one digit is one up to 9. -/
theorem denotes_octet {d : Char → Bool} (hd : (cls d).Denotes (between 0 9)) {one : Regex Char} {lo : ℕ} (hlo : lo ≤ 1)
    (hone : one.Denotes (between lo 9)) : (octet d one).Denotes (between lo 255) := by
  have hhundreds : (lit '1' ++ (cls d).times 2).Denotes (between 100 199) := by
    have h := (denotes_digit (show 1 ≤ 9 by decide)).append (hd.times 2)
    rw [pow_two, ← mul_assoc, between_mul (by decide) (by decide) (by decide),
      between_mul (by decide) (by decide) (by decide)] at h
    exact h
  have htwo : (lit '2' ++ range '0' '4' ++ cls d).Denotes (between 200 249) := by
    have h := ((denotes_digit (show 2 ≤ 9 by decide)).append
      (denotes_range (show 0 ≤ 4 by decide) (by decide))).append hd
    rw [between_mul (by decide) (by decide) (by decide), between_mul (by decide) (by decide) (by decide)] at h
    exact h
  have hfifties : (lit '2' ++ lit '5' ++ range '0' '5').Denotes (between 250 255) := by
    have h := ((denotes_digit (show 2 ≤ 9 by decide)).append (denotes_digit (show 5 ≤ 9 by decide))).append
      (denotes_range (show 0 ≤ 5 by decide) (by decide))
    rw [between_mul (by decide) (by decide) (by decide), between_mul (by decide) (by decide) (by decide)] at h
    exact h
  have htens : (range '1' '9' ++ cls d).Denotes (between 10 99) := by
    have h := (denotes_range (show 1 ≤ 9 by decide) (by decide)).append hd
    rw [between_mul (by decide) (by decide) (by decide)] at h
    exact h
  have h := (((hhundreds.or htwo).or hfifties).or htens).or hone
  have hall : between 100 199 + between 200 249 + between 250 255 + between 10 99 + between lo 9 = between lo 255 := by
    calc between 100 199 + between 200 249 + between 250 255 + between 10 99 + between lo 9
        = between 100 249 + between 250 255 + between 10 99 + between lo 9 := by
          rw [between_add rfl (by decide) (by decide)]
      _ = between 100 255 + between 10 99 + between lo 9 := by rw [between_add rfl (by decide) (by decide)]
      _ = between lo 9 + (between 10 99 + between 100 255) := by
          rw [add_comm (between 100 255), add_comm]
      _ = between lo 9 + between 10 255 := by rw [between_add rfl (by decide) (by decide)]
      _ = between lo 255 := between_add rfl (by omega) (by decide)
  rw [hall] at h
  exact h

theorem denotes_digits : (cls digit).Denotes (between 0 9) := denotes_range (show 0 ≤ 9 by decide) (Nat.le_refl 9)

/-- **Where `\d` is the ten digits**, the check accepts the dotted quads, and nothing else. -/
theorem isIpv4_iff (s : String) : isIpv4 digit s = true ↔ DottedQuad s := by
  have hfirst := denotes_octet denotes_digits (Nat.le_refl 1) (denotes_range (show 1 ≤ 9 by decide) (by decide))
  have hother := denotes_octet denotes_digits (Nat.zero_le 1) denotes_digits
  rw [fullMatch_ip_iff hfirst hother, mem_dotted_between_iff]

example : isIpv4 digit "10.0.2.255" = true ∧ isIpv4 digit "10.00.2.255" = false ∧
    isIpv4 digit "10.0.2.256" = false := by decide

/-! ### Any class of digits -/

section

variable {d d' one one' : Char → Bool}

/-- **An octet** is of the pattern's shape. -/
theorem denotes_octet_shape {r : Regex Char} (hone : ∀ pre w post, r.Takes pre w post ↔ ∃ c, one c = true ∧ w = [c]) :
    (octet d r).Denotes (Octet d one) := by
  intro pre w post
  constructor
  · rintro ((((h | h) | h) | h) | h)
    · obtain ⟨_, _, rfl, ⟨x, hx, rfl⟩, _, _, rfl, ⟨y, hy, rfl⟩, _, _, rfl, ⟨z, hz, rfl⟩, rfl⟩ := h
      exact Or.inl ⟨eq_of_beq hx, hy, hz⟩
    · obtain ⟨_, _, rfl, ⟨_, _, rfl, ⟨x, hx, rfl⟩, y, hy, rfl⟩, z, hz, rfl⟩ := h
      exact Or.inr (Or.inl ⟨eq_of_beq hx, of_decide_eq_true hy, hz⟩)
    · obtain ⟨_, _, rfl, ⟨_, _, rfl, ⟨x, hx, rfl⟩, y, hy, rfl⟩, z, hz, rfl⟩ := h
      exact Or.inr (Or.inr ⟨eq_of_beq hx, eq_of_beq hy, of_decide_eq_true hz⟩)
    · obtain ⟨_, _, rfl, ⟨x, hx, rfl⟩, y, hy, rfl⟩ := h
      exact ⟨of_decide_eq_true hx, hy⟩
    · obtain ⟨x, hx, rfl⟩ := (hone _ _ _).mp h
      exact hx
  · intro h
    match w, h with
    | [x], hx => exact Or.inr ((hone _ _ _).mpr ⟨x, hx, rfl⟩)
    | [x, y], ⟨hx, hy⟩ => exact Or.inl (Or.inr ⟨[x], [y], rfl, ⟨x, decide_eq_true hx, rfl⟩, y, hy, rfl⟩)
    | [x, y, z], Or.inl ⟨hx, hy, hz⟩ =>
      exact Or.inl (Or.inl (Or.inl (Or.inl ⟨[x], [y, z], rfl, ⟨x, beq_iff_eq.mpr hx, rfl⟩, [y], [z], rfl, ⟨y, hy, rfl⟩,
        [z], [], rfl, ⟨z, hz, rfl⟩, rfl⟩)))
    | [x, y, z], Or.inr (Or.inl ⟨hx, hy, hz⟩) =>
      exact Or.inl (Or.inl (Or.inl (Or.inr ⟨[x, y], [z], rfl, ⟨[x], [y], rfl, ⟨x, beq_iff_eq.mpr hx, rfl⟩,
        y, decide_eq_true hy, rfl⟩, z, hz, rfl⟩)))
    | [x, y, z], Or.inr (Or.inr ⟨hx, hy, hz⟩) =>
      exact Or.inl (Or.inl (Or.inr ⟨[x, y], [z], rfl, ⟨[x], [y], rfl, ⟨x, beq_iff_eq.mpr hx, rfl⟩,
        y, beq_iff_eq.mpr hy, rfl⟩, z, decide_eq_true hz, rfl⟩))

/-- Whether a word is of that shape rests on its own characters. -/
theorem Octet.mono {w : List Char} (hd : ∀ c ∈ w, d c = true → d' c = true)
    (hone : ∀ c ∈ w, one c = true → one' c = true) (h : w ∈ Octet d one) : w ∈ Octet d' one' := by
  match w, h with
  | [x], hx => exact hone x (by simp) hx
  | [x, y], ⟨hx, hy⟩ => exact ⟨hx, hd y (by simp) hy⟩
  | [x, y, z], Or.inl ⟨hx, hy, hz⟩ => exact Or.inl ⟨hx, hd y (by simp) hy, hd z (by simp) hz⟩
  | [x, y, z], Or.inr (Or.inl ⟨hx, hy, hz⟩) => exact Or.inr (Or.inl ⟨hx, hy, hd z (by simp) hz⟩)
  | [x, y, z], Or.inr (Or.inr h) => exact Or.inr (Or.inr h)

/-- The check takes what is of the pattern's shape. -/
theorem isIpv4_iff_shape (s : String) : isIpv4 d s = true ↔ s.toList ∈ dotted (Octet d nonZero) (Octet d d) :=
  fullMatch_ip_iff (denotes_octet_shape fun _ _ _ => Iff.rfl) (denotes_octet_shape fun _ _ _ => Iff.rfl) s

/-- How many of the characters are not `0` to `9`. -/
def others (w : List Char) : ℕ := w.countP fun c => !digit c

theorem others_dotted (w x y z : List Char) :
    others (w ++ ['.'] ++ x ++ ['.'] ++ y ++ ['.'] ++ z) = others (w ++ x ++ y ++ z) + 3 := by
  have hdot : others ['.'] = 1 := rfl
  simp only [others, List.countP_append] at hdot ⊢
  omega

theorem others_pos_iff {w : List Char} : 0 < others w ↔ ∃ c ∈ w, digit c = false := by
  rw [others, List.countP_pos_iff]
  simp only [Bool.not_eq_true']

theorem digit_of_le {lo hi c : Char} (hlo : '0' ≤ lo) (hhi : hi ≤ '9') (h : lo ≤ c ∧ c ≤ hi) : digit c = true :=
  decide_eq_true ⟨Char.le_trans hlo h.1, Char.le_trans h.2 hhi⟩

theorem digit_of_nonZero (c : Char) (h : nonZero c = true) : digit c = true :=
  digit_of_le (by decide) (by decide) (of_decide_eq_true h)

/-- With the ten digits, a word of that shape has no other character. -/
theorem Octet.digits {w : List Char} (hone : ∀ c, one c = true → digit c = true) (h : w ∈ Octet digit one) :
    ∀ c ∈ w, digit c = true := by
  match w, h with
  | [x], hx => simpa using hone x hx
  | [x, y], ⟨hx, hy⟩ => simpa using ⟨digit_of_le (by decide) (by decide) hx, hy⟩
  | [x, y, z], Or.inl ⟨hx, hy, hz⟩ => simpa [hx] using ⟨by decide, hy, hz⟩
  | [x, y, z], Or.inr (Or.inl ⟨hx, hy, hz⟩) =>
    simpa [hx] using ⟨by decide, digit_of_le (by decide) (by decide) hy, hz⟩
  | [x, y, z], Or.inr (Or.inr ⟨hx, hy, hz⟩) =>
    simpa [hx, hy] using ⟨by decide, by decide, digit_of_le (by decide) (by decide) hz⟩

/-- The dotted quads, and what has other digits, are what the check takes. -/
theorem isIpv4_cases (hd : ∀ c, digit c = true → d c = true) (s : String) :
    isIpv4 d s = true ↔ DottedQuad s ∨ OtherDigits d s := by
  rw [← isIpv4_iff, isIpv4_iff_shape, isIpv4_iff_shape, mem_dotted_iff, mem_dotted_iff]
  constructor
  · rintro ⟨w, hw, x, hx, y, hy, z, hz, hs⟩
    by_cases hother : ∃ c ∈ w ++ x ++ y ++ z, digit c = false
    · exact Or.inr ⟨w, hw, x, hx, y, hy, z, hz, hs, hother⟩
    · have hall : ∀ c ∈ w ++ x ++ y ++ z, digit c = true := fun c hc =>
        Bool.not_eq_false _ ▸ fun hno => hother ⟨c, hc, hno⟩
      simp only [List.mem_append, or_imp, forall_and] at hall
      obtain ⟨⟨⟨hallw, hallx⟩, hally⟩, hallz⟩ := hall
      have hdigits : ∀ {u}, u ∈ Octet d d → (∀ c ∈ u, digit c = true) → u ∈ Octet digit digit := fun hu hall =>
        Octet.mono (fun c hc _ => hall c hc) (fun c hc _ => hall c hc) hu
      exact Or.inl ⟨w, Octet.mono (fun c hc _ => hallw c hc) (fun _ _ h => h) hw, x, hdigits hx hallx,
        y, hdigits hy hally, z, hdigits hz hallz, hs⟩
  · have hclass : ∀ {u}, u ∈ Octet digit digit → u ∈ Octet d d := Octet.mono (fun c _ => hd c) fun c _ => hd c
    rintro (⟨w, hw, x, hx, y, hy, z, hz, hs⟩ | ⟨w, hw, x, hx, y, hy, z, hz, hs, -⟩)
    · exact ⟨w, Octet.mono (fun c _ => hd c) (fun _ _ h => h) hw, x, hclass hx, y, hclass hy, z, hclass hz, hs⟩
    · exact ⟨w, hw, x, hx, y, hy, z, hz, hs⟩

/-- A dotted quad has three characters that are no digits, and what has other digits has more. -/
theorem DottedQuad.not_otherDigits {s : String} (h : DottedQuad s) : ¬ OtherDigits d s := by
  rintro ⟨w, -, x, -, y, -, z, -, hs, hother⟩
  rw [← isIpv4_iff, isIpv4_iff_shape, mem_dotted_iff] at h
  obtain ⟨w', hw', x', hx', y', hy', z', hz', hs'⟩ := h
  have hmany : 0 < others (w ++ x ++ y ++ z) := others_pos_iff.mpr hother
  have hnone : ¬ 0 < others (w' ++ x' ++ y' ++ z') := by
    rw [others_pos_iff]
    rintro ⟨c, hc, hno⟩
    have hdigit : digit c = true := by
      simp only [List.mem_append] at hc
      obtain ((hc | hc) | hc) | hc := hc
      · exact Octet.digits digit_of_nonZero hw' c hc
      · exact Octet.digits (fun _ h => h) hx' c hc
      · exact Octet.digits (fun _ h => h) hy' c hc
      · exact Octet.digits (fun _ h => h) hz' c hc
    rw [hdigit] at hno
    cases hno
  have hcount := others_dotted w x y z
  rw [← hs, hs', others_dotted] at hcount
  omega

end

/-- **The check is right** on every address but those that are written with other digits: it takes
exactly the dotted quads, unless the string is four octets of the pattern with a character of
`\d` among them that is not `0` to `9`. -/
theorem isIpv4_exact_iff {d : Char → Bool} (hd : ∀ c, digit c = true → d c = true) (s : String) :
    (isIpv4 d s = true ↔ DottedQuad s) ↔ ¬ OtherDigits d s := by
  rw [isIpv4_cases hd]
  constructor
  · intro hexact hother
    exact DottedQuad.not_otherDigits (hexact.mp (Or.inr hother)) hother
  · intro hno
    exact ⟨fun h => h.resolve_right hno, Or.inl⟩

/-- Two scripts of those that have digits in Unicode: `0` to `9`, and the Arabic-Indic digits. -/
def arabicIndic (c : Char) : Bool := digit c || decide ('\u0660' ≤ c ∧ c ≤ '\u0669')

theorem arabicIndic_of_digit (c : Char) (h : digit c = true) : arabicIndic c = true := by
  rw [arabicIndic, h, Bool.true_or]

theorem otherDigits_one : OtherDigits arabicIndic "10.0.0.\u0661" :=
  ⟨['1', '0'], ⟨by decide, rfl⟩, ['0'], rfl, ['0'], rfl, ['\u0661'], rfl, rfl, '\u0661', by decide, rfl⟩

theorem isIpv4_exact_iff_ten : (isIpv4 arabicIndic "10.0.0.1" = true ↔ DottedQuad "10.0.0.1") ∧
    ¬ (isIpv4 arabicIndic "10.0.0.\u0661" = true ↔ DottedQuad "10.0.0.\u0661") := by
  have hquad : DottedQuad "10.0.0.1" := ⟨10, 0, 0, 1, by decide, by decide, by decide, by decide, rfl⟩
  constructor
  · exact (isIpv4_exact_iff arabicIndic_of_digit _).mpr hquad.not_otherDigits
  · exact fun h => (isIpv4_exact_iff arabicIndic_of_digit _).mp h otherDigits_one

/-- Taken, and no dotted quad. -/
theorem isIpv4_takes_other_digit : isIpv4 arabicIndic "10.0.0.\u0661" = true ∧ ¬ DottedQuad "10.0.0.\u0661" :=
  ⟨by decide, fun h => h.not_otherDigits otherDigits_one⟩

/-! ### The server that is taken -/

end AndroidWorker

/-- Where the worker sends to. -/
structure AndroidWorker where
  finalIP : Option String := none
  finalPort : Int32 := 0

/-- What may be thrown where a datagram is sent. -/
inductive SendException
  | IOException
  | IllegalArgumentException
  | NullPointerException
  deriving DecidableEq

/-- `run` goes on: an `IOException` is all that it catches. -/
def SendException.goesOn : Except SendException ℕ → Bool
  | .ok _ | .error .IOException => true
  | .error _ => false

namespace AndroidWorker

def tryCheckServer (d : Char → Bool) (self : AndroidWorker) (ip : String) (port : Int32) : AndroidWorker × Bool :=
  if !isIpv4 d ip then (self, false)
  else ({ finalIP := some ip, finalPort := port }, true)

/-- The ports that `new DatagramPacket` takes. -/
def PortOK (self : AndroidWorker) : Prop := 0 ≤ self.finalPort ∧ self.finalPort ≤ 65535

instance (self : AndroidWorker) : Decidable self.PortOK := inferInstanceAs (Decidable (_ ∧ _))

/-- `udpSocket.send(new DatagramPacket(.., InetAddress.getByName(finalIP), finalPort))`: the
socket, where the name is resolved and the datagram goes out. -/
def send (self : AndroidWorker) (udpSocket : Option ℕ) (resolved ok : Bool) : Except SendException ℕ :=
  if !resolved then .error .IOException
  else if ¬ self.PortOK then .error .IllegalArgumentException
  else
    match udpSocket with
    | none => .error .NullPointerException
    | some socket => if ok then .ok socket else .error .IOException

theorem send_ok {self : AndroidWorker} (hport : self.PortOK) (socket : ℕ) :
    self.send (some socket) true true = .ok socket := by
  rw [send, if_neg (not_not_intro hport)]
  rfl

/-- With a port that is taken, and a socket, `run` goes on whatever becomes of the datagram. -/
theorem goesOn_send {self : AndroidWorker} {udpSocket : Option ℕ} (hport : self.PortOK) (hsocket : udpSocket ≠ none)
    (resolved ok : Bool) : SendException.goesOn (self.send udpSocket resolved ok) = true := by
  obtain ⟨socket, rfl⟩ := Option.ne_none_iff_exists'.mp hsocket
  rw [send, if_neg (not_not_intro hport)]
  cases resolved <;> cases ok <;> rfl

end AndroidWorker

end EasyVoiceCall
