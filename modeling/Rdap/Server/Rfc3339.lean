import Rdap.Lib.TextOrder
import Rdap.Server.Task

/-!
# Timestamps as text

A protobuf timestamp prints as RFC 3339 in UTC, with the fewest of 0, 3, 6 or 9 fractional digits
that are exact. The part up to the seconds has a fixed width; the fraction has not, and the text
ends with a letter above every digit.
-/

set_option autoImplicit false

namespace Rdap.Server
open Python Lib

/-- The range of the type; outside of it nothing is printed. -/
structure Timestamp.Valid (t : Timestamp) : Prop where
  first : -62135596800 ≤ t.seconds
  last : t.seconds ≤ 253402300799
  nonneg : 0 ≤ t.nanos
  fraction : t.nanos < 1000000000

/-- Nanoseconds since the epoch. -/
def Timestamp.instant (t : Timestamp) : Int := t.seconds * 1000000000 + t.nanos

/-! ## The text -/

/-- Decimal digits with leading zeros. -/
def padded : Nat → Nat → PyStr
  | 0, _ => []
  | w + 1, n => padded w (n / 10) ++ [digitChar (n % 10)]

/-- The days of the first `y` years, from the year 1 on. -/
def daysBeforeYear (y : Nat) : Nat := 365 * y + y / 4 - y / 100 + y / 400

/-- Whether the year after the first `y` ones is a leap year. -/
def leapAfter (y : Nat) : Bool := (y + 1) % 4 = 0 && ((y + 1) % 100 ≠ 0 || (y + 1) % 400 = 0)

/-- The days of the first `m` months. -/
def daysBeforeMonth (leap : Bool) (m : Nat) : Nat :=
  ([0, 31, 59, 90, 120, 151, 181, 212, 243, 273, 304, 334][m]?).getD 365 +
    if leap = true ∧ 2 ≤ m then 1 else 0

def yearOf (day : Nat) : Nat := Nat.findGreatest (fun y => daysBeforeYear y ≤ day) 9998

def monthOf (leap : Bool) (dayOfYear : Nat) : Nat :=
  Nat.findGreatest (fun m => daysBeforeMonth leap m ≤ dayOfYear) 11

def dayOfYear (day : Nat) : Nat := day - daysBeforeYear (yearOf day)

def dayOfMonth (day : Nat) : Nat :=
  dayOfYear day - daysBeforeMonth (leapAfter (yearOf day)) (monthOf (leapAfter (yearOf day)) (dayOfYear day))

/-- `YYYY-MM-DD` for a day counted from the first of January of the year 1. -/
def dateText (day : Nat) : PyStr :=
  padded 4 (yearOf day + 1) ++ (lit "-" ++
    (padded 2 (monthOf (leapAfter (yearOf day)) (dayOfYear day) + 1) ++ (lit "-" ++
      padded 2 (dayOfMonth day + 1))))

/-- `HH:MM:SS` -/
def timeText (second : Nat) : PyStr :=
  padded 2 (second / 3600) ++ (lit ":" ++ (padded 2 (second / 60 % 60) ++ (lit ":" ++ padded 2 (second % 60))))

/-- The seconds since the first of January of the year 1. -/
def sinceYearOne (t : Timestamp) : Nat := (t.seconds + 62135596800).toNat

/-- How many fractional digits are printed. -/
def precision (nanos : Nat) : Nat :=
  if nanos = 0 then 0 else if nanos % 1000000 = 0 then 3 else if nanos % 1000 = 0 then 6 else 9

def fractionText (nanos : Nat) : PyStr :=
  if nanos = 0 then [] else (lit "." ++ padded 9 nanos).take (1 + precision nanos)

def secondsText (t : Timestamp) : PyStr :=
  dateText (sinceYearOne t / 86400) ++ (lit "T" ++ timeText (sinceYearOne t % 86400))

/-- `ToJsonString` -/
def rfc3339 (t : Timestamp) : PyStr := secondsText t ++ (fractionText t.nanos.toNat ++ lit "Z")

/-! ## Fields of a fixed width -/

@[simp] theorem padded_length (w n : Nat) : (padded w n).length = w := by
  induction w generalizing n with
  | zero => rfl
  | succ w ih => simp [padded, ih]

theorem digitChar_lt {a b : Nat} (h : a < b) (hb : b < 10) : digitChar a < digitChar b := by
  rw [Fin.lt_def]
  simp only [digitChar]
  omega

theorem padded_lt {w m n : Nat} (h : m < n) (hn : n < 10 ^ w) : padded w m < padded w n := by
  induction w generalizing m n with
  | zero =>
    rw [Nat.pow_zero] at hn
    omega
  | succ w ih =>
    unfold padded
    rw [append_lt_append_iff (by simp)]
    rw [Nat.pow_succ] at hn
    rcases Nat.lt_or_ge (m / 10) (n / 10) with hlt | hge
    · exact Or.inl (ih hlt (by omega))
    · have heq : m / 10 = n / 10 := by omega
      refine Or.inr ⟨by rw [heq], ?_⟩
      have hlast : digitChar (m % 10) < digitChar (n % 10) := digitChar_lt (by omega) (by omega)
      simp [List.cons_lt_cons_iff, hlast]

theorem padded_injective {w m n : Nat} (hm : m < 10 ^ w) (hn : n < 10 ^ w) (h : padded w m = padded w n) :
    m = n := by
  rcases Nat.lt_trichotomy m n with hlt | heq | hgt
  · exact absurd (h ▸ padded_lt hlt hn) (lt_irrefl _)
  · exact heq
  · exact absurd (h ▸ padded_lt hgt hm) (lt_irrefl _)

theorem padded_take (p q n : Nat) : (padded (p + q) n).take p = padded p (n / 10 ^ q) := by
  induction q generalizing n with
  | zero => simp
  | succ q ih =>
    have hstep : padded (p + (q + 1)) n = padded (p + q) (n / 10) ++ [digitChar (n % 10)] := rfl
    rw [hstep, List.take_append_of_le_length (by simp), ih, Nat.div_div_eq_div_mul, Nat.pow_succ,
      Nat.mul_comm 10]

theorem field_lt {w m n : Nat} (h : m < n) (hn : n < 10 ^ w) (c d : PyStr) :
    padded w m ++ c < padded w n ++ d := by
  rw [append_lt_append_iff (by simp)]
  exact Or.inl (padded_lt h hn)

/-! ## The calendar -/

theorem yearOf_le (day : Nat) : yearOf day ≤ 9998 := Nat.findGreatest_le 9998

theorem daysBeforeYear_yearOf (day : Nat) : daysBeforeYear (yearOf day) ≤ day := by
  apply Nat.findGreatest_spec (P := fun y => daysBeforeYear y ≤ day) (Nat.zero_le 9998)
  simp [daysBeforeYear]

theorem yearOf_mono {a b : Nat} (h : a ≤ b) : yearOf a ≤ yearOf b :=
  Nat.findGreatest_mono (fun _ hy => Nat.le_trans hy h) (Nat.le_refl 9998)

/-- A year is never longer than 366 days. -/
theorem daysBeforeYear_succ_le (y : Nat) : daysBeforeYear (y + 1) ≤ daysBeforeYear y + 366 := by
  have hfour : (y + 1) / 4 ≤ y / 4 + 1 := by omega
  have hcentury : y / 100 ≤ (y + 1) / 100 := by omega
  have hsmall : y / 100 ≤ y / 4 := by omega
  have hcycle : (y + 1) / 400 - y / 400 ≤ (y + 1) / 100 - y / 100 := by omega
  have hgrow : y / 400 ≤ (y + 1) / 400 := by omega
  simp only [daysBeforeYear]
  omega

theorem dayOfYear_lt {day : Nat} (hday : day < 3652059) : dayOfYear day < 366 := by
  have hle := daysBeforeYear_yearOf day
  have hnext : day < daysBeforeYear (yearOf day + 1) := by
    rcases Nat.lt_or_ge (yearOf day) 9998 with hlt | hge
    · have hnot : ¬daysBeforeYear (yearOf day + 1) ≤ day :=
        Nat.findGreatest_is_greatest (P := fun y => daysBeforeYear y ≤ day) (Nat.lt_succ_self _)
          (Nat.succ_le_of_lt hlt)
      exact Nat.lt_of_not_le hnot
    · have heq : yearOf day = 9998 := Nat.le_antisymm (yearOf_le day) hge
      rw [heq]
      exact hday
  have hyear := daysBeforeYear_succ_le (yearOf day)
  unfold dayOfYear
  omega

theorem daysBeforeMonth_monthOf (leap : Bool) (n : Nat) : daysBeforeMonth leap (monthOf leap n) ≤ n := by
  apply Nat.findGreatest_spec (P := fun m => daysBeforeMonth leap m ≤ n) (Nat.zero_le 11)
  simp [daysBeforeMonth]

/-- A month is never longer than 31 days. -/
theorem daysBeforeMonth_succ_le (leap : Bool) {m : Nat} (hm : m ≤ 11) :
    daysBeforeMonth leap (m + 1) ≤ daysBeforeMonth leap m + 32 := by
  revert m
  cases leap <;> decide

theorem monthOf_le (leap : Bool) (n : Nat) : monthOf leap n ≤ 11 := Nat.findGreatest_le 11

theorem monthOf_mono (leap : Bool) {a b : Nat} (h : a ≤ b) : monthOf leap a ≤ monthOf leap b :=
  Nat.findGreatest_mono (fun _ hm => Nat.le_trans hm h) (Nat.le_refl 11)

theorem dayOfMonth_lt {day : Nat} (hday : day < 3652059) : dayOfMonth day < 99 := by
  have hyear := dayOfYear_lt hday
  unfold dayOfMonth
  generalize leapAfter (yearOf day) = leap
  generalize dayOfYear day = n at *
  have hle := daysBeforeMonth_monthOf leap n
  have hmax := monthOf_le leap n
  have hnext : monthOf leap n < 11 → n < daysBeforeMonth leap (monthOf leap n + 1) := by
    intro hlt
    have hnot : ¬daysBeforeMonth leap (monthOf leap n + 1) ≤ n :=
      Nat.findGreatest_is_greatest (P := fun m => daysBeforeMonth leap m ≤ n) (Nat.lt_succ_self _)
        (Nat.succ_le_of_lt hlt)
    omega
  have hlong := daysBeforeMonth_succ_le leap hmax
  rcases Nat.lt_or_eq_of_le hmax with hlt | heq
  · have hn := hnext hlt
    omega
  · have hend : daysBeforeMonth leap (monthOf leap n + 1) = 365 + if leap = true then 1 else 0 := by
      rw [heq]
      simp [daysBeforeMonth]
    split at hend <;> omega

theorem dateText_lt {a b : Nat} (h : a < b) (hb : b < 3652059) : dateText a < dateText b := by
  have hyear := yearOf_mono (Nat.le_of_lt h)
  have ha := daysBeforeYear_yearOf a
  have hmax := yearOf_le b
  unfold dateText
  rcases Nat.lt_or_eq_of_le hyear with hlt | heq
  · exact field_lt (by omega) (by omega) _ _
  · rw [heq]
    apply List.append_left_lt
    apply List.append_left_lt
    have hday : dayOfYear a < dayOfYear b := by
      unfold dayOfYear
      rw [heq] at ha ⊢
      omega
    have hmonth := monthOf_mono (leapAfter (yearOf b)) (Nat.le_of_lt hday)
    have hm := monthOf_le (leapAfter (yearOf b)) (dayOfYear b)
    rcases Nat.lt_or_eq_of_le hmonth with hlt | hsame
    · exact field_lt (by omega) (by omega) _ _
    · rw [hsame]
      apply List.append_left_lt
      apply List.append_left_lt
      have hbefore := daysBeforeMonth_monthOf (leapAfter (yearOf b)) (dayOfYear a)
      have hlast := dayOfMonth_lt hb
      apply padded_lt
      · unfold dayOfMonth
        rw [heq, hsame] at *
        omega
      · omega

theorem timeText_lt {a b : Nat} (h : a < b) (hb : b < 86400) : timeText a < timeText b := by
  unfold timeText
  rcases Nat.lt_or_ge (a / 3600) (b / 3600) with hlt | hge
  · exact field_lt hlt (by omega) _ _
  · have heq : a / 3600 = b / 3600 := by omega
    rw [heq]
    apply List.append_left_lt
    apply List.append_left_lt
    rcases Nat.lt_or_ge (a / 60 % 60) (b / 60 % 60) with hlt | hge'
    · exact field_lt hlt (by omega) _ _
    · have hsame : a / 60 % 60 = b / 60 % 60 := by omega
      rw [hsame]
      apply List.append_left_lt
      apply List.append_left_lt
      exact padded_lt (by omega) (by omega)

theorem dateText_length (day : Nat) : (dateText day).length = 10 := by
  simp [dateText, lit]

theorem timeText_length (second : Nat) : (timeText second).length = 8 := by
  simp [timeText, lit]

theorem secondsText_length (t : Timestamp) : (secondsText t).length = 19 := by
  simp [secondsText, dateText_length, timeText_length, lit]

theorem secondsText_lt {a b : Timestamp} (ha : a.Valid) (hb : b.Valid) (h : a.seconds < b.seconds) :
    secondsText a < secondsText b := by
  have hlow := ha.first
  have hhigh := hb.last
  have hlt : sinceYearOne a < sinceYearOne b := by
    unfold sinceYearOne
    omega
  have hmax : sinceYearOne b < 3652059 * 86400 := by
    unfold sinceYearOne
    omega
  unfold secondsText
  rcases Nat.lt_or_ge (sinceYearOne a / 86400) (sinceYearOne b / 86400) with hday | hday
  · rw [append_lt_append_iff (by rw [dateText_length, dateText_length])]
    exact Or.inl (dateText_lt hday (by omega))
  · have heq : sinceYearOne a / 86400 = sinceYearOne b / 86400 := by omega
    rw [heq]
    apply List.append_left_lt
    apply List.append_left_lt
    exact timeText_lt (by omega) (by omega)

/-! ## The fraction -/

/-- What a text with the fraction of `n` leaves open. -/
def unit (n : Nat) : Nat := 10 ^ (9 - precision n)

/-- All nine digits behind the point. -/
def fullFraction (n : Nat) : PyStr := lit "." ++ padded 9 n

theorem precision_cases (n : Nat) :
    (precision n = 0 ∧ unit n = 1000000000 ∧ n = 0) ∨
    (precision n = 3 ∧ unit n = 1000000 ∧ n ≠ 0 ∧ n % 1000000 = 0) ∨
    (precision n = 6 ∧ unit n = 1000 ∧ n % 1000000 ≠ 0 ∧ n % 1000 = 0) ∨
    (precision n = 9 ∧ unit n = 1 ∧ n % 1000 ≠ 0) := by
  unfold unit precision
  split
  · rename_i h
    exact Or.inl ⟨rfl, rfl, h⟩
  · rename_i h
    split
    · rename_i h6
      exact Or.inr (Or.inl ⟨rfl, rfl, h, h6⟩)
    · rename_i h6
      split
      · rename_i h3
        exact Or.inr (Or.inr (Or.inl ⟨rfl, rfl, h6, h3⟩))
      · rename_i h3
        exact Or.inr (Or.inr (Or.inr ⟨rfl, rfl, h3⟩))

/-- The width of the printed fraction, the point included. -/
def fractionWidth (n : Nat) : Nat := if n = 0 then 0 else 1 + precision n

theorem fractionText_eq (n : Nat) : fractionText n = (fullFraction n).take (fractionWidth n) := by
  unfold fractionText fractionWidth fullFraction
  split <;> rfl

theorem fractionText_isPrefix (n : Nat) : fractionText n <+: fullFraction n := by
  rw [fractionText_eq]
  exact List.take_prefix _ _

theorem fractionText_length (n : Nat) : (fractionText n).length = fractionWidth n := by
  rw [fractionText_eq, List.length_take, fullFraction, List.length_append, padded_length]
  have hpoint : (lit ".").length = 1 := rfl
  unfold fractionWidth
  rcases precision_cases n with ⟨h, -, hn⟩ | ⟨h, -, hn, -⟩ | ⟨h, -, hn, -⟩ | ⟨h, -, hn⟩ <;> split <;> omega

theorem fullFraction_take {p q : Nat} (hpq : p + q = 9) (n : Nat) :
    (fullFraction n).take (1 + p) = lit "." ++ padded p (n / 10 ^ q) := by
  have hpoint : lit "." = [46] := rfl
  have htake := padded_take p q n
  rw [hpq] at htake
  rw [fullFraction, hpoint, Nat.add_comm 1 p, List.singleton_append, List.take_succ_cons, htake]
  rfl

theorem fullFraction_take_eq {p q : Nat} (hpq : p + q = 9) {m n : Nat} (hm : m < 1000000000)
    (hn : n < 1000000000) :
    (fullFraction n).take (1 + p) = (fullFraction m).take (1 + p) ↔ n / 10 ^ q = m / 10 ^ q := by
  have hbound : ∀ k, k < 1000000000 → k / 10 ^ q < 10 ^ p := by
    intro k hk
    apply Nat.div_lt_of_lt_mul
    rw [← Nat.pow_add, Nat.add_comm q p, hpq]
    exact hk
  rw [fullFraction_take hpq, fullFraction_take hpq, List.append_cancel_left_eq]
  constructor
  · intro h
    exact padded_injective (hbound n hn) (hbound m hm) h
  · intro h
    rw [h]

/-- Two fractions agree in the digits that one of them prints. -/
theorem take_fullFraction {m n : Nat} (hm : m < 1000000000) (hn : n < 1000000000) :
    (fullFraction n).take (fractionWidth m) = fractionText m ↔ n / unit m = m / unit m := by
  rw [fractionText_eq]
  unfold fractionWidth unit
  rcases precision_cases m with ⟨h, -, hz⟩ | ⟨h, -, hz, -⟩ | ⟨h, -, hz, -⟩ | ⟨h, -, hz⟩
  · subst hz
    simp only [h, if_true, List.take_zero, Nat.sub_zero, Nat.zero_div, true_iff]
    omega
  · rw [if_neg hz, h]
    exact fullFraction_take_eq (by omega) hm hn
  · rw [if_neg (by omega), h]
    exact fullFraction_take_eq (by omega) hm hn
  · rw [if_neg (by omega), h]
    exact fullFraction_take_eq (by omega) hm hn

theorem fractionWidth_cases (n : Nat) :
    (fractionWidth n = 0 ∧ unit n = 1000000000 ∧ n = 0) ∨
    (fractionWidth n = 4 ∧ unit n = 1000000 ∧ n ≠ 0 ∧ n % 1000000 = 0) ∨
    (fractionWidth n = 7 ∧ unit n = 1000 ∧ n % 1000000 ≠ 0 ∧ n % 1000 = 0) ∨
    (fractionWidth n = 10 ∧ unit n = 1 ∧ n % 1000 ≠ 0) := by
  unfold fractionWidth
  rcases precision_cases n with ⟨h, hu, hn⟩ | ⟨h, hu, hn, h6⟩ | ⟨h, hu, h6, h3⟩ | ⟨h, hu, h3⟩
  · exact Or.inl ⟨if_pos hn, hu, hn⟩
  · rw [if_neg hn, h]
    exact Or.inr (Or.inl ⟨rfl, hu, hn, h6⟩)
  · rw [if_neg (by omega), h]
    exact Or.inr (Or.inr (Or.inl ⟨rfl, hu, h6, h3⟩))
  · rw [if_neg (by omega), h]
    exact Or.inr (Or.inr (Or.inr ⟨rfl, hu, h3⟩))

/-- What has the printed digits of a fraction, and more, is later and prints more. -/
theorem hidden_width {m n : Nat} (h : n / unit m = m / unit m) (hne : m ≠ n) :
    m < n ∧ fractionWidth m < fractionWidth n := by
  have hm := fractionWidth_cases m
  rcases fractionWidth_cases n with ⟨hw, -, hy⟩ | ⟨hw, -, hy⟩ | ⟨hw, -, hy⟩ | ⟨hw, -, hy⟩ <;>
    rcases hm with ⟨hv, hu, hz⟩ | ⟨hv, hu, hz⟩ | ⟨hv, hu, hz⟩ | ⟨hv, hu, hz⟩ <;>
    rw [hu] at h <;> omega

theorem fractionText_hides {m n : Nat} (hm : m < 1000000000) (hn : n < 1000000000) :
    (fractionText m <+: fractionText n ∧ fractionText m ≠ fractionText n) ↔
      m ≠ n ∧ n / unit m = m / unit m := by
  constructor
  · rintro ⟨hstem, hne⟩
    refine ⟨fun heq => hne (by rw [heq]), ?_⟩
    have hfull := hstem.trans (fractionText_isPrefix n)
    rw [← take_fullFraction hm hn, ← fractionText_length]
    exact (List.prefix_iff_eq_take.mp hfull).symm
  · rintro ⟨hne, hsame⟩
    obtain ⟨-, hwidth⟩ := hidden_width hsame hne
    have htake := (take_fullFraction hm hn).mpr hsame
    constructor
    · rw [← htake, fractionText_eq n]
      exact List.take_prefix_take_left (Nat.le_of_lt hwidth)
    · intro heq
      have hlength := congrArg List.length heq
      rw [fractionText_length, fractionText_length] at hlength
      omega

theorem fractionText_injective {m n : Nat} (hm : m < 1000000000) (hn : n < 1000000000)
    (h : fractionText m = fractionText n) : m = n := by
  by_contra hne
  have hwidth : fractionWidth m = fractionWidth n := by
    rw [← fractionText_length, ← fractionText_length, h]
  have hsame : n / unit m = m / unit m := by
    rw [← take_fullFraction hm hn, hwidth, ← fractionText_eq, h]
  have hlt := (hidden_width hsame hne).2
  omega

theorem padded_digits (w n : Nat) : ∀ c ∈ padded w n, c < (90 : CodePoint) := by
  induction w generalizing n with
  | zero =>
    intro c hc
    cases hc
  | succ w ih =>
    intro c hc
    rcases List.mem_append.mp hc with hc | hc
    · exact ih _ c hc
    · rw [List.mem_singleton.mp hc, Fin.lt_def]
      simp only [digitChar]
      omega

theorem fractionText_lt (n : Nat) : ∀ c ∈ fractionText n, c < (90 : CodePoint) := by
  intro c hc
  have hfull := (fractionText_isPrefix n).subset hc
  rcases List.mem_append.mp hfull with h | h
  · have hpoint : lit "." = [46] := rfl
    rw [hpoint, List.mem_singleton] at h
    rw [h]
    decide
  · exact padded_digits 9 n c h

/-! ## The order -/

/-- The text of `b` goes on where that of `a` ends: same second, same digits as far as those of `a`
are printed, and then more. -/
def Hides (a b : Timestamp) : Prop :=
  a.seconds = b.seconds ∧ a.nanos ≠ b.nanos ∧
    b.nanos.toNat / unit a.nanos.toNat = a.nanos.toNat / unit a.nanos.toNat

instance decidableHides (a b : Timestamp) : Decidable (Hides a b) :=
  inferInstanceAs (Decidable (_ ∧ _ ∧ _))

theorem Timestamp.Valid.toNat_lt {t : Timestamp} (h : t.Valid) : t.nanos.toNat < 1000000000 := by
  have hlow := h.nonneg
  have hhigh := h.fraction
  omega

theorem Hides.instant_lt {a b : Timestamp} (ha : a.Valid) (hb : b.Valid) (h : Hides a b) :
    a.instant < b.instant := by
  obtain ⟨hseconds, hne, hsame⟩ := h
  have hlow := ha.nonneg
  have hlow' := hb.nonneg
  have hlt := (hidden_width hsame (by omega)).1
  unfold Timestamp.instant
  omega

theorem fractionText_hides_iff {a b : Timestamp} (ha : a.Valid) (hb : b.Valid) (h : a.seconds = b.seconds) :
    (fractionText a.nanos.toNat <+: fractionText b.nanos.toNat ∧
      fractionText a.nanos.toNat ≠ fractionText b.nanos.toNat) ↔ Hides a b := by
  have hlow := ha.nonneg
  have hlow' := hb.nonneg
  rw [fractionText_hides ha.toNat_lt hb.toNat_lt]
  constructor
  · rintro ⟨hne, hsame⟩
    exact ⟨h, by omega, hsame⟩
  · rintro ⟨-, hne, hsame⟩
    exact ⟨by omega, hsame⟩

theorem fraction_lt_iff {m n : Nat} (hm : m < 1000000000) (hn : n < 1000000000)
    (hmn : ¬fractionText m <+: fractionText n) (hnm : ¬fractionText n <+: fractionText m) :
    fractionText m < fractionText n ↔ m < n := by
  rw [lt_iff_of_isPrefix (fractionText_isPrefix m) (fractionText_isPrefix n) hmn hnm]
  have hlt : ∀ j k, j < k → k < 1000000000 → fullFraction j < fullFraction k := by
    intro j k hjk hk
    exact List.append_left_lt (padded_lt hjk hk)
  constructor
  · intro h
    rcases Nat.lt_trichotomy m n with hless | heq | hgreater
    · exact hless
    · rw [heq] at h
      exact absurd h (lt_irrefl _)
    · exact absurd h (lt_asymm (hlt n m hgreater hm))
  · intro h
    exact hlt m n h hn

/-- The texts compare like the instants, except that a text that hides another stands above it. -/
theorem rfc3339_lt_iff {a b : Timestamp} (ha : a.Valid) (hb : b.Valid) :
    rfc3339 a < rfc3339 b ↔ (a.instant < b.instant ∧ ¬Hides a b) ∨ Hides b a := by
  have hm := ha.toNat_lt
  have hn := hb.toNat_lt
  have hlow := ha.nonneg
  have hlow' := hb.nonneg
  have hhigh := ha.fraction
  have hhigh' := hb.fraction
  unfold rfc3339
  rcases lt_trichotomy a.seconds b.seconds with hlt | heq | hgt
  · have htext := secondsText_lt ha hb hlt
    have hinstant : a.instant < b.instant := by
      unfold Timestamp.instant
      omega
    have hnot : ¬Hides a b := fun h => absurd h.1 (by omega)
    rw [append_lt_append_iff (by rw [secondsText_length, secondsText_length])]
    exact ⟨fun _ => Or.inl ⟨hinstant, hnot⟩, fun _ => Or.inl htext⟩
  · have hsame : secondsText a = secondsText b := by
      unfold secondsText sinceYearOne
      rw [heq]
    have hend : lit "Z" = [90] := rfl
    have hinstant : a.instant < b.instant ↔ a.nanos.toNat < b.nanos.toNat := by
      unfold Timestamp.instant
      omega
    rw [hsame, append_lt_append_iff rfl, hend, terminated_lt_iff (fractionText_lt _) (fractionText_lt _),
      fractionText_hides_iff hb ha heq.symm, hinstant]
    constructor
    · rintro (h | ⟨-, h | ⟨hnot, hlt⟩⟩)
      · exact absurd h (lt_irrefl _)
      · exact Or.inr h
      · by_cases hback : fractionText b.nanos.toNat <+: fractionText a.nanos.toNat
        · exact absurd hlt hback.le
        · refine Or.inl ⟨(fraction_lt_iff hm hn hnot hback).mp hlt, ?_⟩
          exact fun h => hnot ((fractionText_hides_iff ha hb heq).mpr h).1
    · rintro (⟨hlt, hnot⟩ | h)
      · have hdiffer : ¬fractionText a.nanos.toNat <+: fractionText b.nanos.toNat := by
          intro hstem
          apply hnot
          rw [← fractionText_hides_iff ha hb heq]
          refine ⟨hstem, ?_⟩
          intro hequal
          have := fractionText_injective hm hn hequal
          omega
        by_cases hback : fractionText b.nanos.toNat <+: fractionText a.nanos.toNat
        · refine Or.inr ⟨rfl, Or.inl ((fractionText_hides_iff hb ha heq.symm).mp ⟨hback, ?_⟩)⟩
          intro hequal
          exact hdiffer (hequal ▸ List.prefix_rfl)
        · exact Or.inr ⟨rfl, Or.inr ⟨hdiffer, (fraction_lt_iff hm hn hdiffer hback).mpr hlt⟩⟩
      · exact Or.inr ⟨rfl, Or.inl h⟩
  · have htext := secondsText_lt hb ha hgt
    have hinstant : ¬a.instant < b.instant := by
      unfold Timestamp.instant
      omega
    have hnot : ¬Hides b a := fun h => absurd h.1 (by omega)
    rw [append_lt_append_iff (by rw [secondsText_length, secondsText_length])]
    constructor
    · rintro (h | ⟨h, -⟩)
      · exact absurd h (lt_asymm htext)
      · rw [h] at htext
        exact absurd htext (lt_irrefl _)
    · rintro (⟨h, -⟩ | h)
      · exact absurd h hinstant
      · exact absurd h hnot

end Rdap.Server
