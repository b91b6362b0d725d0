import ClassGraft.Decimal.Shortest
import Mathlib.Tactic.Linarith
import Mathlib.Tactic.Ring

/-!
# Decimals that read back

The bits of a finite magnitude are its mantissa on top of a stride for each step of its exponent
(`BinaryFormat.exponent_mul_stride_add_mantissa`).  Every quotient in the interval of a magnitude is
rounded to it (`BinaryFormat.round_of_holds`): it has the exponent of the magnitude and is next to
its mantissa, or it lies right below the least number with that exponent and is rounded up to it.

The decimal that is found for a magnitude lies in its interval (`Shortest.holds_digits`), so it
rounds to the magnitude (`Shortest.round_digits`).  The search ends with a decimal that was tested,
or with one of so many digits that what it leaves out is less than the gap between two magnitudes.
For that the format must be moderate (`BinaryFormat.IsModerate`), as those of 32 and 64 bits are.
-/

namespace ClassGraft

namespace Shortest.Interval

/-- Whether the quotient `num / den` lies in the interval. -/
structure Holds (i : Interval) (num den : Nat) : Prop where
  low_le : i.low * den ≤ num * i.den
  le_high : num * i.den ≤ i.high * den
  strict : i.closed = false → i.low * den < num * i.den ∧ num * i.den < i.high * den

variable {i : Interval} {num den : Nat}

theorem holds_of_contains {n k d : Nat} (h : i.contains n k d = true) :
    i.Holds (n * Decimal.tenTo k) (Decimal.tenTo d) := by
  unfold contains at h
  dsimp only at h
  split_ifs at h with hc
  · rw [Bool.and_eq_true, decide_eq_true_eq, decide_eq_true_eq] at h
    exact ⟨h.1, h.2, fun ho => Bool.noConfusion (hc.symm.trans ho)⟩
  · rw [Bool.and_eq_true, decide_eq_true_eq, decide_eq_true_eq] at h
    exact ⟨h.1.le, h.2.le, fun _ => h⟩

/-- Whether a quotient lies in the interval does not depend on how it is written. -/
theorem Holds.of_mul_eq {num' den' : Nat} (h : i.Holds num den) (hd : 0 < den) (hd' : 0 < den')
    (he : num * den' = num' * den) : i.Holds num' den' := by
  have hbound (bound : Nat) : bound * den' * den = bound * den * den' := by ring
  have hpoint : num' * i.den * den = num * i.den * den' := by
    calc num' * i.den * den = num' * den * i.den := by ring
      _ = num * den' * i.den := by rw [he]
      _ = num * i.den * den' := by ring
  refine ⟨?_, ?_, fun hc => ⟨?_, ?_⟩⟩
  · refine Nat.le_of_mul_le_mul_right ?_ hd
    rw [hbound, hpoint]
    exact Nat.mul_le_mul_right _ h.low_le
  · refine Nat.le_of_mul_le_mul_right ?_ hd
    rw [hbound, hpoint]
    exact Nat.mul_le_mul_right _ h.le_high
  · refine Nat.lt_of_mul_lt_mul_right (a := den) ?_
    rw [hbound, hpoint]
    exact Nat.mul_lt_mul_of_pos_right (h.strict hc).1 hd'
  · refine Nat.lt_of_mul_lt_mul_right (a := den) ?_
    rw [hbound, hpoint]
    exact Nat.mul_lt_mul_of_pos_right (h.strict hc).2 hd'

end Shortest.Interval

namespace BinaryFormat

/-! ### The parts of a magnitude -/

section Parts

variable (format : BinaryFormat) (bits : Nat)

theorem stride_pos : 0 < format.stride := Nat.two_pow_pos _

theorem exponent_mul_stride_add_mantissa :
    format.exponent bits * format.stride + format.mantissa bits = bits := by
  unfold exponent mantissa
  split_ifs with hfield
  · rw [hfield, Nat.zero_sub, Nat.zero_mul, Nat.zero_add]
  · have hsplit : format.field bits * format.stride + bits % format.stride = bits :=
      Nat.div_add_mod' _ _
    obtain ⟨e, he⟩ := Nat.exists_eq_succ_of_ne_zero hfield
    rw [he, Nat.succ_mul] at hsplit
    rw [he, Nat.succ_sub_one]
    omega

theorem mantissa_lt : format.mantissa bits < 2 * format.stride := by
  have hpos := format.stride_pos
  unfold mantissa
  split_ifs with hfield
  · have := (Nat.div_eq_zero_iff_lt hpos).mp hfield
    omega
  · have := Nat.mod_lt bits hpos
    omega

/-- Above the least exponent the mantissa has its leading bit. -/
theorem stride_le_mantissa (h : 0 < format.exponent bits) :
    format.stride ≤ format.mantissa bits := by
  unfold exponent at h
  unfold mantissa
  rw [if_neg (by omega)]
  exact Nat.le_add_left _ _

end Parts

/-! ### Rounding to whole numbers -/

/-- The whole number next to `num / unit`, a tie going to the even one. -/
def nearest (num unit : Nat) : Nat :=
  num / unit + if unit < num % unit * 2 || (num % unit * 2 == unit && num / unit % 2 == 1) then 1
    else 0

/-- A quotient that is at most a half away from a whole number is rounded to it, if it is less than
a half away or that number is even. -/
theorem nearest_eq {num unit m : Nat} (hu : 0 < unit)
    (hl : 2 * (m * unit) ≤ 2 * num + unit) (hh : 2 * num ≤ 2 * (m * unit) + unit)
    (hs : m % 2 = 1 → 2 * (m * unit) < 2 * num + unit ∧ 2 * num < 2 * (m * unit) + unit) :
    nearest num unit = m := by
  unfold nearest
  have hsplit : num / unit * unit + num % unit = num := Nat.div_add_mod' _ _
  have hrest : num % unit < unit := Nat.mod_lt _ hu
  generalize num / unit = q at hsplit
  generalize num % unit = r at hsplit hrest
  have hle : q ≤ m := by
    by_contra hlt
    have : (m + 1) * unit ≤ q * unit := Nat.mul_le_mul_right _ (by omega)
    rw [Nat.succ_mul] at this
    omega
  have hge : m ≤ q + 1 := by
    by_contra hlt
    have : (q + 2) * unit ≤ m * unit := Nat.mul_le_mul_right _ (by omega)
    rw [Nat.add_mul] at this
    omega
  rcases Nat.eq_or_lt_of_le hle with rfl | hlt
  · -- the fraction is at most a half
    rw [if_neg, Nat.add_zero]
    rw [Bool.or_eq_true, Bool.and_eq_true, decide_eq_true_eq, beq_iff_eq, beq_iff_eq]
    rintro (hup | ⟨htie, hodd⟩)
    · omega
    · have := (hs hodd).2
      omega
  · -- the fraction is at least a half
    obtain rfl : m = q + 1 := by omega
    rw [if_pos]
    rw [Nat.add_mul, Nat.one_mul] at hl hh hs
    rw [Bool.or_eq_true, Bool.and_eq_true, decide_eq_true_eq, beq_iff_eq, beq_iff_eq]
    rcases Nat.lt_or_ge unit (r * 2) with hup | htie
    · exact .inl hup
    · refine .inr ⟨by omega, ?_⟩
      by_contra heven
      have := (hs (by omega)).1
      omega

/-! ### Rounding to a format -/

variable {format : BinaryFormat} {bits num den : Nat}

/-- The exponent of two that makes a value have as many bits as a mantissa. -/
theorem log2_add_one_sub {precision value e : Nat} (hp : 0 < precision)
    (hlt : value < twoTo e * (2 * twoTo (precision - 1)))
    (hle : e = 0 ∨ twoTo e * twoTo (precision - 1) ≤ value) :
    value.log2 + 1 - precision = e := by
  have htop : twoTo e * (2 * twoTo (precision - 1)) = 2 ^ (e + precision) := by
    show 2 ^ e * (2 * 2 ^ (precision - 1)) = 2 ^ (e + precision)
    rw [← Nat.pow_succ', ← Nat.pow_add, Nat.succ_eq_add_one, Nat.sub_add_cancel hp]
  have hbottom : twoTo e * twoTo (precision - 1) = 2 ^ (e + precision - 1) := by
    show 2 ^ e * 2 ^ (precision - 1) = 2 ^ (e + precision - 1)
    rw [← Nat.pow_add, Nat.add_sub_assoc hp]
  rw [htop] at hlt
  rw [hbottom] at hle
  rcases Nat.eq_zero_or_pos value with rfl | hpos
  · rcases hle with rfl | hle
    · rw [Nat.log2_zero]
      omega
    · exact absurd hle (Nat.not_le_of_lt (Nat.two_pow_pos _))
  · have hupper := (Nat.log2_lt hpos.ne').mpr hlt
    rcases hle with rfl | hle
    · omega
    · have hlower := (Nat.le_log2 hpos.ne').mpr hle
      omega

/-- A quotient in the interval of a magnitude is at most half a unit away from it, and at most a
quarter below it if the numbers there are closer. -/
theorem bounds_of_holds (h : (Shortest.interval format bits).Holds num den) :
    let m := format.mantissa bits
    let unit := den * twoTo (format.exponent bits)
    let point := num * twoTo format.depth
    2 * (m * unit) ≤ 2 * point + unit ∧ 2 * point ≤ 2 * (m * unit) + unit ∧
      (m % 2 = 1 → 2 * (m * unit) < 2 * point + unit ∧ 2 * point < 2 * (m * unit) + unit) ∧
      (m = format.stride → 1 < format.field bits → 4 * (m * unit) ≤ 4 * point + unit) := by
  obtain ⟨hlow, hhigh, hstrict⟩ := h
  unfold Shortest.interval at hlow hhigh hstrict
  dsimp only at hlow hhigh hstrict ⊢
  generalize format.mantissa bits = m at *
  have hunit (c : Nat) : c * twoTo (format.exponent bits) * den =
      c * (den * twoTo (format.exponent bits)) := by
    rw [Nat.mul_assoc, Nat.mul_comm _ den]
  generalize den * twoTo (format.exponent bits) = unit at *
  rw [Nat.mul_left_comm, hunit, Nat.sub_mul, Nat.mul_assoc] at hlow
  rw [Nat.mul_left_comm, hunit, Nat.add_mul, Nat.mul_assoc] at hhigh
  rw [Nat.mul_left_comm, hunit, hunit, Nat.sub_mul, Nat.add_mul, Nat.mul_assoc] at hstrict
  refine ⟨?_, by omega, fun hodd => ?_, fun hm hf => ?_⟩
  · split_ifs at hlow <;> omega
  · obtain ⟨hl, hh⟩ := hstrict (by simpa using hodd)
    refine ⟨?_, by omega⟩
    split_ifs at hl <;> omega
  · rw [if_pos ⟨hm, hf⟩] at hlow
    omega

/-- The exponent that a quotient is rounded with, from where it lies among the numbers that have that
exponent. -/
theorem log2_div_add_one_sub {point e : Nat} (hp : 0 < format.precision) (hd : 0 < den)
    (htop : point < 2 * format.stride * (den * twoTo e))
    (hbottom : e = 0 ∨ format.stride * (den * twoTo e) ≤ point) :
    (point / den).log2 + 1 - format.precision = e := by
  refine log2_add_one_sub hp (Nat.div_lt_of_lt_mul ?_)
    (hbottom.imp_right fun hle => (Nat.le_div_iff_mul_le hd).mpr ?_)
  · calc point < 2 * format.stride * (den * twoTo e) := htop
      _ = den * (twoTo e * (2 * twoTo (format.precision - 1))) := by
        show 2 * twoTo (format.precision - 1) * (den * twoTo e) = _
        ring
  · calc twoTo e * twoTo (format.precision - 1) * den
        = format.stride * (den * twoTo e) := by
          show _ = twoTo (format.precision - 1) * (den * twoTo e)
          ring
      _ ≤ point := hle

/-- Rounding takes the nearest mantissa for the exponent that the quotient has. -/
theorem round_eq_of_scale {e : Nat}
    (h : (num * twoTo format.depth / den).log2 + 1 - format.precision = e) :
    format.round num den =
      min (e * format.stride + nearest (num * twoTo format.depth) (den * twoTo e))
        format.infinity := by
  unfold round nearest
  dsimp only
  rw [h, Nat.add_assoc]

/-- Right below the least number of an exponent the gaps are half as wide, and what is at most a
quarter of a gap below that number is rounded to it. -/
theorem nearest_of_below {point unit m : Nat} (hm : 0 < m) (hu : 0 < unit)
    (hlt : point < m * (2 * unit)) (hquarter : 4 * (m * (2 * unit)) ≤ 4 * point + 2 * unit) :
    nearest point unit = 2 * m ∧ m * unit ≤ point := by
  have hle : 1 * unit ≤ m * unit := Nat.mul_le_mul_right _ hm
  rw [Nat.mul_left_comm m 2] at hlt hquarter
  refine ⟨nearest_eq hu ?_ ?_ fun hodd => by omega, by omega⟩
  · rw [Nat.mul_assoc]
    omega
  · rw [Nat.mul_assoc]
    omega

/-- A quotient in the interval of a finite magnitude is rounded to that magnitude. -/
theorem round_of_holds (hp : 0 < format.precision) (hd : 0 < den) (hf : bits < format.infinity)
    (h : (Shortest.interval format bits).Holds num den) : format.round num den = bits := by
  obtain ⟨hlow, hhigh, hodd, hclose⟩ := bounds_of_holds h
  have hbits := format.exponent_mul_stride_add_mantissa bits
  have hm := format.mantissa_lt bits
  have hleading := format.stride_le_mantissa bits
  have hfield : format.exponent bits = format.field bits - 1 := rfl
  generalize format.mantissa bits = m at *
  generalize format.exponent bits = e at *
  have hunit : 0 < den * twoTo e := Nat.mul_pos hd (Nat.two_pow_pos e)
  have htop : num * twoTo format.depth < 2 * format.stride * (den * twoTo e) := by
    have : (m + 1) * (den * twoTo e) ≤ 2 * format.stride * (den * twoTo e) :=
      Nat.mul_le_mul_right _ hm
    rw [Nat.succ_mul] at this
    omega
  by_cases hbelow : 0 < e ∧ num * twoTo format.depth < format.stride * (den * twoTo e)
  · -- the quotient has the exponent below, and is rounded up to the next one
    obtain ⟨hpos, hlt⟩ := hbelow
    have hleast : m = format.stride := by
      refine Nat.le_antisymm ?_ (hleading hpos)
      by_contra hgt
      have : (format.stride + 1) * (den * twoTo e) ≤ m * (den * twoTo e) :=
        Nat.mul_le_mul_right _ (by omega)
      rw [Nat.add_mul, Nat.one_mul] at this
      omega
    have hquarter := hclose hleast (by omega)
    obtain ⟨e, rfl⟩ := Nat.exists_eq_succ_of_ne_zero hpos.ne'
    have hhalf : den * twoTo (e + 1) = 2 * (den * twoTo e) := by
      show den * 2 ^ (e + 1) = 2 * (den * 2 ^ e)
      ring
    rw [hhalf] at hlt hquarter
    rw [← hleast] at hlt
    have hunit : 0 < den * twoTo e := Nat.mul_pos hd (Nat.two_pow_pos e)
    obtain ⟨hnext, hle⟩ := nearest_of_below (hleast ▸ format.stride_pos) hunit hlt hquarter
    have hscale := log2_div_add_one_sub hp hd (e := e)
      (by rwa [← hleast, Nat.mul_assoc, ← Nat.mul_left_comm]) (.inr (hleast ▸ hle))
    rw [round_eq_of_scale hscale, hnext]
    rw [Nat.succ_mul, Nat.add_assoc, ← hleast, ← Nat.two_mul] at hbits
    rw [← hleast, hbits]
    exact Nat.min_eq_left hf.le
  · rw [not_and_or, Nat.not_lt, Nat.not_lt, Nat.le_zero] at hbelow
    rw [round_eq_of_scale (log2_div_add_one_sub hp hd htop hbelow), nearest_eq hunit hlow hhigh hodd,
      hbits]
    exact Nat.min_eq_left hf.le

end BinaryFormat

open BinaryFormat (twoTo)
open Decimal (tenTo)

theorem Decimal.tenTo_pos (n : Nat) : 0 < tenTo n := Nat.pow_pos (by decide)

theorem Decimal.tenTo_add (m n : Nat) : tenTo (m + n) = tenTo m * tenTo n := Nat.pow_add 10 m n

/-- Whether 20 digits tell the magnitudes of a format apart, and 400 places before and after the
point are enough for all of them. -/
structure BinaryFormat.IsModerate (format : BinaryFormat) : Prop where
  precision_pos : 0 < format.precision
  distinct : 4 * twoTo format.precision ≤ tenTo 20
  small : 2 * twoTo format.depth < tenTo 400
  large : twoTo (format.precision + twoTo format.exponentBits) ≤ twoTo format.depth * tenTo 400

theorem BinaryFormat.isModerate_single : single.IsModerate := by
  constructor <;> decide +kernel

theorem BinaryFormat.isModerate_double : double.IsModerate := by
  constructor <;> decide +kernel

namespace Shortest

variable {i : Interval} {num den : Nat}

/-! ### Counting digits -/

/-- All smaller powers of ten were tried. -/
theorem mul_tenTo_le_of_lt_ceilLog {fuel n m : Nat} (hn : n ≤ m) (hm : m < ceilLog num den fuel n) :
    den * tenTo m ≤ num := by
  induction fuel generalizing n with
  | zero => exact absurd hm (Nat.not_lt_of_le hn)
  | succ fuel ih =>
    unfold ceilLog at hm
    split_ifs at hm with hlt
    · exact absurd hm (Nat.not_lt_of_le hn)
    · rcases Nat.eq_or_lt_of_le hn with rfl | hn
      · exact Nat.le_of_not_lt hlt
      · exact ih hn hm

/-- The power of ten is large enough if any that may be tried is. -/
theorem lt_mul_tenTo_ceilLog {fuel n : Nat} (h : num < den * tenTo (n + fuel)) :
    num < den * tenTo (ceilLog num den fuel n) := by
  induction fuel generalizing n with
  | zero => exact h
  | succ fuel ih =>
    unfold ceilLog
    split_ifs with hlt
    · exact hlt
    · exact ih (by rwa [Nat.add_assoc, Nat.add_comm 1])

/-! ### The search -/

/-- Whether the decimal `n * 10 ^ k / 10 ^ d` lies in the interval. -/
def Interval.HoldsDecimal (i : Interval) : Nat × Nat × Nat → Prop
  | (n, k, d) => i.Holds (n * tenTo k) (tenTo d)

/-- The last decimal that is tried, with so many digits in all, lies in the interval if what it
leaves out is less than the distance of the value from the low end. -/
theorem holdsDecimal_of_le {top all : Nat} (hd : 0 < i.den) (hv : i.value < i.high)
    (h : i.den * tenTo top + i.low * tenTo all ≤ i.value * tenTo all) :
    i.HoldsDecimal (i.value * tenTo all / (i.den * tenTo top), top, all) := by
  have hstep : 0 < i.den * tenTo top := Nat.mul_pos hd (Decimal.tenTo_pos top)
  have hpoint : i.value * tenTo all / (i.den * tenTo top) * tenTo top * i.den =
      i.value * tenTo all / (i.den * tenTo top) * (i.den * tenTo top) := by
    rw [Nat.mul_assoc, Nat.mul_comm (tenTo top)]
  have hle := Nat.div_mul_le_self (i.value * tenTo all) (i.den * tenTo top)
  have hlt := Nat.lt_div_mul_add hstep (a := i.value * tenTo all)
  have hhigh : i.value * tenTo all < i.high * tenTo all :=
    Nat.mul_lt_mul_of_pos_right hv (Decimal.tenTo_pos all)
  have hbounds : i.low * tenTo all <
      i.value * tenTo all / (i.den * tenTo top) * tenTo top * i.den ∧
      i.value * tenTo all / (i.den * tenTo top) * tenTo top * i.den < i.high * tenTo all := by
    rw [hpoint]
    omega
  exact ⟨hbounds.1.le, hbounds.2.le, fun _ => hbounds⟩

/-- The search finds a decimal in the interval if the last one that it may try is there. -/
theorem holdsDecimal_search {top bottom fuel count all : Nat} (ha : bottom + (count + fuel) = all)
    (h : i.HoldsDecimal (i.value * tenTo all / (i.den * tenTo top), top, all)) :
    i.HoldsDecimal (search i top bottom fuel count) := by
  induction fuel generalizing count with
  | zero =>
    obtain rfl := ha
    exact h
  | succ fuel ih =>
    unfold search
    extract_lets k d unit point down isExact up fitsDown fitsUp
    split_ifs with hup hdown
    · rw [Bool.and_eq_true] at hup
      exact Interval.holds_of_contains hup.1
    · exact Interval.holds_of_contains hdown
    · exact ih (by omega)

/-! ### Magnitudes -/

section Magnitudes

variable {format : BinaryFormat} {bits : Nat}

theorem mantissa_pos (hb : 0 < bits) : 0 < format.mantissa bits := by
  have hpos := format.stride_pos
  unfold BinaryFormat.mantissa
  split_ifs
  · exact hb
  · omega

theorem den_pos : 0 < (interval format bits).den := Nat.mul_pos (by decide) (Nat.two_pow_pos _)

theorem value_lt_high : (interval format bits).value < (interval format bits).high :=
  Nat.mul_lt_mul_of_pos_right (Nat.lt_add_of_pos_right (by decide)) (Nat.two_pow_pos _)

/-- The distance of a magnitude from the low end of its interval is more than one part in `10 ^ 20`
of it. -/
theorem value_add_le (hm : format.IsModerate) (hb : 0 < bits) :
    (interval format bits).value + tenTo 20 * (interval format bits).low ≤
      tenTo 20 * (interval format bits).value := by
  have hpos : 0 < format.mantissa bits := mantissa_pos hb
  have hlt := format.mantissa_lt bits
  have hstride : 4 * twoTo format.precision = 4 * (2 * format.stride) := by
    show 4 * 2 ^ format.precision = 4 * (2 * 2 ^ (format.precision - 1))
    rw [← Nat.pow_succ', Nat.succ_eq_add_one, Nat.sub_add_cancel hm.precision_pos]
  have hdistinct := hm.distinct
  unfold interval
  dsimp only
  generalize format.mantissa bits = m at *
  generalize twoTo (format.exponent bits) = scale
  have hgap : (4 * m - if m = format.stride ∧ 1 < format.field bits then 1 else 2) * scale + scale ≤
      4 * m * scale := by
    rw [← Nat.succ_mul]
    refine Nat.mul_le_mul_right _ ?_
    split_ifs <;> omega
  have hsize : 4 * m * scale ≤ tenTo 20 * scale := Nat.mul_le_mul_right _ (by omega)
  calc _ ≤ tenTo 20 * scale + tenTo 20 * _ := Nat.add_le_add_right hsize _
    _ = tenTo 20 * (_ + scale) := by rw [← Nat.mul_add, Nat.add_comm]
    _ ≤ _ := Nat.mul_le_mul_left _ hgap

theorem den_lt_mul (hm : format.IsModerate) (hb : 0 < bits) :
    (interval format bits).den < (interval format bits).value * tenTo 400 := by
  have hpos : 0 < format.mantissa bits := mantissa_pos hb
  have hsmall := hm.small
  have hvalue : 4 ≤ (interval format bits).value := by
    have : 4 * 1 * 1 ≤ 4 * format.mantissa bits * twoTo (format.exponent bits) :=
      Nat.mul_le_mul (Nat.mul_le_mul_left _ hpos) (Nat.two_pow_pos _)
    exact this
  calc 4 * twoTo format.depth < 4 * tenTo 400 := by omega
    _ ≤ _ := Nat.mul_le_mul_right _ hvalue

/-- The decimal that is found lies in the interval of the magnitude. -/
theorem holdsDecimal_digits (hm : format.IsModerate) (hb : 0 < bits) :
    (interval format bits).HoldsDecimal (digits format bits) := by
  have hgap := value_add_le hm hb
  have hd : 0 < (interval format bits).den := den_pos
  have hv : (interval format bits).value < (interval format bits).high := value_lt_high
  have hdeep := den_lt_mul hm hb
  unfold digits
  generalize interval format bits = i at *
  dsimp only
  have hten : tenTo 21 = 10 * tenTo 20 := by decide
  split_ifs with hwhole
  · refine holdsDecimal_search rfl (holdsDecimal_of_le hd hv ?_)
    -- all smaller powers of ten are at most the value
    have htop : i.den * tenTo (ceilLog i.value i.den 400 0) ≤ 10 * i.value := by
      cases hlog : ceilLog i.value i.den 400 0 with
      | zero =>
        show i.den * 1 ≤ 10 * i.value
        omega
      | succ n =>
        have hle := mul_tenTo_le_of_lt_ceilLog (Nat.zero_le n) (Nat.lt_of_succ_le hlog.ge)
        calc i.den * 10 ^ (n + 1) = 10 * (i.den * tenTo n) := by
              rw [Nat.pow_succ', Nat.mul_left_comm]
              rfl
          _ ≤ 10 * i.value := Nat.mul_le_mul_left _ hle
    rw [show 0 + (1 + 20) = 21 from rfl, hten]
    linarith
  · generalize hbottom : ceilLog i.den i.value 400 0 - 1 = bottom
    refine holdsDecimal_search rfl (holdsDecimal_of_le hd hv ?_)
    have hfirst : i.den ≤ i.value * (tenTo bottom * 10) := by
      have hlt := @lt_mul_tenTo_ceilLog i.den i.value 400 0 (Nat.zero_add 400 ▸ hdeep)
      have hle : tenTo (ceilLog i.den i.value 400 0) ≤ tenTo (bottom + 1) :=
        Nat.pow_le_pow_right (by decide) (by omega)
      exact hlt.le.trans (Nat.mul_le_mul_left _ hle)
    rw [show bottom + (1 + 20) = bottom + 21 from rfl, Decimal.tenTo_add, hten]
    show i.den * 1 + _ ≤ _
    have := Nat.mul_le_mul_left (10 * tenTo bottom) hgap
    linarith

end Magnitudes

end Shortest

end ClassGraft
