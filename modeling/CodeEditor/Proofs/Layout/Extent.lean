import CodeEditor.Layout.Extent
import Mathlib.Data.Int.Order.Basic
import Mathlib.Data.Prod.Lex

/-!
# The order of extents

Any two extents that are defined compare, and an undefined one compares with nothing. So an extent
that is clamped between two others lies between them, and clamping it again changes nothing. Of the
extents that compare as equal, only the two zeros have different bits.
-/

namespace CodeEditor.Extent

open Float.Model

/-! ## Unpacked numbers -/

/-- Finite numbers of one sign compare by exponent and then by mantissa. -/
theorem compare_then_swap (m m' : Nat) (e e' : Int) :
    (compare e' e).then (compare m' m) = ((compare e e').then (compare m m')).swap := by
  rw [Ordering.swap_then, ← Std.OrientedOrd.eq_swap, ← Std.OrientedOrd.eq_swap]

theorem compare_swap (a b : UnpackedFloat) : b.compare a = (a.compare b).map Ordering.swap := by
  rcases a with (_ | _) | _ | (_ | _) | ⟨_ | _, m, e, hm⟩ <;>
    rcases b with (_ | _) | _ | (_ | _) | ⟨_ | _, m', e', hm'⟩ <;> try rfl
  · exact congrArg (some ·.swap) (compare_then_swap m m' e e')
  · exact congrArg some (compare_then_swap m m' e e')

theorem compare_eq_none_iff {a b : UnpackedFloat} :
    a.compare b = none ↔ a.isNaN = true ∨ b.isNaN = true := by
  constructor
  · intro h
    rcases a with (_ | _) | _ | (_ | _) | ⟨_ | _, m, e, hm⟩ <;>
      rcases b with (_ | _) | _ | (_ | _) | ⟨_ | _, m', e', hm'⟩ <;>
        first | exact Or.inl rfl | exact Or.inr rfl | nomatch h
  · rintro (h | h)
    · cases a <;> first | rfl | nomatch h
    · rcases a with (_ | _) | _ | (_ | _) | ⟨_ | _, m, e, hm⟩ <;>
        cases b <;> first | rfl | nomatch h

theorem compare_self {a : UnpackedFloat} (h : a.isNaN = false) : a.compare a = some .eq := by
  have hswap := compare_swap a a
  cases hcompare : a.compare a with
  | none =>
    rw [compare_eq_none_iff, h] at hcompare
    simp at hcompare
  | some order =>
    rw [hcompare] at hswap
    cases order <;> simp_all

theorem eq_of_compare_then {m m' : Nat} {e e' : Int}
    (h : (compare e e').then (compare m m') = .eq) : m = m' ∧ e = e' := by
  obtain ⟨hexponent, hmantissa⟩ := Ordering.then_eq_eq.mp h
  exact ⟨Std.LawfulEqOrd.eq_of_compare hmantissa, Std.LawfulEqOrd.eq_of_compare hexponent⟩

/-- Equal numbers are the same, or zeros. -/
theorem eq_or_zero_of_compare {a b : UnpackedFloat} (h : a.compare b = some .eq) :
    a = b ∨ ∃ sign sign', a = .zero sign ∧ b = .zero sign' := by
  rcases a with (_ | _) | _ | (_ | _) | ⟨_ | _, m, e, hm⟩ <;>
    rcases b with (_ | _) | _ | (_ | _) | ⟨_ | _, m', e', hm'⟩ <;>
      try first | exact Or.inl rfl | exact Or.inr ⟨_, _, rfl, rfl⟩ | cases h
  · have hswap := (compare_then_swap m m' e e').trans (Option.some.inj h)
    obtain ⟨rfl, rfl⟩ := eq_of_compare_then hswap
    exact Or.inl rfl
  · obtain ⟨rfl, rfl⟩ := eq_of_compare_then (Option.some.inj h)
    exact Or.inl rfl

/-- Equal numbers compare alike with every other. -/
theorem compare_congr {a b : UnpackedFloat} (h : a.compare b = some .eq) (c : UnpackedFloat) :
    a.compare c = b.compare c := by
  obtain rfl | ⟨sign, sign', rfl, rfl⟩ := eq_or_zero_of_compare h
  · rfl
  · rcases c with (_ | _) | _ | _ | ⟨_ | _, m, e, hm⟩ <;> rfl

/-- Where a number stands among all that are defined: first by its kind, then, if it is finite, by
its exponent and its mantissa. -/
def rank : UnpackedFloat → Int ×ₗ Int ×ₗ Int
  | .infinity .negative => toLex (-2, toLex (0, 0))
  | .finite .negative m e _ => toLex (-1, toLex (-e, -m))
  | .finite .positive m e _ => toLex (1, toLex (e, m))
  | .infinity .positive => toLex (2, toLex (0, 0))
  | .zero _ | .notANumber => toLex (0, toLex (0, 0))

theorem isLE_compare_then {m m' : Nat} {e e' : Int} :
    ((compare e e').then (compare m m')).isLE = true ↔ e < e' ∨ e = e' ∧ m ≤ m' := by
  rw [Ordering.isLE_then_iff_or, compare_lt_iff_lt, compare_eq_iff_eq, Std.isLE_compare]

theorem isLE_compare_iff {a b : UnpackedFloat} (ha : a.isNaN = false) (hb : b.isNaN = false) :
    (a.compare b).any (·.isLE) = true ↔ rank a ≤ rank b := by
  rcases a with (_ | _) | _ | _ | ⟨_ | _, m, e, hm⟩ <;>
    rcases b with (_ | _) | _ | _ | ⟨_ | _, m', e', hm'⟩ <;>
      first | exact absurd ha (by decide) | exact absurd hb (by decide) | skip
  case finite.negative.finite.negative =>
    change ((compare e e').then (compare m m')).swap.isLE = true ↔ _
    rw [← compare_then_swap, isLE_compare_then]
    dsimp only [rank]
    simp [Prod.Lex.toLex_le_toLex, eq_comm]
  case finite.positive.finite.positive =>
    change ((compare e e').then (compare m m')).isLE = true ↔ _
    rw [isLE_compare_then]
    dsimp only [rank]
    simp [Prod.Lex.toLex_le_toLex]
  -- Numbers of different kinds compare by their kinds alone.
  all_goals
    dsimp only [UnpackedFloat.compare, rank]
    simp +decide [Prod.Lex.toLex_le_toLex]

/-! ## Bits -/

/-- The bits of a number that is defined, read as a number. A leading one of the mantissa carries
over into the exponent. -/
def bits : UnpackedFloat → Int
  | .infinity sign => sign.toBitVec.toNat * 0x80000000 + 0x7f800000
  | .finite sign m e _ => sign.toBitVec.toNat * 0x80000000 + (e + 149) * 0x800000 + m
  | .zero sign => sign.toBitVec.toNat * 0x80000000
  | .notANumber => 0

theorem toBitVec_ofBitVec (b : BitVec 1) : (UnpackedFloat.Sign.ofBitVec b).toBitVec = b := by
  decide +revert

theorem toNat_append_one (m : BitVec 23) : (1#1 ++ m).toNat = 0x800000 + m.toNat := by
  rw [BitVec.toNat_append, ← Nat.shiftLeft_add_eq_or_of_lt m.isLt]
  rfl

theorem toNat_eq_fields (b : BitVec Format.binary32.numBits) :
    b.toNat = (UnpackedFloat.unpackSign b).toNat * 0x80000000 +
      (UnpackedFloat.unpackExponent b).toNat * 0x800000 +
        (UnpackedFloat.unpackMantissa b).toNat := by
  have hlt : b.toNat < 0x100000000 := b.isLt
  change b.toNat = (b.toNat >>> 31) % 2 * 0x80000000 + (b.toNat >>> 23) % 0x100 * 0x800000 +
    (b.toNat >>> 0) % 0x800000
  simp only [Nat.shiftRight_eq_div_pow]
  omega

/-- Nothing but an undefined number loses bits when it is unpacked. -/
theorem bits_unpack {b : BitVec Format.binary32.numBits}
    (h : (UnpackedFloat.unpack .binary32 b).isNaN = false) :
    bits (UnpackedFloat.unpack .binary32 b) = b.toNat := by
  have hsign := congrArg BitVec.toNat (toBitVec_ofBitVec (UnpackedFloat.unpackSign b))
  have hbias : Format.binary32.exponentBias = 127 := rfl
  rw [toNat_eq_fields]
  delta UnpackedFloat.unpack at h ⊢
  dsimp only at h ⊢
  by_cases hones : UnpackedFloat.unpackExponent b = -1#_
  · by_cases hzero : UnpackedFloat.unpackMantissa b = 0#_
    · have hexponent : (UnpackedFloat.unpackExponent b).toNat = 255 := congrArg BitVec.toNat hones
      have hmantissa : (UnpackedFloat.unpackMantissa b).toNat = 0 := congrArg BitVec.toNat hzero
      rw [if_pos hones, if_pos hzero]
      dsimp only [bits]
      omega
    · rw [if_pos hones, if_neg hzero] at h
      nomatch h
  · rw [if_neg hones]
    by_cases hleast : UnpackedFloat.unpackExponent b = 0#_
    · have hexponent : (UnpackedFloat.unpackExponent b).toNat = 0 := congrArg BitVec.toNat hleast
      rw [if_pos hleast]
      by_cases hzero : UnpackedFloat.unpackMantissa b = 0#_
      · have hmantissa : (UnpackedFloat.unpackMantissa b).toNat = 0 := congrArg BitVec.toNat hzero
        rw [dif_pos hzero]
        dsimp only [bits]
        omega
      · rw [dif_neg hzero]
        dsimp only [bits]
        omega
    · rw [if_neg hleast]
      dsimp only [bits]
      rw [toNat_append_one]
      omega

/-! ## Comparisons -/

variable {a b c low high x : Extent}

/-- How two extents compare, if both are defined. -/
def order (a b : Extent) : Option Ordering := a.toModel.unpack.compare b.toModel.unpack

theorem order_swap (a b : Extent) : order b a = (order a b).map Ordering.swap :=
  compare_swap _ _

theorem order_eq_none_iff : order a b = none ↔ a.isNaN = true ∨ b.isNaN = true :=
  compare_eq_none_iff

theorem order_self (h : a.isNaN = false) : order a a = some .eq := compare_self h

theorem lt_iff : a < b ↔ order a b = some .lt := by
  change Float32.lt a b = true ↔ _
  unfold Float32.lt
  rw [decide_eq_true_iff]
  exact beq_iff_eq

theorem le_iff_isLE : a ≤ b ↔ (order a b).any (·.isLE) = true := by
  change Float32.le a b = true ↔ _
  unfold Float32.le
  rw [decide_eq_true_iff]
  rfl

theorem le_iff : a ≤ b ↔ order a b = some .lt ∨ order a b = some .eq := by
  rw [le_iff_isLE]
  cases order a b with
  | none => simp
  | some ordering => cases ordering <;> simp

theorem beq_iff : (a == b) = true ↔ order a b = some .eq := by
  change (order a b == some Ordering.eq) = true ↔ _
  exact beq_iff_eq

/-- Extents that compare are defined. -/
theorem defined_of_order {ordering : Ordering} (h : order a b = some ordering) :
    a.isNaN = false ∧ b.isNaN = false := by
  rw [← Bool.not_eq_true, ← Bool.not_eq_true, ← not_or, ← order_eq_none_iff, h]
  exact nofun

theorem defined_of_lt (h : a < b) : a.isNaN = false ∧ b.isNaN = false :=
  defined_of_order (lt_iff.mp h)

theorem defined_of_le (h : a ≤ b) : a.isNaN = false ∧ b.isNaN = false :=
  (le_iff.mp h).elim defined_of_order defined_of_order

theorem eq_of_unpack (ha : a.isNaN = false) (hb : b.isNaN = false)
    (h : a.toModel.unpack = b.toModel.unpack) : a = b := by
  obtain ⟨⟨bitsA, validA⟩⟩ := a
  obtain ⟨⟨bitsB, validB⟩⟩ := b
  have hbitsA := bits_unpack (b := bitsA.toBitVec) ha
  have hbitsB := bits_unpack (b := bitsB.toBitVec) hb
  have hsame : (bitsA.toNat : Int) = bitsB.toNat :=
    hbitsA.symm.trans ((congrArg bits h).trans hbitsB)
  obtain rfl := UInt32.toNat_inj.mp (Int.ofNat_inj.mp hsame)
  rfl

/-- A positive extent compares as equal with itself only. -/
theorem beq_iff_eq_of_pos (h : 0 < a) : (a == b) = true ↔ a = b := by
  obtain ⟨-, ha⟩ := defined_of_lt h
  rw [beq_iff]
  constructor
  · intro hequal
    obtain ⟨-, hb⟩ := defined_of_order hequal
    obtain hsame | ⟨sign, sign', hzero, -⟩ := eq_or_zero_of_compare hequal
    · exact eq_of_unpack ha hb hsame
    · -- One zero is not less than another one.
      have hless : order 0 a = some .lt := lt_iff.mp h
      unfold order at hless
      rw [hzero] at hless
      nomatch hless
  · rintro rfl
    exact order_self ha

theorem le_self (h : a.isNaN = false) : a ≤ a := le_iff.mpr (Or.inr (order_self h))

theorem le_of_not_lt (ha : a.isNaN = false) (hb : b.isNaN = false) (h : ¬a < b) : b ≤ a := by
  rw [lt_iff] at h
  rw [le_iff, order_swap a b]
  cases horder : order a b with
  | none =>
    rw [order_eq_none_iff, ha, hb] at horder
    simp at horder
  | some ordering => cases ordering <;> simp_all

theorem lt_of_not_le (ha : a.isNaN = false) (hb : b.isNaN = false) (h : ¬a ≤ b) : b < a := by
  by_contra hnot
  exact h (le_of_not_lt hb ha hnot)

theorem le_iff_rank (ha : a.isNaN = false) (hb : b.isNaN = false) :
    a ≤ b ↔ rank a.toModel.unpack ≤ rank b.toModel.unpack := by
  rw [le_iff_isLE]
  exact isLE_compare_iff ha hb

theorem le_trans (hab : a ≤ b) (hbc : b ≤ c) : a ≤ c := by
  obtain ⟨ha, hb⟩ := defined_of_le hab
  obtain ⟨-, hc⟩ := defined_of_le hbc
  rw [le_iff_rank ha hb] at hab
  rw [le_iff_rank hb hc] at hbc
  exact (le_iff_rank ha hc).mpr (hab.trans hbc)

theorem not_lt_of_le (h : a ≤ b) : ¬b < a := by
  rw [le_iff] at h
  rw [lt_iff, order_swap a b]
  rcases h with h | h <;> simp [h]

theorem not_le_of_lt (h : a < b) : ¬b ≤ a := fun hle ↦ not_lt_of_le hle h

theorem lt_of_lt_of_le (hab : a < b) (hbc : b ≤ c) : a < c := by
  obtain ⟨ha, -⟩ := defined_of_lt hab
  obtain ⟨-, hc⟩ := defined_of_le hbc
  refine lt_of_not_le hc ha fun hca ↦ ?_
  exact not_le_of_lt hab (le_trans hbc hca)

theorem le_of_beq_of_le (h : (a == b) = true) (hle : a ≤ x) : b ≤ x := by
  have hsame : order a x = order b x := compare_congr (beq_iff.mp h) x.toModel.unpack
  rwa [le_iff, ← hsame, ← le_iff]

theorem le_of_le_of_beq (hle : x ≤ a) (h : (a == b) = true) : x ≤ b := by
  have hsame : order a x = order b x := compare_congr (beq_iff.mp h) x.toModel.unpack
  rwa [le_iff, order_swap b x, ← hsame, ← order_swap, ← le_iff]

theorem not_beq_of_lt (h : a < b) : (a == b) = false := by
  rw [← Bool.not_eq_true, beq_iff, lt_iff.mp h]
  exact nofun

theorem not_beq_of_gt (h : b < a) : (a == b) = false := by
  rw [← Bool.not_eq_true, beq_iff, order_swap b a, lt_iff.mp h]
  exact nofun

/-- A sum is undefined if its first part is. -/
theorem defined_of_add (h : (a + b).isNaN = false) : a.isNaN = false := by
  cases hundefined : a.isNaN with
  | false => rfl
  | true =>
    have hunpack : a.toModel.unpack = .notANumber := by
      change a.toModel.unpack.isNaN = true at hundefined
      cases hcases : a.toModel.unpack with
      | notANumber => rfl
      | _ => rw [hcases] at hundefined; nomatch hundefined
    change (Float32.Model.pack
      (UnpackedFloat.add .binary32 a.toModel.unpack b.toModel.unpack)).unpack.isNaN = false at h
    rw [hunpack] at h
    change (Float32.Model.pack .notANumber).unpack.isNaN = false at h
    revert h
    decide +kernel

/-! ## Bounds -/

theorem zero_le_max (a : Extent) : 0 ≤ max a 0 := by
  have hzero : (0 : Extent).isNaN = false := by decide +kernel
  unfold max
  rw [hzero, if_neg Bool.false_ne_true]
  split
  · exact le_self hzero
  · rename_i ha
    split
    · exact le_self hzero
    · rename_i hlt
      exact le_of_not_lt (Bool.not_eq_true _ ▸ ha) hzero hlt

theorem defined_min (a : Extent) (hb : b.isNaN = false) : (min a b).isNaN = false := by
  unfold min
  rw [hb, if_neg Bool.false_ne_true]
  split
  · exact hb
  · rename_i ha
    split
    · exact hb
    · exact Bool.not_eq_true _ ▸ ha

/-- A clamped extent lies within its bounds. -/
theorem clamp_within (h : low ≤ high) (hx : x.isNaN = false) :
    low ≤ clamp low high x ∧ clamp low high x ≤ high := by
  obtain ⟨hlow, hhigh⟩ := defined_of_le h
  unfold clamp
  split
  · exact ⟨le_self hlow, h⟩
  · rename_i hnotLow
    split
    · exact ⟨h, le_self hhigh⟩
    · rename_i hnotHigh
      exact ⟨le_of_not_lt hx hlow hnotLow, le_of_not_lt hhigh hx hnotHigh⟩

theorem clamp_of_within (hlow : low ≤ x) (hhigh : x ≤ high) : clamp low high x = x := by
  unfold clamp
  rw [if_neg (not_lt_of_le hlow), if_neg (not_lt_of_le hhigh)]

/-- Clamping an extent changes it exactly if it lies outside of the bounds. -/
theorem clamp_beq_iff (h : low ≤ high) (hx : x.isNaN = false) :
    (clamp low high x == x) = true ↔ low ≤ x ∧ x ≤ high := by
  constructor
  · intro hsame
    have hwithin := clamp_within h hx
    unfold clamp at hsame hwithin
    split at hsame
    · rename_i hlow
      rw [not_beq_of_gt hlow] at hsame
      nomatch hsame
    · split at hsame
      · rename_i hhigh
        rw [not_beq_of_lt hhigh] at hsame
        nomatch hsame
      · rename_i hnotLow hnotHigh
        rwa [if_neg hnotLow, if_neg hnotHigh] at hwithin
  · rintro ⟨hlow, hhigh⟩
    rw [clamp_of_within hlow hhigh, beq_iff]
    exact order_self hx

end CodeEditor.Extent
