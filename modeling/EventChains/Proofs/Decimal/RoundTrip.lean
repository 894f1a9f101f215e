import EventChains.Proofs.Binary64.Nearest
import EventChains.Proofs.Decimal.Numeral

/-!
# Reading what a layout writes

The text of a finite number is read back as the number, in every layout and with the sign of a zero
(`read?_text`): the shortest decimal lies in the rounding interval of the number, the text is worth
that decimal, and reading rounds to the nearest number.
-/

namespace EventChains.Decimal

open EventChains.Binary64 Float.Model Float.Model.UnpackedFloat

variable {x y : Float} {d : Decimal}

/-- The decimal that a layout writes for a finite number without its sign. -/
def Layout.decimalOf (form : Layout) (x : Float) : Decimal :=
  let magnitude := Magnitude.ofBits x.toBits
  if magnitude.m = 0 then ⟨0, 0⟩ else magnitude.shortest form.tie

theorem eq_of_unpack (h : x.toModel.unpack = y.toModel.unpack) : x = y := by
  rw [← pack_unpack x, h, pack_unpack]

/-- A number in a rounding interval is not zero. -/
theorem pos_of_holds {m : Magnitude} {w : ℚ} (canonical : Canonical m) (hw : m.Holds w) :
    0 < w := by
  have hone : (1 : ℚ) ≤ m.m := by exact_mod_cast canonical.pos
  have hnear := (near_of_holds canonical.pos hw).1
  rw [le_div_iff₀ (by positivity)] at hnear
  refine lt_of_lt_of_le (mul_pos (by linarith) (by positivity)) hnear

theorem digits_pos_of_worth_pos (h : 0 < d.worth) : 0 < d.digits := by
  refine Nat.pos_of_ne_zero fun hzero => h.ne' ?_
  rw [worth, hzero, Nat.cast_zero, zero_mul]

theorem unpack_pack_zero {result : UnpackedFloat} (h : result = .zero .positive) :
    (Float.Model.pack result).unpack = .zero .positive := by
  rw [h]
  exact unpack_packedZero

/-- No digits are read as the positive zero. -/
theorem unpack_ofDigits_zero (e : Int) : (ofDigits 0 e).toModel.unpack = .zero .positive := by
  have hzero : (Nat.toUInt64 0).toFloat.toModel.unpack = .zero .positive := by rfl
  rw [ofDigits, Float.ofScientific]
  split
  · rename_i hshort
    obtain ⟨z, hz, -, hten⟩ := unpack_powerOfTen (Nat.lt_succ_of_le hshort.2)
    dsimp only
    split
    · exact unpack_pack_zero (congrArg₂ (UnpackedFloat.div .binary64) hzero hten)
    · exact unpack_pack_zero (congrArg₂ (UnpackedFloat.mul .binary64) hzero hten)
  · exact unpack_pack_zero rfl

/-- A decimal with the worth of what a layout writes is read as the number without its sign. -/
theorem unpack_ofDigits_of_worth (form : Layout) (h : x.isFinite = true)
    (hworth : d.worth = (form.decimalOf x).worth) :
    (signOf x.toBits = .positive →
      (ofDigits d.digits d.exponent).toModel.unpack = x.toModel.unpack) ∧
    (signOf x.toBits = .negative →
      (ofDigits d.digits d.exponent).toModel.unpack.neg = x.toModel.unpack) := by
  obtain ⟨hzero, hunpack⟩ | ⟨canonical, hpos, hunpack⟩ := unpack_cases x.toBits h
  · have hunpack : x.toModel.unpack = .zero (signOf x.toBits) := hunpack
    have hdigits : d.digits = 0 := by
      rw [Layout.decimalOf, if_pos hzero, worth, worth, Nat.cast_zero, zero_mul,
        mul_eq_zero] at hworth
      exact_mod_cast hworth.resolve_right (zpow_ne_zero _ (by decide))
    rw [hdigits, unpack_ofDigits_zero, hunpack]
    refine ⟨fun hsign => ?_, fun hsign => ?_⟩
    · rw [hsign]
    · rw [hsign]
      rfl
  · have hunpack : x.toModel.unpack = .finite (signOf x.toBits) _ _ hpos := hunpack
    rw [Layout.decimalOf, if_neg canonical.pos.ne'] at hworth
    have hholds := Magnitude.holds_shortest canonical.pos form.tie
    rw [← hworth] at hholds
    have hdigits := digits_pos_of_worth_pos (pos_of_holds canonical hholds)
    rw [unpack_ofDigits canonical hdigits hholds, hunpack]
    refine ⟨fun hsign => ?_, fun hsign => ?_⟩
    · rw [hsign]
    · rw [hsign]
      rfl

/-- The text of a finite number: its sign and the digits of its decimal. -/
theorem text_of_isFinite (form : Layout) (h : x.isFinite = true) :
    (form.text x).toList = (if 0x8000000000000000 ≤ x.toBits then ['-'] else []) ++
      form.decimalText (form.decimalOf x) := by
  rw [Layout.text, if_pos h]
  exact String.toList_ofList

/-- The decimal of a number has no digits only for zero. -/
theorem exponent_decimalOf (form : Layout) (h : x.isFinite = true) :
    (form.decimalOf x).digits = 0 → (form.decimalOf x).exponent = 0 := by
  rw [Layout.decimalOf]
  obtain ⟨hzero, -⟩ | ⟨canonical, -, -⟩ := unpack_cases x.toBits h
  · rw [if_pos hzero]
    exact fun _ => rfl
  · rw [if_neg canonical.pos.ne']
    intro hdigits
    have hpos := pos_of_holds canonical (Magnitude.holds_shortest canonical.pos form.tie)
    exact absurd hdigits (digits_pos_of_worth_pos hpos).ne'

/-- What a layout writes for a finite number is read back as the number. -/
theorem read?_text (form : Layout) (h : x.isFinite = true) :
    read? (form.text x).toList = some x := by
  obtain ⟨n, hwell, htext, hworth, -⟩ := exists_numeral form (exponent_decimalOf form h)
  obtain ⟨hpositive, hnegative⟩ := unpack_ofDigits_of_worth form h hworth
  rw [text_of_isFinite form h, htext]
  rw [signOf] at hpositive hnegative
  split
  · rename_i hsign
    rw [if_pos hsign] at hnegative
    have hneg : -ofDigits n.value.digits n.value.exponent = x := by
      rw [← pack_unpack x, ← hnegative rfl]
      rfl
    rw [List.singleton_append, read?, Numeral.readUnsigned?_text hwell, Option.map_some, hneg]
  · rename_i hsign
    rw [if_neg hsign] at hpositive
    rw [List.nil_append, Numeral.read?_text hwell, eq_of_unpack (hpositive rfl)]

end EventChains.Decimal
