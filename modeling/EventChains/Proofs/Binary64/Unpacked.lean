import EventChains.Decimal.Shortest
import Mathlib

/-!
# The parts of a binary64 number

A finite binary64 number other than zero is a sign and a magnitude, which its bits give
(`unpack_cases`). Magnitudes of numbers are `Canonical`, and a canonical magnitude is unpacked as it
was packed (`unpack_pack`).
-/

namespace EventChains.Binary64

open EventChains.Decimal Float.Model Float.Model.UnpackedFloat

/-- The magnitudes of binary64 numbers other than zero: the significand has 53 bits, or fewer under
the least exponent. -/
structure Canonical (x : Magnitude) : Prop where
  pos : 0 < x.m
  lt : x.m < 2 ^ 53
  least : -1074 ≤ x.q
  greatest : x.q ≤ 971
  full : 2 ^ 52 ≤ x.m ∨ x.q = -1074
  narrow : x.narrowBelow = true ↔ x.m = 2 ^ 52 ∧ x.q ≠ -1074

/-- The sign in the bits of a number. -/
def signOf (bits : UInt64) : Sign :=
  if 0x8000000000000000 ≤ bits then .negative else .positive

variable (bits : UInt64)

theorem toNat_unpackMantissa :
    (@unpackMantissa Format.binary64 bits.toBitVec).toNat = bits.toNat % 2 ^ 52 := by
  rw [unpackMantissa_def, BitVec.extractLsb'_toNat, Nat.shiftRight_zero, UInt64.toNat_toBitVec]

theorem toNat_unpackExponent :
    (@unpackExponent Format.binary64 bits.toBitVec).toNat = bits.toNat / 2 ^ 52 % 2 ^ 11 := by
  rw [unpackExponent_def, BitVec.extractLsb'_toNat, Nat.shiftRight_eq_div_pow,
    UInt64.toNat_toBitVec]

theorem toNat_unpackSign :
    (@unpackSign Format.binary64 bits.toBitVec).toNat = bits.toNat / 2 ^ 63 := by
  have hlt := bits.toNat_lt
  rw [unpackSign_def, BitVec.extractLsb'_toNat, Nat.shiftRight_eq_div_pow, UInt64.toNat_toBitVec]
  show bits.toNat / 2 ^ 63 % 2 = _
  omega

theorem ofBitVec_unpackSign :
    Sign.ofBitVec (@unpackSign Format.binary64 bits.toBitVec) = signOf bits := by
  have hlt := bits.toNat_lt
  have hsign := toNat_unpackSign bits
  rw [Sign.ofBitVec, signOf]
  split
  · rename_i hzero
    rw [hzero] at hsign
    rw [if_neg]
    rw [UInt64.le_iff_toNat_le]
    change 0 = _ at hsign
    change ¬ 2 ^ 63 ≤ _
    omega
  · rename_i hone
    rw [if_pos]
    rw [UInt64.le_iff_toNat_le]
    change 2 ^ 63 ≤ _
    by_contra hlow
    exact hone (BitVec.eq_of_toNat_eq (hsign.trans (Nat.div_eq_of_lt (by omega))))

/-- A fraction under the least exponent is a canonical magnitude. -/
theorem canonical_fraction {fraction : Nat} (hpos : 0 < fraction) (hlt : fraction < 2 ^ 52) :
    Canonical ⟨fraction, -1074, false⟩ where
  pos := hpos
  lt := Nat.lt_trans hlt (by decide)
  least := le_refl (-1074)
  greatest := show (-1074 : Int) ≤ 971 by decide
  full := Or.inr rfl
  narrow := by simp

/-- A fraction with the hidden bit is a canonical magnitude. -/
theorem canonical_hidden {fraction exponent : Nat} (hlt : fraction < 2 ^ 52)
    (hpos : 0 < exponent) (htop : exponent < 2047) :
    Canonical ⟨2 ^ 52 + fraction, exponent - 1075, fraction = 0 && exponent ≠ 1⟩ where
  pos := Nat.add_pos_left (by decide) _
  lt := show 2 ^ 52 + fraction < 2 ^ 53 by omega
  least := show -1074 ≤ (exponent : Int) - 1075 by omega
  greatest := show (exponent : Int) - 1075 ≤ 971 by omega
  full := Or.inl (Nat.le_add_right _ _)
  narrow := by
    simp only [Bool.and_eq_true, decide_eq_true_eq]
    omega

/-- A number with the greatest exponent is not finite. -/
theorem isFinite_of_top {b : BitVec 64} (h : @unpackExponent Format.binary64 b = -1#11) :
    (UnpackedFloat.unpack .binary64 b).isFinite = false := by
  unfold UnpackedFloat.unpack
  dsimp only
  rw [if_pos h]
  split <;> rfl

/-- A number with the exponent zero has the least exponent and no hidden bit. -/
theorem unpack_of_least {b : BitVec 64} (h : (@unpackExponent Format.binary64 b).toNat = 0)
    (hpos : 0 < (@unpackMantissa Format.binary64 b).toNat) :
    UnpackedFloat.unpack .binary64 b = .finite (Sign.ofBitVec (@unpackSign Format.binary64 b))
      (@unpackMantissa Format.binary64 b).toNat (-1074) hpos := by
  have hexponent : @unpackExponent Format.binary64 b = 0#11 := BitVec.eq_of_toNat_eq h
  unfold UnpackedFloat.unpack
  dsimp only
  rw [if_neg (by rw [hexponent]; decide), if_pos hexponent,
    dif_neg fun hzero => by rw [hzero] at hpos; contradiction, h]
  rfl

theorem unpack_of_zero {b : BitVec 64} (h : (@unpackExponent Format.binary64 b).toNat = 0)
    (hzero : (@unpackMantissa Format.binary64 b).toNat = 0) :
    UnpackedFloat.unpack .binary64 b =
      .zero (Sign.ofBitVec (@unpackSign Format.binary64 b)) := by
  have hexponent : @unpackExponent Format.binary64 b = 0#11 := BitVec.eq_of_toNat_eq h
  unfold UnpackedFloat.unpack
  dsimp only
  rw [if_neg (by rw [hexponent]; decide), if_pos hexponent, dif_pos (BitVec.eq_of_toNat_eq hzero)]

/-- A number with any exponent between has the hidden bit. -/
theorem unpack_of_between {b : BitVec 64} (hpos : 0 < (@unpackExponent Format.binary64 b).toNat)
    (htop : (@unpackExponent Format.binary64 b).toNat < 2047) :
    UnpackedFloat.unpack .binary64 b = .finite (Sign.ofBitVec (@unpackSign Format.binary64 b))
      (2 ^ 52 + (@unpackMantissa Format.binary64 b).toNat)
      ((@unpackExponent Format.binary64 b).toNat - 1075) (Nat.add_pos_left (by decide) _) := by
  have hhidden : (1#1 ++ @unpackMantissa Format.binary64 b).toNat =
      2 ^ 52 + (@unpackMantissa Format.binary64 b).toNat := by
    rw [BitVec.toNat_append]
    exact (Nat.shiftLeft_add_eq_or_of_lt (@unpackMantissa Format.binary64 b).isLt 1).symm
  unfold UnpackedFloat.unpack
  dsimp only
  rw [if_neg fun heq => by rw [heq] at htop; contradiction,
    if_neg fun heq => by rw [heq] at hpos; contradiction]
  congr 1

/-- The bits of a finite number are those of a zero or of a canonical magnitude. -/
theorem unpack_cases (h : (UnpackedFloat.unpack .binary64 bits.toBitVec).isFinite = true) :
    ((Magnitude.ofBits bits).m = 0 ∧
      UnpackedFloat.unpack .binary64 bits.toBitVec = .zero (signOf bits)) ∨
    (Canonical (Magnitude.ofBits bits) ∧ ∃ hm, UnpackedFloat.unpack .binary64 bits.toBitVec =
      .finite (signOf bits) (Magnitude.ofBits bits).m (Magnitude.ofBits bits).q hm) := by
  have hbits : Magnitude.ofBits bits =
      if bits.toNat / 2 ^ 52 % 2 ^ 11 = 0 then ⟨bits.toNat % 2 ^ 52, -1074, false⟩
      else ⟨2 ^ 52 + bits.toNat % 2 ^ 52, (bits.toNat / 2 ^ 52 % 2 ^ 11 : Nat) - 1075,
        bits.toNat % 2 ^ 52 = 0 && bits.toNat / 2 ^ 52 % 2 ^ 11 ≠ 1⟩ := rfl
  have hfraction : bits.toNat % 2 ^ 52 < 2 ^ 52 := Nat.mod_lt _ (by decide)
  have hexponent := toNat_unpackExponent bits
  rw [← toNat_unpackMantissa] at hbits hfraction
  rw [← hexponent] at hbits
  have htop : (@unpackExponent Format.binary64 bits.toBitVec).toNat ≠ 2047 := by
    intro heq
    rw [isFinite_of_top (BitVec.eq_of_toNat_eq heq)] at h
    contradiction
  rw [hbits, ← ofBitVec_unpackSign]
  by_cases hleast : (@unpackExponent Format.binary64 bits.toBitVec).toNat = 0
  · rw [if_pos hleast]
    rcases Nat.eq_zero_or_pos (@unpackMantissa Format.binary64 bits.toBitVec).toNat with
      hzero | hpos
    · refine Or.inl ⟨hzero, ?_⟩
      exact unpack_of_zero hleast hzero
    · exact Or.inr ⟨canonical_fraction hpos hfraction, hpos, unpack_of_least hleast hpos⟩
  · rw [if_neg hleast]
    exact Or.inr ⟨canonical_hidden hfraction (by omega) (by omega), _,
      unpack_of_between (by omega) (by omega)⟩

theorem finite_congr {s s' : Sign} {m m' : Nat} {e e' : Int} {h : 0 < m} {h' : 0 < m'}
    (hs : s = s') (hm : m = m') (he : e = e') :
    UnpackedFloat.finite s m e h = .finite s' m' e' h' := by
  subst hs hm he
  rfl

/-- The exponent is stored from one on where the hidden bit is set, and as zero elsewhere. -/
theorem pack_finite {sign : Sign} {m : Nat} {q : Int} {hpos : 0 < m} (hleast : -1074 ≤ q)
    (hgreatest : q ≤ 971) : UnpackedFloat.pack .binary64 (.finite sign m q hpos) =
      packComponents .binary64 sign (if m.log2 = 52 then BitVec.ofNat 11 (q + 1075).toNat else 0)
        (BitVec.ofNat 52 m) := by
  have hbiased : (q + Format.binary64.exponentBias + (52 : Nat)).toNat = (q + 1075).toNat := by
    rw [show Format.binary64.exponentBias = 1023 from rfl]
    omega
  unfold UnpackedFloat.pack
  dsimp only
  rw [hbiased, if_neg (show ¬ 2 ^ 11 ≤ _ by omega)]
  split
  · rename_i hlog
    rw [if_pos (Nat.succ.inj hlog)]
  · rename_i hlog
    rw [if_neg fun h => hlog (congrArg Nat.succ h)]
    rfl

/-- What is put together is taken apart. -/
theorem unpack_packComponents (sign : Sign) (exponent : BitVec 11) (mantissa : BitVec 52) :
    let b := packComponents .binary64 sign exponent mantissa
    Sign.ofBitVec (@unpackSign Format.binary64 b) = sign ∧
      (@unpackExponent Format.binary64 b).toNat = exponent.toNat ∧
      (@unpackMantissa Format.binary64 b).toNat = mantissa.toNat := by
  intro b
  rw [unpackSign_packComponents, unpackExponent_packComponents, unpackMantissa_packComponents]
  exact ⟨Sign.ofBitVec_toBitVec sign, rfl, rfl⟩

/-- A canonical magnitude is unpacked as it was packed. -/
theorem unpack_pack {x : Magnitude} (canonical : Canonical x) (sign : Sign) :
    UnpackedFloat.unpack .binary64
        (UnpackedFloat.pack .binary64 (.finite sign x.m x.q canonical.pos)) =
      .finite sign x.m x.q canonical.pos := by
  obtain ⟨hpos, hlt, hleast, hgreatest, hfull, -⟩ := canonical
  rw [pack_finite hleast hgreatest]
  by_cases hhidden : 2 ^ 52 ≤ x.m
  · rw [if_pos ((Nat.log2_eq_iff hpos.ne').2 ⟨hhidden, hlt⟩)]
    obtain ⟨hsign, hexponent, hmantissa⟩ := unpack_packComponents sign
      (BitVec.ofNat 11 (x.q + 1075).toNat) (BitVec.ofNat 52 x.m)
    rw [BitVec.toNat_ofNat, Nat.mod_eq_of_lt (by omega)] at hexponent
    rw [BitVec.toNat_ofNat] at hmantissa
    rw [unpack_of_between (by omega) (by omega)]
    exact finite_congr hsign (by omega) (by omega)
  · rw [if_neg fun hlog => hhidden ((Nat.log2_eq_iff hpos.ne').1 hlog).1]
    obtain ⟨hsign, hexponent, hmantissa⟩ := unpack_packComponents sign 0 (BitVec.ofNat 52 x.m)
    rw [BitVec.toNat_ofNat, Nat.mod_eq_of_lt (by omega)] at hmantissa
    rw [unpack_of_least hexponent (by omega)]
    exact finite_congr hsign hmantissa (hfull.resolve_left hhidden).symm

/-- A number is packed as it was unpacked. -/
theorem pack_unpack (x : Float) : Float.ofModel (.pack x.toModel.unpack) = x := by
  obtain ⟨⟨bits, hvalid⟩⟩ := x
  have hpack : UnpackedFloat.pack .binary64 (UnpackedFloat.unpack .binary64 bits.toBitVec) =
      bits.toBitVec := pack_unpack_of_valid hvalid
  simp only [Float.Model.pack, Float.Model.unpack, hpack]

/-- A number that is unpacked as a zero is finite. -/
theorem isFinite_of_zero {x : Float} {sign : Sign} (h : x.toModel.unpack = .zero sign) :
    x.isFinite = true := by
  show x.toModel.unpack.isFinite = true
  rw [h]
  rfl

theorem isFinite_of_finite {x : Float} {sign : Sign} {m : Nat} {q : Int} {hpos : 0 < m}
    (h : x.toModel.unpack = .finite sign m q hpos) : x.isFinite = true := by
  show x.toModel.unpack.isFinite = true
  rw [h]
  rfl

end EventChains.Binary64
