import MclLink.Frame.Check

/-!
# The frame check is CRC-32/IEEE

The standard defines the check by a division of polynomials over the field of two elements. The
loop of `mclLinkCrc32` shifts the other way and starts from a register of ones, and computes it.
-/

namespace MclLink

open Polynomial

/-- The generator polynomial of CRC-32/IEEE. -/
noncomputable def mclLinkCrcPolynomial : (ZMod 2)[X] :=
  X ^ 32 + X ^ 26 + X ^ 23 + X ^ 22 + X ^ 16 + X ^ 12 + X ^ 11 + X ^ 10 + X ^ 8 + X ^ 7 + X ^ 5 +
    X ^ 4 + X ^ 2 + X + 1

/-- What is divided: the message, the lowest bit of each byte first, with 32 zeros behind it and
the first 32 bits inverted. -/
noncomputable def mclLinkCrcDividend (bytes : List UInt8) : (ZMod 2)[X] :=
  Crc.ofBits (Crc.complementFirst 32 (Crc.bits bytes ++ List.replicate 32 false))

/-- CRC-32/IEEE: the remainder, reflected and inverted. -/
noncomputable def mclLinkCrc32Ieee (bytes : List UInt8) : UInt32 :=
  .ofBitVec (~~~ (Crc.word 32 (mclLinkCrcDividend bytes %ₘ mclLinkCrcPolynomial)).reverse)

private theorem modulus_mclLinkCrcPattern :
    Crc.modulus mclLinkCrcPattern = mclLinkCrcPolynomial := by
  rw [Crc.modulus, Crc.ofReg_eq_ofBits, mclLinkCrcPolynomial, mclLinkCrcPattern]
  simp [Crc.ofBits, List.range_succ]
  ring

/-- The loop over bytes and bits computes CRC-32/IEEE of every byte string. -/
theorem mclLinkCrc32_ieee (bytes : List UInt8) :
    mclLinkCrc32 (some bytes) bytes.length = mclLinkCrc32Ieee bytes := by
  have hremainder : Crc.ofReg (Crc.feedAll mclLinkCrcPattern (BitVec.allOnes 32)
      (Crc.bits bytes)) = mclLinkCrcDividend bytes %ₘ mclLinkCrcPolynomial := by
    rw [Crc.ofReg_feedAll_allOnes (by decide), modulus_mclLinkCrcPattern]
    rfl
  apply UInt32.toBitVec_inj.mp
  calc (mclLinkCrc32 (some bytes) bytes.length).toBitVec
    _ = ~~~ Crc.feedAll mclLinkCrcPattern (BitVec.allOnes 32) (Crc.bits bytes) := mclLinkCrc32_eq
    _ = ~~~ (Crc.word 32 (mclLinkCrcDividend bytes %ₘ mclLinkCrcPolynomial)).reverse := by
      rw [← hremainder, Crc.reverse_word_ofReg]
    _ = (mclLinkCrc32Ieee bytes).toBitVec := rfl

end MclLink
