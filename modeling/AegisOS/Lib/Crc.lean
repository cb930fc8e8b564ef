import Mathlib.Logic.Basic

/-! A reflected 32-bit cyclic redundancy check, one bit at a time. -/
namespace AegisOS.Crc

def bits (bit : UInt32 → UInt32) : Nat → UInt32 → UInt32
  | 0, c => c
  | n + 1, c => bits bit n (bit c)

/-- The checksum of a byte string for a given single-bit step. -/
def crcWith (bit : UInt32 → UInt32) (bs : List UInt8) : UInt32 :=
  ~~~(bs.foldl (fun c b => bits bit 8 (c ^^^ b.toUInt32)) (~~~0))

end AegisOS.Crc
