import Reindent.Text.Bytes

/-! Decimal numerals of 64-bit integers. -/
namespace Reindent.Decimal

def natural (n : Nat) : Bytes := (Nat.toDigits 10 n).map fun c => c.toNat.toUInt8

/-- A minus sign in front of negative numbers only. -/
def integer (n : Int64) : Bytes :=
  if n < 0 then 45 :: natural n.toInt.natAbs else natural n.toInt.natAbs

/-- A sign in front of every number, plus for zero. -/
def signed (n : Int64) : Bytes :=
  (if n < 0 then 45 else 43) :: natural n.toInt.natAbs

def padded (width : Nat) (n : Int64) : Bytes :=
  List.replicate (width - (integer n).length) 32 ++ integer n

end Reindent.Decimal
