import Reindent.Error

/-! Comparison of a document with its reindented form. -/
namespace Reindent

namespace Verify

/-- Goes through two lists of lines, the first of which has the given number. Tells whether any line
changed, or which is the first that differs in more than the white space at its ends. -/
def compareLines : Nat → List Bytes → List Bytes → Except Corruption Bool
  | number, a :: as, b :: bs =>
    if a = b then compareLines (number + 1) as bs
    else if Text.trim a = Text.trim b then do
      let _ ← compareLines (number + 1) as bs
      .ok true
    else .error (.atLine number)
  | _, _, _ => .ok false

end Verify

/-- Whether a result differs from its source. It may differ only in the white space around lines. -/
def verify (source result : Bytes) : Except Error Bool :=
  let before := Bytes.lines source
  let after := Bytes.lines result
  if before.length ≠ after.length then
    .error (.corrupted (.lineCount before.length after.length))
  else (Verify.compareLines 1 before after).mapError .corrupted

end Reindent
