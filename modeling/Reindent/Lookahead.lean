import Reindent.Blocks
import Reindent.Pattern

/-! Search for the end tag of a template block, with a memory of earlier searches. -/
namespace Reindent

/-- The tag that ends a block: its name after `end`, or the end tag that was configured for it. -/
def endTagPattern (name extra : Bytes) : Pattern :=
  let regular : Pattern :=
    .either (.literal "end" ++ .optional (.literal "_"))
      (.literal "end" ++ .one Bytes.isSpace ++ .space) ++ .word name
  .literal "\x7b%" ++ .optional (.oneOf "-+") ++ .space ++
    (if extra.isEmpty then regular else .either regular (.text extra)) ++ .wordEdge

/-- Where the end tag of a block starts in a text. -/
def findEndTag (blocks : Blocks) (name text : Bytes) : Option Nat :=
  (Pattern.search [((), endTagPattern name (blocks.endOf name))] none text).map (·.skipped.length)

/-- What is known about the end tags of one name: that one starts with so many bytes left in the
document, or that none starts among the last so many bytes. -/
inductive EndMark where
  | found (left : Nat)
  | absent (left : Nat)
  deriving DecidableEq, Repr

/-- The latest mark of every name that was looked for. -/
abbrev Lookahead := List (Bytes × EndMark)

namespace Lookahead

/-- The answer that the mark of a name gives for the last `left` bytes of the document. -/
def known? (memory : Lookahead) (name : Bytes) (left : Nat) : Option Bool :=
  match memory.lookup name with
  | some (.found start) => if start ≤ left then some true else none
  | some (.absent upTo) => if left ≤ upTo then some false else none
  | none => none

/-- Whether an end tag of the block starts in the rest of the document. -/
def hasEnd (blocks : Blocks) (memory : Lookahead) (name rest : Bytes) : Bool × Lookahead :=
  match memory.known? name rest.length with
  | some answer => (answer, memory)
  | none =>
    match findEndTag blocks name rest with
    | some skipped => (true, (name, .found (rest.length - skipped)) :: memory)
    | none => (false, (name, .absent rest.length) :: memory)

end Lookahead
end Reindent
