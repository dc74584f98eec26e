import Reindent.Proofs.Lookahead
import Reindent.Proofs.Utf8

/-! The search for an end tag does not notice a closing tag on the last line of a document. -/
namespace Reindent
open Bytes Pattern

namespace Pattern

theorem mayTake_of_mayEnd {p : Pattern} {b : UInt8} (h : p.mayEnd b = true) :
    p.mayTake b = true := by
  induction p with
  | empty => exact h
  | one accepts => exact h
  | run greedy accepts => exact h
  | seq p q ihp ihq =>
    rw [mayEnd, Bool.or_eq_true, Bool.and_eq_true] at h
    rw [mayTake, Bool.or_eq_true]
    rcases h with h | ⟨-, h⟩
    · exact Or.inr (ihq h)
    · exact Or.inl (ihp h)
  | either p q ihp ihq =>
    rw [mayEnd, Bool.or_eq_true] at h
    rw [mayTake, Bool.or_eq_true]
    exact h.imp ihp ihq
  | many p ih => exact ih h
  | avoid p => exact h
  | wordEdge => exact h

section Texts
variable {s : Bytes} {b : UInt8}

theorem mayTake_word : (word s).mayTake b = s.contains b := by
  induction s with
  | nil => rfl
  | cons x s ih =>
    rw [List.contains_cons, ← ih]
    rfl

theorem nullable_word : (word s).nullable = s.isEmpty := by
  cases s <;> rfl

theorem settles_word (next : Option UInt8) : (word s).settles next = true := by
  induction s with
  | nil => rfl
  | cons x s ih => exact ih

/-- A byte that no character of the text holds: it is in none of their spellings, and it does not
belong to a character of several bytes. -/
private theorem facts_symbol (x : Symbol) (hb : b ∈ [newline, 60]) (hx : b ∉ x.bytes) :
    (symbol x).mayTake b = false ∧ (symbol x).nullable = false ∧
      (symbol x).settles (some b) = true := by
  have hword : (word x.bytes).mayTake b = false := by
    rw [mayTake_word]
    simpa using hx
  have hne : (word x.bytes).nullable = false := by
    rw [nullable_word, List.isEmpty_eq_false_iff]
    cases x with
    | char c => exact String.utf8EncodeChar_ne_nil
    | stray x => simp [Symbol.bytes]
  have hstray : strayByte.mayTake b = false ∧ strayByte.settles (some b) = true := by
    rw [List.mem_cons, List.mem_singleton] at hb
    rcases hb with rfl | rfl
    · decide
    · decide
  unfold symbol
  split_ifs
  · refine ⟨?_, ?_, ?_⟩
    · rw [mayTake, hword, hstray.1]
      rfl
    · rw [nullable, hne]
      rfl
    · rw [settles, settles_word, hstray.2]
      rfl
  · exact ⟨hword, hne, settles_word _⟩

private theorem facts_symbols {symbols : List Symbol} (hb : b ∈ [newline, 60])
    (h : ∀ x ∈ symbols, b ∉ x.bytes) :
    (symbols.foldr (fun x p => Pattern.seq (symbol x) p) Pattern.empty).mayTake b = false ∧
      (symbols.foldr (fun x p => Pattern.seq (symbol x) p) Pattern.empty).nullable = symbols.isEmpty ∧
      (symbols.foldr (fun x p => Pattern.seq (symbol x) p) Pattern.empty).settles (some b) = true := by
  induction symbols with
  | nil => exact ⟨rfl, rfl, rfl⟩
  | cons x symbols ih =>
    obtain ⟨htake, hnull, hsettles⟩ := facts_symbol x hb (h x List.mem_cons_self)
    obtain ⟨htakes, -, hsettle⟩ := ih fun y hy => h y (List.mem_cons_of_mem _ hy)
    rw [List.foldr_cons, mayTake, nullable, settles, htake, htakes, hnull, hsettles, hsettle]
    exact ⟨rfl, rfl, rfl⟩

theorem facts_text (hb : b ∈ [newline, 60]) (hs : b ∉ s) :
    (text s).mayTake b = false ∧ (text s).nullable = s.isEmpty ∧
      (text s).settles (some b) = true := by
  have hbytes : ∀ x ∈ Utf8.decode s, b ∉ x.bytes := by
    intro x hx hmem
    apply hs
    rw [← Utf8.encode_decode s]
    exact List.mem_flatMap.2 ⟨x, hx, hmem⟩
  have hempty : (Utf8.decode s).isEmpty = s.isEmpty := by
    cases s with
    | nil => rfl
    | cons x s => rfl
  obtain ⟨htake, hnull, hsettles⟩ := facts_symbols hb hbytes
  exact ⟨htake, hnull.trans hempty, hsettles⟩

end Texts

end Pattern

/-- Names of end tags that lie on one line and in front of any closing tag. -/
def Blocks.Plain (blocks : Blocks) : Prop := ∀ block ∈ blocks, newline ∉ block.2 ∧ 60 ∉ block.2

theorem Blocks.Plain.endOf {blocks : Blocks} (h : blocks.Plain) (name : Bytes) :
    newline ∉ blocks.endOf name ∧ 60 ∉ blocks.endOf name := by
  unfold Blocks.endOf
  cases hl : blocks.lookup name with
  | none => exact ⟨List.not_mem_nil, List.not_mem_nil⟩
  | some finish =>
    obtain ⟨front, back, rfl, -⟩ := List.lookup_eq_some_iff.1 hl
    exact h _ (List.mem_append_right _ List.mem_cons_self)

/-- A pattern that takes something, but no angle bracket, and does not end with a newline. -/
private structure Sealed (p : Pattern) : Prop where
  take : p.mayTake 60 = false
  finish : p.mayEnd newline = false
  nonempty : p.nullable = false
  settles : ∀ b ∈ [newline, 60], p.settles (some b) = true

namespace Sealed
variable {p q front : Pattern}

private theorem of_mayTake (h : ∀ b ∈ [newline, 60], p.mayTake b = false)
    (hne : p.nullable = false) (hs : ∀ b ∈ [newline, 60], p.settles (some b) = true) :
    Sealed p := by
  refine ⟨h 60 (by decide), ?_, hne, hs⟩
  rw [Bool.eq_false_iff]
  intro hend
  have htake := h newline (by decide)
  rw [mayTake_of_mayEnd hend] at htake
  exact absurd htake (by simp)

private theorem word {s : Bytes} (hne : s ≠ []) (hs : newline ∉ s ∧ 60 ∉ s) :
    Sealed (.word s) := by
  apply of_mayTake
  · simpa [mayTake_word] using hs
  · rw [nullable_word]
    simpa using hne
  · exact fun b _ => settles_word (some b)

private theorem text {s : Bytes} (hne : s ≠ []) (hs : newline ∉ s ∧ 60 ∉ s) :
    Sealed (.text s) := by
  have hfacts : ∀ b ∈ [newline, 60], (Pattern.text s).mayTake b = false ∧
      (Pattern.text s).nullable = s.isEmpty ∧ (Pattern.text s).settles (some b) = true := by
    intro b hb
    refine facts_text hb ?_
    rw [List.mem_cons, List.mem_singleton] at hb
    rcases hb with rfl | rfl
    · exact hs.1
    · exact hs.2
  apply of_mayTake
  · exact fun b hb => (hfacts b hb).1
  · rw [(hfacts 60 (by decide)).2.1]
    simpa using hne
  · exact fun b hb => (hfacts b hb).2.2

private theorem either (hp : Sealed p) (hq : Sealed q) : Sealed (.either p q) where
  take := by rw [mayTake, hp.take, hq.take]; rfl
  finish := by rw [mayEnd, hp.finish, hq.finish]; rfl
  nonempty := by rw [nullable, hp.nonempty, hq.nonempty]; rfl
  settles b hb := by rw [Pattern.settles, hp.settles b hb, hq.settles b hb]; rfl

private theorem after (hp : Sealed p) (htake : front.mayTake 60 = false)
    (hsettles : [newline, 60].all (fun b => front.settles (some b)) = true) :
    Sealed (.seq front p) where
  take := by rw [mayTake, htake, hp.take]; rfl
  finish := by rw [mayEnd, hp.finish, hp.nonempty]; rfl
  nonempty := by rw [nullable, hp.nonempty, Bool.and_false]
  settles b hb := by
    rw [Pattern.settles, List.all_eq_true.1 hsettles b hb, hp.settles b hb]
    rfl

private theorem wordEdge (hp : Sealed p) : Sealed (.seq p .wordEdge) where
  take := by rw [mayTake, hp.take]; rfl
  finish := by rw [mayEnd, hp.finish]; rfl
  nonempty := by rw [nullable, hp.nonempty]; rfl
  settles b hb := by rw [Pattern.settles, hp.settles b hb]; rfl

/-- White space between the parts of an end tag may hold newlines, but a name ends it. -/
private theorem endTagPattern {name extra : Bytes} (hne : name ≠ [])
    (hname : newline ∉ name ∧ 60 ∉ name) (hextra : newline ∉ extra ∧ 60 ∉ extra) :
    Sealed (endTagPattern name extra) := by
  have hregular : Sealed (.either (.literal "end" ++ .optional (.literal "_"))
      (.literal "end" ++ .one Bytes.isSpace ++ .space) ++ .word name) :=
    (Sealed.word hne hname).after (by decide) (by decide)
  unfold Reindent.endTagPattern
  refine Sealed.wordEdge (Sealed.after ?_ (by decide) (by decide))
  split_ifs with hempty
  · exact hregular
  · exact hregular.either (.text (by simpa using hempty) hextra)

end Sealed

section Tail
variable {blocks : Blocks} {name more : Bytes}

/-- An end tag at the start of a text is there with and without a last line that starts with an angle
bracket. -/
private theorem endTagAt_append (hblocks : blocks.Plain) (hne : name ≠ [])
    (hname : newline ∉ name ∧ 60 ∉ name) (s : Bytes) :
    EndTagAt blocks name (s ++ newline :: 60 :: more) ↔ EndTagAt blocks name s := by
  have hsealed := Sealed.endTagPattern hne hname (hblocks.endOf name)
  have hangle : (Reindent.endTagPattern name (blocks.endOf name)).Ignores (60 :: more) :=
    ignores_of_mayTake (hsealed.settles 60 (by decide)) rfl
      (by simpa using hsealed.take)
  have hnewline : (Reindent.endTagPattern name (blocks.endOf name)).Ignores [newline] :=
    ignores_of_mayEnd (hsealed.settles newline (by decide)) rfl
      (by simpa using hsealed.finish)
  unfold EndTagAt
  rw [List.append_cons, match?_append hangle, Option.isSome_map, match?_append hnewline,
    Option.isSome_map]

private theorem brace_of_endTagAt {s : Bytes} (h : EndTagAt blocks name s) : 123 ∈ s := by
  obtain ⟨e, he⟩ := Option.isSome_iff_exists.1 h
  cases s with
  | nil =>
    obtain ⟨hne, hsplit⟩ := match?_split he
    exact absurd (List.reverse_eq_nil_iff.1 (List.append_eq_nil_iff.1 hsplit).1) hne
  | cons b rest =>
    by_contra hb
    have hbrace : b ≠ 123 := by
      rintro rfl
      exact hb List.mem_cons_self
    rw [match?_eq_none_of_mayStart] at he
    · exact absurd he (by simp)
    · simp [Reindent.endTagPattern, literal, ascii, Pattern.word, byte, mayStart, nullable,
        HAppend.hAppend, Append.append, hbrace]

/-- The last line makes no difference to what is ahead. -/
theorem isSome_findEndTag_append (hblocks : blocks.Plain) (hne : name ≠ [])
    (hname : newline ∉ name ∧ 60 ∉ name) (hmore : 123 ∉ more) (ahead : Bytes) :
    (findEndTag blocks name (ahead ++ newline :: 60 :: more)).isSome =
      (findEndTag blocks name ahead).isSome := by
  rw [Bool.eq_iff_iff, isSome_findEndTag_iff, isSome_findEndTag_iff]
  constructor
  · rintro ⟨s, ⟨front, hsplit⟩, hs⟩
    rcases List.append_eq_append_iff.1 hsplit with ⟨rest, rfl, rfl⟩ | ⟨rest, rfl, htail⟩
    · exact ⟨rest, List.suffix_append front rest, (endTagAt_append hblocks hne hname rest).1 hs⟩
    · have hbrace : 123 ∈ newline :: 60 :: more := by
        rw [htail]
        exact List.mem_append_right rest (brace_of_endTagAt hs)
      exact absurd hbrace (by simp [newline, hmore])
  · rintro ⟨s, ⟨front, rfl⟩, hs⟩
    refine ⟨s ++ newline :: 60 :: more, ⟨front, by simp⟩, ?_⟩
    exact (endTagAt_append hblocks hne hname s).2 hs

end Tail

end Reindent
