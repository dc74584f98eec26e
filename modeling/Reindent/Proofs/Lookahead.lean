import Reindent.Lookahead
import Reindent.Proofs.Pattern.Search

/-! The memory of end tags: it never gives an answer that a search would not give. -/
namespace Reindent
open Pattern

theorem looksBack_endTagPattern (name extra : Bytes) :
    (endTagPattern name extra).looksBack = false := by
  unfold endTagPattern
  rfl

/-- An end tag of the block starts at the start of the text. -/
def EndTagAt (blocks : Blocks) (name text : Bytes) : Prop :=
  ((endTagPattern name (blocks.endOf name)).match? none text).isSome = true

private theorem isSome_pick?_iff {blocks : Blocks} {name text : Bytes} {before : Option UInt8} :
    (pick? [((), endTagPattern name (blocks.endOf name))] before text).isSome = true ↔
      EndTagAt blocks name text := by
  have hends := ends_of_looksBack (looksBack_endTagPattern name (blocks.endOf name)) before none
    ⟨[], text⟩
  unfold EndTagAt pick? match?
  rw [← hends, List.findSome?_cons, List.findSome?_nil]
  cases ((endTagPattern name (blocks.endOf name)).ends before ⟨[], text⟩).find?
      (!·.taken.isEmpty) with
  | none => simp
  | some e => simp

theorem isSome_findEndTag_iff {blocks : Blocks} {name text : Bytes} :
    (findEndTag blocks name text).isSome = true ↔ ∃ s, s <:+ text ∧ EndTagAt blocks name s := by
  unfold findEndTag
  rw [Option.isSome_map]
  constructor
  · intro h
    obtain ⟨hit, hs⟩ := Option.isSome_iff_exists.1 h
    obtain ⟨-, hsplit⟩ := search_split hs
    refine ⟨hit.matched ++ hit.rest, ⟨hit.skipped, by rw [← List.append_assoc, hsplit]⟩, ?_⟩
    rw [← isSome_pick?_iff, pick?_of_search hs]
    rfl
  · rintro ⟨s, ⟨front, rfl⟩, hs⟩
    exact isSome_search_of_isSome_pick none front (isSome_pick?_iff.2 hs)

theorem endTagAt_of_findEndTag {blocks : Blocks} {name text : Bytes} {skipped : Nat}
    (h : findEndTag blocks name text = some skipped) :
    ∃ s, s <:+ text ∧ s.length = text.length - skipped ∧ EndTagAt blocks name s := by
  unfold findEndTag at h
  obtain ⟨hit, hs, rfl⟩ := Option.map_eq_some_iff.1 h
  obtain ⟨-, hsplit⟩ := search_split hs
  refine ⟨hit.matched ++ hit.rest, ⟨hit.skipped, by rw [← List.append_assoc, hsplit]⟩, ?_, ?_⟩
  · rw [← hsplit]
    simp only [List.length_append]
    omega
  · rw [← isSome_pick?_iff, pick?_of_search hs]
    rfl

/-- The mark of a name is right for a document: the end tag that was found is there, or there is none
in the last bytes. -/
def EndMark.Holds (blocks : Blocks) (document name : Bytes) : EndMark → Prop
  | .found left => ∃ s, s <:+ document ∧ s.length = left ∧ EndTagAt blocks name s
  | .absent left => ∃ s, s <:+ document ∧ s.length = left ∧ findEndTag blocks name s = none

namespace Lookahead

/-- All that is remembered is right. -/
def Sound (blocks : Blocks) (document : Bytes) (memory : Lookahead) : Prop :=
  ∀ name mark, memory.lookup name = some mark → mark.Holds blocks document name

theorem sound_nil (blocks : Blocks) (document : Bytes) : Sound blocks document [] := by
  intro name mark h
  exact absurd h (by simp)

theorem Sound.cons {blocks : Blocks} {document name : Bytes} {mark : EndMark} {memory : Lookahead}
    (h : Sound blocks document memory) (hm : mark.Holds blocks document name) :
    Sound blocks document ((name, mark) :: memory) := by
  intro name' mark' hl
  rw [List.lookup_cons] at hl
  split at hl
  · next he =>
    obtain rfl := Option.some.inj hl
    rw [eq_of_beq he]
    exact hm
  · exact h name' mark' hl

/-- What is known without a search is what a search would tell. -/
theorem known?_of_sound {blocks : Blocks} {document rest name : Bytes} {memory : Lookahead}
    {answer : Bool} (h : Sound blocks document memory) (hr : rest <:+ document)
    (hk : memory.known? name rest.length = some answer) :
    answer = (findEndTag blocks name rest).isSome := by
  unfold known? at hk
  split at hk
  · next start hl =>
    obtain ⟨s, hs, hlen, hat⟩ := h name _ hl
    split_ifs at hk with hle
    · obtain rfl := Option.some.inj hk
      have hsr : s <:+ rest := List.suffix_of_suffix_length_le hs hr (by omega)
      exact (isSome_findEndTag_iff.2 ⟨s, hsr, hat⟩).symm
  · next left hl =>
    obtain ⟨s, hs, hlen, hnone⟩ := h name _ hl
    split_ifs at hk with hle
    · obtain rfl := Option.some.inj hk
      have hrs : rest <:+ s := List.suffix_of_suffix_length_le hr hs (by omega)
      symm
      by_contra hne
      rw [Bool.not_eq_false] at hne
      obtain ⟨t, ht, hat⟩ := isSome_findEndTag_iff.1 hne
      have hsome := isSome_findEndTag_iff.2 ⟨t, ht.trans hrs, hat⟩
      rw [hnone] at hsome
      exact absurd hsome (by simp)
  · exact absurd hk (by simp)

/-- The answer is that of a search in the rest of the document, and the memory stays right. -/
theorem hasEnd_of_sound {blocks : Blocks} {document rest : Bytes} {memory : Lookahead}
    (h : Sound blocks document memory) (hr : rest <:+ document) (name : Bytes) :
    (memory.hasEnd blocks name rest).1 = (findEndTag blocks name rest).isSome ∧
      Sound blocks document (memory.hasEnd blocks name rest).2 := by
  unfold hasEnd
  split
  · next answer hk => exact ⟨known?_of_sound h hr hk, h⟩
  · split
    · next skipped hf =>
      rw [hf]
      refine ⟨rfl, h.cons ?_⟩
      obtain ⟨s, hs, hlen, hat⟩ := endTagAt_of_findEndTag hf
      exact ⟨s, hs.trans hr, hlen, hat⟩
    · next hf =>
      rw [hf]
      exact ⟨rfl, h.cons ⟨rest, hr, rfl, hf⟩⟩

end Lookahead
end Reindent
