import Reindent.Proofs.Pattern.Spells
import Reindent.Proofs.Respacing.Questions

/-! The type of a script whose tag takes several lines. White space can only keep a type from being
found; what names no type in the visible text names none in the text. -/
namespace Reindent
open Bytes Pattern Text

theorem isInert_toLower (b : UInt8) : isInert (toLower b) = isInert b := by
  have hall : ∀ n : Fin 256, isInert (toLower (UInt8.ofNat n)) = isInert (UInt8.ofNat n) := by
    decide +kernel
  simpa using hall ⟨b.toNat, b.toNat_lt⟩

namespace OpenTag

private def types : Pattern :=
  ["template", "x-template", "html", "ng-template", "x-handlebars-template", "x-tmpl",
    "x-jsrender"].foldr (fun t p => Pattern.either (.caseless (ascii t) ++ .wordEdge) p)
      (.one fun _ => false)

private theorem exists_types {before : Option UInt8} {s e : Span}
    (h : e ∈ types.ends before s) :
    ∃ b ∈ s.rest.head?, toLower b ∈ ascii "txhn" := by
  obtain ⟨w, hw⟩ := exists_took h
  have hempty : types.nullable = false := rfl
  have hstart : ∀ n : Fin 256, types.mayStart (UInt8.ofNat n) = true →
      toLower (UInt8.ofNat n) ∈ ascii "txhn" := by
    decide +kernel
  cases w with
  | nil => exact absurd (hw.empty rfl) (by simp [hempty])
  | cons b w =>
    refine ⟨b, by rw [hw.rest]; rfl, ?_⟩
    have hb := hstart ⟨b.toNat, b.toNat_lt⟩
    simp only [UInt8.ofNat_toNat] at hb
    exact hb (hw.start b rfl)

/-- Where the visible text of a tag names no type of markup, the tag says of no script that it holds
markup. -/
theorem occursIn_templateScript {source : Bytes} (h : (Question.script source).Steady) :
    templateScript.occursIn source = false := by
  by_contra hoccurs
  rw [Bool.not_eq_false, occursIn, Option.isSome_iff_exists] at hoccurs
  obtain ⟨hit, hs⟩ := hoccurs
  obtain ⟨-, hsplit⟩ := search_split hs
  obtain ⟨⟨_, p⟩, hr, hmatch⟩ := List.exists_of_findSome?_eq_some (pick?_of_search hs)
  obtain ⟨e, hmatch, heq⟩ := Option.map_eq_some_iff.1 hmatch
  obtain rfl := congrArg Prod.snd (List.mem_singleton.1 hr)
  obtain ⟨m₂, hm₂, he⟩ := List.mem_flatMap.1 (List.mem_of_find?_eq_some hmatch)
  obtain ⟨m₁, hm₁, hm₂⟩ := List.mem_flatMap.1 hm₂
  -- the word in front of the type, and the first letter of the type
  obtain ⟨front, hfront⟩ := exists_took hm₁
  obtain ⟨v, hv, -, hrest₁⟩ := (spells_caseless (w := ascii "text/") (by decide +kernel) _ _ _).1 hm₂
  obtain ⟨b, hb, htype⟩ := exists_types he
  obtain ⟨behind, hrest₂⟩ := List.head?_eq_some_iff.1 hb
  have hsource : source = hit.skipped ++ front ++ (v ++ [b]) ++ behind := by
    have hrest := hfront.rest
    dsimp only at hrest
    rw [← hsplit, List.append_assoc, hrest, hrest₁, hrest₂]
    simp
  have hlower : (v ++ [b]).map toLower = ascii "text/" ++ [toLower b] := by
    rw [List.map_append, hv]
    rfl
  have hvisible : visible (v ++ [b]) = v ++ [b] := by
    have hinert : ∀ y ∈ ascii "text/" ++ ascii "txhn", isInert y = false := by decide +kernel
    rw [visible, List.filter_eq_self]
    intro x hx
    have hmem := List.mem_map_of_mem (f := toLower) hx
    rw [hlower, List.mem_append, List.mem_singleton] at hmem
    have hlisted : toLower x ∈ ascii "text/" ++ ascii "txhn" := by
      rcases hmem with hx | hx
      · exact List.mem_append_left _ hx
      · rw [hx]
        exact List.mem_append_right _ htype
    rw [← isInert_toLower, hinert _ hlisted, Bool.not_false]
  refine h (toLower b) htype ?_
  rw [hsource, visible_append, visible_append, hvisible, List.map_append, List.map_append, hlower]
  exact ⟨_, _, rfl⟩

end OpenTag
end Reindent
