import Mathlib.Data.List.Infix
import Reindent.Proofs.Pattern.Spells
import Reindent.Proofs.Respacing.Questions

/-! Texts that differ in the white space around their line breaks. The search for end tags goes across
line breaks, and finds the same tags in them if it steps over the white space there. -/
namespace Reindent
open Bytes Pattern Text

/-- A text starts with a usual end tag of a block: the word `end`, and the name behind it. -/
def RegularEndAt (name text : Bytes) : Prop :=
  ∃ sign lead mid rest, text = ascii "\x7b%" ++ (sign ++ (lead ++ (ascii "end" ++
      (mid ++ (name ++ rest))))) ∧
    sign ∈ [[], [43], [45]] ∧ (∀ b ∈ lead, isSpace b = true) ∧
    (mid = [95] ∨ ∀ b ∈ mid, isSpace b = true) ∧ ∀ b ∈ rest.head?, isWord b = false

theorem endTagAt_iff {blocks : Blocks} {name text : Bytes} (hown : blocks.endOf name = [])
    (hne : name ≠ []) (hname : ∀ b ∈ name, isWord b = true) :
    EndTagAt blocks name text ↔ RegularEndAt name text := by
  have hfront := ((spells_word (ascii "\x7b%")).seq
    (spells_one (ascii "-+").contains).optional).seq (spells_run true isSpace)
  have hend := ((spells_word (ascii "end")).seq (spells_word (ascii "_")).optional).either
    (((spells_word (ascii "end")).seq (spells_one isSpace)).seq (spells_run true isSpace))
  have hall := hfront.seq (hend.seq (spells_word name))
  have hlast : ∃ b, name.getLast? = some b ∧ isWord b = true := by
    obtain ⟨init, b, rfl⟩ := (List.eq_nil_or_concat name).resolve_left hne
    exact ⟨b, by simp, hname b (by simp)⟩
  unfold EndTagAt
  rw [hown]
  refine (hall.match_wordEdge ?_).trans ⟨?_, ?_⟩
  · rintro _ ⟨u, _, -, ⟨v, _, -, rfl, rfl⟩, rfl⟩
    rw [← List.append_assoc, List.getLast?_append_of_ne_nil _ hne]
    exact hlast
  · rintro ⟨_, rest, ⟨_, _, ⟨_, lead, ⟨_, sign, rfl, hsign, rfl⟩, hlead, rfl⟩,
      ⟨e, _, he, rfl, rfl⟩, rfl⟩, rfl, hrest⟩
    have hmid : ∃ mid, e = ascii "end" ++ mid ∧ (mid = [95] ∨ ∀ b ∈ mid, isSpace b = true) := by
      rcases he with ⟨_, mid, rfl, hmid, rfl⟩ | ⟨_, more, ⟨_, _, rfl, ⟨b, hb, rfl⟩, rfl⟩, hmore, rfl⟩
      · exact ⟨mid, rfl, hmid.imp_right fun h => by simp [h]⟩
      · exact ⟨b :: more, by simp, Or.inr (List.forall_mem_cons.2 ⟨hb, hmore⟩)⟩
    obtain ⟨mid, rfl, hmid⟩ := hmid
    refine ⟨sign, lead, mid, rest, by simp, ?_, hlead, hmid, hrest⟩
    rcases hsign with ⟨b, hb, rfl⟩ | rfl
    · simpa [ascii, or_comm] using hb
    · exact List.mem_cons_self
  · rintro ⟨sign, lead, mid, rest, rfl, hsign, hlead, hmid, hrest⟩
    refine ⟨ascii "\x7b%" ++ sign ++ lead ++ (ascii "end" ++ mid ++ name), rest,
      ⟨_, _, ⟨_, lead, ⟨_, sign, rfl, ?_, rfl⟩, hlead, rfl⟩, ⟨_, _, ?_, rfl, rfl⟩, rfl⟩, by simp,
      hrest⟩
    · rcases List.mem_cons.1 hsign with rfl | hsign
      · exact Or.inr rfl
      · refine Or.inl ?_
        simpa [ascii, or_comm] using hsign
    · cases mid with
      | nil => exact Or.inl ⟨_, [], rfl, Or.inr rfl, rfl⟩
      | cons b mid =>
        refine hmid.imp (fun h => ⟨_, [95], rfl, Or.inl rfl, by rw [h]⟩) fun h => ?_
        rw [List.forall_mem_cons] at h
        exact ⟨_, mid, ⟨_, [b], rfl, ⟨b, h.1, rfl⟩, rfl⟩, h.2, by simp⟩

/-- Texts with different white space around their line breaks. In the second one it is white space to the
search for end tags as well. -/
inductive Spread : Bytes → Bytes → Prop where
  | done {trail : Bytes} (h : allBlank trail = true) : Spread trail []
  | byte {s₁ s₂ : Bytes} (b : UInt8) (h : Spread s₁ s₂) : Spread (b :: s₁) (b :: s₂)
  | margin {m₁ m₂ s₁ s₂ : Bytes} (h₁ : allBlank m₁ = true) (hn : newline ∈ m₁)
    (h₂ : ∀ b ∈ m₂, isSpace b = true) (hne : m₂ ≠ []) (h : Spread s₁ s₂) :
    Spread (m₁ ++ s₁) (m₂ ++ s₂)

theorem isInert_of_isSpace {b : UInt8} (h : isSpace b = true) : isInert b = true := by
  simp only [isSpace, Bool.or_eq_true, beq_iff_eq, or_assoc] at h
  rcases h with rfl | rfl | rfl | rfl | rfl <;> rfl

theorem allBlank_of_isSpace {s : Bytes} (h : ∀ b ∈ s, isSpace b = true) : allBlank s = true := by
  apply allBlank_of_ascii
  intro b hb
  have hspace := h b hb
  simp only [isSpace, Bool.or_eq_true, beq_iff_eq, or_assoc] at hspace
  rcases hspace with rfl | rfl | rfl | rfl | rfl <;> decide

theorem isInert_of_isWord {b : UInt8} (h : isWord b = true) : isInert b = false := by
  by_contra hb
  rw [isWord_of_isInert (by simpa using hb)] at h
  exact absurd h Bool.false_ne_true

namespace Spread
variable {a₁ a₂ r s₁ s₂ : Bytes} {x : UInt8}

theorem append_left (s : Bytes) (h : Spread s₁ s₂) : Spread (s ++ s₁) (s ++ s₂) := by
  induction s with
  | nil => exact h
  | cons b s ih => exact .byte b ih

private theorem split_front {m s g : Bytes} (hm : ∀ b ∈ m, isInert b = true)
    (hx : isInert x = false) (h : m ++ s = g ++ x :: r) : ∃ v, g = m ++ v ∧ s = v ++ x :: r := by
  rcases List.append_eq_append_iff.1 h with ⟨v, rfl, hs⟩ | ⟨v, rfl, hs⟩
  · exact ⟨v, rfl, hs⟩
  · cases v with
    | nil => exact ⟨[], by simp, hs.symm⟩
    | cons b v =>
      obtain ⟨rfl, -⟩ := List.cons.inj hs
      exact absurd (hm x (by simp)) (by simp [hx])

section Visible
variable (hx : isInert x = false)
include hx

theorem exists_right {g : Bytes} (hg : ∀ b ∈ g, isSpace b = true) (h : Spread (g ++ x :: r) s₂) :
    ∃ g₂ r₂, s₂ = g₂ ++ x :: r₂ ∧ (∀ b ∈ g₂, isSpace b = true) ∧ (g = [] → g₂ = []) ∧
      Spread r r₂ := by
  generalize hs : g ++ x :: r = s₁ at h
  induction h generalizing g with
  | done ht =>
    have hmem : x ∈ g ++ x :: r := by simp
    rw [hs] at hmem
    exact absurd (isInert_of_allBlank ht hmem) (by simp [hx])
  | @byte s₁ s₂ b h ih =>
    cases g with
    | nil =>
      obtain ⟨rfl, rfl⟩ := List.cons.inj hs
      exact ⟨[], s₂, rfl, by simp, fun _ => rfl, h⟩
    | cons c g =>
      obtain ⟨rfl, hs'⟩ := List.cons.inj hs
      rw [List.forall_mem_cons] at hg
      obtain ⟨g₂, r₂, rfl, hg₂, -, hr⟩ := ih hg.2 hs'
      exact ⟨c :: g₂, r₂, rfl, List.forall_mem_cons.2 ⟨hg.1, hg₂⟩, by simp, hr⟩
  | @margin m₁ m₂ s₁ s₂ h₁ hn h₂ hne h ih =>
    obtain ⟨v, rfl, rfl⟩ := split_front (fun b hb => isInert_of_allBlank h₁ hb) hx hs.symm
    obtain ⟨g₂, r₂, rfl, hg₂, -, hr⟩ := ih (fun b hb => hg b (List.mem_append_right _ hb)) rfl
    refine ⟨m₂ ++ g₂, r₂, by simp, List.forall_mem_append.2 ⟨h₂, hg₂⟩, fun hnil => ?_, hr⟩
    rw [(List.append_eq_nil_iff.1 hnil).1] at hn
    exact absurd hn List.not_mem_nil

/-- Something visible on the second side is on the first one as well. In front of it there, white space
with a line break in it may be any. -/
theorem exists_left {g : Bytes} (hg : ∀ b ∈ g, isSpace b = true) (h : Spread s₁ (g ++ x :: r)) :
    ∃ g₁ r₁, s₁ = g₁ ++ x :: r₁ ∧ allBlank g₁ = true ∧
      (newline ∉ g₁ → ∀ b ∈ g₁, isSpace b = true) ∧ (g = [] → g₁ = []) ∧ Spread r₁ r := by
  generalize hs : g ++ x :: r = s₂ at h
  induction h generalizing g with
  | done ht => exact absurd hs (by simp)
  | @byte s₁ s₂ b h ih =>
    cases g with
    | nil =>
      obtain ⟨rfl, rfl⟩ := List.cons.inj hs
      exact ⟨[], s₁, rfl, rfl, by simp, fun _ => rfl, h⟩
    | cons c g =>
      obtain ⟨rfl, hs'⟩ := List.cons.inj hs
      rw [List.forall_mem_cons] at hg
      obtain ⟨g₁, r₁, rfl, hg₁, hplain, -, hr⟩ := ih hg.2 hs'
      refine ⟨c :: g₁, r₁, rfl, ?_, fun hn => ?_, by simp, hr⟩
      · rw [← List.singleton_append, allBlank_append_of_left, hg₁]
        exact allBlank_of_isSpace (by simpa using hg.1)
      · exact List.forall_mem_cons.2 ⟨hg.1, hplain fun h => hn (List.mem_cons_of_mem c h)⟩
  | @margin m₁ m₂ s₁ s₂ h₁ hn h₂ hne h ih =>
    obtain ⟨v, rfl, rfl⟩ := split_front (fun b hb => isInert_of_isSpace (h₂ b hb)) hx hs.symm
    obtain ⟨g₁, r₁, rfl, hg₁, -, -, hr⟩ := ih (fun b hb => hg b (List.mem_append_right _ hb)) rfl
    refine ⟨m₁ ++ g₁, r₁, by simp, ?_, fun hno => ?_, fun hnil => ?_, hr⟩
    · rw [allBlank_append_of_left h₁, hg₁]
    · exact absurd (List.mem_append_left g₁ hn) hno
    · exact absurd (List.append_eq_nil_iff.1 hnil).1 hne

/-- A place in front of something visible has its counterpart on the second side. -/
theorem exists_suffix_right (h : Spread a₁ a₂) (hs : x :: r <:+ a₁) :
    ∃ s₂, s₂ <:+ a₂ ∧ Spread (x :: r) s₂ := by
  induction h with
  | done ht =>
    exact absurd (isInert_of_allBlank ht (hs.subset List.mem_cons_self)) (by simp [hx])
  | @byte s₁ s₂ b h ih =>
    rcases List.suffix_cons_iff.1 hs with heq | hs
    · exact ⟨b :: s₂, List.suffix_refl _, heq ▸ .byte b h⟩
    · obtain ⟨t, ht, hr⟩ := ih hs
      exact ⟨t, ht.trans (List.suffix_cons b s₂), hr⟩
  | @margin m₁ m₂ s₁ s₂ h₁ hn h₂ hne h ih =>
    obtain ⟨front, hfront⟩ := hs
    obtain ⟨v, rfl, rfl⟩ := split_front (fun b hb => isInert_of_allBlank h₁ hb) hx hfront.symm
    obtain ⟨t, ht, hr⟩ := ih (List.suffix_append v _)
    exact ⟨t, ht.trans (List.suffix_append m₂ s₂), hr⟩

theorem exists_suffix_left (h : Spread a₁ a₂) (hs : x :: r <:+ a₂) :
    ∃ s₁, s₁ <:+ a₁ ∧ Spread s₁ (x :: r) := by
  induction h with
  | done ht => exact absurd (List.suffix_nil.1 hs) (List.cons_ne_nil x r)
  | @byte s₁ s₂ b h ih =>
    rcases List.suffix_cons_iff.1 hs with heq | hs
    · exact ⟨b :: s₁, List.suffix_refl _, heq ▸ .byte b h⟩
    · obtain ⟨t, ht, hr⟩ := ih hs
      exact ⟨t, ht.trans (List.suffix_cons b s₁), hr⟩
  | @margin m₁ m₂ s₁ s₂ h₁ hn h₂ hne h ih =>
    obtain ⟨front, hfront⟩ := hs
    obtain ⟨v, rfl, rfl⟩ := split_front (fun b hb => isInert_of_isSpace (h₂ b hb)) hx hfront.symm
    obtain ⟨t, ht, hr⟩ := ih (List.suffix_append v _)
    exact ⟨t, ht.trans (List.suffix_append m₁ s₁), hr⟩

end Visible

theorem word_right {w : Bytes} (hw : ∀ b ∈ w, isInert b = false) (h : Spread (w ++ r) s₂) :
    ∃ r₂, s₂ = w ++ r₂ ∧ Spread r r₂ := by
  induction w generalizing s₂ with
  | nil => exact ⟨s₂, rfl, h⟩
  | cons b w ih =>
    rw [List.forall_mem_cons] at hw
    obtain ⟨g, t, rfl, -, hnil, ht⟩ := exists_right (g := []) hw.1 (by simp) h
    obtain rfl := hnil rfl
    obtain ⟨r₂, rfl, hr⟩ := ih hw.2 ht
    exact ⟨r₂, rfl, hr⟩

theorem word_left {w : Bytes} (hw : ∀ b ∈ w, isInert b = false) (h : Spread s₁ (w ++ r)) :
    ∃ r₁, s₁ = w ++ r₁ ∧ Spread r₁ r := by
  induction w generalizing s₁ with
  | nil => exact ⟨s₁, rfl, h⟩
  | cons b w ih =>
    rw [List.forall_mem_cons] at hw
    obtain ⟨g, t, rfl, -, -, hnil, ht⟩ := exists_left (g := []) hw.1 (by simp) h
    obtain rfl := hnil rfl
    obtain ⟨r₁, rfl, hr⟩ := ih hw.2 ht
    exact ⟨r₁, rfl, hr⟩

theorem ends_word_iff (h : Spread s₁ s₂) :
    (∀ b ∈ s₁.head?, isWord b = false) ↔ ∀ b ∈ s₂.head?, isWord b = false := by
  have hinert : ∀ {m s : Bytes}, m ≠ [] → (∀ b ∈ m, isInert b = true) →
      ∀ b ∈ (m ++ s).head?, isWord b = false := by
    intro m s hne hm b hb
    obtain ⟨c, m, rfl⟩ := List.exists_cons_of_ne_nil hne
    obtain rfl : c = b := by simpa using hb
    exact isWord_of_isInert (hm c List.mem_cons_self)
  cases h with
  | done ht =>
    refine iff_of_true (fun b hb => ?_) (by simp)
    exact isWord_of_isInert (isInert_of_allBlank ht (List.mem_of_mem_head? hb))
  | byte b h => rfl
  | margin h₁ hn h₂ hne h =>
    refine iff_of_true (hinert (List.ne_nil_of_mem hn) fun b hb => isInert_of_allBlank h₁ hb)
      (hinert hne fun b hb => isInert_of_isSpace (h₂ b hb))

end Spread

private theorem isBlank_of_isInert {x : UInt8} (hx : isInert x = false) :
    isBlank (Char.ofNat x.toNat) = false := by
  by_contra hblank
  rw [Bool.not_eq_false] at hblank
  have hall : allBlank [x] = true :=
    allBlank_of_ascii (by simpa using ⟨lt_of_isInert hx, hblank⟩)
  exact absurd (isInert_of_allBlank hall List.mem_cons_self) (by simp [hx])

private theorem leadingBlank_append {g r : Bytes} {x : UInt8} (hg : allBlank g = true)
    (hx : isInert x = false) : leadingBlank (g ++ x :: r) = g := by
  have hstop : blank (.char (Char.ofNat x.toNat)) = false := isBlank_of_isInert hx
  rw [leadingBlank, decode_append_of_allBlank hg,
    List.takeWhile_append_of_pos (allBlank_iff.1 hg), Utf8.decode_cons,
    first_ascii r (lt_of_isInert hx), List.takeWhile_cons_of_neg (by simp [hstop]),
    List.append_nil, Utf8.encode_decode]

private theorem isSpace_of_breaksPlainly {g r : Bytes} {x : UInt8} (h : BreaksPlainly (g ++ x :: r))
    (hg : allBlank g = true) (hx : isInert x = false)
    (hplain : newline ∉ g → ∀ b ∈ g, isSpace b = true) : ∀ b ∈ g, isSpace b = true := by
  rw [BreaksPlainly, leadingBlank_append hg hx] at h
  by_cases hn : newline ∈ g
  · exact h hn
  · exact hplain hn

section EndTags
variable {name s₁ s₂ : Bytes}

private theorem after?_append (start s : Bytes) : after? start (start ++ s) = some s := by
  rw [after?, if_pos (List.isPrefixOf_iff_prefix.2 (List.prefix_append start s)), List.drop_left]

private theorem isInert_of_sign {sign : Bytes} (h : sign ∈ [[], [43], [45]]) :
    ∀ b ∈ sign, isInert b = false := by
  simp only [List.mem_cons, List.not_mem_nil, or_false] at h
  rcases h with rfl | rfl | rfl <;> decide +kernel

private theorem dropSign_append {sign lead r : Bytes} {x : UInt8} (h : sign ∈ [[], [43], [45]])
    (hlead : allBlank lead = true) (hx : x ∉ [43, 45]) :
    Template.dropSign (sign ++ (lead ++ x :: r)) = lead ++ x :: r := by
  have hnone : ∀ b s, b ∉ [43, 45] → Template.dropSign (b :: s) = b :: s := by
    intro b s hb
    unfold Template.dropSign
    split <;> simp_all
  simp only [List.mem_cons, List.not_mem_nil, or_false] at h
  rcases h with rfl | rfl | rfl
  · cases lead with
    | nil => exact hnone x r hx
    | cons b lead =>
      refine hnone b _ fun hb => ?_
      have hinert := isInert_of_allBlank hlead List.mem_cons_self
      simp only [List.mem_cons, List.not_mem_nil, or_false] at hb
      rcases hb with rfl | rfl <;> exact absurd hinert (by decide)
  · rfl
  · rfl

/-- An end tag on the first side is one on the second. -/
theorem RegularEndAt.right (hne : name ≠ []) (hname : ∀ b ∈ name, isWord b = true)
    (h : Spread s₁ s₂) (he : RegularEndAt name s₁) : RegularEndAt name s₂ := by
  obtain ⟨x, more, rfl⟩ := List.exists_cons_of_ne_nil hne
  have hword : ∀ b ∈ x :: more, isInert b = false := fun b hb => isInert_of_isWord (hname b hb)
  rw [List.forall_mem_cons] at hword
  have hend : ascii "end" = 101 :: ascii "nd" := by decide
  have hmark : isInert 95 = false := by decide
  obtain ⟨sign, lead, mid, rest, rfl, hsign, hlead, hmid, hrest⟩ := he
  rw [hend, List.cons_append] at h
  obtain ⟨r₁, rfl, h₁⟩ := h.word_right (by decide +kernel)
  obtain ⟨r₂, rfl, h₂⟩ := h₁.word_right (isInert_of_sign hsign)
  obtain ⟨lead₂, r₃, rfl, hlead₂, -, h₃⟩ := h₂.exists_right (by decide) hlead
  obtain ⟨r₄, rfl, h₄⟩ := h₃.word_right (by decide +kernel)
  have hlast : ∃ mid₂ r₅, r₄ = mid₂ ++ x :: r₅ ∧ (mid₂ = [95] ∨ ∀ b ∈ mid₂, isSpace b = true) ∧
      Spread (more ++ rest) r₅ := by
    rcases hmid with rfl | hmid
    · obtain ⟨r₅, rfl, h₅⟩ := h₄.word_right (w := [95, x]) (by simp [hword.1, hmark])
      exact ⟨[95], r₅, rfl, Or.inl rfl, h₅⟩
    · obtain ⟨mid₂, r₅, rfl, hmid₂, -, h₅⟩ := h₄.exists_right hword.1 hmid
      exact ⟨mid₂, r₅, rfl, Or.inr hmid₂, h₅⟩
  obtain ⟨mid₂, r₅, rfl, hmid₂, h₅⟩ := hlast
  obtain ⟨rest₂, rfl, h₆⟩ := h₅.word_right hword.2
  exact ⟨sign, lead₂, mid₂, rest₂, by simp [hend], hsign, hlead₂, hmid₂, h₆.ends_word_iff.1 hrest⟩

/-- The other way, if there is no other white space in the tag than the search steps over. -/
theorem RegularEndAt.left (hne : name ≠ []) (hname : ∀ b ∈ name, isWord b = true)
    (h : Spread s₁ s₂) (hplain : EndsPlainly s₁) (he : RegularEndAt name s₂) :
    RegularEndAt name s₁ := by
  obtain ⟨x, more, rfl⟩ := List.exists_cons_of_ne_nil hne
  have hword : ∀ b ∈ x :: more, isInert b = false := fun b hb => isInert_of_isWord (hname b hb)
  rw [List.forall_mem_cons] at hword
  have hend : ascii "end" = 101 :: ascii "nd" := by decide
  have hmark : isInert 95 = false := by decide
  obtain ⟨sign, lead, mid, rest, rfl, hsign, hlead, hmid, hrest⟩ := he
  rw [hend, List.cons_append] at h
  obtain ⟨r₁, rfl, h₁⟩ := h.word_left (by decide +kernel)
  obtain ⟨r₂, rfl, h₂⟩ := h₁.word_left (isInert_of_sign hsign)
  obtain ⟨lead₁, r₃, rfl, hblank, hspace, -, h₃⟩ := h₂.exists_left (by decide) hlead
  obtain ⟨r₄, rfl, h₄⟩ := h₃.word_left (by decide +kernel)
  obtain ⟨hfront, hbehind⟩ := hplain _ (after?_append _ _)
  rw [dropSign_append hsign hblank (by decide)] at hfront hbehind
  have hlead₁ : ∀ b ∈ lead₁, isSpace b = true :=
    isSpace_of_breaksPlainly hfront hblank (by decide) hspace
  have hlast : ∃ mid₁ r₅, r₄ = mid₁ ++ x :: r₅ ∧ (mid₁ = [95] ∨ ∀ b ∈ mid₁, isSpace b = true) ∧
      Spread r₅ (more ++ rest) := by
    rcases hmid with rfl | hmid
    · obtain ⟨r₅, rfl, h₅⟩ := h₄.word_left (w := [95, x]) (by simp [hword.1, hmark])
      exact ⟨[95], r₅, rfl, Or.inl rfl, h₅⟩
    · obtain ⟨mid₁, r₅, rfl, hblank₁, hspace₁, -, h₅⟩ := h₄.exists_left hword.1 hmid
      refine ⟨mid₁, r₅, rfl, Or.inr ?_, h₅⟩
      refine isSpace_of_breaksPlainly (hbehind (mid₁ ++ x :: r₅) ?_) hblank₁ hword.1 hspace₁
      rw [List.dropWhile_append_of_pos hlead₁, List.dropWhile_cons_of_neg (by decide),
        ← List.cons_append, ← hend]
      exact after?_append _ _
  obtain ⟨mid₁, r₅, rfl, hmid₁, h₅⟩ := hlast
  obtain ⟨rest₁, rfl, h₆⟩ := h₅.word_left hword.2
  exact ⟨sign, lead₁, mid₁, rest₁, by simp [hend], hsign, hlead₁, hmid₁, h₆.ends_word_iff.2 hrest⟩

end EndTags

/-- The end tag of a block is ahead on both sides or on none. -/
theorem isSome_findEndTag_of_spread {blocks : Blocks} {name ahead₁ ahead₂ : Bytes}
    (hne : name ≠ []) (hname : ∀ b ∈ name, isWord b = true)
    (hsteady : (Question.endTag (blocks.endOf name) ahead₁).Steady) (h : Spread ahead₁ ahead₂) :
    (findEndTag blocks name ahead₁).isSome = (findEndTag blocks name ahead₂).isSome := by
  obtain ⟨hown, hplain⟩ := hsteady
  have hbrace : isInert 123 = false := by decide
  rw [Bool.eq_iff_iff, isSome_findEndTag_iff, isSome_findEndTag_iff]
  simp only [endTagAt_iff hown hne hname]
  constructor
  · rintro ⟨s, hs, he⟩
    obtain ⟨r, rfl⟩ : ∃ r, s = 123 :: r := by
      obtain ⟨sign, lead, mid, rest, rfl, -⟩ := he
      exact ⟨_, rfl⟩
    obtain ⟨t, ht, hr⟩ := h.exists_suffix_right hbrace hs
    exact ⟨t, ht, he.right hne hname hr⟩
  · rintro ⟨t, ht, he⟩
    obtain ⟨r, rfl⟩ : ∃ r, t = 123 :: r := by
      obtain ⟨sign, lead, mid, rest, rfl, -⟩ := he
      exact ⟨_, rfl⟩
    obtain ⟨s, hs, hr⟩ := h.exists_suffix_left hbrace ht
    exact ⟨s, hs, he.left hne hname hr (hplain s ((List.mem_tails _ _).2 hs))⟩

end Reindent
