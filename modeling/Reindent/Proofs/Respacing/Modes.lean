import Mathlib.Data.List.Forall2
import Reindent.Mode.Reading
import Reindent.ModeStack
import Reindent.Proofs.Blank
import Reindent.Proofs.Outline

/-! Two runs side by side: what their tokens, lines and modes have in common, and that each mode
keeps it up. The offsets of two runs with different tab widths have nothing in common. -/
namespace Reindent

/-- Two runs, by their tab widths and by whether they read the same text. -/
structure Contrast where
  first : Int64
  second : Int64
  same : Prop

namespace Contrast

/-- Offsets that differ only if the tab widths do. -/
def Near (c : Contrast) (o₁ o₂ : Int64) : Prop := c.first = c.second → o₁ = o₂

theorem near_refl (c : Contrast) (o : Int64) : c.Near o o := fun _ => rfl

/-- The tag of a script has the same text in both runs, unless a line break tears it. -/
def Whole (c : Contrast) (torn : Bool) : Prop := c.same ∨ torn = false

end Contrast

variable {c : Contrast} {torn : Bool}

namespace Token

/-- Tokens that count alike for the outline of a line. -/
structure Like (c : Contrast) (t₁ t₂ : Token) : Prop where
  blank : t₁.isBlank = t₂.isBlank
  nests : t₁.nests = t₂.nests
  offset : c.Near t₁.offset t₂.offset
  equal : t₁.nests = true → c.first = c.second → t₁ = t₂

theorem like_refl (c : Contrast) (t : Token) : t.Like c t :=
  ⟨rfl, rfl, c.near_refl _, fun _ _ => rfl⟩

theorem like_plain {text₁ text₂ : Bytes} (h : Text.allBlank text₁ = Text.allBlank text₂)
    (kind : Kind) : (plain text₁ kind).Like c (plain text₂ kind) :=
  ⟨h, rfl, c.near_refl 0, fun hn => absurd hn (by simp [nests, plain])⟩

theorem like_verbatim {text₁ text₂ : Bytes} (h : Text.allBlank text₁ = Text.allBlank text₂) :
    (verbatim text₁).Like c (verbatim text₂) :=
  ⟨h, rfl, c.near_refl 0, fun hn => absurd hn (by simp [nests, verbatim])⟩

theorem Like.withOffset {t₁ t₂ : Token} (h : t₁.Like c t₂) {o₁ o₂ : Int64} (ho : c.Near o₁ o₂) :
    ({ t₁ with offset := o₁ } : Token).Like c { t₂ with offset := o₂ } where
  blank := h.blank
  nests := h.nests
  offset := ho
  equal := by
    intro hn hw
    rw [h.equal hn hw, ho hw]

end Token

namespace Line

/-- Lines with the same outline, as far as the tab widths allow. -/
structure Like (c : Contrast) (l₁ l₂ : Line) : Prop where
  number : l₁.number = l₂.number
  blank : l₁.isBlank = l₂.isBlank
  outline : c.first = c.second → l₁.outline = l₂.outline

theorem like_empty (c : Contrast) (number : Int64) :
    ({ number } : Line).Like c { number } := ⟨rfl, rfl, fun _ => rfl⟩

theorem Like.symm {l₁ l₂ : Line} (h : l₁.Like c l₂) : l₂.Like c l₁ :=
  ⟨h.number.symm, h.blank.symm, fun hw => (h.outline hw).symm⟩

private theorem exists_outline {l : Line} (h : l.isBlank = false) : ∃ o, l.outline = some o := by
  apply Option.ne_none_iff_exists'.1
  rw [ne_eq, outline_eq_none_iff, h]
  exact Bool.false_ne_true

theorem Like.append {l₁ l₂ : Line} {t₁ t₂ : Token} (h : l₁.Like c l₂) (ht : t₁.Like c t₂) :
    (l₁.append t₁).Like c (l₂.append t₂) where
  number := h.number
  blank := by rw [isBlank_append, isBlank_append, h.blank, ht.blank]
  outline := by
    intro hw
    have hnesting : (if t₁.nests then [t₁.numbered l₁.number] else []) =
        if t₂.nests then [t₂.numbered l₂.number] else [] := by
      rw [← ht.nests, ← h.number]
      split_ifs with hn
      · rw [ht.equal hn hw]
      · rfl
    cases hb : l₁.isBlank with
    | true =>
      rw [outline_append_of_blank hb, outline_append_of_blank (h.blank ▸ hb), ht.blank, ht.nests,
        ht.offset hw, ← ht.nests, hnesting, ht.nests]
    | false =>
      obtain ⟨o, ho⟩ := exists_outline hb
      rw [outline_append_of_visible ho, outline_append_of_visible (h.outline hw ▸ ho), hnesting]

/-- A token that neither nests nor is the first to show leaves the outline as it is. -/
theorem Like.appendLeft {l₁ l₂ : Line} {t : Token} (h : l₁.Like c l₂) (hn : t.nests = false)
    (ht : l₁.isBlank = true → t.isBlank = true) : (l₁.append t).Like c l₂ where
  number := h.number
  blank := by
    rw [isBlank_append, ← h.blank]
    cases hb : l₁.isBlank with
    | true => exact ht hb
    | false => rfl
  outline := by
    intro hw
    rw [← h.outline hw]
    cases hb : l₁.isBlank with
    | true => rw [outline_append_of_blank hb, if_pos (ht hb), outline_eq_none_iff.2 hb]
    | false =>
      obtain ⟨o, ho⟩ := exists_outline hb
      rw [outline_append_of_visible ho, ho, hn, if_neg Bool.false_ne_true, List.append_nil]

/-- A visible piece of verbatim text counts like two pieces, the second of which shows. -/
theorem Like.appendVerbatim {l₁ l₂ : Line} (h : l₁.Like c l₂) (first : Bytes)
    {second whole : Bytes} (hs : Text.allBlank second = false) (hw : Text.allBlank whole = false) :
    ((l₁.append (.verbatim first)).append (.verbatim second)).Like c
      (l₂.append (.verbatim whole)) := by
  have hsecond : (Token.verbatim second).Like c (.verbatim whole) :=
    Token.like_verbatim (hs.trans hw.symm)
  by_cases hlead : l₁.isBlank = true → (Token.verbatim first).isBlank = true
  · exact (h.appendLeft rfl hlead).append hsecond
  · rw [Classical.not_imp, Bool.not_eq_true] at hlead
    have hfirst : (Token.verbatim first).Like c (.verbatim whole) :=
      Token.like_verbatim (hlead.2.trans hw.symm)
    apply (h.append hfirst).appendLeft rfl
    intro hb
    rw [isBlank_append, hlead.2, Bool.and_false] at hb
    exact absurd hb (by simp)

end Line

def OpenTag.isScript (o : OpenTag) : Bool := o.name == Bytes.ascii "script"

def Mode.inScriptTag : Mode → Bool
  | .tag o => o.isScript
  | _ => false

/-- The tag of a script is read, or will be read again. -/
def ModeStack.inScriptTag (s : ModeStack) : Bool :=
  s.active.inScriptTag || s.returns.any Mode.inScriptTag

/-- Texts that differ in white space, but not if they stand in the tag of a script on one line. -/
structure Mode.Respaces (c : Contrast) (torn : Bool) (mode : Mode) (text₁ text₂ : Bytes) :
    Prop where
  blank : Text.allBlank text₁ = Text.allBlank text₂
  visible : Text.visible text₁ = Text.visible text₂
  whole : c.Whole torn → mode.inScriptTag = true → text₁ = text₂

theorem Mode.respaces_refl (c : Contrast) (torn : Bool) (mode : Mode) (text : Bytes) :
    mode.Respaces c torn text text := ⟨rfl, rfl, fun _ _ => rfl⟩

/-- Opening tags with the same name, whose texts differ in white space. -/
structure OpenTag.Like (c : Contrast) (torn : Bool) (o₁ o₂ : OpenTag) : Prop where
  name : o₁.name = o₂.name
  offset : c.Near o₁.offset o₂.offset
  visible : Text.visible o₁.source = Text.visible o₂.source
  whole : c.Whole torn → o₁.isScript = true → o₁.source = o₂.source

structure Frame.Like (c : Contrast) (f₁ f₂ : Frame) : Prop where
  offset : c.Near f₁.offset f₂.offset
  hard : f₁.hard = f₂.hard
  caseOpen : f₁.caseOpen = f₂.caseOpen

structure ScriptState.Like (c : Contrast) (s₁ s₂ : ScriptState) : Prop where
  frames : List.Forall₂ (Frame.Like c) s₁.frames s₂.frames
  switching : s₁.switching = s₂.switching
  lineOffset : c.Near s₁.lineOffset s₂.lineOffset

theorem OpenTag.Like.isScript {o₁ o₂ : OpenTag} (h : o₁.Like c torn o₂) :
    o₁.isScript = o₂.isScript := by
  rw [OpenTag.isScript, OpenTag.isScript, h.name]

/-- Modes with the same grammar and the same state, but for what depends on the white space around
lines and on the tab width. -/
inductive Mode.Like (c : Contrast) (torn : Bool) : Mode → Mode → Prop where
  | text : Like c torn .text .text
  | markup : Like c torn .markup .markup
  | tag {o₁ o₂ : OpenTag} (h : o₁.Like c torn o₂) : Like c torn (.tag o₁) (.tag o₂)
  | endTag : Like c torn .endTag .endTag
  | style (s : StyleState) : Like c torn (.style s) (.style s)
  | script {s₁ s₂ : ScriptState} (h : s₁.Like c s₂) : Like c torn (.script s₁) (.script s₂)
  | verbatim (r : Region) : Like c torn (.verbatim r) (.verbatim r)

inductive Move.Like (c : Contrast) (torn : Bool) : Move → Move → Prop where
  | keep {m₁ m₂ : Mode} (h : m₁.Like c torn m₂) : Like c torn (.keep m₁) (.keep m₂)
  | enter {m₁ m₂ i₁ i₂ : Mode} (h : m₁.Like c torn m₂) (hi : i₁.Like c torn i₂) :
    Like c torn (.enter m₁ i₁) (.enter m₂ i₂)
  | leave : Like c torn .leave .leave

structure ModeStack.Like (c : Contrast) (torn : Bool) (s₁ s₂ : ModeStack) : Prop where
  active : s₁.active.Like c torn s₂.active
  returns : List.Forall₂ (Mode.Like c torn) s₁.returns s₂.returns

theorem Mode.like_refl (c : Contrast) (torn : Bool) (m : Mode) : m.Like c torn m := by
  cases m with
  | text => exact .text
  | markup => exact .markup
  | tag o => exact .tag ⟨rfl, c.near_refl _, rfl, fun _ _ => rfl⟩
  | endTag => exact .endTag
  | style s => exact .style s
  | script s =>
    refine .script ⟨?_, rfl, c.near_refl _⟩
    induction s.frames with
    | nil => exact .nil
    | cons f fs ih => exact .cons ⟨c.near_refl _, rfl, rfl⟩ ih
  | verbatim r => exact .verbatim r

theorem ModeStack.like_refl (c : Contrast) (torn : Bool) (s : ModeStack) : s.Like c torn s := by
  refine ⟨s.active.like_refl c torn, ?_⟩
  induction s.returns with
  | nil => exact .nil
  | cons m ms ih => exact .cons (m.like_refl c torn) ih

theorem Mode.Like.untorn {m₁ m₂ : Mode} (h : m₁.Like c true m₂) (hm : m₁.inScriptTag = false) :
    m₁.Like c torn m₂ := by
  cases h with
  | tag ho =>
    refine .tag ⟨ho.name, ho.offset, ho.visible, fun _ hscript => ?_⟩
    exact absurd (hm.symm.trans hscript) (by simp)
  | text => exact .text
  | markup => exact .markup
  | endTag => exact .endTag
  | style s => exact .style s
  | script hs => exact .script hs
  | verbatim r => exact .verbatim r

theorem Mode.Like.inScriptTag {m₁ m₂ : Mode} (h : m₁.Like c torn m₂) :
    m₁.inScriptTag = m₂.inScriptTag := by
  cases h with
  | tag ho => exact ho.isScript
  | _ => rfl

/-- At the end of a line, the tags that are open are torn. -/
theorem Mode.Like.tear {m₁ m₂ : Mode} (h : m₁.Like c torn m₂) : m₁.Like c true m₂ := by
  cases h with
  | tag ho =>
    refine .tag ⟨ho.name, ho.offset, ho.visible, fun hw hscript => ho.whole ?_ hscript⟩
    exact hw.imp_right fun h => absurd h (by simp)
  | text => exact .text
  | markup => exact .markup
  | endTag => exact .endTag
  | style s => exact .style s
  | script hs => exact .script hs
  | verbatim r => exact .verbatim r

/-- What two modes see of their lines. -/
structure Sight.Like (c : Contrast) (s₁ s₂ : Sight) : Prop where
  first : s₁.tabWidth = c.first
  second : s₂.tabWidth = c.second
  line : s₁.line.Like c s₂.line

namespace ModeStack.Like
variable {s₁ s₂ : ModeStack}

theorem tear (h : s₁.Like c torn s₂) : s₁.Like c true s₂ :=
  ⟨h.active.tear, h.returns.imp fun _ _ hm => hm.tear⟩

theorem inScriptTag (h : s₁.Like c torn s₂) : s₁.inScriptTag = s₂.inScriptTag := by
  have hreturns : s₁.returns.any Mode.inScriptTag = s₂.returns.any Mode.inScriptTag := by
    have hreturns := h.returns
    generalize s₁.returns = r₁ at hreturns
    generalize s₂.returns = r₂ at hreturns
    induction hreturns with
    | nil => rfl
    | cons hm _ ih => rw [List.any_cons, List.any_cons, hm.inScriptTag, ih]
  rw [ModeStack.inScriptTag, ModeStack.inScriptTag, h.active.inScriptTag, hreturns]

theorem untorn (h : s₁.Like c true s₂) : s₁.Like c s₁.inScriptTag s₂ := by
  cases hs : s₁.inScriptTag with
  | true => exact h
  | false =>
    rw [ModeStack.inScriptTag, Bool.or_eq_false_iff] at hs
    refine ⟨h.active.untorn hs.1, ?_⟩
    have hreturns := h.returns
    generalize s₁.returns = r₁ at hs hreturns
    generalize s₂.returns = r₂ at hreturns
    induction hreturns with
    | nil => exact .nil
    | cons hm _ ih =>
      rw [List.any_cons, Bool.or_eq_false_iff] at hs
      exact .cons (hm.untorn hs.2.1) (ih ⟨hs.1, hs.2.2⟩)

theorem embedded (h : s₁.Like c torn s₂) : s₁.embedded = s₂.embedded := by
  obtain ⟨a₁, r₁, n₁, l₁⟩ := s₁
  obtain ⟨a₂, r₂, n₂, l₂⟩ := s₂
  cases h.returns with
  | nil => rfl
  | cons _ _ => rfl

theorem setActive (h : s₁.Like c torn s₂) {m₁ m₂ : Mode} (hm : m₁.Like c torn m₂) :
    (s₁.setActive m₁).Like c torn (s₂.setActive m₂) := ⟨hm, h.returns⟩

theorem leave (h : s₁.Like c torn s₂) : s₁.leave.Like c torn s₂.leave := by
  obtain ⟨a₁, r₁, n₁, l₁⟩ := s₁
  obtain ⟨a₂, r₂, n₂, l₂⟩ := s₂
  obtain ⟨hactive, hreturns⟩ := h
  unfold ModeStack.leave
  cases hreturns with
  | nil => exact ⟨hactive, .nil⟩
  | cons hm hreturns =>
    dsimp only
    split_ifs
    all_goals exact ⟨hm, hreturns⟩

theorem apply (h : s₁.Like c torn s₂) {v₁ v₂ : Move} (hv : v₁.Like c torn v₂) :
    (s₁.apply v₁).Like c torn (s₂.apply v₂) := by
  cases hv with
  | keep hm => exact h.setActive hm
  | enter hm hi => exact ⟨hi, .cons hm h.returns⟩
  | leave => exact h.leave

end ModeStack.Like

namespace Sight.Like
variable {s₁ s₂ : Sight}

theorem atStart (h : s₁.Like c s₂) : s₁.atStart = s₂.atStart := h.line.blank

theorem leads (h : s₁.Like c s₂) {t₁ t₂ : Token} (ht : t₁.Like c t₂) :
    s₁.leads t₁ = s₂.leads t₂ := by
  unfold Sight.leads
  rw [h.atStart, ht.blank]

theorem tabWidth (h : s₁.Like c s₂) : c.Near s₁.tabWidth s₂.tabWidth := by
  intro hw
  rw [h.first, h.second, hw]

end Sight.Like

section Settle
variable {sight₁ sight₂ : Sight} (hs : sight₁.Like c sight₂)
include hs

theorem OpenTag.Like.settle {o₁ o₂ : OpenTag} (ho : o₁.Like c torn o₂) {t₁ t₂ : Token}
    (ht : t₁.Like c t₂) (htext : (Mode.tag o₁).Respaces c torn t₁.text t₂.text) :
    (o₁.settle sight₁ t₁).1.Like c (o₂.settle sight₂ t₂).1 ∧
      (o₁.settle sight₁ t₁).2.Like c torn (o₂.settle sight₂ t₂).2 := by
  unfold OpenTag.settle
  rw [hs.leads ht]
  constructor
  · dsimp only
    split_ifs
    · exact ht.withOffset ho.offset
    · exact ht
  · refine ⟨ho.name, ho.offset, ?_, fun hw hscript => ?_⟩
    · rw [Text.visible_append, Text.visible_append, ho.visible, htext.visible]
    · rw [ho.whole hw hscript, htext.whole hw hscript]

theorem StyleState.like_settle (s : StyleState) {t₁ t₂ : Token} (ht : t₁.Like c t₂) :
    (s.settle sight₁ t₁).Like c (s.settle sight₂ t₂) := by
  unfold StyleState.settle
  rw [hs.leads ht]
  split_ifs
  · exact ht.withOffset hs.tabWidth
  · exact ht

omit hs in
theorem ScriptState.Like.base {s₁ s₂ : ScriptState} (h : s₁.Like c s₂) :
    c.Near s₁.base s₂.base := by
  obtain ⟨frames₁, switching₁, offset₁⟩ := s₁
  obtain ⟨frames₂, switching₂, offset₂⟩ := s₂
  cases h.frames with
  | nil => exact c.near_refl 0
  | cons hf _ => exact hf.offset

theorem ScriptState.Like.settle {s₁ s₂ : ScriptState} (h : s₁.Like c s₂) {t₁ t₂ : Token}
    (ht : t₁.Like c t₂) :
    (s₁.settle sight₁ t₁).1.Like c (s₂.settle sight₂ t₂).1 ∧
      (s₁.settle sight₁ t₁).2.Like c (s₂.settle sight₂ t₂).2 := by
  unfold ScriptState.settle
  rw [hs.leads ht]
  split_ifs
  · exact ⟨ht.withOffset h.base, h.frames, h.switching, h.base⟩
  · exact ⟨ht, h⟩

theorem Mode.Like.settle {m₁ m₂ : Mode} (h : m₁.Like c torn m₂) {t₁ t₂ : Token}
    (ht : t₁.Like c t₂) (htext : m₁.Respaces c torn t₁.text t₂.text) :
    (m₁.settle sight₁ t₁).1.Like c (m₂.settle sight₂ t₂).1 ∧
      (m₁.settle sight₁ t₁).2.Like c torn (m₂.settle sight₂ t₂).2 := by
  cases h with
  | tag ho =>
    obtain ⟨htoken, htag⟩ := ho.settle hs ht htext
    exact ⟨htoken, .tag htag⟩
  | style s => exact ⟨s.like_settle hs ht, .style s⟩
  | script hstate =>
    obtain ⟨htoken, hscript⟩ := hstate.settle hs ht
    exact ⟨htoken, .script hscript⟩
  | text => exact ⟨ht, .text⟩
  | markup => exact ⟨ht, .markup⟩
  | endTag => exact ⟨ht, .endTag⟩
  | verbatim r => exact ⟨ht, .verbatim r⟩

/-- Text between lexemes counts alike in both runs if it shows in both or in none. -/
theorem Mode.Like.readText {m₁ m₂ : Mode} (h : m₁.Like c torn m₂) {text₁ text₂ : Bytes}
    (htext : m₁.Respaces c torn text₁ text₂) :
    (m₁.readText sight₁ text₁).1.Like c (m₂.readText sight₂ text₂).1 ∧
      (m₁.readText sight₁ text₁).2.Like c torn (m₂.readText sight₂ text₂).2 := by
  have hsettle : ∀ kind, (m₁.settle sight₁ (.plain text₁ kind)).1.Like c
      (m₂.settle sight₂ (.plain text₂ kind)).1 ∧ (m₁.settle sight₁ (.plain text₁ kind)).2.Like c
      torn (m₂.settle sight₂ (.plain text₂ kind)).2 :=
    fun kind => h.settle hs (Token.like_plain htext.blank kind) htext
  cases h with
  | verbatim r => exact ⟨Token.like_verbatim htext.blank, .verbatim r⟩
  | text => exact hsettle .text
  | markup => exact hsettle .markup
  | tag ho => exact hsettle .markup
  | endTag => exact hsettle .markup
  | style s => exact hsettle .style
  | script hstate => exact hsettle .script

end Settle
section Read
variable {sight₁ sight₂ : Sight} (hs : sight₁.Like c sight₂) {lexeme : Lexeme} {text : Bytes}
include hs

/-- A tag has the same offset in both runs if its first attribute stands in the same place. -/
theorem Markup.like_openTag (hcolumn : sight₁.line.column = sight₂.line.column)
    (hgap : Markup.attributeGap? sight₁.rest = Markup.attributeGap? sight₂.rest) (text : Bytes) :
    (Markup.openTag sight₁ text).Like c torn (Markup.openTag sight₂ text) := by
  refine ⟨rfl, ?_, rfl, fun _ _ => rfl⟩
  intro hw
  unfold Markup.openTag
  dsimp only
  rw [hgap, hcolumn, hs.tabWidth hw]

omit hs in
theorem Markup.like_read (hlabel : lexeme ∈ Markup.tags.map Prod.fst)
    (hopen : lexeme = .tagStart →
      (Markup.openTag sight₁ text).Like c torn (Markup.openTag sight₂ text)) :
    (Markup.read sight₁ lexeme text).1.Like c (Markup.read sight₂ lexeme text).1 ∧
      (Markup.read sight₁ lexeme text).2.Like c torn (Markup.read sight₂ lexeme text).2 := by
  simp only [Markup.tags, List.map_cons, List.map_nil, List.mem_cons, List.not_mem_nil,
    or_false] at hlabel
  rcases hlabel with rfl | rfl | rfl | rfl | rfl
  · exact ⟨Token.like_refl c _, .enter .markup (.verbatim _)⟩
  · exact ⟨Token.like_refl c _, .enter .markup (.verbatim _)⟩
  · exact ⟨Token.like_refl c _, .keep .markup⟩
  · exact ⟨Token.like_refl c _, .enter .markup .endTag⟩
  · exact ⟨Token.like_refl c _, .enter .markup (.tag (hopen rfl))⟩

omit hs in
/-- The content of an element is read alike, if it is a script whenever it is one in the other
run. -/
theorem OpenTag.Like.content {o₁ o₂ : OpenTag} (ho : o₁.Like c torn o₂)
    (hscript : o₁.isScript = true → templateScript.occursIn o₁.source =
      templateScript.occursIn o₂.source) : o₁.content.Like c torn o₂.content := by
  have hempty : ScriptState.Like c {} {} := ⟨.nil, rfl, c.near_refl 0⟩
  unfold OpenTag.content
  rw [← ho.name]
  split_ifs with hstyle hname h₁ h₂ h₂
  · exact .keep (.style {})
  · exact .leave
  · rw [hscript hname] at h₁
    exact absurd h₁ h₂
  · rw [hscript hname] at h₁
    exact absurd h₂ h₁
  · exact .keep (.script hempty)
  · exact .leave

theorem OpenTag.Like.finish {o₁ o₂ : OpenTag} (ho : o₁.Like c torn o₂)
    (hscript : o₁.isScript = true → templateScript.occursIn (o₁.source ++ text) =
      templateScript.occursIn (o₂.source ++ text)) :
    (o₁.finish sight₁ text).1.Like c (o₂.finish sight₂ text).1 ∧
      (o₁.finish sight₁ text).2.Like c torn (o₂.finish sight₂ text).2 := by
  unfold OpenTag.finish
  rw [ho.name, hs.atStart]
  by_cases hvoid : Markup.voidElements.contains o₂.name = true
  · rw [if_pos hvoid, if_pos hvoid]
    exact ⟨Token.like_refl c _, .leave⟩
  · rw [if_neg hvoid, if_neg hvoid]
    cases Preformatted.ofName? o₂.name with
    | some element => exact ⟨Token.like_refl c _, .keep (.verbatim _)⟩
    | none =>
      constructor
      · dsimp only
        split_ifs
        · apply (Token.like_refl c _).withOffset
          intro hw
          rw [hs.tabWidth hw]
        · exact Token.like_refl c _
      · have htag : (⟨o₂.name, o₁.offset, o₁.source ++ text⟩ : OpenTag).Like c torn
            ⟨o₂.name, o₂.offset, o₂.source ++ text⟩ := by
          refine ⟨rfl, ho.offset, ?_, fun hw h => ?_⟩
          · rw [Text.visible_append, Text.visible_append, ho.visible]
          · rw [ho.whole hw (ho.isScript.trans h)]
        exact htag.content fun h => hscript (ho.isScript.trans h)

theorem OpenTag.Like.read {o₁ o₂ : OpenTag} (ho : o₁.Like c torn o₂)
    (hscript : lexeme = .tagEnd → o₁.isScript = true →
      templateScript.occursIn (o₁.source ++ text) = templateScript.occursIn (o₂.source ++ text)) :
    (o₁.read sight₁ lexeme text).1.Like c (o₂.read sight₂ lexeme text).1 ∧
      (o₁.read sight₁ lexeme text).2.Like c torn (o₂.read sight₂ lexeme text).2 := by
  unfold OpenTag.read
  split
  · exact ⟨Token.like_refl c _, .leave⟩
  · exact ho.finish hs (hscript rfl)
  · obtain ⟨htoken, htag⟩ := ho.settle hs (Token.like_refl c (.plain text .markup))
      (Mode.respaces_refl c torn _ text)
    exact ⟨htoken, .keep (.tag htag)⟩

theorem StyleState.like_read (s : StyleState) :
    (s.read sight₁ lexeme text).1.Like c (s.read sight₂ lexeme text).1 ∧
      (s.read sight₁ lexeme text).2.Like c torn (s.read sight₂ lexeme text).2 := by
  have hsettle : ∀ t, (s.settle sight₁ t).Like c (s.settle sight₂ t) :=
    fun t => s.like_settle hs (Token.like_refl c t)
  unfold StyleState.read
  dsimp only
  split
  · exact ⟨hsettle _, .enter (.style s) (.verbatim _)⟩
  · exact ⟨hsettle _, .enter (.style s) (.verbatim _)⟩
  · exact ⟨Token.like_refl c _, .leave⟩
  · exact ⟨hsettle _, .keep (.style _)⟩
  · exact ⟨Token.like_refl c _, .keep (.style _)⟩
  · exact ⟨hsettle _, .keep (.style _)⟩
  · exact ⟨hsettle _, .keep (.style _)⟩
  · exact ⟨hsettle _, .keep (.style _)⟩

omit hs in
theorem ScriptState.Like.label {s₁ s₂ : ScriptState} (h : s₁.Like c s₂) (text : Bytes) :
    (s₁.label text).1.Like c (s₂.label text).1 ∧ (s₁.label text).2.Like c (s₂.label text).2 := by
  obtain ⟨frames₁, switching₁, offset₁⟩ := s₁
  obtain ⟨frames₂, switching₂, offset₂⟩ := s₂
  obtain ⟨hframes, hswitching, hoffset⟩ := h
  unfold ScriptState.label
  cases hframes with
  | nil => exact ⟨Token.like_refl c _, .nil, hswitching, hoffset⟩
  | cons hf hframes =>
    dsimp only
    rw [hf.hard, hf.caseOpen]
    split_ifs
    · exact ⟨Token.like_refl c _, .cons ⟨hf.offset, rfl, rfl⟩ hframes, hswitching, hoffset⟩
    · exact ⟨Token.like_refl c _, .cons ⟨hf.offset, rfl, rfl⟩ hframes, hswitching, hoffset⟩
    · exact ⟨Token.like_refl c _, .cons hf hframes, hswitching, hoffset⟩

theorem ScriptState.Like.dot {s₁ s₂ : ScriptState} (h : s₁.Like c s₂) (text : Bytes) :
    (s₁.dot sight₁ text).1.Like c (s₂.dot sight₂ text).1 ∧
      (s₁.dot sight₁ text).2.Like c (s₂.dot sight₂ text).2 := by
  have hoffset : c.Near (s₁.base + sight₁.tabWidth) (s₂.base + sight₂.tabWidth) := by
    intro hw
    rw [h.base hw, hs.tabWidth hw]
  unfold ScriptState.dot
  dsimp only
  rw [hs.atStart]
  split_ifs
  · exact ⟨(Token.like_refl c _).withOffset hoffset, h.frames, h.switching, hoffset⟩
  · exact ⟨Token.like_refl c _, h⟩

theorem ScriptState.Like.openBracket {s₁ s₂ : ScriptState} (h : s₁.Like c s₂) (text : Bytes) :
    (s₁.openBracket sight₁ text).1.Like c (s₂.openBracket sight₂ text).1 ∧
      (s₁.openBracket sight₁ text).2.Like c (s₂.openBracket sight₂ text).2 := by
  obtain ⟨htoken, hstate⟩ := h.settle hs (Token.like_refl c (.opening text .script))
  unfold ScriptState.openBracket
  dsimp only
  rw [hstate.switching]
  split_ifs
  · refine ⟨⟨htoken.blank, htoken.nests, htoken.offset, ?_⟩, ?_⟩
    · intro hn hw
      rw [htoken.equal hn hw]
    · exact ⟨.cons ⟨hstate.lineOffset, rfl, rfl⟩ hstate.frames, rfl, hstate.lineOffset⟩
  · exact ⟨htoken, .cons ⟨hstate.lineOffset, rfl, rfl⟩ hstate.frames, rfl, hstate.lineOffset⟩

theorem ScriptState.Like.closeBracket {s₁ s₂ : ScriptState} (h : s₁.Like c s₂) (text : Bytes) :
    (s₁.closeBracket sight₁ text).1.Like c (s₂.closeBracket sight₂ text).1 ∧
      (s₁.closeBracket sight₁ text).2.Like c (s₂.closeBracket sight₂ text).2 := by
  obtain ⟨frames₁, switching₁, offset₁⟩ := s₁
  obtain ⟨frames₂, switching₂, offset₂⟩ := s₂
  obtain ⟨hframes, hswitching, hoffset⟩ := h
  unfold ScriptState.closeBracket
  cases hframes with
  | nil => exact ⟨Token.like_refl c _, .nil, hswitching, hoffset⟩
  | cons hf hframes =>
    dsimp only
    rw [hf.hard, hs.atStart]
    by_cases hstart : sight₂.atStart = true
    · rw [if_pos hstart, if_pos hstart]
      exact ⟨(Token.like_refl c _).withOffset hf.offset, hframes, hswitching, hf.offset⟩
    · rw [if_neg hstart, if_neg hstart]
      exact ⟨Token.like_refl c _, hframes, hswitching, hoffset⟩

/-- Of a line comment it matters whether it turns formatting off. -/
theorem ScriptState.Like.read_lineComment {s₁ s₂ : ScriptState} (h : s₁.Like c s₂)
    {text₁ text₂ : Bytes} (hb : Text.allBlank text₁ = Text.allBlank text₂)
    (hoff : formatOff.startsText text₁ = formatOff.startsText text₂) :
    (s₁.read sight₁ .lineComment text₁).1.Like c (s₂.read sight₂ .lineComment text₂).1 ∧
      (s₁.read sight₁ .lineComment text₁).2.Like c torn (s₂.read sight₂ .lineComment text₂).2 := by
  obtain ⟨htoken, hstate⟩ := h.settle hs (Token.like_plain hb .script)
  unfold ScriptState.read
  dsimp only
  rw [hoff]
  split_ifs
  · exact ⟨htoken, .enter (.script hstate) (.verbatim _)⟩
  · exact ⟨htoken, .keep (.script hstate)⟩

theorem ScriptState.Like.read {s₁ s₂ : ScriptState} (h : s₁.Like c s₂) :
    (s₁.read sight₁ lexeme text).1.Like c (s₂.read sight₂ lexeme text).1 ∧
      (s₁.read sight₁ lexeme text).2.Like c torn (s₂.read sight₂ lexeme text).2 := by
  obtain ⟨htoken, hstate⟩ := h.settle hs (Token.like_refl c (.plain text .script))
  unfold ScriptState.read
  dsimp only
  split
  · exact h.read_lineComment hs rfl rfl
  · exact ⟨htoken, .enter (.script hstate) (.verbatim _)⟩
  · exact ⟨htoken, .enter (.script hstate) (.verbatim _)⟩
  · exact ⟨Token.like_refl c _, .leave⟩
  · have hswitching : ({ s₁ with switching := true } : ScriptState).Like c
        { s₂ with switching := true } := ⟨h.frames, rfl, h.lineOffset⟩
    obtain ⟨htoken, hstate⟩ := hswitching.settle hs (Token.like_refl c (.plain text .script))
    exact ⟨htoken, .keep (.script hstate)⟩
  · obtain ⟨htoken, hlabel⟩ := h.label text
    obtain ⟨htoken, hstate⟩ := hlabel.settle hs htoken
    exact ⟨htoken, .keep (.script hstate)⟩
  · obtain ⟨htoken, hstate⟩ := h.dot hs text
    exact ⟨htoken, .keep (.script hstate)⟩
  · obtain ⟨htoken, hstate⟩ := h.openBracket hs text
    exact ⟨htoken, .keep (.script hstate)⟩
  · obtain ⟨htoken, hstate⟩ := h.closeBracket hs text
    exact ⟨htoken, .keep (.script hstate)⟩
  · exact ⟨htoken, .keep (.script hstate)⟩

/-- A lexeme is read alike, if the two questions about the text around it have the same answers. -/
theorem Mode.Like.read {m₁ m₂ : Mode} (h : m₁.Like c torn m₂)
    (hlabel : m₁ = .markup → lexeme ∈ Markup.tags.map Prod.fst)
    (hopen : m₁ = .markup → lexeme = .tagStart →
      (Markup.openTag sight₁ text).Like c torn (Markup.openTag sight₂ text))
    (hscript : ∀ o₁ o₂, m₁ = .tag o₁ → m₂ = .tag o₂ → lexeme = .tagEnd → o₁.isScript = true →
      OpenTag.templateScript.occursIn (o₁.source ++ text) =
        OpenTag.templateScript.occursIn (o₂.source ++ text)) :
    (m₁.read sight₁ lexeme text).1.Like c (m₂.read sight₂ lexeme text).1 ∧
      (m₁.read sight₁ lexeme text).2.Like c torn (m₂.read sight₂ lexeme text).2 := by
  cases h with
  | text => exact ⟨Token.like_refl c _, .keep .text⟩
  | markup => exact Markup.like_read (hlabel rfl) (hopen rfl)
  | tag ho => exact ho.read hs (hscript _ _ rfl rfl)
  | endTag => exact ⟨Token.like_refl c _, .leave⟩
  | style s => exact s.like_read hs
  | script hstate => exact hstate.read hs
  | verbatim r =>
    refine ⟨Token.like_refl c _, ?_⟩
    unfold Mode.read
    dsimp only
    split_ifs
    · exact .keep (.verbatim r)
    · exact .leave

end Read

theorem Mode.extent_of_ne (mode : Mode) (embedded : Bool) {lexeme : Lexeme}
    (h : lexeme ≠ .lineComment) (text : Bytes) :
    mode.extent embedded lexeme text = .ok text.length := by
  unfold Mode.extent
  split
  · exact absurd rfl h
  · rfl

section Grammar
variable {m₁ m₂ : Mode} (h : m₁.Like c torn m₂)
include h

theorem Mode.Like.rules (embedded : Bool) : m₁.rules embedded = m₂.rules embedded := by
  cases h <;> rfl

theorem Mode.Like.extent (embedded : Bool) (lexeme : Lexeme) (text : Bytes) :
    m₁.extent embedded lexeme text = m₂.extent embedded lexeme text := by
  cases h <;> cases lexeme <;> rfl

end Grammar
end Reindent
