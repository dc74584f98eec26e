import Reindent.Proofs.Isolation.Sites
import Reindent.Proofs.Scan.LineRuns

/-! Opening tags that go on over several lines. What the tokens of a page make of the offset that the
further lines of an open tag get. -/
namespace Reindent
open Bytes Pattern Text

namespace Pattern
variable {α : Type} {rules : List (α × Pattern)} {label : α} {p : Pattern} {b : UInt8}

theorem notMem_of_search (hr : (label, p) ∈ rules)
    (hp : ∀ before rest, (p.match? before (b :: rest)).isSome = true) {before : Option UInt8}
    {text more : Bytes} (h : ∀ hit ∈ search rules before (text ++ more), hit.skipped = text) :
    b ∉ text := by
  induction text generalizing before with
  | nil => simp
  | cons c text ih =>
    rw [List.cons_append] at h
    cases hpick : pick? rules before (c :: (text ++ more)) with
    | some found =>
      rw [search_cons_of_some hpick] at h
      exact absurd (h _ rfl) (by simp)
    | none =>
      have hc : b ≠ c := by
        rintro rfl
        have hmatch := hp before (text ++ more)
        rw [pick?_eq_none_iff.1 hpick _ hr] at hmatch
        exact absurd hmatch (by simp)
      rw [search_cons_of_none hpick] at h
      rw [List.mem_cons, not_or]
      refine ⟨hc, @ih (some c) fun hit hhit => ?_⟩
      exact (List.cons.inj (h _ (Option.mem_map_of_mem _ hhit))).2

end Pattern

namespace Token

def endsTag (t : Token) : Bool := !t.ignore && (t.text == ascii ">" || t.text == ascii "/>")

theorem opensMarkup_of_nests {t : Token} (h : t.nests = false) : t.opensMarkup = false := by
  rw [nests, Bool.or_eq_false_iff] at h
  rw [opensMarkup, h.1]
  rfl

theorem opensMarkup_of_kind {t : Token} (h : t.kind ≠ .markup) : t.opensMarkup = false := by
  rw [opensMarkup, beq_eq_false_iff_ne.2 h, Bool.and_false]

theorem opensMarkup_of_closesMarkup {t : Token} (h : t.closesMarkup = true) :
    t.opensMarkup = false := by
  simp only [closesMarkup, Bool.and_eq_true, Bool.not_eq_true'] at h
  rw [opensMarkup, h.1.2]
  rfl

end Token

theorem CodeMove.opensMarkup {code : ModeName} {t : Token} {move : Move} (h : CodeMove code t move) :
    t.opensMarkup = false := by
  have hcode : t.kind.isCode = true → t.kind ≠ .markup := by
    rintro hcode hkind
    rw [hkind] at hcode
    exact absurd hcode (by simp [Kind.isCode])
  cases h with
  | closes h => exact Token.opensMarkup_of_closesMarkup h
  | keep _ ht => exact ht.elim Token.opensMarkup_of_nests fun h => Token.opensMarkup_of_kind (hcode h)
  | region _ ht => exact Token.opensMarkup_of_nests ht

/-- The offset of the opening tag that is read, or that a verbatim region lies in. -/
def ModeStack.tagOffset? (modes : ModeStack) : Option Int64 :=
  match modes.active, modes.returns with
  | .tag o, _ => some o.offset
  | .verbatim _, .tag o :: _ => some o.offset
  | _, _ => none

/-- The offset of an opening tag, by the tokens in front of it on its line and the text behind its
name. -/
def Markup.offset (width : Int64) (lead : List Token) (text more : Bytes) : Int64 :=
  (openTag ⟨width, { number := 0, tokens := lead }, more⟩ text).offset

/-- The bracket of an opening tag at the start of a line. It closes the tag, or it is set back by the
tab that a line inside the tag is indented by. -/
def Token.EndsAt (width : Int64) (t : Token) : Prop :=
  (t.dedents = true ∧ t.kind = .markup ∧ t.offset = 0) ∨ (t.dedents = false ∧ t.offset = -width)

/-- What a token makes of the offset of an opening tag, between `lead` and `more` on its line. -/
structure TagStep (width : Int64) (lead : List Token) (more : Bytes) (t : Token)
    (offset? offset'? : Option Int64) : Prop where
  opens : t.opensMarkup = true → (∃ b tail, t.text = b :: tail ∧ isInert b = false) ∧
    offset'? = some (Markup.offset width lead t.text more)
  keeps : t.endsTag = false → ∀ x ∈ offset?, offset'? = some x
  leads : t.ignore = false → lead.all Token.isBlank = true → t.isBlank = false → ∀ x ∈ offset?,
    if t.endsTag then t.EndsAt width else t.offset = x

/-- Which lexemes of a tag are its brackets, by their texts. -/
def Lexeme.Ends (text : Bytes) : Lexeme → Prop
  | .tagEnd => text = ascii ">"
  | .emptyTagEnd => text = ascii "/>"
  | _ => text ≠ ascii ">" ∧ text ≠ ascii "/>"

theorem Token.endsTag_of_ne {t : Token} (h : t.text ≠ ascii ">" ∧ t.text ≠ ascii "/>") :
    t.endsTag = false := by
  simp [endsTag, h.1, h.2]

namespace TagStep
variable {width : Int64} {lead : List Token} {more : Bytes} {t : Token} {x? x'? : Option Int64}

theorem numbered (h : TagStep width lead more t x? x'?) (number : Int64) :
    TagStep width lead more (t.numbered number) x? x'? := ⟨h.opens, h.keeps, h.leads⟩

theorem outside (h : t.opensMarkup = false) : TagStep width lead more t none x'? where
  opens ht := absurd (h.symm.trans ht) Bool.false_ne_true
  keeps _ _ hx := absurd hx (by simp)
  leads _ _ _ _ hx := absurd hx (by simp)

theorem verbatim (text : Bytes) : TagStep width lead more (.verbatim text) x? x? where
  opens ht := absurd ht Bool.false_ne_true
  keeps _ _ hx := hx
  leads ht := absurd ht (by simp [Token.verbatim])

variable {sight : Sight} {text : Bytes}

theorem settle (o : OpenTag) (sight : Sight) (hopens : t.opensMarkup = false)
    (hends : t.endsTag = false) :
    TagStep sight.tabWidth sight.line.tokens more (o.settle sight t).1 (some o.offset)
      (some (o.settle sight t).2.offset) := by
  have hsame : (o.settle sight t).1.opensMarkup = false ∧ (o.settle sight t).1.endsTag = false ∧
      (o.settle sight t).1.isBlank = t.isBlank := by
    unfold OpenTag.settle
    dsimp only
    split_ifs <;> exact ⟨hopens, hends, rfl⟩
  refine ⟨fun ht => absurd (hsame.1.symm.trans ht) Bool.false_ne_true, fun _ x hx => hx,
    fun _ hlead hv x hx => ?_⟩
  rw [hsame.2.1, if_neg Bool.false_ne_true]
  have hleads : sight.leads t = true := by
    have hstart : sight.atStart = true := hlead
    rw [Sight.leads, hstart, ← hsame.2.2, hv]
    rfl
  unfold OpenTag.settle
  rw [if_pos hleads]
  exact Option.some.inj hx

theorem ends (hopens : t.opensMarkup = false) (hends : t.endsTag = true)
    (h : lead.all Token.isBlank = true → t.EndsAt width) : TagStep width lead more t x? x'? where
  opens ht := absurd (hopens.symm.trans ht) Bool.false_ne_true
  keeps ht := absurd (ht.symm.trans hends) Bool.false_ne_true
  leads _ hlead _ _ _ := by
    rw [hends, if_pos rfl]
    exact h hlead

theorem finish (o : OpenTag) (sight : Sight) (ht : text = ascii ">") :
    TagStep sight.tabWidth sight.line.tokens more (o.finish sight text).1 x? x'? := by
  subst ht
  have hends : ∀ {t : Token}, t.text = ascii ">" → t.ignore = false → t.endsTag = true := by
    intro t htext hignore
    simp [Token.endsTag, htext, hignore]
  unfold OpenTag.finish
  split_ifs with hvoid hstart
  · exact ends rfl (hends rfl rfl) fun _ => Or.inl ⟨rfl, rfl, rfl⟩
  · split
    · exact ends rfl (hends rfl rfl) fun _ => Or.inl ⟨rfl, rfl, rfl⟩
    · exact ends rfl (hends rfl rfl) fun _ => Or.inr ⟨rfl, rfl⟩
  · split
    · exact ends rfl (hends rfl rfl) fun _ => Or.inl ⟨rfl, rfl, rfl⟩
    · exact ends rfl (hends rfl rfl) fun hlead => absurd hlead hstart

theorem tag (o : OpenTag) (sight : Sight) {lexeme : Lexeme} (h : lexeme.Ends text)
    {modes : ModeStack} :
    TagStep sight.tabWidth sight.line.tokens more (o.read sight lexeme text).1 (some o.offset)
      (modes.apply (o.read sight lexeme text).2).tagOffset? := by
  unfold OpenTag.read
  split
  · have htext : text = ascii "/>" := h
    subst htext
    exact ends rfl rfl fun _ => Or.inl ⟨rfl, rfl, rfl⟩
  · exact finish o sight h
  · have hne : text ≠ ascii ">" ∧ text ≠ ascii "/>" := by
      cases lexeme <;> first | exact h | contradiction
    exact settle o sight rfl (Token.endsTag_of_ne hne)

theorem markup (sight : Sight) (lexeme : Lexeme) (text : Bytes) {modes : ModeStack}
    (hhead : ∃ b tail, text = b :: tail ∧ isInert b = false) :
    TagStep sight.tabWidth sight.line.tokens sight.rest (Markup.read sight lexeme text).1 none
      (modes.apply (Markup.read sight lexeme text).2).tagOffset? := by
  have hend : (Markup.endToken text).opensMarkup = false := by
    unfold Markup.endToken
    dsimp only
    split_ifs <;> rfl
  unfold Markup.read
  split
  · exact outside rfl
  · exact outside rfl
  · exact outside hend
  · exact outside hend
  · exact ⟨fun _ => ⟨hhead, rfl⟩, fun _ _ hx => absurd hx (by simp),
      fun _ _ _ _ hx => absurd hx (by simp)⟩

end TagStep

/-- Which brackets the rules of a tag match. -/
theorem OpenTag.ends_of_match {lexeme : Lexeme} {p : Pattern} {before : Option UInt8}
    {matched rest : Bytes} (hr : (lexeme, p) ∈ rules)
    (h : p.match? before (matched ++ rest) = some ⟨matched.reverse, rest⟩) :
    lexeme.Ends matched := by
  have hends := List.mem_of_find?_eq_some h
  have hword : ∀ {w : Bytes}, p = word w → matched = w := by
    rintro w rfl
    simpa using (mem_ends_word_iff.1 hends).1
  have hother : ∀ r ∈ rules, r.1 ≠ .tagEnd → r.1 ≠ .emptyTagEnd →
      ∀ text ∈ [ascii ">", ascii "/>"], ∀ b ∈ text.head?, r.2.mayStart b = false := by
    decide +kernel
  have hno : lexeme ≠ .tagEnd → lexeme ≠ .emptyTagEnd →
      ∀ text ∈ [ascii ">", ascii "/>"], matched ≠ text := by
    rintro he hem text ht rfl
    obtain ⟨b, tail, rfl, hstart⟩ := exists_head_of_match? h
    exact absurd (hstart.symm.trans (hother _ hr he hem _ ht b rfl)) (by simp)
  cases lexeme with
  | tagEnd => exact hword (by simpa [rules, parts, Rules.template, literal] using hr)
  | emptyTagEnd => exact hword (by simpa [rules, parts, Rules.template, literal] using hr)
  | _ => exact ⟨hno (by simp) (by simp) _ (by simp), hno (by simp) (by simp) _ (by simp)⟩

namespace Scan

structure Reading.InTag (width : Int64) (lead : List Token) (more : Bytes) (r : Reading) : Prop
    extends r.Shown more where
  step : TagStep width lead more r.token r.before.tagOffset? r.after.tagOffset?

variable {settings : Settings} {below : Bytes} {state : State} {text more : Bytes}

theorem Skips.skipped {modes : ModeStack} (h : Skips modes text more) :
    ∀ hit ∈ search (modes.active.rules modes.embedded) none (text ++ more), hit.skipped = text := by
  intro hit hhit
  have hsearch : search (modes.active.rules modes.embedded) none (text ++ more) = some hit := hhit
  unfold Skips at h
  rw [hsearch] at h
  exact h

theorem tagStep_readText (hskips : Skips state.modes text more) (sight : Sight) :
    TagStep sight.tabWidth sight.line.tokens more (state.modes.active.readText sight text).1
      state.modes.tagOffset?
      (state.modes.setActive (state.modes.active.readText sight text).2).tagOffset? := by
  have hopens := Token.opensMarkup_of_nests (Mode.nests_readText sight state.modes.active text)
  obtain ⟨⟨active, returns, count, left⟩, memory⟩ := state
  cases active with
  | tag o =>
    have hrule : (.tagEnd, .literal ">") ∈ OpenTag.rules := by simp [OpenTag.rules, OpenTag.parts]
    have hgt : (62 : UInt8) ∉ text := notMem_of_search hrule (fun _ _ => rfl) hskips.skipped
    refine TagStep.settle o sight rfl (Token.endsTag_of_ne ⟨?_, ?_⟩)
    · rintro rfl
      exact hgt (by decide)
    · rintro rfl
      exact hgt (by decide)
  | verbatim r => exact TagStep.verbatim text
  | _ => exact TagStep.outside hopens

/-- A tag waits behind a verbatim region. -/
theorem tagOffset?_region {mode : Mode} (h : mode.name.holdsRegions = true) (r : Region)
    (returns : List Mode) (count : Nat) (left : List Mode) (lexeme : Lexeme) :
    (ModeStack.apply ⟨.verbatim r, mode :: returns, count, left⟩
      (if lexeme = .escape then .keep (.verbatim r) else .leave)).tagOffset? =
      ModeStack.tagOffset? ⟨.verbatim r, mode :: returns, count, left⟩ := by
  split_ifs
  · rfl
  · obtain ⟨hactive, hreturns⟩ :=
      @ModeStack.leave_of_cons ⟨.verbatim r, mode :: returns, count, left⟩ _ _ rfl
    unfold ModeStack.apply ModeStack.tagOffset?
    dsimp only
    rw [hactive, hreturns]
    cases mode with
    | verbatim r => exact absurd h (by simp [Mode.name, ModeName.holdsRegions])
    | _ => rfl

theorem Finds.ends {o : OpenTag} {returns left : List Mode} {count n : Nat} {lexeme : Lexeme}
    {matched rest : Bytes} (h : Finds ⟨.tag o, returns, count, left⟩ lexeme matched rest)
    (hn : Whole.extent ⟨.tag o, returns, count, left⟩ lexeme matched = .ok n) :
    lexeme.Ends (matched.take n) := by
  obtain rfl : matched.length = n := Except.ok.inj hn
  obtain ⟨p, before, hrule, hmatch⟩ := h
  rw [List.take_length]
  exact OpenTag.ends_of_match hrule hmatch

theorem tagStep_read {modes : ModeStack} {lexeme : Lexeme} {matched rest : Bytes} {n : Nat}
    (h : modes.Formed .markup) (hfinds : Finds modes lexeme matched rest)
    (hn : Whole.extent modes lexeme matched = .ok n) (sight : Sight) :
    TagStep sight.tabWidth sight.line.tokens sight.rest
      (modes.active.read sight lexeme (matched.take n)).1 modes.tagOffset?
      (modes.apply (modes.active.read sight lexeme (matched.take n)).2).tagOffset? := by
  obtain ⟨active, returns, count, left⟩ := modes
  cases h with
  | outer hs hname =>
    cases active with
    | markup => exact TagStep.markup sight lexeme _ (hfinds.exists_head_take hn)
    | _ => exact absurd hname (by simp [Mode.name])
  | inner hs hname =>
    cases active with
    | tag o => exact TagStep.tag o sight (hfinds.ends hn)
    | endTag => exact TagStep.outside rfl
    | style s => exact TagStep.outside (s.codeMove_read sight lexeme _).opensMarkup
    | script s => exact TagStep.outside (s.codeMove_read sight lexeme _).opensMarkup
    | _ => exact absurd hname (by simp [Mode.name, ModeName.isInner])
  | @region mode returns r h hholds =>
    have hstep : TagStep sight.tabWidth sight.line.tokens sight.rest (.verbatim (matched.take n))
        (ModeStack.tagOffset? ⟨.verbatim r, mode :: returns, count, left⟩) _ :=
      TagStep.verbatim (matched.take n)
    nth_rewrite 2 [← tagOffset?_region hholds r returns count left lexeme] at hstep
    exact hstep

theorem tagStep_readLexeme {lexeme : Lexeme} {matched rest : Bytes} {n : Nat}
    (h : state.modes.Formed .markup) (hfinds : Finds state.modes lexeme matched rest)
    (hn : Whole.extent state.modes lexeme matched = .ok n) (sight : Sight) :
    TagStep sight.tabWidth sight.line.tokens sight.rest
      (readLexeme settings below state sight lexeme (matched.take n)).1 state.modes.tagOffset?
      (readLexeme settings below state sight lexeme (matched.take n)).2.modes.tagOffset? := by
  unfold readLexeme
  dsimp only
  split_ifs with ht
  · have hplain := isVerbatim_of_isTemplate hfinds.label_mem ht
    have hkind := Template.kind_read settings.blocks state.memory lexeme (matched.take n)
      (sight.rest ++ below)
    have htext := Template.text_read settings.blocks state.memory lexeme (matched.take n)
      (sight.rest ++ below)
    generalize Template.read settings.blocks state.memory lexeme (matched.take n)
      (sight.rest ++ below) = read at hkind htext
    obtain ⟨t, region?, memory⟩ := read
    dsimp only at hkind htext
    have hopens : (state.modes.active.settle sight t).1.opensMarkup = false := by
      apply Token.opensMarkup_of_kind
      rw [Mode.kind_settle, hkind]
      simp
    obtain ⟨⟨active, returns, count, left⟩, memory'⟩ := state
    cases active with
    | tag o =>
      have hno : t.text ≠ ascii ">" ∧ t.text ≠ ascii "/>" := by
        have hends := hfinds.ends hn
        rw [htext]
        cases lexeme <;> first | exact hends | exact absurd ht (by simp [Lexeme.isTemplate])
      have hstep := @TagStep.settle sight.rest t o sight
        (Token.opensMarkup_of_kind (by simp [hkind])) (Token.endsTag_of_ne hno)
      cases region? with
      | none => exact hstep
      | some region => exact hstep
    | verbatim r => exact absurd hplain (by simp [Mode.isVerbatim])
    | _ => exact TagStep.outside hopens
  · exact tagStep_read h hfinds hn sight

/-- A page, token by token. -/
theorem sustains_tag (settings : Settings) :
    Sustains settings (Reading.InTag settings.tabWidth) (fun state _ => state.modes.Formed .markup) where
  gap state line text more h _ hskips := by
    have hstep := tagStep_readText hskips ⟨settings.tabWidth, line, more⟩
    exact ⟨⟨shown_gap hskips _ _, hstep.numbered line.number⟩,
      ModeStack.Shape.rename h (Mode.name_readText _ _ _)⟩
  lexeme below state line lexeme matched rest n h hfinds hn := by
    have hstep := @tagStep_readLexeme settings below state lexeme matched rest n h hfinds hn
      ⟨settings.tabWidth, line, matched.drop n ++ rest⟩
    exact ⟨⟨shown_lexeme hfinds hn _ _ _, hstep.numbered line.number⟩,
      formed_readLexeme h hfinds.label_mem _ _⟩
  newline _ _ _ h := h

theorem exists_linesRun_tag {settings : Settings} {source : Bytes} {lines : List Line}
    (h : tokenize settings { active := .markup } source = .ok lines) :
    ∃ final, LinesRun (Reading.InTag settings.tabWidth) { active := .markup } lines final :=
  (sustains_tag settings).tokenize (fun _ => ModeStack.Shape.outer rfl rfl) h

end Scan

end Reindent
