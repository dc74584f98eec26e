import Reindent.Proofs.Layout.Items
import Reindent.Proofs.Layout.Reading
import Reindent.Proofs.Matching.Openers

/-! The scope pass over the lines of a tree: it gives every line the depth of its item. -/
namespace Reindent
open Bytes Scope

namespace Scope

/-- A line that passes without an error, and what becomes of the stack and the line. -/
structure Passes (stack after : Stack) (level : Int64) (l : Line) : Prop where
  leaves : (passLine stack l).1 = after
  level : (passLine stack l).2.1.level = level
  offset : (passLine stack l).2.1.offset = 0
  ignore : (passLine stack l).2.1.ignore = false
  passed : (passLine stack l).2.2 = none

def Pass.prepend (lines : List Line) (p : Pass) : Pass := { p with lines := lines ++ p.lines }

theorem passLines_of_passes {stack after : Stack} {level : Int64} {l : Line}
    (h : Passes stack after level l) (rest : List Line) :
    passLines stack (l :: rest) = (passLines after rest).prepend [(passLine stack l).2.1] := by
  have hpassed := h.passed
  have hleaves := h.leaves
  rw [passLines]
  split
  · next he =>
    rw [he] at hpassed
    exact absurd hpassed (by simp)
  · next he =>
    rw [he] at hleaves ⊢
    rw [← hleaves]
    rfl

private theorem passes_of_walk {stack after : Stack} {level number : Int64}
    {tokens tokens' : List Token} (hignore : ∀ t ∈ tokens, t.ignore = false)
    (h : Progress.walk { stack } (tokens.map (.numbered number)) =
      ({ stack := after, started := true, level }, tokens', none)) :
    Passes stack after level (.ofTokens number tokens) := by
  have hhead : (tokens.map (Token.numbered number)).head?.any Token.ignore = false := by
    cases tokens with
    | nil => rfl
    | cons t rest => exact hignore t List.mem_cons_self
  have hpass : passLine stack (.ofTokens number tokens) =
      (after, { number, tokens := tokens', level }, none) := by
    unfold passLine Line.ofTokens
    dsimp only
    rw [h, hhead]
  exact ⟨by rw [hpass], by rw [hpass], by rw [hpass], by rw [hpass], by rw [hpass]⟩

variable {margin : Bytes}

/-- It is enough to look at the tokens behind the gap. -/
private theorem passes_behind_lead (hm : ∀ b ∈ margin, isGap b = true) {stack after : Stack}
    {level number : Int64} {tokens tokens' : List Token} (hignore : ∀ t ∈ tokens, t.ignore = false)
    (h : Progress.walk { stack } (tokens.map (.numbered number)) =
      ({ stack := after, started := true, level }, tokens', none)) :
    Passes stack after level (.ofTokens number (Item.lead margin ++ tokens)) := by
  have hb := Text.allBlank_of_isGap hm
  unfold Item.lead
  split_ifs
  · exact passes_of_walk hignore h
  · apply passes_of_walk
    · intro t ht
      rcases List.mem_cons.1 ht with rfl | ht
      · rfl
      · exact hignore t ht
    · have hstep : Progress.step { stack } (.numbered number (.plain margin .markup)) =
          .ok ({ stack }, .numbered number (.plain margin .markup)) := by
        simp [Progress.step, Token.isBlank, Token.numbered, Token.plain, hb]
      rw [List.singleton_append, List.map_cons, Progress.walk, hstep]
      dsimp only
      rw [h]

private theorem allBlank_angle (text : Bytes) : Text.allBlank (60 :: text) = false :=
  Text.allBlank_cons_of_visible text (by decide) (by decide)

private theorem allBlank_tag (word : Bytes) : Text.allBlank (Item.tag word) = false :=
  Text.allBlank_cons_of_visible _ (by decide) (by decide)

variable (stack : Stack) (number : Int64)

theorem passes_text (hm : ∀ b ∈ margin, isGap b = true) (line : TextLine) :
    Passes stack stack (nextLevel stack) (.ofTokens number ((Item.text line).tokens margin)) := by
  have hb : Text.allBlank (margin ++ line.bytes) = false := by
    by_contra hne
    have hall : Text.allBlank (margin ++ line.bytes) = true := by simpa using hne
    have htrim := Text.trim_eq_nil_of_allBlank hall
    rw [← List.append_nil (margin ++ line.bytes),
      Text.trim_append_append (Text.allBlank_of_isGap hm) (by rfl), line.trimmed] at htrim
    exact line.nonempty htrim
  apply passes_of_walk
  · simp [Item.tokens, Token.plain]
  · have hv : (Token.numbered number (.plain (margin ++ line.bytes) .markup)).isBlank = false := hb
    exact Progress.walk_of_ok (Progress.step_of_open (Or.inr hv) rfl) []

theorem passes_void (hm : ∀ b ∈ margin, isGap b = true) (name : VoidName) :
    Passes stack stack (nextLevel stack) (.ofTokens number ((Item.void name).tokens margin)) := by
  have hb : (Token.numbered number (.opening (60 :: name.bytes) .markup)).isBlank = false :=
    allBlank_angle name.bytes
  apply passes_behind_lead hm
  · simp [Token.opening, Token.closing]
  · refine (Progress.walk_of_ok (Progress.step_of_open (Or.inr hb) rfl) _).trans ?_
    rw [List.map_singleton, Progress.walk_of_ok (Progress.step_of_close (Or.inl rfl) rfl rfl)]
    rfl

theorem passes_opening (hm : ∀ b ∈ margin, isGap b = true) (text : Bytes) :
    ∃ t : Token, t.kind = .markup ∧ t.level = nextLevel stack ∧
      Passes stack (t :: stack) (nextLevel stack) (.ofTokens number (Item.lead margin ++
        [.opening (60 :: text) .markup, .plain [62] .markup])) := by
  have hb : (Token.numbered number (.opening (60 :: text) .markup)).isBlank = false :=
    allBlank_angle text
  refine ⟨{ Token.opening (60 :: text) .markup with
    level := nextLevel stack, line := number }, rfl, rfl, ?_⟩
  apply passes_behind_lead hm
  · simp [Token.opening, Token.plain]
  · refine (Progress.walk_of_ok (Progress.step_of_open (Or.inr hb) rfl) _).trans ?_
    rw [List.map_singleton, Progress.walk_of_ok (Progress.step_of_open (Or.inl rfl) rfl)]
    rfl

theorem passes_openBlock (hm : ∀ b ∈ margin, isGap b = true) (name : BlockName) :
    ∃ t : Token, t.kind = .template ∧ t.level = nextLevel stack ∧
      Passes stack (t :: stack) (nextLevel stack)
        (.ofTokens number ((Item.openBlock name).tokens margin)) := by
  have hb : (Token.numbered number (.opening (Item.tag name.bytes) .template)).isBlank = false :=
    allBlank_tag name.bytes
  refine ⟨{ Token.opening (Item.tag name.bytes) .template with
    level := nextLevel stack, line := number }, rfl, rfl, ?_⟩
  apply passes_behind_lead hm
  · simp [Token.opening]
  · exact Progress.walk_of_ok (Progress.step_of_open (Or.inr hb) rfl) []

variable {t : Token}

theorem passes_closing (hm : ∀ b ∈ margin, isGap b = true) (text : Bytes)
    (ht : t.kind = .markup) :
    Passes (t :: stack) stack t.level
      (.ofTokens number (Item.lead margin ++ [.closing (60 :: text) .markup])) := by
  have hb : (Token.numbered number (.closing (60 :: text) .markup)).isBlank = false :=
    allBlank_angle text
  have hclose : close (t :: stack) (.numbered number (.closing (60 :: text) .markup)) =
      .ok (t, stack) := by
    simp [close, Token.numbered, Token.closing, ht]
  apply passes_behind_lead hm
  · simp [Token.closing]
  · exact Progress.walk_of_ok (Progress.step_of_close (Or.inr hb) rfl hclose) []

omit number in
private theorem close_template {closer : Token} (hc : closer.kind = .template)
    (ht : t.kind = .template) : close (t :: stack) closer = .ok (t, stack) := by
  simp [close, hc, takeTemplate?, ht]

theorem passes_branch (hm : ∀ b ∈ margin, isGap b = true) (ht : t.kind = .template) :
    ∃ t' : Token, t'.kind = .template ∧ t'.level = t.level ∧
      Passes (t :: stack) (t' :: stack) t.level (.ofTokens number (Item.branch.tokens margin)) := by
  have hb : (Token.numbered number (.reopening Item.branch.bytes .template)).isBlank = false :=
    allBlank_tag (ascii "else")
  refine ⟨{ Token.reopening Item.branch.bytes .template with
    level := t.level, line := number }, rfl, rfl, ?_⟩
  apply passes_behind_lead hm
  · simp [Token.reopening]
  · exact Progress.walk_of_ok
      (Progress.step_of_close (Or.inr hb) rfl (close_template stack rfl ht)) []

theorem passes_closeBlock (hm : ∀ b ∈ margin, isGap b = true) (name : BlockName)
    (ht : t.kind = .template) :
    Passes (t :: stack) stack t.level
      (.ofTokens number ((Item.closeBlock name).tokens margin)) := by
  have hb : (Token.numbered number (.closing (Item.closeBlock name).bytes .template)).isBlank =
      false := allBlank_tag _
  apply passes_behind_lead hm
  · simp [Token.closing]
  · exact Progress.walk_of_ok
      (Progress.step_of_close (Or.inr hb) rfl (close_template stack rfl ht)) []

end Scope

/-- A line that reads as the item of a row, behind some gap. -/
def Row.Shows (row : Row) (l : Line) : Prop :=
  ∃ margin number, (∀ b ∈ margin, isGap b = true) ∧ l = .ofTokens number (row.item.tokens margin)

/-- A line that got the depth of its row. -/
structure Row.Laid (row : Row) (l : Line) : Prop where
  raw : ∃ margin, (∀ b ∈ margin, isGap b = true) ∧ l.raw = margin ++ row.item.bytes
  level : l.level = Int64.ofNat row.depth
  offset : l.offset = 0
  ignore : l.ignore = false

private theorem flatMap_lead (margin : Bytes) (number : Int64) :
    ((Item.lead margin).map (Token.numbered number)).flatMap Token.text = margin := by
  unfold Item.lead
  split_ifs with h
  · exact (List.isEmpty_iff.1 h).symm
  · simp [Token.numbered, Token.plain]

theorem raw_tokens (margin : Bytes) (number : Int64) (item : Item) :
    (Line.ofTokens number (item.tokens margin)).raw = margin ++ item.bytes := by
  unfold Line.raw Line.ofTokens
  cases item with
  | text line => simp [Item.tokens, Item.bytes, Token.numbered, Token.plain]
  | void name =>
    simp [Item.tokens, Item.bytes, flatMap_lead, Token.numbered, Token.opening, Token.closing, ascii]
  | openElement name =>
    simp [Item.tokens, Item.bytes, flatMap_lead, Token.numbered, Token.opening, Token.plain, ascii]
  | closeElement name => simp [Item.tokens, flatMap_lead, Token.numbered, Token.closing]
  | openBlock name => simp [Item.tokens, flatMap_lead, Token.numbered, Token.opening]
  | branch => simp [Item.tokens, flatMap_lead, Token.numbered, Token.reopening]
  | closeBlock name => simp [Item.tokens, flatMap_lead, Token.numbered, Token.closing]

namespace Scope

/-- The lines of some rows get their depths and turn one stack into another. -/
def Runs (rows : List Row) (ls : List Line) (stack after : Stack) : Prop :=
  ∀ rest, ∃ laid, List.Forall₂ Row.Laid rows laid ∧
    passLines stack (ls ++ rest) = (passLines after rest).prepend laid

theorem Runs.nil (stack : Stack) : Runs [] [] stack stack := fun _ => ⟨[], .nil, rfl⟩

theorem Runs.append {rows rows' : List Row} {ls ls' : List Line} {stack between after : Stack}
    (h : Runs rows ls stack between) (h' : Runs rows' ls' between after) :
    Runs (rows ++ rows') (ls ++ ls') stack after := by
  intro rest
  obtain ⟨laid', hlaid', hpass'⟩ := h' rest
  obtain ⟨laid, hlaid, hpass⟩ := h (ls' ++ rest)
  refine ⟨laid ++ laid', List.rel_append hlaid hlaid', ?_⟩
  rw [List.append_assoc, hpass, hpass']
  simp [Pass.prepend]

theorem Runs.single {row : Row} {margin : Bytes} {number level : Int64} {stack after : Stack}
    (hm : ∀ b ∈ margin, isGap b = true) (hlevel : level = Int64.ofNat row.depth)
    (h : Passes stack after level (.ofTokens number (row.item.tokens margin))) :
    Runs [row] [.ofTokens number (row.item.tokens margin)] stack after := by
  intro rest
  subst hlevel
  refine ⟨[_], .cons ⟨⟨margin, hm, ?_⟩, h.level, h.offset, h.ignore⟩ .nil,
    passLines_of_passes h rest⟩
  rw [raw_passLine, raw_tokens]

end Scope

private theorem nextLevel_cons {t : Token} (stack : Stack) {depth : Nat}
    (h : t.level = Int64.ofNat depth) : nextLevel (t :: stack) = Int64.ofNat (depth + 1) := by
  rw [nextLevel, h, Int64.ofNat_add]
  rfl

mutual

/-- The lines of a forest get their depths, whatever scopes are open around them, and leave these
scopes as they were. -/
theorem Forest.runs (f : Forest) {depth : Nat} {stack : Stack} {ls : List Line}
    (hdepth : nextLevel stack = Int64.ofNat depth)
    (hs : List.Forall₂ Row.Shows (f.rows depth) ls) : Runs (f.rows depth) ls stack stack := by
  match f with
  | .nil =>
    rw [Forest.rows] at hs ⊢
    cases hs
    exact .nil stack
  | .text line others =>
    rw [Forest.rows] at hs ⊢
    rcases hs with _ | ⟨⟨margin, number, hm, rfl⟩, hs⟩
    exact (Runs.single hm hdepth (passes_text stack number hm line)).append
      (others.runs hdepth hs)
  | .void name others =>
    rw [Forest.rows] at hs ⊢
    rcases hs with _ | ⟨⟨margin, number, hm, rfl⟩, hs⟩
    exact (Runs.single hm hdepth (passes_void stack number hm name)).append
      (others.runs hdepth hs)
  | .element name content others =>
    rw [Forest.rows] at hs ⊢
    rcases hs with _ | ⟨⟨margin, number, hm, rfl⟩, hs⟩
    obtain ⟨inner, hs', rfl, hinner, hs'⟩ := forall₂_split hs
    rcases hs' with _ | ⟨⟨margin', number', hm', rfl⟩, hs'⟩
    obtain ⟨t, hkind, hlevel, hopen⟩ := passes_opening stack number hm name.bytes
    rw [hdepth] at hlevel
    have hcontent := content.runs (nextLevel_cons stack hlevel) hinner
    have hclose := passes_closing stack number' hm' (47 :: (name.bytes ++ [62])) hkind
    exact ((Runs.single hm hdepth hopen).append hcontent).append
      ((Runs.single hm' hlevel hclose).append (others.runs hdepth hs'))
  | .block name content branches others =>
    rw [Forest.rows] at hs ⊢
    rcases hs with _ | ⟨⟨margin, number, hm, rfl⟩, hs⟩
    obtain ⟨body, rest, rfl, hbody, hrest⟩ := forall₂_split hs
    obtain ⟨inner, others', rfl, hinner, hothers'⟩ := forall₂_split hbody
    rcases hrest with _ | ⟨⟨margin', number', hm', rfl⟩, hrest⟩
    obtain ⟨t, hkind, hlevel, hopen⟩ := passes_openBlock stack number hm name
    rw [hdepth] at hlevel
    have hcontent := content.runs (nextLevel_cons stack hlevel) hinner
    obtain ⟨t', hkind', hlevel', hbranches⟩ := branches.runs stack hkind hlevel hothers'
    have hclose := passes_closeBlock stack number' hm' name hkind'
    exact (((Runs.single hm hdepth hopen).append hcontent).append hbranches).append
      ((Runs.single hm' hlevel' hclose).append (others.runs hdepth hrest))

theorem Branches.runs (b : Branches) {depth : Nat} {t : Token} (stack : Stack)
    {ls : List Line} (hkind : t.kind = .template) (hlevel : t.level = Int64.ofNat depth)
    (hs : List.Forall₂ Row.Shows (b.rows depth) ls) :
    ∃ t' : Token, t'.kind = .template ∧ t'.level = Int64.ofNat depth ∧
      Runs (b.rows depth) ls (t :: stack) (t' :: stack) := by
  match b with
  | .nil =>
    rw [Branches.rows] at hs ⊢
    cases hs
    exact ⟨t, hkind, hlevel, .nil _⟩
  | .cons content others =>
    rw [Branches.rows] at hs ⊢
    rcases hs with _ | ⟨⟨margin, number, hm, rfl⟩, hs⟩
    obtain ⟨inner, rest, rfl, hinner, hrest⟩ := forall₂_split hs
    obtain ⟨t', hkind', hlevel', hbranch⟩ := passes_branch stack number hm hkind
    rw [hlevel] at hlevel'
    have hcontent := content.runs (nextLevel_cons stack hlevel') hinner
    obtain ⟨t'', hkind'', hlevel'', hothers⟩ := others.runs stack hkind' hlevel' hrest
    exact ⟨t'', hkind'', hlevel'',
      ((Runs.single hm hlevel hbranch).append hcontent).append hothers⟩

end

end Reindent
