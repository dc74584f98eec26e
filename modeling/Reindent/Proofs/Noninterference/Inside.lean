import Reindent.Proofs.Noninterference.Front
import Reindent.Proofs.Outline

/-! From the start of a verbatim region to its end: what the region holds leaves no trace in the
modes, opens and closes nothing, and has no say in where the region ends. -/
namespace Reindent
open Bytes Pattern Text Scan

/-- The token is verbatim text: it says nothing about nesting or indentation. -/
structure Token.Mute (t : Token) : Prop where
  ignore : t.ignore = true
  nests : t.nests = false
  offset : t.offset = 0

theorem Token.mute_verbatim (text : Bytes) (number : Int64) :
    ((Token.verbatim text).numbered number).Mute := ⟨rfl, rfl, rfl⟩

namespace Scan

namespace Event

/-- Newlines are the ends of lines, where no token holds one. -/
theorem count_spelled {es : List Event} (h : ∀ r, .token r ∈ es → newline ∉ r.token.text) :
    (spelled es).count newline = es.count .lineEnd := by
  induction es with
  | nil => rfl
  | cons e es ih =>
    have hrest := ih fun r hr => h r (List.mem_cons_of_mem _ hr)
    change (e.text ++ spelled es).count newline = _
    rw [List.count_append, hrest, List.count_cons]
    cases e with
    | lineEnd =>
      have hself : List.count newline (text .lineEnd) = 1 := rfl
      rw [hself, if_pos (beq_self_eq_true _)]
      omega
    | token r =>
      have hnone : List.count newline (text (.token r)) = 0 :=
        List.count_eq_zero.2 (h r List.mem_cons_self)
      rw [hnone, if_neg (by simp)]
      omega

end Event

namespace Whole
variable {settings : Settings} {state : State} {line : Line} {rest : Bytes}

theorem newline_notMem_of_next {modes : ModeStack} {hit : Hit (Option Lexeme)}
    (h : next? modes rest = some hit) :
    newline ∉ hit.skipped ∧ ∀ lexeme, hit.label = some lexeme → newline ∉ hit.matched := by
  obtain ⟨below, hrest, hx, hbelow⟩ := exists_firstLine rest
  unfold next? at h
  rw [hrest, search_rules hx hbelow] at h
  split at h
  · next found hfound =>
    obtain rfl := Option.some.inj h
    rw [← (search_split hfound).2, List.mem_append, List.mem_append, not_or, not_or] at hx
    exact ⟨hx.1.1, fun _ _ => hx.1.2⟩
  · split at h
    · exact absurd h (by simp)
    · obtain rfl := Option.some.inj h
      exact ⟨hx, fun _ hl => absurd hl (by simp)⟩

/-- No token of a run holds a newline. -/
theorem newline_notMem_of_mem_events {r : Reading}
    (h : .token r ∈ events settings state line rest) : newline ∉ r.token.text := by
  have hgap : ∀ (state : State) (line : Line) (text : Bytes), newline ∉ text →
      .token r ∈ gapEvents settings state line text → newline ∉ r.token.text := by
    intro state line text htext hmem hnewline
    have hspelled : newline ∈ Event.spelled (gapEvents settings state line text) :=
      List.mem_flatMap.2 ⟨_, hmem, hnewline⟩
    rw [spelled_gapEvents] at hspelled
    exact htext hspelled
  induction state, line, rest using run_induction settings with
  | finished state line rest hnext =>
    rw [events_of_none hnext] at h
    refine hgap _ _ _ (fun hmem => ?_) h
    obtain ⟨front, back, rfl⟩ := List.append_of_mem hmem
    have hsome := isSome_search_of_isSome_pick none front
      (show (pick? (rules state.modes.active state.modes.embedded) (front.getLast?.or none)
        (newline :: back)).isSome = true from rfl)
    unfold next? at hnext
    rw [hnext] at hsome
    exact absurd hsome (by simp)
  | lineEnd state line rest hit hnext hlabel ih =>
    rw [events_of_lineEnd hnext hlabel, List.mem_append, List.mem_cons] at h
    rcases h with h | h | h
    · exact hgap _ _ _ (newline_notMem_of_next hnext).1 h
    · exact absurd h (by simp)
    · exact ih h
  | failed state line rest hit found overrun hnext hlabel hn =>
    rw [events_of_error hnext hlabel hn] at h
    exact hgap _ _ _ (newline_notMem_of_next hnext).1 h
  | lexeme state line rest hit found n hnext hlabel hn ih =>
    rw [events_of_lexeme hnext hlabel hn, List.mem_append, List.mem_cons] at h
    rcases h with h | h | h
    · exact hgap _ _ _ (newline_notMem_of_next hnext).1 h
    · rw [Event.token.inj h, text_takeLexeme]
      exact fun hmem => (newline_notMem_of_next hnext).2 _ hlabel (List.mem_of_mem_take hmem)
    · exact ih h

/-- A lexeme shows, and so does each part that is taken of it. -/
theorem visible_of_next {modes : ModeStack} {hit : Hit (Option Lexeme)} {lexeme : Lexeme} {n : Nat}
    (hnext : next? modes rest = some hit) (hlabel : hit.label = some lexeme) (hn : 0 < n) :
    allBlank (hit.matched.take n) = false := by
  obtain ⟨-, b, more, hb, hinert⟩ := lexeme_of_next hnext hlabel
  obtain ⟨k, rfl⟩ := Nat.exists_eq_succ_of_ne_zero (Nat.pos_iff_ne_zero.1 hn)
  by_contra hblank
  have hmem : b ∈ hit.matched.take (k + 1) := by
    rw [hb]
    exact List.mem_cons_self
  have hinert' := isInert_of_allBlank (eq_true_of_ne_false hblank) hmem
  exact absurd (hinert.symm.trans hinert') Bool.false_ne_true

section Hidden
variable {region : Region} {start : ModeName}

theorem readGap_verbatim (hv : state.modes.active = .verbatim region) (settings : Settings)
    (line : Line) (text rest : Bytes) :
    (readGap settings state line text rest).2 = state ∧
      (readGap settings state line text rest).1.number = line.number := by
  unfold readGap
  split_ifs
  · exact ⟨rfl, rfl⟩
  · rw [hv]
    obtain ⟨⟨active, returns, count, left⟩, memory⟩ := state
    obtain rfl := hv
    exact ⟨rfl, rfl⟩

theorem mute_of_mem_gapEvents (hv : state.modes.active = .verbatim region) {text : Bytes}
    {r : Reading} (h : .token r ∈ gapEvents settings state line text) : r.token.Mute := by
  obtain ⟨r', hr, heq⟩ := List.mem_map.1 h
  obtain rfl := Event.token.inj heq
  unfold gapReadings at hr
  split_ifs at hr
  · exact absurd hr (by simp)
  · obtain rfl := List.mem_singleton.1 hr
    rw [hv]
    exact Token.mute_verbatim text line.number

theorem count_gapEvents (settings : Settings) (state : State) (line : Line) (text : Bytes) :
    (gapEvents settings state line text).count .lineEnd = 0 := by
  rw [List.count_eq_zero]
  intro hmem
  obtain ⟨r, -, heq⟩ := List.mem_map.1 hmem
  exact absurd heq (by simp)

/-- A lexeme of a region is taken whole. It is part of the region's text, unless it ends the region. -/
theorem takeLexeme_verbatim (hv : state.modes.active = .verbatim region)
    {hit : Hit (Option Lexeme)} {lexeme : Lexeme} {n : Nat}
    (hnext : next? state.modes rest = some hit) (hlabel : hit.label = some lexeme)
    (hn : extent state.modes lexeme hit.matched = .ok n) :
    n = hit.matched.length ∧ (lexeme = .escape ∨ lexeme = .regionEnd) ∧
      let modes := if lexeme = .escape then state.modes else state.modes.leave
      (takeLexeme settings state line hit lexeme n).1 =
          ⟨state.modes, (Token.verbatim hit.matched).numbered line.number, modes⟩ ∧
        (takeLexeme settings state line hit lexeme n).2.1 = { state with modes } ∧
        (takeLexeme settings state line hit lexeme n).2.2.number = line.number ∧
        (takeLexeme settings state line hit lexeme n).2.2.isBlank = false := by
  have hwhole : n = hit.matched.length := by
    unfold extent at hn
    rw [hv] at hn
    exact (Except.ok.inj hn).symm
  have hlexeme : lexeme = .escape ∨ lexeme = .regionEnd := by
    have hmem := (lexeme_of_next hnext hlabel).1
    rw [hv] at hmem
    change lexeme ∈ region.rules.map Prod.fst at hmem
    cases region <;> simp_all [Region.rules]
  have hplain : lexeme.isTemplate = false := by
    rcases hlexeme with rfl | rfl
    · rfl
    · rfl
  obtain ⟨hstate, hnumber⟩ := readGap_verbatim hv settings line hit.skipped
    (hit.matched ++ hit.rest)
  have hread : ∀ sight, readLexeme settings [] state sight lexeme hit.matched =
      (.verbatim hit.matched,
        { state with modes := if lexeme = .escape then state.modes else state.modes.leave }) := by
    intro sight
    unfold readLexeme
    dsimp only
    rw [hplain, if_neg Bool.false_ne_true, hv]
    unfold Mode.read
    obtain ⟨⟨active, returns, count, left⟩, memory⟩ := state
    obtain rfl := hv
    dsimp only
    split_ifs
    · rfl
    · rfl
  have hvisible : (Token.verbatim hit.matched).isBlank = false := by
    have hpos := List.length_pos_iff.2 (search_split hnext).1
    have htaken := visible_of_next hnext hlabel hpos
    rw [List.take_length] at htaken
    exact htaken
  refine ⟨hwhole, hlexeme, ?_⟩
  unfold takeLexeme
  dsimp only
  rw [hwhole, List.take_length, hstate, hread]
  refine ⟨?_, rfl, hnumber, ?_⟩
  · rw [hnumber]
  · rw [Line.isBlank_append, hvisible, Bool.and_false]

theorem looksBack_rules (region : Region) (embedded : Bool) :
    ∀ r ∈ rules (.verbatim region) embedded, r.2.looksBack = false := by
  intro r hr
  rcases List.mem_cons.1 hr with rfl | hr
  · rfl
  obtain ⟨rule, hrule, rfl⟩ := List.mem_map.1 hr
  have hall : ∀ r ∈ region.rules, r.2.looksBack = false := by
    cases region with
    | block tag => cases tag <;> decide
    | element name => cases name <;> decide
    | _ => decide
  exact hall rule hrule

theorem pick?_of_looksBack {rules : List (Option Lexeme × Pattern)}
    (h : ∀ r ∈ rules, r.2.looksBack = false) (before before' : Option UInt8) (s : Bytes) :
    pick? rules before s = pick? rules before' s := by
  unfold pick?
  induction rules with
  | nil => rfl
  | cons r rules ih =>
    have hends := ends_of_looksBack (h r List.mem_cons_self) before before' ⟨[], s⟩
    rw [List.findSome?_cons, List.findSome?_cons, match?, match?, hends,
      ih fun x hx => h x (List.mem_cons_of_mem _ hx)]

/-- A run through a region ends where a mark ends it, and returns to the modes around it. -/
structure Crosses (region : Region) (state : State) (line : Line) (inside : List Event)
    (closer : Reading) (state' : State) (line' : Line) (rest' : Bytes) : Prop where
  state_eq : state' = { state with modes := state.modes.leave }
  closer_eq : closer = ⟨state.modes, (Token.verbatim closer.token.text).numbered line'.number,
    state.modes.leave⟩
  number : line'.number = line.number + Int64.ofNat (inside.count .lineEnd)
  visible : line'.isBlank = false
  mute : ∀ r, .token r ∈ inside → r.token.Mute
  pick : pick? (rules (.verbatim region) true) none (closer.token.text ++ rest') =
    some (some .regionEnd, ⟨closer.token.text.reverse, rest'⟩)

theorem isVerbatim_leave {modes : ModeStack} (hf : modes.Formed start)
    (hv : modes.active = .verbatim region) : modes.leave.active.isVerbatim = false := by
  obtain ⟨active, returns, count, left⟩ := modes
  obtain rfl := hv
  cases hf with
  | outer hs hname =>
    rw [← hname] at hs
    exact absurd hs (by simp [Mode.name, ModeName.isOuter])
  | inner hs hname => exact absurd hname (by simp [Mode.name, ModeName.isInner])
  | @region mode returns _ hshape hholds =>
    obtain ⟨hactive, -⟩ :=
      @ModeStack.leave_of_cons ⟨.verbatim region, mode :: returns, count, left⟩ _ _ rfl
    rw [hactive]
    cases mode with
    | verbatim r => exact absurd hholds (by simp [Mode.name, ModeName.holdsRegions])
    | _ => rfl

/-- Verbatim text in front of a run through a region is part of the region. -/
theorem Crosses.prepend {state' : State} {line₁ line' : Line} {rest' : Bytes}
    {front inside : List Event} {closer : Reading}
    (h : Crosses region state line₁ inside closer state' line' rest')
    (hnumber : line₁.number = line.number + Int64.ofNat (front.count .lineEnd))
    (hfront : ∀ r, .token r ∈ front → r.token.Mute) :
    Crosses region state line (front ++ inside) closer state' line' rest' where
  state_eq := h.state_eq
  closer_eq := h.closer_eq
  number := by
    rw [h.number, hnumber, List.count_append, Int64.ofNat_add, Int64.add_assoc]
  visible := h.visible
  mute := by
    intro r hr
    rcases List.mem_append.1 hr with hr | hr
    · exact hfront r hr
    · exact h.mute r hr
  pick := h.pick

theorem Through.crosses {state' : State} {line' : Line} {rest' : Bytes} {before : List Event}
    {r : Reading} (h : Through settings state line rest before r state' line' rest')
    (hf : state.modes.Formed start) (hv : state.modes.active = .verbatim region)
    (hstays : ∀ r, .token r ∈ before → r.after.active = .verbatim region)
    (hleaves : r.after.active.isVerbatim = false) :
    Crosses region state line before r state' line' rest' := by
  induction h with
  | @here state line rest hit lexeme n hnext hlabel hn =>
    obtain ⟨rfl, hlexeme, hreading, hstate, hnumber, hblank⟩ :=
      @takeLexeme_verbatim settings state line rest region hv hit lexeme n hnext hlabel hn
    have hend : lexeme = .regionEnd := by
      refine hlexeme.resolve_left fun hescape => ?_
      rw [hreading, if_pos hescape, hv] at hleaves
      exact absurd hleaves (by simp [Mode.isVerbatim])
    subst hend
    have hpick := pick?_of_search hnext
    rw [hv, hlabel, pick?_of_looksBack (looksBack_rules region _) _ none] at hpick
    have htext : (takeLexeme settings state line hit .regionEnd hit.matched.length).1.token.text =
        hit.matched := by
      rw [hreading]
      rfl
    constructor
    case state_eq => exact hstate
    case closer_eq => rw [htext, hnumber, hreading, if_neg (by simp)]
    case number =>
      rw [hnumber, count_gapEvents]
      exact (Int64.add_zero _).symm
    case visible => exact hblank
    case mute => exact fun r hr => mute_of_mem_gapEvents hv hr
    case pick =>
      rw [htext, List.drop_length, List.nil_append]
      exact hpick
  | @lineEnd state state' line line' rest rest' hit before r hnext hlabel h ih =>
    obtain ⟨hstate, hnumber⟩ := readGap_verbatim hv settings line hit.skipped []
    rw [hstate] at ih
    have hcrosses := ih hf hv (fun r hr => hstays r (by simp [hr])) hleaves
    rw [← List.singleton_append, ← List.append_assoc]
    refine hcrosses.prepend ?_ fun r hr => ?_
    · rw [List.count_append, count_gapEvents, Line.next, hnumber]
      rfl
    · rcases List.mem_append.1 hr with hr | hr
      · exact mute_of_mem_gapEvents hv hr
      · exact absurd (List.mem_singleton.1 hr) (by simp)
  | @lexeme state state' line line' rest rest' hit lexeme n before r hnext hlabel hn h ih =>
    obtain ⟨rfl, hlexeme, hreading, hstate, hnumber, -⟩ :=
      @takeLexeme_verbatim settings state line rest region hv hit lexeme n hnext hlabel hn
    have hescape : lexeme = .escape := by
      refine hlexeme.resolve_right fun hend => ?_
      have hafter := hstays _ (List.mem_append_right _ List.mem_cons_self)
      rw [hreading, if_neg (by simp [hend])] at hafter
      have hout := isVerbatim_leave hf hv
      rw [hafter] at hout
      exact absurd hout (by simp [Mode.isVerbatim])
    rw [if_pos hescape] at hreading hstate
    rw [hstate] at ih
    have hcrosses := ih hf hv (fun r hr => hstays r (by simp [hr])) hleaves
    rw [← List.singleton_append, ← List.append_assoc]
    refine hcrosses.prepend ?_ fun r hr => ?_
    · rw [hnumber, List.count_append, count_gapEvents]
      exact (Int64.add_zero _).symm
    · rcases List.mem_append.1 hr with hr | hr
      · exact mute_of_mem_gapEvents hv hr
      · rw [Event.token.inj (List.mem_singleton.1 hr), hreading]
        exact Token.mute_verbatim _ _

/-- Two regions that start alike and go over as many lines end alike in front of the same text. -/
theorem Crosses.same {state₁ state₂ : State} {line₁ line₂ : Line} {inside₁ inside₂ : List Event}
    {closer₁ closer₂ : Reading} {rest₁ rest₂ : Bytes}
    (h₁ : Crosses region state line inside₁ closer₁ state₁ line₁ rest₁)
    (h₂ : Crosses region state line inside₂ closer₂ state₂ line₂ rest₂)
    (hback : closer₂.token.text ++ rest₂ = closer₁.token.text ++ rest₁)
    (hcount : inside₂.count .lineEnd = inside₁.count .lineEnd) :
    closer₂ = closer₁ ∧ state₂ = state₁ ∧ line₂.number = line₁.number ∧ rest₂ = rest₁ := by
  have hpick := h₂.pick
  rw [hback, h₁.pick] at hpick
  obtain ⟨-, hspan⟩ := Prod.mk.inj (Option.some.inj hpick)
  obtain ⟨htaken, hrest⟩ := Span.mk.inj hspan
  have htext : closer₂.token.text = closer₁.token.text := (List.reverse_injective htaken).symm
  have hnumber : line₂.number = line₁.number := by rw [h₂.number, h₁.number, hcount]
  refine ⟨?_, h₂.state_eq.trans h₁.state_eq.symm, hnumber, hrest.symm⟩
  rw [h₂.closer_eq, h₁.closer_eq, htext, hnumber]

end Hidden

end Whole
end Scan
end Reindent
