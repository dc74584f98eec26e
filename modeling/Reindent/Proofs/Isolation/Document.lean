import Mathlib.Data.List.Nodup
import Reindent.Proofs.Isolation.Sites
import Reindent.Proofs.Matching.Halves

/-! The style sheets and scripts of a page nest on their own: what opens in one is closed in it, and
the tag behind it closes the tag in front of it. -/
namespace Reindent
open Bytes Scan

/-- The kinds of tokens that may be open between one style sheet or script and the next. -/
def Kind.isOuter : Kind → Bool
  | .markup | .template => true
  | _ => false

namespace Scan

/-- The readings that count for nesting: on every line those from the first visible one on. -/
def Event.visible (es : List Event) : List Reading :=
  (byLine es).flatMap fun l => l.dropWhile fun r => r.token.isBlank

/-- Readings one after the other, each at the site to which the one before it led. -/
inductive SitePath : Site → List Reading → Prop where
  | nil (site : Site) : SitePath site []
  | cons {r : Reading} {rs : List Reading} (hr : r.Fits) (h : SitePath r.after.site rs) :
    SitePath r.before.site (r :: rs)

/-- White space at the start of a line may be left out. -/
theorem Trace.path {modes : ModeStack} {es : List Event} (h : Trace Reading.Fits modes es) :
    SitePath modes.site (Event.visible es) := by
  have hlines : ∃ l ls, Event.byLine es = l :: ls ∧
      let more := ls.flatMap fun l => l.dropWhile fun r => r.token.isBlank
      SitePath modes.site (l ++ more) ∧
        SitePath modes.site (l.dropWhile (fun r => r.token.isBlank) ++ more) := by
    induction h with
    | nil modes => exact ⟨[], [], rfl, .nil _, .nil _⟩
    | lineEnd _ ih =>
      obtain ⟨l, ls, hl, -, hdrop⟩ := ih
      refine ⟨[], l :: ls, by rw [Event.byLine, hl], ?_, ?_⟩
      · rw [List.flatMap_cons]
        exact hdrop
      · rw [List.flatMap_cons]
        exact hdrop
    | @token r es hr _ ih =>
      obtain ⟨l, ls, hl, hall, hdrop⟩ := ih
      refine ⟨r :: l, ls, by rw [Event.byLine, hl], .cons hr hall, ?_⟩
      by_cases hblank : r.token.isBlank = true
      · rw [List.dropWhile_cons, if_pos hblank, ← hr.blank hblank]
        exact hdrop
      · rw [List.dropWhile_cons, if_neg hblank]
        exact .cons hr hall
  obtain ⟨l, ls, hl, -, hdrop⟩ := hlines
  unfold Event.visible
  rw [hl, List.flatMap_cons]
  exact hdrop

end Scan

namespace Scope

/-- A closer that reaches past a token, if at all, as template tags do leaves it in place, and takes
something on one side of it. -/
theorem Takes.around {kindOf : Mark → Kind} {closer : Kind} {above below rest : List Mark}
    {o opener : Mark} (h : Takes kindOf closer (above ++ o :: below) opener rest)
    (ho : kindOf o ≠ closer) (hpass : closer = .template ∨ closer.passes (kindOf o) = false) :
    ∃ above' below', rest = above' ++ o :: below' ∧ above' ⊆ above ∧ below' ⊆ below := by
  obtain ⟨front, back, hsplit, hpasses, hkind, rfl⟩ := h
  rcases List.append_eq_append_iff.1 hsplit with ⟨between, rfl, hback⟩ | ⟨between, rfl, hback⟩
  · cases between with
    | nil =>
      obtain ⟨rfl, -⟩ := List.cons.inj hback
      exact absurd hkind ho
    | cons x between =>
      obtain ⟨rfl, rfl⟩ := List.cons.inj hback
      have hclosed : closer = .template := by
        have hx := hpasses o (by simp)
        exact hpass.resolve_right (by simp [hx])
      refine ⟨above, between ++ back, ?_, List.Subset.refl _, ?_⟩
      · rw [if_pos hclosed]
        simp
      · intro b hb
        rcases List.mem_append.1 hb with hb | hb
        · simp [hb]
        · simp [hb]
  · cases between with
    | nil =>
      obtain ⟨rfl, -⟩ := List.cons.inj hback
      exact absurd hkind ho
    | cons x between =>
      obtain ⟨rfl, rfl⟩ := List.cons.inj hback
      refine ⟨(if closer = .template then front else []) ++ between, below, by simp, ?_,
        List.Subset.refl _⟩
      intro a ha
      rcases List.mem_append.1 ha with ha | ha
      · split_ifs at ha
        · simp [ha]
        · exact absurd ha (by simp)
      · simp [ha]

/-- Something that was open and is no longer was taken off by one of the tokens in between. -/
theorem Reaches.exists_drop {stack after ms : List Mark} {x : Mark} (h : Reaches stack ms after)
    (hx : x ∈ stack) (hgone : x ∉ after) :
    ∃ front m back between next, ms = front ++ m :: back ∧ Reaches stack front between ∧
      Advances between m next ∧ x ∈ between ∧ x ∉ next := by
  induction h with
  | nil stack => exact absurd hx hgone
  | @cons stack between after m ms ha hr ih =>
    by_cases hnext : x ∈ between
    · obtain ⟨front, m', back, stack', next, rfl, hfront, hadvance, hin, hout⟩ := ih hnext hgone
      exact ⟨m :: front, m', back, stack', next, rfl, .cons ha hfront, hadvance, hin, hout⟩
    · exact ⟨[], m, ms, stack, between, rfl, .nil stack, ha, hx, hnext⟩

/-- A token in its place and how it was read. -/
structure Spot where
  mark : Mark
  reading : Reading
  deriving DecidableEq

namespace Spot

def site (p : Spot) : Site := p.reading.before.site

/-- The token opens an element and its tag. -/
structure Opens (o : Spot) (element : Bytes) : Prop where
  opens : o.mark.token.opensMarkup = true
  named : Markup.elementName (o.mark.token.text.drop 1) = element
  outside : o.site = .outside
  enters : o.reading.after.site = .inTag element

theorem Opens.kind {o : Spot} {element : Bytes} (h : o.Opens element) :
    o.mark.kind = .markup := by
  have hopens := h.opens
  unfold Token.opensMarkup at hopens
  simp only [Bool.and_eq_true, beq_iff_eq] at hopens
  exact hopens.2

end Spot

/-- A token stands in the code of the element that another token opened: from the one to the other,
no token stands outside. -/
def Hosts (ps : List Spot) (o p : Spot) (element : Bytes) : Prop :=
  o.Opens element ∧ p.site = .inCode element ∧
    ∃ front between back, ps = front ++ o :: between ++ p :: back ∧
      ∀ q ∈ between, q.site ≠ .outside

/-- A token takes another off the stack. -/
def Drops (ms : List Mark) (m dropped : Mark) : Prop :=
  m ∈ ms ∧ ∃ stack next, Before ms m stack ∧ Advances stack m next ∧ dropped ∈ stack ∧
    dropped ∉ next

/-- What can be open at a site behind some tokens. In a tag or in code, the token that opened the
element is open, above it are only template tags and what was opened in the code, and below it is
nothing of any code. -/
inductive Isolated (front : List Spot) : Site → List Mark → Prop where
  | outside {stack : List Mark} (h : ∀ m ∈ stack, m.kind.isOuter = true) :
    Isolated front .outside stack
  | inside {site : Site} {element : Bytes} {outer inner : List Spot} {o : Spot}
    {above below : List Mark} (hsite : site = .inTag element ∨ site = .inCode element)
    (hfront : front = outer ++ o :: inner) (ho : o.Opens element)
    (hinner : ∀ q ∈ inner, q.site ≠ .outside)
    (habove : ∀ a ∈ above, a.kind = .template ∨ site = .inCode element ∧ a.kind.isCode = true ∧
      ∃ q ∈ inner, q.mark = a ∧ q.site = .inCode element)
    (hbelow : ∀ b ∈ below, b.kind.isOuter = true) :
    Isolated front site (above ++ o.mark :: below)

namespace Isolated
variable {front : List Spot} {site : Site} {stack rest next : List Mark} {p : Spot}

theorem extend (h : Isolated front site stack) (hp : p.site = site) :
    Isolated (front ++ [p]) site stack := by
  cases h with
  | outside h => exact .outside h
  | @inside _ element outer inner o _ _ hsite hfront ho hinner habove hbelow =>
    have hout : p.site ≠ .outside := by
      rw [hp]
      rcases hsite with rfl | rfl <;> simp
    have hmore : front ++ [p] = outer ++ o :: (inner ++ [p]) := by
      rw [hfront, List.append_assoc]
      rfl
    refine .inside hsite hmore ho ?_ ?_ hbelow
    · intro q hq
      rcases List.mem_append.1 hq with hq | hq
      · exact hinner q hq
      · rw [List.mem_singleton.1 hq]
        exact hout
    · intro a ha
      rcases habove a ha with hkind | ⟨hcode, hkind, q, hq, hmark⟩
      · exact Or.inl hkind
      · exact Or.inr ⟨hcode, hkind, q, List.mem_append_left _ hq, hmark⟩

/-- Template tags and the closers of code leave the element open. -/
theorem takes (h : Isolated front site stack) {closer : Kind} {opener : Mark}
    (hc : closer = .template ∨ closer.isCode = true)
    (ht : Takes Mark.kind closer stack opener rest) : Isolated front site rest := by
  cases h with
  | outside h => exact .outside fun m hm => h m (ht.sublist.subset hm)
  | inside hsite hfront ho hinner habove hbelow =>
    have hmarkup : closer ≠ .markup := by
      rintro rfl
      simp [Kind.isCode] at hc
    have hpass : closer = .template ∨ closer.passes .markup = false := by
      refine hc.imp_right fun hcode => ?_
      cases closer <;> simp [Kind.isCode, Kind.passes] at hcode ⊢
    rw [← ho.kind] at hmarkup hpass
    obtain ⟨above', below', rfl, habove', hbelow'⟩ := ht.around hmarkup.symm hpass
    exact .inside hsite hfront ho hinner (fun a ha => habove a (habove' ha))
      fun b hb => hbelow b (hbelow' hb)

theorem push (h : Isolated front site stack) (hp : p.site = site)
    (hkind : p.mark.kind = .template ∨
      ∃ element, site = .inCode element ∧ p.mark.kind.isCode = true) :
    Isolated (front ++ [p]) site (p.mark :: stack) := by
  have hext := h.extend hp
  cases hext with
  | outside h =>
    have hp' : p.mark.kind = .template := hkind.resolve_right (by simp)
    refine .outside fun m hm => ?_
    rcases List.mem_cons.1 hm with rfl | hm
    · rw [hp']
      rfl
    · exact h m hm
  | @inside _ element outer inner o above below hsite hfront ho hinner habove hbelow =>
    show Isolated _ site ((p.mark :: above) ++ o.mark :: below)
    refine .inside hsite hfront ho hinner ?_ hbelow
    intro a ha
    rcases List.mem_cons.1 ha with rfl | ha
    · refine hkind.imp_right fun ⟨code, hcode, hk⟩ => ?_
      have hsame : site = .inCode element := by
        rcases hsite with rfl | rfl
        · exact absurd hcode (by simp)
        · rfl
      have hlast : p ∈ inner := by
        have hmem : p ∈ (o :: inner) := by
          have hlast : (outer ++ o :: inner).getLast? = some p := by rw [← hfront]; simp
          rw [List.getLast?_append_of_ne_nil _ (by simp)] at hlast
          exact List.mem_of_getLast? hlast
        rcases List.mem_cons.1 hmem with rfl | hmem
        · have hout := ho.outside
          rw [hp, hsame] at hout
          exact absurd hout (by simp)
        · exact hmem
      exact ⟨hsame, hk, p, hlast, rfl, hp.trans hsame⟩
    · exact habove a ha

theorem onto (h : Isolated front site stack) (hp : p.site = site)
    (hkind : p.mark.kind = .template ∨
      ∃ element, site = .inCode element ∧ p.mark.kind.isCode = true) :
    Isolated (front ++ [p]) site (p.mark.onto stack) := by
  unfold Mark.onto
  split_ifs
  · exact h.push hp hkind
  · exact h.extend hp

theorem stay (h : Isolated front site stack) (hp : p.site = site)
    (hkind : p.mark.kind = .template ∨
      ∃ element, site = .inCode element ∧ p.mark.kind.isCode = true)
    (ha : Advances stack p.mark next) : Isolated (front ++ [p]) site next := by
  cases ha with
  | opens _ => exact h.onto hp hkind
  | closes _ ht =>
    have hc := hkind.imp_right fun ⟨_, _, hcode⟩ => hcode
    exact (h.takes hc ht).onto hp hkind

theorem opener_eq (h : Isolated front site stack) (hsite : site ≠ .outside) {opener : Mark}
    (ht : Takes Mark.kind .markup stack opener rest) :
    ∃ element outer o inner, (site = .inTag element ∨ site = .inCode element) ∧
      front = outer ++ o :: inner ∧ o.Opens element ∧ (∀ q ∈ inner, q.site ≠ .outside) ∧
      opener = o.mark ∧ ∀ m ∈ rest, m.kind.isOuter = true := by
  cases h with
  | outside _ => exact absurd rfl hsite
  | @inside _ element outer inner o above below hs hfront ho hinner habove hbelow =>
    have hnone : above = [] := by
      cases above with
      | nil => rfl
      | cons a above =>
        obtain ⟨passed, under, hsplit, hpasses, hkind, -⟩ := ht
        cases passed with
        | nil =>
          obtain ⟨rfl, -⟩ := List.cons.inj hsplit
          rcases habove a List.mem_cons_self with htemplate | ⟨-, hcode, -⟩
          · exact absurd (htemplate.symm.trans hkind) (by simp)
          · rw [hkind] at hcode
            exact absurd hcode (by simp [Kind.isCode])
        | cons x passed => exact absurd (hpasses x List.mem_cons_self) (by simp [Kind.passes])
    subst hnone
    obtain ⟨hopener, hrest⟩ := ht.unique (Takes.of_head ho.kind below)
    exact ⟨element, outer, o, inner, hs, hfront, ho, hinner, hopener,
      fun m hm => hbelow m (hrest ▸ hm)⟩

theorem outer (h : Isolated front site stack) (hsite : ∀ element, site ≠ .inCode element) :
    ∀ m ∈ stack, m.kind.isOuter = true := by
  cases h with
  | outside h => exact h
  | inside _ hfront ho hinner habove hbelow =>
    intro m hm
    rcases List.mem_append.1 hm with hm | hm
    · have htemplate := (habove m hm).resolve_right fun h => hsite _ h.1
      rw [htemplate]
      rfl
    · rcases List.mem_cons.1 hm with rfl | hm
      · rw [ho.kind]
        rfl
      · exact hbelow m hm

theorem step (h : Isolated front p.site stack) {site' : Site}
    (hmoves : Moves p.mark.token p.site site') (hafter : p.reading.after.site = site')
    (ha : Advances stack p.mark next) : Isolated (front ++ [p]) site' next := by
  -- a closing tag that ends a tag or code leaves what was open in front of the element
  have hcloses : p.site ≠ .outside → p.mark.token.closesMarkup = true →
      Isolated (front ++ [p]) .outside next := by
    intro hsite hclose
    simp only [Token.closesMarkup, Bool.and_eq_true, Bool.not_eq_true', beq_iff_eq] at hclose
    obtain ⟨⟨hd, hi⟩, hkind⟩ := hclose
    cases ha with
    | opens hd' => exact absurd (hd'.symm.trans hd) Bool.false_ne_true
    | closes _ ht =>
      rw [Mark.kind, hkind] at ht
      obtain ⟨_, _, _, _, -, -, -, -, -, hrest⟩ := h.opener_eq hsite ht
      rw [Mark.onto, if_neg (by simp [hi])]
      exact .outside hrest
  generalize hp : p.site = site at h hmoves hcloses
  cases hmoves with
  | plain hnests =>
    rw [ha.eq_of_not_nests hnests]
    exact h.extend hp
  | template hkind => exact h.stay hp (Or.inl hkind) ha
  | opens hopens =>
    have hopens' := hopens
    simp only [Token.opensMarkup, Bool.and_eq_true, Bool.not_eq_true', beq_iff_eq] at hopens'
    obtain ⟨⟨hi, hd⟩, -⟩ := hopens'
    cases h with
    | outside h =>
      cases ha with
      | opens _ =>
        rw [Mark.onto, if_pos hi]
        show Isolated _ _ ([] ++ p.mark :: stack)
        exact .inside (Or.inl rfl) rfl ⟨hopens, rfl, hp, hafter⟩ (by simp) (by simp) h
      | closes hd' _ => exact absurd (hd.symm.trans hd') Bool.false_ne_true
    | inside hsite => exact absurd hsite (by simp)
  | closes hclose =>
    simp only [Token.closesMarkup, Bool.and_eq_true, Bool.not_eq_true', beq_iff_eq] at hclose
    cases h with
    | outside h =>
      cases ha with
      | opens hd => exact absurd (hd.symm.trans hclose.1.1) Bool.false_ne_true
      | closes _ ht =>
        rw [Mark.onto, if_neg (by simp [hclose.1.2])]
        exact .outside fun m hm => h m (ht.sublist.subset hm)
    | inside hsite => exact absurd hsite (by simp)
  | closesTag hclose => exact hcloses (by simp) hclose
  | leavesTag hnests =>
    rw [ha.eq_of_not_nests hnests]
    exact .outside (h.outer (by simp))
  | entersCode hnests =>
    rw [ha.eq_of_not_nests hnests]
    have hext := h.extend hp
    cases hext with
    | inside hsite hfront ho hinner habove hbelow =>
      have helement := hsite.resolve_right (by simp)
      obtain rfl := Site.inTag.inj helement
      refine .inside (Or.inr rfl) hfront ho hinner ?_ hbelow
      intro a ha
      exact Or.inl ((habove a ha).resolve_right (by simp))
  | code hkind => exact h.stay hp (Or.inr ⟨_, rfl, hkind⟩) ha
  | closesCode hclose => exact hcloses (by simp) hclose

theorem run {done front back : List Spot} (h : Isolated done site stack)
    (hpath : SitePath site ((front ++ p :: back).map Spot.reading))
    (htokens : ∀ q ∈ front, q.mark.token = q.reading.token)
    (hr : Reaches stack (front.map Spot.mark) next) : Isolated (done ++ front) p.site next := by
  induction front generalizing done site stack with
  | nil =>
    cases hr
    cases hpath
    rw [List.append_nil]
    exact h
  | cons q front ih =>
    cases hpath with
    | cons hq hpath =>
      cases hr with
      | cons ha hr =>
        have hmoves := hq.moves
        rw [← htokens q List.mem_cons_self] at hmoves
        have hstep := ih (Isolated.step h hmoves rfl ha) hpath
          (fun q' hq' => htokens q' (List.mem_cons_of_mem _ hq')) hr
        rw [List.append_assoc] at hstep
        exact hstep

theorem code_mem (h : Isolated front site stack) {m : Mark} (hm : m ∈ stack)
    (hkind : m.kind.isCode = true) :
    ∃ element outer o inner, site = .inCode element ∧ front = outer ++ o :: inner ∧
      o.Opens element ∧ (∀ q ∈ inner, q.site ≠ .outside) ∧
      ∃ q ∈ inner, q.mark = m ∧ q.site = .inCode element := by
  have hnone : m.kind.isOuter = true → False := by
    intro houter
    cases hk : m.kind <;> simp [hk, Kind.isOuter, Kind.isCode] at houter hkind
  cases h with
  | outside h => exact (hnone (h m hm)).elim
  | @inside _ element outer inner o above below hsite hfront ho hinner habove hbelow =>
    rcases List.mem_append.1 hm with hm | hm
    · rcases habove m hm with htemplate | ⟨hcode, -, hq⟩
      · exact (hnone (by rw [htemplate]; rfl)).elim
      · exact ⟨element, outer, o, inner, hcode, hfront, ho, hinner, hq⟩
    · rcases List.mem_cons.1 hm with rfl | hm
      · exact (hnone (by rw [ho.kind]; rfl)).elim
      · exact (hnone (hbelow m hm)).elim

end Isolated

section Pages
variable {settings : Settings} {source : Bytes} {lines : List Line}

def readings (settings : Settings) (source : Bytes) : List Reading :=
  Event.visible (Whole.events settings { modes := { active := .markup } } { number := 1 } source)

/-- The marks of a page, each with the reading that made it. -/
def spots (settings : Settings) (source : Bytes) (lines : List Line) : List Spot :=
  List.zipWith Spot.mk (marks lines) (readings settings source)

theorem token_readings (h : tokenize settings { active := .markup } source = .ok lines) :
    (marks lines).map Mark.token = (readings settings source).map Reading.token := by
  rw [Whole.tokenize_eq_run] at h
  have hrun := Whole.lines_run (Prod.ext rfl h)
  have hlines : lines.map Line.tokens = (Event.byLine (Whole.events settings
      { modes := { active := .markup } } { number := 1 } source)).map (·.map Reading.token) := by
    rw [hrun, tokens_linesFrom rfl]
  have hseen : lines.flatMap Line.seen =
      (lines.map Line.tokens).flatMap fun ts => ts.dropWhile Token.isBlank := by
    rw [List.flatMap_map]
    rfl
  unfold marks readings Event.visible
  rw [map_token_marksFrom, hseen, hlines, List.flatMap_map, List.map_flatMap]
  apply List.flatMap_congr
  intro rs _
  rw [List.dropWhile_map]
  rfl

/-- Every mark has its reading, and both have the same token. -/
theorem spots_spec (h : tokenize settings { active := .markup } source = .ok lines) :
    (spots settings source lines).map Spot.mark = marks lines ∧
      (spots settings source lines).map Spot.reading = readings settings source ∧
      ∀ p ∈ spots settings source lines, p.mark.token = p.reading.token := by
  have htokens := token_readings h
  unfold spots
  generalize marks lines = ms at htokens
  generalize readings settings source = rs at htokens
  rw [← List.forall₂_eq_eq_eq, List.forall₂_map_left_iff, List.forall₂_map_right_iff] at htokens
  induction htokens with
  | nil => exact ⟨rfl, rfl, by simp⟩
  | @cons m r ms rs htoken _ ih =>
    obtain ⟨hmarks, hreadings, hall⟩ := ih
    rw [List.zipWith_cons_cons, List.map_cons, List.map_cons, hmarks, hreadings]
    refine ⟨rfl, rfl, fun p hp => ?_⟩
    rcases List.mem_cons.1 hp with rfl | hp
    · exact htoken
    · exact hall p hp

theorem path_readings (settings : Settings) (source : Bytes) :
    SitePath .outside (readings settings source) := by
  let state : State := { modes := { active := .markup } }
  have hformed : state.modes.Formed .markup := Language.html.formed_start
  exact (trace_fits hformed _ _).path

/-- Every token of a page that is accepted finds the stack that its site asks for. -/
theorem stands (hread : tokenize settings { active := .markup } source = .ok lines)
    {front back : List Spot} {p : Spot}
    (hps : spots settings source lines = front ++ p :: back) {stack : List Mark}
    (hfront : Reaches [] (front.map Spot.mark) stack) :
    Isolated front p.site stack ∧ Before (marks lines) p.mark stack := by
  obtain ⟨hmarks, hreadings, htokens⟩ := spots_spec hread
  rw [hps] at hmarks hreadings htokens
  constructor
  · have hpath := path_readings settings source
    rw [← hreadings] at hpath
    have hstart : Isolated [] .outside [] := .outside (by simp)
    exact hstart.run hpath (fun q hq => htokens q (List.mem_append_left _ hq)) hfront
  · rw [List.map_append, List.map_cons] at hmarks
    have hsorted := sorted_marksFrom 0 0 lines
    unfold Before
    unfold marks at hmarks ⊢
    rw [← hmarks] at hsorted ⊢
    rw [filter_place hsorted]
    exact hfront

/-- The tag behind code closes the tag in front of it. -/
theorem closes_host (hread : tokenize settings { active := .markup } source = .ok lines)
    (hr : Reaches [] (marks lines) []) {p : Spot} (hp : p ∈ spots settings source lines)
    {element : Bytes} (hsite : p.site = .inCode element)
    (hclose : p.mark.token.closesMarkup = true) :
    ∃ o, Hosts (spots settings source lines) o p element ∧
      ∀ opener, Closes (marks lines) p.mark opener ↔ opener = o.mark := by
  obtain ⟨front, back, hps⟩ := List.append_of_mem hp
  obtain ⟨hmarks, -, -⟩ := spots_spec hread
  rw [hps, List.map_append, List.map_cons] at hmarks
  have hmem : p.mark ∈ marks lines := by
    rw [← hmarks]
    simp
  rw [← hmarks] at hr
  obtain ⟨stack, hfront, hback⟩ := hr.split
  obtain ⟨hisolated, hbefore⟩ := stands hread hps hfront
  simp only [Token.closesMarkup, Bool.and_eq_true, Bool.not_eq_true', beq_iff_eq] at hclose
  cases hback with
  | cons ha _ =>
    cases ha with
    | opens hd => exact absurd (hd.symm.trans hclose.1.1) Bool.false_ne_true
    | @closes opener rest hd ht =>
      have hkind : p.mark.kind = .markup := hclose.2
      obtain ⟨named, outer, o, inner, hnamed, hsplit, ho, hinner, hopener, -⟩ :=
        hisolated.opener_eq (by simp [hsite]) (hkind ▸ ht)
      have hname : element = named := by
        rw [hsite] at hnamed
        exact Site.inCode.inj (hnamed.resolve_left (by simp))
      refine ⟨o, ⟨hname ▸ ho, hsite, outer, inner, back, ?_, hinner⟩, fun other => ⟨?_, ?_⟩⟩
      · rw [hps, hsplit]
      · rintro ⟨-, -, stack', rest', hbefore', ht'⟩
        obtain rfl := hbefore.unique hbefore'
        rw [← hopener]
        exact (ht'.unique ht).1
      · rintro rfl
        rw [← hopener]
        exact ⟨hmem, hd, stack, rest, hbefore, ht⟩

/-- What is opened in code is taken off the stack in the same code. -/
theorem dropped_in_host (hread : tokenize settings { active := .markup } source = .ok lines)
    (hr : Reaches [] (marks lines) []) {p : Spot} (hp : p ∈ spots settings source lines)
    (hkind : p.mark.kind.isCode = true) (hopens : p.mark.token.indents = true) :
    ∃ element o q, Hosts (spots settings source lines) o p element ∧
      Hosts (spots settings source lines) o q element ∧ Drops (marks lines) q.mark p.mark := by
  obtain ⟨front, back, hps⟩ := List.append_of_mem hp
  obtain ⟨hmarks, -, -⟩ := spots_spec hread
  have hnodup : ((spots settings source lines).map Spot.mark).Nodup := by
    rw [hmarks]
    exact (sorted_marksFrom 0 0 lines).imp fun hlt heq => by simp [heq] at hlt
  rw [hps, List.map_append, List.map_cons] at hmarks
  rw [← hmarks] at hr
  obtain ⟨stack, hfront, hback⟩ := hr.split
  cases hback with
  | @cons _ next _ _ _ ha hback =>
    have hopen : p.mark ∈ next := by
      cases ha <;> simp [Mark.onto, hopens]
    obtain ⟨between, m, rest, stack', next', hsplit, hbetween, ha', hin, hout⟩ :=
      hback.exists_drop hopen (by simp)
    obtain ⟨more, others, rfl, rfl, hothers⟩ := List.map_eq_append_iff.1 hsplit
    obtain ⟨q, rest', rfl, rfl, -⟩ := List.map_eq_cons_iff.1 hothers
    have hps' : spots settings source lines = (front ++ p :: more) ++ q :: rest' := by
      rw [hps, List.append_assoc]
      rfl
    have hreach : Reaches [] ((front ++ p :: more).map Spot.mark) stack' := by
      rw [List.map_append, List.map_cons]
      exact hfront.append (.cons ha hbetween)
    obtain ⟨hisolated, hbefore⟩ := stands hread hps' hreach
    obtain ⟨element, outer, o, inner, hsite, hinside, ho, hinner, p', hp', hmark, hsite'⟩ :=
      hisolated.code_mem hin hkind
    have hsame : p' = p := by
      refine List.inj_on_of_nodup_map hnodup ?_ hp hmark
      rw [hps', hinside]
      simp [hp']
    subst hsame
    obtain ⟨inner₁, inner₂, rfl⟩ := List.append_of_mem hp'
    have hmem : q.mark ∈ marks lines := by
      rw [← hmarks]
      simp
    refine ⟨element, o, q, ⟨ho, hsite', outer, inner₁, inner₂ ++ q :: rest', ?_, ?_⟩,
      ⟨ho, hsite, outer, _, rest', by rw [hps', hinside], hinner⟩,
      hmem, stack', next', hbefore, ha', hin, hout⟩
    · rw [hps', hinside]
      simp
    · intro q' hq'
      exact hinner q' (List.mem_append_left _ hq')

/-- On a page that is accepted, every closing tag behind a style sheet or script closes exactly the
tag that opened the element, whatever opens in a style sheet or script is closed in the same one, and
in front of all other tokens only markup and template tags are open. -/
theorem embedded_isolated (settings : Settings) (source : Bytes) {lines : List Line}
    (hread : tokenize settings { active := .markup } source = .ok lines)
    (hok : (assign lines).isOk = true) :
    ((spots settings source lines).map Spot.mark = marks lines ∧
      (spots settings source lines).map Spot.reading = readings settings source ∧
      ∀ p ∈ spots settings source lines, p.mark.token = p.reading.token) ∧
    (∀ p ∈ spots settings source lines, ∀ element, p.site = .inCode element →
      p.mark.token.closesMarkup = true →
      ∃ o, Hosts (spots settings source lines) o p element ∧
        ∀ opener, Closes (marks lines) p.mark opener ↔ opener = o.mark) ∧
    (∀ p ∈ spots settings source lines, p.mark.kind.isCode = true →
      p.mark.token.indents = true →
      ∃ element o q, Hosts (spots settings source lines) o p element ∧
        Hosts (spots settings source lines) o q element ∧ Drops (marks lines) q.mark p.mark) ∧
    ∀ p ∈ spots settings source lines, (∀ element, p.site ≠ .inCode element) →
      ∃ stack, Before (marks lines) p.mark stack ∧ ∀ m ∈ stack, m.kind.isOuter = true := by
  have hr := (isOk_assign_iff lines).1 hok
  refine ⟨spots_spec hread, fun p hp element => closes_host hread hr hp,
    fun p hp => dropped_in_host hread hr hp, fun p hp hsite => ?_⟩
  obtain ⟨front, back, hps⟩ := List.append_of_mem hp
  obtain ⟨hmarks, -, -⟩ := spots_spec hread
  rw [hps, List.map_append, List.map_cons] at hmarks
  rw [← hmarks] at hr
  obtain ⟨stack, hfront, -⟩ := hr.split
  obtain ⟨hisolated, hbefore⟩ := stands hread hps hfront
  exact ⟨stack, hbefore, hisolated.outer hsite⟩

end Pages

/-- A style sheet, and a script with a switch in a template block. -/
def mixedPage : Bytes :=
  ascii ("<style>a\x7b\n\x7d</style>\n\x7b% if x %\x7d<script>switch(a)\x7b\n" ++
    "case 1:\nb()\x7d</script>\x7b% endif %\x7d")

theorem embedded_isolated_mixedPage :
    ∃ lines, tokenize {} { active := .markup } mixedPage = .ok lines ∧
      (assign lines).isOk = true ∧
      (∃ p ∈ spots {} mixedPage lines, p.mark.token.text = ascii "</script>" ∧
        ∃ o, Hosts (spots {} mixedPage lines) o p (ascii "script") ∧
          Closes (marks lines) p.mark o.mark) ∧
      ∃ p ∈ spots {} mixedPage lines, p.mark.kind = .case ∧
        ∃ element o q, Hosts (spots {} mixedPage lines) o p element ∧
          Hosts (spots {} mixedPage lines) o q element ∧ Drops (marks lines) q.mark p.mark := by
  have hread : (tokenize {} { active := .markup } mixedPage).toOption.any (fun lines =>
      (assign lines).isOk && (spots {} mixedPage lines).any (fun p =>
        p.mark.token.text == ascii "</script>" && p.mark.token.closesMarkup &&
          p.site == .inCode (ascii "script")) &&
      (spots {} mixedPage lines).any fun p => p.mark.kind == .case && p.mark.token.indents) =
        true := by
    decide +kernel
  cases h : tokenize {} { active := .markup } mixedPage with
  | error overrun =>
    rw [h] at hread
    exact absurd hread (by simp [Except.toOption])
  | ok lines =>
    rw [h] at hread
    simp only [Except.toOption, Option.any_some, Bool.and_eq_true, List.any_eq_true,
      beq_iff_eq] at hread
    obtain ⟨⟨hok, p, hp, ⟨htext, hclose⟩, hsite⟩, q, hq, hkind, hopens⟩ := hread
    obtain ⟨-, hcloses, hdropped, -⟩ := embedded_isolated {} mixedPage h hok
    obtain ⟨o, hosts, hopener⟩ := hcloses p hp _ hsite hclose
    refine ⟨lines, rfl, hok, ⟨p, hp, htext, o, hosts, (hopener o.mark).2 rfl⟩, q, hq, hkind, ?_⟩
    exact hdropped q hq (by rw [hkind]; rfl) hopens

end Scope
end Reindent
