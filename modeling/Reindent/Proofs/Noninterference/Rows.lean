import Reindent.Proofs.Noninterference.Levels

/-! The lines of two documents with different text in a verbatim region: those that do not lie in the
region as a whole look the same to the scope pass, and the others hold verbatim text only. -/
namespace Reindent
open Bytes Scan

namespace Scan.Event

def row (i : Nat) (es : List Event) : List Reading := (byLine es).getD i []

theorem length_byLine (es : List Event) : (byLine es).length = es.count .lineEnd + 1 := by
  induction es with
  | nil => rfl
  | cons e es ih =>
    cases e with
    | lineEnd => rw [byLine, List.length_cons, ih, List.count_cons_self]
    | token r =>
      obtain ⟨l, ls, hby⟩ := exists_byLine es
      rw [byLine, hby, List.count_cons_of_ne (by simp), ← ih, hby]
      rfl

theorem row_nil (i : Nat) : row i [] = [] := by
  cases i with
  | zero => rfl
  | succ i => rfl

theorem row_zero_token (r : Reading) (es : List Event) :
    row 0 (.token r :: es) = r :: row 0 es := by
  obtain ⟨l, ls, hby⟩ := exists_byLine es
  unfold row
  rw [byLine, hby]
  rfl

theorem row_succ_token (i : Nat) (r : Reading) (es : List Event) :
    row (i + 1) (.token r :: es) = row (i + 1) es := by
  obtain ⟨l, ls, hby⟩ := exists_byLine es
  unfold row
  rw [byLine, hby]
  rfl

theorem row_zero_lineEnd (es : List Event) : row 0 (.lineEnd :: es) = [] := rfl

theorem row_succ_lineEnd (i : Nat) (es : List Event) :
    row (i + 1) (.lineEnd :: es) = row i es := rfl

theorem row_of_lt {i : Nat} {es : List Event} (h : es.count .lineEnd < i) : row i es = [] := by
  unfold row
  rw [List.getD_eq_getElem?_getD, List.getElem?_eq_none (by rw [length_byLine]; exact h),
    Option.getD_none]

theorem mem_of_mem_row {r : Reading} {i : Nat} {es : List Event} (h : r ∈ row i es) :
    .token r ∈ es := by
  induction es generalizing i with
  | nil =>
    rw [row_nil] at h
    exact absurd h (by simp)
  | cons e es ih =>
    cases e with
    | lineEnd =>
      cases i with
      | zero => exact absurd h (by simp [row_zero_lineEnd])
      | succ i => exact List.mem_cons_of_mem _ (ih h)
    | token r' =>
      cases i with
      | zero =>
        rw [row_zero_token] at h
        rcases List.mem_cons.1 h with rfl | h
        · exact List.mem_cons_self
        · exact List.mem_cons_of_mem _ (ih h)
      | succ i =>
        rw [row_succ_token] at h
        exact List.mem_cons_of_mem _ (ih h)

theorem row_append (i : Nat) (es fs : List Event) :
    row i (es ++ fs) =
      row i es ++ if es.count .lineEnd ≤ i then row (i - es.count .lineEnd) fs else [] := by
  induction es generalizing i with
  | nil =>
    rw [row_nil, List.count_nil, if_pos (Nat.zero_le i)]
    rfl
  | cons e es ih =>
    cases e with
    | lineEnd =>
      rw [List.count_cons_self, List.cons_append]
      cases i with
      | zero => rw [row_zero_lineEnd, row_zero_lineEnd, if_neg (by omega), List.append_nil]
      | succ i =>
        rw [row_succ_lineEnd, row_succ_lineEnd, ih, Nat.succ_sub_succ]
        simp only [Nat.add_le_add_iff_right]
    | token r =>
      rw [List.count_cons_of_ne (by simp), List.cons_append]
      cases i with
      | zero => rw [row_zero_token, row_zero_token, ih, List.cons_append]
      | succ i => rw [row_succ_token, row_succ_token, ih]

def tokens (i : Nat) (es : List Event) : List Token := (row i es).map Reading.token

theorem tokens_append (i : Nat) (es fs : List Event) :
    tokens i (es ++ fs) =
      tokens i es ++ if es.count .lineEnd ≤ i then tokens (i - es.count .lineEnd) fs else [] := by
  unfold tokens
  rw [row_append, List.map_append]
  split_ifs
  · rfl
  · rfl

/-- On the line where a region ends tokens are the same, and below it they are up to offsets. -/
theorem Alike.tokens {own : Bool} {es es' : List Event} (h : Alike own es es') :
    es'.count .lineEnd = es.count .lineEnd ∧
      (own = true → Event.tokens 0 es' = Event.tokens 0 es) ∧
      ∀ i, (Event.tokens i es').map Token.unshifted = (Event.tokens i es).map Token.unshifted := by
  induction h with
  | same own es => exact ⟨rfl, fun _ => rfl, fun _ => rfl⟩
  | @token own r r' es es' hr htag h ih =>
    obtain ⟨hcount, hfirst, hrest⟩ := ih
    have hshift : r'.token.unshifted = r.token.unshifted := by
      rcases hr with heq | ⟨-, -, heq⟩
      · rw [heq]
      · exact heq
    refine ⟨?_, fun hown => ?_, fun i => ?_⟩
    · rw [List.count_cons_of_ne (by simp), List.count_cons_of_ne (by simp), hcount]
    · have htoken : r'.token = r.token := by
        rcases hr with heq | ⟨hbelow, -, -⟩
        · exact heq
        · exact absurd (hown.symm.trans hbelow) (by simp)
      have hfirst := hfirst hown
      unfold Event.tokens at hfirst ⊢
      rw [row_zero_token, row_zero_token, List.map_cons, List.map_cons, htoken, hfirst]
    · have hrest := hrest i
      unfold Event.tokens at hrest ⊢
      cases i with
      | zero =>
        rw [row_zero_token, row_zero_token, List.map_cons, List.map_cons, List.map_cons,
          List.map_cons, hshift, hrest]
      | succ i => rw [row_succ_token, row_succ_token, hrest]
  | @lineEnd own es es' h ih =>
    obtain ⟨hcount, -, hrest⟩ := ih
    refine ⟨?_, fun _ => rfl, fun i => ?_⟩
    · rw [List.count_cons_self, List.count_cons_self, hcount]
    · cases i with
      | zero => rfl
      | succ i => exact hrest i

end Scan.Event

theorem Scan.length_linesFrom (line : Line) (rows : List (List Reading)) :
    (linesFrom line rows).length = rows.length := by
  induction rows generalizing line with
  | nil => rfl
  | cons rs rows ih => rw [linesFrom, List.length_cons, List.length_cons, ih]

theorem Scan.line_of_linesFrom {line : Line} (ht : line.tokens = []) (hplace : line.place = (0, false))
    {es : List Event} {i : Nat} {l : Line} (h : l ∈ (linesFrom line (Event.byLine es))[i]?) :
    l.tokens = Event.tokens i es ∧ l.place = (0, false) := by
  unfold Event.tokens Event.row
  generalize Event.byLine es = rows at h
  induction rows generalizing line i with
  | nil => exact absurd h (by simp [linesFrom])
  | cons rs rows ih =>
    cases i with
    | zero =>
      obtain rfl := Option.some.inj h
      rw [ht]
      exact ⟨rfl, hplace⟩
    | succ i => exact ih rfl rfl h

namespace Line
variable {l l' : Line}

theorem outline_congr (h : l'.tokens = l.tokens) : l'.outline = l.outline := by
  unfold outline
  rw [h]

theorem exists_first {tokens : List Token} (h : ∃ t ∈ tokens, t.isBlank = false) :
    ∃ first rest, tokens.dropWhile Token.isBlank = first :: rest := by
  apply List.exists_cons_of_ne_nil
  rw [ne_eq, List.dropWhile_eq_nil_iff]
  obtain ⟨t, hmem, hshown⟩ := h
  intro hblank
  exact absurd (hshown.symm.trans (hblank t hmem)) Bool.false_ne_true

theorem filter_nests_eq_nil {tokens : List Token} (h : ∀ t ∈ tokens, t.nests = false) :
    tokens.filter Token.nests = [] := by
  rw [List.filter_eq_nil_iff]
  intro t ht hnests
  exact absurd ((h t ht).symm.trans hnests) Bool.false_ne_true

/-- Text that does not nest behind a visible token does not count. -/
theorem outline_of_shown {a x q : List Token} (hl : l.tokens = a ++ (x ++ q))
    (ha : ∃ t ∈ a, t.isBlank = false) (hx : ∀ t ∈ x, t.nests = false) :
    l.outline = ({ l with tokens := a ++ q } : Line).outline := by
  obtain ⟨t, rest, hdrop⟩ := exists_first ha
  have hall : ∀ more, (a ++ more).dropWhile Token.isBlank = t :: (rest ++ more) := by
    intro more
    rw [List.dropWhile_append, hdrop]
    rfl
  unfold outline
  rw [hl]
  dsimp only
  rw [hall, hall]
  dsimp only
  rw [← List.cons_append, ← List.cons_append, List.filter_append, List.filter_append,
    List.filter_append, filter_nests_eq_nil hx, List.nil_append]

/-- A line that starts with verbatim text is led by it. -/
theorem outline_of_mute {x q : List Token} (hl : l.tokens = x ++ q) (hx : ∀ t ∈ x, t.Mute)
    (hshown : ∃ t ∈ x, t.isBlank = false) :
    l.outline = some { offset := 0, leads := false, nesting := q.filter Token.nests } := by
  obtain ⟨first, rest, hdrop⟩ := exists_first hshown
  have hmute : ∀ t ∈ first :: rest, t.Mute := by
    rw [← hdrop]
    exact fun t ht => hx t ((List.dropWhile_suffix _).subset ht)
  have hfilter := filter_nests_eq_nil fun t ht => (hmute t ht).nests
  have hfirst := hmute first List.mem_cons_self
  unfold outline
  rw [hl, List.dropWhile_append, hdrop]
  dsimp only [List.isEmpty_cons, List.cons_append]
  rw [if_neg Bool.false_ne_true]
  dsimp only
  rw [← List.cons_append, List.filter_append, hfilter, List.nil_append, hfirst.offset, hfirst.nests]

theorem startsVerbatim_unshifted (l : Line) : l.unshifted.startsVerbatim = l.startsVerbatim := by
  unfold startsVerbatim unshifted
  cases l.tokens with
  | nil => rfl
  | cons t rest => rfl

theorem startsVerbatim_of_mute {t : Token} {rest : List Token} (hl : l.tokens = t :: rest)
    (ht : t.Mute) : l.startsVerbatim = true := by
  unfold startsVerbatim
  rw [hl]
  exact ht.ignore

theorem agrees_of_tokens (h : l'.tokens.map Token.unshifted = l.tokens.map Token.unshifted)
    (hplace : l'.place = l.place) : l.Agrees l' where
  outline := outline_congr h
  startsVerbatim := by
    rw [← startsVerbatim_unshifted, ← startsVerbatim_unshifted l]
    unfold startsVerbatim unshifted
    dsimp only
    rw [h]
  level := congrArg Prod.fst hplace
  ignore := congrArg Prod.snd hplace

/-- Lines agree that differ only in verbatim text behind a token that shows. -/
theorem agrees_of_shown {a x x' q : List Token} (hl : l.tokens = a ++ (x ++ q))
    (hl' : l'.tokens = a ++ (x' ++ q)) (ha : ∃ t ∈ a, t.isBlank = false) (hx : ∀ t ∈ x, t.Mute)
    (hx' : ∀ t ∈ x', t.Mute) (hplace : l'.place = l.place) : l.Agrees l' where
  outline := by
    have hshort : ∀ (m : Line) (y : List Token), m.tokens = a ++ (y ++ q) →
        (∀ t ∈ y, t.Mute) → m.unshifted.outline =
          ({ l with tokens := a.map Token.unshifted ++ q.map Token.unshifted } : Line).outline := by
      intro m y hm hy
      have htokens : m.unshifted.tokens =
          a.map Token.unshifted ++ (y.map Token.unshifted ++ q.map Token.unshifted) := by
        rw [unshifted, hm, List.map_append, List.map_append]
      obtain ⟨t, hmem, hshown⟩ := ha
      refine (outline_of_shown htokens ⟨_, List.mem_map_of_mem hmem, hshown⟩ ?_).trans
        (outline_congr rfl)
      intro t ht
      obtain ⟨t, hmem, rfl⟩ := List.mem_map.1 ht
      exact (hy t hmem).nests
    rw [hshort l x hl hx, hshort l' x' hl' hx']
  startsVerbatim := by
    obtain ⟨t, rest, rfl⟩ : ∃ t rest, a = t :: rest := by
      obtain ⟨t, hmem, -⟩ := ha
      exact List.exists_cons_of_ne_nil (List.ne_nil_of_mem hmem)
    unfold startsVerbatim
    rw [hl, hl']
    rfl
  level := congrArg Prod.fst hplace
  ignore := congrArg Prod.snd hplace

/-- Lines agree that start with verbatim text and go on alike. -/
theorem agrees_of_mute {x x' q : List Token} (hl : l.tokens = x ++ q) (hl' : l'.tokens = x' ++ q)
    (hx : ∀ t ∈ x, t.Mute) (hx' : ∀ t ∈ x', t.Mute) (hshown : ∃ t ∈ x, t.isBlank = false)
    (hshown' : ∃ t ∈ x', t.isBlank = false) (hplace : l'.place = l.place) : l.Agrees l' where
  outline := by
    have hled : ∀ (m : Line) (y : List Token), m.tokens = y ++ q → (∀ t ∈ y, t.Mute) →
        (∃ t ∈ y, t.isBlank = false) → m.unshifted.outline =
          some ⟨0, false, (q.map Token.unshifted).filter Token.nests⟩ := by
      rintro m y hm hy ⟨t, hmem, hshown⟩
      have htokens : m.unshifted.tokens = y.map Token.unshifted ++ q.map Token.unshifted := by
        rw [unshifted, hm, List.map_append]
      refine outline_of_mute htokens (fun t ht => ?_) ⟨_, List.mem_map_of_mem hmem, hshown⟩
      obtain ⟨t, hmem, rfl⟩ := List.mem_map.1 ht
      exact (hy t hmem).unshifted
    rw [hled l x hl hx hshown, hled l' x' hl' hx' hshown']
  startsVerbatim := by
    obtain ⟨t, hmem, -⟩ := hshown
    obtain ⟨t', hmem', -⟩ := hshown'
    obtain ⟨t, rest, rfl⟩ := List.exists_cons_of_ne_nil (List.ne_nil_of_mem hmem)
    obtain ⟨t', rest', rfl⟩ := List.exists_cons_of_ne_nil (List.ne_nil_of_mem hmem')
    rw [startsVerbatim_of_mute hl (hx t List.mem_cons_self),
      startsVerbatim_of_mute hl' (hx' t' List.mem_cons_self)]
  level := congrArg Prod.fst hplace
  ignore := congrArg Prod.snd hplace

end Line

namespace Scan.Event
variable {front inside inside' back back' : List Event} {closer : Reading}

theorem mute_of_mem_tokens (h : ∀ r, .token r ∈ inside → r.token.Mute) {i : Nat} {t : Token}
    (ht : t ∈ tokens i inside) : t.Mute := by
  obtain ⟨r, hr, rfl⟩ := List.mem_map.1 ht
  exact h r (mem_of_mem_row hr)

theorem tokens_of_lt {i : Nat} {es : List Event} (h : es.count .lineEnd < i) : tokens i es = [] := by
  unfold tokens
  rw [row_of_lt h]
  rfl

/-- Lines that lie neither in front of a region nor behind it hold its text only. -/
theorem tokens_inside {i : Nat} (hlow : front.count .lineEnd < i)
    (hhigh : i < front.count .lineEnd + inside.count .lineEnd) :
    tokens i (front ++ (inside ++ back)) = tokens (i - front.count .lineEnd) inside := by
  rw [tokens_append, tokens_append, tokens_of_lt hlow, if_pos (by omega), if_neg (by omega),
    List.nil_append, List.append_nil]

theorem tokens_zero_token (r : Reading) (es : List Event) :
    tokens 0 (.token r :: es) = r.token :: tokens 0 es := by
  unfold tokens
  rw [row_zero_token, List.map_cons]

/-- With a region that goes over as many lines in both, two documents agree on all lines that are not
inside the region as a whole. -/
theorem veils_lines (hfront : ∃ t ∈ tokens (front.count .lineEnd) front, t.isBlank = false)
    (hinside : ∀ r, .token r ∈ inside → r.token.Mute)
    (hinside' : ∀ r, .token r ∈ inside' → r.token.Mute)
    (hcount : inside'.count .lineEnd = inside.count .lineEnd) (hcloser : closer.token.Mute)
    (hshown : closer.token.isBlank = false) (hback : Alike true back back') (number : Int64) :
    Scope.Veils (fun i => i ≤ front.count .lineEnd ∨
        front.count .lineEnd + inside.count .lineEnd ≤ i)
      (linesFrom { number } (byLine (front ++ (inside ++ .token closer :: back))))
      (linesFrom { number } (byLine (front ++ (inside' ++ .token closer :: back')))) := by
  have hown : Alike true (.token closer :: back) (.token closer :: back') :=
    .token (Or.inl rfl) (fun hbelow => absurd hbelow (by simp)) hback
  obtain ⟨hends, hfirst, hrest⟩ := hown.tokens
  constructor
  case length =>
    rw [length_linesFrom, length_linesFrom, length_byLine, length_byLine]
    simp only [List.count_append, hcount, hends]
  case mute =>
    intro i hi l hl t ht
    rw [not_or, Nat.not_le, Nat.not_le] at hi
    rcases hl with hl | hl
    · rw [(line_of_linesFrom rfl rfl hl).1, tokens_inside hi.1 hi.2] at ht
      exact (mute_of_mem_tokens hinside ht).nests
    · rw [(line_of_linesFrom rfl rfl hl).1, tokens_inside hi.1 (by omega)] at ht
      exact (mute_of_mem_tokens hinside' ht).nests
  case agrees =>
    intro i hi l hl l' hl'
    obtain ⟨ht, hplace⟩ := line_of_linesFrom rfl rfl hl
    obtain ⟨ht', hplace'⟩ := line_of_linesFrom rfl rfl hl'
    have hplaces := hplace'.trans hplace.symm
    rw [tokens_append, tokens_append] at ht ht'
    rw [hcount] at ht'
    rcases Nat.lt_trichotomy i (front.count .lineEnd) with hlt | rfl | hgt
    · -- in front of the region
      rw [if_neg (by omega)] at ht ht'
      exact Line.agrees_of_tokens (by rw [ht, ht']) hplaces
    · -- the line where the region starts
      rw [if_pos (Nat.le_refl _), Nat.sub_self, Nat.zero_sub] at ht ht'
      rw [hfirst rfl] at ht'
      exact Line.agrees_of_shown ht ht' hfront (fun t => mute_of_mem_tokens hinside)
        (fun t => mute_of_mem_tokens hinside') hplaces
    · have hbehind : front.count .lineEnd + inside.count .lineEnd ≤ i := by omega
      rw [tokens_of_lt hgt, if_pos (by omega), if_pos (by omega), List.nil_append] at ht ht'
      rcases Nat.eq_or_lt_of_le hbehind with heq | hlt
      · -- the line where the region ends
        have hindex : i - front.count .lineEnd - inside.count .lineEnd = 0 := by omega
        rw [hindex] at ht ht'
        rw [hfirst rfl] at ht'
        rw [tokens_zero_token, ← List.singleton_append, ← List.append_assoc] at ht ht'
        have hall : ∀ es : List Event, (∀ r, .token r ∈ es → r.token.Mute) → ∀ j,
            ∀ t ∈ tokens j es ++ [closer.token], t.Mute := by
          intro es hes j t hmem
          rcases List.mem_append.1 hmem with hmem | hmem
          · exact mute_of_mem_tokens hes hmem
          · rw [List.mem_singleton.1 hmem]
            exact hcloser
        exact Line.agrees_of_mute ht ht' (hall inside hinside _) (hall inside' hinside' _)
          ⟨_, by simp, hshown⟩ ⟨_, by simp, hshown⟩ hplaces
      · -- behind the region
        rw [tokens_of_lt (by omega), List.nil_append] at ht ht'
        exact Line.agrees_of_tokens (by rw [ht, ht', hrest]) hplaces

end Scan.Event

end Reindent
