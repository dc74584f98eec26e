import Reindent.Proofs.Tags.Reading

/-! The two readers of end tags agree. A tag closes a block because of its name; a tag opens one
because a search finds the end tag ahead. -/
namespace Reindent
open Bytes Pattern

namespace Pattern
variable {p q : Pattern} {v w rest : Bytes}

def Takes (p : Pattern) (w rest : Bytes) : Prop :=
  ∀ taken, (⟨w.reverse ++ taken, rest⟩ : Span) ∈ p.ends none ⟨taken, w ++ rest⟩

theorem Takes.seq (h₁ : p.Takes v (w ++ rest)) (h₂ : q.Takes w rest) :
    (p ++ q).Takes (v ++ w) rest := by
  intro taken
  have hfirst := h₁ taken
  have hsecond := h₂ (v.reverse ++ taken)
  rw [← List.append_assoc] at hfirst
  rw [← List.append_assoc, ← List.reverse_append] at hsecond
  exact mem_ends_seq hfirst hsecond

theorem Takes.left (h : p.Takes w rest) : (Pattern.either p q).Takes w rest :=
  fun taken => mem_ends_eitherLeft (h taken)

theorem Takes.right (h : q.Takes w rest) : (Pattern.either p q).Takes w rest :=
  fun taken => mem_ends_eitherRight (h taken)

theorem takes_empty : Pattern.empty.Takes [] rest := fun _ => prefers_empty.mem

theorem takes_one {accepts : UInt8 → Bool} {b : UInt8} (h : accepts b = true) :
    (Pattern.one accepts).Takes [b] rest := fun _ => (prefers_one h).mem

theorem takes_word (w : Bytes) : (word w).Takes w rest := fun _ => (prefers_word w).mem

theorem takes_run {accepts : UInt8 → Bool} {greedy : Bool} (h : ∀ b ∈ w, accepts b = true) :
    (Pattern.run greedy accepts).Takes w rest :=
  fun _ => mem_ends_run_iff.2 ⟨w, h, rfl, rfl⟩

private theorem takes_symbol (x : Symbol) : (symbol x).Takes x.bytes rest := by
  unfold symbol
  split_ifs
  · exact (takes_word _).left
  · exact takes_word _

theorem takes_text (s : Bytes) : (text s).Takes s rest := by
  have hsymbols : ∀ symbols : List Symbol,
      (symbols.foldr (fun x p => Pattern.seq (symbol x) p) Pattern.empty).Takes
        (Utf8.encode symbols) rest := by
    intro symbols
    induction symbols with
    | nil => exact takes_empty
    | cons x symbols ih =>
      have hencode : Utf8.encode (x :: symbols) = x.bytes ++ Utf8.encode symbols := by
        unfold Utf8.encode
        exact List.flatMap_cons
      rw [hencode]
      exact (takes_symbol x).seq ih
  have htext := hsymbols (Utf8.decode s)
  rw [Utf8.encode_decode] at htext
  exact htext

theorem Takes.match_wordEdge {last b : UInt8} (h : p.Takes (w ++ [last]) (b :: rest))
    (hlast : isWord last = true) (hb : isWord b = false) :
    ((p ++ .wordEdge).match? none (w ++ [last] ++ b :: rest)).isSome = true := by
  have hmem := h []
  have hedge : (⟨(w ++ [last]).reverse ++ [], b :: rest⟩ : Span) ∈
      Pattern.wordEdge.ends none ⟨(w ++ [last]).reverse ++ [], b :: rest⟩ := by
    rw [ends]
    simp [atEdge, hlast, hb]
  exact isSome_match?_of_mem (mem_ends_seq hmem hedge) (by simp)

end Pattern

namespace Template

def secondWord (tag : Bytes) : Bytes :=
  let rest := ((dropSign (tag.drop 2)).dropWhile isSpace).dropWhile isWord
  (rest.dropWhile isSpace).takeWhile isWord

/-- The tag ends a block: with one of the names of its end tags, or with the word `end` and the name of
the block. -/
def endsBlock (blocks : Blocks) (name tag : Bytes) : Bool :=
  match tagName? tag with
  | none => false
  | some word =>
    word == ascii "end" ++ name || word == ascii "end_" ++ name || word == blocks.endOf name ||
      (word == ascii "end" && secondWord tag == name)

def beforeName : Pattern := .literal "\x7b%" ++ .optional (.oneOf "-+") ++ .space

private theorem exists_dropSign (inner : Bytes) :
    ∃ sign, inner = sign ++ dropSign inner ∧
      ∀ rest, (Pattern.optional (.oneOf "-+")).Takes sign rest := by
  have hsign : ∀ b ∈ ascii "-+", ∀ rest, (Pattern.optional (.oneOf "-+")).Takes [b] rest :=
    fun b hb _ => (takes_one (List.contains_iff_mem.2 hb)).left
  unfold dropSign
  split
  · exact ⟨[43], rfl, hsign 43 (by decide)⟩
  · exact ⟨[45], rfl, hsign 45 (by decide)⟩
  · exact ⟨[], rfl, fun _ => takes_empty.right⟩

private theorem head_dropWhile {accepts : UInt8 → Bool} {s : Bytes} {b : UInt8}
    (hb : b ∈ (s.dropWhile accepts).head?) : accepts b = false := by
  have hhead := List.head?_dropWhile_not accepts s
  rw [Option.mem_def.1 hb] at hhead
  simpa using hhead

theorem exists_of_tagName? {tag name : Bytes} (h : tagName? tag = some name) :
    ∃ front tail, tag = front ++ (name ++ tail) ∧ ascii "\x7b%" <+: front ∧
      (∀ rest, beforeName.Takes front rest) ∧ name ≠ [] ∧ (∀ b ∈ name, isWord b = true) ∧
      (∀ b ∈ tail.head?, isWord b = false) ∧
      secondWord tag = (tail.dropWhile isSpace).takeWhile isWord := by
  unfold tagName? at h
  obtain ⟨inner, hinner, h⟩ := Option.bind_eq_some_iff.1 h
  dsimp only at h
  unfold after? at hinner
  split_ifs at hinner h with hdelimiter hne
  obtain rfl := Option.some.inj hinner
  obtain rfl := Option.some.inj h
  obtain ⟨more, rfl⟩ := List.isPrefixOf_iff_prefix.1 hdelimiter
  obtain ⟨sign, hsign, htakes⟩ := exists_dropSign more
  refine ⟨ascii "\x7b%" ++ sign ++ (dropSign more).takeWhile isSpace, _, ?_, ?_, ?_, ?_,
    ?_, ?_, rfl⟩
  · change _ = _ ++ (((dropSign more).dropWhile isSpace).takeWhile isWord ++
      ((dropSign more).dropWhile isSpace).dropWhile isWord)
    rw [List.takeWhile_append_dropWhile, List.append_assoc, List.takeWhile_append_dropWhile,
      List.append_assoc, ← hsign]
  · rw [List.append_assoc]
    exact List.prefix_append _ _
  · intro rest
    exact ((takes_word _).seq (htakes _)).seq (takes_run fun b hb => List.mem_takeWhile_imp hb)
  · simpa using hne
  · intro b hb
    exact List.mem_takeWhile_imp hb
  · intro b hb
    exact head_dropWhile hb

private theorem exists_next {word tail : Bytes} {b : UInt8}
    (hlast : (word ++ tail).getLast? = some b) (hb : isWord b = false)
    (hword : ∀ x ∈ word, isWord x = true) (htail : ∀ x ∈ tail.head?, isWord x = false) :
    ∃ next rest, tail = next :: rest ∧ isWord next = false := by
  cases tail with
  | nil =>
    have hmem : b ∈ word := by simpa using List.mem_of_getLast? hlast
    rw [hword b hmem] at hb
    exact absurd hb (by simp)
  | cons next rest => exact ⟨next, rest, rfl, htail next rfl⟩

end Template

section EndTags
variable {blocks : Blocks} {name extra : Bytes}

def regularEnd (name : Bytes) : Pattern :=
  .either (.literal "end" ++ .optional (.literal "_"))
    (.literal "end" ++ .one isSpace ++ .space) ++ .word name

def endName (name extra : Bytes) : Pattern :=
  if extra.isEmpty then regularEnd name else .either (regularEnd name) (.text extra)

theorem endTagPattern_eq (name extra : Bytes) :
    endTagPattern name extra = Template.beforeName ++ endName name extra ++ .wordEdge := rfl

private theorem takes_endName {w rest : Bytes} (h : (regularEnd name).Takes w rest) :
    (endName name extra).Takes w rest := by
  unfold endName
  split_ifs
  · exact h
  · exact h.left

/-- The search finds whatever is spelled like an end tag and is not the start of a longer word. -/
private theorem endTagAt_of_takes {front w rest : Bytes} {next : UInt8}
    (hfront : ∀ rest, Template.beforeName.Takes front rest)
    (hw : (endName name (blocks.endOf name)).Takes w (next :: rest)) (hne : w ≠ [])
    (hlast : ∀ b ∈ w.getLast?, isWord b = true) (hnext : isWord next = false) :
    EndTagAt blocks name (front ++ (w ++ next :: rest)) := by
  obtain ⟨init, last, rfl⟩ := (List.eq_nil_or_concat w).resolve_left hne
  rw [List.concat_eq_append] at hw hlast ⊢
  have htakes := (hfront _).seq hw
  rw [← List.append_assoc] at htakes
  have hmatch := htakes.match_wordEdge (hlast last (by simp)) hnext
  unfold EndTagAt
  rw [endTagPattern_eq]
  simpa using hmatch

end EndTags

namespace Template
variable {blocks : Blocks} {name tag : Bytes}

/-- The word `end`, and the name of the block as the next word. -/
private theorem endTagAt_of_words {front tail : Bytes} {b : UInt8}
    (hfront : ∀ rest, beforeName.Takes front rest) (hne : name ≠ [])
    (hname : ∀ b ∈ name, isWord b = true)
    (hsecond : (tail.dropWhile isSpace).takeWhile isWord = name)
    (htail : ∀ x ∈ tail.head?, isWord x = false) (hlast : tail.getLast? = some b)
    (hb : isWord b = false) (behind : Bytes) :
    EndTagAt blocks name (front ++ (ascii "end" ++ tail) ++ behind) := by
  obtain ⟨after, hafter⟩ : ∃ after, after = (tail.dropWhile isSpace).dropWhile isWord := ⟨_, rfl⟩
  have hnameafter : tail.dropWhile isSpace = name ++ after := by
    rw [hafter, ← hsecond, List.takeWhile_append_dropWhile]
  have hsplit := List.takeWhile_append_dropWhile (p := isSpace) (l := tail)
  rw [hnameafter] at hsplit
  cases hspace : tail.takeWhile isSpace with
  | nil =>
    -- without white space the name would be a part of the first word
    obtain ⟨x, more, rfl⟩ := List.exists_cons_of_ne_nil hne
    rw [hspace] at hsplit
    have hx := htail x (by rw [← hsplit]; rfl)
    rw [hname x List.mem_cons_self] at hx
    exact absurd hx (by simp)
  | cons blank blanks =>
    have hblanks : ∀ x ∈ blank :: blanks, isSpace x = true := by
      intro x hx
      rw [← hspace] at hx
      exact List.mem_takeWhile_imp hx
    rw [← hsplit, hspace, List.getLast?_append_of_ne_nil _ (by simp [hne])] at hlast
    obtain ⟨next, rest, rfl, hnext⟩ := exists_next hlast hb hname fun x hx =>
      head_dropWhile (by rw [← hafter]; exact hx)
    have htakes : ∀ rest, (endName name (blocks.endOf name)).Takes
        (ascii "end" ++ [blank] ++ blanks ++ name) rest := fun _ => takes_endName
      ((((takes_word (ascii "end")).seq (takes_one (hblanks blank List.mem_cons_self))).seq
        (takes_run fun x hx => hblanks x (List.mem_cons_of_mem _ hx))).right.seq (takes_word name))
    have hat : EndTagAt blocks name (front ++ (ascii "end" ++ [blank] ++ blanks ++ name ++
        next :: (rest ++ behind))) := by
      refine endTagAt_of_takes hfront (htakes _) (by simp) (fun x hx => hname x ?_) hnext
      rw [List.getLast?_append_of_ne_nil _ hne] at hx
      exact List.mem_of_getLast? hx
    rw [← hsplit, hspace]
    simpa using hat

/-- A tag that ends a block by its name is an end tag that the search finds. -/
theorem endTagAt_of_endsBlock (h : endsBlock blocks name tag = true) (hne : name ≠ [])
    (hname : ∀ b ∈ name, isWord b = true)
    (hlast : ∃ b, tag.getLast? = some b ∧ isWord b = false) (behind : Bytes) :
    EndTagAt blocks name (tag ++ behind) := by
  obtain ⟨b, hb, hnoword⟩ := hlast
  unfold endsBlock at h
  split at h
  · exact absurd h Bool.false_ne_true
  next word hword =>
  obtain ⟨front, tail, rfl, -, hfront, hwordne, hwords, htail, hsecond⟩ := exists_of_tagName? hword
  rw [List.getLast?_append_of_ne_nil _ (by simp [hwordne])] at hb
  obtain ⟨next, rest, rfl, hnext⟩ := exists_next hb hnoword hwords htail
  -- all spellings but the last one are a single word, which the tag has as its name
  have hnamed : (∀ rest, (endName name (blocks.endOf name)).Takes word rest) →
      EndTagAt blocks name (front ++ (word ++ next :: rest) ++ behind) := by
    intro htakes
    rw [List.append_assoc, List.append_assoc]
    exact endTagAt_of_takes hfront (htakes _) hwordne
      (fun x hx => hwords x (List.mem_of_getLast? hx)) hnext
  simp only [Bool.or_eq_true, Bool.and_eq_true, beq_iff_eq] at h
  rcases h with ((rfl | rfl) | rfl) | ⟨rfl, hsecondname⟩
  · exact hnamed fun _ => takes_endName
      (((takes_word _).seq takes_empty.right).left.seq (takes_word name))
  · exact hnamed fun _ => takes_endName
      (((takes_word (ascii "end")).seq (takes_word (ascii "_")).left).left.seq (takes_word name))
  · refine hnamed fun _ => ?_
    unfold endName
    rw [if_neg (by simpa using hwordne)]
    exact (takes_text _).right
  · rw [hsecond] at hsecondname
    rw [List.getLast?_append_of_ne_nil _ (by simp)] at hb
    exact endTagAt_of_words hfront hne hname hsecondname htail hb hnoword behind

/-- A tag that may open a block opens one if the search finds its end. -/
theorem readBlock_of_findEndTag {ahead : Bytes} (hname : tagName? tag = some name)
    (hraw : RawBlock.ofName? name = none) (hbranch : name ∉ branches)
    (hend : isEndTag blocks name = false) (hopen : mayOpen name tag = true)
    (hfound : (findEndTag blocks name ahead).isSome = true) :
    (readBlock blocks [] tag ahead).1 = .opening tag .template := by
  have hhas : (Lookahead.hasEnd blocks [] name ahead).1 = true := by
    rw [(Lookahead.hasEnd_of_sound (Lookahead.sound_nil blocks ahead) (List.suffix_refl _) name).1,
      hfound]
  unfold readBlock
  rw [hname]
  dsimp only
  rw [hraw]
  dsimp only
  rw [if_neg (by simpa using hbranch), hend, if_neg Bool.false_ne_true, if_pos hopen, hhas,
    if_pos rfl]

end Template

/-- The readers of end tags agree: a tag that is no end itself and may open a block opens it if any
later tag of the run ends the block by its name. -/
theorem opens_of_endsBlock {settings : Scan.Settings} {modes : ModeStack} {source name : Bytes}
    {lines later : List Line} {t c : Token} (h : tokenize settings modes source = .ok lines)
    (ht : t.StandsIn lines later) (hkind : t.kind = .template)
    (hname : Template.tagName? t.text = some name) (hraw : RawBlock.ofName? name = none)
    (hbranch : name ∉ Template.branches) (hend : Template.isEndTag settings.blocks name = false)
    (hopen : Template.mayOpen name t.text = true) (hc : c ∈ later.flatMap Line.tokens)
    (hckind : c.kind = .template)
    (hends : Template.endsBlock settings.blocks name c.text = true) :
    t.indents = true ∧ t.dedents = false := by
  obtain ⟨hfill, hsource⟩ := Scan.fill_events h
  rw [← hsource] at hfill
  obtain ⟨r, es, rfl, hread, hcourse, hfill', -⟩ :=
    (Scan.Whole.course_template _ _ _).stands hfill ht
  obtain ⟨behind, hstands⟩ := Scan.Event.exists_standsIn hc
  obtain ⟨r', -, rfl, hread', -, -, hsuffix⟩ := hcourse.stands hfill' hstands
  obtain ⟨front, tail, htag, hstarts, -, hne, hword, -⟩ := Template.exists_of_tagName? hname
  have hat := Template.endTagAt_of_endsBlock hends hne hword (hread' hckind).last
    (joinLines (behind.map Line.raw))
  have hfound := isSome_findEndTag_iff.2 ⟨_, hsuffix, hat⟩
  have hblock := Template.readBlock_of_findEndTag hname hraw hbranch hend hopen hfound
  have htoken := (hread hkind).tag (by rw [htag]; exact hstarts.trans (List.prefix_append _ _))
  rw [hblock] at htoken
  rw [htoken]
  exact ⟨rfl, rfl⟩

/-- Two blocks. The end tag of the inner one has two words, and that of the outer one is its own. -/
def boxes : Bytes := ascii "\x7b% box %\x7d\x7b%- box %\x7d\x7b%+end  box%\x7d\x7b% lid %\x7d"

def outerBox : Token := { Token.opening (ascii "\x7b% box %\x7d") .template with line := 1 }

def boxTokens : List Token :=
  [{ Token.opening (ascii "\x7b%- box %\x7d") .template with line := 1 },
   { Token.closing (ascii "\x7b%+end  box%\x7d") .template with line := 1 },
   { Token.closing (ascii "\x7b% lid %\x7d") .template with line := 1 }]

theorem opens_of_endsBlock_boxes :
    tokenize { blocks := [(ascii "box", ascii "lid")] } { active := .text } boxes =
      .ok [{ number := 1, tokens := outerBox :: boxTokens }] ∧
    outerBox.StandsIn [{ number := 1, tokens := outerBox :: boxTokens }]
      [{ number := 1, tokens := boxTokens }] ∧
    ∀ c ∈ boxTokens.tail,
      Template.endsBlock [(ascii "box", ascii "lid")] (ascii "box") c.text = true ∧
      outerBox.indents = true ∧ outerBox.dedents = false := by
  have hlines : tokenize { blocks := [(ascii "box", ascii "lid")] } { active := .text } boxes =
      .ok [{ number := 1, tokens := outerBox :: boxTokens }] := by decide +kernel
  have hstands : outerBox.StandsIn [{ number := 1, tokens := outerBox :: boxTokens }]
      [{ number := 1, tokens := boxTokens }] := ⟨[], _, [], [], boxTokens, rfl, rfl, rfl⟩
  have hends : ∀ c ∈ boxTokens.tail, c.kind = .template ∧
      Template.endsBlock [(ascii "box", ascii "lid")] (ascii "box") c.text = true := by decide
  refine ⟨hlines, hstands, fun c hc => ?_⟩
  obtain ⟨hkind, hc'⟩ := hends c hc
  have hmem : c ∈ [{ number := 1, tokens := boxTokens : Line }].flatMap Line.tokens := by
    simpa using List.mem_of_mem_tail hc
  exact ⟨hc', opens_of_endsBlock hlines hstands rfl (by decide) (by decide) (by decide) (by decide)
    (by decide) hmem hkind hc'⟩

end Reindent
