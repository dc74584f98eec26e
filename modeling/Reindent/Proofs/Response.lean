import Reindent.Proofs.Command.Jobs
import Reindent.Response

/-! What is handed on is what the handler said, with a reindented body where there can be one. -/
namespace Reindent
open Bytes

namespace Headers

theorem lookup_filter {headers : Headers} {name : Bytes} (h : headers.lookup name = none)
    (outer : Headers) :
    (outer.filter fun field => (headers.lookup field.1).isNone).lookup name =
      outer.lookup name := by
  induction outer with
  | nil => rfl
  | cons field outer ih =>
    obtain ⟨key, values⟩ := field
    by_cases hname : name = key
    · subst hname
      rw [List.filter_cons_of_pos (by simp [h]), List.lookup_cons_self, List.lookup_cons_self]
    · have hne : (name == key) = false := by simpa using hname
      rw [List.filter_cons, List.lookup_cons, hne]
      split_ifs
      · rw [List.lookup_cons, hne]
        exact ih
      · exact ih

theorem lookup_over (headers outer : Headers) (name : Bytes) :
    (headers.over outer).lookup name = (headers.lookup name).or (outer.lookup name) := by
  rw [Headers.over, List.lookup_append]
  cases h : headers.lookup name with
  | some values => rfl
  | none => rw [Option.none_or, Option.none_or, lookup_filter h]

theorem over_nil (headers : Headers) : headers.over [] = headers := List.append_nil headers

end Headers

namespace Action

def isWrite : Action → Bool
  | .status _ => false
  | .write _ => true

def status? : Action → Option Int64
  | .status code => some code
  | .write _ => none

def body : Action → Bytes
  | .status _ => []
  | .write body => body

end Action

namespace Recording

@[simp] theorem committed_apply (r : Recording) (a : Action) : (r.apply a).committed = true := by
  cases a <;> by_cases h : r.committed <;> simp [apply, setStatus, h]

theorem status_apply_of_committed {r : Recording} (h : r.committed = true) (a : Action) :
    (r.apply a).status = r.status := by
  cases a <;> simp [apply, setStatus, h]

theorem body_apply (r : Recording) (a : Action) : (r.apply a).body = r.body ++ a.body := by
  cases a <;> by_cases h : r.committed <;> simp [apply, setStatus, Action.body, h]

theorem status_foldl {r : Recording} (h : r.committed = true) (actions : List Action) :
    (actions.foldl apply r).status = r.status := by
  induction actions generalizing r with
  | nil => rfl
  | cons a actions ih =>
    rw [List.foldl_cons, ih (committed_apply r a), status_apply_of_committed h a]

theorem body_foldl (r : Recording) (actions : List Action) :
    (actions.foldl apply r).body = r.body ++ actions.flatMap Action.body := by
  induction actions generalizing r with
  | nil => simp
  | cons a actions ih =>
    rw [List.foldl_cons, ih, body_apply, List.flatMap_cons, List.append_assoc]

/-- The first status counts if nothing was written in front of it. -/
theorem status_ofActions (actions : List Action) :
    (ofActions actions).status =
      ((actions.takeWhile (!·.isWrite)).findSome? Action.status?).getD 200 := by
  cases actions with
  | nil => rfl
  | cons a actions =>
    have hstatus : (ofActions (a :: actions)).status = (apply {} a).status :=
      status_foldl (committed_apply {} a) actions
    rw [hstatus]
    cases a with
    | status code => rfl
    | write body => rfl

theorem body_ofActions (actions : List Action) :
    (ofActions actions).body = actions.flatMap Action.body := by
  have hbody := body_foldl {} actions
  simpa [ofActions] using hbody

end Recording

namespace Formatter

/-- A document that can be read has a result or an error. -/
theorem indent_ne_overrun {f : Formatter} {source : Bytes}
    (h : ∀ overrun, tokenize { tabWidth := f.tabWidth, blocks := f.blocks } f.language.start source ≠
      .error overrun) :
    f.indent source ≠ .error .overrun := by
  intro hindent
  rw [indent_eq_error_iff] at hindent
  simp only [lines, parse_eq] at hindent
  split_ifs at hindent
  · exact absurd hindent (by simp)
  · split at hindent
    · next overrun hread => exact h overrun hread
    · next read hread =>
      cases hassign : Scope.assign read <;> simp [hassign, Except.mapError] at hindent

end Formatter

namespace Response

/-- The response is of the one type that is looked at. -/
def IsMarkup (headers : Headers) : Prop := headers.first (ascii "Content-Type") = contentType

/-- The body must stay: the handler said how long it is, or it has no reindented form. -/
def Stays (f : Formatter) (headers : Headers) (body : Bytes) : Prop :=
  headers.first (ascii "Content-Length") ≠ [] ∨ ∀ out, f.indent body ≠ .ok out

section Bodies
variable {f : Formatter} {headers : Headers} {body : Bytes}

theorem reindent_of_other (h : ¬ IsMarkup headers) (path : Bytes) :
    reindent f path headers body = .ok (body, []) := by
  unfold IsMarkup at h
  unfold reindent
  rw [if_pos (by simpa using h)]

theorem reindent_of_stays (h : IsMarkup headers) (hs : Stays f headers body)
    (hrange : f.indent body ≠ .error .overrun) (path : Bytes) :
    ∃ message, path <:+: message ∧ reindent f path headers body = .ok (body, [message]) := by
  unfold IsMarkup at h
  unfold reindent
  rw [if_neg (by simpa using h)]
  split_ifs with hlength
  · exact ⟨_, List.infix_append _ _ _, rfl⟩
  · have hnone : ∀ out, f.indent body ≠ .ok out := hs.resolve_left (by simpa using hlength)
    cases hindent : f.indent body with
    | ok out => exact absurd hindent (hnone out)
    | error failure =>
      cases failure with
      | overrun => exact absurd hindent hrange
      | error e =>
        refine ⟨_, ?_, rfl⟩
        rw [List.append_assoc]
        exact List.infix_append _ _ _

theorem reindent_of_not_stays (h : IsMarkup headers) (hs : ¬ Stays f headers body) (path : Bytes) :
    ∃ out, f.indent body = .ok out ∧ reindent f path headers body = .ok (out, []) := by
  unfold IsMarkup at h
  simp only [Stays, not_or, not_not, not_forall] at hs
  obtain ⟨hlength, out, hindent⟩ := hs
  refine ⟨out, hindent, ?_⟩
  unfold reindent
  rw [if_neg (by simpa using h), if_neg (by simpa using hlength), hindent]

/-- What becomes of a body, and when there is something to log. -/
theorem exists_reindent (hrange : f.indent body ≠ .error .overrun) (path : Bytes)
    (headers : Headers) :
    ∃ sent log, reindent f path headers body = .ok (sent, log) ∧
      (IsMarkup headers ∧ ¬ Stays f headers body → f.indent body = .ok sent) ∧
      (¬ (IsMarkup headers ∧ ¬ Stays f headers body) → sent = body) ∧
      (log ≠ [] ↔ IsMarkup headers ∧ Stays f headers body) ∧
      ∀ message ∈ log, path <:+: message := by
  by_cases hmarkup : IsMarkup headers
  · by_cases hstays : Stays f headers body
    · obtain ⟨message, hpath, hreindent⟩ := reindent_of_stays hmarkup hstays hrange path
      exact ⟨body, [message], hreindent, by simp [hstays], by simp, by simp [hmarkup, hstays],
        by simpa using hpath⟩
    · obtain ⟨out, hindent, hreindent⟩ := reindent_of_not_stays hmarkup hstays path
      exact ⟨out, [], hreindent, fun _ => hindent, by simp [hmarkup, hstays], by simp [hstays],
        by simp⟩
  · have hreindent : reindent f path headers body = _ := reindent_of_other hmarkup path
    exact ⟨body, [], hreindent, by simp [hmarkup], by simp, by simp [hmarkup], by simp⟩

/-- A client that refuses the body changes nothing else. -/
theorem serve_of_reindent {path content : Bytes} {log : List Bytes} {actions : List Action}
    (h : reindent f path headers (actions.flatMap Action.body) = .ok (content, log))
    (refusal? : Option Bytes) (outer : Headers) :
    ∃ sent, serve f path headers actions refusal? outer = .ok sent ∧
      sent.headers = headers.over outer ∧
      sent.status = ((actions.takeWhile (!·.isWrite)).findSome? Action.status?).getD 200 ∧
      log <+: sent.log ∧ (refusal? = none → sent.body = content ∧ sent.log = log) := by
  unfold serve
  dsimp only
  rw [Recording.body_ofActions, Recording.status_ofActions, h]
  cases refusal? with
  | none => exact ⟨_, rfl, rfl, rfl, List.prefix_refl log, fun _ => ⟨rfl, rfl⟩⟩
  | some reason => exact ⟨_, rfl, rfl, rfl, List.prefix_append _ _, fun h => absurd h (by simp)⟩

end Bodies

/-- The headers of the handler are handed on, before any that are there already, with the status that
the handler set before it wrote anything, and all that was written: reindented, if the response is
markup and nothing keeps the body as it is. What keeps it is logged, and what is sent always passes
for the body that was written. -/
theorem serve_faithful (width : Int64) (path : Bytes) (headers : Headers) (actions : List Action)
    (refusal? : Option Bytes) (outer : Headers)
    (hread : ∀ overrun, tokenize { tabWidth := width } Language.html.start
      (actions.flatMap Action.body) ≠ .error overrun) :
    let f : Formatter := { tabWidth := width }
    let body := actions.flatMap Action.body
    ∃ sent, serve f path headers actions refusal? outer = .ok sent ∧
      (outer = [] → sent.headers = headers) ∧
      (∀ name, sent.headers.lookup name = (headers.lookup name).or (outer.lookup name)) ∧
      sent.status = ((actions.takeWhile (!·.isWrite)).findSome? Action.status?).getD 200 ∧
      (refusal? = none →
        (IsMarkup headers ∧ ¬ Stays f headers body → f.indent body = .ok sent.body) ∧
        (¬ (IsMarkup headers ∧ ¬ Stays f headers body) → sent.body = body) ∧
        verify body sent.body = .ok (sent.body != body) ∧
        (sent.log ≠ [] ↔ IsMarkup headers ∧ Stays f headers body)) ∧
      (IsMarkup headers → Stays f headers body → ∃ message ∈ sent.log, path <:+: message) := by
  intro f body
  have hrange : f.indent body ≠ .error .overrun := Formatter.indent_ne_overrun hread
  obtain ⟨content, log, hreindent, hresult, hkept, hlogged, hpath⟩ :=
    exists_reindent hrange path headers
  obtain ⟨sent, hserve, hheaders, hstatus, hlog, hnone⟩ :=
    serve_of_reindent hreindent refusal? outer
  refine ⟨sent, hserve, ?headers, ?lookup, hstatus, fun haccepted => ?_, fun hmarkup hstays => ?_⟩
  case headers =>
    rintro rfl
    exact hheaders.trans headers.over_nil
  case lookup =>
    intro name
    rw [hheaders, Headers.lookup_over]
  · obtain ⟨rfl, rfl⟩ := hnone haccepted
    refine ⟨hresult, hkept, verify_of_trim ?_, hlogged⟩
    by_cases hindents : IsMarkup headers ∧ ¬ Stays f headers body
    · exact Formatter.trims_of_indent (hresult hindents)
    · rw [hkept hindents]
  · obtain ⟨message, hmessage⟩ := List.exists_mem_of_ne_nil log (hlogged.2 ⟨hmarkup, hstays⟩)
    exact ⟨message, hlog.subset hmessage, hpath message hmessage⟩

/-- A status behind the first write does not count. -/
def pageActions : List Action :=
  [.write (ascii "<p>\n"), .status 404, .write [], .write (ascii "x\n</p>")]

theorem serve_faithful_page :
    ∃ sent, serve { tabWidth := 2 } (ascii "/page") [(ascii "Content-Type", [contentType])]
        pageActions none [(ascii "Vary", [ascii "Cookie"]), (ascii "Content-Type", [])] = .ok sent ∧
      sent.headers.lookup (ascii "Content-Type") = some [contentType] ∧
      sent.headers.lookup (ascii "Vary") = some [ascii "Cookie"] ∧
      sent.status = 200 ∧ sent.body = ascii "<p>\n  x\n</p>" ∧ sent.log = [] := by
  have hread : ∀ overrun, tokenize { tabWidth := 2 } Language.html.start
      (pageActions.flatMap Action.body) ≠ .error overrun := by
    have hok : (tokenize { tabWidth := 2 } Language.html.start
        (pageActions.flatMap Action.body)).toOption.isSome = true := by decide +kernel
    intro overrun herror
    rw [herror] at hok
    exact absurd hok (by simp [Except.toOption])
  have hindent : ({ tabWidth := 2 } : Formatter).indent (pageActions.flatMap Action.body) =
      .ok (ascii "<p>\n  x\n</p>") := eq_ok_of_toOption (by decide +kernel)
  have hmoves : ¬ Stays { tabWidth := 2 } [(ascii "Content-Type", [contentType])]
      (pageActions.flatMap Action.body) := by
    rintro (hlength | hnone)
    · exact hlength (by decide)
    · exact hnone _ hindent
  have hmarkup : IsMarkup [(ascii "Content-Type", [contentType])] := by
    unfold IsMarkup
    decide
  obtain ⟨sent, hserve, -, hlookup, hstatus, haccepted, -⟩ := serve_faithful 2 (ascii "/page")
    [(ascii "Content-Type", [contentType])] pageActions none
    [(ascii "Vary", [ascii "Cookie"]), (ascii "Content-Type", [])] hread
  obtain ⟨hresult, -, -, hlog⟩ := haccepted rfl
  refine ⟨sent, hserve, (hlookup _).trans (by decide), (hlookup _).trans (by decide), hstatus, ?_, ?_⟩
  · exact Except.ok.inj ((hresult ⟨hmarkup, hmoves⟩).symm.trans hindent)
  · by_contra hne
    exact hmoves (hlog.1 hne).2

end Response
end Reindent
