import Graveboards.Library.Numeral
import Graveboards.Paging.Walk

/-!
The `Link` header of a page: the targets are rebuilt from the request's URL, and denote the
same query at another offset only if the URL asks for nothing but a page.
-/

namespace Graveboards.Paging

open Graveboards.Library

/-- `url.rsplit("?", 1)[0]`. -/
def beforeLast (url : List Char) : List Char :=
  if '?' ∈ url then ((url.reverse.dropWhile (· ≠ '?')).drop 1).reverse else url

structure Link where
  rel : String
  offset : Nat
  target : List Char
  deriving DecidableEq

/-- `name=n`. -/
def parameter (name : List Char) (n : Nat) : List Char := name ++ '=' :: (toString n).toList

def pageQuery (offset limit : Nat) : List Char :=
  parameter "offset".toList offset ++ '&' :: parameter "limit".toList limit

def target (url : List Char) (offset limit : Nat) : List Char :=
  beforeLast url ++ '?' :: pageQuery offset limit

def links (total limit offset : Nat) (url : List Char) : List Link :=
  (if offset + limit < total then [⟨"next", offset + limit, target url (offset + limit) limit⟩]
    else []) ++
    if 0 < offset then [⟨"prev", offset - limit, target url (offset - limit) limit⟩] else []

/-- Data, status and headers. -/
def buildPaginationResponse {α : Type} (data : List α) (total limit offset : Nat)
    (url : List Char) :
    List α × Nat × List (String × String) :=
  let links := links total limit offset url
  let link := String.intercalate ", " (links.map fun link =>
    "<" ++ String.ofList link.target ++ ">; rel=\"" ++ link.rel ++ "\"")
  (data, 200,
    [("Content-Type", "application/json"), ("X-Total-Count", toString total),
      ("X-Page-Size", toString limit)] ++
      if links = [] then [] else [("Link", link)])

/-- What a URL asks for: its path, the offsets and limits in its query, and the other segments. -/
structure Address where
  path : List Char
  others : List (List Char)
  offset : List (List Char)
  limit : List (List Char)
  deriving DecidableEq

def segments (query : List Char) : List (List Char) := (query.splitOn '&').filter (· ≠ [])

def isNamed (name : List Char) (segment : List Char) : Bool := segment.takeWhile (· ≠ '=') = name

def segmentValue (segment : List Char) : List Char := (segment.dropWhile (· ≠ '=')).drop 1

def values (name : List Char) (segments : List (List Char)) : List (List Char) :=
  (segments.filter (isNamed name)).map segmentValue

def Address.parse (url : List Char) : Address :=
  let all := segments ((url.dropWhile (· ≠ '?')).drop 1)
  { path := url.takeWhile (· ≠ '?')
    others :=
      all.filter fun segment => !isNamed "offset".toList segment && !isNamed "limit".toList segment
    offset := values "offset".toList all
    limit := values "limit".toList all }

/-- The target asks for what the URL asks for, at the offset. -/
def Denotes (url target : List Char) (offset limit : Nat) : Prop :=
  Address.parse target =
    { Address.parse url with offset := [(toString offset).toList], limit :=
      [(toString limit).toList] }

instance (url target : List Char) (offset limit : Nat) :
    Decidable (Denotes url target offset limit) :=
  inferInstanceAs (Decidable (_ = _))

section Texts

theorem beforeLast_append (url : List Char) {query : List Char} (h : '?' ∉ query) :
    beforeLast (url ++ '?' :: query) = url := by
  have hkeep : ∀ c ∈ query.reverse, decide (c ≠ '?') = true := by
    intro c hc
    rw [decide_eq_true_eq]
    rintro rfl
    exact h (List.mem_reverse.mp hc)
  rw [beforeLast, if_pos (by simp), List.reverse_append, List.reverse_cons, List.append_assoc,
    List.dropWhile_append_of_pos hkeep, List.singleton_append,
    List.dropWhile_cons_of_neg (by simp), List.drop_one,
    List.tail_cons, List.reverse_reverse]

theorem parse_append {path query : List Char} (h : '?' ∉ path) :
    (path ++ '?' :: query).takeWhile (· ≠ '?') = path ∧
      ((path ++ '?' :: query).dropWhile (· ≠ '?')).drop 1 = query := by
  have hkeep : ∀ c ∈ path, decide (c ≠ '?') = true := by
    intro c hc
    rw [decide_eq_true_eq]
    rintro rfl
    exact h hc
  constructor
  · rw [List.takeWhile_append_of_pos hkeep, List.takeWhile_cons_of_neg (by simp), List.append_nil]
  · rw [List.dropWhile_append_of_pos hkeep, List.dropWhile_cons_of_neg (by simp), List.drop_one,
      List.tail_cons]

/-- A text up to its first question mark, if it has one. -/
theorem exists_question {url : List Char} (h : '?' ∈ url) :
    ∃ path query, url = path ++ '?' :: query ∧ '?' ∉ path := by
  induction url with
  | nil => cases h
  | cons c rest ih =>
      by_cases hc : c = '?'
      · exact ⟨[], rest, by rw [hc, List.nil_append], List.not_mem_nil⟩
      · obtain ⟨path, query, rfl, hpath⟩ := ih (List.mem_of_ne_of_mem (Ne.symm hc) h)
        refine ⟨c :: path, query, rfl, ?_⟩
        rw [List.mem_cons]
        rintro (heq | hmem)
        · exact hc heq.symm
        · exact hpath hmem

/-- A text up to its last question mark, if it has one. -/
theorem exists_last_question {url : List Char} (h : '?' ∈ url) :
    ∃ base query, url = base ++ '?' :: query ∧ '?' ∉ query := by
  obtain ⟨front, back, heq, hfront⟩ := exists_question (List.mem_reverse.mpr h)
  refine ⟨back.reverse, front.reverse, ?_, fun hmem => hfront (List.mem_reverse.mp hmem)⟩
  have hreverse := congrArg List.reverse heq
  rw [List.reverse_reverse, List.reverse_append, List.reverse_cons, List.append_assoc] at hreverse
  exact hreverse

/-- What is appended to a text goes to its last segment. -/
theorem splitOn_append (text : List Char) :
    ∃ front last, '&' ∉ last ∧
    ∀ more, (text ++ more).splitOn '&' = front ++ (last ++ more).splitOn '&' := by
  induction text with
  | nil => exact ⟨[], [], List.not_mem_nil, fun _ => rfl⟩
  | cons c rest ih =>
      obtain ⟨front, last, hlast, hsplit⟩ := ih
      by_cases hc : c = '&'
      · refine ⟨[] :: front, last, hlast, fun more => ?_⟩
        rw [List.cons_append, List.splitOn_cons_eq_if_modifyHead,
          if_pos (by simp [hc]), hsplit more, List.cons_append]
      · have hne : (c == '&') = false := beq_eq_false_iff_ne.mpr hc
        cases front with
        | nil =>
            refine ⟨[], c :: last, ?_, fun more => ?_⟩
            · rw [List.mem_cons]
              rintro (heq | hmem)
              · exact hc heq.symm
              · exact hlast hmem
            · rw [List.cons_append, List.splitOn_cons_eq_if_modifyHead, hne,
                if_neg Bool.false_ne_true, hsplit more, List.nil_append, List.nil_append,
                List.cons_append, List.splitOn_cons_eq_if_modifyHead, hne,
                if_neg Bool.false_ne_true]
        | cons first front =>
            refine ⟨(c :: first) :: front, last, hlast, fun more => ?_⟩
            rw [List.cons_append, List.splitOn_cons_eq_if_modifyHead, hne,
              if_neg Bool.false_ne_true, hsplit more, List.cons_append, List.cons_append]
            rfl

theorem not_mem_toString {c : Char} (h : c.isDigit = false) (n : Nat) :
    c ∉ (toString n).toList := by
  intro hmem
  rw [Numeral.isDigit_of_mem_toString hmem] at h
  cases h

theorem splitOn_pair {last first second : List Char} (hlast : '&' ∉ last) (hfirst : '&' ∉ first)
    (hsecond : '&' ∉ second) :
    (last ++ (first ++ '&' :: second)).splitOn '&' = [last ++ first, second] := by
  have hboth : '&' ∉ last ++ first := by
    rw [List.mem_append]
    exact fun hmem => hmem.elim hlast hfirst
  rw [← List.append_assoc, List.splitOn_append_cons_self, List.splitOn_eq_singleton hboth,
    List.splitOn_eq_singleton hsecond, List.singleton_append]

theorem separator_not_mem {name : List Char} (h : '&' ∉ name) (n : Nat) :
    '&' ∉ parameter name n := by
  rw [parameter, List.mem_append, List.mem_cons]
  rintro (hmem | heq | hmem)
  · exact h hmem
  · exact absurd heq (by decide)
  · exact not_mem_toString (by decide) n hmem

/-- The page that is asked for, appended to the last segment of a query. -/
theorem splitOn_pageQuery (last : List Char) (h : '&' ∉ last) (offset limit : Nat) :
    (last ++ pageQuery offset limit).splitOn '&' =
      [last ++ parameter "offset".toList offset, parameter "limit".toList limit] :=
  splitOn_pair h (separator_not_mem (by decide) offset) (separator_not_mem (by decide) limit)

theorem parameter_ne_nil (name : List Char) (n : Nat) : parameter name n ≠ [] := by
  rw [parameter]
  simp

theorem filter_parameters (first second : List Char) (n m : Nat) :
    ([parameter first n, parameter second m].filter fun segment => segment ≠ []) =
      [parameter first n, parameter second m] := by
  simp [parameter_ne_nil]

theorem takeWhile_parameter {name : List Char} (h : '=' ∉ name) (n : Nat) :
    (parameter name n).takeWhile (· ≠ '=') = name ∧
    segmentValue (parameter name n) = (toString n).toList := by
  have hkeep : ∀ c ∈ name, decide (c ≠ '=') = true := by
    intro c hc
    rw [decide_eq_true_eq]
    rintro rfl
    exact h hc
  rw [segmentValue, parameter]
  constructor
  · rw [List.takeWhile_append_of_pos hkeep, List.takeWhile_cons_of_neg (by simp), List.append_nil]
  · rw [List.dropWhile_append_of_pos hkeep, List.dropWhile_cons_of_neg (by simp), List.drop_one,
      List.tail_cons]

theorem isNamed_parameter (name other : List Char) (h : '=' ∉ name) (n : Nat) :
    isNamed other (parameter name n) = decide (name = other) := by
  rw [isNamed, (takeWhile_parameter h n).1]

/-- A segment with a question mark has none of it in its name, if that is a plain word. -/
theorem question_mem_value {name segment : List Char} (hname : '?' ∉ name)
    (hquestion : '?' ∈ segment) (h : isNamed name segment = true) : '?' ∈ segmentValue segment := by
  rw [isNamed, decide_eq_true_eq] at h
  rw [← List.takeWhile_append_dropWhile (p := (· ≠ '=')) (l := segment), h,
    List.mem_append] at hquestion
  have hrest := hquestion.resolve_left hname
  rw [segmentValue]
  cases hdrop : segment.dropWhile (· ≠ '=') with
  | nil =>
      rw [hdrop] at hrest
      cases hrest
  | cons c rest =>
      have hhead := List.head_dropWhile_not (fun c => decide (c ≠ '=')) (l := segment)
        (by rw [hdrop]; exact List.cons_ne_nil c rest)
      simp only [hdrop, List.head_cons, decide_eq_false_iff_not, not_not] at hhead
      rw [hdrop, List.mem_cons, hhead] at hrest
      exact hrest.resolve_left (by decide)

theorem values_append (name : List Char) (first second : List (List Char)) :
    values name (first ++ second) = values name first ++ values name second := by
  rw [values, List.filter_append, List.map_append]
  rfl

theorem values_pair {n m : Nat} :
    values "offset".toList [parameter "offset".toList n, parameter "limit".toList m] =
      [(toString n).toList] ∧
      values "limit".toList [parameter "offset".toList n, parameter "limit".toList m] =
        [(toString m).toList] := by
  have hoffset (name : List Char) := isNamed_parameter "offset".toList name (by decide) n
  have hlimit (name : List Char) := isNamed_parameter "limit".toList name (by decide) m
  constructor
  · rw [values, List.filter_cons_of_pos (by rw [hoffset]; decide),
      List.filter_cons_of_neg (by rw [hlimit]; decide), List.filter_nil, List.map_singleton,
      (takeWhile_parameter (by decide) n).2]
  · rw [values, List.filter_cons_of_neg (by rw [hoffset]; decide),
      List.filter_cons_of_pos (by rw [hlimit]; decide), List.filter_nil, List.map_singleton,
      (takeWhile_parameter (by decide) m).2]

/-- A target that is built on a path asks for a page and nothing else. -/
theorem parse_page {path : List Char} (h : '?' ∉ path) (offset limit : Nat) :
    Address.parse (path ++ '?' :: pageQuery offset limit) =
      { path := path, others := [], offset := [(toString offset).toList], limit :=
        [(toString limit).toList] } := by
  have hsegments : segments (pageQuery offset limit) =
      [parameter "offset".toList offset, parameter "limit".toList limit] := by
    have hsplit := splitOn_pageQuery [] List.not_mem_nil offset limit
    rw [List.nil_append, List.nil_append] at hsplit
    rw [segments, hsplit, filter_parameters]
  have hothers :
      ([parameter "offset".toList offset, parameter "limit".toList limit].filter fun segment =>
      !isNamed "offset".toList segment && !isNamed "limit".toList segment) = [] := by
    rw [List.filter_cons_of_neg, List.filter_cons_of_neg, List.filter_nil]
    · rw [isNamed_parameter _ _ (by decide), isNamed_parameter _ _ (by decide)]
      decide
    · rw [isNamed_parameter _ _ (by decide), isNamed_parameter _ _ (by decide)]
      decide
  rw [Address.parse, (parse_append h).1, (parse_append h).2, hsegments, hothers,
    values_pair.1, values_pair.2]

/-- A target that keeps a part of the query asks for no other offset than the URL does. -/
theorem not_denotes_of_question {path query rest : List Char} {n offset limit : Nat}
    (hpath : '?' ∉ path)
    (hoffset : (Address.parse (path ++ '?' :: (query ++ '?' :: rest))).offset = [] ∨
      (Address.parse (path ++ '?' :: (query ++ '?' :: rest))).offset = [(toString offset).toList])
    (hne : n ≠ offset) :
    ¬ Denotes (path ++ '?' :: (query ++ '?' :: rest))
    ((path ++ '?' :: query) ++ '?' :: pageQuery n limit) n limit := by
  intro hdenotes
  obtain ⟨front, last, hlast, hsplit⟩ := splitOn_append query
  -- The segments before the last one are in the URL and in the target.
  set kept := front.filter (· ≠ []) with hkept
  have hurl : (Address.parse (path ++ '?' :: (query ++ '?' :: rest))).offset =
      values "offset".toList kept ++
        values "offset".toList (((last ++ '?' :: rest).splitOn '&').filter (· ≠ [])) := by
    rw [Address.parse, (parse_append hpath).2, segments, hsplit, List.filter_append]
    exact values_append _ _ _
  have htarget : (Address.parse ((path ++ '?' :: query) ++ '?' :: pageQuery n limit)).offset =
      values "offset".toList kept ++
        values "offset".toList
        [last ++ '?' :: parameter "offset".toList n, parameter "limit".toList limit] := by
    have hquestion : '&' ∉ last ++ ['?'] := by
      rw [List.mem_append]
      exact fun hmem => hmem.elim hlast (by decide)
    have hpair := splitOn_pageQuery _ hquestion n limit
    rw [List.append_assoc, List.append_assoc] at hpair
    rw [List.append_assoc, List.cons_append, Address.parse, (parse_append hpath).2,
      segments, hsplit, List.filter_append]
    change values _ (kept ++ ((last ++ (['?'] ++ pageQuery n limit)).splitOn '&').filter _) = _
    have hlimit : decide (parameter "limit".toList limit ≠ []) = true :=
      decide_eq_true (parameter_ne_nil _ _)
    rw [hpair, values_append, List.filter_cons_of_pos (by simp),
      List.filter_cons_of_pos (p := fun segment => decide (segment ≠ [])) hlimit, List.filter_nil]
    rfl
  have hlimit : isNamed "offset".toList (parameter "limit".toList limit) = false := by
    rw [isNamed_parameter _ _ (by decide)]
    decide
  have hasked : (Address.parse ((path ++ '?' :: query) ++ '?' :: pageQuery n limit)).offset =
      [(toString n).toList] := by
    rw [hdenotes]
  rw [htarget] at hasked
  cases hnamed : isNamed "offset".toList (last ++ '?' :: parameter "offset".toList n) with
  | true =>
      have hvalue := question_mem_value (by decide) (by simp) hnamed
      rw [values, values, List.filter_cons_of_pos hnamed,
        List.filter_cons_of_neg (by rw [hlimit]; decide), List.filter_nil,
        List.map_singleton] at hasked
      have hmem :
          segmentValue (last ++ '?' :: parameter "offset".toList n) ∈ [(toString n).toList] := by
        rw [← hasked]
        simp
      rw [List.mem_singleton.mp hmem] at hvalue
      exact not_mem_toString (by decide) n hvalue
  | false =>
      have hnone : values "offset".toList
          [last ++ '?' :: parameter "offset".toList n, parameter "limit".toList limit] =
          [] := by
        rw [values, List.filter_cons_of_neg (by rw [hnamed]; decide),
          List.filter_cons_of_neg (by rw [hlimit]; decide)]
        rfl
      rw [hnone, List.append_nil] at hasked
      rw [hurl, hasked] at hoffset
      rcases hoffset with hnil | hone
      · cases hnil
      · have hsame := (List.cons_eq_cons.mp hone).1
        exact hne (Text.toString_nat_inj (String.toList_inj.mp hsame))

end Texts

/-- The links denote the query exactly if there are none, or if the URL asks for a page and
nothing else. -/
theorem links_iff {total limit offset : Nat} {url : List Char} (hlimit : 0 < limit)
    (hoffset : (Address.parse url).offset = [] ∨
      (Address.parse url).offset = [(toString offset).toList]) :
    (∀ link ∈ links total limit offset url, Denotes url link.target link.offset limit) ↔
      links total limit offset url = [] ∨ (Address.parse url).others = [] ∧ url.count '?' ≤ 1 := by
  have hlink {link : Link} (hmem : link ∈ links total limit offset url) :
      link.target = target url link.offset limit ∧ link.offset ≠ offset := by
    rw [links, List.mem_append] at hmem
    rcases hmem with hmem | hmem
    all_goals
      split at hmem
      · obtain rfl := List.mem_singleton.mp hmem
        exact ⟨rfl, by dsimp only; omega⟩
      · cases hmem
  -- One link at another offset tells all.
  have hone {n : Nat} (hne : n ≠ offset) :
      Denotes url (target url n limit) n limit ↔ (Address.parse url).others = [] ∧
      url.count '?' ≤ 1 := by
    by_cases hquestion : '?' ∈ url
    · obtain ⟨base, rest, rfl, hrest⟩ := exists_last_question hquestion
      have hcount : (base ++ '?' :: rest).count '?' = base.count '?' + 1 := by
        rw [List.count_append, List.count_cons_self, List.count_eq_zero_of_not_mem hrest]
      rw [target, beforeLast_append base hrest, hcount]
      by_cases hbase : '?' ∈ base
      · obtain ⟨path, query, rfl, hpath⟩ := exists_question hbase
        have hpositive := List.count_pos_iff.mpr hbase
        constructor
        · intro hdenotes
          rw [List.append_assoc, List.cons_append] at hdenotes hoffset
          exact absurd hdenotes (not_denotes_of_question hpath hoffset hne)
        · rintro ⟨-, hle⟩
          omega
      · rw [Denotes, parse_page hbase, List.count_eq_zero_of_not_mem hbase]
        rw [Address.parse, (parse_append hbase).1]
        simp only [Address.mk.injEq, true_and, and_true, Nat.zero_add, Nat.le_refl]
        exact eq_comm
    · have hkeep : ∀ c ∈ url, decide (c ≠ '?') = true := by
        intro c hc
        rw [decide_eq_true_eq]
        rintro rfl
        exact hquestion hc
      have hpath : url.takeWhile (· ≠ '?') = url := List.takeWhile_eq_self_iff.mpr hkeep
      have hquery : url.dropWhile (· ≠ '?') = [] := List.dropWhile_eq_nil_iff.mpr hkeep
      have hparse :
          Address.parse url = { path := url, others := [], offset := [], limit := [] } := by
        rw [Address.parse, hpath, hquery]
        rfl
      rw [target, beforeLast, if_neg hquestion, Denotes, parse_page hquestion, hparse,
        List.count_eq_zero_of_not_mem hquestion]
      simp
  constructor
  · intro hall
    cases hlinks : links total limit offset url with
    | nil => exact .inl rfl
    | cons link others =>
        have hmem : link ∈ links total limit offset url := hlinks ▸ List.mem_cons_self
        have hdenotes := hall link hmem
        rw [(hlink hmem).1] at hdenotes
        exact .inr ((hone (hlink hmem).2).mp hdenotes)
  · rintro (hnil | hplain) link hmem
    · rw [hnil] at hmem
      cases hmem
    · rw [(hlink hmem).1]
      exact (hone (hlink hmem).2).mpr hplain

/-- Two pending requests, by id and status. -/
def pending : GetMany (Nat × Nat) :=
  let column (key : Nat × Nat → Nat) : Clause (Nat × Nat) :=
    { compare := compareOn key, trans := inferInstance }
  { source :=
      { model :=
          { name := "Request", sortable := ["id", "status"]
            column := fun name => if name = "status" then column Prod.snd else column Prod.fst }
        primaryKeys := ["id"], joined := [] }
    sorting := some (.list [.dict [("field", .str "Request.status"), ("order", .str "asc")]])
    score := none
    rows := [(1, 0), (2, 0)]
    clauses := [column Prod.snd]
    accepted := by rfl }

theorem pending_answer : (Query.many pending).Answer [(1, 0), (2, 0)] := by
  constructor
  · exact List.Perm.refl _
  · decide

end Graveboards.Paging
