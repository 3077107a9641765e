import Graveboards.Library.Spacing
import Graveboards.Search.Values

/-!
`_normalize_text` of the song identity: a version marker at the end of a text
is cut off, punctuation is taken out, and spaces and case are levelled. The
pattern of the markers has nothing at its left, and it is tried once, before
the punctuation goes.
-/

namespace Graveboards.Rules.SongIdentity

open Library Pattern Spacing Search

/-! Characters. -/

/-- What Python's tables say of characters beyond ASCII. -/
structure Unicode where
  /-- `\\w` -/
  isWord : CodePoint → Bool
  /-- `str.casefold` of one character. -/
  casefold : CodePoint → PyStr
  isWord_ascii : ∀ c : Char, c.toNat < 128 → isWord (.char c) = (c.isAlphanum || c = '_')
  /-- The letters that `re.IGNORECASE` takes for `i`, `s` and `k`. -/
  isWord_letter : ∀ c ∈ ['\u0130', '\u0131', '\u017f', '\u212a'], isWord (.char c) = true
  casefold_ascii : ∀ c : Char, c.toNat < 128 → casefold (.char c) = [.char c.toLower]
  casefold_space : ∀ x, PyStr.isSpace x = true → casefold x = [x]
  casefold_other : ∀ x, PyStr.isSpace x = false → ∃ y ∈ casefold x, PyStr.isSpace y = false

/-- Characters with the same key are the same to the ASCII letters of a pattern under
`re.IGNORECASE`. -/
def caseKey : CodePoint → CodePoint
  | .surrogate n => .surrogate n
  | .char c =>
      if c = '\u0130' ∨ c = '\u0131' then .char 'i'
      else if c = '\u017f' then .char 's'
      else if c = '\u212a' then .char 'k'
      else if c.toNat < 128 then .char c.toLower
      else .char c

/-! The patterns. -/

def ignoreCase (text : String) : Pattern CodePoint :=
  spell (fun c x => caseKey x = caseKey c) (PyStr.ofString text)

def versionMarkers : List (Pattern CodePoint) :=
  [ignoreCase "TV Size",
    seq (ignoreCase "Extended ver") (maybe (ignoreCase ".")),
    ignoreCase "Remix",
    ignoreCase "Cut version",
    seq (ignoreCase "Nightcore ver") (maybe (ignoreCase ".")),
    ignoreCase "Radio Edit",
    ignoreCase "Album Edit",
    seq (ignoreCase "Full ver") (maybe (ignoreCase ".")),
    ignoreCase "Instrumental",
    ignoreCase "Single Version",
    ignoreCase "Radio Version",
    seq (ignoreCase "7") (seq (maybe (ignoreCase "\"")) (ignoreCase " Version")),
    seq (ignoreCase "12") (seq (maybe (ignoreCase "\"")) (ignoreCase " Version")),
    ignoreCase "Club Mix",
    ignoreCase "Dub Mix",
    ignoreCase "Acoustic Version",
    ignoreCase "Live Version"]

def isLineBreak (x : CodePoint) : Bool := x = .char '\n'

/-- What may stand behind a marker. -/
def tailPattern : Pattern CodePoint :=
  seq (maybe (ignoreCase ")"))
    (seq (maybe (ignoreCase ".")) (seq (many PyStr.isSpace) (atEnd isLineBreak)))

/-- `_VERSION_MARKER_PATTERN` behind its first bracket. -/
def markerPattern : Pattern CodePoint := seq (oneOf versionMarkers) tailPattern

/-- `_VERSION_MARKER_PATTERN` -/
def versionMarkerPattern : Pattern CodePoint := seq (maybe (ignoreCase "(")) markerPattern

section

variable (U : Unicode)

/-- `_PUNCTUATION_PATTERN` is this class. -/
def isPunctuation (x : CodePoint) : Bool := !(U.isWord x) && !(PyStr.isSpace x) && x != .char '-'

/-- `_normalize_text` -/
def normalizeText (text : PyStr) (stripVersionMarkers : Bool) : PyStr :=
  let text := if stripVersionMarkers then versionMarkerPattern.sub [] 0 text else text
  let text := (set (isPunctuation U)).sub [] 0 text
  let text := trim PyStr.isSpace (squeeze PyStr.isSpace (.char ' ') text)
  text.flatMap U.casefold

end

/-! What the patterns read, up to case. -/

/-- What holds of the first 128 characters holds of all that have their numbers. -/
theorem of_ascii {P : Char → Prop} (h : ∀ n : Fin 128, P (Char.ofNat n)) {c : Char}
    (hc : c.toNat < 128) : P c := by
  have hchar := h ⟨c.toNat, hc⟩
  rwa [Char.ofNat_toNat] at hchar

/-- The characters that are not their own key: the capitals, and four letters outside ASCII. -/
theorem caseKey_induction {P : CodePoint → CodePoint → Prop} (same : ∀ x, P x x)
    (dotted : P (.char '\u0130') (.char 'i')) (dotless : P (.char '\u0131') (.char 'i'))
    (long : P (.char '\u017f') (.char 's')) (kelvin : P (.char '\u212a') (.char 'k'))
    (ascii : ∀ n : Fin 128, P (.char (Char.ofNat n)) (.char (Char.ofNat n).toLower))
    (x : CodePoint) :
    P x (caseKey x) := by
  cases x with
  | surrogate n => exact same _
  | char c =>
      rw [caseKey]
      split_ifs with hi hs hk hascii
      · rcases hi with rfl | rfl
        · exact dotted
        · exact dotless
      · rw [hs]
        exact long
      · rw [hk]
        exact kelvin
      · exact of_ascii (P := fun c => P (.char c) (.char c.toLower)) ascii hascii
      · exact same _

/-- The pattern reads what has the key of one of the texts. -/
def ReadsTexts (r : Pattern CodePoint) (texts : List PyStr) : Prop :=
  ∀ xs rest, rest ∈ r.rests xs ↔ ∃ read, xs = read ++ rest ∧ read.map caseKey ∈ texts

def keyOf (text : String) : PyStr := (PyStr.ofString text).map caseKey

theorem readsTexts_ignoreCase (text : String) : ReadsTexts (ignoreCase text) [keyOf text] := by
  intro xs rest
  rw [ignoreCase, mem_rests_spell]
  have hspelled (read : PyStr) : List.Forall₂ (fun c x => decide (caseKey x = caseKey c) = true)
      (PyStr.ofString text) read ↔ read.map caseKey ∈ [keyOf text] := by
    rw [List.mem_singleton, keyOf]
    generalize PyStr.ofString text = letters
    induction letters generalizing read with
    | nil => rw [List.forall₂_nil_left_iff, List.map_nil, List.map_eq_nil_iff]
    | cons c letters ih =>
        cases read with
        | nil => simp
        | cons x read =>
            rw [List.forall₂_cons, ih, decide_eq_true_eq, List.map_cons, List.map_cons,
              List.cons_eq_cons]
  simp only [hspelled]

theorem ReadsTexts.seq {r s : Pattern CodePoint} {texts texts' : List PyStr}
    (hr : ReadsTexts r texts) (hs : ReadsTexts s texts') :
    ReadsTexts (seq r s) (texts.flatMap fun text => texts'.map (text ++ ·)) := by
  intro xs rest
  rw [mem_rests_seq]
  constructor
  · rintro ⟨middle, hmiddle, hrest⟩
    obtain ⟨read, rfl, hread⟩ := (hr xs middle).mp hmiddle
    obtain ⟨read', rfl, hread'⟩ := (hs middle rest).mp hrest
    refine ⟨read ++ read', (List.append_assoc read read' rest).symm, ?_⟩
    rw [List.map_append]
    exact List.mem_flatMap.mpr ⟨_, hread, List.mem_map.mpr ⟨_, hread', rfl⟩⟩
  · rintro ⟨both, rfl, hboth⟩
    obtain ⟨text, htext, happended⟩ := List.mem_flatMap.mp hboth
    obtain ⟨text', htext', heq⟩ := List.mem_map.mp happended
    obtain ⟨read, read', rfl, rfl, rfl⟩ := List.map_eq_append_iff.mp heq.symm
    refine ⟨read' ++ rest, (hr _ _).mpr ⟨read, List.append_assoc read read' rest, htext⟩, ?_⟩
    exact (hs _ _).mpr ⟨read', rfl, htext'⟩

theorem ReadsTexts.maybe {r : Pattern CodePoint} {texts : List PyStr} (hr : ReadsTexts r texts) :
    ReadsTexts (maybe r) (texts ++ [[]]) := by
  intro xs rest
  rw [mem_rests_maybe, hr]
  constructor
  · rintro (⟨read, rfl, hread⟩ | rfl)
    · exact ⟨read, rfl, List.mem_append_left _ hread⟩
    · exact ⟨[], rfl, List.mem_append_right _ (List.mem_singleton.mpr rfl)⟩
  · rintro ⟨read, rfl, hread⟩
    rcases List.mem_append.mp hread with hread | hread
    · exact .inl ⟨read, rfl, hread⟩
    · rw [List.mem_singleton, List.map_eq_nil_iff] at hread
      exact .inr (by rw [hread, List.nil_append])

theorem readsTexts_oneOf {rs : List (Pattern CodePoint)} {textss : List (List PyStr)}
    (h : List.Forall₂ ReadsTexts rs textss) : ReadsTexts (oneOf rs) textss.flatten := by
  intro xs rest
  induction h with
  | nil =>
      rw [mem_rests_oneOf]
      simp
  | cons hr _ ih =>
      rw [oneOf, rests, List.mem_append, hr, ih, List.flatten_cons]
      simp only [List.mem_append, and_or_left, exists_or]

/-- The texts of the markers, in lower case. -/
def markerTexts : List PyStr :=
  ["tv size", "extended ver.", "extended ver", "remix", "cut version", "nightcore ver.",
    "nightcore ver", "radio edit", "album edit", "full ver.", "full ver", "instrumental",
    "single version", "radio version", "7\" version",
    "7 version", "12\" version", "12 version", "club mix", "dub mix", "acoustic version",
    "live version"].map
      PyStr.ofString

theorem readsTexts_versionMarkers : ReadsTexts (oneOf versionMarkers) markerTexts := by
  have hplain := readsTexts_ignoreCase
  have hdot (text : String) := (hplain text).seq (hplain ".").maybe
  have hquote (text : String) := (hplain text).seq ((hplain "\"").maybe.seq (hplain " Version"))
  have hall {texts : List PyStr} (hreads : ReadsTexts (oneOf versionMarkers) texts)
      (heq : texts = markerTexts) :
      ReadsTexts (oneOf versionMarkers) markerTexts := heq ▸ hreads
  refine hall
    (readsTexts_oneOf
      (.cons (hplain _) (.cons (hdot _) (.cons (hplain _) (.cons (hplain _) (.cons (hdot _)
    (.cons (hplain _)
      (.cons (hplain _) (.cons (hdot _) (.cons (hplain _) (.cons (hplain _) (.cons (hplain _)
    (.cons (hquote _) (.cons (hquote _) (.cons (hplain _) (.cons (hplain _) (.cons (hplain _)
    (.cons (hplain _) .nil)))))))))))))))))) (by decide +kernel)

/-! The place where a marker is found. -/

/-- A marker, and what may stand behind it, to the end of a text. -/
def Ending (w : PyStr) : Prop := markerPattern.Matches w

/-- A marker and nothing else. -/
def IsMarker (m : PyStr) : Prop := [] ∈ (oneOf versionMarkers).rests m

/-- A marker that is put behind a text, in brackets or not. -/
structure Suffix where
  marker : PyStr
  bracketed : Bool
  isMarker : IsMarker marker

def Suffix.text (s : Suffix) : PyStr :=
  .char ' ' :: if s.bracketed then .char '(' :: (s.marker ++ [.char ')']) else s.marker

def suffixText (suffixes : List Suffix) : PyStr := suffixes.flatMap Suffix.text

/-- The text without the marker at its end. -/
def cut (t : PyStr) : PyStr := versionMarkerPattern.sub [] 0 t

/-- The text ends in the letters of a marker. -/
def EndsInLetters (t : PyStr) : Prop := ∃ before w, t = before ++ w ∧ Ending w

/-- What is left after one marker has been cut off, if there is one. -/
def Left (t s : PyStr) : Prop :=
  (s = t ∧ ¬ EndsInLetters t) ∨
    ∃ w, Ending w ∧ (t = s ++ .char '(' :: w ∨ (t = s ++ w ∧ s.getLast? ≠ some (.char '(')))

def isTail (x : CodePoint) : Bool := PyStr.isSpace x || x = .char ')' || x = .char '.'

/-- The keys of the markers without a dot at their end. -/
def markerLetters : List PyStr := markerTexts.map (List.rdropWhile isTail)

theorem isMarker_iff {m : PyStr} : IsMarker m ↔ m.map caseKey ∈ markerTexts := by
  rw [IsMarker, readsTexts_versionMarkers]
  constructor
  · rintro ⟨read, rfl, hread⟩
    rwa [List.append_nil]
  · exact fun h => ⟨m, (List.append_nil m).symm, h⟩

theorem ending_iff {w : PyStr} :
    Ending w ↔ ∃ m tail, w = m ++ tail ∧ IsMarker m ∧ tailPattern.Matches tail := by
  rw [Ending, markerPattern, matches_seq_iff]
  constructor
  · rintro ⟨tail, htail, hmatches⟩
    obtain ⟨m, rfl, hm⟩ := (readsTexts_versionMarkers w tail).mp htail
    exact ⟨m, tail, rfl, isMarker_iff.mpr hm, hmatches⟩
  · rintro ⟨m, tail, rfl, hm, hmatches⟩
    exact ⟨tail, (readsTexts_versionMarkers _ tail).mpr ⟨m, rfl, isMarker_iff.mp hm⟩, hmatches⟩

/-- What an ASCII character and its lower case have in common. -/
theorem ascii_toLower : ∀ n : Fin 128,
    PyStr.isSpace (.char (Char.ofNat n).toLower) = PyStr.isSpace (.char (Char.ofNat n)) ∧
    isTail (.char (Char.ofNat n).toLower) = isTail (.char (Char.ofNat n)) ∧
    (CodePoint.char (Char.ofNat n).toLower = .char '(' ↔
      CodePoint.char (Char.ofNat n) = .char '(') ∧
    (CodePoint.char (Char.ofNat n).toLower != .char '-') =
      (CodePoint.char (Char.ofNat n) != .char '-') := by
  decide +kernel

theorem isSpace_caseKey (x : CodePoint) : PyStr.isSpace (caseKey x) = PyStr.isSpace x :=
  caseKey_induction (P := fun x key => PyStr.isSpace key = PyStr.isSpace x) (fun _ => rfl)
    (by decide) (by decide)
    (by decide) (by decide) (fun n => (ascii_toLower n).1) x

theorem isTail_caseKey (x : CodePoint) : isTail (caseKey x) = isTail x :=
  caseKey_induction (P := fun x key => isTail key = isTail x) (fun _ => rfl) (by decide)
    (by decide) (by decide)
    (by decide) (fun n => (ascii_toLower n).2.1) x

theorem isSpace_of_isLineBreak (x : CodePoint) (h : isLineBreak x = true) :
    PyStr.isSpace x = true := by
  rw [of_decide_eq_true h]
  decide

/-- Every character behind a marker is a space, a bracket or a dot. -/
theorem isTail_of_matches {tail : PyStr} (h : tailPattern.Matches tail) :
    ∀ x ∈ tail, isTail x = true := by
  have hone {text : String} {xs rest : PyStr}
      (htext : ∀ key ∈ [keyOf text] ++ [[]], ∀ x ∈ key, isTail x = true)
      (hrest : rest ∈ (maybe (ignoreCase text)).rests xs) :
      ∃ read, xs = read ++ rest ∧ ∀ x ∈ read, isTail x = true := by
    obtain ⟨read, rfl, hread⟩ := ((readsTexts_ignoreCase text).maybe xs rest).mp hrest
    refine ⟨read, rfl, fun x hx => ?_⟩
    rw [← isTail_caseKey]
    exact htext _ hread _ (List.mem_map_of_mem hx)
  obtain ⟨afterBracket, hbracket, hlater⟩ := matches_seq_iff.mp h
  obtain ⟨afterDot, hdot, hspaces⟩ := matches_seq_iff.mp hlater
  obtain ⟨bracket, rfl, hbracketTail⟩ := hone (by decide) hbracket
  obtain ⟨dot, rfl, hdotTail⟩ := hone (by decide) hdot
  have hspace := (matches_many_atEnd_iff isSpace_of_isLineBreak).mp hspaces
  intro x hx
  rcases List.mem_append.mp hx with hx | hx
  · exact hbracketTail x hx
  · rcases List.mem_append.mp hx with hx | hx
    · exact hdotTail x hx
    · rw [isTail, hspace x hx, Bool.true_or, Bool.true_or]

theorem tailPattern_matches_nil : tailPattern.Matches [] := ⟨[], by decide⟩

theorem tailPattern_matches_bracket : tailPattern.Matches [.char ')'] := ⟨[], by decide⟩

theorem letters_of_ending {w : PyStr} (h : Ending w) :
    (w.rdropWhile isTail).map caseKey ∈ markerLetters := by
  obtain ⟨m, tail, rfl, hm, htail⟩ := ending_iff.mp h
  rw [rdropWhile_append_of_forall (isTail_of_matches htail), map_rdropWhile isTail_caseKey]
  exact List.mem_map_of_mem (isMarker_iff.mp hm)

/-- No marker ends with another one. -/
theorem eq_of_suffix_markerLetters : ∀ a ∈ markerLetters, ∀ b ∈ markerLetters, a <:+ b → a = b := by
  decide +kernel

theorem nil_not_mem_markerLetters : [] ∉ markerLetters := by
  intro h
  have hremix : PyStr.ofString "remix" ∈ markerLetters :=
    List.mem_map.mpr ⟨PyStr.ofString "remix", by simp [markerTexts], rfl⟩
  cases eq_of_suffix_markerLetters _ h _ hremix List.nil_suffix

/-- Of the ends of a text at most one begins with a marker that is its last. -/
theorem Ending.eq_nil_of_append {u w : PyStr} (hw : Ending w) (huw : Ending (u ++ w)) : u = [] := by
  have hletters := letters_of_ending hw
  have hne : w.rdropWhile isTail ≠ [] := by
    intro hnil
    rw [hnil] at hletters
    exact nil_not_mem_markerLetters hletters
  have hboth := letters_of_ending huw
  rw [rdropWhile_append_of_ne_nil hne, List.map_append] at hboth
  have hsame := eq_of_suffix_markerLetters _ hletters _ hboth (List.suffix_append _ _)
  exact List.map_eq_nil_iff.mp (List.self_eq_append_left.mp hsame)

/-! What the substitution leaves. -/

theorem readsAll_versionMarkerPattern : ReadsAll versionMarkerPattern :=
  ((((readsAll_many_atEnd isSpace_of_isLineBreak).seq _).seq _).seq _).seq _

theorem caseKey_eq_bracket_iff {x : CodePoint} : caseKey x = .char '(' ↔ x = .char '(' :=
  caseKey_induction (P := fun x key => key = .char '(' ↔ x = .char '(') (fun _ => .rfl)
    (by decide) (by decide)
    (by decide) (by decide) (fun n => (ascii_toLower n).2.2.1) x

theorem versionMarkerPattern_matches_iff {xs : PyStr} :
    versionMarkerPattern.Matches xs ↔ Ending xs ∨ ∃ w, xs = .char '(' :: w ∧ Ending w := by
  have hbracket (middle : PyStr) :
      middle ∈ (ignoreCase "(").rests xs ↔ xs = .char '(' :: middle := by
    rw [readsTexts_ignoreCase]
    constructor
    · rintro ⟨read, rfl, hread⟩
      obtain ⟨x, rest, rfl, hx, hrest⟩ := List.map_eq_cons_iff.mp (List.mem_singleton.mp hread)
      rw [caseKey_eq_bracket_iff.mp hx, List.map_eq_nil_iff.mp hrest]
      rfl
    · rintro rfl
      exact ⟨[.char '('], rfl, by decide⟩
  rw [versionMarkerPattern, matches_seq_iff]
  constructor
  · rintro ⟨middle, hmiddle, hending⟩
    rcases mem_rests_maybe.mp hmiddle with hmiddle | rfl
    · exact .inr ⟨middle, (hbracket middle).mp hmiddle, hending⟩
    · exact .inl hending
  · rintro (hending | ⟨w, rfl, hending⟩)
    · exact ⟨xs, mem_rests_maybe.mpr (.inr rfl), hending⟩
    · exact ⟨w, mem_rests_maybe.mpr (.inl ((hbracket w).mpr rfl)), hending⟩

theorem Ending.ne_nil {w : PyStr} (h : Ending w) : w ≠ [] := by
  rintro rfl
  exact nil_not_mem_markerLetters (letters_of_ending h)

theorem cut_of_not_endsInLetters {t : PyStr} (h : ¬ EndsInLetters t) : cut t = t := by
  apply sub_of_not_matches
  rintro before rest rfl hmatches
  rcases versionMarkerPattern_matches_iff.mp hmatches with hending | ⟨w, rfl, hending⟩
  · exact h ⟨before, rest, rfl, hending⟩
  · exact h ⟨before ++ [.char '('], w, List.append_cons before _ w, hending⟩

/-- The bracket before the letters goes with them. -/
theorem cut_bracket {w : PyStr} (hw : Ending w) (before : PyStr) :
    cut (before ++ .char '(' :: w) = before := by
  have hlonger (back : PyStr) : ¬ Ending (back ++ .char '(' :: w) := by
    intro hending
    rw [List.append_cons] at hending
    exact List.cons_ne_nil _ _ (List.append_eq_nil_iff.mp (hw.eq_nil_of_append hending)).2
  have hcut : cut (before ++ .char '(' :: w) = before ++ [] := by
    apply readsAll_versionMarkerPattern.sub_eq [] (List.cons_ne_nil (.char '(') w)
      (versionMarkerPattern_matches_iff.mpr (.inr ⟨w, rfl, hw⟩))
    rintro front back - hne hmatches
    rcases versionMarkerPattern_matches_iff.mp hmatches with hending | ⟨w', heq, hending⟩
    · exact hlonger back hending
    · obtain ⟨x, back, rfl⟩ := List.exists_cons_of_ne_nil hne
      rw [List.cons_append] at heq
      rw [← (List.cons_eq_cons.mp heq).2] at hending
      exact hlonger back hending
  rwa [List.append_nil] at hcut

/-- Where there is none, the letters alone go. -/
theorem cut_letters {before w : PyStr} (hw : Ending w)
    (hbracket : before.getLast? ≠ some (.char '(')) :
    cut (before ++ w) = before := by
  have hcut : cut (before ++ w) = before ++ [] := by
    apply readsAll_versionMarkerPattern.sub_eq [] hw.ne_nil
      (versionMarkerPattern_matches_iff.mpr (.inl hw))
    rintro front back rfl hne hmatches
    rcases versionMarkerPattern_matches_iff.mp hmatches with hending | ⟨w', heq, hending⟩
    · exact hne (hw.eq_nil_of_append hending)
    · obtain ⟨x, back, rfl⟩ := List.exists_cons_of_ne_nil hne
      obtain ⟨rfl, htail⟩ := List.cons_eq_cons.mp heq
      rw [← htail] at hending
      rw [hw.eq_nil_of_append hending] at hbracket
      exact hbracket List.getLast?_concat
  rwa [List.append_nil] at hcut

theorem left_iff {t s : PyStr} : Left t s ↔ s = cut t := by
  constructor
  · rintro (⟨rfl, hnone⟩ | ⟨w, hw, rfl | ⟨rfl, hbracket⟩⟩)
    · exact (cut_of_not_endsInLetters hnone).symm
    · exact (cut_bracket hw s).symm
    · exact (cut_letters hw hbracket).symm
  · rintro rfl
    by_cases hends : EndsInLetters t
    · obtain ⟨before, w, rfl, hw⟩ := hends
      right
      refine ⟨w, hw, ?_⟩
      by_cases hbracket : before.getLast? = some (.char '(')
      · obtain ⟨front, rfl⟩ := List.getLast?_eq_some_iff.mp hbracket
        rw [List.append_assoc, List.singleton_append, cut_bracket hw]
        exact .inl rfl
      · rw [cut_letters hw hbracket]
        exact .inr ⟨rfl, hbracket⟩
    · exact .inl ⟨cut_of_not_endsInLetters hends, hends⟩

theorem exists_cut_append (t : PyStr) : ∃ u, t = cut t ++ u := by
  have hleft : Left t (cut t) := left_iff.mpr rfl
  generalize cut t = s at hleft ⊢
  rcases hleft with ⟨rfl, -⟩ | ⟨w, -, rfl | ⟨rfl, -⟩⟩
  · exact ⟨[], (List.append_nil _).symm⟩
  · exact ⟨_, rfl⟩
  · exact ⟨_, rfl⟩

end Graveboards.Rules.SongIdentity
