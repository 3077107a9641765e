import Graveboards.Rules.SongIdentity

/-!
What `_normalize_text` ignores of the version markers. Of several markers at
the end of a text it cuts off the last one only, it cuts off the letters of a
marker where they are the end of a longer word, and a marker that comes out
when punctuation and spaces have gone is cut off by the next call.
-/

namespace Graveboards.Rules.SongIdentity

open Library Pattern Spacing Search

/-! What is kept of a text. -/

variable (U : Unicode)

/-- The text without punctuation, and with single spaces between its words. -/
def tidied (t : PyStr) : PyStr :=
  trim PyStr.isSpace (squeeze PyStr.isSpace (.char ' ') (t.filter fun x => !isPunctuation U x))

/-- `_normalize_text` behind the markers. -/
def clean (t : PyStr) : PyStr := (tidied U t).flatMap U.casefold

theorem normalizeText_true (t : PyStr) : normalizeText U t true = clean U (cut t) := by
  rw [normalizeText, sub_set]
  rfl

theorem normalizeText_false (t : PyStr) : normalizeText U t false = clean U t := by
  rw [normalizeText, sub_set]
  rfl

/-- The characters that are neither punctuation nor space, folded. -/
def bare (t : PyStr) : PyStr :=
  (t.filter fun x => !PyStr.isSpace x && !isPunctuation U x).flatMap fun x =>
    (U.casefold x).filter fun y => !PyStr.isSpace y

theorem filter_clean (t : PyStr) : (clean U t).filter (fun y => !PyStr.isSpace y) = bare U t := by
  have hspaces (u : PyStr) : (u.flatMap fun x => (U.casefold x).filter fun y => !PyStr.isSpace y) =
      (u.filter fun x => !PyStr.isSpace x).flatMap fun x => (U.casefold x).filter fun y =>
        !PyStr.isSpace y := by
    induction u with
    | nil => rfl
    | cons x u ih =>
        cases hx : PyStr.isSpace x with
        | false =>
            rw [List.filter_cons_of_pos (by simp [hx]), List.flatMap_cons, List.flatMap_cons, ih]
        | true =>
            rw [List.filter_cons_of_neg (by simp [hx]), List.flatMap_cons, ih,
              U.casefold_space x hx, List.filter_cons_of_neg (by simp [hx])]
            rfl
  rw [clean, List.filter_flatMap, hspaces, tidied, filter_trim, filter_squeeze (by decide),
    List.filter_filter]
  rfl

theorem bare_append (t u : PyStr) : bare U (t ++ u) = bare U t ++ bare U u := by
  rw [bare, List.filter_append, List.flatMap_append]
  rfl

theorem bare_ne_nil {t : PyStr} {x : CodePoint} (hx : x ∈ t) (hspace : PyStr.isSpace x = false)
    (hpunctuation : isPunctuation U x = false) : bare U t ≠ [] := by
  obtain ⟨y, hy, hother⟩ := U.casefold_other x hspace
  apply List.ne_nil_of_mem (a := y)
  refine List.mem_flatMap.mpr ⟨x, List.mem_filter.mpr ⟨hx, by simp [hspace, hpunctuation]⟩, ?_⟩
  exact List.mem_filter.mpr ⟨hy, by simp [hother]⟩

/-- A text with more characters is not made the same. -/
theorem clean_append_ne (t : PyStr) {u : PyStr} (hu : bare U u ≠ []) :
    clean U (t ++ u) ≠ clean U t := by
  intro heq
  have hbare := congrArg (List.filter fun y => !PyStr.isSpace y) heq
  rw [filter_clean, filter_clean, bare_append] at hbare
  exact hu (List.append_right_eq_self.mp hbare)

/-- A letter or a digit of ASCII. -/
def isAlphanum : CodePoint → Bool
  | .char d => d.toNat < 128 && d.isAlphanum
  | .surrogate _ => false

/-- The letters and digits of ASCII, and their lower case. -/
theorem ascii_alphanum : ∀ n : Fin 128,
    (Char.ofNat n).toNat < 128 ∧ (Char.ofNat n).toLower.toNat < 128 ∧
    (Char.ofNat n).toLower.isAlphanum = (Char.ofNat n).isAlphanum ∧
    ((Char.ofNat n).toLower = '_' ↔ Char.ofNat n = '_') ∧
    (isAlphanum (.char (Char.ofNat n)) = true → PyStr.isSpace (.char (Char.ofNat n)) = false) ∧
    caseKey (.char (Char.ofNat n)) = .char (Char.ofNat n).toLower ∧
    caseKey (.char (Char.ofNat n).toLower) = .char (Char.ofNat n).toLower := by
  decide +kernel

theorem isWord_of_caseKey {x : CodePoint} (h : isAlphanum (caseKey x) = true) :
    U.isWord x = true := by
  refine caseKey_induction (P := fun x key => isAlphanum key = true → U.isWord x = true) ?_ ?_
    ?_ ?_ ?_ ?_ x h
  · intro x hx
    cases x with
    | surrogate n => cases hx
    | char d =>
        obtain ⟨hascii, hd⟩ := Bool.and_eq_true_iff.mp hx
        rw [U.isWord_ascii d (of_decide_eq_true hascii), hd, Bool.true_or]
  · exact fun _ => U.isWord_letter _ (by decide)
  · exact fun _ => U.isWord_letter _ (by decide)
  · exact fun _ => U.isWord_letter _ (by decide)
  · exact fun _ => U.isWord_letter _ (by decide)
  · intro n hn
    obtain ⟨hascii, -, hsame, -⟩ := ascii_alphanum n
    rw [isAlphanum, hsame] at hn
    rw [U.isWord_ascii _ hascii, (Bool.and_eq_true_iff.mp hn).2, Bool.true_or]

theorem isPunctuation_of_caseKey {x : CodePoint} (h : isAlphanum (caseKey x) = true) :
    isPunctuation U x = false := by
  rw [isPunctuation, isWord_of_caseKey U h]
  rfl

theorem isSpace_of_isAlphanum {c : CodePoint} (h : isAlphanum c = true) :
    PyStr.isSpace c = false := by
  cases c with
  | surrogate n => cases h
  | char d =>
      have hascii := of_decide_eq_true (Bool.and_eq_true_iff.mp h).1
      exact of_ascii (P := fun d => isAlphanum (.char d) = true → PyStr.isSpace (.char d) = false)
        (fun n => (ascii_alphanum n).2.2.2.2.1) hascii h

theorem isSpace_of_caseKey {x : CodePoint} (h : isAlphanum (caseKey x) = true) :
    PyStr.isSpace x = false := by
  rw [← isSpace_caseKey]
  exact isSpace_of_isAlphanum h

/-- Every marker begins with a letter or a digit. -/
theorem bare_ne_nil_of_isMarker {m : PyStr} (h : IsMarker m) : bare U m ≠ [] := by
  have hfirst : ∀ text ∈ markerTexts, text.head?.any isAlphanum = true := by
    simp [markerTexts, PyStr.ofString, isAlphanum]
  have hhead := hfirst _ (isMarker_iff.mp h)
  cases m with
  | nil => cases hhead
  | cons x rest =>
      exact bare_ne_nil U List.mem_cons_self (isSpace_of_caseKey hhead)
        (isPunctuation_of_caseKey U hhead)

theorem bare_ne_nil_of_ending {w : PyStr} (h : Ending w) : bare U w ≠ [] := by
  obtain ⟨m, tail, rfl, hm, -⟩ := ending_iff.mp h
  rw [bare_append]
  exact List.append_ne_nil_of_left_ne_nil (bare_ne_nil_of_isMarker U hm) _

theorem clean_append_spaces (t : PyStr) {spaces : PyStr}
    (h : ∀ x ∈ spaces, PyStr.isSpace x = true) :
    clean U (t ++ spaces) = clean U t := by
  have hspaces : ∀ x ∈ spaces.filter fun x => !isPunctuation U x, PyStr.isSpace x = true :=
    fun x hx => h x (List.mem_filter.mp hx).1
  obtain ⟨tail, htail, heq⟩ :=
    squeeze_append_of_forall (p := PyStr.isSpace) (y := .char ' ') (by decide)
    (t.filter fun x => !isPunctuation U x) hspaces
  rw [clean, clean, tidied, tidied, List.filter_append, heq, trim_append_of_forall htail]

/-- Cutting off letters is seen in the result. -/
theorem clean_cut_ne {t : PyStr} (h : EndsInLetters t) : clean U (cut t) ≠ clean U t := by
  have hleft : Left t (cut t) := left_iff.mpr rfl
  generalize cut t = s at hleft ⊢
  rcases hleft with ⟨-, hnone⟩ | ⟨w, hw, rfl | ⟨rfl, -⟩⟩
  · exact absurd h hnone
  · have hbracket : bare U (.char '(' :: w) ≠ [] := by
      rw [← List.singleton_append, bare_append]
      exact List.append_ne_nil_of_right_ne_nil _ (bare_ne_nil_of_ending U hw)
    exact (clean_append_ne U s hbracket).symm
  · exact (clean_append_ne U s (bare_ne_nil_of_ending U hw)).symm

/-- The markers change nothing exactly where there are no letters of one. -/
theorem normalizeText_true_eq_false_iff {t : PyStr} :
    normalizeText U t true = normalizeText U t false ↔ ¬ EndsInLetters t := by
  rw [normalizeText_true, normalizeText_false]
  constructor
  · exact fun heq hends => clean_cut_ne U hends heq
  · intro hnone
    rw [cut_of_not_endsInLetters hnone]

/-! Appended markers. -/

theorem cut_append_text (t : PyStr) (s : Suffix) : cut (t ++ s.text) = t ++ [.char ' '] := by
  rw [Suffix.text, List.append_cons]
  split
  · apply cut_bracket
    exact ending_iff.mpr ⟨s.marker, [.char ')'], rfl, s.isMarker, tailPattern_matches_bracket⟩
  · apply cut_letters
    · exact ending_iff.mpr
        ⟨s.marker, [], (List.append_nil _).symm, s.isMarker, tailPattern_matches_nil⟩
    · rw [List.getLast?_concat]
      decide

theorem bare_text_ne_nil (s : Suffix) : bare U s.text ≠ [] := by
  have hmarker := bare_ne_nil_of_isMarker U s.isMarker
  have hpart : ∃ front back, s.text = front ++ s.marker ++ back := by
    rw [Suffix.text]
    split
    · exact ⟨[.char ' ', .char '('], [.char ')'], rfl⟩
    · exact ⟨[.char ' '], [], (List.append_nil _).symm⟩
  obtain ⟨front, back, heq⟩ := hpart
  rw [heq, bare_append, bare_append]
  exact List.append_ne_nil_of_left_ne_nil (List.append_ne_nil_of_right_ne_nil _ hmarker) _

/-- Of the markers at the end of a text the last one is cut off. -/
theorem normalizeText_append (t : PyStr) (before : List Suffix) (last : Suffix) :
    normalizeText U (t ++ suffixText (before ++ [last])) true =
      clean U (t ++ suffixText before) := by
  have htext : t ++ suffixText (before ++ [last]) = (t ++ suffixText before) ++ last.text := by
    rw [suffixText, List.flatMap_append, List.flatMap_singleton, ← List.append_assoc]
    rfl
  rw [normalizeText_true, htext, cut_append_text]
  exact clean_append_spaces U _ (by decide)

/-- Appended markers are ignored if and only if there is one, and the text does not end in the
letters of another. -/
theorem normalizeText_append_iff (t : PyStr) {suffixes : List Suffix} (hne : suffixes ≠ []) :
    normalizeText U (t ++ suffixText suffixes) true = normalizeText U t true ↔
      suffixes.length = 1 ∧ ¬ EndsInLetters t := by
  obtain ⟨before, last, rfl⟩ := (List.eq_nil_or_concat suffixes).resolve_left hne
  rw [List.concat_eq_append, normalizeText_append]
  cases before with
  | nil =>
      rw [suffixText, List.flatMap_nil, List.append_nil, ← normalizeText_false, eq_comm,
        normalizeText_true_eq_false_iff]
      exact (and_iff_right rfl).symm
  | cons s rest =>
      refine iff_of_false ?_ (by simp)
      obtain ⟨u, hu⟩ := exists_cut_append t
      have hkept : bare U (u ++ suffixText (s :: rest)) ≠ [] := by
        rw [bare_append, suffixText, List.flatMap_cons, bare_append]
        exact List.append_ne_nil_of_right_ne_nil _
          (List.append_ne_nil_of_left_ne_nil (bare_text_ne_nil U s) _)
      have htext : t ++ suffixText (s :: rest) = cut t ++ (u ++ suffixText (s :: rest)) := by
        rw [← List.append_assoc, ← hu]
      rw [normalizeText_true, htext]
      exact clean_append_ne U (cut t) hkept

/-! Whole words. -/

/-- Of two ends that begin with a marker, each the last of its end, neither is longer. -/
theorem Ending.unique {before w before' w' : PyStr} (hw : Ending w) (hw' : Ending w')
    (heq : before ++ w = before' ++ w') : before = before' ∧ w = w' := by
  rcases List.append_eq_append_iff.mp heq with ⟨u, rfl, rfl⟩ | ⟨u, rfl, rfl⟩
  · obtain rfl := hw'.eq_nil_of_append hw
    exact ⟨(List.append_nil _).symm, rfl⟩
  · obtain rfl := hw.eq_nil_of_append hw'
    exact ⟨List.append_nil _, rfl⟩

/-- The last words of the text are a marker. -/
def EndsInMarker (t : PyStr) : Prop :=
  ∃ before w, t = before ++ w ∧ Ending w ∧ ∀ x ∈ before.getLast?, U.isWord x = false

/-- The last letters of the text are a marker, and a word goes on into them. -/
def Glued (t : PyStr) : Prop := ∃ before x w, t = before ++ x :: w ∧ U.isWord x = true ∧ Ending w

/-- The markers change nothing where the last words are none, if and only if no word goes on into
the letters of one. -/
theorem normalizeText_wholeWords_iff (t : PyStr) :
    (¬ EndsInMarker U t → normalizeText U t true = normalizeText U t false) ↔ ¬ Glued U t := by
  rw [normalizeText_true_eq_false_iff]
  constructor
  · rintro h ⟨before, x, w, rfl, hword, hw⟩
    refine h ?_ ⟨before ++ [x], w, List.append_cons before x w, hw⟩
    rintro ⟨before', w', heq, hw', hlast⟩
    rw [List.append_cons] at heq
    obtain ⟨rfl, -⟩ := hw.unique hw' heq
    rw [hlast x List.getLast?_concat] at hword
    cases hword
  · rintro h hmarker ⟨before, w, rfl, hw⟩
    refine hmarker ⟨before, w, rfl, hw, fun x hx => ?_⟩
    obtain ⟨front, rfl⟩ := List.getLast?_eq_some_iff.mp hx
    rw [Bool.eq_false_iff]
    intro hword
    exact h ⟨front, x, w, (List.append_cons front x w).symm, hword, hw⟩

/-! Texts in ASCII. -/

theorem caseKey_caseKey (x : CodePoint) : caseKey (caseKey x) = caseKey x := by
  have hkey : caseKey x = x ∨ caseKey (caseKey x) = caseKey x :=
    caseKey_induction (P := fun x key => key = x ∨ caseKey key = key) (fun _ => .inl rfl)
      (by decide) (by decide)
      (by decide) (by decide) (fun n => .inr (ascii_alphanum n).2.2.2.2.2.2) x
  rcases hkey with hsame | hkey
  · rw [hsame, hsame]
  · exact hkey

theorem map_caseKey_caseKey (u : PyStr) : (u.map caseKey).map caseKey = u.map caseKey := by
  rw [List.map_map]
  exact List.map_congr_left fun x _ => caseKey_caseKey x

theorem isWord_caseKey (x : CodePoint) : U.isWord (caseKey x) = U.isWord x := by
  have hletter (c : Char) (hc : c ∈ ['\u0130', '\u0131', '\u017f', '\u212a']) (d : Char)
      (hd : d.toNat < 128)
      (halphanum : d.isAlphanum = true) : U.isWord (.char d) = U.isWord (.char c) := by
    rw [U.isWord_letter c hc, U.isWord_ascii d hd, halphanum, Bool.true_or]
  refine caseKey_induction (P := fun x key => U.isWord key = U.isWord x) (fun _ => rfl)
    (hletter _ (by decide) _ (by decide) (by decide))
    (hletter _ (by decide) _ (by decide) (by decide))
    (hletter _ (by decide) _ (by decide) (by decide))
    (hletter _ (by decide) _ (by decide) (by decide)) ?_ x
  intro n
  obtain ⟨hc, hlower, hsame, hunderscore, -⟩ := ascii_alphanum n
  rw [U.isWord_ascii _ hlower, U.isWord_ascii _ hc, hsame, decide_eq_decide.mpr hunderscore]

theorem isPunctuation_caseKey (x : CodePoint) :
    isPunctuation U (caseKey x) = isPunctuation U x := by
  have hhyphen : (caseKey x != .char '-') = (x != .char '-') :=
    caseKey_induction (P := fun x key => (key != .char '-') = (x != .char '-')) (fun _ => rfl)
      (by decide) (by decide)
      (by decide) (by decide) (fun n => (ascii_toLower n).2.2.2) x
  rw [isPunctuation, isPunctuation, isWord_caseKey, isSpace_caseKey, hhyphen]

def isAscii : CodePoint → Bool
  | .char c => c.toNat < 128
  | .surrogate _ => false

def IsAscii (t : PyStr) : Prop := ∀ x ∈ t, isAscii x = true

theorem casefold_of_isAscii {x : CodePoint} (h : isAscii x = true) :
    U.casefold x = [caseKey x] := by
  cases x with
  | surrogate n => cases h
  | char c =>
      have hascii := of_decide_eq_true h
      have hkey := of_ascii (P := fun c => caseKey (.char c) = .char c.toLower)
        (fun n => (ascii_alphanum n).2.2.2.2.2.1) hascii
      rw [U.casefold_ascii c hascii, hkey]

/-- Nothing to tidy. -/
structure Tidy (u : PyStr) : Prop where
  ascii : IsAscii u
  kept : ∀ x ∈ u, isPunctuation U x = false
  squeezed : Squeezed PyStr.isSpace (.char ' ') u
  trimmed : trim PyStr.isSpace u = u

variable {U}

theorem flatMap_casefold {u : PyStr} (h : IsAscii u) : u.flatMap U.casefold = u.map caseKey := by
  induction u with
  | nil => rfl
  | cons x u ih =>
      obtain ⟨hx, hu⟩ := List.forall_mem_cons.mp h
      rw [List.flatMap_cons, casefold_of_isAscii U hx, ih hu]
      rfl

theorem Tidy.clean_eq {u : PyStr} (h : Tidy U u) : clean U u = u.map caseKey := by
  have hkept : (u.filter fun x => !isPunctuation U x) = u :=
    List.filter_eq_self.mpr fun x hx => by simp [h.kept x hx]
  rw [clean, tidied, hkept, squeeze_of_squeezed h.squeezed, h.trimmed, flatMap_casefold h.ascii]

theorem Tidy.map_caseKey {u : PyStr} (h : Tidy U u) : Tidy U (u.map caseKey) where
  ascii x hx := by
    obtain ⟨z, hz, rfl⟩ := List.mem_map.mp hx
    cases z with
    | surrogate n => cases h.ascii _ hz
    | char c =>
        refine of_ascii (P := fun c => isAscii (caseKey (.char c)) = true) (fun n => ?_)
          (of_decide_eq_true (h.ascii _ hz))
        obtain ⟨-, hlower, -, -, -, hkey, -⟩ := ascii_alphanum n
        rw [hkey]
        exact decide_eq_true hlower
  kept x hx := by
    obtain ⟨z, hz, rfl⟩ := List.mem_map.mp hx
    rw [isPunctuation_caseKey, h.kept z hz]
  squeezed := by
    refine ⟨fun x hx hspace => ?_, ?_⟩
    · obtain ⟨z, hz, rfl⟩ := List.mem_map.mp hx
      rw [isSpace_caseKey] at hspace
      rw [h.squeezed.1 z hz hspace]
      decide
    · rw [List.isChain_map]
      simpa only [isSpace_caseKey] using h.squeezed.2
  trimmed := by rw [trim_map isSpace_caseKey, h.trimmed]

theorem tidy_tidied {t : PyStr} (h : IsAscii t) : Tidy U (tidied U t) := by
  have hmem {x : CodePoint} (hx : x ∈ tidied U t) :
      x = .char ' ' ∨ (x ∈ t ∧ isPunctuation U x = false) := by
    obtain ⟨lead, trail, heq, -, -⟩ := exists_trim PyStr.isSpace
      (squeeze PyStr.isSpace (.char ' ') (t.filter fun x => !isPunctuation U x))
    have hsqueezed :
        x ∈ squeeze PyStr.isSpace (.char ' ') (t.filter fun x => !isPunctuation U x) := by
      rw [heq]
      exact List.mem_append_left _ (List.mem_append_right _ hx)
    refine (mem_squeeze hsqueezed).imp_right fun hkept => ?_
    obtain ⟨hx, hpunctuation⟩ := List.mem_filter.mp hkept
    exact ⟨hx, by simpa using hpunctuation⟩
  refine ⟨?_, ?_, squeezed_trim (squeezed_squeeze _), trim_trim _ _⟩
  · intro x hx
    rcases hmem hx with rfl | ⟨hx, -⟩
    · decide
    · exact h x hx
  · intro x hx
    rcases hmem hx with rfl | ⟨-, hkept⟩
    · rw [isPunctuation]
      simp [PyStr.isSpace, PyStr.codePoint]
    · exact hkept

/-! Markers that come out when a text is tidied. -/

/-- The keys of the markers that have no punctuation. -/
def markerWords : List PyStr :=
  markerTexts.filter fun text => text.all fun c => isAlphanum c || PyStr.isSpace c

/-- A tidy text ends in letters without punctuation. -/
theorem Tidy.endsInLetters_iff {u : PyStr} (h : Tidy U u) :
    EndsInLetters u ↔ ∃ before m, u = before ++ m ∧ m.map caseKey ∈ markerWords := by
  constructor
  · rintro ⟨before, w, rfl, hw⟩
    obtain ⟨m, tail, rfl, hm, htail⟩ := ending_iff.mp hw
    have hnil : tail = [] := by
      by_contra hne
      obtain ⟨front, x, rfl⟩ := (List.eq_nil_or_concat tail).resolve_left hne
      rw [List.concat_eq_append] at h htail
      rw [← List.append_assoc, ← List.append_assoc] at h
      have hlast : PyStr.isSpace x = false := by
        apply getLast?_trim PyStr.isSpace (before ++ m ++ front ++ [x])
        rw [h.trimmed, List.getLast?_concat]
        rfl
      have hkept := h.kept x (List.mem_append_right _ (List.mem_singleton.mpr rfl))
      have hx := isTail_of_matches htail x (List.mem_append_right _ (List.mem_singleton.mpr rfl))
      rw [isTail, hlast, Bool.false_or, Bool.or_eq_true, decide_eq_true_eq, decide_eq_true_eq] at hx
      rcases hx with rfl | rfl
      · rw [isPunctuation, U.isWord_ascii ')' (by decide)] at hkept
        exact absurd hkept (by decide)
      · rw [isPunctuation, U.isWord_ascii '.' (by decide)] at hkept
        exact absurd hkept (by decide)
    subst hnil
    rw [List.append_nil] at h
    refine ⟨before, m, by rw [List.append_nil], List.mem_filter.mpr ⟨isMarker_iff.mp hm, ?_⟩⟩
    have hchars : ∀ text ∈ markerTexts, ∀ c ∈ text,
        (isAlphanum c || PyStr.isSpace c) = true ∨ c = .char '.' ∨ c = .char '"' := by
      decide +kernel
    rw [List.all_eq_true]
    intro c hc
    obtain ⟨x, hx, rfl⟩ := List.mem_map.mp hc
    have hkept := h.kept x (List.mem_append_right _ hx)
    rw [← isPunctuation_caseKey] at hkept
    rcases hchars _ (isMarker_iff.mp hm) _ hc with hword | hdot | hquote
    · exact hword
    · rw [hdot, isPunctuation, U.isWord_ascii '.' (by decide)] at hkept
      exact absurd hkept (by decide)
    · rw [hquote, isPunctuation, U.isWord_ascii '"' (by decide)] at hkept
      exact absurd hkept (by decide)
  · rintro ⟨before, m, rfl, hm⟩
    have hmarker : IsMarker m := isMarker_iff.mpr (List.mem_filter.mp hm).1
    exact ⟨before, m, rfl,
      ending_iff.mpr ⟨m, [], (List.append_nil m).symm, hmarker, tailPattern_matches_nil⟩⟩

variable (U)

/-- The letters of the text in their order, up to case, with punctuation strewn in, spaces where the
text has one, and neither letters nor digits behind the last. -/
def Strewn : PyStr → PyStr → Prop
  | [], q => ∀ x ∈ q, PyStr.isSpace x = true ∨ isPunctuation U x = true
  | c :: text, q =>
      if PyStr.isSpace c then
        ∃ gap after, q = gap ++ after ∧ (∃ x ∈ gap, PyStr.isSpace x = true) ∧
          (∀ x ∈ gap, PyStr.isSpace x = true ∨ isPunctuation U x = true) ∧ Strewn text after
      else
        ∃ before x after, q = before ++ x :: after ∧ (∀ z ∈ before, isPunctuation U z = true) ∧
          caseKey x = c ∧
          Strewn text after

/-- The text ends in the letters of a marker, punctuation and repeated spaces aside. -/
def EndsStrewn (t : PyStr) : Prop :=
  ∃ text ∈ markerWords, ∃ before q, t = before ++ q ∧ Strewn U text q

/-- The same without punctuation. -/
def Spaced : PyStr → PyStr → Prop
  | [], v => ∀ x ∈ v, PyStr.isSpace x = true
  | c :: text, v =>
      if PyStr.isSpace c then
        ∃ gap after, v = gap ++ after ∧ gap ≠ [] ∧ (∀ x ∈ gap, PyStr.isSpace x = true) ∧
          Spaced text after
      else ∃ x after, v = x :: after ∧ caseKey x = c ∧ Spaced text after

/-- Letters and digits, with single spaces between them. -/
def Worded : PyStr → Prop
  | [] => True
  | [c] => isAlphanum c = true
  | c :: d :: text =>
      (isAlphanum c = true ∨ (c = .char ' ' ∧ isAlphanum d = true)) ∧ Worded (d :: text)

instance decidableWorded : (text : PyStr) → Decidable (Worded text)
  | [] => isTrue trivial
  | [c] => inferInstanceAs (Decidable (isAlphanum c = true))
  | c :: d :: text =>
      have := decidableWorded (d :: text)
      inferInstanceAs
      (Decidable ((isAlphanum c = true ∨ (c = .char ' ' ∧ isAlphanum d = true)) ∧
        Worded (d :: text)))

theorem worded_markerWords :
    ∀ text ∈ markerWords, Worded text ∧ text.head?.any isAlphanum = true := by
  decide +kernel

variable {U}

theorem strewn_iff_spaced {text q : PyStr}
    (h : ∀ c ∈ text, isAlphanum c = true ∨ PyStr.isSpace c = true) :
    Strewn U text q ↔ Spaced text (q.filter fun x => !isPunctuation U x) := by
  induction text generalizing q with
  | nil =>
      rw [Strewn, Spaced]
      simp only [List.mem_filter, Bool.not_eq_true', and_imp]
      refine forall₂_congr fun x _ => ?_
      cases isPunctuation U x <;> simp
  | cons c text ih =>
      obtain ⟨hc, htext⟩ := List.forall_mem_cons.mp h
      rw [Strewn, Spaced]
      split
      · next hspace =>
          simp only [ih htext]
          constructor
          · rintro ⟨gap, after, rfl, ⟨x, hx, hxspace⟩, hgap, hafter⟩
            refine ⟨gap.filter fun x => !isPunctuation U x,
              after.filter fun x => !isPunctuation U x, List.filter_append .., ?_, ?_, hafter⟩
            · apply List.ne_nil_of_mem (a := x)
              exact List.mem_filter.mpr ⟨hx, by simp [isPunctuation, hxspace]⟩
            · intro z hz
              obtain ⟨hz, hkept⟩ := List.mem_filter.mp hz
              exact (hgap z hz).resolve_right (by simpa using hkept)
          · rintro ⟨gap', after', heq, hne, hgap, hafter⟩
            obtain ⟨gap, after, rfl, rfl, rfl⟩ := List.filter_eq_append_iff.mp heq
            obtain ⟨x, hx⟩ := List.exists_mem_of_ne_nil _ hne
            refine ⟨gap, after, rfl, ⟨x, (List.mem_filter.mp hx).1, hgap x hx⟩, ?_, hafter⟩
            intro z hz
            cases hpunctuation : isPunctuation U z with
            | true => exact .inr rfl
            | false => exact .inl (hgap z (List.mem_filter.mpr ⟨hz, by simp [hpunctuation]⟩))
      · next hspace =>
          simp only [ih htext]
          have halphanum : isAlphanum c = true := hc.resolve_right hspace
          constructor
          · rintro ⟨before, x, after, rfl, hbefore, rfl, hafter⟩
            refine ⟨x, after.filter fun x => !isPunctuation U x, ?_, rfl, hafter⟩
            have hnone : (before.filter fun x => !isPunctuation U x) = [] :=
              List.filter_eq_nil_iff.mpr fun z hz => by simp [hbefore z hz]
            rw [List.filter_append, hnone, List.nil_append,
              List.filter_cons_of_pos (by simp [isPunctuation_of_caseKey U halphanum])]
          · rintro ⟨x, after', heq, hkey, hafter⟩
            obtain ⟨before, after, rfl, hbefore, -, rfl⟩ := List.filter_eq_cons_iff.mp heq
            exact ⟨before, x, after, rfl, fun z hz => by simpa using hbefore z hz, hkey, hafter⟩

theorem worded_cons {c : CodePoint} {text : PyStr} (h : Worded (c :: text)) :
    (isAlphanum c = true ∨ (c = .char ' ' ∧ ∃ d rest, text = d :: rest ∧ isAlphanum d = true)) ∧
    Worded text := by
  cases text with
  | nil => exact ⟨.inl h, trivial⟩
  | cons d rest => exact ⟨h.1.imp_right fun hspace => ⟨hspace.1, d, rest, rfl, hspace.2⟩, h.2⟩

/-- Words with spaces between them are what is left of the spaced words when the spaces are
squeezed. -/
theorem spaced_iff {text v : PyStr} (h : Worded text) :
    Spaced text v ↔ ∃ m trail, squeeze PyStr.isSpace (.char ' ') v = m ++ trail ∧
    m.map caseKey = text ∧
      ∀ x ∈ trail, PyStr.isSpace x = true := by
  induction text generalizing v with
  | nil =>
      rw [Spaced]
      constructor
      · intro hall
        refine ⟨[], _, (List.nil_append _).symm, rfl, fun x hx => ?_⟩
        rcases mem_squeeze hx with rfl | hx
        · decide
        · exact hall x hx
      · rintro ⟨m, trail, heq, hm, htrail⟩ x hx
        rw [List.map_eq_nil_iff.mp hm, List.nil_append] at heq
        cases hspace : PyStr.isSpace x with
        | true => rfl
        | false =>
            have hmem := mem_squeeze_of_mem (y := .char ' ') (by decide) hx hspace
            rw [heq] at hmem
            rw [← hspace, htrail x hmem]
  | cons c text ih =>
      obtain ⟨halphanum | ⟨rfl, d, rest, rfl, hd⟩, htext⟩ := worded_cons h
      · rw [Spaced, if_neg (by simp [isSpace_of_isAlphanum halphanum])]
        constructor
        · rintro ⟨x, after, rfl, rfl, hafter⟩
          obtain ⟨m, trail, heq, hm, htrail⟩ := (ih htext).mp hafter
          refine ⟨x :: m, trail, ?_, by rw [List.map_cons, hm], htrail⟩
          rw [squeeze_cons_of_false (isSpace_of_caseKey halphanum), heq, List.cons_append]
        · rintro ⟨letters, trail, heq, hletters, htrail⟩
          obtain ⟨x, m, rfl, rfl, hm⟩ := List.map_eq_cons_iff.mp hletters
          have hx := isSpace_of_caseKey halphanum
          cases v with
          | nil => cases heq
          | cons z v =>
              cases hz : PyStr.isSpace z with
              | false =>
                  rw [squeeze_cons_of_false hz] at heq
                  obtain ⟨rfl, hrest⟩ := List.cons_eq_cons.mp heq
                  exact ⟨z, v, rfl, rfl, (ih htext).mpr ⟨m, trail, hrest, hm, htrail⟩⟩
              | true =>
                  rw [squeeze_cons_of_true hz] at heq
                  obtain ⟨rfl, -⟩ := List.cons_eq_cons.mp heq
                  cases hx
      · rw [Spaced, if_pos (by decide)]
        constructor
        · rintro ⟨gap, after, rfl, hne, hgap, hafter⟩
          obtain ⟨m, trail, heq, hm, htrail⟩ := (ih htext).mp hafter
          rw [Spaced, if_neg (by simp [isSpace_of_isAlphanum hd])] at hafter
          obtain ⟨x, after, rfl, rfl, -⟩ := hafter
          refine ⟨.char ' ' :: m, trail, ?_, ?_, htrail⟩
          · rw [squeeze_append_cons (isSpace_of_caseKey hd), squeeze_of_forall hne hgap, heq]
            rfl
          · rw [List.map_cons, hm]
            congr 1
        · rintro ⟨letters, trail, heq, hletters, htrail⟩
          obtain ⟨x, m, rfl, hkey, hm⟩ := List.map_eq_cons_iff.mp hletters
          have hx : PyStr.isSpace x = true := by
            rw [← isSpace_caseKey, hkey]
            decide
          cases v with
          | nil => cases heq
          | cons z v =>
              cases hz : PyStr.isSpace z with
              | false =>
                  rw [squeeze_cons_of_false hz] at heq
                  obtain ⟨rfl, -⟩ := List.cons_eq_cons.mp heq
                  rw [hz] at hx
                  cases hx
              | true =>
                  rw [squeeze_cons_of_true hz] at heq
                  obtain ⟨-, hrest⟩ := List.cons_eq_cons.mp heq
                  refine ⟨z :: v.takeWhile PyStr.isSpace, v.dropWhile PyStr.isSpace, ?_,
                    List.cons_ne_nil _ _, ?_, ?_⟩
                  · rw [List.cons_append, List.takeWhile_append_dropWhile]
                  · exact List.forall_mem_cons.mpr ⟨hz, fun y hy => List.mem_takeWhile_imp hy⟩
                  · exact (ih htext).mpr ⟨m, trail, hrest, hm, htrail⟩

theorem mem_markerWords {text : PyStr} (h : text ∈ markerWords) {c : CodePoint} (hc : c ∈ text) :
    isAlphanum c = true ∨ PyStr.isSpace c = true := by
  have hall := List.all_eq_true.mp (List.mem_filter.mp h).2 c hc
  exact Bool.or_eq_true_iff.mp hall

/-- Every one of the words ends with a letter. -/
theorem getLast?_markerWords : ∀ text ∈ markerWords, text.getLast?.any isAlphanum = true := by
  decide +kernel

/-- The tidied text ends in the words of a marker exactly where the text ends in them with something
strewn in. -/
theorem endsStrewn_iff {t : PyStr} :
    EndsStrewn U t ↔ ∃ before m, tidied U t = before ++ m ∧ m.map caseKey ∈ markerWords := by
  constructor
  · rintro ⟨text, htext, before, q, rfl, hq⟩
    obtain ⟨hworded, hfirst⟩ := worded_markerWords text htext
    rw [strewn_iff_spaced fun c hc => mem_markerWords htext hc] at hq
    obtain ⟨m, trail, heq, rfl, htrail⟩ := (spaced_iff hworded).mp hq
    obtain ⟨x, m, rfl⟩ : ∃ x rest, m = x :: rest := by
      cases m with
      | nil => cases hfirst
      | cons x rest => exact ⟨x, rest, rfl⟩
    have hx : PyStr.isSpace x = false := isSpace_of_caseKey hfirst
    rw [List.map_cons, Spaced, if_neg (by simp [isSpace_caseKey, hx])] at hq
    obtain ⟨z, after, hq, hz, -⟩ := hq
    have hzspace : PyStr.isSpace z = false := by rw [← isSpace_caseKey, hz, isSpace_caseKey, hx]
    have hkept : (x :: m).rdropWhile PyStr.isSpace = x :: m := by
      have hlast := getLast?_markerWords _ htext
      obtain ⟨front, last, hm⟩ :=
        (List.eq_nil_or_concat (x :: m)).resolve_left (List.cons_ne_nil x m)
      rw [hm, List.concat_eq_append] at hlast ⊢
      rw [List.map_append, List.map_singleton, List.getLast?_concat] at hlast
      exact List.rdropWhile_concat_neg _ _ _ (by simp [isSpace_of_caseKey hlast])
    have htidied : tidied U (before ++ q) = (squeeze PyStr.isSpace (.char ' ')
        (before.filter fun x => !isPunctuation U x)).dropWhile PyStr.isSpace ++ x :: m := by
      rw [tidied, List.filter_append, hq, squeeze_append_cons hzspace, ← hq, heq,
        ← List.append_assoc, trim_append_of_forall htrail, trim_append_cons hx, hkept]
    exact ⟨_, x :: m, htidied, htext⟩
  · rintro ⟨before, m, heq, htext⟩
    obtain ⟨hworded, -⟩ := worded_markerWords _ htext
    obtain ⟨lead, trail, hsqueezed, -, htrail⟩ := exists_trim PyStr.isSpace
      (squeeze PyStr.isSpace (.char ' ') (t.filter fun x => !isPunctuation U x))
    have hparts : squeeze PyStr.isSpace (.char ' ') (t.filter fun x => !isPunctuation U x) =
        (lead ++ before) ++ (m ++ trail) := by
      rw [hsqueezed, ← tidied, heq]
      simp only [List.append_assoc]
    obtain ⟨front, back, hkept, -, hback⟩ := split_of_squeeze_eq_append hparts
    obtain ⟨front, q, rfl, -, rfl⟩ := List.filter_eq_append_iff.mp hkept
    refine ⟨_, htext, front, q, rfl, ?_⟩
    rw [strewn_iff_spaced fun c hc => mem_markerWords htext hc, spaced_iff hworded]
    exact ⟨m, trail, hback, rfl, htrail⟩

/-- A text in ASCII is left as it is by a second call, if and only if what one cut leaves of it does
not end in the letters of a marker again, punctuation and repeated spaces aside. -/
theorem normalizeText_idempotent_iff {t : PyStr} (h : IsAscii t) :
    normalizeText U (normalizeText U t true) true = normalizeText U t true ↔ ∀ s, Left t s →
    ¬ EndsStrewn U s := by
  have hcut : IsAscii (cut t) := by
    obtain ⟨u, hu⟩ := exists_cut_append t
    intro x hx
    apply h
    rw [hu]
    exact List.mem_append_left _ hx
  have htidy : Tidy U (tidied U (cut t)) := tidy_tidied hcut
  have honce : normalizeText U t true = (tidied U (cut t)).map caseKey := by
    rw [normalizeText_true, clean, flatMap_casefold htidy.ascii]
  have hagain : normalizeText U (normalizeText U t true) false = normalizeText U t true := by
    rw [normalizeText_false, honce, htidy.map_caseKey.clean_eq, map_caseKey_caseKey]
  have hends : EndsInLetters (normalizeText U t true) ↔ EndsStrewn U (cut t) := by
    rw [honce, htidy.map_caseKey.endsInLetters_iff, endsStrewn_iff]
    constructor
    · rintro ⟨_, _, heq, hm⟩
      obtain ⟨before, m, hparts, rfl, rfl⟩ := List.map_eq_append_iff.mp heq
      rw [map_caseKey_caseKey] at hm
      exact ⟨before, m, hparts, hm⟩
    · rintro ⟨before, m, heq, hm⟩
      refine ⟨before.map caseKey, m.map caseKey, by rw [heq, List.map_append], ?_⟩
      rwa [map_caseKey_caseKey]
  conv_lhs =>
    rhs
    rw [← hagain]
  rw [normalizeText_true_eq_false_iff, hends]
  constructor
  · rintro hnone s hs
    rw [left_iff.mp hs]
    exact hnone
  · exact fun hall => hall _ (left_iff.mpr rfl)

/-! The law. -/

/-- What is promised: appended markers are ignored, the letters of a marker are left alone where
they are no words of their own, and a text in ASCII is normalised once and for all. -/
structure IgnoresMarkers (U : Unicode) : Prop where
  appended : ∀ t suffixes, suffixes ≠ [] →
    normalizeText U (t ++ suffixText suffixes) true = normalizeText U t true
  wholeWords : ∀ t, ¬ EndsInMarker U t → normalizeText U t true = normalizeText U t false
  idempotent :
      ∀ t, IsAscii t → normalizeText U (normalizeText U t true) true = normalizeText U t true

/-- Where the promise is kept: for one marker behind a text without one, where no word goes on into
the letters of a marker, and where the letters of a marker do not come out when the last marker has
gone. -/
theorem ignoresMarkers_iff (U : Unicode) :
    (∀ t suffixes, suffixes ≠ [] →
      (normalizeText U (t ++ suffixText suffixes) true = normalizeText U t true ↔
      suffixes.length = 1 ∧ ¬ EndsInLetters t)) ∧
    (∀ t, (¬ EndsInMarker U t → normalizeText U t true = normalizeText U t false) ↔ ¬ Glued U t) ∧
    ∀ t, IsAscii t → (normalizeText U (normalizeText U t true) true = normalizeText U t true ↔
      ∀ s, Left t s → ¬ EndsStrewn U s) := by
  refine ⟨?_, normalizeText_wholeWords_iff U, ?_⟩
  · intro t suffixes hne
    exact normalizeText_append_iff U t hne
  · intro t hascii
    exact normalizeText_idempotent_iff hascii

/-- The tables, cut down to the characters that the patterns can tell apart. -/
def asciiTables : Unicode where
  isWord
    | .char c => isAlphanum (.char c) || c ∈ ['_', '\u0130', '\u0131', '\u017f', '\u212a']
    | .surrogate _ => false
  casefold x := if isAscii x then [caseKey x] else [x]
  isWord_ascii c hc := of_ascii (P := fun c =>
    (isAlphanum (.char c) || c ∈ ['_', '\u0130', '\u0131', '\u017f', '\u212a']) =
      (c.isAlphanum || c = '_'))
    (by decide +kernel) hc
  isWord_letter c hc := by
    rw [Bool.or_eq_true, decide_eq_true_eq]
    exact .inr (List.mem_cons_of_mem _ hc)
  casefold_ascii c hc := of_ascii (P := fun c =>
    (if isAscii (.char c) then [caseKey (.char c)] else [.char c]) = [CodePoint.char c.toLower])
      (by decide +kernel) hc
  casefold_space x hx := by
    split
    · next hascii =>
        cases x with
        | surrogate n => cases hascii
        | char c =>
            exact of_ascii (P := fun c => PyStr.isSpace (.char c) = true →
              [caseKey (.char c)] = [CodePoint.char c])
              (by decide +kernel) (of_decide_eq_true hascii) hx
    · rfl
  casefold_other x hx := by
    split
    · exact ⟨caseKey x, List.mem_singleton.mpr rfl, by rw [isSpace_caseKey, hx]⟩
    · exact ⟨x, List.mem_singleton.mpr rfl, hx⟩

example : normalizeText asciiTables (PyStr.ofString "Song (TV Size) (Remix)") true =
    PyStr.ofString "song tv size" := by
  decide +kernel

example : normalizeText asciiTables (PyStr.ofString "Premix") true = PyStr.ofString "p" := by
  decide +kernel

theorem isMarker_remix : IsMarker (PyStr.ofString "Remix") := by
  rw [isMarker_iff]
  simp [markerTexts, PyStr.ofString, caseKey]

/-- One marker behind a text without one, and a text that is normalised once and for all. -/
theorem ignoresMarkers_iff_song :
    normalizeText asciiTables (PyStr.ofString "Song" ++ suffixText
      [⟨PyStr.ofString "Remix", true, isMarker_remix⟩]) true =
        normalizeText asciiTables (PyStr.ofString "Song") true ∧
      ∀ s, Left (PyStr.ofString "Song") s → ¬ EndsStrewn asciiTables s := by
  obtain ⟨happended, -, hidempotent⟩ := ignoresMarkers_iff asciiTables
  constructor
  · refine (happended _ _ (List.cons_ne_nil _ _)).mpr ⟨rfl, ?_⟩
    exact (normalizeText_true_eq_false_iff asciiTables).mp (by decide +kernel)
  · exact (hidempotent _ (by rw [IsAscii]; decide +kernel)).mp (by decide +kernel)

/-- A title that ends in the letters of a marker: "Premix" becomes "p". -/
theorem not_ignoresMarkers : ¬ IgnoresMarkers asciiTables := by
  intro h
  have hremix : Ending (PyStr.ofString "remix") :=
    ending_iff.mpr
      ⟨_, [], (List.append_nil _).symm, by rw [IsMarker]; decide +kernel, tailPattern_matches_nil⟩
  have hpremix : Glued asciiTables (PyStr.ofString "Premix") :=
    ⟨[], .char 'P', PyStr.ofString "remix", rfl, by decide, hremix⟩
  exact (normalizeText_wholeWords_iff asciiTables _).mp (h.wholeWords _) hpremix

end Graveboards.Rules.SongIdentity
