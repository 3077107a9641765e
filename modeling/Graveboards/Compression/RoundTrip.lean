import Graveboards.Compression.Loads

/-!
A value that keeps within the limits is written, and its text is read back as the value.
-/

namespace Graveboards.Compression

open Graveboards.Library Graveboards.Search
open Graveboards.Parameters (toFloat)

variable {limit : Nat}

theorem run_cons {s s' : State} {c : Char} (h : step limit s c = .ok s') (rest : List Char) :
    run limit s (c :: rest) = run limit s' rest := by
  rw [run, List.foldlM_cons, h]
  rfl

theorem run_append {s s' : State} {text : List Char} (h : run limit s text = .ok s')
    (rest : List Char) :
    run limit s (text ++ rest) = run limit s' rest := by
  rw [run] at h
  rw [run, List.foldlM_append, h]
  rfl

/-! Texts. -/

section Texts

variable (keyOf : Option (List (PyStr × JsonValue))) (text : PyStr) (stack : List Frame)

theorem hexDigit_digitChar {d : Nat} (h : d < 16) : hexDigit d.digitChar = some d := by
  have hall : ∀ d < 16, hexDigit d.digitChar = some d := by decide
  exact hall d h

theorem step_hex {unit count d : Nat} (hcount : count ≠ 3) (h : d < 16) :
    step limit (.text keyOf text (.hex unit count), stack) d.digitChar =
      .ok (.text keyOf text (.hex (unit * 16 + d) (count + 1)), stack) := by
  simp only [step, stepText, hexDigit_digitChar h, if_neg hcount]

theorem step_hex_last {unit d : Nat} (h : d < 16) :
    step limit (.text keyOf text (.hex unit 3), stack) d.digitChar =
      .ok (.text keyOf (appendUnit text (unit * 16 + d)) .none, stack) := by
  simp only [step, stepText, hexDigit_digitChar h, if_true]

theorem run_unicodeEscape {unit : Nat} (h : unit < 65536) :
    run limit (.text keyOf text .none, stack) (unicodeEscape unit) =
      .ok (.text keyOf (appendUnit text unit) .none, stack) := by
  have hunit : (((0 * 16 + unit / 4096 % 16) * 16 + unit / 256 % 16) * 16 + unit / 16 % 16) * 16 +
      unit % 16 = unit := by
    omega
  have hbackslash : step limit (.text keyOf text .none, stack) '\\' =
      .ok (.text keyOf text .backslash, stack) := rfl
  have hletter : step limit (.text keyOf text .backslash, stack) 'u' =
      .ok (.text keyOf text (.hex 0 0), stack) := rfl
  rw [unicodeEscape, run_cons hbackslash, run_cons hletter,
    run_cons (step_hex keyOf text stack (by decide) (Nat.mod_lt _ (by decide))),
    run_cons (step_hex keyOf text stack (by decide) (Nat.mod_lt _ (by decide))),
    run_cons (step_hex keyOf text stack (by decide) (Nat.mod_lt _ (by decide))),
    run_cons (step_hex_last keyOf text stack (Nat.mod_lt _ (by decide))), hunit]
  rfl

theorem toNat_valid (c : Char) : c.toNat < 0xD800 ∨ (0xDFFF < c.toNat ∧ c.toNat < 0x110000) :=
  c.valid

theorem appendUnit_char (c : Char) : appendUnit text c.toNat = text ++ [.char c] := by
  have hvalid := toNat_valid c
  rw [appendUnit, dif_neg (by omega), Char.ofNat_toNat]

/-- A surrogate stays alone behind a text that does not wait for it. -/
theorem appendUnit_surrogate (n : Fin 2048)
    (h : ∀ p ∈ text.getLast?, ¬ (isHigh p = true ∧ isLow (.surrogate n) = true)) :
    appendUnit text (0xD800 + n) = text ++ [.surrogate n] := by
  have hn := n.isLt
  have hunit : (⟨0xD800 + n.val - 0xD800, by omega⟩ : Fin 2048) = n :=
    Fin.ext (Nat.add_sub_cancel_left _ _)
  rw [appendUnit, dif_pos (by omega), hunit]
  cases hlast : text.getLast? with
  | none => rfl
  | some p =>
      cases p with
      | char c => rfl
      | surrogate high =>
          have halone := h (.surrogate high) hlast
          rw [isHigh, isLow, decide_eq_true_eq, decide_eq_true_eq] at halone
          have hlow : ¬ (high.val < 1024 ∧ 0xDC00 ≤ 0xD800 + n.val) := by omega
          dsimp only
          rw [if_neg hlow]

/-- Both halves of a pair make up their character. -/
theorem appendUnit_pair {c : Char} (h : 0x10000 ≤ c.toNat) :
    appendUnit (appendUnit text (0xD800 + (c.toNat - 0x10000) / 1024))
    (0xDC00 + (c.toNat - 0x10000) % 1024) =
      text ++ [.char c] := by
  have hvalid := toNat_valid c
  have hhigh : (c.toNat - 0x10000) / 1024 < 1024 := by omega
  have hfirst : appendUnit text (0xD800 + (c.toNat - 0x10000) / 1024) =
      text ++ [.surrogate ⟨(c.toNat - 0x10000) / 1024, by omega⟩] := by
    apply appendUnit_surrogate text ⟨(c.toNat - 0x10000) / 1024, by omega⟩
    rintro p - ⟨-, hlow⟩
    rw [isLow, decide_eq_true_eq] at hlow
    exact absurd hlow (Nat.not_le.mpr hhigh)
  have hsum : 0x10000 + (c.toNat - 0x10000) / 1024 * 1024 +
      (0xDC00 + (c.toNat - 0x10000) % 1024 - 0xDC00) = c.toNat := by
    omega
  rw [hfirst, appendUnit, dif_pos (by omega), List.getLast?_concat]
  dsimp only
  rw [if_pos ⟨hhigh, by omega⟩, List.dropLast_concat, hsum, Char.ofNat_toNat]

theorem longEscape_of_shortEscape {c letter : Char} (h : shortEscape c = some letter) :
    longEscape letter = some c ∧ letter ≠ 'u' := by
  unfold shortEscape at h
  split_ifs at h with hself hn hr ht hf hb
  · rcases hself with rfl | rfl
    · cases h
      exact ⟨rfl, by decide⟩
    · cases h
      exact ⟨rfl, by decide⟩
  all_goals
    cases h
    subst c
    exact ⟨rfl, by decide⟩

theorem ne_of_shortEscape {c : Char} (h : shortEscape c = none) : c ≠ '"' ∧ c ≠ '\\' := by
  constructor
  · rintro rfl
    cases h
  · rintro rfl
    cases h

/-- An escaped character is read back behind a text that it does not join. -/
theorem run_escape {p : CodePoint} (h : ∀ q ∈ text.getLast?, ¬ (isHigh q = true ∧ isLow p = true)) :
    run limit (.text keyOf text .none, stack) (escape p) =
      .ok (.text keyOf (text ++ [p]) .none, stack) := by
  cases p with
  | surrogate n =>
      have hn := n.isLt
      rw [escape, run_unicodeEscape keyOf text stack (by omega), appendUnit_surrogate text n h]
  | char c =>
      rw [escape]
      cases hshort : shortEscape c with
      | some letter =>
          obtain ⟨hlong, hne⟩ := longEscape_of_shortEscape hshort
          have hbackslash : step limit (.text keyOf text .none, stack) '\\' =
              .ok (.text keyOf text .backslash, stack) := rfl
          have hletter : step limit (.text keyOf text .backslash, stack) letter =
              .ok (.text keyOf (text ++ [.char c]) .none, stack) := by
            simp only [step, stepText, if_neg hne, hlong]
          dsimp only
          rw [run_cons hbackslash, run_cons hletter]
          rfl
      | none =>
          obtain ⟨hquote, hbackslash⟩ := ne_of_shortEscape hshort
          dsimp only
          split_ifs with hprintable hfour
          · have hstep : step limit (.text keyOf text .none, stack) c =
                .ok (.text keyOf (text ++ [.char c]) .none, stack) := by
              simp only [step, stepText, if_neg hquote, if_neg hbackslash,
                if_neg (Char.not_lt.mpr hprintable.1)]
            rw [run_cons hstep]
            rfl
          · rw [run_unicodeEscape keyOf text stack (by omega), appendUnit_char]
          · have hvalid := toNat_valid c
            rw [surrogatePair, run_append (run_unicodeEscape keyOf text stack (by omega)),
              run_unicodeEscape keyOf _ stack (by omega), appendUnit_pair text (by omega)]

theorem run_escapes {s : PyStr} (h : Unpaired (text ++ s)) :
    run limit (.text keyOf text .none, stack) (s.flatMap escape) =
      .ok (.text keyOf (text ++ s) .none, stack) := by
  induction s generalizing text with
  | nil =>
      rw [List.append_nil]
      rfl
  | cons p rest ih =>
      obtain ⟨-, -, hjoin⟩ := List.isChain_append.mp h
      have hfirst : ∀ q ∈ text.getLast?, ¬ (isHigh q = true ∧ isLow p = true) :=
        fun q hq => hjoin q hq p rfl
      have hsplit : text ++ p :: rest = text ++ [p] ++ rest := by
        rw [List.append_assoc, List.singleton_append]
      rw [hsplit] at h ⊢
      rw [List.flatMap_cons, run_append (run_escape keyOf text stack hfirst), ih _ h]

end Texts

theorem run_quote {s : PyStr} (h : Unpaired s) (stack : List Frame) :
    run limit (.value, stack) (quote s) = .ok (complete (.str s) stack) := by
  have hopen : step limit (.value, stack) '"' = .ok (.text none [] .none, stack) := rfl
  have hclose : step limit (.text none s .none, stack) '"' = .ok (complete (.str s) stack) := rfl
  have hbody : run limit (.text none [] .none, stack) (s.flatMap escape) = _ :=
    run_escapes none [] stack h
  rw [quote, run_cons hopen, run_append hbody, List.nil_append, run_cons hclose]
  rfl

theorem run_key {key : PyStr} (h : Unpaired key) (entries : List (PyStr × JsonValue))
    (stack : List Frame) :
    run limit (.key entries, stack) (quote key) = .ok (.colon entries key, stack) := by
  have hopen : step limit (.key entries, stack) '"' = .ok (.text (some entries) [] .none, stack) :=
    rfl
  have hclose : step limit (.text (some entries) key .none, stack) '"' =
      .ok (.colon entries key, stack) := rfl
  have hbody : run limit (.text (some entries) [] .none, stack) (key.flatMap escape) = _ :=
    run_escapes (some entries) [] stack h
  rw [quote, run_cons hopen, run_append hbody, List.nil_append, run_cons hclose]
  rfl

/-! Numbers. -/

def isDelimiter (c : Char) : Prop := c = ',' ∨ c = ']' ∨ c = '\x7d'

/-- The value is complete, or it is a number that the delimiter behind it completes. -/
def Settles (v : JsonValue) (stack : List Frame) (state : State) : Prop :=
  state = complete v stack ∨ ∃ phase t, state = (.number phase t, stack) ∧ phase ≠ .sign ∧
    t.finish phase = .ok v ∧
    ∀ c, isDelimiter c → t.next phase c = .stop

theorem Settles.step_eq {v : JsonValue} {stack : List Frame} {state : State}
    (h : Settles v stack state) {c : Char} (hc : isDelimiter c) :
    step limit state c = stepBehind (complete v stack) c := by
  rcases h with rfl | ⟨phase, t, rfl, hphase, hfinish, hnext⟩
  · match stack with
    | [] => rfl
    | .list items :: _ => rfl
    | .member entries key :: _ => rfl
  · have hsign : ¬ (phase = .sign ∧ c = 'I') := fun h => hphase h.1
    simp only [step, if_neg hsign, hnext c hc, hfinish]
    rfl

theorem Settles.finish_eq {v : JsonValue} {state : State} (h : Settles v [] state) :
    finish state = .ok v := by
  rcases h with rfl | ⟨phase, t, rfl, -, hfinish, -⟩
  · rfl
  · rw [finish, hfinish]
    rfl

theorem next_delimiter (t : NumberText) {phase : Phase}
    (hphase : phase = .zero ∨ phase = .whole ∨ phase = .fraction ∨ phase = .exponent) {c : Char}
    (hc : isDelimiter c) :
    t.next phase c = .stop := by
  rcases hphase with rfl | rfl | rfl | rfl <;> rcases hc with rfl | rfl | rfl <;> rfl

theorem run_feed {phase phase' : Phase} {t t' : NumberText} {text : List Char} (stack : List Frame)
    (h : t.feed phase text = some (phase', t')) :
    run limit (.number phase t, stack) text = .ok (.number phase' t', stack) := by
  induction text generalizing phase t with
  | nil =>
      obtain ⟨rfl, rfl⟩ := Prod.mk.inj (Option.some.inj h)
      rfl
  | cons c rest ih =>
      rw [NumberText.feed] at h
      split at h
      case h_1 phase₁ t₁ hnext =>
          have hsign : ¬ (phase = .sign ∧ c = 'I') := by
            rintro ⟨rfl, rfl⟩
            cases hnext
          have hstep : step limit (.number phase t, stack) c = .ok (.number phase₁ t₁, stack) := by
            simp only [step, if_neg hsign, hnext]
          rw [run_cons hstep]
          exact ih h
      all_goals cases h

theorem isDigit_of_next {t t' : NumberText} {phase : Phase} {c : Char}
    (h : t.next .sign c = .more phase t') :
    c.isDigit = true := by
  rw [NumberText.next] at h
  split_ifs at h with hzero hdigit
  · rw [hzero]
    rfl
  · exact hdigit

theorem stepValue_digit {phase : Phase} {t : NumberText} {c : Char} (stack : List Frame)
    (h : (NumberText.start false).next .sign c = .more phase t) :
    stepValue limit stack c = .ok (.number phase t, stack) := by
  have hdigit := isDigit_of_next h
  unfold stepValue
  split
  case h_10 => rw [h]
  all_goals exact absurd hdigit (by decide)

theorem isWhitespace_digit {c : Char} (h : c.isDigit = true) : isWhitespace c = false := by
  have hrange := Numeral.range_of_isDigit h
  simp only [isWhitespace, Bool.or_eq_false_iff, decide_eq_false_iff_not]
  refine ⟨⟨⟨?_, ?_⟩, ?_⟩, ?_⟩ <;> (rintro rfl; revert hrange; decide)

/-- The text starts with a character that begins a value. -/
def Starts (text : List Char) : Prop :=
  ∃ c rest, text = c :: rest ∧ isWhitespace c = false ∧ c ≠ ']'

/-- A number with its sign. -/
theorem run_signed (limit : Nat) {negative : Bool} {phase : Phase} {t : NumberText}
    {text : List Char} (stack : List Frame) (hne : text ≠ [])
    (h : (NumberText.start negative).feed .sign text = some (phase, t)) :
    run limit (.value, stack) (signText negative ++ text) = .ok (.number phase t, stack) ∧
      Starts (signText negative ++ text) := by
  cases negative with
  | true =>
      have hsign : step limit (.value, stack) '-' = .ok (.number .sign (.start true), stack) := rfl
      refine ⟨?_, '-', text, rfl, by decide, by decide⟩
      rw [signText, if_pos rfl, List.singleton_append, run_cons hsign]
      exact run_feed stack h
  | false =>
      obtain ⟨c, rest, rfl⟩ := List.exists_cons_of_ne_nil hne
      have hnext : ∃ phase₁ t₁, (NumberText.start false).next .sign c = .more phase₁ t₁ := by
        rw [NumberText.feed] at h
        split at h
        case h_1 phase₁ t₁ hnext => exact ⟨phase₁, t₁, hnext⟩
        all_goals cases h
      obtain ⟨phase₁, t₁, hnext⟩ := hnext
      have hdigit := isDigit_of_next hnext
      have hwhitespace := isWhitespace_digit hdigit
      have hstep : step limit (.value, stack) c = .ok (.number phase₁ t₁, stack) := by
        simp only [step, hwhitespace, stepValue_digit stack hnext]
        rfl
      rw [NumberText.feed, hnext] at h
      refine ⟨?_, c, rest, rfl, hwhitespace, ?_⟩
      · change run limit (.value, stack) (c :: rest) = _
        rw [run_cons hstep]
        exact run_feed stack h
      · rintro rfl
        cases hdigit

theorem reads_int {n : Int} (h : n.natAbs < 10 ^ Numeral.maxDigits) (stack : List Frame) :
    ∃ text, dumpInt n = .ok text ∧ Starts text ∧
      ∃ state, run limit (.value, stack) text = .ok state ∧ Settles (.int n) stack state := by
  have hlength : (digitsOf n.natAbs).length ≤ Numeral.maxDigits :=
    (length_digitsOf_le_iff (by decide)).mpr h
  have hfeed : ∃ phase, (NumberText.start (decide (n < 0))).feed .sign (digitsOf n.natAbs) =
      some (phase,
        { NumberText.start (decide (n < 0)) with whole := (digitsOf n.natAbs).map digitOf }) ∧
        (phase = .zero ∨ phase = .whole) := by
    rcases Nat.eq_zero_or_pos n.natAbs with hzero | hpos
    · rw [hzero]
      exact ⟨.zero, rfl, .inl rfl⟩
    · obtain ⟨c, rest, hdigits, hc⟩ := head_digitsOf hpos
      have hall : ∀ d ∈ digitsOf n.natAbs, d.isDigit = true := fun d => isDigit_of_mem_digitsOf
      rw [hdigits] at hall ⊢
      exact ⟨.whole, NumberText.feed_sign_digits _ hc hall, .inr rfl⟩
  obtain ⟨phase, hfeed, hphase⟩ := hfeed
  obtain ⟨hrun, hstarts⟩ := run_signed limit stack (Numeral.toString_ne_nil n.natAbs) hfeed
  refine ⟨signText (decide (n < 0)) ++ digitsOf n.natAbs, ?_, hstarts, _, hrun,
    .inr ⟨phase, _, rfl, ?_, ?_, ?_⟩⟩
  · rw [dumpInt, if_neg (Nat.not_lt.mpr hlength)]
  · rcases hphase with rfl | rfl <;> decide
  · have hint : NumberText.int
        { NumberText.start (decide (n < 0)) with whole := (digitsOf n.natAbs).map digitOf } =
        .ok (.int n) := by
      rw [NumberText.int, List.length_map, if_neg (Nat.not_lt.mpr hlength), value_digitsOf]
      exact congrArg (fun m => Except.ok (JsonValue.int m)) (NumberText.withSign_natAbs n)
    rcases hphase with rfl | rfl
    · exact hint
    · exact hint
  · intro c hc
    apply next_delimiter _ _ hc
    rcases hphase with rfl | rfl
    · exact .inl rfl
    · exact .inr (.inl rfl)

theorem reads_float {x : PyFloat} (h : IsDouble x) (stack : List Frame) :
    Starts (floatText x) ∧
      ∃ state, run limit (.value, stack) (floatText x) = .ok state ∧
      Settles (.float x) stack state := by
  cases x with
  | nan => cases h
  | infinite negative =>
      cases negative with
      | true => exact ⟨⟨'-', _, rfl, by decide, by decide⟩, _, rfl, .inl rfl⟩
      | false => exact ⟨⟨'I', _, rfl, by decide, by decide⟩, _, rfl, .inl rfl⟩
  | finite negative magnitude =>
      obtain ⟨q, ⟨phase, t, hfeed, hphase, hsign, hmagnitude⟩, hfloat⟩ :=
        NumberText.readsFloat_reprMagnitude h
      have hne : reprMagnitude magnitude ≠ [] := by
        intro hnil
        rw [hnil] at hfeed
        cases hfeed
        rcases hphase with h | h <;> cases h
      obtain ⟨hrun, hstarts⟩ := run_signed limit stack hne hfeed
      refine ⟨hstarts, _, hrun, .inr ⟨phase, t, rfl, ?_, ?_, ?_⟩⟩
      · rcases hphase with rfl | rfl <;> decide
      · have hvalue : Except.ok (JsonValue.float (toFloat (t.negative, t.magnitude))) =
            (Except.ok (.float (.finite negative magnitude)) : Except LoadError JsonValue) := by
          rw [hsign, hmagnitude, hfloat]
        rcases hphase with rfl | rfl
        · exact hvalue
        · exact hvalue
      · intro c hc
        exact next_delimiter t (.inr (.inr hphase)) hc

/-! Values. -/

/-- A text that starts a value starts the first item of a list. -/
theorem run_firstItem {text : List Char} (h : Starts text) (stack : List Frame) :
    run limit (.firstItem, stack) text = run limit (.value, .list [] :: stack) text := by
  obtain ⟨c, rest, rfl, hwhitespace, hc⟩ := h
  have hstep : step limit (.firstItem, stack) c = step limit (.value, .list [] :: stack) c := by
    simp only [step, hwhitespace, if_neg hc]
    rfl
  rw [run, run, List.foldlM_cons, List.foldlM_cons, hstep]

theorem insert_of_not_mem {entries : List (PyStr × JsonValue)} {key : PyStr}
    (h : key ∉ entries.map Prod.fst) (v : JsonValue) :
    insert entries key v = entries ++ [(key, v)] := if_neg h

theorem separated_singleton (part : List Char) : separated [part] = part := List.append_nil part

theorem separated_cons (part : List Char) {parts : List (List Char)} (h : parts ≠ []) :
    separated (part :: parts) = part ++ ',' :: ' ' :: separated parts := by
  obtain ⟨next, rest, rfl⟩ := List.exists_cons_of_ne_nil h
  rfl

/-- The value is written, and its text is read up to a character that can stand behind it. -/
def Reads (dumpDepth limit : Nat) (v : JsonValue) (stack : List Frame) : Prop :=
  ∃ text, dumps dumpDepth v = .ok text ∧ Starts text ∧
    ∃ state, run limit (.value, stack) text = .ok state ∧ Settles v stack state

/-- The items are written, and read into the list that waits for them. -/
def ReadsItems (dumpDepth limit : Nat) (items : List JsonValue) (stack : List Frame) : Prop :=
  ∃ parts, dumpsItems dumpDepth items = .ok parts ∧
    (items ≠ [] → parts ≠ [] ∧ Starts (separated parts) ∧
    ∀ before, run limit (.value, .list before :: stack) (separated parts ++ [']']) =
      .ok (complete (.list (before ++ items)) stack))

/-- The members are written, and read behind the members that are there, which have other keys. -/
def ReadsEntries (dumpDepth limit : Nat) (entries : List (PyStr × JsonValue)) (stack : List Frame) :
    Prop :=
  ∃ parts, dumpsEntries dumpDepth entries = .ok parts ∧ (entries ≠ [] → parts ≠ [] ∧
    (∃ rest, separated parts = '"' :: rest) ∧ ∀ before, ((before ++ entries).map Prod.fst).Nodup →
      run limit (.key before, stack) (separated parts ++ ['\x7d']) =
        .ok (complete (.object (before ++ entries)) stack))

theorem Starts.append {text : List Char} (h : Starts text) (more : List Char) :
    Starts (text ++ more) := by
  obtain ⟨c, rest, rfl, hc⟩ := h
  exact ⟨c, rest ++ more, rfl, hc⟩

theorem Reads.list {dumpDepth limit : Nat} {items : List JsonValue} {stack : List Frame}
    (hlimit : stack.length < limit) (h : ReadsItems dumpDepth limit items stack) :
    Reads (dumpDepth + 1) limit (.list items) stack := by
  obtain ⟨parts, hparts, hread⟩ := h
  have hopen : step limit (.value, stack) '[' = .ok (.firstItem, stack) := if_pos hlimit
  have hdumps : dumps (dumpDepth + 1) (.list items) = .ok ('[' :: (separated parts ++ [']'])) := by
    rw [dumps, hparts]
    rfl
  refine ⟨_, hdumps, ⟨'[', _, rfl, by decide, by decide⟩,
    complete (.list items) stack, ?_, .inl rfl⟩
  rw [run_cons hopen]
  by_cases hnil : items = []
  · subst hnil
    cases hparts
    rfl
  · obtain ⟨-, hstarts, hread⟩ := hread hnil
    rw [run_firstItem (hstarts.append _), hread []]
    rfl

theorem Reads.object {dumpDepth limit : Nat} {entries : List (PyStr × JsonValue)}
    {stack : List Frame} (hlimit : stack.length < limit) (hnodup : (entries.map Prod.fst).Nodup)
    (h : ReadsEntries dumpDepth limit entries stack) :
    Reads (dumpDepth + 1) limit (.object entries) stack := by
  obtain ⟨parts, hparts, hread⟩ := h
  have hopen : step limit (.value, stack) '\x7b' = .ok (.firstKey, stack) := if_pos hlimit
  have hdumps :
      dumps (dumpDepth + 1) (.object entries) = .ok ('\x7b' :: (separated parts ++ ['\x7d'])) := by
    rw [dumps, hparts]
    rfl
  refine ⟨_, hdumps, ⟨'\x7b', _, rfl, by decide, by decide⟩,
    complete (.object entries) stack, ?_, .inl rfl⟩
  rw [run_cons hopen]
  by_cases hnil : entries = []
  · subst hnil
    cases hparts
    rfl
  · obtain ⟨-, ⟨rest, hquote⟩, hread⟩ := hread hnil
    have hread := hread [] hnodup
    rw [hquote] at hread ⊢
    exact hread

/-- Behind a value a list goes on with the next one, or ends. -/
theorem ReadsItems.cons {dumpDepth limit : Nat} {v : JsonValue} {rest : List JsonValue}
    {stack : List Frame} (hfirst : ∀ before, Reads dumpDepth limit v (.list before :: stack))
    (h : ReadsItems dumpDepth limit rest stack) :
    ReadsItems dumpDepth limit (v :: rest) stack := by
  obtain ⟨parts, hparts, hread⟩ := h
  obtain ⟨text, hdumps, hstarts, -⟩ := hfirst []
  have hrun : ∀ before, ∃ state, run limit (.value, .list before :: stack) text = .ok state ∧
      Settles v (.list before :: stack) state := by
    intro before
    obtain ⟨text', hdumps', -, hrun⟩ := hfirst before
    obtain rfl := Except.ok.inj (hdumps.symm.trans hdumps')
    exact hrun
  refine ⟨text :: parts, ?_, fun _ => ⟨List.cons_ne_nil _ _, ?_⟩⟩
  · rw [dumpsItems, hdumps, hparts]
    rfl
  by_cases hnil : rest = []
  · subst hnil
    cases hparts
    rw [separated_singleton]
    refine ⟨hstarts, fun before => ?_⟩
    obtain ⟨state, hrun, hsettles⟩ := hrun before
    have hclose : step limit state ']' = .ok (complete (.list (before ++ [v])) stack) :=
      hsettles.step_eq (.inr (.inl rfl))
    rw [run_append hrun, run_cons hclose]
    rfl
  · obtain ⟨hne, -, hread⟩ := hread hnil
    rw [separated_cons text hne]
    refine ⟨hstarts.append _, fun before => ?_⟩
    obtain ⟨state, hrun, hsettles⟩ := hrun before
    have hcomma : step limit state ',' = .ok (.value, .list (before ++ [v]) :: stack) :=
      hsettles.step_eq (.inl rfl)
    have hblank : step limit (.value, .list (before ++ [v]) :: stack) ' ' =
        .ok (.value, .list (before ++ [v]) :: stack) :=
      rfl
    rw [List.append_assoc, run_append hrun, List.cons_append, List.cons_append, run_cons hcomma,
      run_cons hblank, hread (before ++ [v]), List.append_assoc]
    rfl

/-- A member goes behind the others, whose keys it does not have. -/
theorem ReadsEntries.cons {dumpDepth limit : Nat} {key : PyStr} {v : JsonValue}
    {rest : List (PyStr × JsonValue)} {stack : List Frame} (hkey : Unpaired key)
    (hfirst : ∀ before, Reads dumpDepth limit v (.member before key :: stack))
    (h : ReadsEntries dumpDepth limit rest stack) :
    ReadsEntries dumpDepth limit ((key, v) :: rest) stack := by
  obtain ⟨parts, hparts, hread⟩ := h
  obtain ⟨text, hdumps, -, -⟩ := hfirst []
  have hrun : ∀ before, key ∉ before.map Prod.fst → ∃ state,
      run limit (.key before, stack) (quote key ++ (':' :: ' ' :: text)) = .ok state ∧
        ∀ c, isDelimiter c →
        step limit state c = stepBehind (.entries (before ++ [(key, v)]), stack) c := by
    intro before hnew
    obtain ⟨text', hdumps', -, state, hrun, hsettles⟩ := hfirst before
    obtain rfl := Except.ok.inj (hdumps.symm.trans hdumps')
    have hcolon :
        step limit (.colon before key, stack) ':' = .ok (.value, .member before key :: stack) := rfl
    have hblank : step limit (.value, .member before key :: stack) ' ' =
        .ok (.value, .member before key :: stack) := rfl
    refine ⟨state, ?_, fun c hc => ?_⟩
    · rw [run_append (run_key hkey before stack), run_cons hcolon, run_cons hblank, hrun]
    · rw [hsettles.step_eq hc, complete, insert_of_not_mem hnew]
  have hnew :
      ∀ before, ((before ++ (key, v) :: rest).map Prod.fst).Nodup → key ∉ before.map Prod.fst := by
    intro before hnodup hmem
    rw [List.map_append] at hnodup
    exact (List.nodup_append.mp hnodup).2.2 key hmem key List.mem_cons_self rfl
  refine ⟨(quote key ++ (':' :: ' ' :: text)) :: parts, ?_, fun _ => ⟨List.cons_ne_nil _ _, ?_⟩⟩
  · rw [dumpsEntries, hdumps, hparts]
    rfl
  by_cases hnil : rest = []
  · subst hnil
    cases hparts
    rw [separated_singleton]
    refine ⟨⟨_, rfl⟩, fun before hnodup => ?_⟩
    obtain ⟨state, hrun, hstep⟩ := hrun before (hnew before hnodup)
    have hclose : step limit state '\x7d' = .ok (complete (.object (before ++ [(key, v)])) stack) :=
      hstep '\x7d' (.inr (.inr rfl))
    rw [run_append hrun, run_cons hclose]
    rfl
  · obtain ⟨hne, -, hread⟩ := hread hnil
    rw [separated_cons _ hne]
    refine ⟨⟨_, rfl⟩, fun before hnodup => ?_⟩
    obtain ⟨state, hrun, hstep⟩ := hrun before (hnew before hnodup)
    have hcomma : step limit state ',' = .ok (.key (before ++ [(key, v)]), stack) :=
      hstep ',' (.inl rfl)
    have hblank : step limit (.key (before ++ [(key, v)]), stack) ' ' =
        .ok (.key (before ++ [(key, v)]), stack) := rfl
    have hsplit : before ++ (key, v) :: rest = before ++ [(key, v)] ++ rest := by
      rw [List.append_assoc, List.singleton_append]
    rw [hsplit] at hnodup ⊢
    rw [List.append_assoc, run_append hrun, List.cons_append, List.cons_append, run_cons hcomma,
      run_cons hblank, hread _ hnodup]

mutual

theorem reads_dumps {depth dumpDepth limit : Nat} (v : JsonValue) (stack : List Frame)
    (h : Portable depth v) (hdump : depth ≤ dumpDepth) (hlimit : stack.length + depth ≤ limit) :
    Reads dumpDepth limit v stack := by
  match v with
  | .null => exact ⟨_, rfl, ⟨'n', _, rfl, by decide, by decide⟩, _, rfl, .inl rfl⟩
  | .bool true => exact ⟨_, rfl, ⟨'t', _, rfl, by decide, by decide⟩, _, rfl, .inl rfl⟩
  | .bool false => exact ⟨_, rfl, ⟨'f', _, rfl, by decide, by decide⟩, _, rfl, .inl rfl⟩
  | .int n => exact reads_int h stack
  | .float x => exact ⟨_, rfl, reads_float h stack⟩
  | .str s => exact ⟨_, rfl, ⟨'"', _, rfl, by decide, by decide⟩, _, run_quote h stack, .inl rfl⟩
  | .list items =>
      match depth, dumpDepth with
      | depth + 1, dumpDepth + 1 =>
          exact Reads.list (by omega)
            (reads_items items stack h (Nat.le_of_succ_le_succ hdump) (by omega))
  | .object entries =>
      match depth, dumpDepth with
      | depth + 1, dumpDepth + 1 =>
          exact Reads.object (by omega) h.1
            (reads_entries entries stack h.2 (Nat.le_of_succ_le_succ hdump) (by omega))

theorem reads_items {depth dumpDepth limit : Nat} (items : List JsonValue) (stack : List Frame)
    (h : PortableItems depth items) (hdump : depth ≤ dumpDepth)
    (hlimit : stack.length + 1 + depth ≤ limit) :
    ReadsItems dumpDepth limit items stack := by
  match items with
  | [] => exact ⟨[], rfl, fun hne => absurd rfl hne⟩
  | v :: rest =>
      apply ReadsItems.cons
      · exact fun before => reads_dumps v (.list before :: stack) h.1 hdump hlimit
      · exact reads_items rest stack h.2 hdump hlimit

theorem reads_entries {depth dumpDepth limit : Nat} (entries : List (PyStr × JsonValue))
    (stack : List Frame) (h : PortableEntries depth entries) (hdump : depth ≤ dumpDepth)
    (hlimit : stack.length + 1 + depth ≤ limit) :
    ReadsEntries dumpDepth limit entries stack := by
  match entries with
  | [] => exact ⟨[], rfl, fun hne => absurd rfl hne⟩
  | (key, v) :: rest =>
      apply ReadsEntries.cons h.1
      · exact fun before => reads_dumps v (.member before key :: stack) h.2.1 hdump hlimit
      · exact reads_entries rest stack h.2.2 hdump hlimit

end

/-- What has been written is read back. -/
theorem loads_dumps {depth dumpDepth limit : Nat} {v : JsonValue} (h : Portable depth v)
    (hdump : depth ≤ dumpDepth) (hlimit : depth ≤ limit) :
    ∃ text, dumps dumpDepth v = .ok text ∧ loads limit text = .ok v := by
  obtain ⟨text, hdumps, -, state, hrun, hsettles⟩ :=
    reads_dumps v [] h hdump (by simpa using hlimit)
  refine ⟨text, hdumps, ?_⟩
  rw [loads, hrun]
  exact hsettles.finish_eq

end Graveboards.Compression
