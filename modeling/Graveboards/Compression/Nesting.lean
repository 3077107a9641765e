import Graveboards.Compression.Loads

/-!
How deeply a text nests its brackets, whether or not it is JSON, and that `json.loads` gives up
for the depth only on a text that nests more deeply than it may.
-/

namespace Graveboards.Compression

open Graveboards.Library Graveboards.Search

/-! Brackets of a text. -/

/-- Brackets between quotes do not count, nor does a quote behind a backslash. -/
inductive Quoting where
  | outside
  | inside
  | escaped
  deriving DecidableEq

structure Scan where
  depth : Nat
  quoting : Quoting

def opens (c : Char) : Bool := c = '[' || c = '\x7b'

def closes (c : Char) : Bool := c = ']' || c = '\x7d'

namespace Scan

def start : Scan := ⟨0, .outside⟩

def next (s : Scan) (c : Char) : Scan :=
  match s.quoting with
  | .inside =>
      { s with quoting := if c = '"' then .outside else if c = '\\' then .escaped else .inside }
  | .escaped => { s with quoting := .inside }
  | .outside =>
      if c = '"' then { s with quoting := .inside }
      else if opens c then { s with depth := s.depth + 1 }
      else if closes c then { s with depth := s.depth - 1 }
      else s

/-- No more than `limit` brackets are open at once. -/
def fits (limit : Nat) (s : Scan) : List Char → Bool
  | [] => true
  | c :: rest => decide ((s.next c).depth ≤ limit) && (s.next c).fits limit rest

/-- A character that is neither a quote nor a bracket. -/
def IsPlain (c : Char) : Prop := c ∉ ['"', '[', ']', '\x7b', '\x7d']

theorem next_plain {depth : Nat} {c : Char} (h : IsPlain c) :
    next ⟨depth, .outside⟩ c = ⟨depth, .outside⟩ := by
  simp only [IsPlain, List.mem_cons, List.not_mem_nil, or_false, not_or] at h
  simp [next, opens, closes, h]

end Scan

def nestsWithin (limit : Nat) (text : List Char) : Bool := Scan.start.fits limit text

/-! The scan of what has been read. -/

def openContainers : State → Nat
  | (.firstItem, stack) | (.items _, stack) | (.firstKey, stack) | (.key _,
    stack) | (.colon _ _, stack)
  | (.entries _, stack) | (.text (some _) _ _, stack) => stack.length + 1
  | (_, stack) => stack.length

def quotingOf : Mode → Quoting
  | .text _ _ .backslash => .escaped
  | .text _ _ _ => .inside
  | _ => .outside

def scanOf (state : State) : Scan := ⟨openContainers state, quotingOf state.1⟩

/-- The letters of a literal are plain. -/
def Spelled : State → Prop
  | (.literal rest _, _) => ∀ c ∈ rest, Scan.IsPlain c
  | _ => True

/-- What a step may give where the scan has come to `s`. -/
def Follows (limit : Nat) (s : Scan) (c : Char) : Loading → Prop
  | .ok state => Spelled state ∧ scanOf state = s.next c
  | .error .recursion => limit < (s.next c).depth
  | .error _ => True

theorem scanOf_complete (v : JsonValue) (stack : List Frame) :
    Spelled (complete v stack) ∧ scanOf (complete v stack) = ⟨stack.length, .outside⟩ := by
  match stack with
  | [] => exact ⟨trivial, rfl⟩
  | .list items :: stack => exact ⟨trivial, rfl⟩
  | .member entries key :: stack => exact ⟨trivial, rfl⟩

theorem isPlain_of_isWhitespace {c : Char} (h : isWhitespace c = true) : Scan.IsPlain c := by
  simp only [isWhitespace, Bool.or_eq_true, decide_eq_true_eq] at h
  rcases h with ((rfl | rfl) | rfl) | rfl <;> simp [Scan.IsPlain]

/-- A number does not go on with a quote or a bracket. -/
theorem isPlain_of_more {t t' : NumberText} {phase phase' : Phase} {c : Char}
    (h : t.next phase c = .more phase' t') :
    Scan.IsPlain c := by
  intro hmem
  simp only [List.mem_cons, List.not_mem_nil, or_false] at hmem
  rcases hmem with rfl | rfl | rfl | rfl | rfl <;> cases phase <;> cases h

theorem follows_plain (limit : Nat) {depth : Nat} {state : State} {c : Char}
    (hspelled : Spelled state) (hscan : scanOf state = ⟨depth, .outside⟩)
    (hplain : Scan.IsPlain c) :
    Follows limit ⟨depth, .outside⟩ c (.ok state) :=
  ⟨hspelled, hscan.trans (Scan.next_plain hplain).symm⟩

/-! One step. -/

variable (limit : Nat)

theorem follows_stepValue (stack : List Frame) (c : Char) :
    Follows limit ⟨stack.length, .outside⟩ c (stepValue limit stack c) := by
  rw [stepValue.eq_def]
  split
  · exact ⟨trivial, rfl⟩
  · split
    · exact ⟨trivial, rfl⟩
    · exact Nat.lt_succ_of_le (Nat.le_of_not_lt ‹_›)
  · split
    · exact ⟨trivial, rfl⟩
    · exact Nat.lt_succ_of_le (Nat.le_of_not_lt ‹_›)
  · exact ⟨by simp [Spelled, Scan.IsPlain], rfl⟩
  · exact ⟨by simp [Spelled, Scan.IsPlain], rfl⟩
  · exact ⟨by simp [Spelled, Scan.IsPlain], rfl⟩
  · exact ⟨by simp [Spelled, Scan.IsPlain], rfl⟩
  · exact ⟨by simp [Spelled, Scan.IsPlain], rfl⟩
  · exact ⟨trivial, rfl⟩
  · split
    · exact follows_plain limit trivial rfl (isPlain_of_more ‹_›)
    · trivial
    · trivial

theorem follows_stepBehind {state : State} (h : Spelled state)
    (hquoting : quotingOf state.1 = .outside) (c : Char) :
    Follows limit (scanOf state) c (stepBehind state c) := by
  have hscan : scanOf state = ⟨openContainers state, .outside⟩ := by rw [scanOf, hquoting]
  rw [stepBehind.eq_def]
  split
  · split
    · next heq => exact ⟨trivial, by rw [heq]; rfl⟩
    split
    · next heq =>
      obtain ⟨hspelled, hcomplete⟩ := scanOf_complete (.list ‹_›) ‹_›
      exact ⟨hspelled, by rw [hcomplete, heq]; rfl⟩
    split
    · exact follows_plain limit h hscan (isPlain_of_isWhitespace ‹_›)
    · trivial
  · split
    · next heq => exact ⟨trivial, by rw [heq]; rfl⟩
    split
    · next heq =>
      obtain ⟨hspelled, hcomplete⟩ := scanOf_complete (.object ‹_›) ‹_›
      exact ⟨hspelled, by rw [hcomplete, heq]; rfl⟩
    split
    · exact follows_plain limit h hscan (isPlain_of_isWhitespace ‹_›)
    · trivial
  · split
    · rw [hscan]
      exact follows_plain limit h hscan (isPlain_of_isWhitespace ‹_›)
    · trivial

theorem ne_of_hexDigit {c : Char} {digit : Nat} (h : hexDigit c = some digit) :
    c ≠ '"' ∧ c ≠ '\\' := by
  refine ⟨?_, ?_⟩ <;> rintro rfl <;> cases h

theorem follows_stepText (keyOf : Option (List (PyStr × JsonValue))) (text : PyStr)
    (escape : Escape) (stack : List Frame) (c : Char) :
    Follows limit (scanOf (.text keyOf text escape, stack)) c
    (stepText keyOf text stack escape c) := by
  have hscan : ∀ text' escape', scanOf (.text keyOf text' escape', stack) =
      ⟨openContainers (.text keyOf text escape, stack), quotingOf (.text keyOf text' escape')⟩ := by
    intro text' escape'
    cases keyOf <;> rfl
  cases escape with
  | none =>
      rw [stepText]
      split
      · next heq =>
        subst heq
        cases keyOf with
        | none => exact scanOf_complete _ _
        | some entries => exact ⟨trivial, rfl⟩
      next hquote =>
      split
      · next heq =>
        subst heq
        exact ⟨trivial, hscan text .backslash⟩
      split
      · trivial
      · next hbackslash _ =>
        refine ⟨trivial, (hscan _ .none).trans ?_⟩
        rw [hscan]
        simp [Scan.next, quotingOf, hquote, hbackslash]
  | backslash =>
      rw [stepText]
      split
      · exact ⟨trivial, hscan text (.hex 0 0)⟩
      split
      · exact ⟨trivial, hscan _ .none⟩
      · trivial
  | hex unit count =>
      rw [stepText]
      split
      · trivial
      · next digit hdigit =>
        obtain ⟨hquote, hbackslash⟩ := ne_of_hexDigit hdigit
        split
        · refine ⟨trivial, (hscan _ .none).trans ?_⟩
          rw [hscan]
          simp [Scan.next, quotingOf, hquote, hbackslash]
        · refine ⟨trivial, (hscan _ (.hex _ _)).trans ?_⟩
          rw [hscan]
          simp [Scan.next, quotingOf, hquote, hbackslash]

theorem int_ne_recursion (t : NumberText) : t.int ≠ .error .recursion := by
  rw [NumberText.int]
  split <;> exact nofun

theorem broken_ne_recursion (t : NumberText) : t.broken ≠ .recursion := by
  rw [NumberText.broken]
  split
  · next heq =>
    rintro rfl
    exact int_ne_recursion t heq
  · exact nofun

theorem finish_ne_recursion (t : NumberText) (phase : Phase) :
    t.finish phase ≠ .error .recursion := by
  cases phase with
  | zero | whole => exact int_ne_recursion t
  | fraction | exponent => exact nofun
  | sign | point | letter | exponentSign =>
      exact fun h => broken_ne_recursion t (Except.error.inj h)

theorem follows_error {s : Scan} {c : Char} {e : LoadError} (h : e ≠ .recursion) :
    Follows limit s c (.error e) := by
  cases e with
  | recursion => exact absurd rfl h
  | decodeError | tooManyDigits count => exact trivial

theorem follows_number (phase : Phase) (text : NumberText) (stack : List Frame) (c : Char) :
    Follows limit (scanOf (.number phase text, stack)) c
    (step limit (.number phase text, stack) c) := by
  rw [step]
  split
  · next heq =>
    obtain ⟨-, rfl⟩ := heq
    exact ⟨by simp [Spelled, Scan.IsPlain], rfl⟩
  split
  · next hmore => exact follows_plain limit trivial rfl (isPlain_of_more hmore)
  · cases hfinish : text.finish phase with
    | error e => exact follows_error limit fun heq => finish_ne_recursion text phase (heq ▸ hfinish)
    | ok v =>
        obtain ⟨hspelled, hscan⟩ := scanOf_complete v stack
        have hbehind := follows_stepBehind limit hspelled (congrArg Scan.quoting hscan) c
        rw [hscan] at hbehind
        exact hbehind
  · exact follows_error limit (broken_ne_recursion text)

theorem follows_literal {rest : List Char} {v : JsonValue} {stack : List Frame}
    (h : Spelled (.literal rest v, stack)) (c : Char) :
    Follows limit (scanOf (.literal rest v, stack)) c (step limit (.literal rest v, stack) c) := by
  cases rest with
  | nil => exact trivial
  | cons d rest =>
      rw [step]
      split
      · next heq =>
        subst heq
        have hplain := h c List.mem_cons_self
        split
        · obtain ⟨hspelled, hscan⟩ := scanOf_complete v stack
          exact follows_plain limit hspelled hscan hplain
        · exact follows_plain limit (fun d hd => h d (List.mem_cons_of_mem _ hd)) rfl hplain
      · trivial

/-- The machine opens and closes what the scan does, and gives up only for an opening bracket at
the limit. -/
theorem follows_step {state : State} (h : Spelled state) (c : Char) :
    Follows limit (scanOf state) c (step limit state c) := by
  obtain ⟨mode, stack⟩ := state
  cases mode with
  | value =>
      rw [step]
      split
      · exact follows_plain limit trivial rfl (isPlain_of_isWhitespace ‹_›)
      · exact follows_stepValue limit stack c
  | firstItem =>
      rw [step]
      split
      · exact follows_plain limit trivial rfl (isPlain_of_isWhitespace ‹_›)
      split
      · next heq =>
        subst heq
        exact scanOf_complete (.list []) stack
      · exact follows_stepValue limit (.list [] :: stack) c
  | items items => exact follows_stepBehind limit h rfl c
  | firstKey =>
      rw [step]
      split
      · exact follows_plain limit trivial rfl (isPlain_of_isWhitespace ‹_›)
      split
      · next heq =>
        subst heq
        exact ⟨trivial, rfl⟩
      split
      · next heq =>
        subst heq
        exact scanOf_complete (.object []) stack
      · trivial
  | key entries =>
      rw [step]
      split
      · exact follows_plain limit trivial rfl (isPlain_of_isWhitespace ‹_›)
      split
      · next heq =>
        subst heq
        exact ⟨trivial, rfl⟩
      · trivial
  | colon entries key =>
      rw [step]
      split
      · exact follows_plain limit trivial rfl (isPlain_of_isWhitespace ‹_›)
      split
      · next heq =>
        subst heq
        exact ⟨trivial, rfl⟩
      · trivial
  | entries entries => exact follows_stepBehind limit h rfl c
  | text keyOf text escape => exact follows_stepText limit keyOf text escape stack c
  | number phase text => exact follows_number limit phase text stack c
  | literal rest v => exact follows_literal limit h c
  | done v => exact follows_stepBehind limit h rfl c

/-! The whole text. -/

theorem run_ne_recursion {limit : Nat} {state : State} {text : List Char} (h : Spelled state)
    (hfits : (scanOf state).fits limit text = true) : run limit state text ≠ .error .recursion := by
  induction text generalizing state with
  | nil => exact nofun
  | cons c rest ih =>
      rw [Scan.fits, Bool.and_eq_true, decide_eq_true_eq] at hfits
      obtain ⟨hdepth, hfits⟩ := hfits
      have hstep := follows_step limit h c
      rw [run, List.foldlM_cons]
      cases heq : step limit state c with
      | ok state' =>
          rw [heq] at hstep
          obtain ⟨hspelled, hscan⟩ := hstep
          exact ih hspelled (hscan ▸ hfits)
      | error e =>
          rw [heq] at hstep
          intro herror
          obtain rfl := Except.error.inj herror
          exact absurd hdepth (Nat.not_le_of_lt hstep)

theorem finish_state_ne_recursion (state : State) : finish state ≠ .error .recursion := by
  obtain ⟨mode, stack⟩ := state
  cases mode with
  | number phase text =>
      rw [finish]
      cases hfinish : text.finish phase with
      | error e => exact fun herror => finish_ne_recursion text phase (hfinish.trans herror)
      | ok v => cases stack <;> exact nofun
  | done v => exact nofun
  | value | firstItem | items | firstKey | key | colon | entries | text | literal => exact nofun

/-- A text that nests within the limit is read to its end, or fails for another reason. -/
theorem loads_ne_recursion {limit : Nat} {text : List Char} (h : nestsWithin limit text = true) :
    loads limit text ≠ .error .recursion := by
  have hrun : run limit (.value, []) text ≠ .error .recursion := run_ne_recursion trivial h
  rw [loads]
  cases heq : run limit (.value, []) text with
  | error e =>
      rw [heq] at hrun
      exact fun herror => hrun (congrArg Except.error (Except.error.inj herror))
  | ok state => exact finish_state_ne_recursion state

/-! The limit is reached. -/

theorem run_brackets {limit n : Nat} {stack : List Frame} (h : stack.length + n + 1 = limit) :
    run limit (.firstItem, stack) (List.replicate (n + 1) '[') = .error .recursion := by
  have hstep : step limit (.firstItem, stack) '[' = stepValue limit (.list [] :: stack) '[' := rfl
  have hopen : stepValue limit (.list [] :: stack) '[' =
      if stack.length + 1 < limit then .ok (.firstItem, .list [] :: stack) else .error .recursion :=
    rfl
  rw [List.replicate_succ, run, List.foldlM_cons, hstep, hopen]
  induction n generalizing stack with
  | zero =>
      rw [if_neg (by omega)]
      rfl
  | succ n ih =>
      rw [if_pos (by omega)]
      have hlength : (Frame.list [] :: stack).length + n + 1 = limit := by
        rw [List.length_cons]
        omega
      exact ih hlength rfl rfl

/-- One bracket more than may be open. -/
theorem loads_brackets (limit : Nat) :
    loads limit (List.replicate (limit + 1) '[') = .error .recursion := by
  have hrun : run limit (.value, []) (List.replicate (limit + 1) '[') = .error .recursion := by
    have hstep : step limit (.value, []) '[' = if 0 < limit then .ok (.firstItem, [])
        else .error .recursion := rfl
    rw [List.replicate_succ, run, List.foldlM_cons, hstep]
    cases limit with
    | zero => rfl
    | succ n =>
        rw [if_pos (Nat.succ_pos n)]
        exact run_brackets (by simp)
  rw [loads, hrun]
  rfl

end Graveboards.Compression
