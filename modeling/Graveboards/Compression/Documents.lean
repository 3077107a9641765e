import Graveboards.Compression.Dumps
import Graveboards.Library.Canonical

/-!
Parsed JSON is modelled twice: with strings and doubles for the documents that
are validated, and with surrogates, infinities and NaN for those that are sent.
The first are among the second, and `json.dumps` writes the same text of both.
-/

namespace Graveboards.Compression

open Graveboards.Library Graveboards.Search
open Graveboards.Parameters (toFloat)

/-! Doubles. -/

/-- How many smallest doubles it counts. -/
def magnitudeOf (x : Double) : Nat := (|x.value| * 2 ^ 1074).floor.toNat

/-- Zero is the positive one. -/
def floatOf (x : Double) : PyFloat := .finite (decide (x.value < 0)) (magnitudeOf x)

theorem magnitudeOf_cast (x : Double) : (magnitudeOf x : Rat) = |x.value| * 2 ^ 1074 := by
  obtain ⟨m, hm⟩ := x.rounded.exists_units (s := 1074)
  have habs : |x.value| * 2 ^ 1074 = ((m.natAbs : Int) : Rat) := by
    rw [Int.natCast_natAbs, Int.cast_abs, ← hm, abs_mul,
      abs_of_pos (show (0 : Rat) < 2 ^ 1074 by positivity)]
  have hfloor : (((m.natAbs : Int) : Rat)).floor = (m.natAbs : Int) :=
    Int.floor_intCast (R := Rat) _
  rw [magnitudeOf, habs, hfloor, Int.toNat_natCast, Int.cast_natCast]

theorem magnitudeValue_magnitudeOf (x : Double) : magnitudeValue (magnitudeOf x) = |x.value| := by
  rw [magnitudeValue, magnitudeOf_cast, mul_div_cancel_right₀ _ (pow_ne_zero _ two_ne_zero)]

theorem magnitudeOf_eq_zero_iff {x : Double} : magnitudeOf x = 0 ↔ x.value = 0 := by
  rw [← Nat.cast_eq_zero (R := Rat), magnitudeOf_cast]
  simp

theorem floatOf_injective : Function.Injective floatOf := by
  intro x y h
  obtain ⟨hsign, hmagnitude⟩ := PyFloat.finite.inj h
  have habs : |x.value| = |y.value| := by
    rw [← magnitudeValue_magnitudeOf, hmagnitude, magnitudeValue_magnitudeOf]
  rw [decide_eq_decide] at hsign
  apply Double.ext
  rcases lt_or_ge x.value 0 with hx | hx
  · rw [abs_of_neg hx, abs_of_neg (hsign.mp hx)] at habs
    linarith
  · have hy : 0 ≤ y.value := not_lt.mp fun hy => absurd (hsign.mpr hy) (not_lt.mpr hx)
    rwa [abs_of_nonneg hx, abs_of_nonneg hy] at habs

/-- A decimal is read back as the double if it is as its magnitude. -/
theorem readsBack_magnitudeOf {x : Double} (h : x.value ≠ 0) (q : Rat) :
    readsBack (magnitudeOf x) q = x.readsBack q := by
  rw [readsBack, Double.readsBack, decide_eq_decide]
  have hunfold :
      toFloat (false, q) = if 2 ^ 1024 ≤ Rounding.nearest 52 (-1074) q then .infinite false
      else .finite false (Rounding.nearest 52 (-1074) q * 2 ^ 1074).floor.toNat := rfl
  rw [hunfold]
  constructor
  · intro hread
    split at hread
    · cases hread
    · obtain ⟨k, hk⟩ : ∃ k : Int, Rounding.nearest 52 (-1074) q * 2 ^ 1074 = k :=
        (Rounding.rounded_nearest q).exists_units (s := 1074)
      have hcount : k.toNat = magnitudeOf x := by
        have hfloor : (k : Rat).floor = k := Int.floor_intCast (R := Rat) k
        have hmagnitude := (PyFloat.finite.inj hread).2
        rwa [hk, hfloor] at hmagnitude
      have hpos : magnitudeOf x ≠ 0 := magnitudeOf_eq_zero_iff.not.mpr h
      have hcast : (k : Rat) = (magnitudeOf x : Rat) := by
        have hint : k = (magnitudeOf x : Int) := by omega
        rw [hint, Int.cast_natCast]
      rw [hcast, magnitudeOf_cast] at hk
      exact mul_right_cancel₀ (pow_ne_zero _ two_ne_zero) hk
  · intro hnearest
    rw [hnearest, if_neg (not_le.mpr x.finite)]
    rfl

theorem text_shortest {x : Double} (h : x.value ≠ 0) :
    (shortest (magnitudeOf x)).text = x.shortest.text := by
  have hreads : readsBack (magnitudeOf x) = x.readsBack := funext (readsBack_magnitudeOf h)
  simp only [shortest, Double.shortest, hreads, magnitudeValue_magnitudeOf]

theorem floatText_floatOf (x : Double) : floatText (floatOf x) = x.repr.toList := by
  rw [floatOf, floatText, reprMagnitude, Double.repr]
  by_cases hzero : x.value = 0
  · rw [if_pos (magnitudeOf_eq_zero_iff.mpr hzero), if_pos hzero, hzero]
    rfl
  · rw [if_neg (magnitudeOf_eq_zero_iff.not.mpr hzero), if_neg hzero, text_shortest hzero]
    by_cases hneg : x.value < 0
    · rw [decide_eq_true hneg, if_pos hneg, String.toList_append, String.toList_ofList]
      simp [signText]
    · rw [decide_eq_false hneg, if_neg hneg, String.toList_append, String.toList_ofList]
      simp [signText]

/-! Texts. -/

theorem hexDigits_toList (n : Nat) : ("\\u" ++ Text.hexDigits n).toList = unicodeEscape n := by
  rw [Text.hexDigits, String.toList_append, String.toList_ofList, String.toList_ofList]
  rfl

/-- The blank and the tilde bound the printable characters. -/
theorem printable_iff {c : Char} : 32 ≤ c.toNat ∧ c.toNat < 127 ↔ ' ' ≤ c ∧ c ≤ '~' := by
  have hlow : ' ' ≤ c ↔ 32 ≤ c.toNat := Iff.rfl
  have hhigh : c ≤ '~' ↔ c.toNat ≤ 126 := Iff.rfl
  rw [hlow, hhigh, Nat.lt_succ_iff]

theorem shortEscape_eq_none {c : Char} (hquote : c ≠ '"') (hbackslash : c ≠ '\\') (hline : c ≠ '\n')
    (hreturn : c ≠ '\r') (htab : c ≠ '\t') (hbackspace : c ≠ '\x08') (hfeed : c ≠ '\x0c') :
    shortEscape c = none := by
  rw [shortEscape, if_neg (not_or.mpr ⟨hquote, hbackslash⟩), if_neg hline,
    if_neg hreturn, if_neg htab, if_neg hfeed, if_neg hbackspace]

theorem escapeChar_toList (c : Char) : (Text.escapeChar c).toList = escape (.char c) := by
  by_cases hquote : c = '"'
  · rw [hquote]; rfl
  by_cases hbackslash : c = '\\'
  · rw [hbackslash]; rfl
  by_cases hline : c = '\n'
  · rw [hline]; rfl
  by_cases hreturn : c = '\r'
  · rw [hreturn]; rfl
  by_cases htab : c = '\t'
  · rw [htab]; rfl
  by_cases hbackspace : c = '\x08'
  · rw [hbackspace]; rfl
  by_cases hfeed : c = '\x0c'
  · rw [hfeed]; rfl
  have hbackspace' : ¬ c.toNat = 8 := fun h => hbackspace (Char.toNat_inj.mp h)
  have hfeed' : ¬ c.toNat = 12 := fun h => hfeed (Char.toNat_inj.mp h)
  have hshort := shortEscape_eq_none hquote hbackslash hline hreturn htab hbackspace hfeed
  rw [Text.escapeChar, if_neg hquote, if_neg hbackslash, if_neg hline, if_neg hreturn, if_neg htab,
    if_neg hbackspace', if_neg hfeed', escape, hshort]
  dsimp only
  by_cases hprintable : ' ' ≤ c ∧ c ≤ '~'
  · rw [if_pos (printable_iff.mpr hprintable), if_pos hprintable, String.toList_singleton]
  rw [if_neg (printable_iff.not.mpr hprintable), if_neg hprintable]
  by_cases hbasic : c.toNat < 65536
  · rw [if_pos hbasic, if_pos hbasic, hexDigits_toList]
  · rw [if_neg hbasic, if_neg hbasic, String.append_assoc, String.toList_append, hexDigits_toList,
      hexDigits_toList]
    rfl

theorem quoted_toList (s : String) : (Text.quoted s).toList = quote (PyStr.ofString s) := by
  rw [Text.quoted, quote, PyStr.ofString, String.toList_append, String.toList_append,
    String.toList_join, List.flatMap_map, List.flatMap_map]
  have hescape : (fun c => (Text.escapeChar c).toList) = fun c => escape (.char c) :=
    funext escapeChar_toList
  rw [hescape]
  rfl

theorem dumpInt_eq {n : Int} (h : n.natAbs < 10 ^ Numeral.maxDigits) :
    dumpInt n = .ok (toString n).toList := by
  have hlength := (length_digitsOf_le_iff (by decide)).mpr h
  rw [dumpInt, if_neg (not_lt.mpr hlength)]
  cases n with
  | ofNat m => rfl
  | negSucc m =>
      have htext : (toString (Int.negSucc m)).toList = '-' :: (toString (m + 1)).toList :=
        String.toList_append
      rw [htext, decide_eq_true (Int.negSucc_lt_zero m)]
      rfl

/-! Documents. -/

mutual

/-- The document among the values that `json.loads` gives. -/
def toValue : Json → JsonValue
  | .null => .null
  | .bool b => .bool b
  | .int n => .int n
  | .float x => .float (floatOf x)
  | .str s => .str (PyStr.ofString s)
  | .list items => .list (toValues items)
  | .dict entries => .object (toEntries entries)

def toValues : List Json → List JsonValue
  | [] => []
  | x :: rest => toValue x :: toValues rest

def toEntries : List (String × Json) → List (PyStr × JsonValue)
  | [] => []
  | (key, v) :: rest => (PyStr.ofString key, toValue v) :: toEntries rest

end

theorem toValues_eq_map (items : List Json) : toValues items = items.map toValue := by
  induction items with
  | nil => rfl
  | cons x rest ih => rw [toValues, ih, List.map_cons]

theorem toEntries_eq_map (entries : List (String × Json)) :
    toEntries entries = entries.map fun entry => (PyStr.ofString entry.1, toValue entry.2) := by
  induction entries with
  | nil => rfl
  | cons entry rest ih => rw [toEntries, ih, List.map_cons]

theorem ofString_injective : Function.Injective PyStr.ofString := by
  intro s t h
  have hchars : s.toList = t.toList :=
    List.map_injective_iff.mpr (fun _ _ hchar => CodePoint.char.inj hchar) h
  exact String.toList_inj.mp hchars

mutual

/-- No document is lost. -/
theorem toValue_injective : (a b : Json) → toValue a = toValue b → a = b
  | .null, b, h => by cases b <;> first | rfl | cases h
  | .bool x, b, h => by
      cases b with
      | bool y => rw [JsonValue.bool.inj h]
      | _ => cases h
  | .int x, b, h => by
      cases b with
      | int y => rw [JsonValue.int.inj h]
      | _ => cases h
  | .float x, b, h => by
      cases b with
      | float y => rw [floatOf_injective (JsonValue.float.inj h)]
      | _ => cases h
  | .str x, b, h => by
      cases b with
      | str y => rw [ofString_injective (JsonValue.str.inj h)]
      | _ => cases h
  | .list items, b, h => by
      cases b with
      | list items' => rw [toValues_injective items items' (JsonValue.list.inj h)]
      | _ => cases h
  | .dict entries, b, h => by
      cases b with
      | dict entries' => rw [toEntries_injective entries entries' (JsonValue.object.inj h)]
      | _ => cases h

theorem toValues_injective :
    (items items' : List Json) → toValues items = toValues items' → items = items'
  | [], items', h => by
      cases items' with
      | nil => rfl
      | cons x rest => cases h
  | x :: rest, items', h => by
      cases items' with
      | nil => cases h
      | cons y rest' =>
          obtain ⟨hhead, htail⟩ := List.cons.inj h
          rw [toValue_injective x y hhead, toValues_injective rest rest' htail]

theorem toEntries_injective : (entries entries' : List (String × Json)) →
    toEntries entries = toEntries entries' → entries = entries'
  | [], entries', h => by
      cases entries' with
      | nil => rfl
      | cons entry rest => cases h
  | (key, v) :: rest, entries', h => by
      cases entries' with
      | nil => cases h
      | cons entry rest' =>
          obtain ⟨hhead, htail⟩ := List.cons.inj h
          obtain ⟨hkey, hvalue⟩ := Prod.mk.inj hhead
          rw [ofString_injective hkey, toValue_injective v entry.2 hvalue,
            toEntries_injective rest rest' htail]

end

/-! Their texts. -/

theorem separated_items (items : List Json) :
    separated (items.map fun x => (Text.dumps x).toList) = (Text.dumpsItems items).toList := by
  induction items with
  | nil => rfl
  | cons x rest ih =>
      cases rest with
      | nil => simp [separated, Text.dumpsItems]
      | cons y rest =>
          rw [Text.dumpsItems, String.toList_append, String.toList_append, ← ih]
          · simp [separated, List.intercalate]
          · simp

theorem separated_entries (entries : List (String × Json)) :
    separated (entries.map fun entry =>
      quote (PyStr.ofString entry.1) ++ (':' :: ' ' :: (Text.dumps entry.2).toList)) =
      (Text.dumpsEntries entries).toList := by
  induction entries with
  | nil => rfl
  | cons entry rest ih =>
      cases rest with
      | nil => simp [separated, Text.dumpsEntries, quoted_toList]
      | cons next rest =>
          rw [Text.dumpsEntries, String.toList_append, String.toList_append, ← ih]
          · simp [separated, List.intercalate, quoted_toList]
          · simp

mutual

/-- Both models of `json.dumps` write the same text. -/
theorem dumps_toValue : (j : Json) → ∀ {depth : Nat}, Portable depth (toValue j) →
    dumps depth (toValue j) = .ok (Text.dumps j).toList
  | .null, _, _ => rfl
  | .bool true, _, _ => rfl
  | .bool false, _, _ => rfl
  | .int n, _, h => dumpInt_eq h
  | .float x, _, _ => congrArg Except.ok (floatText_floatOf x)
  | .str s, _, _ => congrArg Except.ok (quoted_toList s).symm
  | .list items, depth, h => by
      cases depth with
      | zero => cases h
      | succ depth =>
          rw [toValue, dumps, dumpsItems_toValues items h, Text.dumps, String.toList_append,
            String.toList_append, ← separated_items]
          rfl
  | .dict entries, depth, h => by
      cases depth with
      | zero => cases h
      | succ depth =>
          rw [toValue, dumps, dumpsEntries_toEntries entries h.2, Text.dumps, String.toList_append,
            String.toList_append, ← separated_entries]
          rfl

theorem dumpsItems_toValues : (items : List Json) → ∀ {depth : Nat},
    PortableItems depth (toValues items) →
    dumpsItems depth (toValues items) = .ok (items.map fun x => (Text.dumps x).toList)
  | [], _, _ => rfl
  | x :: rest, depth, h => by
      rw [toValues, dumpsItems, dumps_toValue x h.1, dumpsItems_toValues rest h.2]
      rfl

theorem dumpsEntries_toEntries : (entries : List (String × Json)) → ∀ {depth : Nat},
    PortableEntries depth (toEntries entries) →
    dumpsEntries depth (toEntries entries) = .ok (entries.map fun entry =>
      quote (PyStr.ofString entry.1) ++ (':' :: ' ' :: (Text.dumps entry.2).toList))
  | [], _, _ => rfl
  | (key, v) :: rest, depth, h => by
      rw [toEntries, dumpsEntries, dumps_toValue v h.2.1, dumpsEntries_toEntries rest h.2.2]
      rfl

end

end Graveboards.Compression
