import Graveboards.Cache.Serialization
import Graveboards.Cache.Validation

/-!
Whether a beatmapset survives the cache: a field is read back as it was written unless it is
null where its text is taken as it is, or null at a default that its type does not allow.
-/

namespace Graveboards.Cache

open Graveboards.Library

/-- `literal_eval` and `float` read the text of the value, which is not empty. -/
def Python.Spells (py : Python) : Value → Prop
  | .null => True
  | .str _ => True
  | .int _ => True
  | .float x => py.repr (.float x) ≠ "" ∧ py.float (py.repr (.float x)) = some x
  | value => py.repr value ≠ "" ∧ py.literalEval (py.repr value) = some value

variable {py : Python} {p : Pydantic}

section Fields

def encodeAs (p : Pydantic) (encoding : Encoding) (t : Ty) (value : Value) : Value :=
  match encoding with
  | .isoformat => isoformat value
  | .modelDump => dump p t value
  | _ => value

def decodeAs (py : Python) (decoding : Decoding) (text : String) : Option Value :=
  match decoding with
  | .int => Python.unlessEmpty Python.readInt text
  | .float => Python.unlessEmpty py.readFloat text
  | .literalEval => Python.unlessEmpty py.literalEval text
  | .fromisoformat => Python.unlessEmpty (fun text => (Zoned.fromisoformat text).map .datetime) text
  | _ => some (.str text)

/-- The texts of such a type are read back as the decoding has it. Options are looked through. -/
def Ty.suits (encoding : Encoding) (decoding : Decoding) : Ty → Bool
  | .optional t => t.suits encoding decoding
  | .scalar .int => encoding = .asIs && (decoding = .int || decoding = .asIs)
  | .scalar (.intLiteral _) => encoding = .asIs && decoding = .int
  | .scalar .float => encoding = .asIs && decoding = .float
  | .scalar .bool => encoding = .asIs && decoding = .literalEval
  | .scalar .str => encoding = .asIs && decoding = .asIs
  | .scalar (.strLiteral _) => encoding = .asIs && decoding = .asIs
  | .scalar .datetime => encoding = .isoformat && decoding = .fromisoformat
  | .list _ => (encoding = .asIs || encoding = .modelDump) && decoding = .literalEval
  | .dict _ _ => encoding = .asIs && decoding = .literalEval
  | .keeping _ _ => encoding = .asIs && decoding = .literalEval
  | .model _ => encoding = .modelDump && decoding = .literalEval
  | _ => false

/-- The field has its value back after writing and reading. -/
def RoundTrips (py : Python) (p : Pydantic) (encoding : Encoding) (decoding : Decoding) (t : Ty)
    (value : Value) :
    Prop :=
  ∃ read, decodeAs py decoding (py.text (encodeAs p encoding t value)) = some read ∧
    validate p t read = some value

/-- It is read as something other than null. -/
def ReadsBack (py : Python) (p : Pydantic) (encoding : Encoding) (decoding : Decoding) (t : Ty)
    (value : Value) :
    Prop :=
  ∃ read, read ≠ .null ∧ decodeAs py decoding (py.text (encodeAs p encoding t value)) = some read ∧
    validate p t read = some value

/-- A field keeps null where null is an instance of its type and its empty text is not taken as it
is. -/
def keepsNull (decoding : Decoding) (t : Ty) : Bool :=
  decoding ≠ .asIs && decoding ≠ .beatmaps && t.takesNull

theorem unlessEmpty_of_ne {read : String → Option Value} {text : String} (h : text ≠ "") :
    Python.unlessEmpty read text = read text := if_neg h

/-- What is written by its `repr` is read back by `literal_eval`. -/
theorem decode_repr {value : Value} (htext : py.text value = py.repr value)
    (hspells : py.repr value ≠ "" ∧ py.literalEval (py.repr value) = some value) :
    decodeAs py .literalEval (py.text value) = some value := by
  rw [decodeAs, htext, unlessEmpty_of_ne hspells.1]
  exact hspells.2

theorem readInt_toString {n : Int} (h : isReadable n = true) :
    toString n ≠ "" ∧ Python.readInt (toString n) = some (.int n) := by
  have hdigits : ¬ Numeral.maxDigits < (toString n.natAbs).length := by
    have hle : (toString n.natAbs).length ≤ Numeral.maxDigits := by simpa [isReadable] using h
    omega
  have hread : Python.readInt (toString n) = some (.int n) := by
    rw [Python.readInt, Numeral.int_toString, if_neg hdigits]
    rfl
  constructor
  · intro hempty
    rw [hempty] at hread
    cases hread
  · exact hread

theorem text_null (encoding : Encoding) (t : Ty) : py.text (encodeAs p encoding t .null) = "" := by
  cases encoding with
  | modelDump => cases t <;> rfl
  | _ => rfl

variable (hp : p.Documented)
include hp

theorem readsBack_scalar {s : Scalar} {encoding : Encoding} {decoding : Decoding}
    (hsuits : (Ty.scalar s).suits encoding decoding = true) {value : Value}
    (hholds : s.holds value = true) (hspells : py.Spells (encodeAs p encoding (.scalar s) value)) :
    ReadsBack py p encoding decoding (.scalar s) value := by
  have hself : validate p (.scalar s) value = some value := if_pos hholds
  cases s with
  | int =>
      simp only [Ty.suits, Bool.and_eq_true, Bool.or_eq_true, decide_eq_true_eq] at hsuits
      obtain ⟨rfl, hdecoding⟩ := hsuits
      cases value with
      | int n =>
          obtain ⟨hne, hread⟩ := readInt_toString hholds
          rcases hdecoding with rfl | rfl
          · exact ⟨.int n, by simp, (unlessEmpty_of_ne hne).trans hread, hself⟩
          · exact ⟨.str (toString n), by simp, rfl, hp.numeral n hholds⟩
      | _ => cases hholds
  | intLiteral allowed =>
      simp only [Ty.suits, Bool.and_eq_true, decide_eq_true_eq] at hsuits
      obtain ⟨rfl, rfl⟩ := hsuits
      cases value with
      | int n =>
          have hreadable : isReadable n = true := by
            simp only [Scalar.holds, Bool.and_eq_true] at hholds
            exact hholds.2
          obtain ⟨hne, hread⟩ := readInt_toString hreadable
          exact ⟨.int n, by simp, (unlessEmpty_of_ne hne).trans hread, hself⟩
      | _ => cases hholds
  | float =>
      simp only [Ty.suits, Bool.and_eq_true, decide_eq_true_eq] at hsuits
      obtain ⟨rfl, rfl⟩ := hsuits
      cases value with
      | float x =>
          refine ⟨.float x, by simp, (unlessEmpty_of_ne hspells.1).trans ?_, hself⟩
          rw [Python.readFloat, hspells.2]
          rfl
      | _ => cases hholds
  | bool =>
      simp only [Ty.suits, Bool.and_eq_true, decide_eq_true_eq] at hsuits
      obtain ⟨rfl, rfl⟩ := hsuits
      cases value with
      | bool b => exact ⟨.bool b, by simp, decode_repr rfl hspells, hself⟩
      | _ => cases hholds
  | str =>
      simp only [Ty.suits, Bool.and_eq_true, decide_eq_true_eq] at hsuits
      obtain ⟨rfl, rfl⟩ := hsuits
      cases value with
      | str text => exact ⟨.str text, by simp, rfl, hself⟩
      | _ => cases hholds
  | strLiteral allowed =>
      simp only [Ty.suits, Bool.and_eq_true, decide_eq_true_eq] at hsuits
      obtain ⟨rfl, rfl⟩ := hsuits
      cases value with
      | str text => exact ⟨.str text, by simp, rfl, hself⟩
      | _ => cases hholds
  | datetime =>
      simp only [Ty.suits, Bool.and_eq_true, decide_eq_true_eq] at hsuits
      obtain ⟨rfl, rfl⟩ := hsuits
      cases value with
      | datetime d =>
          have hread : decodeAs py .fromisoformat d.isoformat = some (.datetime d) := by
            rw [decodeAs, unlessEmpty_of_ne d.isoformat_ne_empty, Zoned.fromisoformat_isoformat]
            rfl
          exact ⟨.datetime d, by simp, hread, hself⟩
      | _ => cases hholds
  | intOrStr => cases hsuits

/-- A value that is not null is read back as it was written. -/
theorem readsBack {encoding : Encoding} {decoding : Decoding} : (t : Ty) →
    t.suits encoding decoding = true → t.distinct = true → ∀ {value : Value}, value ≠ .null →
    Typed true t value → py.Spells (encodeAs p encoding t value) →
    ReadsBack py p encoding decoding t value
  | .scalar s, hsuits, _, value, _, htyped, hspells => readsBack_scalar hp hsuits htyped hspells
  | .optional t, hsuits, hdistinct, value, hnull, htyped, hspells => by
      have hencode : encodeAs p encoding (.optional t) value = encodeAs p encoding t value := by
        cases encoding with
        | modelDump => exact dump_optional t hnull
        | _ => rfl
      rw [hencode] at hspells
      obtain ⟨read, hne, hread, hvalid⟩ :=
        readsBack t hsuits hdistinct hnull (htyped.resolve_left hnull) hspells
      refine ⟨read, hne, ?_, ?_⟩
      · rw [hencode]
        exact hread
      · rw [validate_optional t hne]
        exact hvalid
  | .list t, hsuits, hdistinct, value, _, htyped, hspells => by
      simp only [Ty.suits, Bool.and_eq_true, Bool.or_eq_true, decide_eq_true_eq] at hsuits
      obtain ⟨hencoding, rfl⟩ := hsuits
      have hself := validate_instance (p := p) (.list t) value htyped
      have hdumped := validate_dump hp (.list t) hdistinct value htyped
      obtain ⟨items, rfl, -⟩ := htyped
      rcases hencoding with rfl | rfl
      · exact ⟨_, by simp [encodeAs], decode_repr rfl hspells, hself⟩
      · exact ⟨_, by simp [encodeAs, dump], decode_repr rfl hspells, hdumped⟩
  | .dict keys t, hsuits, _, value, _, htyped, hspells => by
      simp only [Ty.suits, Bool.and_eq_true, decide_eq_true_eq] at hsuits
      obtain ⟨rfl, rfl⟩ := hsuits
      have hself := validate_instance (p := p) (.dict keys t) value htyped
      obtain ⟨entries, rfl, -⟩ := htyped
      exact ⟨_, by simp [encodeAs], decode_repr rfl hspells, hself⟩
  | .keeping key t, hsuits, _, value, _, htyped, hspells => by
      simp only [Ty.suits, Bool.and_eq_true, decide_eq_true_eq] at hsuits
      obtain ⟨rfl, rfl⟩ := hsuits
      have hself := validate_instance (p := p) (.keeping key t) value htyped
      obtain ⟨items, rfl, -⟩ := htyped
      exact ⟨_, by simp [encodeAs], decode_repr rfl hspells, hself⟩
  | .model fields, hsuits, hdistinct, value, _, htyped, hspells => by
      simp only [Ty.suits, Bool.and_eq_true, decide_eq_true_eq] at hsuits
      obtain ⟨rfl, rfl⟩ := hsuits
      have hdumped := validate_dump hp (.model fields) hdistinct value htyped
      obtain ⟨values, rfl, -⟩ := htyped
      exact ⟨_, by simp [encodeAs, dump], decode_repr rfl hspells, hdumped⟩
  | .any, hsuits, _, _, _, _, _ => by cases hsuits

/-- A field of a suitable type has its value back, unless it is a null that is not kept. -/
theorem roundTrips_iff {encoding : Encoding} {decoding : Decoding} {t : Ty}
    (hsuits : t.suits encoding decoding = true) (hdistinct : t.distinct = true) {value : Value}
    (htyped : value ≠ .null → Typed true t value)
    (hspells : py.Spells (encodeAs p encoding t value)) :
    RoundTrips py p encoding decoding t value ↔ (value = .null → keepsNull decoding t = true) := by
  by_cases hnull : value = .null
  · subst hnull
    have hread : decodeAs py decoding "" =
        some (if decoding ≠ .asIs ∧ decoding ≠ .beatmaps then .null else .str "") := by
      cases decoding <;> rfl
    rw [RoundTrips, text_null, hread]
    simp only [Option.some.injEq, exists_eq_left', forall_const]
    split
    · next hdecoding =>
        rw [validate_null hp]
        simp [keepsNull, hdecoding]
    · next hdecoding =>
        constructor
        · intro h
          exact absurd rfl (ne_null_of_validate hp t (by simp) h)
        · intro h
          simp only [keepsNull, Bool.and_eq_true, decide_eq_true_eq] at h
          exact absurd h.1 hdecoding
  · obtain ⟨read, -, hread, hvalid⟩ := readsBack hp t hsuits hdistinct hnull (htyped hnull) hspells
    constructor
    · intro _ hfalse
      exact absurd hfalse hnull
    · intro _
      exact ⟨read, hread, hvalid⟩

end Fields

end Graveboards.Cache
