import Graveboards.Parameters.Filters

/-!
Filters in the query string: the keys and texts that a filter tree is written as, the objects
that the URI parser makes of them, and when the tree that comes out is accepted and means
what was written.
-/

namespace Graveboards.Parameters

open Graveboards.Library
open Graveboards.Search (DateTime)

/-- The declared query parameters around the filters of an endpoint. No other name begins the
key of a filter, and none is such a key. -/
structure Endpoint where
  before : List (String × Schema)
  properties : List (String × Schema)
  after : List (String × Schema)
  deepObject : String → Bool
  grammar : Schema.FilterProperties properties
  apart : ∀ other ∈ before ++ after, ¬ other.1.toList <+: "filters".toList ∧
    ¬ "filters[".toList <+: other.1.toList
  deep : deepObject "filters" = true

/-- The segments in brackets: `re.findall(r"\[([^\[\]]*)\]", k)`. `some`: a bracket is open. -/
def bracketed : Option (List Char) → List Char → Path
  | _, [] => []
  | _, '[' :: rest => bracketed (some []) rest
  | some segment, ']' :: rest => String.ofList segment :: bracketed none rest
  | none, ']' :: rest => bracketed none rest
  | some segment, c :: rest => bracketed (some (segment ++ [c])) rest
  | none, _ :: rest => bracketed none rest

/-- The nested object with one value. -/
def nest : Path → Value → Value
  | [], v => v
  | name :: rest, v => .dict [(name, nest rest v)]

/-- The value at the leaf of a deep object. -/
def leafValue (k : String) (schema : Schema) (v : List String) : Value :=
  if schema.isArray then
    match v with
    | [s] =>
        if "filters".toList.isPrefixOf k.toList then
          .list ((s.toList.splitOn ',').map fun s => .str (String.ofList s))
        else .list [.str s]
    | v => .list (v.map .str)
  else
    match v with
    | [s] => .str s
    | v => .list (v.map .str)

namespace Endpoint

variable (e : Endpoint)

def paramSchemas : List (String × Schema) :=
  e.before ++ ("filters", .object e.properties) :: e.after

/-- The last declared name that begins the key, or else what comes before its first bracket. -/
def rootKey (k : String) : String :=
  let found := (e.paramSchemas.map Prod.fst).foldl (fun found key =>
    if key.toList.isPrefixOf k.toList && k.toList.contains '[' then key else found) ""
  if found = "" then String.ofList (k.toList.takeWhile (· ≠ '[')) else found

/-- `none`: IndexError. -/
def makeDeepObject (k : String) (v : List String) : Option (String × Value × Bool) :=
  let declared := (e.paramSchemas.map Prod.fst).contains k
  let root := if declared then k else e.rootKey k
  if declared || !e.deepObject root then
    match v with
    | [] => none
    | [s] => some (root, .str s, false)
    | v => some (root, .list (v.map .str), false)
  else
    let path := bracketed none k.toList
    if path = [] then none
    else
      (((e.paramSchemas.lookup root).getD .empty).leafSchema path).map fun schema =>
        (root, .list [nest path (leafValue k schema v)], true)

end Endpoint

/-- The value of one filter, as its author means it. -/
inductive Leaf where
  | text (s : String)
  | dateTime (s : String)
  | integer (n : Int)
  | decimal (x : Numeral.Fixed)
  | boolean (b : Bool)

inductive Field where
  | scalar (l : Leaf)
  | array (items : List Leaf)

inductive Tree where
  | field (f : Field)
  | dict (entries : List (String × Tree))

namespace Leaf

/-- The usual text of the value. -/
def written : Leaf → String
  | text s => s
  | dateTime s => s
  | integer n => toString n
  | decimal x => String.ofList x.text
  | boolean b => if b then "true" else "false"

section

variable (fromisoformat : String → Option DateTime)

/-- What the leaf denotes. -/
def value : Leaf → Value
  | text s => .str s
  | dateTime s => ((fromisoformat (withOffset s)).map .datetime).getD (.str s)
  | integer n => .int n
  | decimal x => .float (toFloat (x.negative, x.magnitude))
  | boolean b => .bool b

def HasType : Leaf → ScalarType → Prop
  | text _, .string => True
  | dateTime s, .dateTime => (fromisoformat (withOffset s)).isSome = true
  | integer _, .integer => True
  | integer _, .number => True
  | decimal _, .number => True
  | boolean _, .boolean => True
  | _, _ => False

/-- The text of the leaf is not mistaken for a value of another type. -/
def Plain : Leaf → Prop
  | text s =>
      lower s ≠ "true".toList ∧ lower s ≠ "false".toList ∧ fromisoformat (withOffset s) = none ∧
        if '.' ∈ s.toList then Numeral.decimal s.toList = none else Numeral.int s.toList = none
  | dateTime _ => False
  | integer n =>
      fromisoformat (withOffset (toString n)) = none ∧
        (toString n.natAbs).length ≤ Numeral.maxDigits
  | decimal x => fromisoformat (withOffset (String.ofList x.text)) = none
  | boolean _ => True

end

end Leaf

namespace Field

/-- The query values under the field's key. -/
def texts : Field → List String
  | scalar l => [l.written]
  | array items => items.map Leaf.written

/-- What the URI parser makes of them. -/
def read : Field → Value
  | scalar l => .str l.written
  | array [l] => .list ((l.written.toList.splitOn ',').map fun s => .str (String.ofList s))
  | array items => .list (items.map fun l => .str l.written)

variable (fromisoformat : String → Option DateTime)

def value : Field → Value
  | scalar l => l.value fromisoformat
  | array items => .list (items.map (Leaf.value fromisoformat))

def HasType : Field → Schema → Prop
  | scalar l, .scalar t => l.HasType fromisoformat t
  | scalar l, .oneOf branches => ∃ t, .scalar t ∈ branches ∧ l.HasType fromisoformat t
  | array items, .array (.scalar t) => ∀ l ∈ items, l.HasType fromisoformat t
  | _, _ => False

def Plain : Field → Prop
  | scalar l => l.Plain fromisoformat
  | array items => items ≠ [] ∧ (∀ l ∈ items, l.Plain fromisoformat) ∧
      ∀ l, items = [l] → ',' ∉ l.written.toList

end Field

namespace Tree

mutual

def leaves : Tree → List (Path × Field)
  | field f => [([], f)]
  | dict entries => leavesEntries entries

def leavesEntries : List (String × Tree) → List (Path × Field)
  | [] => []
  | (name, t) :: rest => (leaves t).map (fun leaf => (name :: leaf.1, leaf.2)) ++ leavesEntries rest

end

section

variable (fromisoformat : String → Option DateTime)

mutual

/-- The tree is well-typed, and no key comes twice in an object. -/
def HasType : Tree → Schema → Prop
  | field f, schema => f.HasType fromisoformat schema
  | dict entries, schema =>
      ∃ properties, schema.resolve = some (.object properties) ∧ EntriesHaveType entries properties

def EntriesHaveType : List (String × Tree) → List (String × Schema) → Prop
  | [], _ => True
  | (name, t) :: rest, properties =>
      name ∉ rest.map Prod.fst ∧
        (∃ schema, properties.lookup name = some schema ∧ HasType t schema) ∧
        EntriesHaveType rest properties

end

end

/-- `filters[a][b]`. -/
def key (path : Path) : String :=
  String.ofList ("filters".toList ++ path.flatMap fun name => '[' :: (name.toList ++ [']']))

/-- The query parameters of the tree. A key without values is not written. -/
def parameters (t : Tree) : List (String × List String) :=
  (t.leaves.filter fun leaf => leaf.2.texts ≠ []).map fun leaf => (key leaf.1, leaf.2.texts)

end Tree

/-- The object that merging others deeply gives: it has their leaves, and no empty object
inside. The merging itself is connexion's. -/
def Merges (objects : List Value) (merged : Value) : Prop :=
  ∃ entries, merged = .dict entries ∧ Value.solidEntries entries = true ∧
    ∀ leaf, leaf ∈ Value.leavesEntries entries ↔ ∃ object ∈ objects, leaf ∈ object.leaves

/-- The filters that the parser has put together from the query string of the tree. -/
def Parsed (e : Endpoint) (t : Tree) (merged : Value) : Prop :=
  ∃ objects, (t.parameters.map fun (k, v) => e.makeDeepObject k v) =
      objects.map (fun object => some ("filters", .list [object], true)) ∧ Merges objects merged

/-- What comes out is accepted, and its leaves denote what was written. -/
def RoundTrips (fromisoformat : String → Option DateTime) (e : Endpoint) (t : Tree)
    (merged : Value) : Prop :=
  let filters := coerceFilters fromisoformat (.list [merged])
  validateFilters fromisoformat filters (.object e.properties) [] = .ok () ∧
    ∀ leaf, leaf ∈ filters.leaves ↔ leaf ∈ t.leaves.map fun leaf =>
      (leaf.1, leaf.2.value fromisoformat)

/-! The keys of filters. -/

theorem bracketed_segment {name : List Char} (h : '[' ∉ name ∧ ']' ∉ name)
    (segment rest : List Char) :
    bracketed (some segment) (name ++ ']' :: rest) =
      String.ofList (segment ++ name) :: bracketed none rest := by
  induction name generalizing segment with
  | nil => rw [List.nil_append, List.append_nil, bracketed]
  | cons c name ih =>
      have hopen : c ≠ '[' := fun heq => h.1 (heq ▸ List.mem_cons_self)
      have hclose : c ≠ ']' := fun heq => h.2 (heq ▸ List.mem_cons_self)
      have hname : '[' ∉ name ∧ ']' ∉ name :=
        ⟨fun hmem => h.1 (List.mem_cons_of_mem c hmem),
          fun hmem => h.2 (List.mem_cons_of_mem c hmem)⟩
      rw [List.cons_append, bracketed, ih hname, List.append_assoc, List.singleton_append]
      · exact fun heq => hopen heq
      · exact fun heq => hclose heq

theorem bracketed_path {path : Path} (h : ∀ name ∈ path, Schema.Writable name) :
    bracketed none (path.flatMap fun name => '[' :: (name.toList ++ [']'])) = path := by
  induction path with
  | nil => rfl
  | cons name rest ih =>
      have hname := h name List.mem_cons_self
      have hrest := ih fun name' hname' => h name' (List.mem_cons_of_mem name hname')
      rw [List.flatMap_cons, List.cons_append, bracketed, List.append_assoc, List.singleton_append,
        bracketed_segment hname, hrest, List.nil_append, String.ofList_toList]

/-- Characters before the first bracket are passed over. -/
theorem bracketed_none_append {name : List Char} (h : '[' ∉ name) (rest : List Char) :
    bracketed none (name ++ rest) = bracketed none rest := by
  induction name with
  | nil => rfl
  | cons c name ih =>
      have hopen : c ≠ '[' := fun heq => h (heq ▸ List.mem_cons_self)
      have hname : '[' ∉ name := fun hmem => h (List.mem_cons_of_mem c hmem)
      rw [List.cons_append, ← ih hname]
      by_cases hclose : c = ']'
      · rw [hclose, bracketed]
      · rw [bracketed]
        · exact fun heq => hopen heq
        · exact fun heq => hclose heq

theorem toList_key (path : Path) :
    (Tree.key path).toList = "filters".toList ++ path.flatMap fun name =>
      '[' :: (name.toList ++ [']']) :=
  String.toList_ofList

theorem bracketed_key {path : Path} (h : ∀ name ∈ path, Schema.Writable name) :
    bracketed none (Tree.key path).toList = path := by
  rw [toList_key, bracketed_none_append (by decide)]
  exact bracketed_path h

/-- The key of a filter is longer than the parameter's name. -/
theorem exists_toList_key {path : Path} (hne : path ≠ []) :
    ∃ rest, (Tree.key path).toList = "filters".toList ++ '[' :: rest := by
  rw [toList_key]
  cases path with
  | nil => exact absurd rfl hne
  | cons name rest =>
      rw [List.flatMap_cons, List.cons_append]
      exact ⟨_, rfl⟩

namespace Endpoint

variable {e : Endpoint} {path : Path}

/-- No other parameter takes the key of a filter. -/
theorem not_prefix_of_other {other : String × Schema} (h : other ∈ e.before ++ e.after)
    (hne : path ≠ []) :
    ¬ other.1.toList <+: (Tree.key path).toList := by
  intro hother
  obtain ⟨rest, hkey⟩ := exists_toList_key hne
  have hfilters : "filters".toList <+: (Tree.key path).toList := ⟨_, hkey.symm⟩
  have hopen : "filters[".toList <+: (Tree.key path).toList := by
    rw [hkey, show "filters[".toList = "filters".toList ++ ['['] by decide, List.append_cons]
    exact List.prefix_append _ _
  rcases Nat.lt_or_ge other.1.toList.length "filters[".toList.length with hlt | hge
  · exact (e.apart other h).1
      (List.prefix_of_prefix_length_le hother hfilters (Nat.le_of_lt_succ hlt))
  · exact (e.apart other h).2 (List.prefix_of_prefix_length_le hopen hother hge)

theorem not_declared (hne : path ≠ []) :
    (e.paramSchemas.map Prod.fst).contains (Tree.key path) = false := by
  rw [List.contains_eq_mem, decide_eq_false_iff_not, List.mem_map]
  rintro ⟨param, hparam, heq⟩
  have hother (h : param ∈ e.before ++ e.after) : False :=
    not_prefix_of_other h hne (heq ▸ List.prefix_refl _)
  rw [paramSchemas, List.mem_append, List.mem_cons] at hparam
  rcases hparam with hbefore | rfl | hafter
  · exact hother (List.mem_append_left _ hbefore)
  · obtain ⟨rest, hkey⟩ := exists_toList_key hne
    have hlength := congrArg List.length (congrArg String.toList heq)
    rw [hkey, List.length_append, List.length_cons] at hlength
    dsimp only at hlength
    omega
  · exact hother (List.mem_append_right _ hafter)

theorem rootKey_key (hne : path ≠ []) : e.rootKey (Tree.key path) = "filters" := by
  set step : String → String → String := fun found key =>
    if key.toList.isPrefixOf (Tree.key path).toList && (Tree.key path).toList.contains '[' then key
    else found
    with hstep
  have hskip {params : List (String × Schema)} (h : ∀ param ∈ params, param ∈ e.before ++ e.after)
      (found : String) : (params.map Prod.fst).foldl step found = found := by
    induction params with
    | nil => rfl
    | cons param rest ih =>
        have hnot : param.1.toList.isPrefixOf (Tree.key path).toList = false := by
          rw [← Bool.not_eq_true, List.isPrefixOf_iff_prefix]
          exact not_prefix_of_other (h param List.mem_cons_self) hne
        have hkept : step found param.1 = found := by
          dsimp only [step]
          rw [hnot, Bool.false_and, if_neg Bool.false_ne_true]
        rw [List.map_cons, List.foldl_cons, hkept]
        exact ih fun other hother => h other (List.mem_cons_of_mem param hother)
  obtain ⟨rest, hkey⟩ := exists_toList_key hne
  have hfilters : step "" "filters" = "filters" := by
    dsimp only [step]
    rw [hkey]
    simp
  have hfound : (e.paramSchemas.map Prod.fst).foldl step "" = "filters" := by
    rw [paramSchemas, List.map_append, List.map_cons, List.foldl_append,
      hskip fun param hparam => List.mem_append_left _ hparam, List.foldl_cons, hfilters]
    exact hskip (fun param hparam => List.mem_append_right _ hparam) _
  rw [rootKey, hfound]
  simp

theorem lookup_filters : e.paramSchemas.lookup "filters" = some (.object e.properties) := by
  have hbefore : e.before.lookup "filters" = none := by
    rw [List.lookup_eq_none_iff]
    intro param hparam
    rw [bne_iff_ne]
    intro heq
    exact (e.apart param (List.mem_append_left _ hparam)).1 (heq ▸ List.prefix_refl _)
  rw [paramSchemas, List.lookup_append, hbefore, Option.none_or, List.lookup_cons_self]

/-- What the parser makes of the key of a filter. -/
theorem makeDeepObject_key {schema : Schema} {v : List String} (hne : path ≠ [])
    (hwritable : ∀ name ∈ path, Schema.Writable name)
    (hschema : (Schema.object e.properties).leafSchema path = some schema) :
    e.makeDeepObject (Tree.key path) v =
      some ("filters", .list [nest path (leafValue (Tree.key path) schema v)], true) := by
  unfold makeDeepObject
  simp only [not_declared hne, rootKey_key hne, bracketed_key hwritable, e.deep,
    Bool.not_true, Bool.or_false, Bool.false_eq_true, if_false, if_neg hne, lookup_filters,
    Option.getD_some, hschema, Option.map_some]

end Endpoint

/-! The leaves of what is merged and coerced. -/

theorem leaves_nest {path : Path} {v : Value} (hv : v.isDict = false) :
    (nest path v).leaves = [(path, v)] := by
  induction path with
  | nil => exact Value.leaves_of_not_dict hv
  | cons name rest ih =>
      rw [nest, Value.leaves, Value.leavesEntries, Value.leavesEntries, ih]
      rfl

section Coercion

variable {fromisoformat : String → Option DateTime}

theorem isDict_castText (s : String) : (castText fromisoformat s).isDict = false := by
  unfold castText
  split
  · rfl
  · split
    · rfl
    · split
      · rfl
      · split
        · cases Numeral.decimal s.toList <;> rfl
        · cases Numeral.int s.toList <;> rfl

theorem isEmpty_castEntries (entries : List (String × Value)) :
    (castEntries fromisoformat entries).isEmpty = entries.isEmpty := by
  cases entries <;> rfl

theorem castItems_eq_map (items : List Value) :
    castItems fromisoformat items = items.map (cast fromisoformat) := by
  induction items with
  | nil => rfl
  | cons v rest ih => rw [castItems, ih, List.map_cons]

mutual

theorem leaves_cast : (v : Value) →
    (cast fromisoformat v).leaves = v.leaves.map fun leaf => (leaf.1, cast fromisoformat leaf.2)
  | .dict entries => by rw [cast, Value.leaves, Value.leaves, leaves_castEntries entries]
  | .str s => Value.leaves_of_not_dict (isDict_castText s)
  | .none | .bool _ | .int _ | .float _ | .datetime _ | .list _ => rfl

theorem leaves_castEntries : (entries : List (String × Value)) →
    Value.leavesEntries (castEntries fromisoformat entries) =
      (Value.leavesEntries entries).map fun leaf => (leaf.1, cast fromisoformat leaf.2)
  | [] => rfl
  | (key, v) :: rest => by
      rw [castEntries, Value.leavesEntries, Value.leavesEntries, leaves_cast v,
        leaves_castEntries rest, List.map_append, List.map_map, List.map_map]
      rfl

end

mutual

theorem solid_cast : (v : Value) → (cast fromisoformat v).solid = v.solid
  | .dict entries => by
      rw [cast, Value.solid, Value.solid, isEmpty_castEntries, solid_castEntries entries]
  | .str s => by
      have hv : (cast fromisoformat (.str s)).isDict = false := isDict_castText s
      cases hcast : cast fromisoformat (.str s) with
      | dict entries =>
          rw [hcast] at hv
          cases hv
      | _ => rfl
  | .none | .bool _ | .int _ | .float _ | .datetime _ | .list _ => rfl

theorem solid_castEntries : (entries : List (String × Value)) →
    Value.solidEntries (castEntries fromisoformat entries) = Value.solidEntries entries
  | [] => rfl
  | (key, v) :: rest => by
      rw [castEntries, Value.solidEntries, Value.solidEntries, solid_cast v, solid_castEntries rest]

end

end Coercion

/-! Texts that are read back. -/

section Texts

variable {fromisoformat : String → Option DateTime}

/-- A number in digits is no boolean. -/
theorem lower_ne_of_numeral {s : String} {word : List Char} (hword : 'e' ∈ word)
    (h : ∀ c ∈ s.toList, c.isDigit = true ∨ c = '-' ∨ c = '.') : lower s ≠ word := by
  intro heq
  rw [← heq, lower, List.mem_map] at hword
  obtain ⟨c, hc, hlower⟩ := hword
  rcases h c hc with hdigit | rfl | rfl
  · have hrange := Numeral.range_of_isDigit hdigit
    have hkept : c.toLower = c := by
      delta Char.toLower
      apply dif_neg
      rintro ⟨hA, -⟩
      have hA' : 65 ≤ c.toNat := hA
      omega
    rw [hkept] at hlower
    subst hlower
    exact absurd hdigit (by decide)
  · exact absurd hlower (by decide)
  · exact absurd hlower (by decide)

theorem toString_int_cases (n : Int) {c : Char} (h : c ∈ (toString n).toList) :
    c.isDigit = true ∨ c = '-' := by
  cases n with
  | ofNat m => exact .inl (Numeral.isDigit_of_mem_toString (n := m) h)
  | negSucc m =>
      have htext : (toString (Int.negSucc m)).toList = '-' :: (toString (m + 1)).toList := by
        rw [show toString (Int.negSucc m) = "-" ++ toString (m + 1) from rfl, String.toList_append]
        rfl
      rw [htext, List.mem_cons] at h
      exact h.symm.imp_left Numeral.isDigit_of_mem_toString

theorem castText_of_date {s : String} (h : (fromisoformat (withOffset s)).isSome = true) :
    ∀ s', castText fromisoformat s ≠ .str s' := by
  obtain ⟨d, hd⟩ := Option.isSome_iff_exists.mp h
  intro s'
  unfold castText
  rw [hd]
  split
  · simp
  · split
    · simp
    · simp

theorem castText_text_iff {s : String} :
    castText fromisoformat s = .str s ↔ (Leaf.text s).Plain fromisoformat := by
  unfold castText Leaf.Plain
  split
  · simp_all
  · split
    · simp_all
    · split
      · simp_all
      · split
        · cases hdecimal : Numeral.decimal s.toList <;> simp_all
        · cases hint : Numeral.int s.toList <;> simp_all

theorem castText_integer_iff {s : String} {n : Int} (hs : s.toList = (toString n).toList) :
    castText fromisoformat s = .int n ↔
      fromisoformat (withOffset s) = none ∧ (toString n.natAbs).length ≤ Numeral.maxDigits := by
  have hchars : ∀ c ∈ s.toList, c.isDigit = true ∨ c = '-' ∨ c = '.' := by
    rw [hs]
    intro c hc
    rcases toString_int_cases n hc with hdigit | rfl
    · exact .inl hdigit
    · exact .inr (.inl rfl)
  have hpoint : '.' ∉ s.toList := by
    rw [hs]
    intro hc
    rcases toString_int_cases n hc with hdigit | heq
    · exact absurd hdigit (by decide)
    · exact absurd heq (by decide)
  unfold castText
  rw [if_neg (lower_ne_of_numeral (by decide) hchars),
    if_neg (lower_ne_of_numeral (by decide) hchars), if_neg hpoint, hs, Numeral.int_toString]
  cases fromisoformat (withOffset s) with
  | some d => simp
  | none =>
      rcases Nat.lt_or_ge Numeral.maxDigits (toString n.natAbs).length with hlong | hshort
      · rw [if_pos hlong]
        exact ⟨fun heq => (by cases heq), fun hplain => by omega⟩
      · rw [if_neg (by omega)]
        exact ⟨fun _ => ⟨rfl, hshort⟩, fun _ => rfl⟩

theorem castText_decimal_iff {s : String} {x : Numeral.Fixed} (hs : s.toList = x.text) :
    castText fromisoformat s = .float (toFloat (x.negative, x.magnitude)) ↔
      fromisoformat (withOffset s) = none := by
  have hchars : ∀ c ∈ s.toList, c.isDigit = true ∨ c = '-' ∨ c = '.' := by
    rw [hs]
    exact fun c hc => x.cases_of_mem_text hc
  have hpoint : '.' ∈ s.toList := by
    rw [hs]
    exact x.point_mem_text
  unfold castText
  rw [if_neg (lower_ne_of_numeral (by decide) hchars),
    if_neg (lower_ne_of_numeral (by decide) hchars), if_pos hpoint, hs, x.decimal_text]
  cases fromisoformat (withOffset s) with
  | some d => simp
  | none => simp

theorem castText_boolean (b : Bool) :
    castText fromisoformat (Leaf.boolean b).written = .bool b := by
  cases b with
  | true => exact if_pos rfl
  | false => exact (if_neg (by decide)).trans (if_pos rfl)

/-- The text of a leaf is cast to what the leaf denotes, and passes for its type, exactly if
it is plain. -/
theorem Leaf.plain_iff {l : Leaf} {t : ScalarType} (h : l.HasType fromisoformat t) :
    castText fromisoformat l.written = l.value fromisoformat ∧
      t.Admits fromisoformat (castText fromisoformat l.written) ↔ l.Plain fromisoformat := by
  -- A value of the declared type is admitted, so only dates need the second half.
  have hdeclared (hdeclares : t.Declares fromisoformat (l.value fromisoformat))
      (hcast : castText fromisoformat l.written = l.value fromisoformat ↔ l.Plain fromisoformat) :
      castText fromisoformat l.written = l.value fromisoformat ∧
        t.Admits fromisoformat (castText fromisoformat l.written) ↔ l.Plain fromisoformat := by
    rw [← hcast]
    constructor
    · exact fun hboth => hboth.1
    · intro heq
      constructor
      · exact heq
      · rw [heq]
        exact .inl hdeclares
  cases l with
  | text s =>
      apply hdeclared
      · cases t with
        | string => trivial
        | _ => exact h.elim
      · exact castText_text_iff
  | dateTime s =>
      cases t with
      | dateTime =>
          constructor
          · rintro ⟨-, hadmits⟩
            rw [written] at hadmits
            cases hcast : castText fromisoformat s with
            | str s' => exact castText_of_date h s' hcast
            | _ =>
                rw [hcast] at hadmits
                rcases hadmits with hdeclares | hcounts
                · exact hdeclares
                · cases hcounts.1
          · exact fun hplain => hplain.elim
      | _ => exact h.elim
  | integer n =>
      apply hdeclared
      · cases t with
        | integer => trivial
        | number => trivial
        | _ => exact h.elim
      · exact castText_integer_iff rfl
  | decimal x =>
      apply hdeclared
      · cases t with
        | number => trivial
        | _ => exact h.elim
      · exact castText_decimal_iff String.toList_ofList
  | boolean b =>
      apply hdeclared
      · cases t with
        | boolean => trivial
        | _ => exact h.elim
      · rw [castText_boolean]
        exact ⟨fun _ => trivial, fun _ => rfl⟩

theorem map_cast_written (items : List Leaf) :
    castItems fromisoformat (items.map fun l => .str l.written) =
      items.map fun l => castText fromisoformat l.written := by
  rw [castItems_eq_map, List.map_map]
  rfl

theorem Field.holds_scalar {l : Leaf} {schema : Schema} (hschema : schema.Filter)
    (h : (scalar l).HasType fromisoformat schema) :
    ∃ t, l.HasType fromisoformat t ∧ ∀ v, schema.Holds (ScalarType.Admits fromisoformat) v ↔
      t.Admits fromisoformat v := by
  cases schema with
  | scalar t => exact ⟨t, h, fun _ => Iff.rfl⟩
  | array items => exact h.elim
  | object properties => exact h.elim
  | oneOf branches =>
      obtain ⟨t, ht, htype⟩ := h
      refine ⟨t, htype, fun v => ?_⟩
      obtain ⟨t', properties, -, -, rfl | rfl⟩ := Schema.filter_oneOf hschema
      all_goals
        have heq : t = t' := by simpa using ht
        subst heq
        simp [Schema.Holds]

theorem Field.holds_array {items : List Leaf} {schema : Schema}
    (h : (array items).HasType fromisoformat schema) :
    ∃ t, schema = .array (.scalar t) ∧ ∀ l ∈ items, l.HasType fromisoformat t := by
  cases schema with
  | array schema =>
      cases schema with
      | scalar t => exact ⟨t, rfl, h⟩
      | _ => exact h.elim
  | _ => exact h.elim

/-- A lone text is split at its commas. -/
theorem map_splitOn_eq_iff {s : String} {f : String → Value} {v : Value} :
    ((s.toList.splitOn ',').map fun piece => f (String.ofList piece)) = [v] ↔
      ',' ∉ s.toList ∧ f s = v := by
  by_cases hcomma : ',' ∈ s.toList
  · obtain ⟨before, after, hsplit⟩ := List.append_of_mem hcomma
    have hlength : 2 ≤ (s.toList.splitOn ',').length := by
      rw [hsplit, List.splitOn_append_cons_self, List.length_append]
      have hbefore := List.length_pos_iff.mpr (List.splitOn_ne_nil ',' before)
      have hafter := List.length_pos_iff.mpr (List.splitOn_ne_nil ',' after)
      omega
    constructor
    · intro heq
      have := congrArg List.length heq
      rw [List.length_map, List.length_singleton] at this
      omega
    · exact fun hboth => absurd hcomma hboth.1
  · rw [List.splitOn_eq_singleton hcomma, List.map_singleton, String.ofList_toList]
    simp [hcomma]

theorem Field.cast_read_array_iff {items : List Leaf} :
    cast fromisoformat (read (array items)) = value fromisoformat (array items) ↔
      (items.map fun l => castText fromisoformat l.written) = items.map (Leaf.value fromisoformat) ∧
        ∀ l, items = [l] → ',' ∉ l.written.toList := by
  match items with
  | [] => simp [read, value, cast, castItems]
  | [l] =>
      have hcast :
          castItems fromisoformat
          ((l.written.toList.splitOn ',').map fun s => .str (String.ofList s)) =
          (l.written.toList.splitOn ',').map fun s => castText fromisoformat (String.ofList s) := by
        rw [castItems_eq_map, List.map_map]
        rfl
      rw [read, value, cast, hcast, Value.list.injEq, List.map_singleton, List.map_singleton,
        map_splitOn_eq_iff, List.singleton_inj, and_comm, and_congr_right_iff]
      intro _
      constructor
      · rintro hcomma l' heq
        obtain rfl := List.singleton_inj.mp heq
        exact hcomma
      · exact fun hlone => hlone l rfl
  | l :: l' :: rest =>
      rw [read, value, cast, map_cast_written, Value.list.injEq]
      · simp
      · simp

/-- What is read of a field is what it denotes, and is admitted, exactly if the field is plain. -/
theorem Field.plain_iff {f : Field} {schema : Schema} (hschema : schema.Filter)
    (h : f.HasType fromisoformat schema) :
    f.texts ≠ [] ∧ cast fromisoformat f.read = f.value fromisoformat ∧
      schema.Holds (ScalarType.Admits fromisoformat) (cast fromisoformat f.read) ↔
        f.Plain fromisoformat := by
  cases f with
  | scalar l =>
      obtain ⟨t, htype, hholds⟩ := Field.holds_scalar hschema h
      rw [hholds]
      have hleaf := Leaf.plain_iff htype
      constructor
      · rintro ⟨-, hread⟩
        exact hleaf.mp hread
      · intro hplain
        constructor
        · exact List.cons_ne_nil _ _
        · exact hleaf.mpr hplain
  | array items =>
      obtain ⟨t, rfl, htypes⟩ := Field.holds_array h
      -- Without a comma in a lone text, the items are cast one by one.
      have hitems : (items.map fun l => castText fromisoformat l.written) =
          items.map (Leaf.value fromisoformat) ∧
          (∀ l ∈ items, t.Admits fromisoformat (castText fromisoformat l.written)) ↔
          ∀ l ∈ items, l.Plain fromisoformat := by
        rw [List.map_inj_left, ← forall₂_and]
        exact forall₂_congr fun l hl => Leaf.plain_iff (htypes l hl)
      rw [Field.cast_read_array_iff]
      constructor
      · rintro ⟨hne, ⟨hcasts, hlone⟩, hholds⟩
        rw [Field.cast_read_array_iff.mpr ⟨hcasts, hlone⟩, value, ← hcasts, Schema.Holds,
          List.forall_mem_map] at hholds
        exact ⟨fun hnil => hne (List.map_eq_nil_iff.mpr hnil), hitems.mp ⟨hcasts, hholds⟩, hlone⟩
      · rintro ⟨hne, hplain, hlone⟩
        obtain ⟨hcasts, hadmits⟩ := hitems.mpr hplain
        refine ⟨fun hnil => hne (List.map_eq_nil_iff.mp hnil), ⟨hcasts, hlone⟩, ?_⟩
        rw [Field.cast_read_array_iff.mpr ⟨hcasts, hlone⟩, value, ← hcasts, Schema.Holds,
          List.forall_mem_map]
        exact hadmits

theorem leafValue_texts {f : Field} {schema : Schema} (path : Path)
    (h : f.HasType fromisoformat schema) :
    leafValue (Tree.key path) schema f.texts = f.read := by
  cases f with
  | scalar l =>
      have hscalar : schema.isArray = false := by
        cases schema with
        | array items => exact h.elim
        | _ => rfl
      unfold leafValue
      rw [hscalar]
      rfl
  | array items =>
      obtain ⟨t, rfl, -⟩ := Field.holds_array h
      have hprefix : "filters".toList.isPrefixOf (Tree.key path).toList = true := by
        rw [List.isPrefixOf_iff_prefix, toList_key]
        exact List.prefix_append _ _
      unfold leafValue
      rw [Schema.isArray, if_pos rfl]
      match items with
      | [] => rfl
      | [l] =>
          simp only [Field.texts, List.map_singleton, hprefix, if_true]
          rfl
      | l :: l' :: rest => simp [Field.texts, Field.read]

theorem isDict_read (f : Field) : f.read.isDict = false := by
  match f with
  | .scalar l => rfl
  | .array [] => rfl
  | .array [l] => rfl
  | .array (l :: l' :: rest) => rfl

end Texts

/-! The leaves of a well-typed tree. -/

namespace Tree

variable {fromisoformat : String → Option DateTime}

theorem cons_of_mem_leavesEntries {entries : List (String × Tree)} {leaf : Path × Field}
    (h : leaf ∈ leavesEntries entries) :
    ∃ entry ∈ entries, ∃ leaf' ∈ entry.2.leaves, leaf = (entry.1 :: leaf'.1, leaf'.2) := by
  induction entries with
  | nil => cases h
  | cons entry rest ih =>
      rw [leavesEntries, List.mem_append, List.mem_map] at h
      rcases h with ⟨leaf', hleaf', rfl⟩ | hrest
      · exact ⟨entry, List.mem_cons_self, leaf', hleaf', rfl⟩
      · obtain ⟨entry', hentry', hleaf⟩ := ih hrest
        exact ⟨entry', List.mem_cons_of_mem entry hentry', hleaf⟩

/-- What is known of a leaf: its path can be written, and leads to a schema of its type. -/
def Sits (fromisoformat : String → Option DateTime) (schema : Schema) (leaf : Path × Field) :
    Prop :=
  (∀ name ∈ leaf.1, Schema.Writable name) ∧
    ∃ schema', schema.leafSchema leaf.1 = some schema' ∧ schema'.Filter ∧
    leaf.2.HasType fromisoformat schema'

theorem properties_of_resolve {schema : Schema} {properties : List (String × Schema)}
    (h : schema.Filter) (hresolve : schema.resolve = some (.object properties)) :
    Schema.FilterProperties properties := by
  cases schema with
  | object properties' =>
      obtain rfl := Schema.object.inj (Option.some.inj hresolve)
      rwa [Schema.Filter] at h
  | oneOf branches =>
      obtain ⟨t, properties', -, hproperties, rfl | rfl⟩ := Schema.filter_oneOf h
      all_goals
        obtain rfl := Schema.object.inj (Option.some.inj hresolve)
        exact hproperties
  | _ => cases hresolve

mutual

theorem sits_of_hasType :
    (t : Tree) → {schema : Schema} → schema.Filter → t.HasType fromisoformat schema →
    ∀ leaf ∈ t.leaves, Sits fromisoformat schema leaf
  | field f, schema, hschema, h, leaf, hleaf => by
      rw [HasType] at h
      rw [leaves, List.mem_singleton] at hleaf
      subst hleaf
      exact ⟨fun _ hname => absurd hname List.not_mem_nil, schema, rfl, hschema, h⟩
  | dict entries, schema, hschema, h, leaf, hleaf => by
      rw [HasType] at h
      obtain ⟨properties, hresolve, hentries⟩ := h
      rw [leaves] at hleaf
      have hsits :=
        sits_of_entries entries (properties_of_resolve hschema hresolve) hentries leaf hleaf
      obtain ⟨entry, -, leaf', -, rfl⟩ := cons_of_mem_leavesEntries hleaf
      refine ⟨hsits.1, ?_⟩
      obtain ⟨schema', hpath, hrest⟩ := hsits.2
      refine ⟨schema', ?_, hrest⟩
      rw [Schema.leafSchema, hresolve]
      exact hpath

theorem sits_of_entries : (entries : List (String × Tree)) → {properties : List (String × Schema)} →
    Schema.FilterProperties properties → EntriesHaveType fromisoformat entries properties →
    ∀ leaf ∈ leavesEntries entries, Sits fromisoformat (.object properties) leaf
  | [], _, _, _, _, hleaf => absurd hleaf List.not_mem_nil
  | (name, t) :: rest, properties, hproperties, h, leaf, hleaf => by
      rw [EntriesHaveType] at h
      obtain ⟨-, ⟨schema, hlookup, htype⟩, hrest⟩ := h
      rw [leavesEntries, List.mem_append, List.mem_map] at hleaf
      rcases hleaf with ⟨leaf', hleaf', rfl⟩ | hleaf
      · obtain ⟨hname, hschema⟩ := Schema.filter_of_lookup hproperties hlookup
        obtain ⟨hwritable, schema', hpath, hsits⟩ := sits_of_hasType t hschema htype leaf' hleaf'
        constructor
        · exact List.forall_mem_cons.mpr ⟨hname, hwritable⟩
        · refine ⟨schema', ?_, hsits⟩
          rw [Schema.leafSchema_object, hlookup]
          exact hpath
      · exact sits_of_entries rest hproperties hrest leaf hleaf

end

mutual

/-- A path leads to one field. -/
theorem leaves_unique : (t : Tree) → {schema : Schema} → t.HasType fromisoformat schema →
    ∀ path f g, (path, f) ∈ t.leaves → (path, g) ∈ t.leaves → f = g
  | field f', _, _, path, f, g, hf, hg => by
      rw [leaves, List.mem_singleton] at hf hg
      rw [(Prod.mk.inj hf).2, (Prod.mk.inj hg).2]
  | dict entries, schema, h, path, f, g, hf, hg => by
      rw [HasType] at h
      obtain ⟨properties, -, hentries⟩ := h
      rw [leaves] at hf hg
      exact leavesEntries_unique entries hentries path f g hf hg

theorem leavesEntries_unique :
    (entries : List (String × Tree)) → {properties : List (String × Schema)} →
    EntriesHaveType fromisoformat entries properties →
    ∀ path f g, (path, f) ∈ leavesEntries entries → (path, g) ∈ leavesEntries entries → f = g
  | [], _, _, _, _, _, hf, _ => absurd hf List.not_mem_nil
  | (name, t) :: rest, properties, h, path, f, g, hf, hg => by
      rw [EntriesHaveType] at h
      obtain ⟨hnew, ⟨schema, -, htype⟩, hrest⟩ := h
      -- A path that starts with the name is not one of the rest.
      have hapart {leaf : Path × Field} {path' : Path} (hleaf : leaf ∈ leavesEntries rest)
          (hpath : leaf.1 = name :: path') : False := by
        obtain ⟨entry, hentry, leaf', -, rfl⟩ := cons_of_mem_leavesEntries hleaf
        obtain ⟨rfl, -⟩ := List.cons_eq_cons.mp hpath
        exact hnew (List.mem_map_of_mem hentry)
      rw [leavesEntries, List.mem_append, List.mem_map] at hf hg
      rcases hf with ⟨leaf, hleaf, hf⟩ | hf
      · rcases hg with ⟨leaf', hleaf', hg⟩ | hg
        · obtain ⟨rfl, rfl⟩ := Prod.mk.inj hf
          obtain ⟨hpath, rfl⟩ := Prod.mk.inj hg
          obtain ⟨-, hpath⟩ := List.cons_eq_cons.mp hpath
          exact leaves_unique t htype leaf.1 leaf.2 leaf'.2 hleaf (hpath ▸ hleaf')
        · exact (hapart hg (Prod.mk.inj hf).1.symm).elim
      · rcases hg with ⟨leaf', hleaf', hg⟩ | hg
        · exact (hapart hf (Prod.mk.inj hg).1.symm).elim
        · exact leavesEntries_unique rest hrest path f g hf hg

end

end Tree

/-! The tree that comes out. -/

section Meaning

variable {fromisoformat : String → Option DateTime} {e : Endpoint} {t : Tree} {merged : Value}

theorem parameters_objects (htype : t.HasType fromisoformat (.object e.properties)) :
    (t.parameters.map fun (k, v) => e.makeDeepObject k v) =
      ((t.leaves.filter fun leaf => leaf.2.texts ≠ []).map fun leaf => nest leaf.1 leaf.2.read).map
        fun object => some ("filters", .list [object], true) := by
  have hschema : Schema.Filter (.object e.properties) := by
    rw [Schema.Filter]
    exact e.grammar
  rw [Tree.parameters, List.map_map, List.map_map, List.map_inj_left]
  intro leaf hleaf
  have hmem := List.mem_of_mem_filter hleaf
  obtain ⟨hwritable, schema, hpath, -, hfield⟩ := Tree.sits_of_hasType t hschema htype leaf hmem
  have hne : leaf.1 ≠ [] := by
    intro hnil
    rw [hnil] at hpath
    obtain rfl := Option.some.inj hpath
    cases hvalue : leaf.2 <;> (rw [hvalue] at hfield; exact hfield.elim)
  dsimp only [Function.comp]
  rw [e.makeDeepObject_key hne hwritable hpath, leafValue_texts leaf.1 hfield]

/-- The leaves that come out are those that were written, read and cast one by one. -/
theorem mem_leaves_of_parsed (htype : t.HasType fromisoformat (.object e.properties))
    (hparsed : Parsed e t merged) :
    ∃ entries, coerceFilters fromisoformat (.list [merged]) = .dict entries ∧
    Value.solidEntries entries = true ∧
      ∀ leaf, leaf ∈ Value.leavesEntries entries ↔
        ∃ written ∈ t.leaves, written.2.texts ≠ [] ∧
        leaf = (written.1, cast fromisoformat written.2.read) := by
  obtain ⟨objects, hobjects, entries, rfl, hsolid, hleaves⟩ := hparsed
  rw [parameters_objects htype] at hobjects
  have hinjective :
      Function.Injective fun object : Value => some ("filters", Value.list [object], true) := by
    intro a b heq
    simpa using heq
  obtain rfl := List.map_injective_iff.mpr hinjective hobjects
  refine ⟨castEntries fromisoformat entries, rfl, ?_, ?_⟩
  · rw [solid_castEntries, hsolid]
  · intro leaf
    rw [leaves_castEntries, List.mem_map]
    constructor
    · rintro ⟨read, hread, rfl⟩
      obtain ⟨object, hobject, hread⟩ := (hleaves read).mp hread
      obtain ⟨written, hwritten, rfl⟩ := List.mem_map.mp hobject
      rw [leaves_nest (isDict_read written.2), List.mem_singleton] at hread
      obtain ⟨hmem, hne⟩ := List.mem_filter.mp hwritten
      exact ⟨written, hmem, by simpa using hne, by rw [hread]⟩
    · rintro ⟨written, hmem, hne, rfl⟩
      refine ⟨(written.1, written.2.read),
        (hleaves _).mpr ⟨nest written.1 written.2.read, ?_, ?_⟩, rfl⟩
      · exact List.mem_map_of_mem (f := fun leaf : Path × Field => nest leaf.1 leaf.2.read)
          (List.mem_filter.mpr ⟨hmem, by simpa using hne⟩)
      · rw [leaves_nest (isDict_read written.2)]
        exact List.mem_singleton_self _

/-- A tree comes through exactly if all of its fields are plain. -/
theorem roundTrips_iff_plain (htype : t.HasType fromisoformat (.object e.properties))
    (hparsed : Parsed e t merged) :
    RoundTrips fromisoformat e t merged ↔ ∀ leaf ∈ t.leaves, leaf.2.Plain fromisoformat := by
  have hschema : Schema.Filter (.object e.properties) := by
    rw [Schema.Filter]
    exact e.grammar
  have hsits := Tree.sits_of_hasType t hschema htype
  obtain ⟨entries, hfilters, hsolid, hleaves⟩ := mem_leaves_of_parsed htype hparsed
  have hagrees :
      Agrees fromisoformat (validateEntries fromisoformat entries e.properties [] = .ok ())
      (Value.solidEntries entries = true) (Value.leavesEntries entries) (.object e.properties) :=
    validateEntries_agrees entries [] e.grammar
  rw [RoundTrips, hfilters, Value.leaves]
  constructor
  · rintro ⟨haccepted, hsame⟩ leaf hleaf
    have hfits := hagrees.1 haccepted
    obtain ⟨-, schema, hpath, hfilter, hfield⟩ := hsits leaf hleaf
    have hout := (hsame (leaf.1, leaf.2.value fromisoformat)).mpr
      (List.mem_map_of_mem (f := fun leaf : Path × Field => (leaf.1, leaf.2.value fromisoformat))
        hleaf)
    obtain ⟨written, hwritten, hne, heq⟩ := (hleaves _).mp hout
    obtain ⟨hpaths, hvalue⟩ := Prod.mk.inj heq
    have hsame : leaf.2 = written.2 :=
      Tree.leaves_unique t htype leaf.1 leaf.2 written.2 hleaf (hpaths ▸ hwritten)
    obtain ⟨schema', hpath', hholds⟩ := hfits _ hout
    rw [hpath] at hpath'
    obtain rfl := Option.some.inj hpath'
    apply (Field.plain_iff hfilter hfield).mp
    rw [hsame] at hvalue ⊢
    rw [hsame, hvalue] at hholds
    exact ⟨hne, hvalue.symm, hholds⟩
  · intro hplain
    have hread {leaf : Path × Field} (hleaf : leaf ∈ t.leaves) :
        leaf.2.texts ≠ [] ∧ cast fromisoformat leaf.2.read = leaf.2.value fromisoformat ∧
          Fits fromisoformat (.object e.properties) (leaf.1, cast fromisoformat leaf.2.read) := by
      obtain ⟨-, schema, hpath, hfilter, hfield⟩ := hsits leaf hleaf
      obtain ⟨hne, hvalue, hholds⟩ := (Field.plain_iff hfilter hfield).mpr (hplain leaf hleaf)
      exact ⟨hne, hvalue, schema, hpath, hholds⟩
    constructor
    · apply hagrees.2 hsolid
      intro leaf hleaf
      obtain ⟨written, hwritten, -, rfl⟩ := (hleaves leaf).mp hleaf
      exact (hread hwritten).2.2
    · intro leaf
      rw [hleaves, List.mem_map]
      constructor
      · rintro ⟨written, hwritten, -, rfl⟩
        exact ⟨written, hwritten, by rw [(hread hwritten).2.1]⟩
      · rintro ⟨written, hwritten, rfl⟩
        exact ⟨written, hwritten, (hread hwritten).1, by rw [(hread hwritten).2.1]⟩

end Meaning

/-- The leaf has a declared type. -/
def Declared (fromisoformat : String → Option DateTime) (schema : Schema) (leaf : Path × Value) :
    Prop :=
  ∃ schema', schema.leafSchema leaf.1 = some schema' ∧
    schema'.Holds (ScalarType.Declares fromisoformat) leaf.2

/-- A bool stands for a number at the leaf. -/
def Counted (schema : Schema) (leaf : Path × Value) : Prop :=
  ∃ schema', schema.leafSchema leaf.1 = some schema' ∧ schema'.Counts leaf.2

section Accepted

variable {fromisoformat : String → Option DateTime}

theorem Schema.resolve_filter {schema : Schema} (h : schema.Filter) :
    ∃ schema', schema.resolve = some schema' ∧ FilterProperties schema'.properties := by
  cases schema with
  | object properties =>
      rw [Filter] at h
      exact ⟨_, rfl, h⟩
  | oneOf branches =>
      obtain ⟨t, properties, -, hproperties, rfl | rfl⟩ := filter_oneOf h
      all_goals exact ⟨_, rfl, hproperties⟩
  | scalar t => exact ⟨_, rfl, trivial⟩
  | array items => exact ⟨_, rfl, trivial⟩

/-- Paths lead to schemas of filters, or out of the schema. -/
theorem Schema.filter_of_leafSchema {schema schema' : Schema} {path : Path} (h : schema.Filter)
    (hpath : schema.leafSchema path = some schema') : schema'.Filter ∨ schema' = empty := by
  induction path generalizing schema with
  | nil =>
      obtain rfl := Option.some.inj hpath
      exact .inl h
  | cons name rest ih =>
      obtain ⟨resolved, hresolved, hproperties⟩ := resolve_filter h
      rw [leafSchema, hresolved, Option.bind_some] at hpath
      cases hlookup : resolved.properties.lookup name with
      | none =>
          rw [hlookup, Option.getD_none, leafSchema_empty] at hpath
          exact .inr (Option.some.inj hpath).symm
      | some child =>
          rw [hlookup] at hpath
          exact ih (filter_of_lookup hproperties hlookup).2 hpath

/-- Of what a leaf admits, the declared values are those without a bool for a number. -/
theorem Schema.declares_iff_not_counts {schema : Schema} {v : Value} (h : schema.Filter)
    (hadmits : schema.Holds (ScalarType.Admits fromisoformat) v) :
    schema.Holds (ScalarType.Declares fromisoformat) v ↔ ¬ schema.Counts v := by
  cases schema with
  | scalar t => exact ScalarType.declares_iff_not_counts hadmits
  | array items =>
      rw [Filter] at h
      obtain ⟨t, rfl, -⟩ := h
      cases v with
      | list items =>
          simp only [Holds, Counts, not_exists, not_and] at hadmits ⊢
          exact forall₂_congr fun v hv => ScalarType.declares_iff_not_counts (hadmits v hv)
      | _ => exact hadmits.elim
  | object properties => exact hadmits.elim
  | oneOf branches =>
      obtain ⟨t, properties, -, -, rfl | rfl⟩ := filter_oneOf h
      all_goals
        simp only [Holds, Counts, List.mem_cons, List.not_mem_nil, or_false, false_or, reduceCtorEq,
          scalar.injEq, exists_eq_left] at hadmits ⊢
        exact ScalarType.declares_iff_not_counts hadmits

/-- An accepted tree has values of the declared types, except where a bool stands for a number. -/
theorem declared_iff_not_counted (e : Endpoint) {filters : Value}
    (haccepted : validateFilters fromisoformat filters (.object e.properties) [] = .ok ()) :
    (∀ leaf ∈ filters.leaves, Declared fromisoformat (.object e.properties) leaf) ↔
      ∀ leaf ∈ filters.leaves, ¬ Counted (.object e.properties) leaf := by
  have hschema : Schema.Filter (.object e.properties) := by
    rw [Schema.Filter]
    exact e.grammar
  cases filters with
  | dict entries =>
      have hfits := (validateEntries_agrees entries [] e.grammar).1 haccepted
      rw [Value.leaves]
      apply forall₂_congr
      intro leaf hleaf
      obtain ⟨schema, hpath, hholds⟩ := hfits leaf hleaf
      have hfilter : schema.Filter := by
        rcases Schema.filter_of_leafSchema hschema hpath with hfilter | rfl
        · exact hfilter
        · exact absurd hholds ScalarType.not_admits_unknown
      simp only [Declared, Counted, hpath, Option.some.injEq, exists_eq_left']
      exact Schema.declares_iff_not_counts hfilter hholds
  | _ => cases haccepted

end Accepted

/-- Filters mean what they say exactly if no field's text is mistaken for something else, and
what is accepted has the declared types exactly if no bool stands for a number. -/
theorem filters_meaning (fromisoformat : String → Option DateTime) (e : Endpoint) :
    (∀ (t : Tree) (merged : Value), t.HasType fromisoformat (.object e.properties) →
      Parsed e t merged →
      (RoundTrips fromisoformat e t merged ↔ ∀ leaf ∈ t.leaves, leaf.2.Plain fromisoformat)) ∧
    ∀ filters : Value, validateFilters fromisoformat filters (.object e.properties) [] = .ok () →
      ((∀ leaf ∈ filters.leaves, Declared fromisoformat (.object e.properties) leaf) ↔
        ∀ leaf ∈ filters.leaves, ¬ Counted (.object e.properties) leaf) :=
  ⟨fun _ _ htype hparsed => roundTrips_iff_plain htype hparsed,
    fun _ haccepted => declared_iff_not_counted e haccepted⟩

/-- An endpoint whose filters are a name and a number of maps. -/
def profiles : Endpoint :=
  { before := [("limit", .scalar .integer)]
    properties :=
      [("name", .oneOf [.object [("eq", .scalar .string)], .scalar .string]),
        ("maps", .scalar .integer)]
    after := []
    deepObject := fun name => name = "filters"
    grammar := by
      simp [Schema.FilterProperties, Schema.Filter, Schema.Writable, ScalarType.isFilter]
    apart := by decide
    deep := by decide }

/-- Both fields are filtered. -/
def named (s : String) : Tree :=
  .dict [("name", .dict [("eq", .field (.scalar (.text s)))]),
    ("maps", .field (.scalar (.integer 3)))]

/-- What the parser puts together for it. -/
def namedObject (s : String) : Value := .dict [("maps", .str "3"), ("name", .dict [("eq", .str s)])]

theorem named_hasType (s : String) :
    (named s).HasType (fun _ => none) (.object profiles.properties) := by
  have hname : Tree.HasType (fun _ => none) (.dict [("eq", .field (.scalar (.text s)))])
      (.oneOf [.object [("eq", .scalar .string)], .scalar .string]) := by
    rw [Tree.HasType]
    refine ⟨[("eq", .scalar .string)], rfl, ?_⟩
    rw [Tree.EntriesHaveType]
    refine ⟨List.not_mem_nil, ⟨.scalar .string, rfl, ?_⟩, trivial⟩
    rw [Tree.HasType]
    trivial
  rw [named, Tree.HasType]
  refine ⟨_, rfl, ?_⟩
  rw [Tree.EntriesHaveType, Tree.EntriesHaveType]
  refine ⟨by simp, ⟨_, rfl, hname⟩, List.not_mem_nil, ⟨.scalar .integer, rfl, ?_⟩, trivial⟩
  rw [Tree.HasType]
  trivial

theorem named_parsed (s : String) : Parsed profiles (named s) (namedObject s) := by
  refine ⟨_, parameters_objects (named_hasType s), _, rfl, rfl, ?_⟩
  have hthree : (3 : Int).repr = "3" := by decide
  intro leaf
  simp [named, Tree.leaves, Tree.leavesEntries, Field.texts, Field.read, nest, Value.leaves,
    Value.leavesEntries, Leaf.written, hthree, or_comm]

theorem filters_meaning_peppy :
    RoundTrips (fun _ => none) profiles (named "peppy") (namedObject "peppy") ∧
      ∀ leaf ∈ (Value.dict [("maps", .int 3)]).leaves,
        Declared (fun _ => none) (.object profiles.properties) leaf := by
  constructor
  · apply ((filters_meaning (fun _ => none) profiles).1 _ _ (named_hasType "peppy")
      (named_parsed "peppy")).mpr
    intro leaf hleaf
    simp only [named, Tree.leaves, Tree.leavesEntries, List.map_cons, List.map_nil, List.append_nil,
      List.singleton_append, List.mem_cons, List.not_mem_nil, or_false] at hleaf
    rcases hleaf with rfl | rfl
    · exact ⟨by decide, by decide, rfl, by decide⟩
    · exact ⟨rfl, by decide⟩
  · apply ((filters_meaning (fun _ => none) profiles).2 _ rfl).mpr
    rintro leaf hleaf ⟨schema, hschema, hcounts⟩
    simp only [Value.leaves, Value.leavesEntries, List.map_cons, List.map_nil, List.append_nil,
      List.mem_singleton] at hleaf
    subst hleaf
    obtain rfl := Option.some.inj hschema
    obtain ⟨-, b, hb⟩ := hcounts
    cases hb

/-- A profile that is named `true` cannot be asked for. -/
theorem true_not_roundTrips :
    (named "true").HasType (fun _ => none) (.object profiles.properties) ∧
      Parsed profiles (named "true") (namedObject "true") ∧
      ¬ RoundTrips (fun _ => none) profiles (named "true") (namedObject "true") := by
  refine ⟨named_hasType "true", named_parsed "true", ?_⟩
  rintro ⟨haccepted, -⟩
  revert haccepted
  decide +kernel

end Graveboards.Parameters
