import Mathlib.Data.Char
import Graveboards.Library.Pages
import Graveboards.Library.Sorting
import Graveboards.Compression.RoundTrip

/-!
`_normalize_config`: the text by which two configs of a rule are compared. The
entries of every object are sorted by their keys and the items of every list by
their texts. The text is a canonical form: no two configs share it but those
that differ in the order of entries and items only.
-/

namespace Graveboards.Rules.Normalization

open Library Sorting Search Compression

/-- Python compares the entries of a dict by their keys first, and no two of them share their
key. -/
def entryKey (entry : PyStr × JsonValue) : List Nat := entry.1.map PyStr.codePoint

/-- `sorted(obj.items())`. -/
def sortEntries (entries : List (PyStr × JsonValue)) : List (PyStr × JsonValue) :=
  sortOn entryKey entries

/-! The function. The depth is the number of containers that may still be opened. -/

/-- The value as `json.dumps` goes through it with `sort_keys=True`. -/
def sortKeys (depth : Nat) (v : JsonValue) : JsonValue :=
  match depth, v with
  | depth + 1, .list items => .list (items.map (sortKeys depth))
  | depth + 1, .object entries =>
      .object ((sortEntries entries).map fun entry => (entry.1, sortKeys depth entry.2))
  | _, v => v

/-- `json.dumps(v, sort_keys=True)`. -/
def dumpsSorted (depth : Nat) (v : JsonValue) : Except DumpError (List Char) :=
  dumps depth (sortKeys depth v)

/-- `_sort`. -/
def sort (depth : Nat) (v : JsonValue) : Except DumpError JsonValue :=
  match depth, v with
  | 0, .list _ => .error .recursion
  | 0, .object _ => .error .recursion
  | depth + 1, .object entries => do
      let sorted ← (sortEntries entries).mapM fun entry => do
        let v ← sort depth entry.2
        .ok (entry.1, v)
      .ok (.object sorted)
  | depth + 1, .list items => do
      let normalized ← items.mapM (sort depth)
      let texts ← normalized.mapM (dumpsSorted depth)
      .ok (.list ((sortOn Prod.fst (texts.zip normalized)).map Prod.snd))
  | _, v => .ok v

def normalizeConfig (depth : Nat) (config : JsonValue) : Except DumpError (List Char) := do
  let sorted ← sort depth config
  dumpsSorted depth sorted

/-! What configs are compared up to. -/

mutual

/-- Equal up to the order of entries and of items, at every level. -/
def Same : JsonValue → JsonValue → Prop
  | .list items, w => ∃ items', w = .list items' ∧ SameItems items items'
  | .object entries, w => ∃ entries', w = .object entries' ∧ SameEntries entries entries'
  | .null, w => w = .null
  | .bool b, w => w = .bool b
  | .int n, w => w = .int n
  | .float x, w => w = .float x
  | .str s, w => w = .str s

/-- Every item has a partner among the items of the other list. -/
def SameItems : List JsonValue → List JsonValue → Prop
  | [], items' => items' = []
  | v :: rest, items' => ∃ before w after, items' = before ++ w :: after ∧ Same v w ∧
      SameItems rest (before ++ after)

def SameEntries : List (PyStr × JsonValue) → List (PyStr × JsonValue) → Prop
  | [], entries' => entries' = []
  | (key, v) :: rest, entries' =>
      ∃ before w after, entries' = before ++ (key, w) :: after ∧ Same v w ∧
      SameEntries rest (before ++ after)

end

theorem sameItems_iff_rel {items items' : List JsonValue} :
    SameItems items items' ↔
      Multiset.Rel Same (items : Multiset JsonValue) (items' : Multiset JsonValue) := by
  induction items generalizing items' with
  | nil =>
      rw [SameItems, Multiset.coe_nil, Multiset.rel_zero_left, Multiset.coe_eq_zero]
  | cons v rest ih => simp only [SameItems, rel_cons_iff, ih]

def SameEntry (entry entry' : PyStr × JsonValue) : Prop :=
  entry.1 = entry'.1 ∧ Same entry.2 entry'.2

theorem sameEntries_iff_rel {entries entries' : List (PyStr × JsonValue)} :
    SameEntries entries entries' ↔
      Multiset.Rel SameEntry (entries : Multiset (PyStr × JsonValue))
      (entries' : Multiset (PyStr × JsonValue)) := by
  induction entries generalizing entries' with
  | nil =>
      rw [SameEntries, Multiset.coe_nil, Multiset.rel_zero_left, Multiset.coe_eq_zero]
  | cons entry rest ih =>
      obtain ⟨key, v⟩ := entry
      rw [SameEntries, rel_cons_iff]
      constructor
      · rintro ⟨before, w, after, hentries, hsame, hrest⟩
        exact ⟨before, (key, w), after, hentries, ⟨rfl, hsame⟩, ih.mp hrest⟩
      · rintro ⟨before, ⟨key', w⟩, after, hentries, ⟨rfl, hsame⟩, hrest⟩
        exact ⟨before, w, after, hentries, hsame, ih.mpr hrest⟩

/-! The document that `_sort` makes of a value within the limits. -/

/-- The text by which an item is sorted. -/
def textOf (depth : Nat) (v : JsonValue) : List Char :=
  match dumpsSorted depth v with
  | .ok text => text
  | .error _ => []

def canonical (depth : Nat) (v : JsonValue) : JsonValue :=
  match depth, v with
  | depth + 1, .list items => .list (sortOn (textOf depth) (items.map (canonical depth)))
  | depth + 1, .object entries =>
      .object ((sortEntries entries).map fun entry => (entry.1, canonical depth entry.2))
  | _, v => v

theorem portableItems_iff {depth : Nat} {items : List JsonValue} :
    PortableItems depth items ↔ ∀ v ∈ items, Portable depth v := by
  induction items with
  | nil => simp [PortableItems]
  | cons v rest ih => rw [PortableItems, ih, List.forall_mem_cons]

theorem portableEntries_iff {depth : Nat} {entries : List (PyStr × JsonValue)} :
    PortableEntries depth entries ↔ ∀ entry ∈ entries, Unpaired entry.1 ∧
    Portable depth entry.2 := by
  induction entries with
  | nil => simp [PortableEntries]
  | cons entry rest ih => rw [PortableEntries, ih, List.forall_mem_cons, and_assoc]

/-- Values stay where their keys are. -/
theorem sortEntries_map (f : JsonValue → JsonValue) (entries : List (PyStr × JsonValue)) :
    sortEntries (entries.map fun entry => (entry.1, f entry.2)) =
      (sortEntries entries).map fun entry => (entry.1, f entry.2) := sortOn_map entryKey _ entries

theorem mem_sortEntries {entry : PyStr × JsonValue} {entries : List (PyStr × JsonValue)} :
    entry ∈ sortEntries entries ↔ entry ∈ entries := mem_sortOn entryKey

/-- Within the limits, and with its entries in the order in which they are written. -/
def Canonical (depth : Nat) (v : JsonValue) : Prop := Portable depth v ∧ sortKeys depth v = v

theorem canonical_canonical {depth : Nat} {v : JsonValue} (h : Portable depth v) :
    Canonical depth (canonical depth v) := by
  induction depth generalizing v with
  | zero =>
      refine ⟨h, ?_⟩
      cases v <;> rfl
  | succ depth ih =>
      cases v with
      | list items =>
          have hitems (w : JsonValue)
              (hw : w ∈ sortOn (textOf depth) (items.map (canonical depth))) :
              Canonical depth w := by
            rw [mem_sortOn] at hw
            obtain ⟨v, hv, rfl⟩ := List.mem_map.mp hw
            exact ih (portableItems_iff.mp h v hv)
          constructor
          · exact portableItems_iff.mpr fun w hw => (hitems w hw).1
          · have hkept := List.map_congr_left fun w hw => (hitems w hw).2
            exact congrArg JsonValue.list (hkept.trans (List.map_id' _))
      | object entries =>
          have hentries (entry : PyStr × JsonValue) (hentry : entry ∈ sortEntries entries) :
              Unpaired entry.1 ∧ Canonical depth (canonical depth entry.2) := by
            obtain ⟨hkey, hvalue⟩ := portableEntries_iff.mp h.2 entry (mem_sortEntries.mp hentry)
            exact ⟨hkey, ih hvalue⟩
          refine ⟨⟨?_, portableEntries_iff.mpr ?_⟩, ?_⟩
          · rw [List.map_map]
            exact ((sortOn_perm entryKey entries).map Prod.fst).nodup_iff.mpr h.1
          · intro entry hentry
            obtain ⟨before, hbefore, rfl⟩ := List.mem_map.mp hentry
            exact ⟨(hentries before hbefore).1, (hentries before hbefore).2.1⟩
          · have hsorted : sortEntries (sortEntries entries) = sortEntries entries :=
              sortOn_sortOn entryKey entries
            rw [canonical, sortKeys, sortEntries_map, hsorted, List.map_map]
            congr 1
            apply List.map_congr_left
            intro entry hentry
            exact congrArg (Prod.mk entry.1) (hentries entry hentry).2.2
      | _ => exact ⟨h, rfl⟩

/-- A canonical value is written, and read back from its text. -/
theorem Canonical.loads_textOf {depth : Nat} {v : JsonValue} (h : Canonical depth v) :
    dumpsSorted depth v = .ok (textOf depth v) ∧ loads depth (textOf depth v) = .ok v := by
  obtain ⟨text, hdumps, hloads⟩ := loads_dumps h.1 le_rfl le_rfl
  have hsorted : dumpsSorted depth v = .ok text := by rw [dumpsSorted, h.2, hdumps]
  have htext : textOf depth v = text := by rw [textOf, hsorted]
  rw [htext]
  exact ⟨hsorted, hloads⟩

/-- The text of a canonical value tells it from all others. -/
theorem Canonical.eq_of_textOf {depth : Nat} {v w : JsonValue} (hv : Canonical depth v)
    (hw : Canonical depth w) (htext : textOf depth v = textOf depth w) : v = w := by
  have hloads := hv.loads_textOf.2
  rw [htext, hw.loads_textOf.2] at hloads
  exact (Except.ok.inj hloads).symm

/-- Within the limits nothing is refused. -/
theorem sort_eq {depth : Nat} {v : JsonValue} (h : Portable depth v) :
    sort depth v = .ok (canonical depth v) := by
  induction depth generalizing v with
  | zero =>
      cases v with
      | list items => cases h
      | object entries => cases h
      | _ => rfl
  | succ depth ih =>
      cases v with
      | list items =>
          have hnormalized : items.mapM (sort depth) = .ok (items.map (canonical depth)) :=
            Pages.mapM_of_forall fun v hv => ih (portableItems_iff.mp h v hv)
          have htexts : (items.map (canonical depth)).mapM (dumpsSorted depth) =
              .ok ((items.map (canonical depth)).map (textOf depth)) := by
            apply Pages.mapM_of_forall
            intro w hw
            obtain ⟨v, hv, rfl⟩ := List.mem_map.mp hw
            exact (canonical_canonical (portableItems_iff.mp h v hv)).loads_textOf.1
          rw [sort, hnormalized, ok_bind, htexts, ok_bind, map_sortOn_zip]
          rfl
      | object entries =>
          have hsorted : ((sortEntries entries).mapM fun entry => do
              let v ← sort depth entry.2
              .ok (entry.1, v)) = .ok
              ((sortEntries entries).map fun entry => (entry.1, canonical depth entry.2)) := by
            apply Pages.mapM_of_forall
            intro entry hentry
            rw [ih (portableEntries_iff.mp h.2 entry (mem_sortEntries.mp hentry)).2]
            rfl
          rw [sort, hsorted]
          rfl
      | _ => rfl

/-! Configs are the same if and only if their canonical forms are. -/

/-- A value without entries or items. -/
def IsScalar : JsonValue → Prop
  | .list _ | .object _ => False
  | _ => True

theorem IsScalar.canonical_eq {depth : Nat} {v : JsonValue} (h : IsScalar v) :
    canonical depth v = v := by
  cases v with
  | list items => cases h
  | object entries => cases h
  | _ => cases depth <;> rfl

theorem isScalar_canonical_iff {depth : Nat} {v : JsonValue} :
    IsScalar (canonical depth v) ↔ IsScalar v := by
  cases depth with
  | zero => cases v <;> rfl
  | succ depth => cases v <;> rfl

theorem IsScalar.same_iff {v w : JsonValue} (h : IsScalar v) : Same v w ↔ v = w := by
  cases v with
  | list items => cases h
  | object entries => cases h
  | _ => exact eq_comm

/-- Items within the limits are matched if and only if they have the same sorted canonical forms. -/
theorem sameItems_iff {depth : Nat} {items items' : List JsonValue}
    (hsame : ∀ v ∈ items, ∀ w ∈ items', Same v w ↔ canonical depth v = canonical depth w)
    (h : ∀ v ∈ items, Portable depth v) (h' : ∀ w ∈ items', Portable depth w) :
    SameItems items items' ↔ sortOn (textOf depth) (items.map (canonical depth)) =
      sortOn (textOf depth) (items'.map (canonical depth)) := by
  rw [sameItems_iff_rel, rel_iff_perm_map hsame, sortOn_eq_iff_perm]
  intro a ha b hb htext
  obtain ⟨v, hv, rfl⟩ := List.mem_map.mp ha
  obtain ⟨w, hw, rfl⟩ := List.mem_map.mp hb
  exact (canonical_canonical (h v hv)).eq_of_textOf (canonical_canonical (h' w hw)) htext

theorem sameEntries_iff {depth : Nat} {entries entries' : List (PyStr × JsonValue)}
    (hsame : ∀ entry ∈ entries, ∀ entry' ∈ entries',
      Same entry.2 entry'.2 ↔ canonical depth entry.2 = canonical depth entry'.2)
    (h : (entries.map Prod.fst).Nodup) :
    SameEntries entries entries' ↔
      (sortEntries entries).map (fun entry => (entry.1, canonical depth entry.2)) =
        (sortEntries entries').map fun entry => (entry.1, canonical depth entry.2) := by
  have hforms : ∀ entry ∈ entries, ∀ entry' ∈ entries', (SameEntry entry entry' ↔
      (entry.1, canonical depth entry.2) = (entry'.1, canonical depth entry'.2)) := by
    intro entry hentry entry' hentry'
    rw [SameEntry, hsame entry hentry entry' hentry', Prod.mk.injEq]
  rw [sameEntries_iff_rel, rel_iff_perm_map hforms, ← sortEntries_map, ← sortEntries_map]
  constructor
  · intro hperm
    -- The keys of the one list are those of the other, so that they are different in both.
    apply (sortOn_eq_iff_perm ?_).mpr hperm
    intro a ha b hb hkey
    have hmem := hperm.mem_iff.mpr hb
    have hnodup :
        ((entries.map fun entry => (entry.1, canonical depth entry.2)).map Prod.fst).Nodup := by
      rw [List.map_map]
      exact h
    exact List.inj_on_of_nodup_map hnodup ha hmem
      (List.map_injective_iff.mpr PyStr.codePoint_injective hkey)
  · intro hsorted
    have hleft := sortOn_perm entryKey (entries.map fun entry => (entry.1, canonical depth entry.2))
    rw [sortEntries, sortEntries] at hsorted
    rw [hsorted] at hleft
    exact hleft.symm.trans (sortOn_perm entryKey _)

theorem IsScalar.same_iff_canonical {depth : Nat} {v w : JsonValue} (h : IsScalar v) :
    Same v w ↔ canonical depth v = canonical depth w := by
  rw [h.same_iff, h.canonical_eq]
  constructor
  · rintro rfl
    exact h.canonical_eq.symm
  · intro heq
    rw [heq, isScalar_canonical_iff] at h
    rw [heq, h.canonical_eq]

/-- Values are the same up to order if and only if they have the same canonical form. -/
theorem same_iff {depth : Nat} {v w : JsonValue} (hv : Portable depth v) (hw : Portable depth w) :
    Same v w ↔ canonical depth v = canonical depth w := by
  induction depth generalizing v w with
  | zero =>
      cases v with
      | list items => cases hv
      | object entries => cases hv
      | _ => exact IsScalar.same_iff_canonical trivial
  | succ depth ih =>
      cases v with
      | list items =>
          cases w with
          | list items' =>
              have hitems := portableItems_iff.mp hv
              have hitems' := portableItems_iff.mp hw
              have hmatched :=
                sameItems_iff (fun a ha b hb => ih (hitems a ha) (hitems' b hb)) hitems hitems'
              constructor
              · rintro ⟨_, heq, hsame⟩
                obtain rfl := JsonValue.list.inj heq
                exact congrArg JsonValue.list (hmatched.mp hsame)
              · exact fun heq => ⟨items', rfl, hmatched.mpr (JsonValue.list.inj heq)⟩
          | _ =>
              refine iff_of_false ?_ JsonValue.noConfusion
              rintro ⟨_, heq, -⟩
              cases heq
      | object entries =>
          cases w with
          | object entries' =>
              have hentries := portableEntries_iff.mp hv.2
              have hentries' := portableEntries_iff.mp hw.2
              have hmatched : SameEntries entries entries' ↔ _ :=
                sameEntries_iff (fun a ha b hb => ih (hentries a ha).2 (hentries' b hb).2) hv.1
              constructor
              · rintro ⟨_, heq, hsame⟩
                obtain rfl := JsonValue.object.inj heq
                exact congrArg JsonValue.object (hmatched.mp hsame)
              · exact fun heq => ⟨entries', rfl, hmatched.mpr (JsonValue.object.inj heq)⟩
          | _ =>
              refine iff_of_false ?_ JsonValue.noConfusion
              rintro ⟨_, heq, -⟩
              cases heq
      | _ => exact IsScalar.same_iff_canonical trivial

theorem normalizeConfig_eq {depth : Nat} {config : JsonValue} (h : Portable depth config) :
    normalizeConfig depth config = .ok (textOf depth (canonical depth config)) := by
  rw [normalizeConfig, sort_eq h, ok_bind]
  exact (canonical_canonical h).loads_textOf.1

/-- A canonical form is its own. -/
theorem canonical_idem {depth : Nat} {v : JsonValue} (h : Portable depth v) :
    canonical depth (canonical depth v) = canonical depth v := by
  induction depth generalizing v with
  | zero => cases v <;> rfl
  | succ depth ih =>
      cases v with
      | list items =>
          have hkept : (sortOn (textOf depth) (items.map (canonical depth))).map (canonical depth) =
              sortOn (textOf depth) (items.map (canonical depth)) := by
            refine (List.map_congr_left fun w hw => ?_).trans (List.map_id' _)
            obtain ⟨v, hv, rfl⟩ := List.mem_map.mp ((mem_sortOn _).mp hw)
            exact ih (portableItems_iff.mp h v hv)
          rw [canonical, canonical, hkept, sortOn_sortOn]
      | object entries =>
          have hsorted : sortEntries (sortEntries entries) = sortEntries entries :=
            sortOn_sortOn entryKey entries
          rw [canonical, canonical, sortEntries_map, hsorted, List.map_map]
          congr 1
          apply List.map_congr_left
          intro entry hentry
          exact congrArg (Prod.mk entry.1)
            (ih (portableEntries_iff.mp h.2 entry (mem_sortEntries.mp hentry)).2)
      | _ => rfl

/-- Configs have the same text if and only if they are the same up to order, and the text that is
parsed back has the same text again. -/
theorem normalizeConfig_exact {depth : Nat} {a b : JsonValue} (ha : Portable depth a)
    (hb : Portable depth b) :
    (normalizeConfig depth a = normalizeConfig depth b ↔ Same a b) ∧
      ∃ text sorted, normalizeConfig depth a = .ok text ∧ loads depth text = .ok sorted ∧
        normalizeConfig depth sorted = .ok text := by
  have hcanonical := canonical_canonical ha
  constructor
  · rw [same_iff ha hb, normalizeConfig_eq ha, normalizeConfig_eq hb, Except.ok.injEq]
    exact ⟨hcanonical.eq_of_textOf (canonical_canonical hb), congrArg (textOf depth)⟩
  · refine ⟨_, canonical depth a, normalizeConfig_eq ha, hcanonical.loads_textOf.2, ?_⟩
    rw [normalizeConfig_eq hcanonical.1, canonical_idem ha]

/-- Entries and items in another order. -/
theorem normalizeConfig_exact_reordered :
    normalizeConfig 2
    (.object [([.char 'b'], .list [.str [.char 'x'], .bool true]), ([.char 'a'], .null)]) =
      normalizeConfig 2
      (.object [([.char 'a'], .null), ([.char 'b'], .list [.bool true, .str [.char 'x']])]) := by
  refine (normalizeConfig_exact ?_ ?_).1.mpr ?_
  · simp [Portable, PortableItems, PortableEntries, Unpaired]
  · simp [Portable, PortableItems, PortableEntries, Unpaired]
  · have hitems : SameItems [.str [.char 'x'], .bool true] [.bool true, .str [.char 'x']] :=
      ⟨[.bool true], .str [.char 'x'], [], rfl, rfl, [], .bool true, [], rfl, rfl, rfl⟩
    exact ⟨_, rfl, [([.char 'a'], .null)], _, [], rfl, ⟨_, rfl, hitems⟩, [], .null,
      [], rfl, rfl, rfl⟩

end Graveboards.Rules.Normalization
