import LoaderLint.Toml.Document
import Mathlib.Data.List.Nodup

/-!
# Keys of documents

No table of a document has a key twice, however deep it is and however it is given: in full, by
dotted keys, or piece by piece under headers. What is read line by line keeps this at each step.

The module introduces:

* `Value.KeyUnique`, `Table.KeyUnique` — values and tables without a repeated key;
* `Item.KeyUnique`, `Items.KeyUnique`, `Draft.KeyUnique` — the same while a document is being read;
* `ReadsUnique` — readers of values without a repeated key.

The main result is `keyUnique_of_parse?`.
-/

namespace LoaderLint.Toml

/-- No table inside the value has a key twice. -/
inductive Value.KeyUnique : Value → Prop
  | string (text : String) : KeyUnique (.string text)
  | integer (n : Int) : KeyUnique (.integer n)
  | float (bits : UInt64) : KeyUnique (.float bits)
  | boolean (b : Bool) : KeyUnique (.boolean b)
  | datetime (text : String) : KeyUnique (.datetime text)
  | array {elements : List Value} : (∀ v ∈ elements, KeyUnique v) → KeyUnique (.array elements)
  | tables {elements : List Value} : (∀ v ∈ elements, KeyUnique v) → KeyUnique (.tables elements)
  | table {entries : Table} : (entries.map Prod.fst).Nodup → (∀ e ∈ entries, KeyUnique e.2) →
      KeyUnique (.table entries)

/-- The table has no key twice, and neither has one inside it. -/
def Table.KeyUnique (entries : Table) : Prop :=
  (entries.map Prod.fst).Nodup ∧ ∀ e ∈ entries, e.2.KeyUnique

/-- No table inside the item has a key twice. -/
inductive Item.KeyUnique : Item → Prop
  | value {v : Value} : v.KeyUnique → KeyUnique (.value v)
  | table {implicit dotted : Bool} {entries : Items} :
      (entries.map Prod.fst).Nodup → (∀ e ∈ entries, KeyUnique e.2) →
      KeyUnique (.table implicit dotted entries)
  | tables {elements : List Items} : (∀ entries ∈ elements, (entries.map Prod.fst).Nodup) →
      (∀ entries ∈ elements, ∀ e ∈ entries, KeyUnique e.2) → KeyUnique (.tables elements)

/-- The keys are different, and no table inside one of the items has a key twice. -/
def Items.KeyUnique (entries : Items) : Prop :=
  (entries.map Prod.fst).Nodup ∧ ∀ e ∈ entries, e.2.KeyUnique

/-- No table that has been read has a key twice. -/
def Draft.KeyUnique (d : Draft) : Prop :=
  Items.KeyUnique d.root ∧ Items.KeyUnique d.current.entries

/-- The values that the reader finds have no key twice. -/
def ReadsUnique (element : Scan Value) : Prop :=
  ∀ {cs rest : List Char} {v : Value}, element cs = some (v, rest) → v.KeyUnique

section

variable {key : String} {item : Item} {entries out : Items} {implicit dotted byKey : Bool}

/-- A table as a value has no key twice exactly if the table has none. -/
theorem Value.keyUnique_table_iff {entries : Table} :
    Value.KeyUnique (.table entries) ↔ Table.KeyUnique entries :=
  ⟨fun h => by cases h with | table hkeys hvalues => exact ⟨hkeys, hvalues⟩,
    fun h => .table h.1 h.2⟩

/-- A table as an item has no key twice exactly if its items have none. -/
theorem Item.keyUnique_table_iff :
    Item.KeyUnique (.table implicit dotted entries) ↔ Items.KeyUnique entries :=
  ⟨fun h => by cases h with | table hkeys hitems => exact ⟨hkeys, hitems⟩,
    fun h => .table h.1 h.2⟩

/-- An array of tables has no key twice exactly if none of its tables has. -/
theorem Item.keyUnique_tables_iff {elements : List Items} :
    Item.KeyUnique (.tables elements) ↔ ∀ entries ∈ elements, Items.KeyUnique entries :=
  ⟨fun h => by
      cases h with
      | tables hkeys hitems => exact fun entries hmem => ⟨hkeys entries hmem, hitems entries hmem⟩,
    fun h =>
      .tables (fun entries hmem => (h entries hmem).1) fun entries hmem => (h entries hmem).2⟩

theorem Items.keyUnique_nil : Items.KeyUnique [] := ⟨List.nodup_nil, List.forall_mem_nil _⟩

/-! ## What the items become -/

/-- The items of a table become values one by one. -/
theorem itemsToTable_eq (entries : Items) :
    itemsToTable entries = entries.map fun e => (e.1, e.2.toValue) := by
  induction entries with
  | nil => rfl
  | cons e rest ih => rw [itemsToTable, ih, List.map_cons]

/-- The tables of an array become values one by one. -/
theorem elementsToValues_eq (elements : List Items) :
    elementsToValues elements = elements.map fun entries => .table (itemsToTable entries) := by
  induction elements with
  | nil => rfl
  | cons entries rest ih => rw [elementsToValues, ih, List.map_cons]

/-- A table keeps its keys when its items become values. -/
theorem keys_itemsToTable (entries : Items) :
    (itemsToTable entries).map Prod.fst = entries.map Prod.fst := by
  rw [itemsToTable_eq, List.map_map]
  rfl

/-- No key appears twice when an item becomes a value. -/
theorem Item.KeyUnique.toValue (h : item.KeyUnique) : item.toValue.KeyUnique := by
  -- by induction on the item, as it goes from the inside to the outside
  induction h with
  | value h => exact h
  | table hkeys _ ih =>
    rw [Item.toValue]
    refine .table ?_ ?_
    · rw [keys_itemsToTable]
      exact hkeys
    · rw [itemsToTable_eq, List.forall_mem_map]
      exact ih
  | tables hkeys _ ih =>
    rw [Item.toValue, elementsToValues_eq]
    refine .tables (List.forall_mem_map.2 fun entries hmem => .table ?_ ?_)
    · rw [keys_itemsToTable]
      exact hkeys entries hmem
    · rw [itemsToTable_eq, List.forall_mem_map]
      exact ih entries hmem

/-- No key appears twice when items become a table. -/
theorem Items.KeyUnique.toTable (h : Items.KeyUnique entries) :
    Table.KeyUnique (itemsToTable entries) := by
  refine ⟨?_, ?_⟩
  · rw [keys_itemsToTable]
    exact h.1
  · rw [itemsToTable_eq, List.forall_mem_map]
    exact fun e he => (h.2 e he).toValue

/-! ## Changes of tables -/

/-- An item that is found under a key has no key twice inside it. -/
theorem Items.KeyUnique.lookup? (h : Items.KeyUnique entries)
    (hfound : Toml.lookup? key entries = some item) : item.KeyUnique := by
  obtain ⟨e, he, rfl⟩ := Option.map_eq_some_iff.1 hfound
  exact h.2 e (List.mem_of_find?_eq_some he)

/-- A new key may be added at the end. -/
theorem Items.KeyUnique.concat (h : Items.KeyUnique entries) (hitem : item.KeyUnique)
    (hnew : entries.any (·.1 = key) = false) : Items.KeyUnique (entries ++ [(key, item)]) := by
  refine ⟨?_, ?_⟩
  · rw [List.map_append, List.map_singleton, List.nodup_append]
    refine ⟨h.1, List.nodup_singleton _, ?_⟩
    intro k hk k' hk'
    obtain ⟨e, he, rfl⟩ := List.mem_map.1 hk
    rw [List.mem_singleton.1 hk']
    simpa using List.any_eq_false.1 hnew e he
  · rw [List.forall_mem_append, List.forall_mem_singleton]
    exact ⟨h.2, hitem⟩

/-- A key may be put in, whether it is there or not. -/
theorem Items.KeyUnique.put (h : Items.KeyUnique entries) (hitem : item.KeyUnique) :
    Items.KeyUnique (Toml.put key item entries) := by
  unfold Toml.put
  split
  · -- the keys stay as they are
    refine ⟨?_, ?_⟩
    · have hkeys :
        (entries.map fun e => if e.1 = key then (e.1, item) else (e.1, e.2)).map Prod.fst =
          entries.map Prod.fst := by
        rw [List.map_map]
        refine List.map_congr_left fun e _ => ?_
        by_cases hkey : e.1 = key <;> simp [hkey]
      exact hkeys ▸ h.1
    · rw [List.forall_mem_map]
      intro e he
      by_cases hkey : e.1 = key
      · simpa [hkey] using hitem
      · simpa [hkey] using h.2 e he
  · rename_i hnew
    exact h.concat hitem (Bool.eq_false_iff.2 hnew)

/-- Items may be left out. -/
theorem Items.KeyUnique.filter (h : Items.KeyUnique entries) (keep : String × Item → Bool) :
    Items.KeyUnique (entries.filter keep) :=
  ⟨h.1.sublist (List.filter_sublist.map Prod.fst), fun e he => h.2 e (List.mem_of_mem_filter he)⟩

/-- What holds of all elements holds after a change of the last one that keeps it. -/
theorem forall_mem_of_changeLast {α : Type} {p : α → Prop} {change : α → Option α}
    {elements changed : List α} (hchange : ∀ x y, p x → change x = some y → p y)
    (h : ∀ x ∈ elements, p x) (hchanged : changeLast change elements = some changed) :
    ∀ x ∈ changed, p x := by
  induction elements generalizing changed with
  | nil => cases hchanged
  | cons first rest ih =>
    obtain ⟨hfirst, hrest⟩ := List.forall_mem_cons.1 h
    cases rest with
    | nil =>
      obtain ⟨last, hlast, rfl⟩ := Option.map_eq_some_iff.1 hchanged
      exact List.forall_mem_singleton.2 (hchange first last hfirst hlast)
    | cons second rest =>
      obtain ⟨others, hothers, rfl⟩ := Option.map_eq_some_iff.1 hchanged
      exact List.forall_mem_cons.2 ⟨hfirst, ih hrest hothers⟩

/-- A change deep inside keeps keys unique if it does so where it is made. -/
theorem Items.KeyUnique.descend? {change : Bool → Items → Option Items}
    (hchange : ∀ dotted inner inner', Items.KeyUnique inner → change dotted inner = some inner' →
      Items.KeyUnique inner')
    {path : List String} (h : Items.KeyUnique entries)
    (hout : Toml.descend? byKey change dotted path entries = some out) : Items.KeyUnique out := by
  -- the item under the first key of the path is replaced by one that the rest of the path changes
  induction path generalizing dotted entries out with
  | nil => exact hchange _ _ _ h hout
  | cons key path ih =>
    rw [Toml.descend?] at hout
    cases hfound : Toml.lookup? key entries with
    | none =>
      rw [hfound] at hout
      obtain ⟨inner, hinner, hout⟩ := Option.bind_eq_some_iff.1 hout
      cases hout
      exact h.put (Item.keyUnique_table_iff.2 (ih keyUnique_nil hinner))
    | some item =>
      have hitem := h.lookup? hfound
      rw [hfound] at hout
      cases item with
      | value v => cases hout
      | table implicit dotted inner =>
        simp only at hout
        split at hout
        · cases hout
        · obtain ⟨inner', hinner, hout⟩ := Option.bind_eq_some_iff.1 hout
          cases hout
          exact h.put (Item.keyUnique_table_iff.2 (ih (Item.keyUnique_table_iff.1 hitem) hinner))
      | tables elements =>
        obtain ⟨elements', helements, hout⟩ := Option.bind_eq_some_iff.1 hout
        cases hout
        -- a path goes into the last table of an array
        refine h.put (Item.keyUnique_tables_iff.2 ?_)
        exact forall_mem_of_changeLast (fun _ _ => ih)
          (Item.keyUnique_tables_iff.1 hitem) helements

/-- A value may be inserted under a path where its last key is new. -/
theorem Items.KeyUnique.insertAt? {path : List String} {v : Value} (h : Items.KeyUnique entries)
    (hv : v.KeyUnique) (hout : Toml.insertAt? path v entries = some out) :
    Items.KeyUnique out := by
  refine h.descend? (fun dotted inner inner' hinner hchanged => ?_) hout
  -- keys and tables may meet: neither a table of another form nor a key that is there is changed
  split at hchanged
  · cases hchanged
  · split at hchanged
    · cases hchanged
    · rename_i hnew
      cases hchanged
      exact hinner.concat (.value hv) (Bool.eq_false_iff.2 hnew)

/-- The table under a path has no key twice. -/
theorem Items.KeyUnique.tableAt? {path : List String} (h : Items.KeyUnique entries)
    (hout : Toml.tableAt? path entries = some out) : Items.KeyUnique out := by
  -- the path leads from table to table, and each of them is among the items of the one before
  induction path generalizing entries with
  | nil =>
    cases hout
    exact h
  | cons key path ih =>
    rw [Toml.tableAt?] at hout
    cases hfound : Toml.lookup? key entries with
    | none =>
      rw [hfound] at hout
      cases hout
    | some item =>
      have hitem := h.lookup? hfound
      rw [hfound] at hout
      cases item with
      | value v => cases hout
      | table implicit dotted inner => exact ih (Item.keyUnique_table_iff.1 hitem) hout
      | tables elements =>
        obtain ⟨last, hlast, hout⟩ := Option.bind_eq_some_iff.1 hout
        exact ih (Item.keyUnique_tables_iff.1 hitem last (List.mem_of_getLast? hlast)) hout

/-! ## Headers -/

variable {d d' : Draft} {path : List String}

/-- The table that is open may be put into its place. -/
theorem Draft.KeyUnique.closeTable? (h : d.KeyUnique) (hout : Toml.closeTable? d = some out) :
    Items.KeyUnique out := by
  obtain ⟨hroot, hcurrent⟩ := h
  unfold Toml.closeTable? at hout
  split at hout
  · cases hout
    exact hcurrent
  · -- the table becomes a new key, a new last element, or takes the place of an implicit table
    refine hroot.descend? (fun dotted inner inner' hinner hchanged => ?_) hout
    cases hfound : Toml.lookup? (splitLast d.current.path).2 inner with
    | none =>
      rw [hfound] at hchanged
      cases hchanged
      refine hinner.put ?_
      split
      · exact Item.keyUnique_tables_iff.2 (List.forall_mem_singleton.2 hcurrent)
      · exact Item.keyUnique_table_iff.2 hcurrent
    | some item =>
      have hitem := hinner.lookup? hfound
      rw [hfound] at hchanged
      cases item with
      | value v => cases hchanged
      | table implicit dotted entries =>
        simp only at hchanged
        split at hchanged
        · cases hchanged
          exact hinner.put (Item.keyUnique_table_iff.2 hcurrent)
        · cases hchanged
      | tables elements =>
        simp only at hchanged
        split at hchanged
        · cases hchanged
          refine hinner.put (Item.keyUnique_tables_iff.2 (List.forall_mem_append.2 ⟨?_, ?_⟩))
          · exact Item.keyUnique_tables_iff.1 hitem
          · exact List.forall_mem_singleton.2 hcurrent
        · cases hchanged

/-- A header of a table may be read. -/
theorem Draft.KeyUnique.openTable? (h : d.KeyUnique) (hout : Toml.openTable? d path = some d') :
    d'.KeyUnique := by
  obtain ⟨root, hroot, hout⟩ := Option.bind_eq_some_iff.1 hout
  have hclosed := h.closeTable? hroot
  -- whatever the table starts with, it is taken out of its place
  have hopened : ∀ {start : Items}, Items.KeyUnique start →
      ((descend? false (fun _ inner => some (inner.filter (·.1 ≠ (splitLast path).2))) false
        (splitLast path).1 root).bind fun root => some ⟨root, ⟨path, false, start⟩⟩) = some d' →
      d'.KeyUnique := by
    intro start hstart hout
    obtain ⟨rest, hrest, hout⟩ := Option.bind_eq_some_iff.1 hout
    cases hout
    refine ⟨hclosed.descend? (fun dotted inner inner' hinner hchanged => ?_) hrest, hstart⟩
    cases hchanged
    exact hinner.filter _
  cases hfound : (tableAt? (splitLast path).1 root).bind (lookup? (splitLast path).2) with
  | none =>
    simp only [hfound] at hout
    exact hopened Items.keyUnique_nil hout
  | some item =>
    obtain ⟨inner, hinner, hitem⟩ := Option.bind_eq_some_iff.1 hfound
    have hitem := (hclosed.tableAt? hinner).lookup? hitem
    simp only [hfound] at hout
    split at hout
    · cases ‹some item = none›
    · rename_i hsame
      cases hsame
      exact hopened (Item.keyUnique_table_iff.1 hitem) hout
    · cases hout

/-- A header of an element of an array may be read. -/
theorem Draft.KeyUnique.openElement? (h : d.KeyUnique)
    (hout : Toml.openElement? d path = some d') : d'.KeyUnique := by
  obtain ⟨root, hroot, hout⟩ := Option.bind_eq_some_iff.1 hout
  obtain ⟨rest, hrest, hout⟩ := Option.bind_eq_some_iff.1 hout
  cases hout
  refine ⟨(h.closeTable? hroot).descend? (fun dotted inner inner' hinner hchanged => ?_) hrest,
    Items.keyUnique_nil⟩
  split at hchanged
  · cases hchanged
    exact hinner.put (Item.keyUnique_tables_iff.2 (List.forall_mem_nil _))
  · cases hchanged
    exact hinner
  · cases hchanged

/-! ## Values -/

variable {element : Scan Value} {cs rest : List Char} {v : Value}

/-- An array has no key twice if none of its elements has. -/
theorem ReadsUnique.arrayRest? (helement : ReadsUnique element) {steps : Nat} {done : List Value}
    (hdone : ∀ v ∈ done, v.KeyUnique)
    (h : Toml.arrayRest? element steps done cs = some (v, rest)) :
    v.KeyUnique := by
  induction steps generalizing done cs with
  | zero => cases h
  | succ steps ih =>
    obtain ⟨cs, -, h⟩ := Option.bind_eq_some_iff.1 h
    -- the array ends here, or an element comes first, with a comma or the end behind it
    split at h
    · cases h
      exact .array fun v hv => hdone v (List.mem_reverse.1 hv)
    · obtain ⟨⟨first, behind⟩, hfirst, h⟩ := Option.bind_eq_some_iff.1 h
      have hread : ∀ v ∈ first :: done, v.KeyUnique :=
        List.forall_mem_cons.2 ⟨helement hfirst, hdone⟩
      obtain ⟨behind', -, h⟩ := Option.bind_eq_some_iff.1 h
      split at h
      · exact ih hread h
      · cases h
        exact .array fun v hv => hread v (List.mem_reverse.1 hv)
      · cases h

/-- A pair of an inline table keeps the keys different. -/
theorem ReadsUnique.inlinePair? (helement : ReadsUnique element) (h : Items.KeyUnique entries)
    (hout : Toml.inlinePair? element entries cs = some (out, rest)) : Items.KeyUnique out := by
  obtain ⟨⟨path, behind⟩, -, hout⟩ := Option.bind_eq_some_iff.1 hout
  simp only at hout
  split at hout
  · obtain ⟨⟨v, behind'⟩, hv, hout⟩ := Option.bind_eq_some_iff.1 hout
    obtain ⟨entries', hentries, hout⟩ := Option.bind_eq_some_iff.1 hout
    cases hout
    exact h.insertAt? (helement hv) hentries
  · cases hout

/-- An inline table has no key twice. -/
theorem ReadsUnique.inlineRest? (helement : ReadsUnique element) {steps : Nat}
    (hentries : Items.KeyUnique entries)
    (h : Toml.inlineRest? element steps entries cs = some (v, rest)) : v.KeyUnique := by
  induction steps generalizing entries cs with
  | zero => cases h
  | succ steps ih =>
    obtain ⟨⟨entries', behind⟩, hpair, h⟩ := Option.bind_eq_some_iff.1 h
    have hentries' := helement.inlinePair? hentries hpair
    simp only at h
    split at h
    · exact ih hentries' h
    · cases h
      exact Value.keyUnique_table_iff.2 hentries'.toTable
    · cases h

/-- A value has no key twice if the values inside it have none. -/
theorem ReadsUnique.valueWith? (helement : ReadsUnique element) :
    ReadsUnique (Toml.valueWith? element) := by
  intro cs rest v h
  -- the forms of a value by their first character; only arrays and tables have values inside
  unfold Toml.valueWith? at h
  split at h
  · exact helement.arrayRest? (List.forall_mem_nil _) h
  · split at h
    · cases h
      exact Value.keyUnique_table_iff.2 ⟨List.nodup_nil, List.forall_mem_nil _⟩
    · exact helement.inlineRest? Items.keyUnique_nil h
  · cases h
    exact .boolean true
  · cases h
    exact .boolean false
  · obtain ⟨_, -, h⟩ := Option.map_eq_some_iff.1 h
    cases h
    exact .string _
  · obtain ⟨_, -, h⟩ := Option.map_eq_some_iff.1 h
    cases h
    exact .string _
  · split at h
    · cases h
      exact .datetime _
    · split at h
      · cases h
        exact .float _
      · obtain ⟨_, -, h⟩ := Option.map_eq_some_iff.1 h
        cases h
        exact .integer _

/-- However deep values are read, none has a key twice. -/
theorem readsUnique_value? (depth : Nat) : ReadsUnique (value? depth) := by
  -- values inside one another take one level of the depth each
  induction depth with
  | zero =>
    intro cs rest v h
    cases h
  | succ depth ih => exact ih.valueWith?

/-! ## Documents -/

/-- What a line says may be added to what was read before it. -/
theorem Draft.KeyUnique.line? (h : d.KeyUnique) (hout : Toml.line? d cs = some (d', rest)) :
    d'.KeyUnique := by
  -- a line is a header with two brackets, one with one, an empty line, or a key with its value
  unfold Toml.line? at hout
  split at hout
  · obtain ⟨⟨path, behind⟩, -, hout⟩ := Option.bind_eq_some_iff.1 hout
    simp only at hout
    split at hout
    · obtain ⟨opened, hopened, hsame⟩ := Option.map_eq_some_iff.1 hout
      cases hsame
      exact h.openElement? hopened
    · cases hout
  · obtain ⟨⟨path, behind⟩, -, hout⟩ := Option.bind_eq_some_iff.1 hout
    simp only at hout
    split at hout
    · obtain ⟨opened, hopened, hsame⟩ := Option.map_eq_some_iff.1 hout
      cases hsame
      exact h.openTable? hopened
    · cases hout
  · split at hout
    · cases hout
      exact h
    · obtain ⟨⟨path, behind⟩, -, hout⟩ := Option.bind_eq_some_iff.1 hout
      simp only at hout
      split at hout
      · obtain ⟨⟨v, behind'⟩, hv, hout⟩ := Option.bind_eq_some_iff.1 hout
        obtain ⟨entries, hentries, hout⟩ := Option.bind_eq_some_iff.1 hout
        cases hout
        exact ⟨h.1, h.2.insertAt? (readsUnique_value? _ hv) hentries⟩
      · cases hout

/-- All lines keep keys unique, since each of them does. -/
theorem Draft.KeyUnique.lines? {steps : Nat} (h : d.KeyUnique)
    (hout : Toml.lines? steps d cs = some d') : d'.KeyUnique := by
  induction steps generalizing d cs with
  | zero => cases hout
  | succ steps ih =>
    obtain ⟨⟨next, behind⟩, hline, hout⟩ := Option.bind_eq_some_iff.1 hout
    have hnext := h.line? hline
    obtain ⟨behind', -, hout⟩ := Option.bind_eq_some_iff.1 hout
    split at hout
    · cases hout
      exact hnext
    · obtain ⟨behind'', -, hout⟩ := Option.bind_eq_some_iff.1 hout
      exact ih hnext hout

/-- No table of a document has a key twice. -/
theorem keyUnique_of_parse? {text : String} {doc : Table} (h : parse? text = some doc) :
    Table.KeyUnique doc := by
  obtain ⟨d, hd, h⟩ := Option.bind_eq_some_iff.1 h
  obtain ⟨root, hroot, h⟩ := Option.bind_eq_some_iff.1 h
  cases h
  -- the invariant holds at the start, each line keeps it, and so does the last table when it is
  -- closed
  have hempty : Draft.KeyUnique ⟨[], ⟨[], false, []⟩⟩ :=
    ⟨Items.keyUnique_nil, Items.keyUnique_nil⟩
  exact ((hempty.lines? hd).closeTable? hroot).toTable

/-- A table inside a table without a repeated key is one as well. -/
theorem Table.KeyUnique.inner {outer inner : Table} (h : Table.KeyUnique outer)
    (hmem : (key, .table inner) ∈ outer) : Table.KeyUnique inner :=
  Value.keyUnique_table_iff.1 (h.2 _ hmem)

end

end LoaderLint.Toml
