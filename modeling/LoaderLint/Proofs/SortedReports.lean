import LoaderLint.Proofs.PlaceOrder

/-!
# Sorted reports

A report is sorted by the places of its findings: by file, component by component, then by line,
then by column. How a path is spelled makes no difference to this order, and neither does the order
of the spellings: `a/b.js` stands before `a-b.js`, although a slash comes after a minus.

The module introduces:

* `Path.Component.Before` — the order of components;
* `Location.key` — what the order of places looks at;
* `Location.NotBehind` — the order of places.

Both orders are said without the comparisons that the library computes, and
`Location.isLE_compare_iff` ties the two together. The main result is `Report.sorted_by_place`.
-/

namespace LoaderLint

namespace Path

namespace Component

/-- The component stands before another one: its kind does, or both are of one kind and its text
does, character by character. -/
def Before (a b : Component) : Prop :=
  a.rank < b.rank ∨ a.rank = b.rank ∧ a.text.map Char.toNat < b.text.map Char.toNat

/-- Texts are compared by the numbers of their characters. -/
theorem compareTexts_eq_lt_iff {a b : List Char} :
    compareTexts a b = .lt ↔ a.map Char.toNat < b.map Char.toNat := by
  induction a generalizing b with
  | nil => cases b <;> simp [compareTexts]
  | cons c cs ih =>
    cases b with
    | nil => simp [compareTexts]
    | cons d ds =>
      rw [compareTexts, Ordering.then_eq_lt, Nat.compare_eq_lt, Nat.compare_eq_eq, ih,
        List.map_cons, List.map_cons, List.cons_lt_cons_iff]

/-- Components are compared by kind and then by text. -/
theorem compare_eq_lt_iff {a b : Component} : a.compare b = .lt ↔ a.Before b := by
  rw [compare_eq_compareLex, compareLex, compareOn, Ordering.then_eq_lt, Nat.compare_eq_lt,
    Nat.compare_eq_eq, compareTexts_eq_lt_iff, Before]

theorem compare_eq_eq_iff {a b : Component} : a.compare b = .eq ↔ a = b :=
  Std.LawfulEqCmp.compare_eq_iff_eq

end Component

/-- A path stands before another one if it does so at the first component in which they differ, or
if it ends there. -/
theorem compare_eq_lt_iff {p q : Path} :
    p.compare q = .lt ↔ List.Lex Component.Before p.components q.components := by
  rw [Path.compare]
  generalize p.components = as, q.components = bs
  induction as generalizing bs with
  | nil => cases bs <;> simp [compareComponents]
  | cons a as ih =>
    cases bs with
    | nil => simp [compareComponents]
    | cons b bs =>
      rw [compareComponents, Ordering.then_eq_lt, Component.compare_eq_lt_iff,
        Component.compare_eq_eq_iff, ih, List.cons_lex_cons_iff]

end Path

/-! ## The order of places -/

namespace Location

/-- What the order of places looks at: the components of the file, the line and the column. -/
def key (l : Location) : List Path.Component × ℕ × ℕ := (l.file.components, l.line, l.column)

/-- The place is not behind another one: its file stands before the other one, or the files have
the same components and its line is smaller, or the lines are the same too and its column is not
greater. -/
def NotBehind (a b : Location) : Prop :=
  List.Lex Path.Component.Before a.file.components b.file.components ∨
    a.file.components = b.file.components ∧
      (a.line < b.line ∨ a.line = b.line ∧ a.column ≤ b.column)

/-- The comparison of places is the order of places. -/
theorem isLE_compare_iff {a b : Location} : (a.compare b).isLE = true ↔ a.NotBehind b := by
  rw [Location.compare, Ordering.isLE_then_iff_or, Ordering.isLE_then_iff_or,
    Path.compare_eq_lt_iff, Path.compare_eq_eq_iff, Nat.compare_eq_lt, Nat.compare_eq_eq,
    Nat.isLE_compare, NotBehind]

theorem compare_eq_eq_iff {a b : Location} : a.compare b = .eq ↔ a.key = b.key := by
  rw [Location.compare, Ordering.then_eq_eq, Ordering.then_eq_eq, Path.compare_eq_eq_iff,
    Nat.compare_eq_eq, Nat.compare_eq_eq, key, key, Prod.mk.injEq, Prod.mk.injEq]

/-- Of two places, one is not behind the other. -/
theorem notBehind_total (a b : Location) : a.NotBehind b ∨ b.NotBehind a := by
  rw [← isLE_compare_iff, ← isLE_compare_iff, ← Bool.or_eq_true]
  exact isLE_or_isLE Location.compare a b

/-- The order of places is transitive. -/
theorem NotBehind.trans {a b c : Location} (hab : a.NotBehind b) (hbc : b.NotBehind c) :
    a.NotBehind c := by
  rw [← isLE_compare_iff] at *
  exact Std.TransCmp.isLE_trans hab hbc

/-- Two places are not behind each other exactly if the order sees the same in both. -/
theorem notBehind_and_notBehind_iff {a b : Location} :
    a.NotBehind b ∧ b.NotBehind a ↔ a.key = b.key := by
  rw [← compare_eq_eq_iff, ← isLE_compare_iff, ← isLE_compare_iff]
  constructor
  · exact fun h => Std.OrientedCmp.isLE_antisymm h.1 h.2
  · intro h
    have hswap : b.compare a = .eq := Std.OrientedCmp.eq_symm h
    simp [h, hswap]

end Location

/-! ## Sorting -/

/-- Findings are sorted by their places. -/
theorem Finding.precedes_iff {f g : Finding} :
    f.precedes g = true ↔ f.location.NotBehind g.location :=
  Location.isLE_compare_iff

/-- Findings are equal in the order exactly if it sees the same in their places. -/
theorem Finding.precedes_and_precedes_eq (f g : Finding) :
    (f.precedes g && g.precedes f) = decide (g.location.key = f.location.key) := by
  rw [Bool.eq_iff_iff, Bool.and_eq_true, Finding.precedes_iff, Finding.precedes_iff,
    Location.notBehind_and_notBehind_iff, decide_eq_true_eq, eq_comm]

namespace Report

/-- Findings at a place keep their sequence. -/
theorem filter_key_sorted (r : Report) (place : Location) :
    r.sorted.findings.filter (·.location.key = place.key) =
      r.findings.filter (·.location.key = place.key) := by
  -- any finding at the place tells which ones are equal to it
  have hstable := r.isStableSort_sorted.stable { (default : Finding) with location := place }
  simpa only [Finding.precedes_and_precedes_eq] using hstable

/-- Sorting a sorted report changes nothing. -/
theorem sorted_sorted (r : Report) : r.sorted.sorted = r.sorted := by
  have hsorted : r.sorted.findings.mergeSort Finding.precedes = r.sorted.findings :=
    List.mergeSort_of_pairwise r.isStableSort_sorted.ordered
  rw [sorted, hsorted]

/-- Sorting changes no number of findings. -/
theorem counts_sorted (r : Report) : r.sorted.counts = r.counts := by
  have hcount : ∀ severity, r.sorted.count severity = r.count severity := fun severity =>
    r.isStableSort_sorted.perm.countP_eq _
  rw [counts, hcount, hcount, hcount, counts]

/-- Findings at different places are sorted in one way, whatever order they came in. -/
theorem findings_sorted_eq_of_perm {r other : Report} (hperm : other.findings.Perm r.findings)
    (hkeys : (r.findings.map (·.location.key)).Nodup) :
    other.sorted.findings = r.sorted.findings := by
  refine eq_mergeSort_of_apart Finding.precedes_trans Finding.precedes_total ?_
    (other.isStableSort_sorted.perm.trans hperm) other.isStableSort_sorted.ordered
  -- findings that the order cannot tell apart have the same place, so they are the same
  intro f hf g hg hfg hgf
  refine List.inj_on_of_nodup_map hkeys hf hg (Location.notBehind_and_notBehind_iff.1 ⟨?_, ?_⟩)
  · exact Finding.precedes_iff.1 hfg
  · exact Finding.precedes_iff.1 hgf

/-- Sorting a report. Its findings are those of the report, none behind the next ones, and those at
one place stand as they came. Sorting again changes nothing, and the number of files and the
numbers of errors, warnings and remarks stay the same. Two reports with the same findings in
another order, all of them at different places, are sorted into the same list.

The order of places that the library computes is the one by components, line and column. It is a
total preorder, in which places are equal exactly if components, line and column are. -/
theorem sorted_by_place (r : Report) :
    r.sorted.findings.Perm r.findings ∧
    r.sorted.findings.Pairwise (fun f g => f.location.NotBehind g.location) ∧
    (∀ place : Location, r.sorted.findings.filter (·.location.key = place.key) =
      r.findings.filter (·.location.key = place.key)) ∧
    r.sorted.sorted = r.sorted ∧
    r.sorted.filesChecked = r.filesChecked ∧ r.sorted.counts = r.counts ∧
    (∀ other : Report, other.findings.Perm r.findings →
      (r.findings.map (·.location.key)).Nodup → other.sorted.findings = r.sorted.findings) ∧
    (∀ a b : Location, (a.compare b).isLE = true ↔ a.NotBehind b) ∧
    (∀ a b : Location, a.NotBehind b ∨ b.NotBehind a) ∧
    (∀ a b c : Location, a.NotBehind b → b.NotBehind c → a.NotBehind c) ∧
    ∀ a b : Location, a.NotBehind b ∧ b.NotBehind a ↔ a.key = b.key := by
  have hstable := r.isStableSort_sorted
  refine ⟨hstable.perm, hstable.ordered.imp Finding.precedes_iff.1, r.filter_key_sorted,
    r.sorted_sorted, rfl, r.counts_sorted, fun other => findings_sorted_eq_of_perm,
    fun a b => Location.isLE_compare_iff, Location.notBehind_total,
    fun a b c => Location.NotBehind.trans, fun a b => Location.notBehind_and_notBehind_iff⟩

/-- Three findings in two orders. Two of them are in one file, whose path is spelled in two ways;
the third one is in a file whose spelling comes before both. -/
theorem sorted_by_place_respelled :
    let finding (file : String) (line column : ℕ) : Finding :=
      ⟨"AMD002", "no-named-define", .error, ⟨⟨file⟩, line, column, 0, 0⟩, "", none, [], false⟩
    let first := finding "a/./b.js" 1 7
    let second := finding "a//b.js" 2 1
    let third := finding "a-b.js" 1 1
    let r : Report := ⟨[third, second, first], 2⟩
    (r.findings.map (·.location.key)).Nodup ∧
      r.sorted.findings = [first, second, third] ∧
      (Report.sorted ⟨[second, first, third], 2⟩).findings = [first, second, third] := by
  intro finding first second third r
  have hkeys : (r.findings.map (·.location.key)).Nodup := by decide
  have hordered : [first, second, third].Pairwise fun f g => f.precedes g = true := by decide
  have harranged : (Report.sorted ⟨[first, second, third], 2⟩).findings = [first, second, third] :=
    List.mergeSort_of_pairwise hordered
  obtain ⟨-, -, -, -, -, -, hperm, -⟩ := r.sorted_by_place
  have hsorted : r.sorted.findings = [first, second, third] :=
    (hperm ⟨[first, second, third], 2⟩ (by decide) hkeys).symm.trans harranged
  exact ⟨hkeys, hsorted, (hperm ⟨[second, first, third], 2⟩ (by decide) hkeys).trans hsorted⟩

end Report

end LoaderLint
