import LoaderLint.Analyzer.Run
import Mathlib.Data.List.Nodup

/-!
# The orders of paths and of places

Paths are compared component by component and places by file, line and column. Both comparisons are
total preorders. Two paths compare equal exactly if they have the same components, so different
spellings of a path are one path for the order.

The module introduces:

* `IsStableSort` — a list arranged in an order, with items that the order does not tell apart in
  the order in which they came.

There is only one such arrangement (`eq_of_pairwise_of_filter_eq`), so sorting may come before or
after leaving items out (`filter_mergeSort`). Sorting findings is such an arrangement
(`Report.isStableSort_sorted`), and sorting files with different paths gives a result that does not
depend on the order they came in (`SourceFile.mergeSort_eq_of_perm`).
-/

namespace LoaderLint

open Std (TransCmp OrientedCmp LawfulEqCmp ReflCmp)

/-! ## Comparisons -/

/-- Comparing by a key keeps the laws of a comparison of keys. -/
theorem transCmp_on {α β : Type} (cmp : β → β → Ordering) [TransCmp cmp] (key : α → β) :
    TransCmp fun a b => cmp (key a) (key b) where
  eq_swap := OrientedCmp.eq_swap
  isLE_trans := TransCmp.isLE_trans

/-- In a total preorder one of two values is not behind the other. -/
theorem isLE_or_isLE {α : Type} (cmp : α → α → Ordering) [OrientedCmp cmp] (a b : α) :
    ((cmp a b).isLE || (cmp b a).isLE) = true := by
  have hswap : cmp a b = (cmp b a).swap := OrientedCmp.eq_swap
  rw [hswap]
  cases cmp b a <;> rfl

namespace Path

namespace Component

/-- Texts are compared like lists of the numbers of their characters. -/
theorem compareTexts_eq_compareLex : compareTexts = List.compareLex (compareOn Char.toNat) := by
  funext a b
  induction a generalizing b with
  | nil => cases b <;> rfl
  | cons c cs ih =>
    cases b with
    | nil => rfl
    | cons d ds =>
      rw [compareTexts, List.compareLex_cons_cons, ih]
      rfl

instance : LawfulEqCmp (compareOn Char.toNat) where
  eq_of_compare h := Char.toNat_inj.1 (Std.LawfulEqOrd.eq_of_compare h)

instance : TransCmp compareTexts := by
  rw [compareTexts_eq_compareLex]
  infer_instance

instance : LawfulEqCmp compareTexts := by
  rw [compareTexts_eq_compareLex]
  infer_instance

/-- The text of a name; nothing for other components. -/
def text : Component → List Char
  | name text => text
  | _ => []

/-- Components are compared by their kinds, then by their texts. -/
theorem compare_eq_compareLex :
    Component.compare =
      compareLex (compareOn rank) (fun a b => compareTexts a.text b.text) := by
  funext a b
  cases a <;> cases b <;> rfl

instance : TransCmp Component.compare := by
  rw [compare_eq_compareLex]
  have : TransCmp fun a b : Component => compareTexts a.text b.text :=
    transCmp_on compareTexts text
  infer_instance

instance : LawfulEqCmp Component.compare where
  compare_self := by
    intro a
    cases a with
    | name t => exact ReflCmp.compare_self
    | _ => rfl
  eq_of_compare := by
    intro a b h
    cases a <;> cases b <;> simp_all [Component.compare, rank]

end Component

/-- Paths are compared like lists of components. -/
theorem compareComponents_eq_compareLex :
    compareComponents = List.compareLex Component.compare := by
  funext a b
  induction a generalizing b with
  | nil => cases b <;> rfl
  | cons c cs ih =>
    cases b with
    | nil => rfl
    | cons d ds => rw [compareComponents, List.compareLex_cons_cons, ih]

instance : TransCmp Path.compare := by
  have : TransCmp compareComponents := by
    rw [compareComponents_eq_compareLex]
    infer_instance
  exact transCmp_on compareComponents components

/-- Two paths compare equal exactly if they have the same components. -/
theorem compare_eq_eq_iff {p q : Path} : p.compare q = .eq ↔ p.components = q.components := by
  rw [Path.compare, compareComponents_eq_compareLex]
  exact Std.LawfulEqCmp.compare_eq_iff_eq

end Path

/-- Places are compared by file, then by line, then by column. -/
theorem Location.compare_eq_compareLex :
    Location.compare =
      compareLex (fun a b => a.file.compare b.file)
        (compareLex (compareOn Location.line) (compareOn Location.column)) := rfl

instance : TransCmp Location.compare := by
  rw [Location.compare_eq_compareLex]
  have : TransCmp fun a b : Location => a.file.compare b.file :=
    transCmp_on Path.compare Location.file
  infer_instance

/-! ## Stable sorting -/

/-- `sorted` has the items of `items` in the order `le`, and those that are equal in this order one
after the other as they came. -/
structure IsStableSort {α : Type} (le : α → α → Bool) (items sorted : List α) : Prop where
  /-- The items are the same. -/
  perm : sorted.Perm items
  /-- They are in order. -/
  ordered : sorted.Pairwise fun a b => le a b = true
  /-- Items that are equal in the order to a given one stand as they came. -/
  stable : ∀ a, sorted.filter (fun b => le a b && le b a) = items.filter fun b => le a b && le b a

/-- Sorting by merging is stable. -/
theorem isStableSort_mergeSort {α : Type} {le : α → α → Bool}
    (trans : ∀ a b c, le a b = true → le b c = true → le a c = true)
    (total : ∀ a b, (le a b || le b a) = true) (items : List α) :
    IsStableSort le items (items.mergeSort le) where
  perm := List.mergeSort_perm items le
  ordered := List.pairwise_mergeSort trans total items
  stable a := by
    set same : α → Bool := fun b => le a b && le b a
    -- items that are equal to `a` are in order among themselves, so sorting keeps their sequence
    have hordered : (items.filter same).Pairwise fun b c => le b c = true := by
      refine List.pairwise_of_forall_mem_list fun b hb c hc => ?_
      have hba := (Bool.and_eq_true_iff.1 (List.mem_filter.1 hb).2).2
      have hac := (Bool.and_eq_true_iff.1 (List.mem_filter.1 hc).2).1
      exact trans b a c hba hac
    have hsublist : (items.filter same).Sublist (items.mergeSort le) :=
      List.sublist_mergeSort trans total hordered List.filter_sublist
    have hfiltered : (items.filter same).Sublist ((items.mergeSort le).filter same) := by
      simpa using hsublist.filter same
    exact (hfiltered.eq_of_length ((List.mergeSort_perm items le).filter same).length_eq.symm).symm

section

variable {α : Type} {le : α → α → Bool} {xs ys items sorted : List α}

/-- Lists in which the items equal to a given one are the same have the same items. -/
theorem mem_iff_of_filter_eq (refl : ∀ a, le a a = true)
    (hsame : ∀ a, xs.filter (fun b => le a b && le b a) = ys.filter fun b => le a b && le b a)
    (a : α) : a ∈ xs ↔ a ∈ ys := by
  have hfilter := congrArg (a ∈ ·) (hsame a)
  simpa [List.mem_filter, refl a] using hfilter

/-- Items in order are arranged in one way, once those that are equal in the order have their
sequence. -/
theorem eq_of_pairwise_of_filter_eq (refl : ∀ a, le a a = true)
    (hxs : xs.Pairwise fun a b => le a b = true) (hys : ys.Pairwise fun a b => le a b = true)
    (hsame : ∀ a, xs.filter (fun b => le a b && le b a) = ys.filter fun b => le a b && le b a) :
    xs = ys := by
  have hmem := mem_iff_of_filter_eq refl hsame
  induction xs generalizing ys with
  | nil =>
    cases ys with
    | nil => rfl
    | cons y ys => simpa using hmem y
  | cons x xs ih =>
    cases ys with
    | nil => simpa using hmem x
    | cons y ys =>
      rw [List.pairwise_cons] at hxs hys
      -- each of the two first items is in the other list, so neither is behind the other
      have hxy : le x y = true := by
        rcases List.mem_cons.1 ((hmem y).2 List.mem_cons_self) with rfl | hy
        · exact refl y
        · exact hxs.1 y hy
      have hyx : le y x = true := by
        rcases List.mem_cons.1 ((hmem x).1 List.mem_cons_self) with rfl | hx
        · exact refl x
        · exact hys.1 x hx
      have hfirst := hsame x
      rw [List.filter_cons_of_pos (by simp [refl x]),
        List.filter_cons_of_pos (by simp [hxy, hyx])] at hfirst
      obtain rfl : x = y := (List.cons.inj hfirst).1
      -- without this item both lists still have the same items equal to any given one
      have hrest : ∀ a, xs.filter (fun b => le a b && le b a) =
          ys.filter fun b => le a b && le b a := by
        intro a
        have hcons := hsame a
        rw [List.filter_cons, List.filter_cons] at hcons
        split at hcons
        · exact (List.cons.inj hcons).2
        · exact hcons
      rw [ih hxs.2 hys.2 hrest (mem_iff_of_filter_eq refl hrest)]

/-- What is kept of a stably sorted list is what is kept of the items, stably sorted. -/
theorem IsStableSort.filter (h : IsStableSort le items sorted) (keep : α → Bool) :
    IsStableSort le (items.filter keep) (sorted.filter keep) where
  perm := h.perm.filter keep
  ordered := h.ordered.filter keep
  stable a := by rw [List.filter_comm, h.stable a, List.filter_comm]

/-- Sorting may come before or after leaving items out. -/
theorem filter_mergeSort (trans : ∀ a b c, le a b = true → le b c = true → le a c = true)
    (total : ∀ a b, (le a b || le b a) = true) (items : List α) (keep : α → Bool) :
    (items.mergeSort le).filter keep = (items.filter keep).mergeSort le := by
  have hleft := (isStableSort_mergeSort trans total items).filter keep
  have hright := isStableSort_mergeSort trans total (items.filter keep)
  have hrefl : ∀ a, le a a = true := fun a => by simpa using total a a
  exact eq_of_pairwise_of_filter_eq hrefl hleft.ordered hright.ordered fun a =>
    (hleft.stable a).trans (hright.stable a).symm

/-- Items that the order tells apart have only one arrangement in this order. -/
theorem eq_mergeSort_of_apart (trans : ∀ a b c, le a b = true → le b c = true → le a c = true)
    (total : ∀ a b, (le a b || le b a) = true)
    (hapart : ∀ a ∈ items, ∀ b ∈ items, le a b = true → le b a = true → a = b)
    (hperm : sorted.Perm items) (hsorted : sorted.Pairwise fun a b => le a b = true) :
    sorted = items.mergeSort le := by
  have hmerge := List.mergeSort_perm items le
  refine List.Perm.eq_of_pairwise (fun a b ha hb => ?_) hsorted
    (List.pairwise_mergeSort trans total items) (hperm.trans hmerge.symm)
  exact hapart a (hperm.subset ha) b (hmerge.subset hb)

end

/-- The order of findings is transitive. -/
theorem Finding.precedes_trans (a b c : Finding) :
    a.precedes b = true → b.precedes c = true → a.precedes c = true :=
  TransCmp.isLE_trans

/-- The order of findings is total. -/
theorem Finding.precedes_total (a b : Finding) : (a.precedes b || b.precedes a) = true :=
  isLE_or_isLE Location.compare a.location b.location

/-- The findings of a sorted report are stably sorted by their places. -/
theorem Report.isStableSort_sorted (r : Report) :
    IsStableSort Finding.precedes r.findings r.sorted.findings :=
  isStableSort_mergeSort Finding.precedes_trans Finding.precedes_total r.findings

/-! ## Files in the order of their paths -/

namespace SourceFile

/-- The order of files is transitive. -/
theorem precedes_trans (f g h : SourceFile) :
    f.precedes g = true → g.precedes h = true → f.precedes h = true :=
  TransCmp.isLE_trans

/-- The order of files is total. -/
theorem precedes_total (f g : SourceFile) : (f.precedes g || g.precedes f) = true :=
  isLE_or_isLE Path.compare f.path g.path

/-- Among files with different paths, only a file itself stands both before and behind it. -/
theorem eq_of_precedes {files : List SourceFile}
    (hpaths : (files.map (·.path.components)).Nodup) {f g : SourceFile} (hf : f ∈ files)
    (hg : g ∈ files) (hfg : f.precedes g = true) (hgf : g.precedes f = true) : f = g := by
  have heq : f.path.compare g.path = .eq := OrientedCmp.isLE_antisymm hfg hgf
  exact List.inj_on_of_nodup_map hpaths hf hg (Path.compare_eq_eq_iff.1 heq)

/-- Files with different paths have only one arrangement in the order of their paths. -/
theorem eq_mergeSort_of_perm {files sorted : List SourceFile}
    (hpaths : (files.map (·.path.components)).Nodup) (hperm : sorted.Perm files)
    (hsorted : sorted.Pairwise fun f g => f.precedes g = true) :
    sorted = files.mergeSort precedes :=
  eq_mergeSort_of_apart precedes_trans precedes_total
    (fun _ hf _ hg => eq_of_precedes hpaths hf hg) hperm hsorted

/-- The arrangement of files with different paths does not depend on the order they came in. -/
theorem mergeSort_eq_of_perm {files others : List SourceFile}
    (hpaths : (files.map (·.path.components)).Nodup) (hperm : others.Perm files) :
    others.mergeSort precedes = files.mergeSort precedes :=
  eq_mergeSort_of_perm hpaths ((List.mergeSort_perm others precedes).trans hperm)
    (List.pairwise_mergeSort precedes_trans precedes_total others)

/-- In the arrangement of files with different paths each is strictly before the next ones. -/
theorem pairwise_lt_mergeSort {files : List SourceFile}
    (hpaths : (files.map (·.path.components)).Nodup) :
    (files.mergeSort precedes).Pairwise fun f g => f.path.compare g.path = .lt := by
  have hperm := List.mergeSort_perm files precedes
  have hordered := List.pairwise_mergeSort precedes_trans precedes_total files
  have hdifferent : (files.mergeSort precedes).Pairwise
      fun f g => f.path.components ≠ g.path.components :=
    List.pairwise_map.1 ((hperm.map _).nodup_iff.2 hpaths)
  refine hordered.imp₂ (fun f g hle hne => ?_) hdifferent
  cases hcompare : f.path.compare g.path with
  | lt => rfl
  | eq => exact absurd (Path.compare_eq_eq_iff.1 hcompare) hne
  | gt => simp [precedes, hcompare] at hle

end SourceFile

end LoaderLint
