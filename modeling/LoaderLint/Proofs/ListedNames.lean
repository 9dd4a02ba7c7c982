import LoaderLint.Config.Selection
import Mathlib.Data.List.Sort
import Mathlib.Data.String.Basic

/-!
# Lists of names

A policy that lists names is a set of names: they are kept in increasing order, each of them once,
so that neither the order nor the repetition in which they are given matters. Where a document
lists them, a repetition is an error that names the first name that comes again.

The module introduces:

* `SurplusPolicy.sortedNames` — the names that a policy keeps;
* `Repeats` — the first name of a list that is equal to an earlier one.
-/

namespace LoaderLint

namespace SurplusPolicy

variable {name x : String} {names names' : List String}

/-- The names in increasing order, each of them once. -/
def sortedNames (names : List String) : List String :=
  names.foldl (fun sorted name => insertName name sorted) []

/-- A policy keeps the names in order. -/
theorem ofNames_eq (names : List String) : ofNames names = allowList (sortedNames names) := rfl

/-- A name is added to those that are there. -/
theorem mem_insertName : x ∈ insertName name names ↔ x = name ∨ x ∈ names := by
  induction names with
  | nil => simp [insertName]
  | cons other rest ih =>
    rw [insertName]
    split
    · rename_i hsame
      rw [hsame, List.mem_cons]
      exact ⟨.inr, fun h => h.elim .inl id⟩
    · split
      · exact List.mem_cons
      · rw [List.mem_cons, ih, List.mem_cons]
        exact or_left_comm

/-- Putting a name in its place keeps the names in increasing order. -/
theorem pairwise_insertName (h : names.Pairwise (· < ·)) :
    (insertName name names).Pairwise (· < ·) := by
  induction names with
  | nil => exact List.pairwise_singleton _ _
  | cons other rest ih =>
    obtain ⟨hother, hrest⟩ := List.pairwise_cons.1 h
    rw [insertName]
    split
    · exact h
    · rename_i hne
      split
      · rename_i hlt
        refine List.pairwise_cons.2 ⟨?_, h⟩
        intro x hx
        rcases List.mem_cons.1 hx with rfl | hx
        · exact hlt
        · exact hlt.trans (hother x hx)
      · rename_i hge
        -- the name goes behind `other`, which is smaller
        have hlt : other < name := lt_of_le_of_ne (not_lt.1 hge) (Ne.symm hne)
        refine List.pairwise_cons.2 ⟨?_, ih hrest⟩
        intro x hx
        rcases mem_insertName.1 hx with rfl | hx
        · exact hlt
        · exact hother x hx

/-- Putting names in their places one after the other keeps the order. -/
theorem pairwise_foldl_insertName {sorted : List String} (h : sorted.Pairwise (· < ·)) :
    (names.foldl (fun sorted name => insertName name sorted) sorted).Pairwise (· < ·) := by
  induction names generalizing sorted with
  | nil => exact h
  | cons name rest ih => exact ih (pairwise_insertName h)

/-- All names are added to those that are there. -/
theorem mem_foldl_insertName {sorted : List String} :
    x ∈ names.foldl (fun sorted name => insertName name sorted) sorted ↔
      x ∈ sorted ∨ x ∈ names := by
  induction names generalizing sorted with
  | nil => simp
  | cons name rest ih =>
    rw [List.foldl_cons, ih, mem_insertName, List.mem_cons, or_assoc]
    exact or_left_comm

/-- The names of a policy are in increasing order. -/
theorem pairwise_sortedNames (names : List String) : (sortedNames names).Pairwise (· < ·) :=
  pairwise_foldl_insertName List.Pairwise.nil

/-- The names of a policy are those that are given. -/
theorem mem_sortedNames : x ∈ sortedNames names ↔ x ∈ names :=
  mem_foldl_insertName.trans (by simp)

/-- The names of a policy are the ones with the same members in increasing order. -/
theorem ofNames_eq_allowList_iff {listed : List String} :
    ofNames names = allowList listed ↔
      listed.Pairwise (· < ·) ∧ ∀ x, x ∈ listed ↔ x ∈ names := by
  rw [ofNames_eq, allowList.injEq]
  constructor
  · rintro rfl
    exact ⟨pairwise_sortedNames names, fun x => mem_sortedNames⟩
  · rintro ⟨hsorted, hmem⟩
    refine (pairwise_sortedNames names).eq_of_mem_iff hsorted fun x => ?_
    rw [mem_sortedNames, hmem]

/-- Neither order nor repetition of names matters. -/
theorem ofNames_congr (h : ∀ x, x ∈ names ↔ x ∈ names') : ofNames names = ofNames names' := by
  rw [ofNames_eq names', ofNames_eq_allowList_iff]
  refine ⟨pairwise_sortedNames names', fun x => ?_⟩
  rw [mem_sortedNames, h]

/-- A single dependency is tolerated if its name is among those that are given. -/
theorem tolerates_ofNames_singleton :
    (ofNames names).tolerates [some name] = true ↔ name ∈ names := by
  rw [ofNames_eq, tolerates, List.all_cons, List.all_nil, Bool.and_true, List.contains_iff_mem,
    mem_sortedNames]

end SurplusPolicy

/-- `name` is the first name of the list that is equal to an earlier one. -/
def Repeats (names : List String) (name : String) : Prop :=
  ∃ before behind, names = before ++ name :: behind ∧ before.Nodup ∧ name ∈ before

/-- Nothing is found exactly if all names are different and new. -/
theorem firstRepeated?_eq_none_iff {seen names : List String} :
    firstRepeated? seen names = none ↔ names.Nodup ∧ ∀ x ∈ names, x ∉ seen := by
  induction names generalizing seen with
  | nil => simp [firstRepeated?]
  | cons name rest ih =>
    rw [firstRepeated?]
    split
    · rename_i hseen
      simp [List.contains_iff_mem.1 hseen]
    · rename_i hnew
      rw [List.contains_iff_mem] at hnew
      rw [ih, List.nodup_cons]
      constructor
      · rintro ⟨hnodup, hrest⟩
        refine ⟨⟨fun hmem => hrest name hmem List.mem_cons_self, hnodup⟩, ?_⟩
        exact List.forall_mem_cons.2 ⟨hnew,
          fun x hx hmem => hrest x hx (List.mem_cons_of_mem _ hmem)⟩
      · rintro ⟨⟨hname, hnodup⟩, hall⟩
        refine ⟨hnodup, fun x hx hmem => ?_⟩
        rcases List.mem_cons.1 hmem with rfl | hmem
        · exact hname hx
        · exact hall x (List.mem_cons_of_mem _ hx) hmem

/-- Different names that were not seen before are passed over, and then they have been seen. -/
theorem firstRepeated?_append {seen before rest : List String} (hnodup : before.Nodup)
    (hfresh : ∀ x ∈ before, x ∉ seen) :
    firstRepeated? seen (before ++ rest) = firstRepeated? (before.reverse ++ seen) rest := by
  induction before generalizing seen with
  | nil => rfl
  | cons x before ih =>
    obtain ⟨hx, hnodup⟩ := List.nodup_cons.1 hnodup
    obtain ⟨hxseen, hfresh⟩ := List.forall_mem_cons.1 hfresh
    rw [List.cons_append, firstRepeated?, if_neg (List.contains_iff_mem.not.2 hxseen), ih hnodup,
      List.reverse_cons, List.append_assoc, List.singleton_append]
    intro y hy hmem
    rcases List.mem_cons.1 hmem with rfl | hmem
    · exact hx hy
    · exact hfresh y hy hmem

/-- What is found is the first name that was seen before the list or that comes again in it. -/
theorem firstRepeated?_eq_some_iff {seen names : List String} {name : String} :
    firstRepeated? seen names = some name ↔
      ∃ before behind, names = before ++ name :: behind ∧ before.Nodup ∧
        (∀ x ∈ before, x ∉ seen) ∧ (name ∈ seen ∨ name ∈ before) := by
  constructor
  · intro h
    -- names go over to the seen ones one by one, so a repetition is noticed at its second place
    induction names generalizing seen with
    | nil => cases h
    | cons first rest ih =>
      rw [firstRepeated?] at h
      split at h
      · rename_i hseen
        cases h
        exact ⟨[], rest, rfl, List.nodup_nil, List.forall_mem_nil _,
          .inl (List.contains_iff_mem.1 hseen)⟩
      · rename_i hnew
        rw [List.contains_iff_mem] at hnew
        obtain ⟨before, behind, rfl, hnodup, hfresh, hagain⟩ := ih h
        refine ⟨first :: before, behind, rfl, List.nodup_cons.2 ⟨?_, hnodup⟩, ?_, ?_⟩
        · exact fun hmem => hfresh first hmem List.mem_cons_self
        · exact List.forall_mem_cons.2
            ⟨hnew, fun x hx hmem => hfresh x hx (List.mem_cons_of_mem _ hmem)⟩
        · rcases hagain with hagain | hbefore
          · rcases List.mem_cons.1 hagain with rfl | hseen
            · exact .inr List.mem_cons_self
            · exact .inl hseen
          · exact .inr (List.mem_cons_of_mem _ hbefore)
  · rintro ⟨before, behind, rfl, hnodup, hfresh, hagain⟩
    rw [firstRepeated?_append hnodup hfresh, firstRepeated?, if_pos]
    rw [List.contains_iff_mem, List.mem_append, List.mem_reverse]
    exact hagain.symm

namespace SurplusPolicy

variable {names : List String}

/-- Names that a document lists make a policy if they are different. -/
theorem ofDistinct_eq_ok_iff {p : SurplusPolicy} :
    ofDistinct names = .ok p ↔ names.Nodup ∧ p = ofNames names := by
  have hnodup : names.Nodup ↔ firstRepeated? [] names = none := by
    simp [firstRepeated?_eq_none_iff]
  rw [ofDistinct, hnodup]
  cases firstRepeated? [] names with
  | none => simp [eq_comm]
  | some name => simp

/-- Otherwise the first name that comes again is the error. -/
theorem ofDistinct_eq_error_iff {e : OptionError} :
    ofDistinct names = .error e ↔ ∃ name, Repeats names name ∧ e = .duplicateName name := by
  have hrepeats (name : String) : Repeats names name ↔ firstRepeated? [] names = some name := by
    simp [firstRepeated?_eq_some_iff, Repeats]
  rw [ofDistinct]
  simp only [hrepeats]
  cases firstRepeated? [] names with
  | none => simp
  | some name => simp [eq_comm]

end SurplusPolicy

end LoaderLint
