import LoaderLint.Proofs.PlaceOrder
import LoaderLint.Proofs.TextLines
import Mathlib.Data.List.TakeWhile

/-!
# Paths below a directory

A plain path is one in whose spelling every text between slashes counts. Seen from a directory with
an absolute path, a plain path keeps all that the linter looks at: it is the path relative to the
directory again, it has the same extension, and two of them stand in the same order. The spelling
of the directory makes no difference, whatever slashes and dots it has.

The module introduces:

* `Path.IsPlain` — plain paths;
* `IsFileName` — the names that files can have.

The main results are `Path.relativeTo_join`, `Path.extension?_join` and `Path.compare_join`.
-/

namespace LoaderLint

/-- A name that a file or directory can have. -/
def IsFileName (name : String) : Prop :=
  name ≠ "" ∧ name ≠ "." ∧ name ≠ ".." ∧ '/' ∉ name.toList

instance (name : String) : Decidable (IsFileName name) :=
  inferInstanceAs (Decidable (_ ∧ _))

namespace Path

/-- Every text between the slashes of the spelling counts. -/
def IsPlain (p : Path) : Prop :=
  ∀ piece ∈ List.splitOn '/' p.spelling.toList, isFiller piece = false

/-! ## Plain paths -/

/-- The name of a file is a plain path. -/
theorem isPlain_of_isFileName {name : String} (h : IsFileName name) : IsPlain ⟨name⟩ := by
  obtain ⟨hempty, hdot, -, hslash⟩ := h
  have hsplit := List.splitOn_eq_singleton hslash
  have hempty' : name.toList ≠ [] := fun h => hempty (String.toList_inj.1 h)
  have hdot' : name.toList ≠ ['.'] := fun h => hdot (String.toList_inj.1 h)
  simp [IsPlain, hsplit, isFiller, hempty', hdot']

namespace IsPlain

variable {r : Path}

/-- A plain path is spelled with at least one character. -/
theorem toList_ne_nil (h : r.IsPlain) : r.spelling.toList ≠ [] := by
  intro hnil
  have := h [] (by rw [hnil]; exact List.mem_singleton_self [])
  simp [isFiller] at this

theorem spelling_ne_empty (h : r.IsPlain) : r.spelling ≠ "" := by
  intro hempty
  exact h.toList_ne_nil (by rw [hempty]; rfl)

/-- A plain path does not end with a slash. -/
theorem getLast?_ne (h : r.IsPlain) : r.spelling.toList.getLast? ≠ some '/' := by
  intro hlast
  obtain ⟨start, hstart⟩ := List.getLast?_eq_some_iff.1 hlast
  have := h [] (by rw [hstart, List.splitOn_append_cons_self]; simp)
  simp [isFiller] at this

/-- A plain path is relative. -/
theorem isAbsolute_eq_false (h : r.IsPlain) : r.isAbsolute = false := by
  rw [isAbsolute, decide_eq_false_iff_not]
  intro hhead
  obtain ⟨rest, hrest⟩ := List.head?_eq_some_iff.1 hhead
  have := h [] (by rw [hrest, Text.splitOn_cons_self]; exact List.mem_cons_self)
  simp [isFiller] at this

/-- A plain path has no front, and all texts between its slashes are its parts. -/
theorem parts_eq (h : r.IsPlain) : r.parts = (none, List.splitOn '/' r.spelling.toList) := by
  obtain ⟨first, body, hsplit⟩ := List.exists_cons_of_ne_nil
    (List.splitOn_ne_nil '/' r.spelling.toList)
  have hfirst := h first (by rw [hsplit]; exact List.mem_cons_self)
  simp only [isFiller, Bool.or_eq_false_iff, decide_eq_false_iff_not] at hfirst
  simp [parts, hsplit, hfirst]

/-- A plain path is spelled by its parts. -/
theorem ofPieces_eq (h : r.IsPlain) : ofPieces r.parts.2 = r := by
  rw [h.parts_eq, ofPieces, List.intercalate_splitOn, String.ofList_toList]

/-- All parts of a plain path count. -/
theorem not_isFiller (h : r.IsPlain) : ∀ piece ∈ r.parts.2, ¬isFiller piece = true := by
  rw [h.parts_eq]
  exact fun piece hpiece => by simp [h piece hpiece]

theorem filter_pieces (h : r.IsPlain) : r.parts.2.filter (!isFiller ·) = r.parts.2 :=
  List.filter_eq_self.2 fun piece hpiece => by simp [h.not_isFiller piece hpiece]

/-- The components of a plain path are its parts. -/
theorem components_eq (h : r.IsPlain) : r.components = r.parts.2.map componentOf := by
  simp only [components, h.filter_pieces]
  rw [h.parts_eq]
  rfl

/-- A plain path has a component. -/
theorem components_ne_nil (h : r.IsPlain) : r.components ≠ [] := by
  rw [h.components_eq, h.parts_eq]
  simp [List.splitOn_ne_nil]

/-- Nothing is cut off at the end of a plain path. -/
theorem trimFillers_eq (h : r.IsPlain) : trimFillers r.parts.2 = r.parts.2 := by
  have hback : r.parts.2.reverse.dropWhile isFiller = r.parts.2.reverse := by
    refine List.dropWhile_eq_self_iff.2 fun hl => ?_
    exact h.not_isFiller _ (List.mem_reverse.1 (List.getElem_mem _))
  rw [trimFillers, hback, List.reverse_reverse]

/-- Nothing is cut off at the start of a plain path. -/
theorem dropWhile_append_eq (h : r.IsPlain) {gap : List (List Char)}
    (hgap : ∀ piece ∈ gap, isFiller piece = true) :
    (gap ++ r.parts.2).dropWhile isFiller = r.parts.2 := by
  rw [List.dropWhile_append_of_pos hgap]
  exact List.dropWhile_eq_self_iff.2 fun hl => h.not_isFiller _ (List.getElem_mem _)

end IsPlain

/-! ## Seen from a directory -/

section

variable {p r q : Path}

/-- An absolute path is not empty. -/
theorem spelling_ne_empty_of_isAbsolute (hp : p.isAbsolute = true) : p.spelling ≠ "" := by
  intro hempty
  simp [isAbsolute, hempty] at hp

/-- A plain path is written behind the directory, with one slash between the two. -/
theorem toList_join (hp : p.isAbsolute = true) (hr : r.IsPlain) :
    (p.join r).spelling.toList =
      p.spelling.toList ++ (if p.spelling.toList.getLast? = some '/' then [] else ['/']) ++
        r.spelling.toList := by
  have hne := spelling_ne_empty_of_isAbsolute hp
  rw [join, hr.isAbsolute_eq_false, if_neg Bool.false_ne_true]
  by_cases hlast : p.spelling.toList.getLast? = some '/'
  · simp [hlast]
  · simp [hlast, hne]

/-- The texts between slashes of a relative path stand behind those of the directory. -/
theorem exists_pieces_join (hp : p.spelling ≠ "") (hq : q.isAbsolute = false) :
    ∃ kept gap, kept ≠ [] ∧ (∀ piece ∈ gap, isFiller piece = true) ∧
      List.splitOn '/' p.spelling.toList = kept ++ gap ∧
      List.splitOn '/' (p.join q).spelling.toList =
        kept ++ List.splitOn '/' q.spelling.toList := by
  rw [join, hq, if_neg Bool.false_ne_true]
  by_cases hlast : p.spelling.toList.getLast? = some '/'
  · -- behind the slash at the end of the directory there is an empty text, which is no component
    obtain ⟨start, hstart⟩ := List.getLast?_eq_some_iff.1 hlast
    refine ⟨List.splitOn '/' start, [[]], List.splitOn_ne_nil '/' start, by simp [isFiller], ?_,
      ?_⟩
    · rw [hstart, List.splitOn_append_cons_self, List.splitOn_nil]
    · rw [if_pos (.inr hlast), String.toList_append, hstart, List.append_assoc,
        List.singleton_append, List.splitOn_append_cons_self]
  · refine ⟨_, [], List.splitOn_ne_nil '/' p.spelling.toList, by simp, (List.append_nil _).symm,
      ?_⟩
    rw [if_neg (not_or.2 ⟨hp, hlast⟩), String.toList_append, String.toList_append,
      List.append_assoc]
    exact List.splitOn_append_cons_self _ _

/-- A relative path does not change what the directory starts with. -/
theorem exists_parts_join (hp : p.spelling ≠ "") (hq : q.isAbsolute = false) :
    ∃ front body gap, (∀ piece ∈ gap, isFiller piece = true) ∧
      p.parts = (front, body ++ gap) ∧
      (p.join q).parts = (front, body ++ List.splitOn '/' q.spelling.toList) := by
  obtain ⟨kept, gap, hkept, hgap, hpieces, hjoin⟩ := exists_pieces_join hp hq
  obtain ⟨first, body, rfl⟩ := List.exists_cons_of_ne_nil hkept
  -- an empty first text with nothing behind it would be the empty path
  have hmore : first = [] → body ++ gap ≠ [] := by
    rintro rfl hnil
    rw [List.cons_append, hnil] at hpieces
    have hspelling := @List.intercalate_splitOn _ p.spelling.toList _ _ '/'
    rw [hpieces] at hspelling
    exact hp (String.toList_inj.1 hspelling.symm)
  rw [List.cons_append] at hpieces hjoin
  -- the first text is the root, the current directory, or a part like the others
  by_cases hroot : first = []
  · refine ⟨some .root, body, gap, hgap, ?_, ?_⟩
    · simp [parts, hpieces, hroot, hmore hroot]
    · simp [parts, hjoin, hroot, List.splitOn_ne_nil]
  · by_cases hdot : first = ['.']
    · refine ⟨some .current, body, gap, hgap, ?_, ?_⟩
      · simp [parts, hpieces, hdot]
      · simp [parts, hjoin, hdot]
    · refine ⟨none, first :: body, gap, hgap, ?_, ?_⟩
      · simp [parts, hpieces, hroot, hdot]
      · simp [parts, hjoin, hroot, hdot]

/-- An absolute path starts with the root. -/
theorem front_of_isAbsolute (hp : p.isAbsolute = true) : p.parts.1 = some .root := by
  obtain ⟨cs, hcs⟩ := List.head?_eq_some_iff.1 (of_decide_eq_true hp)
  simp [parts, hcs, Text.splitOn_cons_self, List.splitOn_ne_nil]

/-- The texts between slashes of a plain path stand behind those of the directory. -/
theorem exists_parts_join_plain (hp : p.isAbsolute = true) (hr : r.IsPlain) :
    ∃ body gap, (∀ piece ∈ gap, isFiller piece = true) ∧
      p.parts = (some .root, body ++ gap) ∧
      (p.join r).parts = (some .root, body ++ r.parts.2) := by
  obtain ⟨front, body, gap, hgap, hparts, hjoin⟩ :=
    exists_parts_join (spelling_ne_empty_of_isAbsolute hp) hr.isAbsolute_eq_false
  have hfront := front_of_isAbsolute hp
  rw [hparts] at hfront
  subst hfront
  rw [hr.parts_eq]
  exact ⟨body, gap, hgap, hparts, hjoin⟩

/-- Nothing is left of parts that do not count. -/
theorem filter_fillers {gap : List (List Char)} (hgap : ∀ piece ∈ gap, isFiller piece = true) :
    gap.filter (!isFiller ·) = [] :=
  List.filter_eq_nil_iff.2 fun piece hpiece => by simp [hgap piece hpiece]

/-- The components of a plain path stand behind those of the directory. -/
theorem components_join (hp : p.isAbsolute = true) (hr : r.IsPlain) :
    (p.join r).components = p.components ++ r.components := by
  obtain ⟨front, gap, hgap, hparts, hjoin⟩ := exists_parts_join_plain hp hr
  rw [hr.components_eq]
  simp only [components, hparts, hjoin, List.filter_append, filter_fillers hgap, hr.filter_pieces,
    List.map_append, List.append_nil, List.append_assoc]

/-- Taking components off the front leaves what stands behind them, and maybe something that does
not count before it. -/
theorem exists_stripBody?_append (front rest : List (List Char)) :
    ∃ gap, (∀ piece ∈ gap, isFiller piece = true) ∧
      stripBody? (front ++ rest) (front.filter (!isFiller ·)) = some (gap ++ rest) := by
  induction front with
  | nil => exact ⟨[], by simp, by simp [stripBody?]⟩
  | cons piece front ih =>
    obtain ⟨gap, hgap, hstrip⟩ := ih
    -- a part that does not count is passed over as long as something is wanted
    by_cases hpiece : isFiller piece = true
    · rw [List.filter_cons_of_neg (by simp [hpiece]), List.cons_append]
      cases hwanted : front.filter (!isFiller ·) with
      | nil =>
        -- nothing is wanted any more, so all that is left of the front does not count
        refine ⟨piece :: front, ?_, by rw [stripBody?, List.cons_append]⟩
        simpa [hpiece, List.filter_eq_nil_iff] using hwanted
      | cons wanted others =>
        rw [hwanted] at hstrip
        exact ⟨gap, hgap, by rw [stripBody?, if_pos hpiece, hstrip]⟩
    · rw [List.filter_cons_of_pos (by simp [hpiece]), List.cons_append, stripBody?, if_neg hpiece,
        if_pos rfl]
      exact ⟨gap, hgap, hstrip⟩

/-- A plain path is the path relative to the directory it is seen from. -/
theorem relativeTo_join (hp : p.isAbsolute = true) (hr : r.IsPlain) :
    (p.join r).relativeTo p = r := by
  obtain ⟨front, gap, hgap, hparts, hjoin⟩ := exists_parts_join_plain hp hr
  -- what does not count at the end of the directory is not asked for
  have hwanted : (front ++ gap).filter (!isFiller ·) = front.filter (!isFiller ·) := by
    rw [List.filter_append, filter_fillers hgap, List.append_nil]
  obtain ⟨gap', hgap', hstrip⟩ := exists_stripBody?_append front r.parts.2
  have hstripped : (p.join r).strip? p = some r := by
    simp only [strip?, hparts, hjoin, hwanted, hstrip]
    simp [hr.dropWhile_append_eq hgap', hr.trimFillers_eq, hr.ofPieces_eq]
  rw [relativeTo, hstripped, Option.getD_some]

/-- A plain path is relative to nowhere. -/
theorem relativeTo_empty (hr : r.IsPlain) : r.relativeTo ⟨""⟩ = r := by
  have htrimmed : r.trimmed = r := by
    have hnone : r.parts = (none, r.parts.2) := by rw [hr.parts_eq]
    rw [trimmed, hnone]
    simp only [hr.trimFillers_eq, hr.ofPieces_eq]
  have hempty : parts ⟨""⟩ = (none, [[]]) := rfl
  rw [relativeTo, strip?, hempty]
  simp [isFiller, htrimmed]

/-- A plain path has the file name that it has below the directory. -/
theorem fileName?_join (hp : p.isAbsolute = true) (hr : r.IsPlain) :
    (p.join r).fileName? = r.fileName? := by
  rw [fileName?, components_join hp hr, List.getLast?_append_of_ne_nil _ hr.components_ne_nil]
  rfl

/-- A plain path has the extension that it has below the directory. -/
theorem extension?_join (hp : p.isAbsolute = true) (hr : r.IsPlain) :
    (p.join r).extension? = r.extension? := by
  rw [extension?, fileName?_join hp hr]
  rfl

/-- Components that two paths have in common at their start do not count for their order. -/
theorem compareComponents_append (front as bs : List Component) :
    compareComponents (front ++ as) (front ++ bs) = compareComponents as bs := by
  induction front with
  | nil => rfl
  | cons c front ih =>
    have hself : c.compare c = .eq := Std.ReflCmp.compare_self
    rw [List.cons_append, List.cons_append, compareComponents, hself, ih]
    rfl

/-- Plain paths stand in the order in which they stand below the directory. -/
theorem compare_join (hp : p.isAbsolute = true) (hr : r.IsPlain) (hq : q.IsPlain) :
    (p.join r).compare (p.join q) = r.compare q := by
  rw [compare, components_join hp hr, components_join hp hq, compareComponents_append]
  rfl

/-! ## Names behind plain paths -/

/-- A name is written behind a plain path with a slash between the two. -/
theorem join_isFileName_eq (hr : r.IsPlain) {name : String} (hname : IsFileName name) :
    r.join ⟨name⟩ = ⟨r.spelling ++ "/" ++ name⟩ := by
  have habsolute := (isPlain_of_isFileName hname).isAbsolute_eq_false
  rw [join, habsolute, if_neg Bool.false_ne_true,
    if_neg (not_or.2 ⟨hr.spelling_ne_empty, hr.getLast?_ne⟩)]

/-- A name behind a plain path makes a plain path. -/
theorem IsPlain.join_isFileName (hr : r.IsPlain) {name : String} (hname : IsFileName name) :
    (r.join ⟨name⟩).IsPlain := by
  intro piece hpiece
  rw [join_isFileName_eq hr hname] at hpiece
  simp only [String.toList_append, List.append_assoc] at hpiece
  rw [show "/".toList = ['/'] from rfl, List.singleton_append, List.splitOn_append_cons_self,
    List.mem_append] at hpiece
  rcases hpiece with hpiece | hpiece
  · exact hr piece hpiece
  · exact isPlain_of_isFileName hname piece hpiece

/-- A name behind a plain path may be seen from the directory together with it or after it. -/
theorem join_join (hp : p.isAbsolute = true) (hr : r.IsPlain) {name : String}
    (hname : IsFileName name) : (p.join r).join ⟨name⟩ = p.join (r.join ⟨name⟩) := by
  have hplain := isPlain_of_isFileName hname
  -- the plain path ends the spelling in both cases, so the slash behind it is written alike
  have hlast : (p.join r).spelling.toList.getLast? = r.spelling.toList.getLast? := by
    rw [toList_join hp hr, List.getLast?_append_of_ne_nil _ hr.toList_ne_nil]
  have hne : (p.join r).spelling ≠ "" := by
    intro hempty
    have hnil := toList_join hp hr
    rw [hempty] at hnil
    simp [hr.toList_ne_nil] at hnil
  have hleft : (p.join r).join ⟨name⟩ = ⟨(p.join r).spelling ++ "/" ++ name⟩ := by
    rw [join, hplain.isAbsolute_eq_false, if_neg Bool.false_ne_true,
      if_neg (not_or.2 ⟨hne, by rw [hlast]; exact hr.getLast?_ne⟩)]
  rw [hleft, mk.injEq, ← String.toList_inj, toList_join hp (hr.join_isFileName hname),
    join_isFileName_eq hr hname]
  simp [toList_join hp hr]

end

end Path

end LoaderLint
