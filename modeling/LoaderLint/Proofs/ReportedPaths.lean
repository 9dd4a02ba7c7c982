import LoaderLint.CommandLine.Run
import LoaderLint.Proofs.NodeFindings
import LoaderLint.Proofs.PathsBelow
import Mathlib.Data.List.DropRight

/-!
# Reported paths

A finding shows the path of its file relative to the root of the run. Seen from the root, this path
leads back to the file: it has the components that the path of the file has, however root and path
are spelled. Where the file is below the root, the shown path has the components that come behind
those of the root.

The module introduces:

* `Path.names` — the texts between the slashes of a path that count;
* `Path.Component.isInner` — the components that can stand anywhere in a path;
* `Path.EndsInName` — the paths that have no slash and no dot at their end;
* `CommandLine.World.pictureAt` — a finding beside the line of a file.

Components are what `Path.strip?` compares (`Path.components_of_strip?`,
`Path.exists_strip?_eq_some`), and what `Path.join` puts behind each other
(`Path.components_join_relative`). Names are what leads through a file tree
(`FileTree.locate_eq_of_names`). The main result is `Path.components_join_relativeTo`.
-/

namespace LoaderLint

namespace Path

/-! ## Components and names -/

/-- The texts between the slashes of a path that count. -/
def names (p : Path) : List (List Char) := p.parts.2.filter (!isFiller ·)

/-- Whether a component can stand anywhere in a path, and not only at its start. -/
def Component.isInner : Component → Bool
  | .root | .current => false
  | .parent | .name _ => true

variable {p q base : Path}

/-- The components of a path are what it starts with and its names. -/
theorem components_eq_append (p : Path) :
    p.components = p.parts.1.toList ++ p.names.map componentOf := rfl

/-- Different texts between slashes are different components. -/
theorem componentOf_injective : Function.Injective componentOf := by
  intro a b h
  unfold componentOf at h
  split at h <;> split at h <;> simp_all

/-- A text between slashes is a component that can stand anywhere. -/
theorem isInner_componentOf (piece : List Char) : (componentOf piece).isInner = true := by
  unfold componentOf
  split <;> rfl

/-- A path starts with nothing, the root or a dot. -/
theorem isInner_of_front {c : Component} (h : p.parts.1 = some c) : c.isInner = false := by
  unfold parts at h
  split at h
  · cases h
  · split at h
    · cases h
      rfl
    · split at h
      · cases h
        rfl
      · cases h

/-- The components that can stand anywhere are the names. -/
theorem filter_isInner_components (p : Path) :
    p.components.filter Component.isInner = p.names.map componentOf := by
  -- what a path starts with can stand nowhere else
  have hfront : p.parts.1.toList.filter Component.isInner = [] := by
    refine List.filter_eq_nil_iff.2 fun c hc => ?_
    simp [isInner_of_front (Option.mem_toList.1 hc)]
  have hnames : (p.names.map componentOf).filter Component.isInner = p.names.map componentOf := by
    refine List.filter_eq_self.2 fun c hc => ?_
    obtain ⟨piece, -, rfl⟩ := List.mem_map.1 hc
    exact isInner_componentOf piece
  rw [components_eq_append, List.filter_append, hfront, hnames, List.nil_append]

/-- Paths with the same components have the same names. -/
theorem names_eq_of_components_eq (h : p.components = q.components) : p.names = q.names := by
  have hinner := congrArg (List.filter Component.isInner) h
  rw [filter_isInner_components, filter_isInner_components] at hinner
  exact componentOf_injective.list_map hinner

/-- A path that is below another one starts as it does, unless the other one is empty. -/
theorem parts_of_below (h : base.components <+: p.components) :
    base.names <+: p.names ∧
      (base.parts.1 = none ∧ base.names = [] ∨ p.parts.1 = base.parts.1) := by
  have hnames : base.names <+: p.names := by
    have hinner := h.filter Component.isInner
    rw [filter_isInner_components, filter_isInner_components] at hinner
    exact (List.prefix_map_iff_of_injective componentOf_injective).1 hinner
  refine ⟨hnames, ?_⟩
  rw [components_eq_append, components_eq_append] at h
  cases hbase : base.parts.1 with
  | some c =>
    -- only what a path starts with can be equal to `c`
    refine .inr ?_
    rw [hbase] at h
    cases hp : p.parts.1 with
    | some d =>
      rw [hp] at h
      exact congrArg some (List.cons_prefix_cons.1 h).1.symm
    | none =>
      rw [hp] at h
      have hmem : c ∈ p.names.map componentOf := h.subset List.mem_cons_self
      obtain ⟨piece, -, rfl⟩ := List.mem_map.1 hmem
      have hinner := isInner_componentOf piece
      rw [isInner_of_front hbase] at hinner
      cases hinner
  | none =>
    cases hempty : base.names with
    | nil => exact .inl ⟨rfl, rfl⟩
    | cons piece rest =>
      refine .inr ?_
      rw [hbase, hempty] at h
      cases hp : p.parts.1 with
      | none => rfl
      | some d =>
        rw [hp] at h
        have hhead : componentOf piece = d := (List.cons_prefix_cons.1 h).1
        have hinner := isInner_componentOf piece
        rw [hhead, isInner_of_front hp] at hinner
        cases hinner

/-- What a path starts with is no name. -/
theorem filter_pieces (p : Path) :
    (List.splitOn '/' p.spelling.toList).filter (!isFiller ·) = p.names := by
  unfold names parts
  split
  · rename_i hnil
    exact absurd hnil (List.splitOn_ne_nil '/' p.spelling.toList)
  · rename_i first body hsplit
    rw [hsplit]
    split_ifs with hroot hdot
    · rw [hroot.1]
      rfl
    · rw [hdot]
      rfl
    · rfl

/-- A path that starts with neither the root nor a dot is empty or starts with a component. -/
theorem pieces_of_front_eq_none (h : p.parts.1 = none) :
    p.parts.2 = List.splitOn '/' p.spelling.toList ∧
      (p.parts.2 = [[]] ∨ ∃ first rest, p.parts.2 = first :: rest ∧ isFiller first = false) := by
  obtain ⟨first, body, hpieces⟩ := List.exists_cons_of_ne_nil
    (List.splitOn_ne_nil '/' p.spelling.toList)
  simp only [parts, hpieces] at h ⊢
  split_ifs at h ⊢ with hroot hdot
  refine ⟨rfl, ?_⟩
  by_cases hfirst : first = []
  · have hbody : body = [] := by
      by_contra hbody
      exact hroot ⟨hfirst, hbody⟩
    exact .inl (by rw [hfirst, hbody])
  · exact .inr ⟨first, body, rfl, by simp [isFiller, hfirst, hdot]⟩

/-- Only the empty path has no components. -/
theorem spelling_eq_empty (hfront : base.parts.1 = none) (hnames : base.names = []) :
    base.spelling = "" := by
  obtain ⟨hpieces, hempty | ⟨first, rest, hcons, hfirst⟩⟩ := pieces_of_front_eq_none hfront
  · have hspelling := @List.intercalate_splitOn _ base.spelling.toList _ _ '/'
    rw [← hpieces, hempty] at hspelling
    exact String.toList_inj.1 hspelling.symm
  · rw [names, hcons, List.filter_cons_of_pos (by simp [hfirst])] at hnames
    cases hnames

/-! ## Spelling texts between slashes -/

/-- The last text between the slashes of the path is a component. -/
def EndsInName (p : Path) : Prop :=
  ∃ piece, (List.splitOn '/' p.spelling.toList).getLast? = some piece ∧ isFiller piece = false

/-- Dropping what does not count at the start keeps what counts. -/
theorem filter_dropWhile_isFiller (pieces : List (List Char)) :
    (pieces.dropWhile isFiller).filter (!isFiller ·) = pieces.filter (!isFiller ·) := by
  have hfillers :=
    filter_fillers (List.all_eq_true.1 (List.all_takeWhile (p := isFiller) (l := pieces)))
  have hsplit := congrArg (List.filter (!isFiller ·))
    (List.takeWhile_append_dropWhile (p := isFiller) (l := pieces))
  rwa [List.filter_append, hfillers, List.nil_append] at hsplit

/-- Cutting off what does not count at the end keeps what counts. -/
theorem filter_trimFillers (pieces : List (List Char)) :
    (trimFillers pieces).filter (!isFiller ·) = pieces.filter (!isFiller ·) := by
  rw [trimFillers, List.filter_reverse, filter_dropWhile_isFiller, List.filter_reverse,
    List.reverse_reverse]

/-- What is left when the end is cut off is a first part. -/
theorem isPrefix_trimFillers (pieces : List (List Char)) : trimFillers pieces <+: pieces :=
  List.rdropWhile_prefix isFiller pieces

/-- What is left of texts at whose end those that do not count were cut off ends in one that
counts. -/
theorem exists_getLast?_trimFillers {pieces : List (List Char)} (h : trimFillers pieces ≠ []) :
    ∃ piece, (trimFillers pieces).getLast? = some piece ∧ isFiller piece = false := by
  refine ⟨_, List.getLast?_eq_some_getLast h, ?_⟩
  exact Bool.eq_false_iff.2 (List.rdropWhile_last_not isFiller pieces h)

/-- A path that is spelled by texts without slashes is split into them again. -/
theorem splitOn_ofPieces {pieces : List (List Char)} (hne : pieces ≠ [])
    (hslash : ∀ piece ∈ pieces, '/' ∉ piece) :
    List.splitOn '/' (ofPieces pieces).spelling.toList = pieces := by
  rw [ofPieces, String.toList_ofList, List.splitOn_intercalate '/' hslash hne]

/-- Texts between slashes, without those at the ends that do not count, spell a relative path that
has all components. -/
theorem parts_ofPieces {pieces : List (List Char)} (hslash : ∀ piece ∈ pieces, '/' ∉ piece) :
    (ofPieces (trimFillers (pieces.dropWhile isFiller))).parts.1 = none ∧
      (ofPieces (trimFillers (pieces.dropWhile isFiller))).names = pieces.filter (!isFiller ·) ∧
      (pieces.filter (!isFiller ·) ≠ [] →
        (ofPieces (trimFillers (pieces.dropWhile isFiller))).EndsInName) := by
  have hnames := filter_trimFillers (pieces.dropWhile isFiller)
  have hstarts := isPrefix_trimFillers (pieces.dropWhile isFiller)
  have hlast := @exists_getLast?_trimFillers (pieces.dropWhile isFiller)
  rw [filter_dropWhile_isFiller] at hnames
  cases htrimmed : trimFillers (pieces.dropWhile isFiller) with
  | nil =>
    rw [htrimmed] at hnames
    rw [← hnames]
    exact ⟨rfl, rfl, fun h => absurd rfl h⟩
  | cons first rest =>
    rw [htrimmed] at hnames hstarts hlast
    -- the first text counts, since all before it were dropped
    have hfirst : isFiller first = false := by
      obtain ⟨more, hmore⟩ := hstarts
      have hhead := List.head?_dropWhile_not isFiller pieces
      rwa [← hmore] at hhead
    have hslash' : ∀ piece ∈ first :: rest, '/' ∉ piece := fun piece hpiece =>
      hslash piece ((List.dropWhile_sublist _).subset (hstarts.subset hpiece))
    have hpieces := splitOn_ofPieces (List.cons_ne_nil first rest) hslash'
    have hparts : (ofPieces (first :: rest)).parts = (none, first :: rest) := by
      simp only [isFiller, Bool.or_eq_false_iff, decide_eq_false_iff_not] at hfirst
      simp [parts, hpieces, hfirst]
    refine ⟨by rw [hparts], by rw [names, hparts, hnames], fun _ => ?_⟩
    rw [EndsInName, hpieces]
    exact hlast (List.cons_ne_nil first rest)

/-- There is no slash in a text between slashes. -/
theorem not_mem_of_mem_pieces {piece : List Char} (h : piece ∈ p.parts.2) : '/' ∉ piece := by
  have hpieces : piece ∈ List.splitOn '/' p.spelling.toList := by
    unfold parts at h
    split at h
    · cases h
    · rename_i first body hsplit
      rw [hsplit]
      split_ifs at h
      · exact List.mem_cons_of_mem first h
      · exact List.mem_cons_of_mem first h
      · exact h
  exact Text.not_mem_of_mem_splitOn hpieces

/-- Without slashes and dots at its end a path has the same components. -/
theorem parts_trimmed (p : Path) :
    p.trimmed.parts.1 = p.parts.1 ∧ p.trimmed.names = p.names ∧
      (p.names ≠ [] → p.trimmed.EndsInName) := by
  have hslash : ∀ piece ∈ p.parts.2, '/' ∉ piece := fun _ => not_mem_of_mem_pieces
  have hkept : ∀ piece ∈ trimFillers p.parts.2, '/' ∉ piece := fun piece hpiece =>
    hslash piece ((isPrefix_trimFillers _).subset hpiece)
  have hnames := filter_trimFillers p.parts.2
  have hlast := @exists_getLast?_trimFillers p.parts.2
  have hnone := @pieces_of_front_eq_none p
  have hinner := @isInner_of_front p
  unfold trimmed names EndsInName
  obtain ⟨front, body, hparts⟩ : ∃ front body, p.parts = (front, body) := ⟨_, _, rfl⟩
  simp only [hparts] at hslash hkept hnames hlast hnone hinner ⊢
  cases front with
  | none =>
    -- nothing is dropped at the start
    have hstart : trimFillers body = trimFillers (body.dropWhile isFiller) := by
      rcases (hnone rfl).2 with rfl | ⟨first, rest, rfl, hfirst⟩
      · rfl
      · rw [List.dropWhile_cons_of_neg (by simp [hfirst])]
    dsimp only
    rw [hstart]
    exact parts_ofPieces hslash
  | some c =>
    -- what is spelled in front of the texts that are kept does not change the last one
    have hend : ∀ first, body.filter (!isFiller ·) ≠ [] →
        ∃ piece, (first :: trimFillers body).getLast? = some piece ∧ isFiller piece = false := by
      intro first hne
      have hkeeps : trimFillers body ≠ [] := by
        intro hempty
        rw [hempty] at hnames
        exact hne hnames.symm
      obtain ⟨piece, hpiece, hfiller⟩ := hlast hkeeps
      refine ⟨piece, ?_, hfiller⟩
      rw [List.getLast?_cons, hpiece, Option.getD_some]
    cases c with
    | root =>
      dsimp only
      cases hbody : trimFillers body with
      | nil =>
        rw [hbody] at hnames
        rw [← hnames]
        exact ⟨by decide, by decide, fun h => absurd rfl h⟩
      | cons first rest =>
        rw [hbody] at hkept hnames hend
        have hpieces : List.splitOn '/' ('/' :: List.intercalate ['/'] (first :: rest)) =
            [] :: first :: rest := by
          rw [Text.splitOn_cons_self,
            List.splitOn_intercalate '/' hkept (List.cons_ne_nil first rest)]
        simp only [parts, String.toList_ofList, hpieces]
        exact ⟨rfl, hnames, hend []⟩
    | current =>
      have hpieces := splitOn_ofPieces (List.cons_ne_nil ['.'] (trimFillers body))
        (List.forall_mem_cons.2 ⟨by decide, hkept⟩)
      have hdot : (ofPieces (['.'] :: trimFillers body)).parts =
          (some .current, trimFillers body) := by
        simp [parts, hpieces]
      dsimp only
      rw [hdot, hpieces]
      exact ⟨rfl, hnames, hend ['.']⟩
    | parent => cases hinner rfl
    | name text => cases hinner rfl

/-! ## Taking a path off the front of another one -/

/-- What is left when components are taken from the front stands behind them. -/
theorem filter_of_stripBody? {body wanted rest : List (List Char)}
    (hwanted : ∀ piece ∈ wanted, isFiller piece = false) (h : stripBody? body wanted = some rest) :
    rest <:+ body ∧ body.filter (!isFiller ·) = wanted ++ rest.filter (!isFiller ·) := by
  -- one case for each way in which the two lists are gone through
  fun_induction stripBody? body wanted with
  | case1 body =>
    cases h
    exact ⟨List.suffix_refl rest, rfl⟩
  | case2 => cases h
  | case3 piece body first others hfiller ih =>
    obtain ⟨hsuffix, hfilter⟩ := ih hwanted h
    refine ⟨hsuffix.trans (List.suffix_cons piece body), ?_⟩
    rw [List.filter_cons_of_neg (by simp [hfiller]), hfilter]
  | case4 body first others hfiller ih =>
    obtain ⟨hsuffix, hfilter⟩ := ih (List.forall_mem_cons.1 hwanted).2 h
    refine ⟨hsuffix.trans (List.suffix_cons first body), ?_⟩
    rw [List.filter_cons_of_pos (by simp [hfiller]), hfilter, List.cons_append]
  | case5 => cases h

/-- Taking a path off the front of another one, by what the two start with and by their names. -/
theorem strip?_eq (p base : Path) :
    p.strip? base =
      if base.parts.1 = none ∧ base.names = [] then some p.trimmed
      else if p.parts.1 = base.parts.1 then
        (stripBody? p.parts.2 base.names).map fun rest =>
          ofPieces (trimFillers (rest.dropWhile isFiller))
      else none := rfl

/-- A path that was taken off the front of another one and the path that is left have the
components of the other one. The path that is left is relative, unless the one taken off is
empty. -/
theorem components_of_strip? (h : p.strip? base = some q) :
    p.components = base.components ++ q.components ∧
      (base.spelling ≠ "" → q.parts.1 = none) ∧ (q.names ≠ [] → q.EndsInName) := by
  rw [strip?_eq] at h
  -- an empty path is taken off by leaving out what does not count at the end
  split_ifs at h with hempty hfront
  · cases h
    obtain ⟨htrimmed, hnames, hends⟩ := parts_trimmed p
    refine ⟨?_, fun hne => absurd (spelling_eq_empty hempty.1 hempty.2) hne, ?_⟩
    · rw [components_eq_append base, hempty.1, hempty.2, components_eq_append p.trimmed, htrimmed,
        hnames]
      rfl
    · rwa [hnames]
  · obtain ⟨rest, hrest, rfl⟩ := Option.map_eq_some_iff.1 h
    have hwanted : ∀ piece ∈ base.names, isFiller piece = false := fun piece hpiece => by
      simpa using (List.mem_filter.1 hpiece).2
    obtain ⟨hsuffix, hfilter⟩ := filter_of_stripBody? hwanted hrest
    obtain ⟨hnone, hnames, hends⟩ := parts_ofPieces
      (fun piece hpiece => not_mem_of_mem_pieces (hsuffix.subset hpiece))
    refine ⟨?_, fun _ => hnone, by rwa [hnames]⟩
    rw [components_eq_append, names, hfilter, hfront, List.map_append, ← List.append_assoc,
      ← components_eq_append, components_eq_append (ofPieces _), hnone, hnames]
    rfl

/-- A path below another one is left when the other one is taken off its front. -/
theorem exists_strip?_eq_some (h : base.components <+: p.components) :
    ∃ q, p.strip? base = some q := by
  obtain ⟨⟨more, hmore⟩, hfront⟩ := parts_of_below h
  rw [strip?_eq]
  by_cases hempty : base.parts.1 = none ∧ base.names = []
  · exact ⟨p.trimmed, if_pos hempty⟩
  · rw [if_neg hempty, if_pos (hfront.resolve_left hempty)]
    -- the texts up to the last name of the other path are taken off
    obtain ⟨front, rest, hbody, hwanted, -⟩ := List.filter_eq_append_iff.1 hmore.symm
    obtain ⟨gap, -, hstrip⟩ := exists_stripBody?_append front rest
    rw [hbody, ← hwanted, hstrip]
    exact ⟨_, rfl⟩

/-! ## Seeing it from there again -/

/-- A path that does not start with the root is relative. -/
theorem isAbsolute_eq_false_of_front (h : q.parts.1 = none) : q.isAbsolute = false := by
  by_contra habsolute
  rw [front_of_isAbsolute (Bool.not_eq_false _ ▸ habsolute)] at h
  cases h

/-- Seen from the empty path, every path is itself. -/
theorem join_of_empty (h : base.spelling = "") : base.join q = q := by
  rw [join, if_pos (Or.inl h), h, String.empty_append, ite_self]

/-- The components of a relative path stand behind those of the directory it is seen from. -/
theorem components_join_relative (h : base.spelling ≠ "" → q.parts.1 = none) :
    (base.join q).components = base.components ++ q.components := by
  by_cases hbase : base.spelling = ""
  · obtain rfl : base = ⟨""⟩ := congrArg mk hbase
    rw [join_of_empty rfl]
    rfl
  · have hnone := h hbase
    obtain ⟨hpieces, -⟩ := pieces_of_front_eq_none hnone
    obtain ⟨front, body, gap, hgap, hparts, hjoin⟩ :=
      exists_parts_join hbase (isAbsolute_eq_false_of_front hnone)
    rw [← hpieces] at hjoin
    rw [components_eq_append q, hnone, components_eq_append base,
      components_eq_append (base.join q)]
    simp only [names, hparts, hjoin, List.filter_append, filter_fillers hgap, List.map_append,
      List.append_nil, List.append_assoc, Option.toList_none, List.nil_append]

/-- A relative path that ends in a component does so from wherever it is seen. -/
theorem EndsInName.join (h : q.EndsInName) (hrelative : base.spelling ≠ "" → q.parts.1 = none) :
    (base.join q).EndsInName := by
  by_cases hbase : base.spelling = ""
  · rwa [join_of_empty hbase]
  · obtain ⟨piece, hlast, hpiece⟩ := h
    obtain ⟨kept, gap, -, -, -, hjoin⟩ :=
      exists_pieces_join hbase (isAbsolute_eq_false_of_front (hrelative hbase))
    refine ⟨piece, ?_, hpiece⟩
    rw [hjoin, List.getLast?_append_of_ne_nil _ (List.splitOn_ne_nil '/' q.spelling.toList), hlast]

end Path

/-! ## Through a file tree -/

namespace Place

variable {place : Place} {piece : List Char}

/-- Nothing leads on from a file. -/
theorem step_of_file {bytes : List UInt8} (h : place.tree = .file bytes) (piece : List Char) :
    place.step piece = .error .notDirectory := by
  rw [step, h]

/-- A text that does not count leads from a directory to itself. -/
theorem step_of_isFiller {entries : List (String × FileTree)} (h : place.tree = .directory entries)
    (hpiece : Path.isFiller piece = true) : place.step piece = .ok place := by
  rw [step, h]
  exact if_pos hpiece

/-- Texts that do not count lead nowhere else, as long as one that counts follows. -/
theorem foldlM_step_filter {pieces : List (List Char)} (place : Place)
    (h : ∃ piece, pieces.getLast? = some piece ∧ Path.isFiller piece = false) :
    pieces.foldlM step place = (pieces.filter (!Path.isFiller ·)).foldlM step place := by
  -- a step depends on the place, so the place is generalized
  induction pieces generalizing place with
  | nil =>
    obtain ⟨piece, hlast, -⟩ := h
    cases hlast
  | cons piece rest ih =>
    obtain ⟨last, hlast, hcounts⟩ := h
    cases hfiller : Path.isFiller piece with
    | false =>
      rw [List.filter_cons_of_pos (by simp [hfiller]), List.foldlM_cons, List.foldlM_cons]
      cases rest with
      | nil => rfl
      | cons next rest =>
        rw [List.getLast?_cons_cons] at hlast
        exact congrArg _ (funext fun place' => ih place' ⟨last, hlast, hcounts⟩)
    | true =>
      rw [List.filter_cons_of_neg (by simp [hfiller]), List.foldlM_cons]
      -- the last text counts, so it is among the rest
      have hrest : rest.getLast? = some last := by
        cases rest with
        | nil =>
          obtain rfl : piece = last := Option.some.inj hlast
          rw [hfiller] at hcounts
          cases hcounts
        | cons next rest => rwa [List.getLast?_cons_cons] at hlast
      cases htree : place.tree with
      | directory entries =>
        rw [step_of_isFiller htree hfiller]
        exact ih place ⟨last, hrest, hcounts⟩
      | file bytes =>
        -- a file has nothing below it, neither a dot nor the text that counts
        have hmem : last ∈ rest.filter (!Path.isFiller ·) :=
          List.mem_filter.2 ⟨List.mem_of_getLast? hrest, by simp [hcounts]⟩
        obtain ⟨first, more, hmore⟩ := List.exists_cons_of_ne_nil (List.ne_nil_of_mem hmem)
        rw [hmore, List.foldlM_cons, step_of_file htree, step_of_file htree]
        rfl

end Place

namespace FileTree

variable {files : FileTree} {p q : Path}

/-- Two paths with the same names that end in one lead to the same place, or fail in the same
way. -/
theorem locate_eq_of_names (files : FileTree) (hp : p.EndsInName) (hq : q.EndsInName)
    (h : p.names = q.names) : files.locate p = files.locate q := by
  rw [locate, locate, Place.foldlM_step_filter _ hp, Place.foldlM_step_filter _ hq,
    Path.filter_pieces, Path.filter_pieces, h]

/-- A path with a slash or a dot at its end leads to no file. -/
theorem endsInName_of_isFile (h : files.isFile p = true) : p.EndsInName := by
  obtain ⟨front, last, hpieces⟩ := (List.eq_nil_or_concat' _).resolve_left
    (List.splitOn_ne_nil '/' p.spelling.toList)
  refine ⟨last, by rw [hpieces, List.getLast?_concat], ?_⟩
  by_contra hfiller
  rw [Bool.not_eq_false] at hfiller
  rw [isFile, locate, hpieces, List.foldlM_append] at h
  cases hfront : front.foldlM Place.step ⟨[], [], files⟩ with
  | error fault =>
    rw [hfront] at h
    cases h
  | ok place =>
    -- the text at the end is taken from a directory, and leads to that directory
    have hlast : (Except.ok place >>= fun place' => [last].foldlM Place.step place') =
        place.step last := bind_pure (place.step last)
    rw [hfront, hlast] at h
    cases htree : place.tree with
    | file bytes =>
      rw [Place.step_of_file htree] at h
      cases h
    | directory entries =>
      rw [Place.step_of_isFiller htree hfiller] at h
      dsimp only at h
      rw [htree] at h
      cases h

end FileTree

/-! ## The path of a finding -/

namespace CommandLine.World

/-- A finding as it is shown beside the file at the path. -/
def pictureAt (w : World) (p : Path) (f : Finding) : String :=
  match w.files.read p with
  | .ok source => w.draw f.location.file.spelling source f.diagnostic ++ "\n"
  | .error _ => f.line ++ "\n"

theorem render_pretty (w : World) (root : Path) (r : Report) :
    w.render root r .pretty =
      String.join (r.findings.map fun f => w.pictureAt (root.join f.location.file) f) ++
        r.summaryLine true := rfl

end CommandLine.World

namespace Path

variable {p root : Path}

/-- The path that is left of a path below the root, seen from the root, has the components of the
path. -/
theorem components_join_of_below (h : root.components <+: p.components) :
    p.components = root.components ++ (p.relativeTo root).components ∧
      (root.join (p.relativeTo root)).components = p.components := by
  obtain ⟨q, hq⟩ := exists_strip?_eq_some h
  obtain ⟨hcomponents, hrelative, -⟩ := components_of_strip? hq
  rw [relativeTo, hq, Option.getD_some]
  exact ⟨hcomponents, by rw [components_join_relative hrelative, hcomponents]⟩

/-- An absolute path that is not below the root is left as it is. -/
theorem join_relativeTo_of_not_below (habsolute : p.isAbsolute = true)
    (h : ¬root.components <+: p.components) : root.join (p.relativeTo root) = p := by
  have hnone : p.strip? root = none := by
    refine Option.eq_none_iff_forall_ne_some.2 fun q hq => h ?_
    exact ⟨q.components, (components_of_strip? hq).1.symm⟩
  rw [relativeTo, hnone, Option.getD_none, join, if_pos habsolute]

/-- A path that ends in a component has a name. -/
theorem EndsInName.names_ne_nil (h : p.EndsInName) : p.names ≠ [] := by
  obtain ⟨piece, hlast, hpiece⟩ := h
  rw [← filter_pieces]
  apply List.ne_nil_of_mem (a := piece)
  exact List.mem_filter.2 ⟨List.mem_of_getLast? hlast, by simp [hpiece]⟩

/-- Seen from the root, the relative path of anything below the root but the root itself leads
there. -/
theorem locate_join_relativeTo (h : root.components <+: p.components ∨ p.isAbsolute = true)
    (hends : p.EndsInName) (hbelow : p.components ≠ root.components) (files : FileTree) :
    files.locate (root.join (p.relativeTo root)) = files.locate p := by
  by_cases hstarts : root.components <+: p.components
  · have hnames := names_eq_of_components_eq (components_join_of_below hstarts).2
    obtain ⟨q, hq⟩ := exists_strip?_eq_some hstarts
    obtain ⟨hcomponents, hrelative, hlast⟩ := components_of_strip? hq
    rw [relativeTo, hq, Option.getD_some] at hnames ⊢
    -- were there no name left, the path would be the root, or the root and the path were both
    -- empty
    have hne : q.names ≠ [] := by
      intro hnil
      by_cases hroot : root.spelling = ""
      · rw [join_of_empty hroot, hnil] at hnames
        exact hends.names_ne_nil hnames.symm
      · apply hbelow
        rw [hcomponents, components_eq_append q, hrelative hroot, hnil]
        exact List.append_nil root.components
    exact files.locate_eq_of_names ((hlast hne).join hrelative) hends hnames
  · rw [join_relativeTo_of_not_below (h.resolve_left hstarts) hstarts]

/-- Reported paths lead back. For a path that is below the root or absolute, however the two are
spelled, the relative path seen from the root has the components of the path, and below the root
these are the components of the root and those of the relative path behind them. So every place of
a finding in the file names the file, and a finding is shown beside the file it came from. Where
the root is the file itself the relative path is empty, and there is nothing to show it beside. -/
theorem components_join_relativeTo (h : root.components <+: p.components ∨ p.isAbsolute = true) :
    (root.join (p.relativeTo root)).components = p.components ∧
    (root.components <+: p.components →
      p.components = root.components ++ (p.relativeTo root).components) ∧
    ∀ (a : Analyzer) (source : String) (r : Report), a.root = root →
      a.lint? p source = some r.findings →
      (∀ f ∈ r.findings, ∀ l ∈ f.locations, (root.join l.file).components = p.components) ∧
      ∀ w : CommandLine.World, w.files.isFile p = true → p.components ≠ root.components →
        w.render root r .pretty =
          String.join (r.findings.map (w.pictureAt p)) ++ r.summaryLine true := by
  have hback : (root.join (p.relativeTo root)).components = p.components := by
    by_cases hstarts : root.components <+: p.components
    · exact (components_join_of_below hstarts).2
    · rw [join_relativeTo_of_not_below (h.resolve_left hstarts) hstarts]
  refine ⟨hback, fun hstarts => (components_join_of_below hstarts).1, ?_⟩
  rintro a source r rfl hfound
  -- all places of a finding are in the file that it was found in
  have hfile : ∀ f ∈ r.findings, ∀ l ∈ f.locations, l.file = p.relativeTo a.root := by
    intro f hf l hl
    obtain ⟨-, -, n, -, rfl⟩ := Analyzer.exists_node_of_lint? hfound hf hl
    rfl
  refine ⟨fun f hf l hl => by rw [hfile f hf l hl, hback], ?_⟩
  intro w hp hbelow
  -- the path of a file leads to it, so the file is not the root
  have hread : w.files.read (a.root.join (p.relativeTo a.root)) = w.files.read p := by
    rw [FileTree.read, locate_join_relativeTo h (FileTree.endsInName_of_isFile hp) hbelow]
    rfl
  have hpictures : r.findings.map (fun f => w.pictureAt (a.root.join f.location.file) f) =
      r.findings.map (w.pictureAt p) := by
    apply List.map_congr_left
    intro f hf
    have hsame : w.files.read (a.root.join f.location.file) = w.files.read p := by
      rw [hfile f hf f.location List.mem_cons_self, hread]
    rw [CommandLine.World.pictureAt, CommandLine.World.pictureAt, hsame]
  rw [w.render_pretty, hpictures]

/-- A root and a path below it with slashes, dots and parents in odd places. The named module in
the file is found and is shown beside its line. -/
theorem components_join_relativeTo_respelled :
    let root : Path := ⟨"/w/.//x/../src/"⟩
    let p : Path := ⟨"//w/x/./..//src//./a/..//b.js"⟩
    let source := "define('x', \x7b\x7d);"
    let bytes := source.toList.map (·.toNat.toUInt8)
    let src : FileTree := .directory [("a", .directory []), ("b.js", .file bytes)]
    let w : CommandLine.World :=
      ⟨[], [], ⟨"/"⟩, .directory [("w", .directory [("x", .directory []), ("src", src)])],
        fun name source d => name ++ ": " ++ d.message ++ "\n" ++ source⟩
    let a : Analyzer := ⟨root, [⟨.namedDefine, .error, .forbidden⟩], [], [], [], {}, false⟩
    root.components <+: p.components ∧ p.relativeTo root = ⟨"a/..//b.js"⟩ ∧
      p.components = root.components ++ [.name ['a'], .parent, .name ['b', '.', 'j', 's']] ∧
      ∃ f, a.lint? p source = some [f] ∧ (root.join f.location.file).components = p.components ∧
        w.render root ⟨[f], 1⟩ .pretty =
          f.location.file.spelling ++ ": " ++ f.diagnostic.message ++ "\n" ++ source ++ "\n" ++
            (⟨[f], 1⟩ : Report).summaryLine true := by
  intro root p source bytes src w a
  have hstarts : root.components <+: p.components := by decide +kernel
  obtain ⟨-, hbehind, hreport⟩ := components_join_relativeTo (.inl hstarts)
  have hrelative : p.relativeTo root = ⟨"a/..//b.js"⟩ := by decide +kernel
  -- the file is linted once, and only the number of findings is asked for
  have hlint : ∃ found, a.lint? p source = some found ∧ found.length = 1 := by
    have hcount : (a.lint? p source).map List.length = some 1 := by decide +kernel
    exact Option.map_eq_some_iff.1 hcount
  obtain ⟨found, hfound, hlength⟩ := hlint
  obtain ⟨f, rfl⟩ := List.length_eq_one_iff.1 hlength
  obtain ⟨hnamed, hshown⟩ := hreport a source ⟨[f], 1⟩ rfl hfound
  have hread : w.files.read p = .ok source := by
    have hsome : (w.files.read p).toOption = some source := by decide +kernel
    cases hresult : w.files.read p with
    | ok text => rw [hresult] at hsome; exact congrArg Except.ok (Option.some.inj hsome)
    | error fault => rw [hresult] at hsome; cases hsome
  refine ⟨hstarts, hrelative, ?_, f, hfound, ?_, ?_⟩
  · rw [hbehind hstarts, hrelative]
    rfl
  · exact hnamed f List.mem_cons_self f.location List.mem_cons_self
  · rw [hshown w (by decide +kernel) (by decide +kernel)]
    simp only [List.map_cons, List.map_nil, CommandLine.World.pictureAt, hread, String.join_cons,
      String.join_nil, String.append_empty]
    rfl

end Path

end LoaderLint
