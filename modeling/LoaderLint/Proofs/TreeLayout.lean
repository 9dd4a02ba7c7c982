import LoaderLint.Proofs.SyntaxTree
import Mathlib.Data.List.Basic

/-!
# The layout of syntax trees

Where the nodes of a tree stand in the text: every node starts at a position of the text, its
children stand inside it, one behind the other and none of them empty, and the nodes that rules
report at have a token of their own, so that no child of such a node is as wide as the node. In
parentheses there is something besides punctuation and comments.

The module introduces:

* `Position.past`, `Position.InText` — the position behind a text, and the positions of a text;
* `Node.Within`, `Node.EndsIn` — a node between two offsets, and one that ends in the text;
* `Fits`, `Node.LaidOut` — a node that fits its children, and a tree all of whose nodes do;
* `Kind.isTight`, `Node.IsAnchor` — the nodes that are wider than their children.

Turning expressions into patterns and numbering the nodes keep the layout. In a tree that is laid
out no two anchors cover the same stretch (`LaidOut.pairwise_anchors`), and what is in parentheses
can be found (`LaidOut.kind_unparenthesized`).
-/

namespace LoaderLint.Script

/-! ## Positions -/

/-- The position behind a text that starts at the position. -/
def Position.past (p : Position) (cs : List Char) : Position := cs.foldl Position.after p

@[simp]
theorem Position.past_nil (p : Position) : p.past [] = p := rfl

@[simp]
theorem Position.past_cons (p : Position) (c : Char) (cs : List Char) :
    p.past (c :: cs) = (p.after c).past cs := rfl

/-- The position behind two texts is the one behind the second text, from the first one on. -/
theorem Position.past_append (p : Position) (cs ds : List Char) :
    p.past (cs ++ ds) = (p.past cs).past ds := List.foldl_append

/-- A position of the text: the one behind a first part of it. -/
def Position.InText (cs : List Char) (p : Position) : Prop :=
  ∃ before after, cs = before ++ after ∧ p = Position.start.past before

/-! ## Trees -/

/-- The kinds of nodes that are wider than each of their children. -/
def Kind.isTight : Kind → Bool
  | .call | .function | .arrow | .assignment | .compoundAssignment => true
  | _ => false

/-- The kinds of which the layout says nothing in particular. -/
def Kind.isPlain (k : Kind) : Bool :=
  !k.isTight && k ≠ .declarator && k ≠ .identifier && k ≠ .parenthesized && k.isSolid

/-- The kinds that leaves can have, marks and comments apart. -/
def Kind.isLeaf (k : Kind) : Bool := k ≠ .declarator && k ≠ .parenthesized && k.isSolid

/-- Plain kinds are solid. -/
theorem Kind.isSolid_of_isPlain {k : Kind} (h : k.isPlain = true) : k.isSolid = true :=
  (Bool.and_eq_true_iff.1 h).2

/-- Kinds that are wider than their children are solid. -/
theorem Kind.isSolid_of_isTight {k : Kind} (h : k.isTight = true) : k.isSolid = true := by
  cases k <;> first | rfl | cases h

namespace Node

/-- The node stands between two offsets and is not empty. -/
def Within (low high : ℕ) (n : Node) : Prop :=
  low ≤ n.span.start.offset ∧ n.span.start.offset < n.span.stop ∧ n.span.stop ≤ high

/-- A node between two offsets is between any that are further apart. -/
theorem Within.mono {low high low' high' : ℕ} {n : Node} (h : n.Within low high)
    (hlow : low' ≤ low) (hhigh : high ≤ high') : n.Within low' high' :=
  ⟨Nat.le_trans hlow h.1, h.2.1, Nat.le_trans h.2.2 hhigh⟩

/-- A node ends before another one starts. -/
def Before (a b : Node) : Prop := a.span.stop ≤ b.span.start.offset

/-- The node ends at a position of the text. -/
def EndsIn (cs : List Char) (n : Node) : Prop :=
  ∃ p : Position, p.InText cs ∧ n.span.stop = p.offset

end Node

/-- A comment of the text: its spelling stands at its position. -/
def Head.IsComment (cs : List Char) (head : Head) : Prop :=
  ∃ before after, cs = before ++ (head.text.toList ++ after) ∧
    head.span.start = Position.start.past before ∧
    commentLength (head.text.toList ++ after) = some head.text.toList.length

/-- How a node fits the text and its children. -/
structure Fits (cs : List Char) (head : Head) (children : List Node) : Prop where
  /-- It starts at a position of the text. -/
  placed : head.span.start.InText cs
  /-- Its children stand inside it and are not empty. -/
  inside : ∀ c ∈ children, c.Within head.span.start.offset head.span.stop
  /-- They stand one behind the other. -/
  ordered : children.Pairwise Node.Before
  /-- A node of a tight kind is wider than each of them. -/
  tight : head.kind.isTight = true → ∀ c ∈ children,
    head.span.start.offset < c.span.start.offset ∨ c.span.stop < head.span.stop
  /-- The first child of a declarator is what it declares. -/
  named : head.kind = .declarator →
    ∃ first rest, children = first :: rest ∧ first.head.role = .name
  /-- Names have no children. -/
  bare : head.kind = .identifier → children = []
  /-- Comments are spelled as in the text. -/
  spelled : head.kind = .comment → head.IsComment cs
  /-- There is something in parentheses besides punctuation and comments. -/
  filled : head.kind = .parenthesized → ∃ c ∈ children, c.isSolid = true

namespace Node

/-- All nodes of the tree fit the text and their children. -/
inductive LaidOut (cs : List Char) : Node → Prop
  | mk {head : Head} {children : List Node} :
      Fits cs head children → (∀ c ∈ children, LaidOut cs c) → LaidOut cs (.mk head children)

variable {cs : List Char}

/-- The root of a tree that is laid out fits its children. -/
theorem LaidOut.fits {n : Node} (h : n.LaidOut cs) : Fits cs n.head n.children := by
  cases h with
  | mk hfits _ => exact hfits

/-- The children of a node that is laid out are laid out. -/
theorem LaidOut.of_mem_children {n c : Node} (h : n.LaidOut cs) (hc : c ∈ n.children) :
    c.LaidOut cs := by
  cases h with
  | mk _ hall => exact hall c hc

/-! ## Changes that keep the layout -/

@[simp]
theorem span_withRole (n : Node) (role : Role) : (n.withRole role).span = n.span := by
  cases n
  rfl

@[simp]
theorem span_withKind (n : Node) (kind : Kind) : (n.withKind kind).span = n.span := by
  cases n
  rfl

@[simp]
theorem kind_withRole (n : Node) (role : Role) : (n.withRole role).kind = n.kind := by
  cases n
  rfl

@[simp]
theorem kind_withKind (n : Node) (kind : Kind) : (n.withKind kind).kind = kind := by
  cases n
  rfl

@[simp]
theorem withKind_kind (n : Node) : n.withKind n.kind = n := by
  cases n
  rfl

@[simp]
theorem role_withRole (n : Node) (role : Role) : (n.withRole role).head.role = role := by
  cases n
  rfl

/-- The role of a node says nothing about its layout. -/
theorem LaidOut.withRole {n : Node} (h : n.LaidOut cs) (role : Role) :
    (n.withRole role).LaidOut cs := by
  cases h with
  | mk hfits hall =>
    exact .mk ⟨hfits.placed, hfits.inside, hfits.ordered, hfits.tight, hfits.named, hfits.bare,
      hfits.spelled, hfits.filled⟩ hall

end Node

/-- A node of a plain kind fits if it stands around its children. -/
theorem Fits.of_plain {cs : List Char} {head : Head} {children : List Node}
    (hkind : head.kind.isPlain = true) (placed : head.span.start.InText cs)
    (inside : ∀ c ∈ children, c.Within head.span.start.offset head.span.stop)
    (ordered : children.Pairwise Node.Before) : Fits cs head children := by
  simp only [Kind.isPlain, Bool.and_eq_true, Bool.not_eq_true', decide_eq_true_eq] at hkind
  obtain ⟨⟨⟨⟨htight, hdeclarator⟩, hidentifier⟩, hparens⟩, hsolid⟩ := hkind
  exact ⟨placed, inside, ordered, fun h => absurd h (by simp [htight]),
    fun h => absurd h hdeclarator, fun h => absurd h hidentifier,
    fun h => by simp [h, Kind.isSolid] at hsolid, fun h => absurd h hparens⟩

/-- The kind of a node may become a plain one. -/
theorem Fits.withKind {cs : List Char} {head : Head} {children : List Node} {kind : Kind}
    (h : Fits cs head children) (hkind : kind.isPlain = true) :
    Fits cs { head with kind } children :=
  .of_plain hkind h.placed h.inside h.ordered

/-- The kind of a node that is laid out may become a plain one. -/
theorem Node.LaidOut.withKind {cs : List Char} {n : Node} {kind : Kind} (h : n.LaidOut cs)
    (hkind : kind.isPlain = true) : (n.withKind kind).LaidOut cs := by
  cases h with
  | mk hfits hall => exact .mk (hfits.withKind hkind) hall

namespace Node

/-- A solid node is solid in every role. -/
theorem isSolid_withRole {n : Node} (h : n.isSolid = true) (role : Role) :
    (n.withRole role).isSolid = true := by
  rw [isSolid, kind_withRole]
  exact h

/-- A node of a plain kind is solid, whatever it was before. -/
theorem isSolid_withKind {n : Node} {kind : Kind} (h : kind.isPlain = true) :
    (n.withKind kind).isSolid = true := by
  rw [isSolid, kind_withKind]
  exact Kind.isSolid_of_isPlain h

/-- What a parent sees of a node: where it stands and which role it plays. -/
def face (n : Node) : Span × Role := (n.span, n.head.role)

/-- Nodes that look the same to their parent stand in the same place. -/
theorem span_eq_of_face_eq {n m : Node} (h : n.face = m.face) : n.span = m.span :=
  congrArg Prod.fst h

/-- A node that looks the same to its parent stands between the same offsets. -/
theorem Within.of_face_eq {n m : Node} {low high : ℕ} (h : n.Within low high)
    (hface : m.face = n.face) : m.Within low high := by
  rw [Within, span_eq_of_face_eq hface]
  exact h

end Node

section

variable {cs : List Char} {head : Head} {children children' : List Node}
  (hfaces : children'.map Node.face = children.map Node.face)

include hfaces

/-- Each of the new children looks the same as one of the old ones. -/
theorem exists_face_eq_of_mem {c' : Node} (hc' : c' ∈ children') :
    ∃ c ∈ children, c'.face = c.face := by
  have hmem : c'.face ∈ children.map Node.face := hfaces ▸ List.mem_map_of_mem hc'
  obtain ⟨c, hc, hface⟩ := List.mem_map.1 hmem
  exact ⟨c, hc, hface.symm⟩

/-- The new children stand between the same offsets. -/
theorem forall_within_of_faces {low high : ℕ} (h : ∀ c ∈ children, c.Within low high) :
    ∀ c' ∈ children', c'.Within low high := by
  intro c' hc'
  obtain ⟨c, hc, hface⟩ := exists_face_eq_of_mem hfaces hc'
  exact (h c hc).of_face_eq hface

/-- The new children stand one behind the other. -/
theorem pairwise_before_of_faces (h : children.Pairwise Node.Before) :
    children'.Pairwise Node.Before := by
  have hbefore : (children.map Node.face).Pairwise fun a b => a.1.stop ≤ b.1.start.offset :=
    List.pairwise_map.2 h
  rw [← hfaces, List.pairwise_map] at hbefore
  exact hbefore

/-- A node of a plain kind may be made of others that look the same to their parent. -/
theorem Fits.replace_plain {kind : Kind} (h : Fits cs head children)
    (hkind : kind.isPlain = true) :
    Fits cs { head with kind } children' :=
  .of_plain hkind h.placed (forall_within_of_faces hfaces h.inside)
    (pairwise_before_of_faces hfaces h.ordered)

/-- Children may be replaced by others of the same kinds that look the same to their parent. -/
theorem Fits.replace (h : Fits cs head children)
    (hkinds : children'.map Node.kind = children.map Node.kind) : Fits cs head children' := by
  refine ⟨h.placed, forall_within_of_faces hfaces h.inside,
    pairwise_before_of_faces hfaces h.ordered, ?_, ?_, ?_, h.spelled, ?_⟩
  · -- a tight kind is wider than each child, which is a matter of places
    intro hkind c' hc'
    obtain ⟨c, hc, hface⟩ := exists_face_eq_of_mem hfaces hc'
    rw [Node.span_eq_of_face_eq hface]
    exact h.tight hkind c hc
  · intro hkind
    -- the first child keeps its role
    obtain ⟨first, rest, rfl, hrole⟩ := h.named hkind
    cases children' with
    | nil => simp at hfaces
    | cons first' rest' =>
      rw [List.map_cons, List.map_cons, List.cons.injEq] at hfaces
      exact ⟨first', rest', rfl, (congrArg Prod.snd hfaces.1).trans hrole⟩
  · intro hkind
    rw [h.bare hkind, List.map_nil, List.map_eq_nil_iff] at hfaces
    exact hfaces
  · intro hkind
    -- whether a child is solid is a matter of its kind
    obtain ⟨c, hc, hsolid⟩ := h.filled hkind
    have hmem : c.kind ∈ children'.map Node.kind := hkinds ▸ List.mem_map_of_mem hc
    obtain ⟨c', hc', hkind'⟩ := List.mem_map.1 hmem
    exact ⟨c', hc', by rw [Node.isSolid, hkind']; exact hsolid⟩

end

namespace Node

variable {cs : List Char}

mutual

/-- Numbering keeps what a parent sees of a node, its kind, and all layout inside it. -/
theorem numberFrom_spec :
    ∀ (next : ℕ) (n : Node), (n.numberFrom next).1.face = n.face ∧
      (n.numberFrom next).1.kind = n.kind ∧ (n.LaidOut cs → (n.numberFrom next).1.LaidOut cs)
  | next, mk head children => by
    obtain ⟨hfaces, hkinds, hlaid⟩ := numberAll_spec (next + 1) children
    refine ⟨rfl, rfl, fun h => ?_⟩
    cases h with
    | mk hfits hall =>
      have hfits' := hfits.replace hfaces hkinds
      exact .mk ⟨hfits'.placed, hfits'.inside, hfits'.ordered, hfits'.tight, hfits'.named,
        hfits'.bare, hfits'.spelled, hfits'.filled⟩ (hlaid hall)

/-- Numbering nodes one behind the other keeps what their parent sees of them, their kinds, and all
layout inside them. -/
theorem numberAll_spec :
    ∀ (next : ℕ) (ts : List Node), (numberAll next ts).1.map face = ts.map face ∧
      (numberAll next ts).1.map kind = ts.map kind ∧
      ((∀ t ∈ ts, t.LaidOut cs) → ∀ t ∈ (numberAll next ts).1, t.LaidOut cs)
  | next, [] => by simp [numberAll]
  | next, n :: rest => by
    obtain ⟨hface, hkind, hlaid⟩ := numberFrom_spec next n
    obtain ⟨hfaces, hkinds, hall⟩ := numberAll_spec (n.numberFrom next).2 rest
    simp only [numberAll, List.map_cons, hface, hfaces, hkind, hkinds, List.forall_mem_cons,
      true_and]
    exact fun h => ⟨hlaid h.1, hall h.2⟩

end

/-- A tree that is laid out may be numbered. -/
theorem LaidOut.numbered {n : Node} (h : n.LaidOut cs) : n.numbered.LaidOut cs :=
  (numberFrom_spec 0 n).2.2 h

/-- Numbering changes nothing about where a tree ends. -/
theorem EndsIn.numbered {n : Node} (h : n.EndsIn cs) : n.numbered.EndsIn cs := by
  rw [EndsIn, Node.numbered, span_eq_of_face_eq (@numberFrom_spec cs 0 n).1]
  exact h

/-! ## Patterns -/

/-- A node that stands in the place of another one, solid and laid out if that is. -/
structure LaidFor (cs : List Char) (n m : Node) : Prop where
  /-- A parent sees no difference. -/
  face_eq : m.face = n.face
  /-- It is laid out. -/
  laid : n.LaidOut cs → m.LaidOut cs
  /-- It is solid. -/
  solid : n.isSolid = true → m.isSolid = true

/-- A node stands in its own place. -/
theorem LaidFor.refl (n : Node) : LaidFor cs n n := ⟨rfl, fun h => h, fun h => h⟩

/-- Nodes that stand in the places of others. -/
def AllLaidFor (cs : List Char) (ns ms : List Node) : Prop :=
  ms.map face = ns.map face ∧ ((∀ n ∈ ns, n.LaidOut cs) → ∀ m ∈ ms, m.LaidOut cs)

/-- A node may be made of new children and a plain kind. -/
theorem AllLaidFor.mk {head : Head} {children children' : List Node} {kind : Kind}
    (h : AllLaidFor cs children children') (hkind : kind.isPlain = true) :
    LaidFor cs (.mk head children) (.mk { head with kind } children') := by
  refine ⟨rfl, fun hlaid => ?_, fun _ => Kind.isSolid_of_isPlain hkind⟩
  cases hlaid with
  | mk hfits hall => exact .mk (hfits.replace_plain h.1 hkind) (h.2 hall)

/-- Nodes stand in their own places. -/
theorem AllLaidFor.refl (ns : List Node) : AllLaidFor cs ns ns := ⟨rfl, fun h => h⟩

/-- A default pattern stands in the place of its assignment. -/
theorem laidFor_toDefault? {head : Head} {children : List Node} {m : Node}
    (h : toDefault? head children = some m) : LaidFor cs (.mk head children) m := by
  unfold toDefault? at h
  split at h
  · split at h
    · cases h
    · cases h
      exact (AllLaidFor.refl children).mk rfl
  · cases h

/-- What a bare pattern is made of stands in its place, if its children do. -/
theorem laidFor_bare? {head : Head} {children : List Node} {m : Node}
    (ih : ∀ place ms, toPatterns? place children = some ms → AllLaidFor cs children ms)
    (h : bare? head children = some m) : LaidFor cs (.mk head children) m := by
  have hself (h : some (mk head children) = some m) : LaidFor cs (mk head children) m :=
    Option.some.inj h ▸ LaidFor.refl _
  -- an array or an object becomes a pattern of the same children, each read as a pattern
  have hlist {place : PatternPlace} {kind : Kind} (hkind : kind.isPlain = true)
      (h : (toPatterns? place children).map (mk { head with kind }) = some m) :
      LaidFor cs (mk head children) m := by
    obtain ⟨ms, hms, rfl⟩ := Option.map_eq_some_iff.1 h
    exact (ih _ _ hms).mk hkind
  unfold bare? at h
  -- names, accesses and patterns stay as they are, and literals become patterns
  split at h
  · exact hself h
  · exact hself h
  · exact hself h
  · exact hself h
  · exact hself h
  · exact hself h
  · exact hlist rfl h
  · exact hlist rfl h
  · cases h

mutual

/-- A pattern stands in the place of the expression that spells it. -/
theorem laidFor_toPattern? :
    ∀ {n : Node} (place : PatternPlace) {m : Node}, n.toPattern? place = some m → LaidFor cs n m
  | mk head children, place, m, h => by
    have ih : ∀ place ms, toPatterns? place children = some ms → AllLaidFor cs children ms :=
      fun place _ => allLaidFor_toPatterns? place
    -- the places differ in what may stand there, and what may stays or is replaced alike
    rw [toPattern?.eq_def] at h
    simp only at h
    split at h
    · -- comments and punctuation stay as they are
      cases h
      exact LaidFor.refl _
    · cases place with
      | target =>
        simp only at h
        split at h
        · cases h
          exact LaidFor.refl _
        · exact laidFor_bare? ih h
      | element =>
        simp only at h
        split at h
        · exact laidFor_toDefault? h
        · obtain ⟨ms, hms, rfl⟩ := Option.map_eq_some_iff.1 h
          exact (ih _ _ hms).mk rfl
        · cases h
          exact LaidFor.refl _
        · exact laidFor_bare? ih h
      | member =>
        simp only at h
        split at h
        · obtain ⟨ms, hms, rfl⟩ := Option.map_eq_some_iff.1 h
          exact (ih _ _ hms).mk rfl
        · obtain ⟨ms, hms, rfl⟩ := Option.map_eq_some_iff.1 h
          exact (ih _ _ hms).mk rfl
        · cases h
          exact LaidFor.refl _
        · cases h
          exact LaidFor.refl _
        · cases h
      | pairPart =>
        simp only at h
        split at h
        · -- so does the key of a pair
          cases h
          exact LaidFor.refl _
        · split at h
          · exact laidFor_toDefault? h
          · exact laidFor_bare? ih h

/-- Patterns stand in the places of the expressions that spell them. -/
theorem allLaidFor_toPatterns? :
    ∀ {ns : List Node} (place : PatternPlace) {ms : List Node},
      toPatterns? place ns = some ms → AllLaidFor cs ns ms
  | [], place, ms, h => by
    rw [toPatterns?] at h
    cases h
    exact AllLaidFor.refl []
  | n :: rest, place, ms, h => by
    rw [toPatterns?] at h
    obtain ⟨m, hm, h⟩ := Option.bind_eq_some_iff.1 h
    obtain ⟨more, hmore, h⟩ := Option.bind_eq_some_iff.1 h
    cases h
    have hfor : LaidFor cs n m := laidFor_toPattern? place hm
    obtain ⟨hfaces, hall⟩ := allLaidFor_toPatterns? place hmore
    refine ⟨by rw [List.map_cons, List.map_cons, hfor.face_eq, hfaces], fun h => ?_⟩
    rw [List.forall_mem_cons] at h ⊢
    exact ⟨hfor.laid h.1, hall h.2⟩

end

/-- The target of an assignment stands in the place of the expression that spells it. -/
theorem laidFor_toTarget? {n m : Node} (h : n.toTarget? = some m) : LaidFor cs n m := by
  unfold toTarget? at h
  split at h
  · cases h
    exact LaidFor.refl _
  · exact laidFor_toPattern? _ h

/-- A parameter list stands in the place of the list that spells it, whatever kind that has. -/
theorem laidFor_toParameters? {n m : Node} (kind : Kind) (h : n.toParameters? = some m) :
    LaidFor cs (n.withKind kind) m := by
  unfold toParameters? at h
  split at h
  · obtain ⟨ms, hms, rfl⟩ := Option.map_eq_some_iff.1 h
    cases n
    exact (allLaidFor_toPatterns? _ hms).mk rfl
  · cases h

/-- Of nodes in order, the first one starts first and the last one ends last. -/
theorem within_of_mem_ordered {ns : List Node} {low high : ℕ} (hne : ns ≠ [])
    (hinside : ∀ n ∈ ns, n.Within low high) (hordered : ns.Pairwise Before) :
    ∀ n ∈ ns, n.Within (ns.head hne).span.start.offset (ns.getLast hne).span.stop := by
  intro n hn
  obtain ⟨-, hnonempty, -⟩ := hinside n hn
  refine ⟨?_, hnonempty, ?_⟩
  · -- any other node starts behind the end of the first one
    obtain ⟨first, rest, rfl⟩ := List.exists_cons_of_ne_nil hne
    rcases List.mem_cons.1 hn with rfl | hn
    · exact Nat.le_refl _
    · have hfirst := (hinside first List.mem_cons_self).2.1
      have hbefore := List.rel_of_pairwise_cons hordered hn
      exact Nat.le_of_lt (Nat.lt_of_lt_of_le hfirst hbefore)
  · -- and ends before the start of the last one
    obtain ⟨rest, last, rfl⟩ := List.eq_nil_or_concat' ns |>.resolve_left hne
    rw [List.getLast_append_singleton]
    rcases List.mem_append.1 hn with hn | hn
    · have hlast := (hinside last (by simp)).2.1
      have hbefore := (List.pairwise_append.1 hordered).2.2 n hn last (by simp)
      exact Nat.le_of_lt (Nat.lt_of_le_of_lt hbefore hlast)
    · obtain rfl := List.mem_singleton.1 hn
      exact Nat.le_refl _

/-- A sequence of nodes in order is laid out. -/
theorem laidOut_spanning {first : Node} {rest : List Node} {low high : ℕ}
    (hlaid : ∀ n ∈ first :: rest, n.LaidOut cs) (hinside : ∀ n ∈ first :: rest, n.Within low high)
    (hordered : (first :: rest).Pairwise Before) :
    (spanning .sequence first (first :: rest)).LaidOut cs := by
  have hbounds := within_of_mem_ordered (List.cons_ne_nil first rest) hinside hordered
  refine .mk (.of_plain rfl (hlaid first List.mem_cons_self).fits.placed ?_ hordered) hlaid
  rw [List.getLast?_eq_some_getLast (List.cons_ne_nil first rest)]
  exact hbounds

/-- What is between the trivia at the ends of a list in brackets, with the trivia and the brackets
around it, makes up the list. -/
theorem eq_append_of_core_ne_nil {α : Type} {l : List α} {p : α → Bool}
    {before core behind : List α} (hbefore : before = ((l.drop 1).dropLast).takeWhile p)
    (hbehind : behind = (((l.drop 1).dropLast).reverse.takeWhile p).reverse)
    (hcore : core = (((l.drop 1).dropLast).drop before.length).take
      (((l.drop 1).dropLast).length - before.length - behind.length))
    (hne : core ≠ []) :
    l = l.take 1 ++ before ++ core ++ behind ++ l.drop (l.length - 1) := by
  generalize hinside : (l.drop 1).dropLast = inside at hbefore hbehind hcore
  -- if the trivia at the two ends met, nothing would be left between them
  have hlength : before.length + behind.length < inside.length := by
    by_contra hle
    have hzero : inside.length - before.length - behind.length = 0 := by omega
    rw [hzero, List.take_zero] at hcore
    exact hne hcore
  have hpre : before <+: inside := hbefore ▸ List.takeWhile_prefix p
  have hsuf : behind <:+ inside := by
    rw [hbehind, ← List.reverse_prefix, List.reverse_reverse]
    exact List.takeWhile_prefix p
  -- the text behind the first trivia splits into the core and the last trivia
  have hinner : inside = before ++ core ++ behind := by
    have hdrop : inside.drop (inside.length - behind.length) = behind :=
      List.suffix_iff_eq_drop.1 hsuf |>.symm
    have htake : inside.take before.length = before := (List.prefix_iff_eq_take.1 hpre).symm
    calc inside = inside.take before.length ++ inside.drop before.length :=
          (List.take_append_drop ..).symm
      _ = before ++ (core ++ (inside.drop before.length).drop
            (inside.length - before.length - behind.length)) := by
          rw [htake, hcore, List.take_append_drop]
      _ = before ++ core ++ behind := by
          rw [List.drop_drop,
            show before.length + (inside.length - before.length - behind.length) =
              inside.length - behind.length by omega, hdrop, List.append_assoc]
  -- a list with something inside has two brackets
  have hlong : 2 ≤ l.length := by
    have hlengths := congrArg List.length hinside
    simp only [List.length_dropLast, List.length_drop] at hlengths
    omega
  have houter : l.drop 1 = inside ++ l.drop (l.length - 1) := by
    rw [← hinside, List.dropLast_eq_take, List.length_drop]
    conv_lhs => rw [← List.take_append_drop (l.length - 1 - 1) (l.drop 1)]
    rw [List.drop_drop, show 1 + (l.length - 1 - 1) = l.length - 1 by omega]
  calc l = l.take 1 ++ l.drop 1 := (List.take_append_drop 1 l).symm
    _ = _ := by rw [houter, hinner]; simp only [List.append_assoc]

/-- Some children of a node of a plain kind may be put into a sequence. -/
theorem LaidOut.group {head : Head} {before behind core : List Node} {first : Node}
    (hkind : head.kind.isPlain = true) (hcore : core.head? = some first)
    (h : (Node.mk head (before ++ core ++ behind)).LaidOut cs) :
    (Node.mk head (before ++ [spanning .sequence first core] ++ behind)).LaidOut cs := by
  obtain ⟨tail, rfl⟩ : ∃ tail, core = first :: tail := by
    cases core with
    | nil => cases hcore
    | cons c tail => exact ⟨tail, by cases hcore; rfl⟩
  obtain ⟨hfits, hall⟩ := h
  have hinside := hfits.inside
  have hordered := hfits.ordered
  simp only [List.forall_mem_append] at hinside hall
  obtain ⟨⟨hinsideBefore, hinsideCore⟩, hinsideBehind⟩ := hinside
  obtain ⟨⟨hlaidBefore, hlaidCore⟩, hlaidBehind⟩ := hall
  rw [List.pairwise_append, List.pairwise_append] at hordered
  obtain ⟨⟨hbefore, hmiddle, hfirst⟩, hbehind, hlast⟩ := hordered
  have hbounds := within_of_mem_ordered (List.cons_ne_nil first tail) hinsideCore hmiddle
  have hlastMem := List.getLast_mem (List.cons_ne_nil first tail)
  -- the sequence reaches from the start of the first child to the end of the last one
  have hstop : (spanning .sequence first (first :: tail)).span.stop =
      ((first :: tail).getLast (List.cons_ne_nil first tail)).span.stop := by
    rw [spanning, List.getLast?_eq_some_getLast (List.cons_ne_nil first tail)]
    rfl
  have hwithin : (spanning .sequence first (first :: tail)).Within head.span.start.offset
      head.span.stop := by
    refine ⟨(hinsideCore first List.mem_cons_self).1, ?_, ?_⟩
    · rw [hstop]
      exact Nat.lt_of_le_of_lt (hbounds _ hlastMem).1 (hinsideCore _ hlastMem).2.1
    · rw [hstop]
      exact (hinsideCore _ hlastMem).2.2
  have hfits' : Fits cs head (before ++ [spanning .sequence first (first :: tail)] ++ behind) := by
    refine Fits.of_plain hkind hfits.placed ?_ ?_
    · simp only [List.forall_mem_append, List.forall_mem_singleton]
      exact ⟨⟨hinsideBefore, hwithin⟩, hinsideBehind⟩
    · rw [List.pairwise_append, List.pairwise_append]
      -- the neighbours of the sequence are those of its first and of its last child
      refine ⟨⟨hbefore, List.pairwise_singleton .., ?_⟩, hbehind, ?_⟩
      · intro a ha b hb
        rw [List.mem_singleton.1 hb]
        exact hfirst a ha first List.mem_cons_self
      · intro a ha b hb
        rcases List.mem_append.1 ha with ha | ha
        · exact hlast a (List.mem_append_left _ ha) b hb
        · rw [List.mem_singleton.1 ha, Before, hstop]
          exact hlast _ (List.mem_append_right _ hlastMem) b hb
  refine .mk hfits' ?_
  simp only [List.forall_mem_append, List.forall_mem_singleton]
  exact ⟨⟨hlaidBefore, laidOut_spanning hlaidCore hinsideCore hmiddle⟩, hlaidBehind⟩

/-- A node with something solid in it may be a pair of parentheses. -/
theorem LaidOut.parenthesize {head : Head} {children : List Node}
    (h : (Node.mk head children).LaidOut cs) (hsolid : ∃ c ∈ children, c.isSolid = true) :
    (Node.mk { head with kind := .parenthesized } children).LaidOut cs := by
  obtain ⟨hfits, hall⟩ := h
  exact .mk ⟨hfits.placed, hfits.inside, hfits.ordered, by simp [Kind.isTight], by simp, by simp,
    by simp, fun _ => hsolid⟩ hall

/-- A list of expressions has something solid in it. -/
theorem exists_isSolid_of_isListed {n : Node} (hne : n.listed ≠ [])
    (h : isListed false n.listed = true) : ∃ c ∈ n.children, c.isSolid = true := by
  obtain ⟨item, rest, hlisted⟩ := List.exists_cons_of_ne_nil hne
  have hmark : item.kind ≠ .punctuation := by
    rw [hlisted] at h
    cases rest with
    | nil => simpa [isListed] using h
    | cons comma rest =>
      simp only [isListed, Bool.and_eq_true, decide_eq_true_eq] at h
      exact h.1.1
  -- what is listed is no trivia
  have hitem : item ∈ n.listed := by rw [hlisted]; exact List.mem_cons_self
  obtain ⟨hinside, htrivia⟩ := List.mem_filter.1 hitem
  have hcomment : item.kind ≠ .comment := by
    intro hkind
    simp [hkind, Kind.isTrivia] at htrivia
  exact ⟨item, List.mem_of_mem_drop ((List.dropLast_sublist _).subset hinside),
    by simp [isSolid, Kind.isSolid, hmark, hcomment]⟩

/-- A list in parentheses read as one expression stands in the place of the list. There is
something in the list then, while there may be nothing in a parameter list. -/
theorem laidFor_groupSequence? {n m : Node} {kind : Kind} (hparens : n.kind = .parenthesized)
    (hkind : kind.isPlain = true) (h : n.groupSequence? = some m) :
    LaidFor cs (n.withKind kind) m := by
  obtain ⟨⟨id, kind', role, span, text⟩, children⟩ := n
  obtain rfl : kind' = .parenthesized := hparens
  unfold groupSequence? at h
  simp only at h
  split at h
  · cases h
  · rename_i hlist
    simp only [Bool.not_eq_true, Bool.or_eq_false_iff, Bool.not_eq_false',
      List.isEmpty_eq_false_iff] at hlist
    split at h
    · cases h
    · cases h
      exact ⟨rfl, fun hlaid => hlaid.parenthesize (exists_isSolid_of_isListed hlist.1.1 hlist.1.2),
        fun _ => rfl⟩
    · -- more than one expression between the brackets
      rename_i first tail _ hcore
      cases h
      refine ⟨rfl, fun hlaid => ?_, fun _ => rfl⟩
      have hsplit := eq_append_of_core_ne_nil rfl rfl hcore.symm (List.cons_ne_nil first tail)
      rw [hcore]
      rw [withKind, show children = _ from hsplit, List.append_assoc] at hlaid
      rw [List.append_assoc _ _ (List.drop _ _)]
      exact (hlaid.group hkind rfl).parenthesize
        ⟨spanning .sequence first (first :: tail), by simp, rfl⟩

/-! ## Parentheses -/

mutual

/-- Taking off parentheses does not end at a pair of them. -/
theorem LaidOut.kind_unparenthesized :
    ∀ {n : Node}, n.LaidOut cs → n.unparenthesized.kind ≠ .parenthesized
  | mk head children, h => by
    obtain ⟨hfits, hall⟩ := h
    -- there is something solid in a pair of parentheses, so taking it off leads on
    by_cases hkind : head.kind = .parenthesized
    · obtain ⟨inner, hinner, hne⟩ := exists_firstUnparenthesized hall (hfits.filled hkind)
      rw [unparenthesized, if_pos hkind, hinner, Option.getD_some]
      exact hne
    · rw [unparenthesized, if_neg hkind]
      exact hkind

/-- Something solid among nodes leads to something without parentheses. -/
theorem exists_firstUnparenthesized :
    ∀ {ts : List Node}, (∀ t ∈ ts, t.LaidOut cs) → (∃ t ∈ ts, t.isSolid = true) →
      ∃ inner, firstUnparenthesized ts = some inner ∧ inner.kind ≠ .parenthesized
  | [], _, hsolid => by
    obtain ⟨t, ht, -⟩ := hsolid
    cases ht
  | n :: rest, hlaid, hsolid => by
    rw [List.forall_mem_cons] at hlaid
    rw [firstUnparenthesized]
    split
    · -- the solid node is one of the others
      rename_i hn
      refine exists_firstUnparenthesized hlaid.2 ?_
      obtain ⟨t, ht, htsolid⟩ := hsolid
      rcases List.mem_cons.1 ht with rfl | ht
      · rcases hn with hn | hn <;> simp [isSolid, Kind.isSolid, hn] at htsolid
      · exact ⟨t, ht, htsolid⟩
    · exact ⟨n.unparenthesized, rfl, hlaid.1.kind_unparenthesized⟩

end

/-! ## Anchors -/

/-- The nodes that are wider than all anchors inside them: those of tight kinds, and declarators of
a plain name. -/
def IsAnchor (n : Node) : Prop :=
  n.kind.isTight = true ∨
    n.kind = .declarator ∧ ∃ name, n.field .name = some name ∧ name.kind = .identifier

/-- Two nodes cover different stretches: they do not start at the same byte and have the same
number of bytes. -/
def Apart (n m : Node) : Prop :=
  n.span.start.offset = m.span.start.offset → n.span.length ≠ m.span.length

theorem Apart.symm {n m : Node} (h : n.Apart m) : m.Apart n :=
  fun hstart hlength => h hstart.symm hlength.symm

/-- All nodes of a tree that is laid out are laid out. -/
theorem Ancestry.laidOut {root n : Node} {above : List Node} (h : Ancestry root n above)
    (hroot : root.LaidOut cs) : n.LaidOut cs := by
  induction h with
  | root => exact hroot
  | child _ hm ih => exact ih.of_mem_children hm

/-- All nodes of a tree that is laid out stand inside its root. -/
theorem Ancestry.within {root n : Node} {above : List Node} (h : Ancestry root n above)
    (hroot : root.LaidOut cs) (hnonempty : root.span.start.offset < root.span.stop) :
    n.Within root.span.start.offset root.span.stop := by
  induction h with
  | root => exact ⟨Nat.le_refl _, hnonempty, Nat.le_refl _⟩
  | child hn hm ih => exact ((hn.laidOut hroot).fits.inside _ hm).mono ih.1 ih.2.2

/-- An anchor inside a child of another anchor covers another stretch than that one. -/
theorem apart_of_mem_child {n t y : Node} (h : n.LaidOut cs) (hanchor : n.IsAnchor)
    (ht : t ∈ n.children) (hy : y ∈ t.nodes) (hyAnchor : y.IsAnchor) : n.Apart y := by
  obtain ⟨above, hancestry⟩ := mem_nodes_iff_exists_ancestry.1 hy
  obtain ⟨hlow, hnonempty, hhigh⟩ : t.Within n.span.start.offset n.span.stop := h.fits.inside t ht
  obtain ⟨hyLow, hyNonempty, hyHigh⟩ := hancestry.within (h.of_mem_children ht) hnonempty
  intro hstart
  -- a tight node is wider than its child, and so than all nodes in the child
  rcases hanchor with htight | ⟨hdeclarator, name, hname, hidentifier⟩
  · have hwider : n.span.start.offset < t.span.start.offset ∨ t.span.stop < n.span.stop :=
      h.fits.tight htight t ht
    simp only [Span.length]
    omega
  · obtain ⟨first, rest, hchildren, hrole⟩ := h.fits.named hdeclarator
    -- the first child is the name, so it has nothing inside it
    obtain rfl : first = name := by
      rw [field, hchildren, List.find?_cons_of_pos (by simpa using hrole)] at hname
      exact Option.some.inj hname
    have hfirst : first ∈ n.children := hchildren ▸ List.mem_cons_self
    rcases List.mem_cons.1 (hchildren ▸ ht) with rfl | ht
    · have hbare := (h.of_mem_children hfirst).fits.bare hidentifier
      obtain rfl : y = t := by
        cases t
        obtain rfl := hbare
        simpa [nodes, nodesAmong] using hy
      rcases hyAnchor with hk | ⟨hk, -⟩
      · rw [hidentifier] at hk
        cases hk
      · rw [hidentifier] at hk
        cases hk
    · -- any other child starts behind the name, so behind the start of the declarator
      obtain ⟨hfirstLow, hfirstNonempty, -⟩ :
          first.Within n.span.start.offset n.span.stop := h.fits.inside first hfirst
      have hordered : (first :: rest).Pairwise Before := hchildren ▸ h.fits.ordered
      have hbefore : first.span.stop ≤ t.span.start.offset := List.rel_of_pairwise_cons hordered ht
      omega

mutual

/-- No two anchors of a tree that is laid out cover the same stretch. -/
theorem LaidOut.pairwise_anchors :
    ∀ {n : Node}, n.LaidOut cs → n.nodes.Pairwise fun x y => x.IsAnchor → y.IsAnchor → x.Apart y
  | mk head children, h => by
    rw [nodes, List.pairwise_cons]
    refine ⟨?_, pairwise_anchorsAmong (fun t ht => h.of_mem_children ht)
      (fun t ht => (h.fits.inside t ht).2.1) h.fits.ordered⟩
    -- the root against a node below it, which is in one of its children
    intro y hy hanchor hyAnchor
    obtain ⟨t, ht, above, hancestry⟩ := mem_nodesAmong_iff_exists_ancestry.1 hy
    exact apart_of_mem_child h hanchor ht (mem_nodes_iff_exists_ancestry.2 ⟨above, hancestry⟩)
      hyAnchor

/-- No two anchors among trees that are laid out one behind the other cover the same stretch. -/
theorem pairwise_anchorsAmong :
    ∀ {ts : List Node}, (∀ t ∈ ts, t.LaidOut cs) →
      (∀ t ∈ ts, t.span.start.offset < t.span.stop) → ts.Pairwise Before →
      (nodesAmong ts).Pairwise fun x y => x.IsAnchor → y.IsAnchor → x.Apart y
  | [], _, _, _ => by simp [nodesAmong]
  | n :: rest, hlaid, hnonempty, hordered => by
    rw [List.forall_mem_cons] at hlaid hnonempty
    rw [nodesAmong, List.pairwise_append]
    refine ⟨hlaid.1.pairwise_anchors,
      pairwise_anchorsAmong hlaid.2 hnonempty.2 (List.pairwise_cons.1 hordered).2, ?_⟩
    -- nodes of different children do not even overlap
    intro x hx y hy _ _ hstart
    obtain ⟨above, hx⟩ := mem_nodes_iff_exists_ancestry.1 hx
    obtain ⟨t, ht, above', hy⟩ := mem_nodesAmong_iff_exists_ancestry.1 hy
    have hxWithin := hx.within hlaid.1 hnonempty.1
    have hyWithin := hy.within (hlaid.2 t ht) (hnonempty.2 t ht)
    have hbefore : n.span.stop ≤ t.span.start.offset := List.rel_of_pairwise_cons hordered ht
    obtain ⟨-, hxNonempty, hxHigh⟩ := hxWithin
    have hyLow := hyWithin.1
    omega

end

end Node

end LoaderLint.Script
