import LoaderLint.Proofs.TreeLayout
import LoaderLint.Script.Reader

/-!
# States of readers

What the states of a reader tell about the text and about the nodes of the construct that is open:
where one state can follow another one, what was read in between, and how the nodes of a construct
that is closed stand.

The module introduces:

* `Cursor.At` — a cursor that stands at its position in the text;
* `Grown` — a state that follows another one with more nodes;
* `Past`, `Gives` — a state behind a node, and one that follows another one with a node made in
  between;
* `Opened` — what a construct may open with.
-/

namespace LoaderLint.Script

/-! ## Cursors -/

/-- The cursor stands in the text, and its position is that place. -/
def Cursor.At (cs : List Char) (c : Cursor) : Prop :=
  ∃ before, cs = before ++ c.rest ∧ c.position = Position.start.past before

namespace Cursor

variable {cs : List Char} {c : Cursor}

/-- The position of a cursor that stands in the text is a position of the text. -/
theorem At.inText (h : c.At cs) : c.position.InText cs := by
  obtain ⟨before, hcs, hposition⟩ := h
  exact ⟨before, c.rest, hcs, hposition⟩

/-- A character takes at least one byte. -/
theorem offset_lt_offset_after (p : Position) (x : Char) : p.offset < (p.after x).offset := by
  unfold Position.after
  split
  · exact Nat.lt_succ_self _
  · exact Nat.lt_add_of_pos_right (Char.utf8Size_pos x)

/-- Going forward leaves out the characters that were passed. -/
theorem rest_advance (n : ℕ) (c : Cursor) : (c.advance n).rest = c.rest.drop n := by
  induction n generalizing c with
  | zero => rfl
  | succ n ih =>
    obtain ⟨rest, p⟩ := c
    cases rest with
    | nil => rfl
    | cons x rest => exact ih ⟨rest, p.after x⟩

/-- Going forward moves the position past the characters that were passed. -/
theorem position_advance (n : ℕ) (c : Cursor) :
    (c.advance n).position = c.position.past (c.rest.take n) := by
  induction n generalizing c with
  | zero => rfl
  | succ n ih =>
    obtain ⟨rest, p⟩ := c
    cases rest with
    | nil => rfl
    | cons x rest => exact ih ⟨rest, p.after x⟩

/-- A cursor that goes forward stands in the text. -/
theorem At.advance (h : c.At cs) (n : ℕ) : (c.advance n).At cs := by
  obtain ⟨before, hcs, hposition⟩ := h
  -- what stood before the cursor, and then the characters that it took
  refine ⟨before ++ c.rest.take n, ?_, ?_⟩
  · rw [rest_advance, List.append_assoc, List.take_append_drop, hcs]
  · rw [position_advance, hposition, Position.past_append]

/-- Taking characters does not go back. -/
theorem offset_le_offset_advance (n : ℕ) (c : Cursor) :
    c.position.offset ≤ (c.advance n).position.offset := by
  induction n generalizing c with
  | zero => exact Nat.le_refl _
  | succ n ih =>
    obtain ⟨rest, p⟩ := c
    cases rest with
    | nil => exact Nat.le_refl _
    | cons x rest =>
      exact Nat.le_trans (Nat.le_of_lt (offset_lt_offset_after p x)) (ih ⟨rest, p.after x⟩)

/-- Where there is a character to take, taking some goes forward. -/
theorem offset_lt_offset_advance {n : ℕ} (hn : n ≠ 0) (hrest : c.rest ≠ []) :
    c.position.offset < (c.advance n).position.offset := by
  obtain ⟨rest, p⟩ := c
  obtain ⟨n, rfl⟩ := Nat.exists_eq_succ_of_ne_zero hn
  cases rest with
  | nil => exact absurd rfl hrest
  | cons x rest =>
    exact Nat.lt_of_lt_of_le (offset_lt_offset_after p x)
      (offset_le_offset_advance n ⟨rest, p.after x⟩)

/-- A leaf of at least one character is laid out, unless its kind asks for more. -/
theorem At.laidOut_leaf (h : c.At cs) {kind : Kind} (n : ℕ)
    (hkind : kind ≠ .declarator ∧ kind ≠ .parenthesized ∧ kind ≠ .comment) :
    (c.leaf kind n).LaidOut cs :=
  .mk ⟨h.inText, by simp, .nil, by simp, fun hk => absurd hk hkind.1, fun _ => rfl,
    fun hk => absurd hk hkind.2.2, fun hk => absurd hk hkind.2.1⟩ (by simp)

/-- A leaf stands in the characters that were taken for it. -/
theorem within_leaf {kind : Kind} {n : ℕ} (hn : n ≠ 0) (hrest : c.rest ≠ []) :
    (c.leaf kind n).Within c.position.offset (c.advance n).position.offset :=
  ⟨Nat.le_refl _, offset_lt_offset_advance hn hrest, Nat.le_refl _⟩

end Cursor

/-! ## Comments -/

/-- The rest of a block comment is not longer than the text. -/
theorem blockCommentLength_le {cs : List Char} {n : ℕ} (h : blockCommentLength cs = some n) :
    n ≤ cs.length := by
  fun_induction blockCommentLength cs generalizing n with
  | case1 rest =>
    cases h
    simp
  | case2 c rest _ ih =>
    obtain ⟨k, hk, rfl⟩ := Option.map_eq_some_iff.1 h
    exact Nat.succ_le_succ (ih hk)
  | case3 => cases h

/-- A comment is not empty and not longer than the text. -/
theorem commentLength_bounds {cs : List Char} {n : ℕ} (h : commentLength cs = some n) :
    n ≠ 0 ∧ n ≤ cs.length := by
  unfold commentLength at h
  split at h
  · rename_i rest
    cases h
    have hle := (List.takeWhile_prefix (l := rest) (!isLineEnd ·)).length_le
    simp only [List.length_cons]
    omega
  · obtain ⟨k, hk, rfl⟩ := Option.map_eq_some_iff.1 h
    have hle := blockCommentLength_le hk
    simp only [List.length_cons]
    omega
  · cases h

/-- A markup comment is not empty and not longer than the text. -/
theorem markupCommentLength_bounds {cs : List Char} {n : ℕ} (h : markupCommentLength cs = some n) :
    n ≠ 0 ∧ n ≤ cs.length := by
  unfold markupCommentLength at h
  split at h
  · rename_i rest
    cases h
    have hle := (List.takeWhile_prefix (l := rest) (!isLineBreak ·)).length_le
    simp only [List.length_cons]
    omega
  · rename_i rest
    cases h
    have hle := (List.takeWhile_prefix (l := rest) (!isLineBreak ·)).length_le
    simp only [List.length_cons]
    omega
  · cases h

/-- A comment ahead is laid out and ends where its length says. -/
theorem Cursor.At.comment? {cs : List Char} {c : Cursor} {markup : Bool} {node : Node} {n : ℕ}
    (h : c.At cs) (hcomment : c.comment? markup = some (node, n)) :
    node.LaidOut cs ∧ node.Within c.position.offset (c.advance n).position.offset := by
  have hne : n ≠ 0 → n ≤ c.rest.length → c.rest ≠ [] := by
    rintro hn hle hrest
    rw [hrest, List.length_nil] at hle
    exact hn (Nat.le_zero.1 hle)
  unfold Cursor.comment? at hcomment
  split at hcomment
  · rename_i k hk
    cases hcomment
    obtain ⟨hn, hle⟩ := commentLength_bounds hk
    -- the spelling is the first `n` characters of the text ahead
    obtain ⟨before, hcs, hposition⟩ := id h
    refine ⟨.mk ⟨h.inText, by simp, .nil, by simp, by simp, fun _ => rfl, fun _ => ?_, by simp⟩
      (by simp), within_leaf hn (hne hn hle)⟩
    refine ⟨before, c.rest.drop n, ?_, hposition, ?_⟩
    · rw [String.toList_ofList, List.take_append_drop, hcs]
    · rw [String.toList_ofList, List.take_append_drop, hk, List.length_take, Nat.min_eq_left hle]
  · split at hcomment
    · obtain ⟨k, hk, heq⟩ := Option.map_eq_some_iff.1 hcomment
      cases heq
      obtain ⟨hn, hle⟩ := markupCommentLength_bounds hk
      exact ⟨h.laidOut_leaf n (by decide), within_leaf hn (hne hn hle)⟩
    · cases hcomment

/-! ## States -/

/-- The offset of the text ahead. -/
abbrev ReaderState.offset (s : ReaderState) : ℕ := s.cursor.position.offset

/-- The second state follows the first one with the nodes `new` added, the last one first. -/
structure Grown (cs : List Char) (s s' : ReaderState) (new : List Node) : Prop where
  /-- The reader stands in the text. -/
  stands : s'.cursor.At cs
  /-- It went forward. -/
  forward : s.offset ≤ s'.offset
  /-- The nodes were added to those of the open construct. -/
  nodes : s'.nodes = new ++ s.nodes
  /-- They are laid out. -/
  laid : ∀ n ∈ new, n.LaidOut cs
  /-- They stand in what was read. -/
  inside : ∀ n ∈ new, n.Within s.offset s'.offset
  /-- They stand one behind the other. -/
  ordered : new.Pairwise fun later earlier => earlier.Before later

/-- The reader is past the node. -/
structure Past (cs : List Char) (n : Node) (s : ReaderState) : Prop where
  /-- The reader stands in the text. -/
  stands : s.cursor.At cs
  /-- The node is laid out. -/
  laid : n.LaidOut cs
  /-- It is neither punctuation nor a comment. -/
  solid : n.isSolid = true
  /-- It stands before the text ahead. -/
  within : n.Within 0 s.offset

/-- A reader made the node from what stands behind the offset `low`, and added no nodes. -/
structure Gives (cs : List Char) (low : ℕ) (s : ReaderState) (n : Node) (s' : ReaderState) :
    Prop where
  /-- The reader is past the node. -/
  past : Past cs n s'
  /-- The node does not start too early. -/
  after : low ≤ n.span.start.offset
  /-- No nodes were added to those of the open construct. -/
  nodes : s'.nodes = s.nodes
  /-- The reader went forward. -/
  forward : s.offset ≤ s'.offset

section States

variable {cs : List Char} {s s₁ s₂ : ReaderState} {n : Node} {low : ℕ}

theorem Grown.refl (h : s.cursor.At cs) : Grown cs s s [] :=
  ⟨h, Nat.le_refl _, rfl, by simp, by simp, .nil⟩

/-- The nodes that are added in two steps are added in one. -/
theorem Grown.trans {new more : List Node} (h : Grown cs s s₁ new) (h' : Grown cs s₁ s₂ more) :
    Grown cs s s₂ (more ++ new) where
  stands := h'.stands
  forward := Nat.le_trans h.forward h'.forward
  nodes := by rw [h'.nodes, h.nodes, List.append_assoc]
  laid := List.forall_mem_append.2 ⟨h'.laid, h.laid⟩
  inside := List.forall_mem_append.2
    ⟨fun n hn => (h'.inside n hn).mono h.forward (Nat.le_refl _),
      fun n hn => (h.inside n hn).mono (Nat.le_refl _) h'.forward⟩
  ordered := List.pairwise_append.2 ⟨h'.ordered, h.ordered, fun later hlater earlier hearlier =>
    Nat.le_trans (h.inside earlier hearlier).2.2 (h'.inside later hlater).1⟩

/-- A node that was made may be added. -/
theorem Gives.grown (h : Gives cs s.offset s n s₁) :
    Grown cs s { s₁ with nodes := n :: s₁.nodes } [n] where
  stands := h.past.stands
  forward := h.forward
  nodes := by rw [h.nodes]; rfl
  laid := List.forall_mem_singleton.2 h.past.laid
  inside := List.forall_mem_singleton.2 ⟨h.after, h.past.within.2⟩
  ordered := List.pairwise_singleton ..

/-- A node that was made may be replaced by one that stands in its place. -/
theorem Gives.replace {m : Node} (h : Gives cs low s n s₁) (hspan : m.span = n.span)
    (hlaid : m.LaidOut cs) (hsolid : m.isSolid = true) : Gives cs low s m s₁ where
  past := ⟨h.past.stands, hlaid, hsolid, by rw [Node.Within, hspan]; exact h.past.within⟩
  after := by rw [hspan]; exact h.after
  nodes := h.nodes
  forward := h.forward

/-- A node that was made may be given a role. -/
theorem Gives.withRole (h : Gives cs low s n s₁) (role : Role) :
    Gives cs low s (n.withRole role) s₁ :=
  h.replace (n.span_withRole role) (h.past.laid.withRole role)
    (Node.isSolid_withRole h.past.solid role)

/-- A node that was made from another one stands where that one starts. -/
theorem Gives.trans {m : Node} (h : Gives cs low s n s₁)
    (h' : Gives cs n.span.start.offset s₁ m s₂) : Gives cs low s m s₂ where
  past := h'.past
  after := Nat.le_trans h.after h'.after
  nodes := h'.nodes.trans h.nodes
  forward := Nat.le_trans h.forward h'.forward

/-- A node that was read counts as made from itself. -/
theorem Past.self (h : Past cs n s) : Gives cs n.span.start.offset s n s :=
  ⟨h, Nat.le_refl _, rfl, Nat.le_refl _⟩

end States

/-! ## Enclosed nodes -/

section Enclosed

variable {cs : List Char} {s s' : ReaderState} {start : Position} {first new : List Node}

/-- What may stand in a construct before it is read on: nodes in order between its start and the
text ahead. -/
structure Opened (cs : List Char) (start : Position) (first : List Node) (s : ReaderState) :
    Prop where
  /-- The construct starts at a position of the text. -/
  placed : start.InText cs
  /-- It starts before the text ahead. -/
  forward : start.offset ≤ s.offset
  /-- Its nodes are laid out. -/
  laid : ∀ n ∈ first, n.LaidOut cs
  /-- They stand before the text ahead. -/
  inside : ∀ n ∈ first, n.Within start.offset s.offset
  /-- They stand one behind the other. -/
  ordered : first.Pairwise fun later earlier => earlier.Before later

/-- A construct without nodes opens anywhere. -/
theorem Opened.nil (h : s.cursor.At cs) : Opened cs s.cursor.position [] s :=
  ⟨h.inText, Nat.le_refl _, by simp, by simp, .nil⟩

/-- A construct opens with a node that was read. -/
theorem Past.opened {n : Node} (h : Past cs n s) : Opened cs n.span.start [n] s :=
  ⟨h.laid.fits.placed, Nat.le_trans (Nat.le_of_lt h.within.2.1) h.within.2.2,
    List.forall_mem_singleton.2 h.laid,
    List.forall_mem_singleton.2 ⟨Nat.le_refl _, h.within.2⟩, List.pairwise_singleton ..⟩

/-- A construct opens with the children of a node that was read. -/
theorem Past.opened_children {n : Node} (h : Past cs n s) :
    Opened cs n.span.start n.children.reverse s where
  placed := h.laid.fits.placed
  forward := Nat.le_trans (Nat.le_of_lt h.within.2.1) h.within.2.2
  laid _ hc := h.laid.of_mem_children (List.mem_reverse.1 hc)
  inside c hc := (h.laid.fits.inside c (List.mem_reverse.1 hc)).mono (Nat.le_refl _) h.within.2.2
  ordered := List.pairwise_reverse.2 h.laid.fits.ordered

/-- It may open with some of the nodes only. -/
theorem Opened.sublist {fewer : List Node} (h : Opened cs start first s)
    (hfewer : fewer.Sublist first) : Opened cs start fewer s :=
  ⟨h.placed, h.forward, fun n hn => h.laid n (hfewer.subset hn),
    fun n hn => h.inside n (hfewer.subset hn), h.ordered.sublist hfewer⟩

/-- It may open with another node in the place of the last one. -/
theorem Opened.replace {n m : Node} (h : Opened cs start (n :: first) s) (hspan : m.span = n.span)
    (hlaid : n.LaidOut cs → m.LaidOut cs) : Opened cs start (m :: first) s := by
  obtain ⟨hn, hlaid'⟩ := List.forall_mem_cons.1 h.laid
  obtain ⟨hwithin, hinside⟩ := List.forall_mem_cons.1 h.inside
  obtain ⟨hbefore, hordered⟩ := List.pairwise_cons.1 h.ordered
  refine ⟨h.placed, h.forward, List.forall_mem_cons.2 ⟨hlaid hn, hlaid'⟩,
    List.forall_mem_cons.2 ⟨?_, hinside⟩, List.pairwise_cons.2 ⟨fun c hc => ?_, hordered⟩⟩
  · rw [Node.Within, hspan]
    exact hwithin
  · rw [Node.Before, hspan]
    exact hbefore c hc

/-- The nodes of a construct that was read on are in order. -/
theorem Opened.grown (h : Opened cs start first s)
    (hgrown : Grown cs { s with nodes := first } s' new) :
    (∀ c ∈ s'.nodes.reverse, c.LaidOut cs) ∧
      (∀ c ∈ s'.nodes.reverse, c.Within start.offset s'.offset) ∧
      s'.nodes.reverse.Pairwise Node.Before := by
  have hnodes : s'.nodes = new ++ first := hgrown.nodes
  have hforward : s.offset ≤ s'.offset := hgrown.forward
  have hinside : ∀ n ∈ new, n.Within s.offset s'.offset := hgrown.inside
  rw [hnodes, List.pairwise_reverse]
  simp only [List.mem_reverse, List.forall_mem_append]
  -- the new nodes stand in what was read, and the first ones before it
  refine ⟨⟨hgrown.laid, h.laid⟩, ⟨?_, ?_⟩, List.pairwise_append.2 ⟨hgrown.ordered, h.ordered, ?_⟩⟩
  · exact fun n hn => (hinside n hn).mono h.forward (Nat.le_refl _)
  · exact fun n hn => (h.inside n hn).mono (Nat.le_refl _) hforward
  · exact fun later hlater earlier hearlier =>
      Nat.le_trans (h.inside earlier hearlier).2.2 (hinside later hlater).1

/-- A construct of a plain kind is laid out. -/
theorem Opened.laidOut_plain (h : Opened cs start first s) {kind : Kind}
    (hgrown : Grown cs { s with nodes := first } s' new) (hkind : kind.isPlain = true) :
    (Node.mk ⟨0, kind, .plain, ⟨start, s'.offset⟩, ""⟩ s'.nodes.reverse).LaidOut cs := by
  obtain ⟨hlaid, hinside, hordered⟩ := h.grown hgrown
  exact .mk (.of_plain hkind h.placed hinside hordered) hlaid

/-- A construct of a tight kind is laid out if it starts before the text that was ahead and goes
beyond it. -/
theorem Opened.laidOut_tight (h : Opened cs start first s) {kind : Kind}
    (hgrown : Grown cs { s with nodes := first } s' new) (hkind : kind.isTight = true)
    (hstart : start.offset < s.offset) (hstop : s.offset < s'.offset) :
    (Node.mk ⟨0, kind, .plain, ⟨start, s'.offset⟩, ""⟩ s'.nodes.reverse).LaidOut cs := by
  obtain ⟨hlaid, hinside, hordered⟩ := h.grown hgrown
  refine .mk ⟨h.placed, hinside, hordered, fun _ c hc => ?_, ?_, ?_, ?_, ?_⟩ hlaid
  · -- nodes from before end too early, and later ones start too late
    have hc' : c ∈ new ++ first := by
      rw [List.mem_reverse, hgrown.nodes] at hc
      exact hc
    rcases List.mem_append.1 hc' with hnew | hfirst
    · exact .inl (Nat.lt_of_lt_of_le hstart (hgrown.inside c hnew).1)
    · exact .inr (Nat.lt_of_le_of_lt (h.inside c hfirst).2.2 hstop)
  all_goals
    intro hk
    rw [show kind = _ from hk] at hkind
    cases hkind

/-- A declarator is laid out if its first node is what it declares. -/
theorem Opened.laidOut_declarator {bound : Node} (h : Opened cs start [bound] s)
    (hgrown : Grown cs { s with nodes := [bound] } s' new) (hrole : bound.head.role = .name) :
    (Node.mk ⟨0, .declarator, .plain, ⟨start, s'.offset⟩, ""⟩ s'.nodes.reverse).LaidOut cs := by
  obtain ⟨hlaid, hinside, hordered⟩ := h.grown hgrown
  refine .mk ⟨h.placed, hinside, hordered, by simp [Kind.isTight], fun _ => ?_, by simp, by simp,
    by simp⟩ hlaid
  refine ⟨bound, new.reverse, ?_, hrole⟩
  rw [hgrown.nodes, List.reverse_append, List.reverse_singleton, List.singleton_append]

/-- A function is laid out if a token comes before its nodes. -/
theorem Grown.laidOut_tight {t : ReaderState} {kind : Kind} (h : s.cursor.At cs)
    (htoken : Grown cs { s with nodes := [] } t []) (hlt : s.offset < t.offset)
    (hgrown : Grown cs t s' new) (hkind : kind.isTight = true) :
    (Node.mk ⟨0, kind, .plain, ⟨s.cursor.position, s'.offset⟩, ""⟩
      s'.nodes.reverse).LaidOut cs := by
  obtain ⟨hlaid, hinside, hordered⟩ := (Opened.nil h).grown (htoken.trans hgrown)
  refine .mk ⟨h.inText, hinside, hordered, fun _ c hc => ?_, ?_, ?_, ?_, ?_⟩ hlaid
  · -- all nodes stand behind the token, so none of them starts with the construct
    rw [List.mem_reverse, hgrown.nodes, htoken.nodes, List.nil_append, List.append_nil] at hc
    exact .inl (Nat.lt_of_lt_of_le hlt (hgrown.inside c hc).1)
  all_goals
    intro hk
    rw [show kind = _ from hk] at hkind
    cases hkind

/-- A construct of parentheses is laid out if something solid was read in them. -/
theorem Opened.laidOut_parenthesized (h : Opened cs start first s)
    (hgrown : Grown cs { s with nodes := first } s' new) (hsolid : ∃ c ∈ new, c.isSolid = true) :
    (Node.mk ⟨0, .parenthesized, .plain, ⟨start, s'.offset⟩, ""⟩ s'.nodes.reverse).LaidOut cs := by
  obtain ⟨c, hc, hsolid⟩ := hsolid
  have hmem : c ∈ s'.nodes.reverse := by
    rw [List.mem_reverse, hgrown.nodes]
    exact List.mem_append_left _ hc
  have hlist : Kind.parameters.isPlain = true := rfl
  exact (h.laidOut_plain hgrown hlist).parenthesize ⟨c, hmem, hsolid⟩

/-- A construct that was read on and laid out is given to what surrounds it. -/
theorem Grown.gives {kind : Kind} (hgrown : Grown cs { s with nodes := first } s' new)
    (hlt : start.offset < s'.offset) (hsolid : kind.isSolid = true)
    (hlaid : (Node.mk ⟨0, kind, .plain, ⟨start, s'.offset⟩, ""⟩ s'.nodes.reverse).LaidOut cs) :
    Gives cs start.offset s (.mk ⟨0, kind, .plain, ⟨start, s'.offset⟩, ""⟩ s'.nodes.reverse)
      { s' with nodes := s.nodes } :=
  ⟨⟨hgrown.stands, hlaid, hsolid, Nat.zero_le _, hlt, Nat.le_refl _⟩, Nat.le_refl _, rfl,
    hgrown.forward⟩

end Enclosed

end LoaderLint.Script
