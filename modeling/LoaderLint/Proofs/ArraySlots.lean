import LoaderLint.Loader.Dependencies
import LoaderLint.Proofs.NodeForms

/-!
# Slots of array literals

An array literal is written as a list of slots: an element, in parentheses or not, or nothing for a
hole. A comma follows each slot. Behind an element at the end it may be left out; behind a hole it
may not, since there is nothing else that tells of the hole. Comments may stand anywhere.

The module introduces:

* `Node.IsBare`, `Node.Wraps` — expressions without parentheses, and the same in parentheses;
* `Node.Writes`, `Node.HasSlots` — the nodes that write a list of slots, and the arrays that have
  it;
* `Node.listing` — the elements and commas of an array;
* `Dependencies.NamedAs` — the dependency that a slot names.

The slots are read back as they are written (`Node.HasSlots.elements_eq`), from the left to the
right with the element since the last comma kept for the next comma or for the closing bracket. The
main result is `Dependencies.of_hasSlots`.
-/

namespace LoaderLint

namespace Script.Node

/-! ## Writing slots -/

/-- The node is punctuation with the spelling. -/
def IsMark (text : String) (n : Node) : Prop := n.kind = .punctuation ∧ n.text = text

/-- The node is an expression without parentheses around it. -/
def IsBare (n : Node) : Prop := n.isSolid = true ∧ n.kind ≠ .parenthesized

/-- The node is `inner` in any number of parentheses, in which there are only punctuation and
comments besides it. -/
inductive Wraps (inner : Node) : Node → Prop
  | bare : Wraps inner inner
  | parens {head : Head} {front back : List Node} {outer : Node} :
      Wraps inner outer → head.kind = .parenthesized →
      (∀ c ∈ front, c.isSolid = false) → (∀ c ∈ back, c.isSolid = false) →
      Wraps inner (.mk head (front ++ outer :: back))

/-- The nodes write the slots, one after the other. -/
inductive Writes : List (Option Node) → List Node → Prop
  /-- There are no slots. -/
  | nothing : Writes [] []
  /-- An element at the end without a comma. -/
  | last {element outer : Node} :
      element.IsBare → element.Wraps outer → Writes [some element] [outer]
  /-- An element with its comma. -/
  | element {element outer comma : Node} {slots : List (Option Node)} {rest : List Node} :
      element.IsBare → element.Wraps outer → comma.IsMark "," → Writes slots rest →
      Writes (some element :: slots) (outer :: comma :: rest)
  /-- A hole with its comma. -/
  | hole {comma : Node} {slots : List (Option Node)} {rest : List Node} :
      comma.IsMark "," → Writes slots rest → Writes (none :: slots) (comma :: rest)

/-- The node is an array literal with the slots: comments aside, its children are the nodes that
write the slots, in brackets. -/
def HasSlots (n : Node) (slots : List (Option Node)) : Prop :=
  n.kind = .array ∧ ∃ opening body closing, opening.IsMark "[" ∧ closing.IsMark "]" ∧
    Writes slots body ∧ n.children.filter (!·.isComment) = opening :: (body ++ [closing])

section

variable {inner outer n : Node}

/-- An expression in parentheses is an expression. -/
theorem Wraps.isSolid_eq (h : inner.Wraps outer) (hinner : inner.isSolid = true) :
    outer.isSolid = true := by
  cases h with
  | bare => exact hinner
  | parens _ hkind => simp [isSolid, kind, head, hkind, Kind.isSolid]

/-- Parentheses around an expression do not change what is left without any. -/
theorem Wraps.unparenthesized_of_isSolid (h : inner.Wraps outer) (hinner : inner.isSolid = true) :
    outer.unparenthesized = inner.unparenthesized := by
  induction h with
  | bare => rfl
  | parens hwraps hkind hfront _ ih =>
    rw [unparenthesized_wrap hkind (hwraps.isSolid_eq hinner) hfront, ih]

/-- Taking the parentheses off gives the expression back. -/
theorem Wraps.unparenthesized_eq (h : inner.Wraps outer) (hinner : inner.IsBare) :
    outer.unparenthesized = inner := by
  rw [h.unparenthesized_of_isSolid hinner.1, unparenthesized_of_kind_ne hinner.2]

end

/-! ## Reading slots -/

section

variable {current : Option Node} {n : Node} {rest : List Node}

/-- A comma ends a slot, which is a hole if nothing is kept. -/
theorem slots_cons_comma (hn : n.IsMark ",") :
    slots current (n :: rest) = current :: slots none rest := by
  simp [slots, hn.1, hn.2]

/-- The closing bracket ends a slot only if an element is kept. -/
theorem slots_cons_closing (hn : n.IsMark "]") :
    slots current (n :: rest) = current.toList.map some ++ slots none rest := by
  cases current <;> simp [slots, hn.1, hn.2]

/-- The opening bracket makes no difference to the slots. -/
theorem slots_cons_opening (hn : n.IsMark "[") :
    slots current (n :: rest) = slots current rest := by
  simp [slots, hn.1, hn.2]

/-- An element is kept for the next comma without its parentheses. -/
theorem slots_cons_of_isSolid (hn : n.isSolid = true) :
    slots current (n :: rest) = slots (some n.unparenthesized) rest := by
  simp only [isSolid, Kind.isSolid, Bool.and_eq_true, decide_eq_true_eq] at hn
  simp [slots, hn.1, hn.2]

/-- Comments make no difference to the slots. -/
theorem slots_filter_comments (current : Option Node) (ts : List Node) :
    slots current (ts.filter (!·.isComment)) = slots current ts := by
  induction ts generalizing current with
  | nil => rfl
  | cons n rest ih =>
    by_cases hn : n.kind = .comment
    · rw [List.filter_cons_of_neg (by simp [isComment, hn]), ih]
      simp [slots, hn]
    · -- with `n` in front of both lists, one step is the same for both
      rw [List.filter_cons_of_pos (by simp [isComment, hn])]
      simp only [slots, ih]

end

section

variable {n : Node} {slots : List (Option Node)} {body : List Node}

/-- Slots are read as they are written: at each comma and at the closing bracket, what is kept is
the element that was written since the last comma. -/
theorem Writes.slots_eq (h : Writes slots body) {closing : Node} (hclosing : closing.IsMark "]") :
    Node.slots none (body ++ [closing]) = slots := by
  induction h with
  | nothing => exact slots_cons_closing hclosing
  -- without a comma, the closing bracket ends the slot
  | last hbare hwraps =>
    rw [List.singleton_append, slots_cons_of_isSolid (hwraps.isSolid_eq hbare.1),
      hwraps.unparenthesized_eq hbare, slots_cons_closing hclosing]
    rfl
  | element hbare hwraps hcomma _ ih =>
    rw [List.cons_append, List.cons_append, slots_cons_of_isSolid (hwraps.isSolid_eq hbare.1),
      hwraps.unparenthesized_eq hbare, slots_cons_comma hcomma, ih]
  | hole hcomma _ ih => rw [List.cons_append, slots_cons_comma hcomma, ih]

/-- The slots of an array are read as they are written. -/
theorem HasSlots.elements_eq (h : n.HasSlots slots) : n.elements = slots := by
  obtain ⟨-, opening, body, closing, hopening, hclosing, hwrites, hchildren⟩ := h
  rw [elements, ← slots_filter_comments, hchildren, slots_cons_opening hopening,
    hwrites.slots_eq hclosing]

/-! ## Counting slots -/

/-- Whether the node is a comma. -/
def isComma (n : Node) : Bool := n.kind = .punctuation && n.text = ","

/-- The elements and commas among the children of an array. -/
def listing (n : Node) : List Node := n.children.filter fun m => m.isSolid || m.isComma

theorem IsMark.isSolid_eq {text : String} (h : n.IsMark text) : n.isSolid = false := by
  simp [isSolid, Kind.isSolid, h.1]

theorem IsMark.isComma_eq {text : String} (h : n.IsMark text) :
    n.isComma = decide (text = ",") := by
  simp [isComma, h.1, h.2]

/-- An expression is no comma. -/
theorem isComma_eq_false_of_isSolid (h : n.isSolid = true) : n.isComma = false := by
  simp only [isSolid, Kind.isSolid, Bool.and_eq_true, decide_eq_true_eq] at h
  simp [isComma, h.1]

/-- What writes slots is elements and commas. -/
theorem Writes.isSolid_or_isComma (h : Writes slots body) :
    ∀ m ∈ body, (m.isSolid || m.isComma) = true := by
  have hcomma {comma : Node} (hmark : comma.IsMark ",") :
      (comma.isSolid || comma.isComma) = true := by
    rw [hmark.isComma_eq, decide_eq_true rfl, Bool.or_true]
  have houter {element outer : Node} (hbare : element.IsBare) (hwraps : element.Wraps outer) :
      (outer.isSolid || outer.isComma) = true := by
    rw [hwraps.isSolid_eq hbare.1, Bool.true_or]
  induction h with
  | nothing => exact List.forall_mem_nil _
  | last hbare hwraps => exact List.forall_mem_singleton.2 (houter hbare hwraps)
  | element hbare hwraps hmark _ ih =>
    exact List.forall_mem_cons.2 ⟨houter hbare hwraps, List.forall_mem_cons.2 ⟨hcomma hmark, ih⟩⟩
  | hole hmark _ ih => exact List.forall_mem_cons.2 ⟨hcomma hmark, ih⟩

/-- Each slot has its comma, except for an element at the end that goes without. -/
theorem Writes.length_eq (h : Writes slots body) :
    slots.length =
      body.countP isComma + if body.getLast?.any isSolid = true then 1 else 0 := by
  have hlast {comma : Node} (hmark : comma.IsMark ",") (rest : List Node) :
      (comma :: rest).getLast?.any isSolid = rest.getLast?.any isSolid := by
    cases rest with
    | nil => simp [hmark.isSolid_eq]
    | cons m rest => rw [List.getLast?_cons_cons]
  induction h with
  | nothing => rfl
  | last hbare hwraps =>
    have hsolid := hwraps.isSolid_eq hbare.1
    simp [isComma_eq_false_of_isSolid hsolid, hsolid]
  | element hbare hwraps hmark _ ih =>
    have hsolid := hwraps.isSolid_eq hbare.1
    rw [List.getLast?_cons_cons, hlast hmark, List.length_cons, ih,
      List.countP_cons_of_neg (by simp [isComma_eq_false_of_isSolid hsolid]),
      List.countP_cons_of_pos (by simp [hmark.isComma_eq])]
    omega
  | hole hmark _ ih =>
    rw [hlast hmark, List.length_cons, ih, List.countP_cons_of_pos (by simp [hmark.isComma_eq])]
    omega

/-- An array has as many slots as commas, and one more if an element follows the last comma. -/
theorem HasSlots.length_eq (h : n.HasSlots slots) :
    slots.length =
      n.listing.countP isComma + if n.listing.getLast?.any isSolid = true then 1 else 0 := by
  obtain ⟨-, opening, body, closing, hopening, hclosing, hwrites, hchildren⟩ := h
  -- comments and brackets are all that the listing leaves out
  have hlisting : n.listing = body := by
    have hcomments : n.listing =
        (n.children.filter (!·.isComment)).filter fun m => m.isSolid || m.isComma := by
      rw [listing, List.filter_filter]
      refine List.filter_congr fun m _ => ?_
      by_cases hm : m.kind = .comment <;> simp [isSolid, Kind.isSolid, isComma, isComment, hm]
    have hbrackets {bracket : Node} {text : String} (hmark : bracket.IsMark text)
        (htext : text ≠ ",") : (bracket.isSolid || bracket.isComma) = false := by
      rw [hmark.isSolid_eq, hmark.isComma_eq, decide_eq_false htext, Bool.or_false]
    rw [hcomments, hchildren, List.filter_cons_of_neg (by simp [hbrackets hopening]),
      List.filter_append, List.filter_eq_self.2 hwrites.isSolid_or_isComma,
      List.filter_cons_of_neg (by simp [hbrackets hclosing]), List.filter_nil, List.append_nil]
  rw [hlisting, hwrites.length_eq]

end

end Script.Node

/-! ## Dependencies -/

namespace Dependencies

open Script (Node)

/-- The dependency that a slot names: a string names the text that it stands for, and a hole or any
other element names nothing. -/
inductive NamedAs : Option Node → Option String → Prop
  | hole : NamedAs none none
  | string {n : Node} {value : String} :
      n.kind = .string → n.stringValue? = some value → NamedAs (some n) (some value)
  | other {n : Node} : n.kind ≠ .string → NamedAs (some n) none

/-- A slot names the string that is read from it. -/
theorem namedAs_stringValue? (slot : Option Node) :
    NamedAs slot (slot.bind Node.stringValue?) := by
  cases slot with
  | none => exact .hole
  | some n =>
    rw [Option.bind_some]
    by_cases hkind : n.kind = .string
    · have hvalue : n.stringValue? = some (String.ofList (n.children.flatMap Node.partValue)) := by
        rw [Node.stringValue?, if_pos hkind]
      rw [hvalue]
      exact .string hkind hvalue
    · rw [Node.stringValue?, if_neg hkind]
      exact .other hkind

/-- A spread is found among the slots exactly if one of the elements is a spread. -/
theorem any_isSpread_iff {slots : List (Option Node)} :
    slots.any isSpread = true ↔ ∃ element, some element ∈ slots ∧ element.kind = .spread := by
  rw [List.any_eq_true]
  constructor
  · rintro ⟨slot, hslot, hspread⟩
    cases slot with
    | none => cases hspread
    | some element => exact ⟨element, hslot, of_decide_eq_true hspread⟩
  · rintro ⟨element, hslot, hkind⟩
    exact ⟨some element, hslot, decide_eq_true hkind⟩

section

variable {n : Node} {slots : List (Option Node)}

/-- The dependencies of an array in terms of its slots. -/
theorem of_eq_ite_of_hasSlots (h : n.HasSlots slots) :
    of n =
      if slots.any isSpread then .unknown else .known (slots.map (·.bind Node.stringValue?)) := by
  rw [of, h.1, h.elements_eq]

/-- However the slots of an array are written, exactly these slots are read, without the
parentheses around elements. There are as many as commas, and one more if an element follows the
last comma. The dependencies are unknown exactly if a spread is among the elements. Otherwise there
is one for each slot, with a name exactly if the element of the slot is a string. -/
theorem of_hasSlots (h : n.HasSlots slots) :
    n.elements = slots ∧
      n.elements.length = n.listing.countP Node.isComma +
        (if n.listing.getLast?.any Node.isSolid = true then 1 else 0) ∧
      (of n = .unknown ↔ ∃ element, some element ∈ slots ∧ element.kind = .spread) ∧
      ((¬∃ element, some element ∈ slots ∧ element.kind = .spread) →
        ∃ names, of n = .known names ∧ List.Forall₂ NamedAs slots names) := by
  rw [h.elements_eq, of_eq_ite_of_hasSlots h, ← any_isSpread_iff]
  refine ⟨rfl, h.length_eq, ?_, fun hnone => ?_⟩
  · by_cases hspread : slots.any isSpread = true
    · simp [hspread]
    · simp [hspread]
  · refine ⟨slots.map (·.bind Node.stringValue?), if_neg hnone, ?_⟩
    rw [List.forall₂_map_right_iff]
    exact List.forall₂_same.2 fun slot _ => namedAs_stringValue? slot

end

open Script.Node (unplaced mark note inParens)

/-- A hole with a comment before its comma, a string in two pairs of parentheses and a name with a
comma behind it: `[/**/, ((/**/'a')), b,]` has three slots, of which the second has a name. -/
theorem of_hasSlots_mixed :
    let a := unplaced .string .plain "" [unplaced .fragment .plain "a" []]
    let b := unplaced .identifier .plain "b" []
    let array := unplaced .array .plain ""
      [mark "[", note, mark ",", inParens (inParens a), mark ",", b, mark ",", mark "]"]
    array.HasSlots [none, some a, some b] ∧ array.elements = [none, some a, some b] ∧
      array.elements.length = 3 ∧ of array = .known [none, some "a", none] := by
  intro a b array
  have hwraps : a.Wraps (inParens (inParens a)) :=
    @Node.Wraps.parens a _ [mark "(", note] [mark ")"] _
      (@Node.Wraps.parens a _ [mark "(", note] [mark ")"] _ .bare rfl (by decide) (by decide)) rfl
      (by decide) (by decide)
  have hslots : array.HasSlots [none, some a, some b] :=
    ⟨rfl, mark "[", [mark ",", inParens (inParens a), mark ",", b, mark ","], mark "]", ⟨rfl, rfl⟩,
      ⟨rfl, rfl⟩, .hole ⟨rfl, rfl⟩ (.element ⟨rfl, by decide⟩ hwraps ⟨rfl, rfl⟩
        (.element ⟨rfl, by decide⟩ .bare ⟨rfl, rfl⟩ .nothing)), rfl⟩
  obtain ⟨helements, -, -, hknown⟩ := of_hasSlots hslots
  obtain ⟨names, hof, hnames⟩ := hknown (by simp [a, b, unplaced, Node.kind, Node.head])
  refine ⟨hslots, helements, by rw [helements]; rfl, ?_⟩
  -- what the slots name leaves one list of names
  rcases hnames with _ | ⟨hhole, _ | ⟨hstring, _ | ⟨hname, _ | _⟩⟩⟩
  cases hhole
  cases hstring with
  | other hkind => exact absurd rfl hkind
  | string _ hvalue =>
    cases hname with
    | string hkind => cases hkind
    | other =>
      rw [hof, ← Option.some.inj hvalue]
      rfl

end Dependencies

end LoaderLint
