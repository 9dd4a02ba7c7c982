import LoaderLint.Proofs.SyntaxTree
import LoaderLint.Loader.Dependencies
import Mathlib.Logic.Relation

/-!
# Forms of syntax trees

Two trees have the same form if one can be turned into the other by putting items of argument lists
and arrays into parentheses, by putting comments into lists and parentheses, and by the opposite of
both. Where the nodes stand and which numbers they have does not count either.

The module introduces:

* `Kind.holdsItems`, `Kind.holdsComments` — the nodes whose items may be in parentheses, and those
  that may hold comments;
* `Node.Edit` — one such change;
* `Form`, `Node.form` — what is left of a tree if such changes do not count;
* `Symbol`, `Node.symbols` — the items and marks of a list by their forms.

An edit does not change the symbols of a node (`Node.Edit.symbols_eq`). All that the linter asks a
list for depends on its symbols, so it depends on the form of the list.
-/

namespace LoaderLint.Script

/-- The lists whose items may be put into parentheses. -/
def Kind.holdsItems : Kind → Bool
  | .arguments | .array => true
  | _ => false

/-- The nodes that comments may be put into: lists and parentheses. -/
def Kind.holdsComments : Kind → Bool
  | .arguments | .array | .parameters | .parenthesized => true
  | _ => false

namespace Node

/-- A change of a tree that makes no difference to the linter. -/
inductive Edit : Node → Node → Prop
  /-- A node has another number or stands elsewhere. -/
  | move {head head' : Head} {children : List Node} :
      head'.kind = head.kind → head'.role = head.role → head'.text = head.text →
      Edit (.mk head children) (.mk head' children)
  /-- A comment is put into a list or into parentheses. -/
  | comment {head : Head} {before behind : List Node} {c : Node} :
      head.kind.holdsComments = true → c.kind = .comment →
      Edit (.mk head (before ++ behind)) (.mk head (before ++ c :: behind))
  /-- An item of a list is put into parentheses, in which there are only punctuation and comments
  besides it. -/
  | wrap {head parens : Head} {before behind front back : List Node} {n : Node} :
      head.kind.holdsItems = true → parens.kind = .parenthesized → n.isSolid = true →
      (∀ c ∈ front, c.isSolid = false) → (∀ c ∈ back, c.isSolid = false) →
      Edit (.mk head (before ++ n :: behind))
        (.mk head (before ++ .mk parens (front ++ n :: back) :: behind))
  /-- A child is changed. -/
  | inside {head : Head} {before behind : List Node} {n m : Node} :
      Edit n m → Edit (.mk head (before ++ n :: behind)) (.mk head (before ++ m :: behind))

end Node

/-- What is left of a tree if edits do not count. -/
def Form : Type := Quot Node.Edit

namespace Node

/-- The form of a tree. -/
def form (n : Node) : Form := Quot.mk Edit n

/-- An edit does not change the form. -/
theorem Edit.form_eq {n m : Node} (h : Edit n m) : n.form = m.form := Quot.sound h

/-- Trees have the same form exactly if edits and their opposites lead from one to the other. -/
theorem form_eq_iff {n m : Node} : n.form = m.form ↔ Relation.EqvGen Edit n m :=
  ⟨Quot.eqvGen_exact, Quot.eqvGen_sound⟩

/-- What no edit changes is the same for trees of the same form. -/
theorem congr_form {α : Type} {f : Node → α} (h : ∀ n m, Edit n m → f n = f m) {n m : Node}
    (heq : n.form = m.form) : f n = f m :=
  congrArg (Quot.lift f h) heq

/-- Of two nodes that may be there and have the same form, both are there or neither. -/
theorem cases_of_map_form {found found' : Option Node} (h : found.map form = found'.map form) :
    (found = none ∧ found' = none) ∨
      ∃ n m, found = some n ∧ found' = some m ∧ n.form = m.form := by
  cases found with
  | none => exact .inl ⟨rfl, Option.map_eq_none_iff.1 h.symm⟩
  | some n =>
    obtain ⟨m, hm, hform⟩ := Option.map_eq_some_iff.1 h.symm
    exact .inr ⟨n, m, rfl, hm, hform.symm⟩

/-! ## Heads -/

/-- An edit does not change the kind of a node. -/
theorem Edit.kind_eq {n m : Node} (h : Edit n m) : n.kind = m.kind := by
  cases h with
  | move hkind _ _ => exact hkind.symm
  | comment | wrap | inside => rfl

/-- An edit does not change the role of a node. -/
theorem Edit.role_eq {n m : Node} (h : Edit n m) : n.head.role = m.head.role := by
  cases h with
  | move _ hrole _ => exact hrole.symm
  | comment | wrap | inside => rfl

/-- An edit does not change the spelling of a node. -/
theorem Edit.text_eq {n m : Node} (h : Edit n m) : n.text = m.text := by
  cases h with
  | move _ _ htext => exact htext.symm
  | comment | wrap | inside => rfl

section

variable {n m : Node}

/-- Trees of the same form have the same kind. -/
theorem kind_eq_of_form (h : n.form = m.form) : n.kind = m.kind :=
  congr_form (fun _ _ => Edit.kind_eq) h

/-- Trees of the same form have the same spelling. -/
theorem text_eq_of_form (h : n.form = m.form) : n.text = m.text :=
  congr_form (fun _ _ => Edit.text_eq) h

/-- Trees of the same form are the same name, if they are names. -/
theorem identifierName_eq_of_form (h : n.form = m.form) : n.identifierName = m.identifierName := by
  rw [identifierName, identifierName, kind_eq_of_form h, text_eq_of_form h]

end

/-! ## Parentheses -/

/-- What is in parentheses is the first solid node, without its own parentheses. -/
theorem firstUnparenthesized_eq_map_find? (ts : List Node) :
    firstUnparenthesized ts = (ts.find? isSolid).map unparenthesized := by
  induction ts with
  | nil => rw [firstUnparenthesized, List.find?_nil, Option.map_none]
  | cons n rest ih =>
    rw [firstUnparenthesized, ih]
    by_cases hn : n.kind = .punctuation ∨ n.kind = .comment
    · have hsolid : n.isSolid = false := by
        rcases hn with hn | hn <;> simp [isSolid, Kind.isSolid, hn]
      rw [if_pos hn, List.find?_cons_of_neg (by simp [hsolid])]
    · have hsolid : n.isSolid = true := by
        rw [not_or] at hn
        simp [isSolid, Kind.isSolid, hn]
      rw [if_neg hn, List.find?_cons_of_pos hsolid, Option.map_some]

/-- A node that is no pair of parentheses is left as it is. -/
theorem unparenthesized_of_kind_ne {n : Node} (h : n.kind ≠ .parenthesized) :
    n.unparenthesized = n := by
  obtain ⟨head, children⟩ := n
  have hhead : head.kind ≠ .parenthesized := h
  rw [unparenthesized, if_neg hhead]

/-- A pair of parentheses leads to the first solid node in it. -/
theorem unparenthesized_of_kind_eq {n : Node} (h : n.kind = .parenthesized) :
    n.unparenthesized = ((n.children.find? isSolid).map unparenthesized).getD n := by
  obtain ⟨head, children⟩ := n
  have hhead : head.kind = .parenthesized := h
  rw [unparenthesized, if_pos hhead, firstUnparenthesized_eq_map_find?]
  rfl

/-- Parentheses around a node do not count. -/
theorem unparenthesized_wrap {parens : Head} {front back : List Node} {n : Node}
    (hparens : parens.kind = .parenthesized) (hn : n.isSolid = true)
    (hfront : ∀ c ∈ front, c.isSolid = false) :
    (mk parens (front ++ n :: back)).unparenthesized = n.unparenthesized := by
  have hfind : (front ++ n :: back).find? isSolid = some n := by
    rw [List.find?_append, List.find?_eq_none.2 fun c hc => by simp [hfront c hc],
      List.find?_cons_of_pos hn, Option.none_or]
  rw [unparenthesized, if_pos hparens, firstUnparenthesized_eq_map_find?, hfind, Option.map_some,
    Option.getD_some]

mutual

/-- Once the parentheses are off, there are none to take off. -/
theorem unparenthesized_unparenthesized :
    ∀ n : Node, n.unparenthesized.unparenthesized = n.unparenthesized
  | mk head children => by
    by_cases hkind : head.kind = .parenthesized
    · cases hfirst : firstUnparenthesized children with
      | none =>
        have hself : (mk head children).unparenthesized = mk head children := by
          rw [unparenthesized, if_pos hkind, hfirst, Option.getD_none]
        rw [hself, hself]
      | some inner =>
        rw [unparenthesized, if_pos hkind, hfirst, Option.getD_some]
        exact unparenthesized_firstUnparenthesized hfirst
    · have hself : (mk head children).unparenthesized = mk head children := by
        rw [unparenthesized, if_neg hkind]
      rw [hself, hself]

/-- Once the parentheses of the first solid node are off, there are none to take off. -/
theorem unparenthesized_firstUnparenthesized :
    ∀ {ts : List Node} {inner : Node}, firstUnparenthesized ts = some inner →
      inner.unparenthesized = inner
  | [], inner, h => by
    rw [firstUnparenthesized] at h
    cases h
  | n :: rest, inner, h => by
    rw [firstUnparenthesized] at h
    split at h
    · exact unparenthesized_firstUnparenthesized h
    · cases h
      exact unparenthesized_unparenthesized n

end

end Node

/-! ## Symbols -/

/-- A child of a list: a mark, or an item by the form of what is in its parentheses. -/
inductive Symbol where
  /-- A mark. -/
  | mark (text : String)
  /-- An item. -/
  | item (form : Form)

namespace Symbol

/-- The form of an item. -/
def form? : Symbol → Option Form
  | mark _ => none
  | item form => some form

/-- The slots of an array by their forms, where `current` is the form of the element since the last
comma. -/
def slots (current : Option Form) : List Symbol → List (Option Form)
  | [] => []
  | mark text :: rest =>
    if text = "," then current :: slots none rest
    else if text = "]" then (current.map some).toList ++ slots none rest
    else slots current rest
  | item form :: rest => slots (some form) rest

end Symbol

namespace Node

/-- The symbol of a child. -/
def symbol (n : Node) : Symbol :=
  if n.kind = .punctuation then .mark n.text else .item n.unparenthesized.form

/-- The symbols of the children of a list, without comments. -/
def symbols (ts : List Node) : List Symbol := (ts.filter (!·.isComment)).map symbol

/-- The symbols of nodes come one behind the other. -/
theorem symbols_append (ts us : List Node) : symbols (ts ++ us) = symbols ts ++ symbols us := by
  rw [symbols, List.filter_append, List.map_append]
  rfl

/-- A comment has no symbol. -/
theorem symbols_cons_of_comment {n : Node} (hn : n.isComment = true) (ts : List Node) :
    symbols (n :: ts) = symbols ts := by
  rw [symbols, List.filter_cons_of_neg (by simp [hn])]
  rfl

/-- Any other node has one symbol. -/
theorem symbols_cons_of_not_comment {n : Node} (hn : n.isComment = false) (ts : List Node) :
    symbols (n :: ts) = n.symbol :: symbols ts := by
  rw [symbols, List.filter_cons_of_pos (by simp [hn]), List.map_cons]
  rfl

/-- The first item is the first node that is neither punctuation nor a comment. -/
theorem map_form_find?_isSolid (ts : List Node) :
    (ts.find? isSolid).map (·.unparenthesized.form) = (symbols ts).findSome? Symbol.form? := by
  induction ts with
  | nil => rfl
  | cons n rest ih =>
    cases hcomment : n.isComment with
    | true =>
      have hsolid : n.isSolid = false := by
        have hkind : n.kind = .comment := of_decide_eq_true hcomment
        simp [isSolid, Kind.isSolid, hkind]
      rw [symbols_cons_of_comment hcomment, List.find?_cons_of_neg (by simp [hsolid]), ih]
    | false =>
      have hkind : n.kind ≠ .comment := of_decide_eq_false hcomment
      rw [symbols_cons_of_not_comment hcomment]
      -- a mark is passed over on both sides, and anything else is the item that is looked for
      by_cases hmark : n.kind = .punctuation
      · have hsolid : n.isSolid = false := by simp [isSolid, Kind.isSolid, hmark]
        rw [List.find?_cons_of_neg (by simp [hsolid]), ih, symbol, if_pos hmark]
        rfl
      · have hsolid : n.isSolid = true := by simp [isSolid, Kind.isSolid, hmark, hkind]
        rw [List.find?_cons_of_pos hsolid, symbol, if_neg hmark]
        rfl

/-- What is in the parentheses of a node is its first item. -/
theorem form_unparenthesized (n : Node) :
    n.unparenthesized.form =
      if n.kind = .parenthesized then ((symbols n.children).findSome? Symbol.form?).getD n.form
      else n.form := by
  by_cases hkind : n.kind = .parenthesized
  · rw [if_pos hkind, unparenthesized_of_kind_eq hkind, ← map_form_find?_isSolid]
    cases n.children.find? isSolid <;> rfl
  · rw [if_neg hkind, unparenthesized_of_kind_ne hkind]

/-- An edit that keeps the symbols of the children keeps the symbol of the node. -/
theorem Edit.symbol_eq {n m : Node} (h : Edit n m)
    (hsymbols : symbols n.children = symbols m.children) : n.symbol = m.symbol := by
  rw [symbol, symbol, form_unparenthesized, form_unparenthesized, h.kind_eq, h.text_eq, hsymbols,
    h.form_eq]

/-- An edit does not change the symbols of the children. -/
theorem Edit.symbols_eq {n m : Node} (h : Edit n m) : symbols n.children = symbols m.children := by
  induction h with
  | move => rfl
  | @comment head before behind c _ hc =>
    have hcomment : c.isComment = true := decide_eq_true hc
    change symbols (before ++ behind) = symbols (before ++ c :: behind)
    rw [symbols_append, symbols_append, symbols_cons_of_comment hcomment]
  | @wrap head parens before behind front back n _ hkind hn hfront _ =>
    have hwrapper : (mk parens (front ++ n :: back)).isComment = false :=
      decide_eq_false (by rw [show (mk parens _).kind = _ from hkind]; decide)
    have hmark : (mk parens (front ++ n :: back)).kind ≠ .punctuation := by
      rw [show (mk parens _).kind = _ from hkind]
      decide
    -- the parentheses are an item where the node was one, with the same node inside
    simp only [isSolid, Kind.isSolid, Bool.and_eq_true, decide_eq_true_eq] at hn
    have hitem : n.isComment = false := decide_eq_false hn.2
    change symbols (before ++ n :: behind) =
      symbols (before ++ mk parens (front ++ n :: back) :: behind)
    rw [symbols_append, symbols_append, symbols_cons_of_not_comment hitem,
      symbols_cons_of_not_comment hwrapper, symbol, symbol, if_neg hn.1, if_neg hmark,
      unparenthesized_wrap hkind (by simp [isSolid, Kind.isSolid, hn]) hfront]
  | @inside head before behind n m h ih =>
    have hcomment : m.isComment = n.isComment := by rw [isComment, isComment, h.kind_eq]
    change symbols (before ++ n :: behind) = symbols (before ++ m :: behind)
    rw [symbols_append, symbols_append]
    cases hn : n.isComment with
    | true => rw [symbols_cons_of_comment hn, symbols_cons_of_comment (hcomment.trans hn)]
    | false =>
      rw [symbols_cons_of_not_comment hn, symbols_cons_of_not_comment (hcomment.trans hn),
        h.symbol_eq ih]

section

variable {n m : Node}

/-- Trees of the same form have the same symbols. -/
theorem symbols_eq_of_form (h : n.form = m.form) : symbols n.children = symbols m.children :=
  congr_form (f := fun n => symbols n.children) (fun _ _ h => h.symbols_eq) h

/-! ## Lists -/

/-- The items of a list, without their parentheses, are those symbols that are no marks. -/
theorem map_form_items (n : Node) :
    (n.namedChildren.filter (!·.isComment)).map (·.unparenthesized.form) =
      (symbols n.children).filterMap Symbol.form? := by
  rw [namedChildren, List.filter_filter, symbols, List.filterMap_map, ← List.filterMap_eq_map,
    List.filterMap_filter, List.filterMap_filter]
  refine List.filterMap_congr fun c _ => ?_
  by_cases hmark : c.kind = .punctuation
  · simp [hmark, symbol, Symbol.form?]
  · simp [hmark, symbol, Symbol.form?]

/-- Lists of the same form have items of the same forms. -/
theorem items_eq_of_form (h : n.form = m.form) :
    (n.namedChildren.filter (!·.isComment)).map (·.unparenthesized.form) =
      (m.namedChildren.filter (!·.isComment)).map (·.unparenthesized.form) := by
  rw [map_form_items, map_form_items, symbols_eq_of_form h]

/-- The forms of the slots of an array depend on its symbols. -/
theorem map_form_slots (current : Option Node) (ts : List Node) :
    (slots current ts).map (Option.map form) = Symbol.slots (current.map form) (symbols ts) := by
  induction ts generalizing current with
  | nil => rfl
  | cons n rest ih =>
    rw [slots.eq_def]
    simp only
    by_cases hcomment : n.kind = .comment
    · rw [if_pos hcomment, symbols_cons_of_comment (decide_eq_true hcomment), ih]
    · rw [if_neg hcomment, symbols_cons_of_not_comment (decide_eq_false hcomment), symbol]
      by_cases hmark : n.kind = .punctuation
      · -- a comma closes a slot in any case, a bracket only one with an element in it
        rw [if_pos hmark, if_pos hmark, Symbol.slots]
        by_cases hcomma : n.text = ","
        · rw [if_pos hcomma, if_pos hcomma, List.map_cons, ih]
          rfl
        · rw [if_neg hcomma, if_neg hcomma]
          by_cases hclose : n.text = "]"
          · rw [if_pos hclose, if_pos hclose]
            cases current with
            | none => exact ih none
            | some element =>
              rw [List.map_cons, ih]
              rfl
          · rw [if_neg hclose, if_neg hclose, ih]
      · rw [if_neg hmark, if_neg hmark, ih]
        rfl

/-- Arrays of the same form have slots of the same forms. -/
theorem elements_eq_of_form (h : n.form = m.form) :
    n.elements.map (Option.map form) = m.elements.map (Option.map form) := by
  rw [elements, elements, map_form_slots, map_form_slots, symbols_eq_of_form h]

/-! ## Fields -/

/-- Where no comment can be put in, an edit keeps the form of each field. -/
theorem Edit.map_form_field (h : Edit n m) (hkind : n.kind.holdsComments = false) (role : Role) :
    (n.field role).map form = (m.field role).map form := by
  cases h with
  | move => rfl
  | comment hholds _ =>
    rw [kind, head, hholds] at hkind
    cases hkind
  | @wrap head _ _ _ _ _ _ hholds _ _ _ _ =>
    -- what holds items holds comments as well
    have hcomments : head.kind.holdsComments = true := by
      cases hhead : head.kind <;> simp_all [Kind.holdsItems, Kind.holdsComments]
    rw [kind, Node.head, hcomments] at hkind
    cases hkind
  | @inside head before behind n m h =>
    change ((before ++ n :: behind).find? _).map form = ((before ++ m :: behind).find? _).map form
    rw [List.find?_append, List.find?_append, List.find?_cons, List.find?_cons, h.role_eq]
    -- the field is found before the child, at it or behind it
    cases before.find? (·.head.role = role) with
    | some c => rfl
    | none =>
      by_cases hrole : m.head.role = role
      · simp [hrole, h.form_eq]
      · simp [hrole]

/-- Where no comment can be put in, trees of the same form have a field both or neither, and it has
the same form. -/
theorem field_of_form (h : n.form = m.form) (hkind : n.kind.holdsComments = false) (role : Role) :
    (n.field role = none ∧ m.field role = none) ∨
      ∃ c c', n.field role = some c ∧ m.field role = some c' ∧ c.form = c'.form := by
  -- only at nodes that hold no comments is the field kept, so what is lifted is nothing elsewhere
  have hfield := congr_form
    (f := fun n => if n.kind.holdsComments then none else (n.field role).map form)
    (fun n m h => ?_) h
  · rw [if_neg (by simp [hkind]), if_neg (by simp [← kind_eq_of_form h, hkind])] at hfield
    exact cases_of_map_form hfield
  · rw [← h.kind_eq]
    cases hholds : n.kind.holdsComments with
    | true => rfl
    | false => exact h.map_form_field hholds role

/-- The name that a call calls depends on the form of the call. -/
theorem calleeName_eq_of_form (h : n.form = m.form) (hcall : n.kind = .call) :
    n.calleeName = m.calleeName := by
  rw [calleeName, calleeName, callee, callee]
  rcases field_of_form h (by rw [hcall]; rfl) .callee with ⟨hn, hm⟩ | ⟨c, c', hn, hm, hform⟩
  · rw [hn, hm]
  · rw [hn, hm, Option.bind_some, Option.bind_some, identifierName_eq_of_form hform]

/-- The forms of the arguments of a call depend on the form of the call. -/
theorem arguments_eq_of_form (h : n.form = m.form) (hcall : n.kind = .call) :
    n.arguments.map form = m.arguments.map form := by
  rw [arguments, arguments]
  rcases field_of_form h (by rw [hcall]; rfl) .arguments with
    ⟨hn, hm⟩ | ⟨list, list', hn, hm, hform⟩
  · rw [hn, hm]
  · rw [hn, hm]
    simp only [← kind_eq_of_form hform]
    by_cases hkind : list.kind = .arguments
    · rw [if_pos hkind, if_pos hkind, List.map_map, List.map_map]
      exact items_eq_of_form hform
    · rw [if_neg hkind, if_neg hkind]

/-- How many parameters are listed depends on the form of the function. -/
theorem length_listedParameters_eq_of_form (h : n.form = m.form)
    (hkind : n.kind.holdsComments = false) :
    n.listedParameters.length = m.listedParameters.length := by
  rw [listedParameters, listedParameters]
  rcases field_of_form h hkind .parameters with ⟨hn, hm⟩ | ⟨list, list', hn, hm, hform⟩
  · rw [hn, hm]
  · -- the parameters are the items of their list
    have hlength := congrArg List.length (items_eq_of_form hform)
    rw [List.length_map, List.length_map] at hlength
    rw [hn, hm]
    exact hlength

/-- How many parameters a function has depends on its form. -/
theorem length_parameters_eq_of_form (h : n.form = m.form) :
    n.parameters.length = m.parameters.length := by
  rw [parameters, parameters, ← kind_eq_of_form h]
  cases hkind : n.kind
  case arrow =>
    -- the only parameter of an arrow may stand without a list
    have hholds : n.kind.holdsComments = false := by rw [hkind]; rfl
    simp only
    rcases field_of_form h hholds .parameter with ⟨hn, hm⟩ | ⟨single, single', hn, hm, -⟩
    · rw [hn, hm]
      exact length_listedParameters_eq_of_form h hholds
    · rw [hn, hm]
      rfl
  case function => exact length_listedParameters_eq_of_form h (by rw [hkind]; rfl)
  case functionDeclaration => exact length_listedParameters_eq_of_form h (by rw [hkind]; rfl)
  all_goals rfl

/-! ## Strings and dependencies -/

/-- An edit does not change the value of a string. -/
theorem Edit.stringValue?_eq (h : Edit n m) : n.stringValue? = m.stringValue? := by
  rw [stringValue?, stringValue?, ← h.kind_eq]
  by_cases hkind : n.kind = .string
  · rw [if_pos hkind, if_pos hkind]
    cases h with
    | move => rfl
    -- a string is no list, so nothing is put into it
    | @comment head _ _ _ hholds _ =>
      rw [show head.kind = _ from hkind] at hholds
      cases hholds
    | @wrap head _ _ _ _ _ _ hholds _ _ _ _ =>
      rw [show head.kind = _ from hkind] at hholds
      cases hholds
    | @inside head before behind n m h =>
      -- the value of a part depends on its kind and spelling only
      have hpart : n.partValue = m.partValue := by
        rw [partValue, partValue, h.kind_eq, h.text_eq]
      change some (String.ofList ((before ++ n :: behind).flatMap partValue)) =
        some (String.ofList ((before ++ m :: behind).flatMap partValue))
      rw [List.flatMap_append, List.flatMap_append, List.flatMap_cons, List.flatMap_cons, hpart]
  · rw [if_neg hkind, if_neg hkind]

/-- Strings of the same form have the same value. -/
theorem stringValue?_eq_of_form (h : n.form = m.form) : n.stringValue? = m.stringValue? :=
  congr_form (fun _ _ => Edit.stringValue?_eq) h

end

end Node

end LoaderLint.Script

namespace LoaderLint

open Script (Node)

/-- Lists that agree in a key agree in all that depends on the key. -/
theorem map_eq_of_map_key {α β γ : Type} {key : α → β} {f : α → γ}
    (hf : ∀ x y, key x = key y → f x = f y) {xs ys : List α} (h : xs.map key = ys.map key) :
    xs.map f = ys.map f := by
  induction xs generalizing ys with
  | nil =>
    rw [List.map_nil, eq_comm, List.map_eq_nil_iff] at h
    rw [h]
  | cons x xs ih =>
    obtain ⟨y, ys', rfl, hy, hys⟩ := List.map_eq_cons_iff.1 h.symm
    rw [List.map_cons, List.map_cons, hf x y hy.symm, ih hys.symm]

namespace Dependencies

/-- Slots of the same form are both spread or neither. -/
theorem isSpread_eq_of_form (slot slot' : Option Node)
    (h : slot.map Node.form = slot'.map Node.form) : isSpread slot = isSpread slot' := by
  rcases Node.cases_of_map_form h with ⟨rfl, rfl⟩ | ⟨n, m, rfl, rfl, hform⟩
  · rfl
  · rw [isSpread, isSpread, Node.kind_eq_of_form hform]

/-- Slots of the same form name the same dependency. -/
theorem stringValue?_eq_of_form (slot slot' : Option Node)
    (h : slot.map Node.form = slot'.map Node.form) :
    slot.bind Node.stringValue? = slot'.bind Node.stringValue? := by
  rcases Node.cases_of_map_form h with ⟨rfl, rfl⟩ | ⟨n, m, rfl, rfl, hform⟩
  · rfl
  · rw [Option.bind_some, Option.bind_some, Node.stringValue?_eq_of_form hform]

/-- The dependencies that an argument names depend on its form. -/
theorem of_eq_of_form {n m : Node} (h : n.form = m.form) : of n = of m := by
  have helements := Node.elements_eq_of_form h
  -- whether an element is spread and which name it gives depend on its form
  have hspread : n.elements.any isSpread = m.elements.any isSpread := by
    have hspreads := map_eq_of_map_key isSpread_eq_of_form helements
    simpa [List.any_map, Function.comp_def] using congrArg (List.any · id) hspreads
  rw [of, of, ← Node.kind_eq_of_form h, ← hspread, ← Node.stringValue?_eq_of_form h,
    map_eq_of_map_key stringValue?_eq_of_form helements]

end Dependencies

end LoaderLint
