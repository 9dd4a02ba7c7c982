import LoaderLint.Proofs.ProgramLayout
import LoaderLint.Rule

/-!
# Visitors of a syntax tree

A visitor walks over a tree and has a hook for calls, one for declarators and one for assignments.
A hook is given its node and the way down to the children of that node, so it decides itself
whether the walk goes on below it. A hook that a visitor does not override goes on.

The module introduces:

* `Node.Nested` — trees whose children stand inside their parents, one behind the other;
* `Node.at?`, `Node.located` — the node at an address, and all addresses of a tree;
* `Visitor`, `Visitor.visit` — visitors and their walk;
* `Visitor.Records` — visitors whose hooks take down their node and then go on.

Addresses make the order of a walk independent of any walk: a node comes before another one exactly
if its address comes first in the order of words. The main result is `Visitor.visit_of_records`. It
says which nodes such a visitor takes down, how often, and in which order. What rules ask for is an
instance of it (`Rule.visit_visitor`).
-/

namespace LoaderLint.Script

namespace Node

/-! ## Nested trees -/

/-- The node stands between two offsets and does not end before it starts. -/
def Inside (low high : ℕ) (n : Node) : Prop :=
  low ≤ n.span.start.offset ∧ n.span.start.offset ≤ n.span.stop ∧ n.span.stop ≤ high

/-- The children of each node stand inside it, one behind the other. -/
inductive Nested : Node → Prop
  | mk {head : Head} {children : List Node} :
      (∀ c ∈ children, c.Inside head.span.start.offset head.span.stop) →
      children.Pairwise Before → (∀ c ∈ children, Nested c) → Nested (.mk head children)

/-- The tree of a text is nested. -/
theorem LaidOut.nested {cs : List Char} {n : Node} (h : n.LaidOut cs) : n.Nested := by
  induction h with
  | mk hfits _ ih =>
    refine .mk (fun c hc => ?_) hfits.ordered ih
    obtain ⟨hlow, hlt, hhigh⟩ := hfits.inside c hc
    exact ⟨hlow, Nat.le_of_lt hlt, hhigh⟩

/-- The children of a nested tree are nested. -/
theorem Nested.of_mem_children {n c : Node} (h : n.Nested) (hc : c ∈ n.children) : c.Nested := by
  cases h with
  | mk _ _ hall => exact hall c hc

/-- The children of a nested tree stand inside its root. -/
theorem Nested.inside {n c : Node} (h : n.Nested) (hc : c ∈ n.children) :
    c.Inside n.span.start.offset n.span.stop := by
  cases h with
  | mk hinside _ _ => exact hinside c hc

/-- The children of a nested tree stand one behind the other. -/
theorem Nested.ordered {n : Node} (h : n.Nested) : n.children.Pairwise Before := by
  cases h with
  | mk _ hordered _ => exact hordered

/-- All nodes of a nested tree are nested and stand inside its root. -/
theorem Ancestry.nested_inside {root n : Node} {above : List Node} (h : Ancestry root n above)
    (hroot : root.Nested) (hspan : root.span.start.offset ≤ root.span.stop) :
    n.Nested ∧ n.Inside root.span.start.offset root.span.stop := by
  induction h with
  | root => exact ⟨hroot, Nat.le_refl _, hspan, Nat.le_refl _⟩
  | child _ hm ih =>
    obtain ⟨hn, hlow, -, hhigh⟩ := ih
    obtain ⟨hlow', hspan', hhigh'⟩ := hn.inside hm
    exact ⟨hn.of_mem_children hm, Nat.le_trans hlow hlow', hspan', Nat.le_trans hhigh' hhigh⟩

/-- A node does not start behind another one, and it stands around it or ends before it. -/
def Leads (a b : Node) : Prop :=
  a.span.start.offset ≤ b.span.start.offset ∧
    (b.span.stop ≤ a.span.stop ∨ a.span.stop ≤ b.span.start.offset)

mutual

/-- In a nested tree, the nodes in pre-order lead those behind them. -/
theorem Nested.pairwise_nodes : ∀ {n : Node}, n.Nested → n.nodes.Pairwise Leads
  | mk head children, h => by
    rw [nodes, List.pairwise_cons]
    refine ⟨?_, pairwise_nodesAmong (fun t ht => h.of_mem_children ht)
      (fun t ht => (h.inside ht).2.1) h.ordered⟩
    -- the root stands around all nodes below it
    intro m hm
    obtain ⟨t, ht, above, hancestry⟩ := mem_nodesAmong_iff_exists_ancestry.1 hm
    obtain ⟨hlow, hspan, hhigh⟩ := h.inside ht
    obtain ⟨-, hlow', -, hhigh'⟩ := hancestry.nested_inside (h.of_mem_children ht) hspan
    exact ⟨Nat.le_trans hlow hlow', .inl (Nat.le_trans hhigh' hhigh)⟩

/-- The nodes of nested trees that stand one behind the other lead those behind them. -/
theorem pairwise_nodesAmong :
    ∀ {ts : List Node}, (∀ t ∈ ts, t.Nested) →
      (∀ t ∈ ts, t.span.start.offset ≤ t.span.stop) → ts.Pairwise Before →
      (nodesAmong ts).Pairwise Leads
  | [], _, _, _ => by simp [nodesAmong]
  | n :: rest, hnested, hspan, hordered => by
    rw [List.forall_mem_cons] at hnested hspan
    rw [nodesAmong, List.pairwise_append]
    refine ⟨hnested.1.pairwise_nodes,
      pairwise_nodesAmong hnested.2 hspan.2 (List.pairwise_cons.1 hordered).2, ?_⟩
    -- nodes of the first tree end before those of the others start
    intro x hx y hy
    obtain ⟨above, hx⟩ := mem_nodes_iff_exists_ancestry.1 hx
    obtain ⟨t, ht, above', hy⟩ := mem_nodesAmong_iff_exists_ancestry.1 hy
    obtain ⟨-, -, hxSpan, hxHigh⟩ := hx.nested_inside hnested.1 hspan.1
    obtain ⟨-, hyLow, -, -⟩ := hy.nested_inside (hnested.2 t ht) (hspan.2 t ht)
    have hbefore : n.span.stop ≤ t.span.start.offset := List.rel_of_pairwise_cons hordered ht
    have hstop : x.span.stop ≤ y.span.start.offset := by omega
    exact ⟨Nat.le_trans hxSpan hstop, .inr hstop⟩

end

/-! ## Addresses -/

/-- The node at an address, which tells the way down by numbers of children that are no
punctuation. -/
def at? (n : Node) : List ℕ → Option Node
  | [] => some n
  | i :: address => n.namedChildren[i]?.bind (·.at? address)

mutual

/-- The nodes that are reached through children that are no punctuation, with their addresses. -/
def located : Node → List (List ℕ × Node)
  | mk head children => ([], mk head children) :: locatedAmong 0 children

/-- The same for a list of trees, the first of which that is no punctuation has the number `i`. -/
def locatedAmong (i : ℕ) : List Node → List (List ℕ × Node)
  | [] => []
  | n :: rest =>
    if n.kind = .punctuation then locatedAmong i rest
    else n.located.map (fun e => (i :: e.1, e.2)) ++ locatedAmong (i + 1) rest

end

mutual

/-- A traversal comes to the nodes that have an address. -/
theorem map_snd_located : ∀ n : Node, n.located.map Prod.snd = n.preorder
  | mk head children => by
    rw [located, preorder, List.map_cons, map_snd_locatedAmong 0 children]

/-- A traversal of trees comes to the nodes that have an address among them. -/
theorem map_snd_locatedAmong :
    ∀ (i : ℕ) (ts : List Node), (locatedAmong i ts).map Prod.snd = preorderAmong ts
  | i, [] => by simp [locatedAmong, preorderAmong]
  | i, n :: rest => by
    rw [locatedAmong, preorderAmong]
    by_cases hkind : n.kind = .punctuation
    · rw [if_pos hkind, if_pos hkind, map_snd_locatedAmong i rest, List.nil_append]
    · rw [if_neg hkind, if_neg hkind, List.map_append, List.map_map,
        map_snd_locatedAmong (i + 1) rest, ← map_snd_located n]
      rfl

end

mutual

/-- The addresses of a tree are those at which there is a node. -/
theorem mem_located {address : List ℕ} {m : Node} :
    ∀ {n : Node}, (address, m) ∈ n.located ↔ n.at? address = some m
  | mk head children => by
    rw [located, List.mem_cons, mem_locatedAmong]
    cases address with
    | nil => simp [at?, eq_comm]
    | cons i rest => simp [at?, namedChildren, Node.children]

/-- The addresses among trees start with the number of the tree, counted from `i` on. -/
theorem mem_locatedAmong {address : List ℕ} {m : Node} :
    ∀ {i : ℕ} {ts : List Node}, (address, m) ∈ locatedAmong i ts ↔
      ∃ k rest, address = (i + k) :: rest ∧
        ((ts.filter (·.kind ≠ .punctuation))[k]?.bind (·.at? rest)) = some m
  | i, [] => by simp [locatedAmong]
  | i, n :: rest => by
    rw [locatedAmong]
    by_cases hkind : n.kind = .punctuation
    · rw [if_pos hkind, mem_locatedAmong, List.filter_cons_of_neg (by simp [hkind])]
    · rw [if_neg hkind, List.mem_append, mem_locatedAmong,
        List.filter_cons_of_pos (by simp [hkind]), List.mem_map]
      constructor
      · rintro (⟨⟨below, m'⟩, hmem, heq⟩ | ⟨k, below, rfl, hat⟩)
        · obtain ⟨rfl, rfl⟩ := Prod.mk.inj heq
          exact ⟨0, below, rfl, by simpa using mem_located.1 hmem⟩
        · refine ⟨k + 1, below, ?_, by simpa using hat⟩
          congr 1
          omega
      · rintro ⟨k, below, rfl, hat⟩
        -- the first tree has the number `i`, the others have greater ones
        cases k with
        | zero => exact .inl ⟨(below, m), mem_located.2 (by simpa using hat), rfl⟩
        | succ k =>
          refine .inr ⟨k, below, ?_, by simpa using hat⟩
          congr 1
          omega

end

mutual

/-- A traversal comes to the nodes in the order of their addresses. -/
theorem pairwise_located :
    ∀ n : Node, n.located.Pairwise fun e e' => List.Lex (· < ·) e.1 e'.1
  | mk head children => by
    rw [located, List.pairwise_cons]
    refine ⟨?_, pairwise_locatedAmong 0 children⟩
    -- the empty address comes before all others
    rintro ⟨address, m⟩ hmem
    obtain ⟨k, rest, rfl, -⟩ := mem_locatedAmong.1 hmem
    exact .nil

/-- A traversal of trees comes to their nodes in the order of the addresses. -/
theorem pairwise_locatedAmong :
    ∀ (i : ℕ) (ts : List Node),
      (locatedAmong i ts).Pairwise fun e e' => List.Lex (· < ·) e.1 e'.1
  | i, [] => by simp [locatedAmong]
  | i, n :: rest => by
    rw [locatedAmong]
    by_cases hkind : n.kind = .punctuation
    · rw [if_pos hkind]
      exact pairwise_locatedAmong i rest
    · rw [if_neg hkind, List.pairwise_append, List.pairwise_map]
      refine ⟨(pairwise_located n).imp fun h => .cons h, pairwise_locatedAmong (i + 1) rest, ?_⟩
      -- addresses in the first tree start with a smaller number than those in the others
      intro e he e' he'
      obtain ⟨below, -, rfl⟩ := List.mem_map.1 he
      obtain ⟨k, below', haddress, -⟩ := mem_locatedAmong.1 he'
      rw [haddress]
      exact .rel (by omega)

end

end Node

/-! ## Visitors -/

/-- The hooks of a visitor. -/
inductive Hook where
  /-- The hook for calls. -/
  | call
  /-- The hook for declarators. -/
  | declarator
  /-- The hook for assignments. -/
  | assignment
deriving DecidableEq, Repr

/-- The kinds of nodes that a hook is for. -/
def Hook.kinds : Hook → List Kind
  | call => [.call]
  | declarator => [.declarator]
  | assignment => [.assignment, .compoundAssignment]

/-- The hook that a stop is for. -/
def Visit.hook : Visit → Hook
  | call _ => .call
  | declarator _ => .declarator
  | assignment _ => .assignment

/-- A node makes the stop for the hook that its kind belongs to. -/
theorem Visit.ofNode?_eq_some_iff {n : Node} {stop : Visit} :
    Visit.ofNode? n = some stop ↔ stop.node = n ∧ n.kind ∈ stop.hook.kinds := by
  unfold Visit.ofNode?
  constructor
  · intro h
    split at h <;> cases h <;> simp_all [Visit.node, Visit.hook, Hook.kinds]
  · rintro ⟨rfl, hkind⟩
    cases stop with
    | call n =>
      have hn : n.kind = .call := by simpa [Visit.hook, Hook.kinds, Visit.node] using hkind
      simp [Visit.node, hn]
    | declarator n =>
      have hn : n.kind = .declarator := by simpa [Visit.hook, Hook.kinds, Visit.node] using hkind
      simp [Visit.node, hn]
    | assignment n =>
      have hn : n.kind = .assignment ∨ n.kind = .compoundAssignment := by
        simpa [Visit.hook, Hook.kinds, Visit.node] using hkind
      rcases hn with hn | hn <;> simp [Visit.node, hn]

/-- A visitor with a state: what it does at the nodes of each hook, where it is given the way down
to the children of the node. A hook that is not overridden goes down. -/
structure Visitor (σ : Type) where
  /-- What it does at a call. -/
  call : Node → (σ → σ) → σ → σ := fun _ descend => descend
  /-- What it does at a declarator. -/
  declarator : Node → (σ → σ) → σ → σ := fun _ descend => descend
  /-- What it does at an assignment. -/
  assignment : Node → (σ → σ) → σ → σ := fun _ descend => descend

namespace Visitor

variable {σ : Type}

/-- What a visitor does at a stop. -/
def respond (v : Visitor σ) : Visit → (σ → σ) → σ → σ
  | .call n => v.call n
  | .declarator n => v.declarator n
  | .assignment n => v.assignment n

mutual

/-- The walk over a tree. A node that is no stop is walked through. -/
def visit (v : Visitor σ) : Node → σ → σ
  | .mk head children =>
    match Visit.ofNode? (.mk head children) with
    | some stop => v.respond stop (v.walkAmong children)
    | none => v.walkAmong children

/-- The walk over those trees of a list that are no punctuation. -/
def walkAmong (v : Visitor σ) : List Node → σ → σ
  | [] => fun s => s
  | n :: rest => fun s => v.walkAmong rest (if n.kind = .punctuation then s else v.visit n s)

end

/-- The walk over the children of a node that are no punctuation. -/
def walk (v : Visitor σ) (n : Node) : σ → σ := v.walkAmong n.children

/-- The walk over trees visits those that are no punctuation one after the other. -/
theorem walkAmong_eq_foldl (v : Visitor σ) (ts : List Node) (s : σ) :
    v.walkAmong ts s = (ts.filter (·.kind ≠ .punctuation)).foldl (fun s c => v.visit c s) s := by
  induction ts generalizing s with
  | nil => rw [walkAmong, List.filter_nil, List.foldl_nil]
  | cons n rest ih =>
    rw [walkAmong]
    simp only [ih]
    by_cases hkind : n.kind = .punctuation
    · rw [if_pos hkind, List.filter_cons_of_neg (by simp [hkind])]
    · rw [if_neg hkind, List.filter_cons_of_pos (by simp [hkind]), List.foldl_cons]

/-- The walk below a node visits its named children one after the other. -/
theorem walk_eq_foldl (v : Visitor σ) (n : Node) (s : σ) :
    v.walk n s = n.namedChildren.foldl (fun s c => v.visit c s) s :=
  v.walkAmong_eq_foldl n.children s

/-- A visit dispatches on the kind of the node. -/
theorem visit_eq (v : Visitor σ) (n : Node) :
    v.visit n = match Visit.ofNode? n with
      | some stop => v.respond stop (v.walk n)
      | none => v.walk n := by
  obtain ⟨head, children⟩ := n
  rw [visit]
  rfl

/-- The overridden hooks of a visitor take down their node and then go down; the others only go
down. -/
structure Records (v : Visitor σ) (overridden : Hook → Bool) (record : Visit → σ → σ) : Prop where
  /-- An overridden hook takes down its node first. -/
  recording : ∀ stop descend s, overridden stop.hook = true →
    v.respond stop descend s = descend (record stop s)
  /-- A hook that is not overridden has no effect of its own. -/
  inherited : ∀ stop descend s, overridden stop.hook = false → v.respond stop descend s = descend s

variable {v : Visitor σ} {overridden : Hook → Bool} {record : Visit → σ → σ}

mutual

/-- A visitor that records takes down the stops of its hooks one after the other. -/
theorem Records.visit_eq_foldl (hv : v.Records overridden record) :
    ∀ (n : Node) (s : σ), v.visit n s =
      (n.visits.filter (overridden ·.hook)).foldl (fun s stop => record stop s) s
  | .mk head children, s => by
    rw [visit, Node.visits]
    cases Visit.ofNode? (.mk head children) with
    | none =>
      rw [Option.toList_none, List.nil_append]
      exact hv.walkAmong_eq_foldl_visits children s
    | some stop =>
      rw [Option.toList_some, List.singleton_append]
      simp only
      -- the node is taken down before its children, or not at all
      cases hhook : overridden stop.hook with
      | true =>
        rw [hv.recording stop _ s hhook, List.filter_cons_of_pos (by simp [hhook]),
          List.foldl_cons]
        exact hv.walkAmong_eq_foldl_visits children (record stop s)
      | false =>
        rw [hv.inherited stop _ s hhook, List.filter_cons_of_neg (by simp [hhook])]
        exact hv.walkAmong_eq_foldl_visits children s

/-- A visitor that records takes down the stops among trees one after the other. -/
theorem Records.walkAmong_eq_foldl_visits (hv : v.Records overridden record) :
    ∀ (ts : List Node) (s : σ), v.walkAmong ts s =
      ((Node.visitsAmong ts).filter (overridden ·.hook)).foldl (fun s stop => record stop s) s
  | [], s => by rw [walkAmong, Node.visitsAmong, List.filter_nil, List.foldl_nil]
  | n :: rest, s => by
    rw [walkAmong, Node.visitsAmong, List.filter_append, List.foldl_append]
    simp only [hv.walkAmong_eq_foldl_visits rest]
    by_cases hkind : n.kind = .punctuation
    · rw [if_pos hkind, if_pos hkind, List.filter_nil, List.foldl_nil]
    · rw [if_neg hkind, if_neg hkind, hv.visit_eq_foldl n s]

end

end Visitor

/-! ## What visitors take down -/

/-- The stops of the overridden hooks with the addresses of their nodes, in pre-order. -/
def Node.stopsFor (overridden : Hook → Bool) (root : Node) : List (List ℕ × Visit) :=
  root.located.filterMap fun e =>
    ((Visit.ofNode? e.2).filter (overridden ·.hook)).map fun stop => (e.1, stop)

/-- The stops are the nodes at an address whose kind belongs to an overridden hook. -/
theorem Node.mem_stopsFor {overridden : Hook → Bool} {root : Node} {address : List ℕ}
    {stop : Visit} :
    (address, stop) ∈ root.stopsFor overridden ↔
      root.at? address = some stop.node ∧ stop.node.kind ∈ stop.hook.kinds ∧
        overridden stop.hook = true := by
  simp only [Node.stopsFor, List.mem_filterMap, Option.map_eq_some_iff, Option.filter_eq_some_iff]
  constructor
  · rintro ⟨⟨address', n⟩, hmem, stop', ⟨hstop, hhook⟩, heq⟩
    obtain ⟨rfl, rfl⟩ := Prod.mk.inj heq
    obtain ⟨rfl, hkind⟩ := Visit.ofNode?_eq_some_iff.1 hstop
    exact ⟨Node.mem_located.1 hmem, hkind, hhook⟩
  · rintro ⟨hat, hkind, hhook⟩
    exact ⟨(address, stop.node), Node.mem_located.2 hat, stop,
      ⟨Visit.ofNode?_eq_some_iff.2 ⟨rfl, hkind⟩, hhook⟩, rfl⟩

/-- Without their addresses, these are the stops of a traversal. -/
theorem Node.map_snd_stopsFor (overridden : Hook → Bool) (root : Node) :
    (root.stopsFor overridden).map Prod.snd = root.visits.filter (overridden ·.hook) := by
  rw [Node.visits_eq_filterMap_preorder, ← Node.map_snd_located, List.filterMap_map,
    List.filter_filterMap, Node.stopsFor, List.map_filterMap]
  refine List.filterMap_congr fun e _ => ?_
  simp only [Option.map_map, Function.comp_def, Option.map_id']

/-- The order of the addresses of the stops. -/
theorem Node.pairwise_map_fst_stopsFor (overridden : Hook → Bool) (root : Node) :
    ((root.stopsFor overridden).map Prod.fst).Pairwise (List.Lex (· < ·)) := by
  rw [List.pairwise_map, Node.stopsFor, List.pairwise_filterMap]
  refine root.pairwise_located.imp fun {e e'} hlex => ?_
  intro stop hstop stop' hstop'
  obtain ⟨_, -, rfl⟩ := Option.map_eq_some_iff.1 hstop
  obtain ⟨_, -, rfl⟩ := Option.map_eq_some_iff.1 hstop'
  exact hlex

/-- In a nested tree, the nodes of the stops lead those behind them. -/
theorem Node.Nested.pairwise_visits {root : Node} (h : root.Nested) :
    root.visits.Pairwise fun stop stop' => stop.node.Leads stop'.node := by
  rw [Node.visits_eq_filterMap_preorder, List.pairwise_filterMap]
  refine (h.pairwise_nodes.sublist root.preorder_sublist_nodes).imp fun {n n'} hleads => ?_
  intro stop hstop stop' hstop'
  obtain ⟨rfl, -⟩ := Visit.ofNode?_eq_some_iff.1 hstop
  obtain ⟨rfl, -⟩ := Visit.ofNode?_eq_some_iff.1 hstop'
  exact hleads

/-- A visitor whose overridden hooks take down their node and go down takes down the nodes at
certain addresses one after the other. These are the addresses of all nodes of the kinds its
overridden hooks are for, each one once and with the hook for its kind, and they come in pre-order.
In a nested tree, a node that is taken down does not start behind a later one, and stands around it
or ends before it. -/
theorem Visitor.visit_of_records {σ : Type} {v : Visitor σ} {overridden : Hook → Bool}
    {record : Visit → σ → σ} (hv : v.Records overridden record) {root : Node}
    (hroot : root.Nested) :
    ∃ (addresses : List (List ℕ)) (log : List Visit),
      (∀ s, v.visit root s = log.foldl (fun s stop => record stop s) s) ∧
      log = root.visits.filter (overridden ·.hook) ∧
      List.Forall₂ (fun address stop => root.at? address = some stop.node ∧
        stop.node.kind ∈ stop.hook.kinds ∧ overridden stop.hook = true) addresses log ∧
      (∀ address n hook, root.at? address = some n → n.kind ∈ hook.kinds →
        overridden hook = true → address ∈ addresses) ∧
      addresses.Pairwise (List.Lex (· < ·)) ∧
      log.Pairwise fun stop stop' => stop.node.Leads stop'.node := by
  refine ⟨(root.stopsFor overridden).map Prod.fst, root.visits.filter (overridden ·.hook),
    hv.visit_eq_foldl root, rfl, ?_, ?_, root.pairwise_map_fst_stopsFor overridden,
    hroot.pairwise_visits.filter _⟩
  · rw [← Node.map_snd_stopsFor, List.forall₂_map_left_iff, List.forall₂_map_right_iff,
      List.forall₂_same]
    exact fun e he => Node.mem_stopsFor.1 he
  · intro address n hook hat hkind hhook
    -- the stop that the node makes for the hook
    obtain ⟨stop, rfl, rfl⟩ : ∃ stop : Visit, stop.node = n ∧ stop.hook = hook := by
      cases hook with
      | call => exact ⟨.call n, rfl, rfl⟩
      | declarator => exact ⟨.declarator n, rfl, rfl⟩
      | assignment => exact ⟨.assignment n, rfl, rfl⟩
    exact List.mem_map_of_mem (Node.mem_stopsFor.2 ⟨hat, hkind, hhook⟩)

/-- A visitor that writes down where the calls start. -/
def Visitor.callStarts : Visitor (List ℕ) where
  call n descend starts := descend (starts ++ [n.span.start.offset])

theorem Visitor.records_callStarts :
    callStarts.Records (· == .call)
      (fun stop starts => starts ++ [stop.node.span.start.offset]) where
  recording stop descend s hhook := by
    cases stop with
    | call n => rfl
    | declarator n => cases hhook
    | assignment n => cases hhook
  inherited stop descend s hhook := by
    cases stop with
    | call n => cases hhook
    | declarator n => rfl
    | assignment n => rfl

/-- A visitor of calls finds them inside the value of a declarator, which has no hook of its own
here, inside the arguments of another call, and inside a callee. -/
theorem Visitor.visit_of_records_nested :
    ∃ p, Program.parse? "var a = f(g(1), [h()]); k()();" = some p ∧ p.root.Nested ∧
      callStarts.Records (· == .call) (fun stop starts =>
        starts ++ [stop.node.span.start.offset]) ∧
      callStarts.visit p.root [] = [8, 10, 17, 24, 24] := by
  have hparse : (Program.parse? "var a = f(g(1), [h()]); k()();").map (fun p =>
      (p.root.visits.filter (·.hook == .call)).map (·.node.span.start.offset)) =
        some [8, 10, 17, 24, 24] := by
    decide +kernel
  obtain ⟨p, hp, hstarts⟩ := Option.map_eq_some_iff.1 hparse
  have hnested : p.root.Nested := (Program.laidOut_of_parse? hp).nested
  obtain ⟨-, log, hrun, rfl, -⟩ := visit_of_records records_callStarts hnested
  refine ⟨p, hp, hnested, records_callStarts, ?_⟩
  rw [hrun, ← hstarts, List.map_eq_flatMap, List.flatMap_eq_foldl]

end LoaderLint.Script

namespace LoaderLint

open Script (Visit Visitor)

/-- A rule as a visitor: each hook asks for what the rule has to ask for at its node. -/
def Rule.visitor (r : Rule) : Visitor (List Request) where
  call n descend asked := descend (asked ++ (r.request? (.call n)).toList)
  declarator n descend asked := descend (asked ++ (r.request? (.declarator n)).toList)
  assignment n descend asked := descend (asked ++ (r.request? (.assignment n)).toList)

theorem Rule.records_visitor (r : Rule) :
    r.visitor.Records (fun _ => true) (fun stop asked => asked ++ (r.request? stop).toList) where
  recording stop descend s _ := by cases stop <;> rfl
  inherited stop descend s hhook := by cases hhook

/-- What a rule asks for in a file is what its visitor collects. -/
theorem Rule.visit_visitor (r : Rule) (s : Subject) :
    r.visitor.visit s.root [] = r.requests s := by
  rw [r.records_visitor.visit_eq_foldl, List.filter_true, Rule.requests,
    List.filterMap_eq_flatMap_toList, List.flatMap_eq_foldl]

end LoaderLint
