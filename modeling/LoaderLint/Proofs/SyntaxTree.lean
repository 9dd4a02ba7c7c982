import LoaderLint.Script.Grammar
import LoaderLint.Script.Program
import Mathlib.Data.List.Nodup

/-!
# Nodes of a syntax tree and their ancestors

What the numbers of nodes are good for: in a tree whose nodes have different numbers, a number
determines its node together with all ancestors of the node.

The module introduces:

* `Node.isSolid` — nodes that are neither punctuation nor comments;
* `Node.nodes`, `Node.preorder` — all nodes of a tree, and those that a traversal comes to, both in
  pre-order;
* `Node.UniqueIds` — no two nodes have the same number;
* `Node.Ancestry` — a node of a tree with its ancestors, the nearest one first;
* `Node.unplaced` — trees that are written down without places.

The trees that are read from source texts have unique numbers (`uniqueIds_of_parse?`), and there
`Node.pathTo` gives the ancestry of a node (`Ancestry.pathTo_eq`).
-/

namespace LoaderLint.Script

/-- Whether nodes of this kind are neither punctuation nor comments. -/
def Kind.isSolid (k : Kind) : Bool := k ≠ .punctuation && k ≠ .comment

namespace Node

/-- Whether the node is neither punctuation nor a comment. -/
def isSolid (n : Node) : Bool := n.kind.isSolid

mutual

/-- The nodes of a tree in pre-order, the root first. -/
def nodes : Node → List Node
  | mk head children => mk head children :: nodesAmong children

/-- The nodes of a list of trees one after the other. -/
def nodesAmong : List Node → List Node
  | [] => []
  | n :: rest => n.nodes ++ nodesAmong rest

end

mutual

/-- The nodes that are reached through children that are no punctuation, in pre-order. -/
def preorder : Node → List Node
  | mk head children => mk head children :: preorderAmong children

/-- The same for a list of trees one after the other. -/
def preorderAmong : List Node → List Node
  | [] => []
  | n :: rest => (if n.kind = .punctuation then [] else n.preorder) ++ preorderAmong rest

end

/-- No two nodes of the tree have the same number. -/
def UniqueIds (root : Node) : Prop := (root.nodes.map id).Nodup

/-- Whether the numbers of a tree are unique can be decided. -/
instance (root : Node) : Decidable root.UniqueIds :=
  inferInstanceAs (Decidable (root.nodes.map id).Nodup)

/-- `Ancestry root n above`: the node `n` is in the tree `root`, and `above` are its ancestors from
its parent up to the root. -/
inductive Ancestry (root : Node) : Node → List Node → Prop
  | root : Ancestry root root []
  | child {n m : Node} {above : List Node} :
      Ancestry root n above → m ∈ n.children → Ancestry root m (n :: above)

/-! ## Pre-order -/

mutual

/-- A traversal comes to nodes of the tree only, in their order. -/
theorem preorder_sublist_nodes : ∀ n : Node, n.preorder.Sublist n.nodes
  | mk head children => by
    rw [preorder, nodes]
    exact (preorderAmong_sublist_nodesAmong children).cons_cons _

/-- The same for a list of trees. -/
theorem preorderAmong_sublist_nodesAmong :
    ∀ ts : List Node, (preorderAmong ts).Sublist (nodesAmong ts)
  | [] => by simp [preorderAmong]
  | n :: rest => by
    rw [preorderAmong, nodesAmong]
    refine List.Sublist.append ?_ (preorderAmong_sublist_nodesAmong rest)
    split
    · exact List.nil_sublist _
    · exact preorder_sublist_nodes n

end

mutual

/-- A traversal stops at those nodes it comes to that make a stop. -/
theorem visits_eq_filterMap_preorder :
    ∀ n : Node, n.visits = n.preorder.filterMap Visit.ofNode?
  | mk head children => by
    rw [visits, preorder, List.filterMap_cons, visitsAmong_eq_filterMap_preorderAmong children]
    cases Visit.ofNode? (mk head children) <;> rfl

/-- The same for a list of trees. -/
theorem visitsAmong_eq_filterMap_preorderAmong :
    ∀ ts : List Node, visitsAmong ts = (preorderAmong ts).filterMap Visit.ofNode?
  | [] => rfl
  | n :: rest => by
    rw [visitsAmong, preorderAmong, List.filterMap_append,
      visitsAmong_eq_filterMap_preorderAmong rest]
    split
    · rfl
    · rw [visits_eq_filterMap_preorder n]

end

/-- The calls of a tree are the nodes of that kind that a traversal comes to. -/
theorem calls_eq_filter_preorder (root : Node) :
    root.calls = root.preorder.filter (·.kind = .call) := by
  rw [calls, visits_eq_filterMap_preorder, List.filterMap_filterMap, ← List.filterMap_eq_filter]
  refine List.filterMap_congr fun n _ => ?_
  -- a stop at a call is made at calls only
  unfold Visit.ofNode?
  cases hkind : n.kind <;> simp [Option.guard, hkind]

mutual

/-- Where punctuation has nothing inside it, a traversal comes to all nodes of the tree that are no
punctuation. -/
theorem filter_preorder {keep : Node → Bool}
    (hkeep : ∀ n : Node, n.kind = .punctuation → keep n = false) :
    ∀ n : Node, (∀ m ∈ n.nodes, m.kind = .punctuation → m.children = []) →
      n.preorder.filter keep = n.nodes.filter keep
  | mk head children, h => by
    rw [nodes] at h ⊢
    rw [preorder, List.filter_cons, List.filter_cons,
      filter_preorderAmong hkeep children fun m hm => h m (List.mem_cons_of_mem _ hm)]

/-- The same for a list of trees. -/
theorem filter_preorderAmong {keep : Node → Bool}
    (hkeep : ∀ n : Node, n.kind = .punctuation → keep n = false) :
    ∀ ts : List Node, (∀ m ∈ nodesAmong ts, m.kind = .punctuation → m.children = []) →
      (preorderAmong ts).filter keep = (nodesAmong ts).filter keep
  | [], _ => rfl
  | n :: rest, h => by
    rw [nodesAmong] at h ⊢
    rw [preorderAmong, List.filter_append, List.filter_append,
      filter_preorderAmong hkeep rest fun m hm => h m (List.mem_append_right _ hm)]
    congr 1
    split
    · -- the tree that is passed over is a single node, which is not kept
      rename_i hkind
      obtain ⟨head, children⟩ := n
      obtain rfl : children = [] := h _ (by simp [nodes]) hkind
      simp [nodes, nodesAmong, hkeep _ hkind]
    · exact filter_preorder hkeep n fun m hm => h m (List.mem_append_left _ hm)

end

/-- Where punctuation has nothing inside it, a traversal comes to all calls of the tree. -/
theorem filter_call_preorder (n : Node)
    (h : ∀ m ∈ n.nodes, m.kind = .punctuation → m.children = []) :
    n.preorder.filter (·.kind = .call) = n.nodes.filter (·.kind = .call) :=
  filter_preorder (fun m hm => by simp [hm]) n h

/-- The calls of a tree are some of its nodes, in their order. -/
theorem calls_sublist_nodes (root : Node) : root.calls.Sublist root.nodes := by
  rw [calls_eq_filter_preorder]
  exact List.filter_sublist.trans (preorder_sublist_nodes root)

/-! ## Numbering -/

mutual

/-- Numbering in pre-order gives the nodes consecutive numbers. -/
theorem ids_numberFrom :
    ∀ (next : ℕ) (n : Node),
      (n.numberFrom next).1.nodes.map id = List.range' next n.nodes.length ∧
        (n.numberFrom next).2 = next + n.nodes.length
  | next, mk head children => by
    obtain ⟨hids, hleft⟩ := ids_numberAll (next + 1) children
    simp only [numberFrom, nodes, List.map_cons, List.length_cons, List.range'_succ, hids]
    exact ⟨rfl, by omega⟩

/-- The same for a list of trees, which are numbered one after the other. -/
theorem ids_numberAll :
    ∀ (next : ℕ) (ts : List Node),
      (nodesAmong (numberAll next ts).1).map id = List.range' next (nodesAmong ts).length ∧
        (numberAll next ts).2 = next + (nodesAmong ts).length
  | next, [] => by simp [numberAll, nodesAmong]
  | next, n :: rest => by
    obtain ⟨hids, hleft⟩ := ids_numberFrom next n
    obtain ⟨hidsRest, hleftRest⟩ := ids_numberAll (n.numberFrom next).2 rest
    -- the rest is numbered from where the first tree stopped
    rw [hleft] at hidsRest hleftRest
    simp only [numberAll, nodesAmong, List.map_append, List.length_append, hids, hleft, hidsRest,
      hleftRest]
    exact ⟨List.range'_append_1, by omega⟩

end

/-- A numbered tree has unique numbers. -/
theorem uniqueIds_numbered (n : Node) : n.numbered.UniqueIds := by
  rw [UniqueIds, numbered, (ids_numberFrom 0 n).1]
  exact List.nodup_range'

end Node

/-- The tree of a source text has unique numbers. -/
theorem uniqueIds_of_parse? {source : String} {root : Node} (h : parse? source = some root) :
    root.UniqueIds := by
  simp only [parse?] at h
  -- the only way to a tree is through the numbering at the end
  split at h
  · cases h
  · split at h
    · split at h
      · rw [← Option.some.inj h]
        exact Node.uniqueIds_numbered _
      · cases h
    · cases h

/-- The tree of a program has unique numbers. -/
theorem Program.uniqueIds_of_parse? {source : String} {p : Program}
    (h : Program.parse? source = some p) : p.root.UniqueIds := by
  rw [Program.parse?, Option.map_eq_some_iff] at h
  obtain ⟨root, hroot, rfl⟩ := h
  exact Script.uniqueIds_of_parse? hroot

namespace Node

/-! ## Ancestry -/

namespace Ancestry

variable {root n m t : Node} {above : List Node}

/-- The ancestry of a node inside a child is continued by the root. -/
theorem under (h : Ancestry t n above) (ht : t ∈ root.children) :
    Ancestry root n (above ++ [root]) := by
  induction h with
  | root => exact Ancestry.root.child ht
  | child _ hm ih => exact ih.child hm

/-- A node is the root, or it is in the tree of one of the children of the root. -/
theorem eq_root_or_child (h : Ancestry root n above) :
    (n = root ∧ above = []) ∨
      ∃ t ∈ root.children, ∃ rest, Ancestry t n rest ∧ above = rest ++ [root] := by
  induction h with
  | root => exact .inl ⟨rfl, rfl⟩
  | child hn hm ih =>
    right
    rcases ih with ⟨rfl, rfl⟩ | ⟨t, ht, rest, hrest, rfl⟩
    · exact ⟨_, hm, [], .root, rfl⟩
    · exact ⟨t, ht, _, hrest.child hm, rfl⟩

end Ancestry

mutual

/-- A node with an ancestry in a tree is one of its nodes, and the other way round. -/
theorem mem_nodes_iff_exists_ancestry {n : Node} :
    ∀ {root : Node}, n ∈ root.nodes ↔ ∃ above, Ancestry root n above
  | mk head children => by
    rw [nodes, List.mem_cons, mem_nodesAmong_iff_exists_ancestry]
    constructor
    · rintro (rfl | ⟨t, ht, above, h⟩)
      · exact ⟨[], .root⟩
      · exact ⟨_, h.under ht⟩
    · rintro ⟨above, h⟩
      rcases h.eq_root_or_child with ⟨rfl, -⟩ | ⟨t, ht, rest, hrest, -⟩
      · exact .inl rfl
      · exact .inr ⟨t, ht, rest, hrest⟩

/-- The nodes of a list of trees are those with an ancestry in one of them. -/
theorem mem_nodesAmong_iff_exists_ancestry {n : Node} :
    ∀ {ts : List Node}, n ∈ nodesAmong ts ↔ ∃ t ∈ ts, ∃ above, Ancestry t n above
  | [] => by simp [nodesAmong]
  | t :: rest => by
    rw [nodesAmong, List.mem_append, mem_nodes_iff_exists_ancestry,
      mem_nodesAmong_iff_exists_ancestry, List.exists_mem_cons_iff]

end

mutual

/-- There is no way up from a number that no node has. -/
theorem pathTo_eq_none {id : ℕ} :
    ∀ {root : Node}, id ∉ root.nodes.map Node.id → root.pathTo id = none
  | mk head children, h => by
    rw [nodes, List.map_cons, List.mem_cons, not_or] at h
    have hne : ¬head.id = id := fun heq => h.1 heq.symm
    rw [pathTo, if_neg hne, pathAmong_eq_none h.2, Option.map_none]

/-- The same for a list of trees. -/
theorem pathAmong_eq_none {id : ℕ} :
    ∀ {ts : List Node}, id ∉ (nodesAmong ts).map Node.id → pathAmong id ts = none
  | [], _ => by rw [pathAmong]
  | t :: rest, h => by
    rw [nodesAmong, List.map_append, List.mem_append, not_or] at h
    rw [pathAmong, pathTo_eq_none h.1, pathAmong_eq_none h.2]
    rfl

end

mutual

/-- Where numbers are unique, the way up from a node is its ancestry. -/
theorem Ancestry.pathTo_eq {n : Node} {above : List Node} :
    ∀ {root : Node}, root.UniqueIds → Ancestry root n above →
      root.pathTo n.id = some (n :: above)
  | mk head children, hids, h => by
    rw [UniqueIds, nodes, List.map_cons, List.nodup_cons] at hids
    rw [pathTo]
    rcases h.eq_root_or_child with ⟨rfl, rfl⟩ | ⟨t, ht, rest, hrest, rfl⟩
    · exact if_pos rfl
    · have hmem : n ∈ nodesAmong children :=
        mem_nodesAmong_iff_exists_ancestry.2 ⟨t, ht, rest, hrest⟩
      have hne : head.id ≠ n.id := fun heq => hids.1 (List.mem_map.2 ⟨n, hmem, heq.symm⟩)
      rw [if_neg hne, pathAmong_eq_of_ancestry hids.2 ht hrest]
      rfl

/-- The same for a list of trees, where the node is in one of them. -/
theorem pathAmong_eq_of_ancestry {n t : Node} {above : List Node} :
    ∀ {ts : List Node}, ((nodesAmong ts).map Node.id).Nodup → t ∈ ts → Ancestry t n above →
      pathAmong n.id ts = some (n :: above)
  | first :: rest, hids, ht, h => by
    rw [nodesAmong, List.map_append, List.nodup_append'] at hids
    obtain ⟨hfirst, hrest, hdisjoint⟩ := hids
    rw [pathAmong]
    rcases List.mem_cons.1 ht with heq | ht
    · rw [heq] at h
      rw [h.pathTo_eq hfirst]
      rfl
    · -- the number is in a later tree, so it is not in the first one
      have hmem : n.id ∈ (nodesAmong rest).map Node.id :=
        List.mem_map_of_mem (mem_nodesAmong_iff_exists_ancestry.2 ⟨t, ht, above, h⟩)
      rw [pathTo_eq_none fun hn => hdisjoint hn hmem]
      exact pathAmong_eq_of_ancestry hrest ht h

end

/-- Where numbers are unique, a number determines its node and all ancestors of the node. -/
theorem Ancestry.eq_of_id_eq {root n m : Node} {above above' : List Node} (hids : root.UniqueIds)
    (hn : Ancestry root n above) (hm : Ancestry root m above') (h : n.id = m.id) :
    n = m ∧ above = above' := by
  have hpath := hn.pathTo_eq hids
  rw [h, hm.pathTo_eq hids, Option.some.injEq, List.cons.injEq] at hpath
  exact ⟨hpath.1.symm, hpath.2.symm⟩

mutual

/-- The node inside parentheses stands below them, with nothing but parentheses on the way. -/
theorem Ancestry.unparenthesized {root : Node} :
    ∀ {n : Node} {above : List Node}, Ancestry root n above →
      ∃ parens, Ancestry root n.unparenthesized (parens ++ above) ∧
        ∀ p ∈ parens, p.kind = .parenthesized
  | mk head children, above, h => by
    rw [Node.unparenthesized]
    split
    · rename_i hkind
      cases hfirst : Node.firstUnparenthesized children with
      | none => exact ⟨[], h, by simp⟩
      | some inner =>
        obtain ⟨parens, hinner, hparens⟩ :=
          Ancestry.firstUnparenthesized (fun m hm => h.child hm) hfirst
        -- the parentheses themselves come on top of those inside
        refine ⟨parens ++ [mk head children], ?_, ?_⟩
        · simpa using hinner
        · intro p hp
          rcases List.mem_append.1 hp with hp | hp
          · exact hparens p hp
          · rw [List.mem_singleton.1 hp]
            exact hkind
    · exact ⟨[], h, by simp⟩

/-- The same for the first of the children that is an expression. -/
theorem Ancestry.firstUnparenthesized {root inner : Node} {above : List Node} :
    ∀ {ts : List Node}, (∀ t ∈ ts, Ancestry root t above) →
      Node.firstUnparenthesized ts = some inner →
      ∃ parens, Ancestry root inner (parens ++ above) ∧ ∀ p ∈ parens, p.kind = .parenthesized
  | n :: rest, hts, h => by
    rw [Node.firstUnparenthesized] at h
    split at h
    · exact Ancestry.firstUnparenthesized (fun t ht => hts t (List.mem_cons_of_mem _ ht)) h
    · rw [← Option.some.inj h]
      exact Ancestry.unparenthesized (hts n List.mem_cons_self)

end

/-! ## Parts of a tree -/

/-- The expression inside parentheses is a node of their tree. -/
theorem unparenthesized_mem_nodes (n : Node) : n.unparenthesized ∈ n.nodes := by
  have hroot : Ancestry n n [] := .root
  obtain ⟨parens, hparens, -⟩ := hroot.unparenthesized
  exact mem_nodes_iff_exists_ancestry.2 ⟨_, hparens⟩

mutual

/-- The nodes of a tree inside another one are some of its nodes, in their order. -/
theorem nodes_sublist_of_mem {n : Node} :
    ∀ {root : Node}, n ∈ root.nodes → n.nodes.Sublist root.nodes
  | mk head children, h => by
    rw [nodes, List.mem_cons] at h
    rcases h with rfl | h
    · exact List.Sublist.refl _
    · rw [nodes]
      exact (nodes_sublist_nodesAmong h).cons _

/-- The same for a list of trees. -/
theorem nodes_sublist_nodesAmong {n : Node} :
    ∀ {ts : List Node}, n ∈ nodesAmong ts → n.nodes.Sublist (nodesAmong ts)
  | t :: rest, h => by
    rw [nodesAmong, List.mem_append] at h
    rw [nodesAmong]
    rcases h with h | h
    · exact (nodes_sublist_of_mem h).trans (List.sublist_append_left _ _)
    · exact (nodes_sublist_nodesAmong h).trans (List.sublist_append_right _ _)

end

/-- Where numbers are unique, they are so in each tree inside. -/
theorem UniqueIds.of_mem {root n : Node} (hids : root.UniqueIds) (hn : n ∈ root.nodes) :
    n.UniqueIds :=
  hids.sublist ((nodes_sublist_of_mem hn).map id)

/-- Where numbers are unique, the trees of two children have no number in common. -/
theorem pairwise_id_ne_of_nodup {ts : List Node} (h : ((nodesAmong ts).map id).Nodup) :
    ts.Pairwise fun t t' => ∀ n ∈ t.nodes, ∀ m ∈ t'.nodes, n.id ≠ m.id := by
  induction ts with
  | nil => exact .nil
  | cons t rest ih =>
    rw [nodesAmong, List.map_append, List.nodup_append'] at h
    obtain ⟨-, hrest, hdisjoint⟩ := h
    refine List.pairwise_cons.2 ⟨fun t' ht' n hn m hm heq => ?_, ih hrest⟩
    -- a number in common would stand in two parts of the list
    obtain ⟨above, habove⟩ := mem_nodes_iff_exists_ancestry.1 hm
    have hmem : m ∈ nodesAmong rest :=
      mem_nodesAmong_iff_exists_ancestry.2 ⟨t', ht', above, habove⟩
    exact hdisjoint (List.mem_map_of_mem hn) (heq ▸ List.mem_map_of_mem hmem)

/-! ## Trees of which only the shape matters -/

/-- A node of which only the kind, the role and the spelling matter. -/
def unplaced (kind : Kind) (role : Role) (text : String) (children : List Node) : Node :=
  .mk ⟨0, kind, role, default, text⟩ children

/-- A mark. -/
def mark (text : String) : Node := unplaced .punctuation .plain text []

/-- A comment. -/
def note : Node := unplaced .comment .plain "/* */" []

/-- The array of the one element `n`. -/
def singleton (n : Node) : Node := unplaced .array .plain "" [mark "[", n, mark "]"]

/-- The node `n` in parentheses, with a comment before it. -/
def inParens (n : Node) : Node := unplaced .parenthesized .plain "" [mark "(", note, n, mark ")"]

end Node

end LoaderLint.Script
