import LoaderLint.Proofs.ReaderLayout
import LoaderLint.Script.Grammar.Goal

/-!
# Contracts of readers

What readers do to the text ahead and to the nodes of the construct that is open. A reader that
fails says nothing, so a contract is about what a reader gives if it gives something.

The module introduces:

* `Reader.Ensures`, `Reader.Meets` — what holds of every answer of a reader, in one state and in
  all states with a property;
* `Reader.Looks`, `Reader.Moves`, `Reader.Takes`, `Reader.Skips`, `Reader.Leads`, `Reader.Fills` —
  readers that only look ahead, that go forward, that take a character, that take no nodes, that
  take a character before any node, and that add something solid;
* `Reader.Makes`, `Reader.Extends`, `Reader.Offers`, `Reader.Finds` — readers of a node, readers
  that go on from a node, and readers that may do so;
* `Reader.Spends` — readers that add a node made before;
* `Reader.Anywhere`, `Reader.Answers` — readers whose start does not matter, and the values they
  give.

The contracts are closed under the ways to put readers together, so that the contract of a rule of
the grammar follows from the contracts of its parts.
-/

namespace LoaderLint.Script

namespace Reader

variable {α β : Type} {cs : List Char}

/-- What holds of every answer of a reader and of the state it leaves. -/
def Ensures (s : ReaderState) (m : Reader α) (post : α → ReaderState → Prop) : Prop :=
  ∀ a s', m s = some (a, s') → post a s'

/-- A reader that is run in states with `pre` relates them to its answers and to the states that it
leaves. -/
def Meets (pre : ReaderState → Prop) (post : ReaderState → α → ReaderState → Prop)
    (m : Reader α) : Prop :=
  ∀ s, pre s → Ensures s m (post s)

/-- The states that stand in the text. -/
abbrev InText (cs : List Char) (s : ReaderState) : Prop := s.cursor.At cs

/-- The states that stand in the text in front of what is given. -/
abbrev Facing (cs ahead : List Char) (s : ReaderState) : Prop :=
  s.cursor.At cs ∧ s.cursor.rest = ahead

/-- The reader went forward and added nodes that are laid out. -/
abbrev Moved (cs : List Char) (s : ReaderState) (_ : α) (s' : ReaderState) : Prop :=
  ∃ new, Grown cs s s' new

/-- It did so and took at least one character. -/
abbrev Taken (cs : List Char) (s : ReaderState) (_ : α) (s' : ReaderState) : Prop :=
  (∃ new, Grown cs s s' new) ∧ s.offset < s'.offset

/-- It did so, and one of the nodes is solid. -/
abbrev Filled (cs : List Char) (s : ReaderState) (_ : α) (s' : ReaderState) : Prop :=
  (∃ new, Grown cs s s' new ∧ ∃ c ∈ new, c.isSolid = true) ∧ s.offset < s'.offset

/-- It did so, and the nodes stand behind at least one character. -/
abbrev Led (cs : List Char) (s : ReaderState) (_ : α) (s' : ReaderState) : Prop :=
  ∃ t new, Grown cs s t [] ∧ s.offset < t.offset ∧ Grown cs t s' new

/-- It made a node of the text ahead. -/
abbrev Made (cs : List Char) (s : ReaderState) (n : Node) (s' : ReaderState) : Prop :=
  Gives cs s.offset s n s'

/-- The reader only looks at the text ahead. -/
abbrev Looks (m : Reader α) : Prop := Meets (fun _ => True) (fun s _ s' => s' = s) m

/-- The reader goes forward. -/
abbrev Moves (cs : List Char) (m : Reader α) : Prop := Meets (InText cs) (Moved cs) m

/-- The reader takes at least one character. -/
abbrev Takes (cs : List Char) (m : Reader α) : Prop := Meets (InText cs) (Taken cs) m

/-- The reader takes at least one character and adds something solid. -/
abbrev Fills (cs : List Char) (m : Reader α) : Prop := Meets (InText cs) (Filled cs) m

/-- The reader takes at least one character before it adds nodes. -/
abbrev Leads (cs : List Char) (m : Reader α) : Prop := Meets (InText cs) (Led cs) m

/-- The reader takes at least one character and adds no nodes. -/
abbrev Skips (cs : List Char) (m : Reader α) : Prop :=
  Meets (InText cs) (fun s _ s' => Grown cs s s' [] ∧ s.offset < s'.offset) m

/-- The reader makes a node of the text ahead. -/
abbrev Makes (cs : List Char) (m : Reader Node) : Prop :=
  Meets (InText cs) (Made cs) m

/-- The reader goes on from a node and makes a node that does not start before it. -/
abbrev Extends (cs : List Char) (left : Node) (m : Reader Node) : Prop :=
  Meets (Past cs left) (Gives cs left.span.start.offset) m

/-- The reader goes on from a node and makes such a node, or leaves everything as it is. -/
abbrev Offers (cs : List Char) (left : Node) (m : Reader (Option Node)) : Prop :=
  Meets (Past cs left)
    (fun s answer s' => match answer with
      | some n => Gives cs left.span.start.offset s n s'
      | none => s' = s) m

/-- The reader makes a node of the text ahead, or leaves everything as it is. -/
abbrev Finds (cs : List Char) (m : Reader (Option Node)) : Prop :=
  Meets (InText cs)
    (fun s answer s' => match answer with
      | some n => Gives cs s.offset s n s'
      | none => s' = s) m

/-- The reader goes on from a node that was made of the text behind some state, and adds it or
drops it. -/
abbrev Spends (cs : List Char) (n : Node) (m : Reader α) : Prop :=
  ∀ s₀ : ReaderState, Meets (Gives cs s₀.offset s₀ n)
    (fun s _ s' => (∃ new, Grown cs s₀ s' new) ∧ s.offset ≤ s'.offset) m

/-! ## Putting readers together -/

namespace Ensures

variable {s : ReaderState} {m m' : Reader α} {f : α → Reader β}
  {post post' : α → ReaderState → Prop} {post₂ : β → ReaderState → Prop}

/-- A reader that gives a value at once leaves the state as it is. -/
theorem pure {a : α} (h : post a s) : Ensures s (Pure.pure a) post := by
  intro b s' hrun
  cases hrun
  exact h

/-- Two readers in a row: the second one is run on each answer of the first one, in the state that
the first one leaves. -/
theorem bind (hm : Ensures s m post) (hf : ∀ a s', post a s' → Ensures s' (f a) post₂) :
    Ensures s (m >>= f) post₂ := by
  intro b s₂ hrun
  obtain ⟨⟨a, s₁⟩, ha, hb⟩ := Option.bind_eq_some_iff.1 hrun
  exact hf a s₁ (hm a s₁ ha) b s₂ hb

/-- What a reader ensures may be weakened. -/
theorem mono (hm : Ensures s m post) (h : ∀ a s', post a s' → post' a s') : Ensures s m post' :=
  fun a s' hrun => h a s' (hm a s' hrun)

/-- A node that is added is the last one of the construct that is open. -/
theorem emit {n : Node} {post : Unit → ReaderState → Prop}
    (h : post () { s with nodes := n :: s.nodes }) : Ensures s (Reader.emit n) post := by
  intro u s' hrun
  cases hrun
  exact h

/-- What follows an added node is run with it. -/
theorem emit_bind {n : Node} {f : Unit → Reader β}
    (h : Ensures { s with nodes := n :: s.nodes } (f ()) post₂) :
    Ensures s (Reader.emit n >>= f) post₂ :=
  h

/-- A reader whose answer is changed by a function. -/
theorem map {g : α → β} (hm : Ensures s m fun a s' => post₂ (g a) s') :
    Ensures s (g <$> m) post₂ := by
  intro b s' hrun
  obtain ⟨⟨a, s₁⟩, ha, hb⟩ := Option.bind_eq_some_iff.1 hrun
  cases hb
  exact hm a s' ha

/-- Of two readers of which the second one is run if the first one fails, what both ensure. -/
theorem orElse (hm : Ensures s m post) (hm' : Ensures s m' post) : Ensures s (m <|> m') post := by
  intro a s' hrun
  change ((m s).orElse fun _ => m' s) = some (a, s') at hrun
  -- the second reader is run in the same state, since a reader that fails leaves none
  cases hfirst : m s with
  | none =>
    rw [hfirst] at hrun
    exact hm' a s' hrun
  | some answer =>
    rw [hfirst] at hrun
    exact hm a s' (hfirst.trans hrun)

end Ensures

section Together

variable {pre pre' : ReaderState → Prop} {post post' : ReaderState → α → ReaderState → Prop}
  {post₂ : ReaderState → β → ReaderState → Prop} {m m' : Reader α} {f : α → Reader β} {left : Node}

/-- A contract holds in all states that are among those it is about. -/
theorem Meets.weaken (h : Meets pre post m) (hpre : ∀ s, pre' s → pre s) : Meets pre' post m :=
  fun s hs => h s (hpre s hs)

/-- What a contract says of the answers may be weakened. -/
theorem Meets.mono (h : Meets pre post m) (hpost : ∀ s a s', post s a s' → post' s a s') :
    Meets pre post' m :=
  fun s hs => (h s hs).mono (hpost s)

/-- What holds wherever the reader stands in the text holds in front of a given text. -/
theorem Meets.facing {ahead : List Char} (h : Meets (InText cs) post m) :
    Meets (Facing cs ahead) post m :=
  h.weaken fun _ hs => hs.1

/-- A reader that fails has every contract. -/
theorem Meets.failure : Meets pre post (Alternative.failure : Reader α) := by
  intro s _ a s' hrun
  cases hrun

/-- The choice between two readers has a contract that both have. -/
theorem Meets.orElse (h : Meets pre post m) (h' : Meets pre post m') : Meets pre post (m <|> m') :=
  fun s hs => (h s hs).orElse (h' s hs)

theorem Looks.pure (a : α) : Looks (Pure.pure a : Reader α) := fun _ _ => .pure rfl

/-- A look ahead changes nothing for what follows. -/
theorem Looks.bind (hm : Looks m) (hf : ∀ a, Meets pre post₂ (f a)) :
    Meets pre post₂ (m >>= f) := by
  intro s hs
  refine (hm s trivial).bind fun a s' heq => ?_
  rw [heq]
  exact hf a s hs

/-- What follows a condition may use it. -/
theorem Meets.require {c : Bool} {f : Unit → Reader β} (hf : c = true → Meets pre post₂ (f ())) :
    Meets pre post₂ (Reader.require c >>= f) := by
  intro s hs
  cases c with
  | false =>
    intro b s' hrun
    cases hrun
  | true => exact hf rfl s hs

/-- What follows a look at the characters ahead may use them. -/
theorem Meets.rest {f : List Char → Reader β}
    (hf : ∀ ahead, Meets (Facing cs ahead) post₂ (f ahead)) :
    Meets (InText cs) post₂ (Reader.rest >>= f) :=
  fun s hs => hf s.cursor.rest s ⟨hs, rfl⟩

/-- A look at the characters ahead finds those that are known to be there. -/
theorem Meets.rest_facing {ahead : List Char} {f : List Char → Reader β}
    (hf : Meets (Facing cs ahead) post₂ (f ahead)) :
    Meets (Facing cs ahead) post₂ (Reader.rest >>= f) := by
  rintro s ⟨hs, rfl⟩
  exact hf s ⟨hs, rfl⟩

/-- A look ahead goes forward by no character. -/
theorem Looks.moves (h : Looks m) : Moves cs m := by
  intro s hs
  refine (h s trivial).mono fun a s' heq => ?_
  rw [heq]
  exact ⟨[], .refl hs⟩

theorem Moves.pure (a : α) : Moves cs (Pure.pure a : Reader α) := (Looks.pure a).moves

/-- A reader that takes a character goes forward. -/
theorem Meets.moved (h : Meets pre (Taken cs) m) : Meets pre (Moved cs) m :=
  h.mono fun _ _ _ h => h.1

/-- A reader that takes characters and no nodes takes a character. -/
theorem Skips.takes (h : Skips cs m) : Takes cs m := h.mono fun _ _ _ h => ⟨⟨[], h.1⟩, h.2⟩

/-- A reader that takes a character before any node takes a character. -/
theorem Leads.takes (h : Leads cs m) : Takes cs m := by
  refine h.mono fun s a s' ⟨t, new, hskip, hlt, hnew⟩ => ⟨⟨new ++ [], hskip.trans hnew⟩, ?_⟩
  exact Nat.lt_of_lt_of_le hlt hnew.forward

/-- Two readers in a row go forward if each of them does. -/
theorem Meets.bind_moved (hm : Meets pre (Moved cs) m) (hf : ∀ a, Moves cs (f a)) :
    Meets pre (Moved cs) (m >>= f) := by
  intro s hs
  refine (hm s hs).bind fun a s₁ ⟨new, hnew⟩ => ?_
  refine (hf a s₁ hnew.stands).mono fun b s₂ ⟨more, hmore⟩ => ?_
  exact ⟨more ++ new, hnew.trans hmore⟩

/-- A step that may be left out, with what follows it. -/
theorem Moves.optional {c : Prop} [Decidable c] {m : Reader Unit} {f : Unit → Reader β}
    (hm : Moves cs m) (hf : ∀ u, Moves cs (f u)) : Moves cs (if c then m >>= f else f ()) := by
  split
  · exact hm.bind_moved hf
  · exact hf ()

/-- A reader that takes a character may be followed by any other one. -/
theorem Meets.bind_taken (hm : Meets pre (Taken cs) m) (hf : ∀ a, Moves cs (f a)) :
    Meets pre (Taken cs) (m >>= f) := by
  intro s hs
  refine (hm s hs).bind fun a s₁ ⟨⟨new, hnew⟩, hlt⟩ => ?_
  refine (hf a s₁ hnew.stands).mono fun b s₂ ⟨more, hmore⟩ => ?_
  exact ⟨⟨more ++ new, hnew.trans hmore⟩, Nat.lt_of_lt_of_le hlt hmore.forward⟩

/-- A reader that takes a character may follow any other one. -/
theorem Meets.moved_bind (hm : Meets pre (Moved cs) m) (hf : ∀ a, Takes cs (f a)) :
    Meets pre (Taken cs) (m >>= f) := by
  intro s hs
  refine (hm s hs).bind fun a s₁ ⟨new, hnew⟩ => ?_
  refine (hf a s₁ hnew.stands).mono fun b s₂ ⟨⟨more, hmore⟩, hlt⟩ => ?_
  exact ⟨⟨more ++ new, hnew.trans hmore⟩, Nat.lt_of_le_of_lt hnew.forward hlt⟩

/-- A token in front of a reader leads. -/
theorem Skips.bind (hm : Skips cs m) (hf : ∀ a, Moves cs (f a)) : Leads cs (m >>= f) := by
  intro s hs
  refine (hm s hs).bind fun a s₁ ⟨hskip, hlt⟩ => ?_
  exact (hf a s₁ hskip.stands).mono fun b s₂ ⟨new, hnew⟩ => ⟨s₁, new, hskip, hlt, hnew⟩

/-- What follows a node may go on from it. -/
theorem Meets.extend {m : Reader Node} {f : Node → Reader Node}
    (hm : Meets pre (Made cs) m) (hf : ∀ n, Extends cs n (f n)) :
    Meets pre (Made cs) (m >>= f) := by
  intro s hs
  refine (hm s hs).bind fun n s₁ hn => ?_
  exact (hf n s₁ hn.past).mono fun n' s₂ hn' => hn.trans hn'

/-- What follows a node may add it. -/
theorem Meets.spend {m : Reader Node} {f : Node → Reader β}
    (hm : Meets pre (Made cs) m) (hf : ∀ n, Spends cs n (f n)) :
    Meets pre (Taken cs) (m >>= f) := by
  intro s hs
  refine (hm s hs).bind fun n s₁ hn => ?_
  -- the node takes a character, whatever is done with it
  refine (hf n s s₁ hn).mono fun b s₂ ⟨hnew, hle⟩ => ⟨hnew, Nat.lt_of_lt_of_le ?_ hle⟩
  exact Nat.lt_of_le_of_lt hn.after (Nat.lt_of_lt_of_le hn.past.within.2.1 hn.past.within.2.2)

/-- A reader that gives back the node it goes on from. -/
theorem Extends.pure (n : Node) : Extends cs n (Pure.pure n) := fun _ h => .pure h.self

/-- A reader that goes on from a node may be followed by one that goes on from the node it
makes. -/
theorem Extends.bind {m : Reader Node} {f : Node → Reader Node} (hm : Extends cs left m)
    (hf : ∀ n, Extends cs n (f n)) : Extends cs left (m >>= f) := by
  intro s hs
  refine (hm s hs).bind fun n s₁ hn => ?_
  exact (hf n s₁ hn.past).mono fun n' s₂ hn' => hn.trans hn'

/-- A reader that goes on from a node may be followed by one that adds the node it makes. -/
theorem Extends.spend {m : Reader Node} {f : Node → Reader β} (hm : Extends cs left m)
    (hf : ∀ n, Spends cs n (f n)) : Spends cs left (m >>= f) := by
  intro s₀ s hs
  refine (hm s hs.past).bind fun n s₁ hn => ?_
  refine (hf n s₀ s₁ (hs.trans hn)).mono fun b s₂ ⟨hnew, hle⟩ => ?_
  exact ⟨hnew, Nat.le_trans hn.forward hle⟩

/-- What goes on from a node that stands in the place of another one goes on from that one. -/
theorem Extends.of_span_eq {m : Reader Node} {n : Node} (h : Extends cs n m)
    (hspan : n.span = left.span) (hlaid : left.LaidOut cs → n.LaidOut cs)
    (hsolid : left.isSolid = true → n.isSolid = true) : Extends cs left m := by
  intro s hs
  -- the node is replaced while it is the last thing that was made, before anything goes on from it
  have hgives := h s (hs.self.replace hspan (hlaid hs.laid) (hsolid hs.solid)).past
  rwa [hspan] at hgives

/-- What goes on from a node in another role goes on from the node. -/
theorem Extends.role {m : Reader Node} {role : Role} (h : Extends cs (left.withRole role) m) :
    Extends cs left m :=
  h.of_span_eq (left.span_withRole role) (fun hlaid => hlaid.withRole role)
    fun hsolid => Node.isSolid_withRole hsolid role

/-- What goes on from a node as one of a plain kind goes on from the node. -/
theorem Extends.kind {m : Reader Node} {kind : Kind} (h : Extends cs (left.withKind kind) m)
    (hkind : kind.isPlain = true) : Extends cs left m :=
  h.of_span_eq (left.span_withKind kind) (fun hlaid => hlaid.withKind hkind)
    fun _ => Node.isSolid_withKind hkind

/-- What goes on from a node that is laid out for another one goes on from that one. -/
theorem Extends.of_laidFor {m : Reader Node} {n : Node} (h : Extends cs n m)
    (hfor : Node.LaidFor cs left n) : Extends cs left m :=
  h.of_span_eq (Node.span_eq_of_face_eq hfor.face_eq) hfor.laid hfor.solid

/-- A reader that may go on from a node may leave it. -/
theorem Offers.none : Offers cs left (Pure.pure none) := fun _ _ => .pure rfl

/-- A reader that goes on from a node may do so, with its answer as one that is there. -/
theorem Extends.offer {m : Reader Node} (h : Extends cs left m) :
    Offers cs left (m >>= fun n => Pure.pure (Option.some n)) :=
  fun s hs => (h s hs).bind fun _ _ hn => .pure hn

theorem Extends.some {m : Reader Node} (h : Extends cs left m) :
    Offers cs left (Option.some <$> m) :=
  fun s hs => .map (h s hs)

/-- A node may be added. -/
theorem Spends.emit (n : Node) : Spends cs n (Reader.emit n) :=
  fun _ _ hs => .emit ⟨⟨[n], hs.grown⟩, Nat.le_refl _⟩

/-- What adds a node that stands in the place of another one goes on from that one. -/
theorem Spends.of_span_eq {n n' : Node} (h : Spends cs n' m) (hspan : n'.span = n.span)
    (hlaid : n.LaidOut cs → n'.LaidOut cs) (hsolid : n.isSolid = true → n'.isSolid = true) :
    Spends cs n m :=
  fun s₀ s hs => h s₀ s (hs.replace hspan (hlaid hs.past.laid) (hsolid hs.past.solid))

/-- A node may be added in a role. -/
theorem Spends.emit_withRole (n : Node) (role : Role) :
    Spends cs n (Reader.emit (n.withRole role)) :=
  (Spends.emit _).of_span_eq (n.span_withRole role) (fun hlaid => hlaid.withRole role)
    fun hsolid => Node.isSolid_withRole hsolid role

/-- A node may be added as one of a plain kind. -/
theorem Spends.emit_withKind (n : Node) {kind : Kind} (hkind : kind.isPlain = true) :
    Spends cs n (Reader.emit (n.withKind kind)) :=
  (Spends.emit _).of_span_eq (n.span_withKind kind) (fun hlaid => hlaid.withKind hkind)
    fun _ => Node.isSolid_withKind hkind

/-- A reader that adds a node may be followed by any other one. -/
theorem Spends.bind {n : Node} (hm : Spends cs n m) (hf : ∀ a, Moves cs (f a)) :
    Spends cs n (m >>= f) := by
  intro s₀ s hs
  refine (hm s₀ s hs).bind fun a s₁ ⟨⟨new, hnew⟩, hle⟩ => ?_
  refine (hf a s₁ hnew.stands).mono fun b s₂ ⟨more, hmore⟩ => ?_
  exact ⟨⟨more ++ new, hnew.trans hmore⟩, Nat.le_trans hle hmore.forward⟩

/-- A node that was made may be added, and more may follow. -/
theorem Meets.emits {m : Reader Node} {f : Unit → Reader β}
    (hm : Meets pre (Made cs) m) (hf : ∀ u, Moves cs (f u)) :
    Meets pre (Taken cs) (m >>= fun n => Reader.emit n >>= f) :=
  hm.spend fun n => (Spends.emit n).bind hf

/-- A node that was made may be added in a role, and more may follow. -/
theorem Meets.emits_withRole {m : Reader Node} {f : Unit → Reader β} {role : Role}
    (hm : Meets pre (Made cs) m) (hf : ∀ u, Moves cs (f u)) :
    Meets pre (Taken cs) (m >>= fun n => Reader.emit (n.withRole role) >>= f) :=
  hm.spend fun n => (Spends.emit_withRole n role).bind hf

/-- A node that was made may be added at the end. -/
theorem Meets.emit {m : Reader Node} (hm : Meets pre (Made cs) m) :
    Meets pre (Taken cs) (m >>= fun n => Reader.emit n) :=
  hm.spend Spends.emit

/-- A node that was made may be added in a role at the end. -/
theorem Meets.emit_withRole {m : Reader Node} {role : Role}
    (hm : Meets pre (Made cs) m) :
    Meets pre (Taken cs) (m >>= fun n => Reader.emit (n.withRole role)) :=
  hm.spend fun n => Spends.emit_withRole n role

/-- What follows a node that was made and added leaves something solid. -/
theorem Meets.fills {m : Reader Node} {f : Unit → Reader β} (hm : Meets pre (Made cs) m)
    (hf : ∀ u, Moves cs (f u)) : Meets pre (Filled cs) (m >>= fun n => Reader.emit n >>= f) := by
  intro s hs
  refine (hm s hs).bind fun n s₁ hn => Ensures.emit_bind ?_
  refine (hf () _ hn.grown.stands).mono fun b s₂ ⟨more, hmore⟩ => ?_
  refine ⟨⟨more ++ [n], hn.grown.trans hmore, n, by simp, hn.past.solid⟩, ?_⟩
  have hforward : s₁.offset ≤ s₂.offset := hmore.forward
  exact Nat.lt_of_le_of_lt hn.after
    (Nat.lt_of_lt_of_le hn.past.within.2.1 (Nat.le_trans hn.past.within.2.2 hforward))

/-- A reader that leaves something solid may follow any other one. -/
theorem Meets.bind_fills (hm : Meets pre (Moved cs) m) (hf : ∀ a, Fills cs (f a)) :
    Meets pre (Filled cs) (m >>= f) := by
  intro s hs
  refine (hm s hs).bind fun a s₁ ⟨new, hnew⟩ => ?_
  refine (hf a s₁ hnew.stands).mono fun b s₂ ⟨⟨more, hmore, c, hc, hsolid⟩, hlt⟩ => ?_
  exact ⟨⟨more ++ new, hnew.trans hmore, c, List.mem_append_left _ hc, hsolid⟩,
    Nat.lt_of_le_of_lt hnew.forward hlt⟩

/-- A node that was made may be given as one of a plain kind that is there. -/
theorem Makes.find {m : Reader Node} {kind : Kind} (h : Makes cs m) (hkind : kind.isPlain = true) :
    Finds cs (m >>= fun n => Pure.pure (some (n.withKind kind))) :=
  fun s hs => (h s hs).bind fun n _ hn =>
    .pure (hn.replace (n.span_withKind kind) (hn.past.laid.withKind hkind)
      (Node.isSolid_withKind hkind))

/-- What follows a node that may be there goes on from it, or from the same state. -/
theorem Finds.extend {m : Reader (Option Node)} {f : Option Node → Reader Node} (hm : Finds cs m)
    (hpre : ∀ s, pre s → InText cs s) (hsome : ∀ n, Extends cs n (f (some n)))
    (hnone : Meets pre (Made cs) (f none)) : Meets pre (Made cs) (m >>= f) := by
  intro s hs
  refine (hm s (hpre s hs)).bind fun answer s₁ hanswer => ?_
  cases answer with
  | some n => exact (hsome n s₁ hanswer.past).mono fun n' s₂ hn' => hanswer.trans hn'
  | none =>
    rw [show s₁ = s from hanswer]
    exact hnone s hs

/-- What follows a node that may be there adds it, or goes on from the same state. -/
theorem Finds.spend {m : Reader (Option Node)} {f : Option Node → Reader β} (hm : Finds cs m)
    (hsome : ∀ n, Spends cs n (f (some n))) (hnone : Moves cs (f none)) : Moves cs (m >>= f) := by
  intro s hs
  refine (hm s hs).bind fun answer s₁ hanswer => ?_
  cases answer with
  | some n => exact (hsome n s s₁ hanswer).mono fun b s₂ h => h.1
  | none =>
    rw [show s₁ = s from hanswer]
    exact hnone s hs

/-- A look ahead changes nothing for what may add a node. -/
theorem Looks.spend {n : Node} (hm : Looks m) (hf : ∀ a, Spends cs n (f a)) :
    Spends cs n (m >>= f) :=
  fun s₀ => hm.bind fun a => hf a s₀

end Together

/-! ## Readers that go back -/

section Back

variable {pre : ReaderState → Prop} {post : β → ReaderState → Prop} {p : α → Prop}

/-- Wherever the reader starts, it ends with the property. -/
abbrev Anywhere (post : α → ReaderState → Prop) (m : Reader α) : Prop :=
  Meets (fun _ => True) (fun _ => post) m

/-- All answers of the reader have the property. -/
abbrev Answers (p : α → Prop) (m : Reader α) : Prop := Anywhere (fun a _ => p a) m

theorem Answers.pure {a : α} (h : p a) : Answers p (Pure.pure a : Reader α) := fun _ _ => .pure h

/-- What follows a reader ends with a property if it does so wherever it starts. -/
theorem Anywhere.bind {m : Reader α} {f : α → Reader β} (hf : ∀ a, Anywhere post (f a)) :
    Anywhere post (m >>= f) :=
  fun _ _ => Ensures.bind (fun _ _ _ => trivial) fun a s' (_ : True) => hf a s' trivial

/-- What follows the way back starts where the way back leads. -/
theorem Ensures.set {s : ReaderState} {f : PUnit → Reader β} (h : Ensures s (f ⟨⟩) post) :
    Anywhere post (set s >>= f) :=
  fun _ _ => h

/-- What follows a look at the state may use the state. -/
theorem Ensures.get {s : ReaderState} {f : ReaderState → Reader β} (h : Ensures s (f s) post) :
    Ensures s (get >>= f) post :=
  h

/-- A reader that keeps its state may go anywhere before it goes back. -/
theorem Meets.get {post : ReaderState → β → ReaderState → Prop} {f : ReaderState → Reader β}
    (h : ∀ s, pre s → Anywhere (post s) (f s)) : Meets pre post (MonadState.get >>= f) :=
  fun s hs => Ensures.get (h s hs s trivial)

/-- What follows a look ahead may use the property that all answers have. -/
theorem Looks.bind_of {post : ReaderState → β → ReaderState → Prop} {m : Reader α}
    {f : α → Reader β} (hm : Looks m) (hp : Answers p m) (hf : ∀ a, p a → Meets pre post (f a)) :
    Meets pre post (m >>= f) := by
  intro s hs b s₂ hrun
  obtain ⟨⟨a, s₁⟩, ha, hb⟩ := Option.bind_eq_some_iff.1 hrun
  obtain rfl : s₁ = s := hm s trivial a s₁ ha
  exact hf a (hp s₁ trivial a s₁ ha) s₁ hs b s₂ hb

/-- What follows a node may use the property that all answers have, and go on from another node in
its place. -/
theorem Makes.extend_of {m : Reader Node} {f : Node → Reader Node} {p : Node → Prop}
    {g : Node → Node}
    (hm : Meets (InText cs) (fun s n s' => Made cs s (g n) s') m) (hp : Answers p m)
    (hf : ∀ n, p n → Extends cs (g n) (f n)) : Makes cs (m >>= f) := by
  intro s hs b s₂ hrun
  obtain ⟨⟨n, s₁⟩, hn, hb⟩ := Option.bind_eq_some_iff.1 hrun
  have hgives := hm s hs n s₁ hn
  exact hgives.trans (hf n (hp s trivial n s₁ hn) s₁ hgives.past b s₂ hb)

end Back

/-! ## Repetition -/

section Repetition

variable {step : α → Reader (Option α)} {left : Node}

/-- A bounded repetition goes forward if each of its steps does. -/
theorem Moves.repeatFor (h : ∀ a, Moves cs (step a)) (n : ℕ) (a : α) :
    Moves cs (repeatFor step n a) := by
  -- the bound is no limit on what is read: a repetition that reaches it fails
  induction n generalizing a with
  | zero => exact .failure
  | succ n ih =>
    refine (h a).bind_moved fun answer => ?_
    cases answer with
    | some b => exact ih b
    | none => exact .pure a

theorem looks_get : Looks (get : Reader ReaderState) := fun _ _ => .pure rfl

/-- A repetition goes forward if each of its steps does. -/
theorem Moves.repeating (h : ∀ a, Moves cs (step a)) (a : α) : Moves cs (repeating step a) :=
  looks_get.bind fun s => Moves.repeatFor h s.limit a

/-- Something that is repeated takes a character if each step does. -/
theorem Takes.repeating (h : ∀ a, Takes cs (step a)) (a : α) : Takes cs (repeating step a) := by
  refine looks_get.bind fun s => ?_
  cases s.limit with
  | zero => exact .failure
  | succ n =>
    refine (h a).bind_taken fun answer => ?_
    cases answer with
    | some b => exact Moves.repeatFor (fun a => (h a).moved) n b
    | none => exact .pure a

/-- A repetition that counts nothing goes forward if its step does. -/
theorem Moves.repeatWhile {step : Reader Bool} (h : Moves cs step) : Moves cs (repeatWhile step) :=
  .repeating (fun _ => h.bind_moved fun _ => .pure _) ()

/-- A repetition that counts nothing takes a character if its step does. -/
theorem Takes.repeatWhile {step : Reader Bool} (h : Takes cs step) : Takes cs (repeatWhile step) :=
  .repeating (fun _ => h.bind_taken fun _ => .pure _) ()

/-- Steps that go on from a node go on from the first one. -/
theorem Extends.repeatFor {step : Node → Reader (Option Node)} (h : ∀ n, Offers cs n (step n))
    (k : ℕ) (left : Node) : Extends cs left (repeatFor step k left) := by
  -- every step goes on from the node made so far, so the node is generalized
  induction k generalizing left with
  | zero => exact .failure
  | succ k ih =>
    intro s hs
    refine (h left s hs).bind fun answer s₁ hanswer => ?_
    cases answer with
    | some n => exact (ih n s₁ hanswer.past).mono fun n' s₂ hn' => hanswer.trans hn'
    | none =>
      rw [show s₁ = s from hanswer]
      exact .pure hs.self

/-- A repetition of steps that go on from a node goes on from the first one. -/
theorem Extends.repeating {step : Node → Reader (Option Node)} (h : ∀ n, Offers cs n (step n))
    (left : Node) : Extends cs left (repeating step left) :=
  looks_get.bind fun s => Extends.repeatFor h s.limit left

end Repetition

/-! ## The building blocks -/

section Blocks

theorem looks_rest : Looks rest := fun _ _ => .pure rfl

/-- A condition only looks. -/
theorem looks_require (c : Bool) : Looks (require c) := by
  cases c with
  | false => exact .failure
  | true => exact Looks.pure ()

theorem looks_peek (markup : Bool) : Looks (peek markup) := fun _ _ => .pure rfl

theorem looks_peekPast (n : ℕ) : Looks (peekPast n) := fun _ _ => .pure rfl

theorem looks_followedBy (text : String) : Looks (followedBy text) := fun _ _ => .pure rfl

theorem looks_impliesSemicolonPast (operators : Bool) (n : ℕ) :
    Looks (impliesSemicolonPast operators n) :=
  fun _ _ => .pure rfl

theorem looks_impliesSemicolon (operators : Bool) : Looks (impliesSemicolon operators) :=
  looks_impliesSemicolonPast operators 0

/-- Whether an expression ends ahead is found by a look. -/
theorem looks_ends (context : Context) : Looks (ends context) := by
  unfold ends
  split
  · exact looks_impliesSemicolon true
  · exact .pure false

/-- Blanks and comments ahead: the comments are laid out, one behind the other. -/
theorem skipTrivia_spec (markup : Bool) :
    ∀ (limit : ℕ) (s : ReaderState), s.cursor.At cs →
      ∃ new, Grown cs s { s with
        nodes := (skipTrivia markup limit s.nodes s.cursor).1
        cursor := (skipTrivia markup limit s.nodes s.cursor).2 } new
  | 0, s, hs => ⟨[], hs.advance _, Cursor.offset_le_offset_advance _ _, rfl, by simp, by simp,
      .nil⟩
  | limit + 1, s, hs => by
    have hblanks : s.cursor.skipBlanks.At cs := hs.advance _
    have hle : s.offset ≤ s.cursor.skipBlanks.position.offset :=
      Cursor.offset_le_offset_advance _ _
    -- one comment with the blanks before it is taken in each round
    cases hcomment : s.cursor.skipBlanks.comment? markup with
    | none =>
      simp only [skipTrivia, hcomment]
      exact ⟨[], hblanks, hle, rfl, by simp, by simp, .nil⟩
    | some found =>
      obtain ⟨node, n⟩ := found
      simp only [skipTrivia, hcomment]
      obtain ⟨hlaid, hwithin⟩ := hblanks.comment? hcomment
      -- the comment is made of the text behind the blanks, and the rest follows it
      have hfirst : Grown cs s
          { s with nodes := node :: s.nodes, cursor := s.cursor.skipBlanks.advance n } [node] :=
        ⟨hblanks.advance n, Nat.le_trans hle (Cursor.offset_le_offset_advance _ _), rfl,
          List.forall_mem_singleton.2 hlaid,
          List.forall_mem_singleton.2 (hwithin.mono hle (Nat.le_refl _)),
          List.pairwise_singleton ..⟩
      obtain ⟨new, hnew⟩ := skipTrivia_spec markup limit _ hfirst.stands
      exact ⟨new ++ [node], hfirst.trans hnew⟩

/-- Blanks and comments ahead are passed. -/
theorem moves_gap (markup : Bool) : Moves cs (gap markup) := by
  intro s hs u s' hrun
  cases hrun
  exact skipTrivia_spec markup s.limit s hs

/-- To take characters goes forward, even if they are not there. -/
theorem moves_take (n : ℕ) : Moves cs (take n) := by
  intro s hs u s' hrun
  cases hrun
  exact ⟨[], hs.advance n, Cursor.offset_le_offset_advance n _, rfl, by simp, by simp, .nil⟩

/-- Characters that are there can be taken. -/
theorem skips_take {ahead : List Char} {n : ℕ} (hn : n ≠ 0) (hahead : ahead ≠ []) :
    Meets (Facing cs ahead) (fun s _ s' => Grown cs s s' [] ∧ s.offset < s'.offset) (take n) := by
  rintro s ⟨hs, rfl⟩ u s' hrun
  cases hrun
  exact ⟨⟨hs.advance n, Cursor.offset_le_offset_advance n _, rfl, by simp, by simp, .nil⟩,
    Cursor.offset_lt_offset_advance hn hahead⟩

/-- To take characters that are there takes a character. -/
theorem takes_take {ahead : List Char} {n : ℕ} (hn : n ≠ 0) (hahead : ahead ≠ []) :
    Meets (Facing cs ahead) (Taken cs) (take n) :=
  (skips_take hn hahead).mono fun _ _ _ h => ⟨⟨[], h.1⟩, h.2⟩

/-- Characters that are there make a leaf. -/
theorem makes_leaf {ahead : List Char} {kind : Kind} {n : ℕ} (hn : n ≠ 0) (hahead : ahead ≠ [])
    (hkind : kind.isLeaf = true) :
    Meets (Facing cs ahead) (Made cs) (leaf kind n) := by
  rintro s ⟨hs, rfl⟩ node s' hrun
  cases hrun
  simp only [Kind.isLeaf, Bool.and_eq_true, decide_eq_true_eq] at hkind
  obtain ⟨⟨hdeclarator, hparens⟩, hsolid⟩ := hkind
  -- a leaf is solid, and a comment is not
  have hcomment : kind ≠ .comment := by
    rintro rfl
    cases hsolid
  exact ⟨⟨hs.advance n, hs.laidOut_leaf n ⟨hdeclarator, hparens, hcomment⟩, hsolid,
    (Cursor.within_leaf hn hahead).mono (Nat.zero_le _) (Nat.le_refl _)⟩, Nat.le_refl _, rfl,
    Cursor.offset_le_offset_advance n _⟩

/-- Where a name is ahead, something is ahead. -/
theorem ne_nil_of_nameAt_ne {ahead : List Char} (h : nameAt ahead ≠ "") : ahead ≠ [] := by
  rintro rfl
  exact h rfl

/-- Where a punctuator is ahead, something is ahead. -/
theorem ne_nil_of_punctuatorAt_ne {ahead : List Char} (h : punctuatorAt ahead ≠ "") :
    ahead ≠ [] := by
  rintro rfl
  exact h rfl

/-- Where a name of some length is ahead, something is ahead. -/
theorem ne_nil_of_nameLength_ne {ahead : List Char} (h : nameLength ahead ≠ 0) :
    ahead ≠ [] := by
  rintro rfl
  exact h rfl

theorem length_ne_zero {text : String} (h : text ≠ "") : text.length ≠ 0 :=
  fun hlength => h (String.length_eq_zero_iff.1 hlength)

/-- A punctuator that is ahead is taken, and no node is added for it. -/
theorem skips_sign {text : String} (h : text ≠ "") : Skips cs (sign text) := by
  refine Meets.rest fun ahead => Meets.require fun hmark => ?_
  have hahead : punctuatorAt ahead = text := of_decide_eq_true hmark
  exact skips_take (length_ne_zero h) (ne_nil_of_punctuatorAt_ne (hahead ▸ h))

/-- A word that is ahead is taken, and no node is added for it. -/
theorem skips_word {text : String} (h : text ≠ "") : Skips cs (word text) := by
  refine Meets.rest fun ahead => Meets.require fun hname => ?_
  have hahead : nameAt ahead = text := of_decide_eq_true hname
  exact skips_take (length_ne_zero h) (ne_nil_of_nameAt_ne (hahead ▸ h))

theorem moves_word (text : String) : Moves cs (word text) :=
  looks_rest.bind fun _ => .require fun _ => moves_take _

theorem takes_sign {text : String} (h : text ≠ "") : Takes cs (sign text) := (skips_sign h).takes

theorem takes_word {text : String} (h : text ≠ "") : Takes cs (word text) := (skips_word h).takes

/-- A punctuator behind blanks and comments is taken. -/
theorem takes_expect {text : String} (h : text ≠ "") : Takes cs (expect text) :=
  (moves_gap true).moved_bind fun _ => takes_sign h

/-- A punctuator behind an operand is taken, with the blanks and comments before it. -/
theorem takes_expectAfter {text : String} (h : text ≠ "") : Takes cs (expectAfter text) :=
  (moves_gap false).moved_bind fun _ => takes_sign h

/-- A mark is added, while no reader makes one. -/
theorem takes_mark {text : String} (h : text ≠ "") : Takes cs (mark text) := by
  refine Meets.rest fun ahead => Meets.require fun hmark => ?_
  have hahead : punctuatorAt ahead = text := of_decide_eq_true hmark
  have hne := ne_nil_of_punctuatorAt_ne (hahead ▸ h)
  rintro s ⟨hs, rfl⟩ u s' hrun
  cases hrun
  have hlt := Cursor.offset_lt_offset_advance (length_ne_zero h) hne
  exact ⟨⟨[_], hs.advance _, Nat.le_of_lt hlt, rfl,
    List.forall_mem_singleton.2 (hs.laidOut_leaf _ (by decide)),
    List.forall_mem_singleton.2 (Cursor.within_leaf (length_ne_zero h) hne),
    List.pairwise_singleton ..⟩, hlt⟩

/-- A name that is ahead makes a leaf. -/
theorem makes_name {kind : Kind} (hkind : kind.isLeaf = true) : Makes cs (name kind) := by
  refine Meets.rest fun ahead => Meets.require fun hname => ?_
  have hne : nameAt ahead ≠ "" := of_decide_eq_true (Bool.and_eq_true_iff.1 hname).1
  exact makes_leaf (length_ne_zero hne) (ne_nil_of_nameAt_ne hne) hkind

/-- A semicolon is taken unless it is implied. -/
theorem moves_semicolon (operators : Bool) : Moves cs (semicolon operators) := by
  refine (looks_impliesSemicolon operators).bind fun implied => ?_
  split
  · exact Moves.pure ()
  · exact (takes_expectAfter (by decide)).moved

/-- A construct of the goal behind blanks and comments is added. -/
theorem takes_child {read : Goal → Reader Node} (hread : ∀ goal, Makes cs (read goal))
    (goal : Goal) : Takes cs (child read goal) :=
  (moves_gap true).moved_bind fun _ => (hread goal).emit

end Blocks

/-! ## Enclosing readers -/

section Enclosing

variable {s : ReaderState} {start : Position} {first : List Node} {left : Node} {kind : Kind}

/-- The node that an enclosing reader makes, and the state that it leaves. -/
theorem Ensures.encloseFrom {body : Reader Kind} {post : Node → ReaderState → Prop}
    (h : Ensures { s with nodes := first } body fun kind t =>
      post (.mk ⟨0, kind, .plain, ⟨start, t.offset⟩, ""⟩ t.nodes.reverse)
        { t with nodes := s.nodes }) :
    Ensures s (encloseFrom start first body) post := by
  intro n s' hrun
  obtain ⟨⟨kind, t⟩, hbody, hrest⟩ := Option.bind_eq_some_iff.1 hrun
  cases hrest
  exact h kind t hbody

/-- A construct of a plain kind is made of something that takes a character. -/
theorem Meets.encloseAs {ahead : List Char} {body : Reader Kind}
    (h : Meets (Facing cs ahead) (Taken cs) body) (hkind : Answers (·.isPlain = true) body) :
    Meets (Facing cs ahead) (Made cs) (Reader.encloseAs body) := by
  intro s hs
  refine Ensures.encloseFrom fun kind t hbody => ?_
  have hopen : Facing cs ahead { s with nodes := [] } := hs
  obtain ⟨⟨new, hnew⟩, hlt⟩ := h _ hopen kind t hbody
  have hplain := hkind _ trivial kind t hbody
  exact hnew.gives hlt (Kind.isSolid_of_isPlain hplain)
    ((Opened.nil hs.1).laidOut_plain hnew hplain)

/-- A construct of a plain kind is made of something that takes a character, in front of a given
text. -/
theorem Meets.enclose {ahead : List Char} {body : Reader Unit}
    (h : Meets (Facing cs ahead) (Taken cs) body) (hkind : kind.isPlain = true) :
    Meets (Facing cs ahead) (Made cs) (Reader.enclose kind body) :=
  .encloseAs (h.bind_taken fun _ => .pure _) (Anywhere.bind fun _ => Answers.pure hkind)

/-- A construct of a plain kind that its body decides on is made of something that takes a
character. -/
theorem Makes.encloseAs {body : Reader Kind} (h : Takes cs body)
    (hkind : Answers (·.isPlain = true) body) : Makes cs (Reader.encloseAs body) :=
  fun s hs => h.facing.encloseAs hkind s ⟨hs, rfl⟩

/-- A construct of a plain kind is made of something that takes a character. -/
theorem Makes.enclose {body : Reader Unit} (h : Takes cs body) (hkind : kind.isPlain = true) :
    Makes cs (Reader.enclose kind body) :=
  fun s hs => h.facing.enclose hkind s ⟨hs, rfl⟩

/-- Parentheses are made of something solid. -/
theorem Makes.enclose_filled {body : Reader Unit} (h : Fills cs body) :
    Makes cs (Reader.enclose .parenthesized body) := by
  intro s hs
  refine Ensures.encloseFrom (Ensures.bind (h _ hs) fun u t ht => .pure ?_)
  obtain ⟨⟨new, hnew, hsolid⟩, hlt⟩ := ht
  exact hnew.gives hlt rfl ((Opened.nil hs).laidOut_parenthesized hnew hsolid)

/-- A construct of any kind would be made if it were one of a plain kind. -/
theorem Makes.enclose_withKind {body : Reader Unit} {plain : Kind} (h : Takes cs body)
    (hplain : plain.isPlain = true) :
    Meets (InText cs) (fun s n s' => Made cs s (n.withKind plain) s')
    (Reader.enclose kind body) := by
  intro s hs
  refine Ensures.encloseFrom (Ensures.bind (h _ hs) fun u t ht => .pure ?_)
  obtain ⟨⟨new, hnew⟩, hlt⟩ := ht
  exact hnew.gives hlt (Kind.isSolid_of_isPlain hplain) ((Opened.nil hs).laidOut_plain hnew hplain)

/-- A construct of a plain kind is laid out and ends in the text even if nothing was taken for
it. -/
theorem Moves.enclose {body : Reader Unit} (h : Moves cs body) (hkind : kind.isPlain = true) :
    Meets (InText cs) (fun _ n _ => n.LaidOut cs ∧ n.EndsIn cs) (Reader.enclose kind body) := by
  intro s hs
  refine Ensures.encloseFrom (Ensures.bind (h _ hs) fun _ t ⟨new, hnew⟩ => .pure ?_)
  exact ⟨(Opened.nil hs).laidOut_plain hnew hkind, _, hnew.stands.inText, rfl⟩

/-- What an enclosing reader makes is of the kind given. -/
theorem answers_enclose {body : Reader Unit} :
    Answers (·.kind = kind) (Reader.enclose kind body) := by
  intro s _
  refine Ensures.encloseFrom (Ensures.bind (fun _ _ _ => trivial) fun _ _ (_ : True) => ?_)
  exact .pure rfl

/-- A construct of a tight kind is made of something that begins with a token. -/
theorem Makes.enclose_led {body : Reader Unit} (h : Leads cs body) (hkind : kind.isTight = true) :
    Makes cs (Reader.enclose kind body) := by
  intro s hs
  refine Ensures.encloseFrom (Ensures.bind (h _ hs) fun u t ht => .pure ?_)
  obtain ⟨t₀, new, hskip, hlt, hnew⟩ := ht
  exact (hskip.trans hnew).gives (Nat.lt_of_lt_of_le hlt hnew.forward)
    (Kind.isSolid_of_isTight hkind)
    (Grown.laidOut_tight hs hskip hlt hnew hkind)

/-- A construct that goes on from a node, of a plain kind. -/
theorem Extends.encloseFrom {body : Reader Kind} (hstart : left.span.start = start)
    (h : Moves cs body) (hkind : Answers (·.isPlain = true) body) :
    Extends cs left (Reader.encloseFrom start [left] body) := by
  subst hstart
  intro s hs
  refine Ensures.encloseFrom fun kind t hbody => ?_
  obtain ⟨new, hnew⟩ := h _ (show InText cs { s with nodes := [left] } from hs.stands) kind t hbody
  -- the node that is gone on from takes a character, so the body need not
  have hlt : left.span.start.offset < t.offset :=
    Nat.lt_of_lt_of_le hs.within.2.1 (Nat.le_trans hs.within.2.2 hnew.forward)
  have hplain := hkind _ trivial kind t hbody
  exact hnew.gives hlt (Kind.isSolid_of_isPlain hplain) (hs.opened.laidOut_plain hnew hplain)

/-- A construct of a plain kind goes on from a node with anything that goes forward. -/
theorem Extends.extend {body : Reader Unit} (h : Moves cs body) (hkind : kind.isPlain = true) :
    Extends cs left (Reader.extend left kind body) :=
  .encloseFrom rfl (h.bind_moved fun _ => .pure _) (Anywhere.bind fun _ => Answers.pure hkind)

/-- A construct of a tight kind goes on from a node with something that takes a character. -/
theorem Extends.extend_taken {body : Reader Unit} (h : Takes cs body)
    (hkind : kind.isTight = true) : Extends cs left (Reader.extend left kind body) := by
  intro s hs
  refine Ensures.encloseFrom (Ensures.bind (h _ hs.stands) fun u t ht => .pure ?_)
  obtain ⟨⟨new, hnew⟩, hlt⟩ := ht
  -- the kind has to be wider than the node and than what the body adds
  have hstart : left.span.start.offset < s.offset :=
    Nat.lt_of_lt_of_le hs.within.2.1 hs.within.2.2
  exact hnew.gives (Nat.lt_trans hstart hlt) (Kind.isSolid_of_isTight hkind)
    (hs.opened.laidOut_tight hnew hkind hstart hlt)

/-- A declarator goes on from what it declares. -/
theorem Extends.extend_declarator {body : Reader Unit} (h : Moves cs body)
    (hrole : left.head.role = .name) : Extends cs left (Reader.extend left .declarator body) := by
  intro s hs
  refine Ensures.encloseFrom (Ensures.bind (h _ hs.stands) fun u t ht => .pure ?_)
  obtain ⟨new, hnew⟩ := ht
  have hlt : left.span.start.offset < t.offset :=
    Nat.lt_of_lt_of_le hs.within.2.1 (Nat.le_trans hs.within.2.2 hnew.forward)
  exact hnew.gives hlt rfl (hs.opened.laidOut_declarator hnew hrole)

end Enclosing

end Reader

end LoaderLint.Script
