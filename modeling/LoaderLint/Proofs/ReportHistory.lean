import LoaderLint.Proofs.ReportSink
import Mathlib.Data.List.Dedup
import Mathlib.Data.List.Perm.Subperm

/-!
# Runs of requests

A sink is given requests one after the other, at the same node as often as one likes, with labels
or without. The first request at a node decides what is recorded for it. That it was dropped
because of a directive counts too, so nothing is recorded for such a node later on.

The module introduces:

* `Request.firsts` — the first request at each node;
* `Sink.recordedAt` — what the requests at a node add to the findings in the course of a run.

`Sink.addedAt_eq` says what the requests at a node add to a sink with any past, one request at a
time. The main result is `Sink.findings_reportAll_first_wins`: the findings of a run are the
outcomes of the first requests, and what is recorded for a node depends on no request at another
one.
-/

namespace LoaderLint

open Script (Node)

/-! ## First requests -/

namespace Request

/-- The first request at each node, in the order of the requests. -/
def firsts : List Request → List Request
  | [] => []
  | r :: rest => r :: (firsts rest).filter (·.node.id ≠ r.node.id)

/-- The first requests are some of the requests, in their order. -/
theorem firsts_sublist (rs : List Request) : (firsts rs).Sublist rs := by
  induction rs with
  | nil => exact List.Sublist.refl _
  | cons r rest ih => exact (List.filter_sublist.trans ih).cons_cons r

/-- No two of the first requests are at the same node. -/
theorem nodup_firsts (rs : List Request) : ((firsts rs).map (·.node.id)).Nodup := by
  induction rs with
  | nil => exact List.nodup_nil
  | cons r rest ih =>
    rw [firsts, List.map_cons, List.nodup_cons]
    constructor
    · -- the others were kept because they are at other nodes
      intro hmem
      obtain ⟨q, hq, heq⟩ := List.mem_map.1 hmem
      have hne := (List.mem_filter.1 hq).2
      exact of_decide_eq_true hne heq
    · exact ih.sublist (List.filter_sublist.map _)

/-- Requests at another node make no difference to the first one at a node. -/
theorem find?_filter_ne {id other : ℕ} (hne : other ≠ id) (rs : List Request) :
    (rs.filter (·.node.id ≠ id)).find? (·.node.id = other) = rs.find? (·.node.id = other) := by
  rw [List.find?_filter]
  congr 1
  funext q
  by_cases hq : q.node.id = other
  · simp [hq, hne]
  · simp [hq]

/-- At each node, the first of the first requests is the first of all requests. -/
theorem find?_firsts (id : ℕ) (rs : List Request) :
    (firsts rs).find? (·.node.id = id) = rs.find? (·.node.id = id) := by
  induction rs with
  | nil => rfl
  | cons r rest ih =>
    rw [firsts, List.find?_cons, List.find?_cons]
    by_cases hr : r.node.id = id
    · simp [hr]
    · have hne : id ≠ r.node.id := fun h => hr h.symm
      simp only [hr, decide_false]
      rw [find?_filter_ne hne, ih]

/-- Leaving out the requests at a node leaves out the first one at it. -/
theorem firsts_filter_ne (id : ℕ) (rs : List Request) :
    firsts (rs.filter (·.node.id ≠ id)) = (firsts rs).filter (·.node.id ≠ id) := by
  induction rs with
  | nil => rfl
  | cons r rest ih =>
    by_cases hr : r.node.id = id
    · rw [List.filter_cons_of_neg (by simp [hr]), ih, firsts,
        List.filter_cons_of_neg (by simp [hr]), hr, List.filter_filter]
      simp
    · rw [List.filter_cons_of_pos (by simp [hr]), firsts, ih, firsts,
        List.filter_cons_of_pos (by simp [hr]), List.filter_comm]

/-- One more request is a first one unless there was one at its node before. -/
theorem firsts_append (rs : List Request) (r : Request) :
    firsts (rs ++ [r]) = firsts rs ++ if ∃ q ∈ rs, q.node.id = r.node.id then [] else [r] := by
  induction rs with
  | nil => simp [firsts]
  | cons first rest ih =>
    rw [List.cons_append, firsts, ih, List.filter_append, firsts, List.cons_append]
    -- the request is dropped by the first one, by the rest, or by neither
    by_cases hfirst : first.node.id = r.node.id
    · have hdropped : ([r] : List Request).filter (·.node.id ≠ first.node.id) = [] := by
        simp [hfirst]
      have hseen : ∃ q ∈ first :: rest, q.node.id = r.node.id :=
        ⟨first, List.mem_cons_self, hfirst⟩
      rw [if_pos hseen]
      split
      · rfl
      · rw [hdropped]
    · have hkept : ([r] : List Request).filter (·.node.id ≠ first.node.id) = [r] := by
        have hne : r.node.id ≠ first.node.id := fun h => hfirst h.symm
        simp [hne]
      by_cases hrest : ∃ q ∈ rest, q.node.id = r.node.id
      · obtain ⟨q, hq, heq⟩ := hrest
        rw [if_pos ⟨q, hq, heq⟩, if_pos ⟨q, List.mem_cons_of_mem first hq, heq⟩]
        rfl
      · have hnew : ¬∃ q ∈ first :: rest, q.node.id = r.node.id := by
          rintro ⟨q, hq, heq⟩
          rcases List.mem_cons.1 hq with rfl | hq
          · exact hfirst heq
          · exact hrest ⟨q, hq, heq⟩
        rw [if_neg hrest, if_neg hnew, hkept]

/-- The first request at a node stands between those at other nodes. -/
theorem exists_firsts_eq_append (id : ℕ) (rs : List Request) :
    ∃ before after, firsts rs = before ++ (rs.find? (·.node.id = id)).toList ++ after ∧
      firsts (rs.filter (·.node.id ≠ id)) = before ++ after := by
  rw [firsts_filter_ne, ← find?_firsts]
  cases hfound : (firsts rs).find? (·.node.id = id) with
  | none =>
    refine ⟨firsts rs, [], by simp, ?_⟩
    rw [List.append_nil, List.filter_eq_self]
    intro q hq
    simpa using List.find?_eq_none.1 hfound q hq
  | some r =>
    obtain ⟨hr, before, after, hsplit, hbefore⟩ := List.find?_eq_some_iff_append.1 hfound
    have hid : r.node.id = id := of_decide_eq_true hr
    refine ⟨before, after, by simp [hsplit], ?_⟩
    have hnodup := nodup_firsts rs
    rw [hsplit, List.map_append, List.map_cons, List.nodup_append', List.nodup_cons] at hnodup
    obtain ⟨-, ⟨hafter, -⟩, -⟩ := hnodup
    rw [hsplit, List.filter_append, List.filter_cons_of_neg (by simp [hid])]
    congr 1
    · rw [List.filter_eq_self]
      intro q hq
      simpa using hbefore q hq
    · -- behind it there is no other first request at its node
      rw [List.filter_eq_self]
      intro q hq
      have hne : q.node.id ≠ id := fun h => hafter (List.mem_map.2 ⟨q, hq, h.trans hid.symm⟩)
      simpa using hne

end Request

/-! ## What is recorded for a node -/

namespace Sink

variable (p : Profile) (s : Subject)

/-- What the requests at the node with the number `id` add to the findings of a sink, one request
after the other. -/
def addedAt (id : ℕ) : Sink → List Request → List Finding
  | _, [] => []
  | sink, r :: rest =>
    (if r.node.id = id then (sink.report p s r).findings.drop sink.findings.length else []) ++
      addedAt id (sink.report p s r) rest

/-- What the requests at the node with the number `id` add to the findings of a run. -/
def recordedAt (id : ℕ) (rs : List Request) : List Finding := addedAt p s id empty rs

/-- To a sink that has not seen the node, requests add what becomes of the first one at it. -/
theorem addedAt_eq (id : ℕ) (sink : Sink) (rs : List Request) :
    addedAt p s id sink rs = if id ∈ sink.seen then []
      else ((rs.find? (·.node.id = id)).bind (Request.outcome p s)).toList := by
  induction rs generalizing sink with
  | nil => simp [addedAt]
  | cons r rest ih =>
    rw [addedAt, ih, findings_report, List.drop_left, List.find?_cons]
    simp only [mem_seen_report]
    by_cases hr : r.node.id = id
    · -- whatever the request adds, the node is seen from now on
      subst hr
      simp
    · have hne : id ≠ r.node.id := fun h => hr h.symm
      simp [hr, hne]

/-- What is recorded for a node is what becomes of the first request at it. -/
theorem recordedAt_eq (id : ℕ) (rs : List Request) :
    recordedAt p s id rs =
      ((rs.find? (·.node.id = id)).bind (Request.outcome p s)).toList := by
  rw [recordedAt, addedAt_eq, if_neg (by simp [empty])]

/-- What is recorded for a node depends on the requests at it only. -/
theorem recordedAt_filter {id other : ℕ} (hne : other ≠ id) (rs : List Request) :
    recordedAt p s other (rs.filter (·.node.id ≠ id)) = recordedAt p s other rs := by
  rw [recordedAt_eq, recordedAt_eq, Request.find?_filter_ne hne]

/-! ## Findings of a run -/

/-- The findings of a run are what becomes of the first requests. -/
theorem findings_eq_filterMap_firsts (rs : List Request) :
    (reportAll p s rs).findings = (Request.firsts rs).filterMap (Request.outcome p s) := by
  induction rs using List.reverseRecOn with
  | nil => rfl
  | append_singleton rs r ih =>
    rw [findings_reportAll_append, Request.firsts_append, List.filterMap_append, ih]
    congr 1
    split
    · rfl
    · cases houtcome : r.outcome p s <;> simp [houtcome]

/-- There are no more findings than nodes that were asked about. -/
theorem length_findings_le (rs : List Request) :
    (reportAll p s rs).findings.length ≤ (rs.map (·.node.id)).dedup.length := by
  have hsubset : (Request.firsts rs).map (·.node.id) ⊆ (rs.map (·.node.id)).dedup := by
    intro id hid
    rw [List.mem_dedup]
    exact ((Request.firsts_sublist rs).map _).subset hid
  calc (reportAll p s rs).findings.length
      = ((Request.firsts rs).filterMap (Request.outcome p s)).length := by
        rw [findings_eq_filterMap_firsts]
    _ ≤ (Request.firsts rs).length := List.length_filterMap_le _ _
    _ = ((Request.firsts rs).map (·.node.id)).length := (List.length_map _).symm
    _ ≤ (rs.map (·.node.id)).dedup.length :=
        ((Request.nodup_firsts rs).subperm hsubset).length_le

/-- Any run of requests. Its findings are what becomes of the first request at each node, in the
order of the requests, and this is what the request would give if it were the only one: nothing,
the finding it asks for, or the warning at its node. So there are no more findings than nodes. What
is recorded for a node is what became of the first request at it, whatever comes later; if that was
nothing, it stays nothing. Requests that are put in or taken out at one node change nothing that is
recorded for another one, and taking all of them out takes out of the findings what was recorded
for this node, and nothing else. -/
theorem findings_reportAll_first_wins (rs : List Request) :
    (reportAll p s rs).findings = (Request.firsts rs).filterMap (Request.outcome p s) ∧
      (∀ r : Request, (reportAll p s [r]).findings = (r.outcome p s).toList ∧
        (r.outcome p s = none ∨ r.outcome p s = some (p.finding s r) ∨
          r.outcome p s = some (p.missingReason s r.node))) ∧
      (reportAll p s rs).findings.length ≤ (rs.map (·.node.id)).dedup.length ∧
      (∀ before r after, rs = before ++ r :: after → (∀ q ∈ before, q.node.id ≠ r.node.id) →
        recordedAt p s r.node.id rs = (r.outcome p s).toList) ∧
      (∀ id rs', rs'.filter (·.node.id ≠ id) = rs.filter (·.node.id ≠ id) →
        ∀ other, other ≠ id → recordedAt p s other rs' = recordedAt p s other rs) ∧
      ∀ id, ∃ before after,
        (reportAll p s rs).findings = before ++ recordedAt p s id rs ++ after ∧
          (reportAll p s (rs.filter (·.node.id ≠ id))).findings = before ++ after := by
  refine ⟨findings_eq_filterMap_firsts p s rs, fun r => ⟨?_, r.outcome_cases p s⟩,
    length_findings_le p s rs, ?_, ?_, ?_⟩
  · rw [findings_eq_filterMap_firsts]
    cases houtcome : r.outcome p s <;> simp [Request.firsts, houtcome]
  · rintro before r after rfl hfirst
    have hbefore : before.find? (·.node.id = r.node.id) = none := by
      rw [List.find?_eq_none]
      intro q hq
      simpa using hfirst q hq
    rw [recordedAt_eq, List.find?_append, hbefore]
    simp
  · intro id rs' hsame other hne
    rw [← recordedAt_filter p s hne rs', hsame, recordedAt_filter p s hne]
  · intro id
    obtain ⟨before, after, hfirsts, hwithout⟩ := Request.exists_firsts_eq_append id rs
    refine ⟨before.filterMap (Request.outcome p s), after.filterMap (Request.outcome p s), ?_, ?_⟩
    · rw [findings_eq_filterMap_firsts, hfirsts, List.filterMap_append, List.filterMap_append,
        recordedAt_eq]
      cases rs.find? (·.node.id = id) with
      | none => rfl
      | some r => cases houtcome : r.outcome p s <;> simp [houtcome]
    · rw [findings_eq_filterMap_firsts, hwithout, List.filterMap_append]

end Sink

end LoaderLint
