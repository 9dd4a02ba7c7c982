import LoaderLint.Proofs.JsonReading
import LoaderLint.Report.Json
import Mathlib.Tactic.MkIffOfInductiveProp

/-!
# Reports that are written and read back

A report that is written as JSON can be read back, as long as its numbers have 64 bits. All that is
lost is which findings are locked, because this is not written; so the report that was read is
written as the same text.

The module introduces:

* `Location.Fits`, `Finding.Fits`, `Report.Fits` — all numbers have 64 bits.

Each type has its lemma (`Severity.reads`, `Location.reads`, `Label.reads`, `Finding.reads`,
`Report.reads`), from the inside out. The main result is `Report.load_json`.
-/

namespace LoaderLint

open Json (Reader)
open Json.Reader

/-! ## Numbers of 64 bits -/

/-- The numbers of a place have 64 bits. -/
@[mk_iff]
structure Location.Fits (l : Location) : Prop where
  /-- The line. -/
  line : l.line < UInt64.size
  /-- The column. -/
  column : l.column < UInt64.size
  /-- The offset. -/
  offset : l.offset < UInt64.size
  /-- The length. -/
  length : l.length < UInt64.size

instance (l : Location) : Decidable l.Fits := decidable_of_iff _ l.fits_iff.symm

/-- The numbers of a finding have 64 bits. -/
@[mk_iff]
structure Finding.Fits (f : Finding) : Prop where
  /-- Those of its own place. -/
  location : f.location.Fits
  /-- Those of the places it refers to. -/
  labels : ∀ l ∈ f.labels, l.location.Fits

instance (f : Finding) : Decidable f.Fits := decidable_of_iff _ f.fits_iff.symm

/-- The numbers of a report have 64 bits. -/
@[mk_iff]
structure Report.Fits (r : Report) : Prop where
  /-- Those of its findings. -/
  findings : ∀ f ∈ r.findings, f.Fits
  /-- The number of files. -/
  filesChecked : r.filesChecked < UInt64.size

instance (r : Report) : Decidable r.Fits := decidable_of_iff _ r.fits_iff.symm

/-! ## What is inside a report -/

/-- A severity is read from its name. -/
theorem Severity.ofName?_name (s : Severity) : ofName? s.name = some s := by
  cases s <;> rfl

/-- A severity is read back from its name. -/
theorem Severity.reads (s : Severity) : Reads Severity.read (.string s.name) s := by
  intro level blanks rest hblanks hrest
  have hname := reads_text "variant identifier" s.name level [] rest blank_nil hrest
  rw [List.nil_append] at hname
  obtain ⟨cs, hcs⟩ : ∃ cs, Json.layout level (.string s.name) ++ rest = '"' :: cs := ⟨_, rfl⟩
  rw [hcs] at hname ⊢
  rw [Severity.read, bind_of_ok (peek_append hblanks (by decide) cs)]
  simp only [if_true]
  rw [readName, bind_of_ok hname, ofName?_name]
  rfl

/-- A place is read back if its numbers fit. -/
theorem Location.reads {l : Location} (h : l.Fits) : Reads Location.read l.toJson l := by
  refine reads_record ?_ (by simp) (by simp [shape, Json.Field.of])
  exact .cons rfl ((reads_text _ _).map _) <|
    .cons rfl ((reads_size h.line).map _) <|
    .cons rfl ((reads_size h.column).map _) <|
    .cons rfl ((reads_size h.offset).map _) <|
    .cons rfl ((reads_size h.length).map _) <| .nil _

/-- A label is read back if the numbers of its place fit. -/
theorem Label.reads {l : Label} (h : l.location.Fits) : Reads Label.read l.toJson l := by
  refine reads_record ?_ (by simp) (by simp [shape, Json.Field.of])
  exact .cons rfl ((Location.reads h).map _) <|
    .cons rfl ((reads_text _ _).map _) <| .nil _

/-- A suggestion is read back. -/
theorem reads_suggestion (content : String) :
    Reads (record suggestionShape "") (.object [("message", .string content)]) content := by
  refine reads_record ?_ (by simp) (by simp [suggestionShape, Json.Field.of])
  exact .cons rfl ((reads_text _ _).map _) <| .nil _

namespace Finding

/-- The fields that every finding has are read back. -/
theorem readsFields_always {f : Finding} (h : f.Fits) :
    ReadsFields shape blank
      [("code", .string f.code), ("rule", .string f.rule), ("severity", .string f.severity.name),
        ("location", f.location.toJson), ("message", .string f.message)]
      { f with suggestion := none, labels := [], locked := false } := by
  exact .cons rfl ((reads_text _ _).map _) <|
    .cons rfl ((reads_text _ _).map _) <|
    .cons rfl (f.severity.reads.map _) <|
    .cons rfl ((Location.reads h.location).map _) <|
    .cons rfl ((reads_text _ _).map _) <| .nil _

/-- The suggestion is read back; where there is none, nothing is written and nothing is read. -/
theorem readsFields_suggestion (f : Finding) (suggestion : Option String)
    (hf : f.suggestion = none) :
    ReadsFields shape f
      (suggestion.toList.map fun text => ("suggestion", .object [("message", .string text)]))
      { f with suggestion } := by
  cases suggestion with
  | none =>
    cases f
    cases hf
    exact .nil _
  | some text => exact .cons rfl ((reads_suggestion text).optional.map _) <| .nil _

/-- The labels are read back; where there are none, nothing is written and nothing is read. -/
theorem readsFields_labels (f : Finding) {labels : List Label}
    (h : ∀ l ∈ labels, l.location.Fits) (hf : f.labels = []) :
    ReadsFields shape f
      (if labels.isEmpty then [] else [("labels", .array (labels.map Label.toJson))])
      { f with labels } := by
  cases labels with
  | nil =>
    cases f
    cases hf
    exact .nil _
  | cons l labels =>
    have hlabel : ∀ l' ∈ l :: labels, Reads Label.read l'.toJson (id l') :=
      fun l' hl' => Label.reads (h l' hl')
    have hread := reads_list_map hlabel
    rw [List.map_id] at hread
    exact .cons rfl (hread.map _) <| .nil _

/-- A finding is read back if its numbers fit, but it is not locked. -/
theorem reads {f : Finding} (h : f.Fits) :
    Reads Finding.read f.toJson { f with locked := false } := by
  have hsuggestion := (readsFields_always h).append (readsFields_suggestion _ f.suggestion rfl)
  refine reads_record (hsuggestion.append (readsFields_labels _ h.labels rfl)) ?_ ?_
  · cases f.suggestion <;> cases f.labels <;> simp
  · simp [shape, Json.Field.of, Json.Field.optional]

end Finding

/-! ## Reports -/

namespace Report

/-- A report is read back if its numbers fit, but its findings are not locked. -/
theorem reads {r : Report} (h : r.Fits) :
    Reads (record shape empty) r.toJson
      { r with findings := r.findings.map fun f => { f with locked := false } } := by
  have hfindings := reads_list_map fun f hf => Finding.reads (h.findings f hf)
  refine reads_record ?_ (by simp) (by simp [shape, Json.Field.of])
  exact .cons rfl (hfindings.map _) <| .cons rfl ((reads_size h.filesChecked).map _) <| .nil _

/-- Whether findings are locked is not written. -/
theorem toJson_unlocked (r : Report) :
    toJson { r with findings := r.findings.map fun f => { f with locked := false } } =
      r.toJson := by
  simp only [toJson, List.map_map]
  rfl

/-- Reading what was written gives back the report, with the same findings in the same order and
all their fields, except that none of them is locked. Writing that report again gives the same
text. -/
theorem load_json (r : Report) (h : r.Fits) :
    load r.json = .ok { r with findings := r.findings.map fun f => { f with locked := false } } ∧
      json { r with findings := r.findings.map fun f => { f with locked := false } } = r.json := by
  refine ⟨(reads h).readAll_pretty, ?_⟩
  rw [json, toJson_unlocked, json]

/-- Quotes, backslashes, control characters and characters beyond ASCII in all texts, the largest
numbers, and a locked finding with a suggestion and a label beside one without. -/
theorem load_json_escaped :
    let l : Location := ⟨⟨"é\\\"\x01.js"⟩, 18446744073709551615, 0, 10, 18446744073709551615⟩
    let f : Finding :=
      ⟨"\"", "\\n", .error, l, "a\nb\tc\r\x08\x0c\x1f\x7f", some "/ \u2028 😀", [⟨l, ""⟩], true⟩
    let g : Finding := ⟨"", "", .info, ⟨⟨""⟩, 0, 0, 0, 0⟩, "", none, [], false⟩
    let r : Report := ⟨[f, g], 18446744073709551615⟩
    let back : Report := ⟨[{ f with locked := false }, g], 18446744073709551615⟩
    r.Fits ∧ load r.json = .ok back ∧ back.json = r.json := by
  intro l f g r back
  have hfits : r.Fits := by decide
  exact ⟨hfits, load_json r hfits⟩

end Report

end LoaderLint
