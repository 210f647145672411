import SelectorCompiler.Proofs.CommandLine.Isolation
import SelectorCompiler.Proofs.CommandLine.Safekeeping
import SelectorCompiler.Proofs.Json.OneLine
import SelectorCompiler.Proofs.Selector.Json

/-!
# JSON output is read back

A run that prints JSON records prints one line for each expression that compiles. The output can be
cut at its line feeds, since a record holds none of its own, and each line is read as the object of
its expression and path. Segments, too, are recovered from the JSON text of their chain.
-/

namespace SelectorCompiler

/-- Compile expressions one after another, and give those that have a path, each with its path. -/
def Query.compiled (query : Query) (language : Language) : List String → List (String × String)
  | [] => []
  | expression :: rest =>
    let answer := query.compile expression language
    let later := answer.2.compiled language rest
    match answer.1 with
    | .ok path => (expression, path) :: later
    | .error _ => later

/-! ## Lines -/

/-- Lines that end with a line feed and hold no other are the pieces between the line feeds, and
after the last one nothing follows. -/
theorem Text.pieces_join_lines {lines : List String} (h : ∀ line ∈ lines, '\n' ∉ line.toList) :
    pieces '\n' (String.join (lines.map (· ++ "\n"))) = lines ++ [""] := by
  induction lines with
  | nil => rfl
  | cons line rest ih =>
    obtain ⟨hline, hrest⟩ := List.forall_mem_cons.mp h
    have htext : (String.join ((line :: rest).map (· ++ "\n"))).toList =
        line.toList ++ '\n' :: (String.join (rest.map (· ++ "\n"))).toList := by
      rw [List.map_cons, String.join_cons, String.toList_append, String.toList_append]
      simp
    have hlater := ih hrest
    rw [pieces] at hlater ⊢
    rw [htext, List.splitOn_append_cons_self, List.splitOn_eq_singleton hline,
      List.singleton_append, List.map_cons, hlater, String.ofList_toList]
    rfl

namespace CommandLine

open Json

/-! ## Records -/

/-- An expression and its path as a JSON object. -/
def recordValue (compiled : String × String) : Value :=
  .object [("selector", .string compiled.1), ("xpath", .string compiled.2)]

theorem numberFree_recordValue (compiled : String × String) :
    (recordValue compiled).NumberFree :=
  ⟨trivial, trivial, trivial⟩

theorem parse?_compact_recordValue (compiled : String × String) :
    Value.parse? (recordValue compiled).compact = some (recordValue compiled) := by
  apply Value.parse?_write Layout.spaced_compact (numberFree_recordValue compiled)
  simp [recordValue, Value.depth, Value.membersDepth, maxDepth]

/-- Without segments, the texts of expressions are the records of those that compile. -/
theorem Options.join_shownText {options : Options} (hjson : options.json = true)
    (hsegments : options.segments = false) (query : Query) (expressions : List String) :
    String.join (expressions.map (options.shownText query)) =
      String.join ((query.compiled options.language expressions).map fun compiled ↦
        (recordValue compiled).compact ++ "\n") := by
  induction expressions generalizing query with
  | nil => rfl
  | cons expression rest ih =>
    have hnone : options.segmentsText expression = "" := by simp [segmentsText, hsegments]
    -- The memo grows by the expression, and no later text changes by that.
    have hlater : options.shownText query =
        options.shownText (query.compile expression options.language).2 :=
      options.shownText_congr (query.outcome_learn options.language [expression]).symm
    rw [List.map_cons, String.join_cons, hlater, ih, ← hlater, shownText, hnone, Query.compiled]
    cases (query.compile expression options.language).1 with
    | ok path => simp [← resultLine_eq, resultLine, hjson, recordValue]
    | error error => simp

/-! ## The output of a run -/

/-- The expressions that a run compiles, each with its path. One whose memo file is damaged compiles
none. -/
def compiledBy (options : Options) (files : Files) : List (String × String) :=
  match opening options files.readText with
  | .error _ => []
  | .ok begun => begun.query.compiled options.language options.selectors

/-- A run that succeeds has met no expression without a path. -/
theorem Loads.going_of_ends {options : Options} {files : Files} {memo : Memo}
    (h : Loads options files.readText memo)
    (hends : options.keepGoing = true ∨ (run options files).1.exit = 0) :
    options.keepGoing = true ∨ ∀ expression ∈ options.selectors,
      Query.fails ⟨memo⟩ options.language expression = false := by
  apply Options.going_of_not_stops
  intro hstops
  have hone := (h.run_stops hstops).2.1
  rcases hends with hgo | hzero
  · rw [hstops.1] at hgo
    cases hgo
  · rw [hzero] at hone
    cases hone

/-- A run that is to go on, or that succeeds, prints the records of what it compiles. -/
theorem out_eq_join_records {options : Options} {files : Files} (hjson : options.json = true)
    (hsegments : options.segments = false)
    (hends : options.keepGoing = true ∨ (run options files).1.exit = 0) :
    (run options files).1.out =
      String.join ((compiledBy options files).map fun compiled ↦
        (recordValue compiled).compact ++ "\n") := by
  rcases damaged_or_loads options files.readText with ⟨path, hcache, hdamaged⟩ | ⟨memo, hloads⟩
  · obtain ⟨failure, hbegin⟩ := exists_begin_of_damaged hdamaged path
    rw [(run_shows_nothing hcache hdamaged).1, compiledBy, opening, hcache]
    simp only [hbegin]
    rfl
  · obtain ⟨begun, hopening, hquery, -⟩ := hloads.exists_opening
    rw [hloads.out_of_going (hloads.going_of_ends hends), options.join_shownText hjson hsegments,
      compiledBy, hopening, ← hquery]

/-- JSON output is cut at its line feeds and read back. A run that prints records without segments,
and is to go on or succeeds, prints one line for each expression that compiles; the lines hold no
line feed but the one at their end, and the reader finds in each the expression and its path and
nothing else. The text of a chain of segments, on one line or on many, is read as one object for
each segment, in order, with every field of it; the attributes keep their order, and `null` stands
for one that must only be present. -/
theorem output_reads_back :
    (∀ (options : Options) (files : Files), options.json = true → options.segments = false →
      options.keepGoing = true ∨ (run options files).1.exit = 0 →
      ∃ lines : List String,
        (∀ line ∈ lines, '\n' ∉ line.toList) ∧
        (run options files).1.out = String.join (lines.map (· ++ "\n")) ∧
        Text.pieces '\n' (run options files).1.out = lines ++ [""] ∧
        lines.map Value.parse? = (compiledBy options files).map fun compiled ↦
          some (.object [("selector", .string compiled.1), ("xpath", .string compiled.2)])) ∧
    ∀ selector segments, Segment.readAll selector = .ok segments →
      ∀ text ∈ [(Segment.chainValue segments).compact, (Segment.chainValue segments).pretty],
        ∃ items, Value.parse? text = some (.array items) ∧
          items.map Segment.ofValue? = segments.map some ∧
          items.map (Value.member? "attributes") = segments.map fun segment ↦
            some (.object (segment.attributes.entries.map fun entry ↦
              (entry.1, Value.ofOption entry.2))) := by
  constructor
  · intro options files hjson hsegments hends
    have hout := out_eq_join_records hjson hsegments hends
    have hlines : ∀ line ∈ (compiledBy options files).map fun compiled ↦
        (recordValue compiled).compact, '\n' ∉ line.toList := by
      rw [List.forall_mem_map]
      intro compiled _
      exact Value.newline_not_mem_compact (numberFree_recordValue compiled)
    have hjoin : (run options files).1.out = String.join
        (((compiledBy options files).map fun compiled ↦ (recordValue compiled).compact).map
          (· ++ "\n")) := by
      rw [hout, List.map_map]
      rfl
    refine ⟨_, hlines, hjoin, ?_, ?_⟩
    · rw [hjoin, Text.pieces_join_lines hlines]
    · rw [List.map_map]
      exact List.map_congr_left fun compiled _ ↦ parse?_compact_recordValue compiled
  · intro selector segments _ text htext
    refine ⟨segments.map Segment.toValue, ?_, ?_, ?_⟩
    · rcases List.mem_pair.mp htext with rfl | rfl
      · exact Segment.parse?_write_chainValue Layout.spaced_compact segments
      · exact Segment.parse?_write_chainValue Layout.spaced_indented segments
    · simp [Segment.ofValue?_toValue]
    · simp [Segment.member?_attributes_toValue]

/-- An expression with a line feed and a quotation mark, one that does not compile, and another; and
a chain with an attribute that must only be present beside one whose value is a quotation mark. -/
theorem output_reads_back_of_line_feed :
    let expression := "a[t=x\ny\"]"
    let options : Options := ⟨[expression, "b:x", "p"], .css, none, true, false, true⟩
    let segments : List Segment :=
      [⟨"a[b][c=\"] >", "a", none, [], .ofList [("b", none), ("c", some "\"")], none, true⟩,
        ⟨"p:first-child", "p", none, [], .empty, some ⟨"first-child", none⟩, false⟩]
    options.json = true ∧ options.segments = false ∧ options.keepGoing = true ∧
      (∃ lines : List String, Text.pieces '\n' (run options .empty).1.out = lines ++ [""] ∧
        lines.map Value.parse? =
          [some (.object [("selector", .string expression),
              ("xpath", .string "//a[@t=\"x\ny\"\"]")]),
            some (.object [("selector", .string "p"), ("xpath", .string "//p")])]) ∧
      Segment.readAll "a[b][c=\"] > p:first-child" = .ok segments ∧
      ∃ items, Value.parse? (Segment.chainValue segments).compact = some (.array items) ∧
        items.map Segment.ofValue? = segments.map some := by
  intro expression options segments
  have hcompiled : compiledBy options .empty =
      [(expression, "//a[@t=\"x\ny\"\"]"), ("p", "//p")] := by
    decide +kernel
  have hread : Segment.readAll "a[b][c=\"] > p:first-child" = .ok segments := by decide +kernel
  obtain ⟨lines, -, -, hpieces, hlines⟩ :=
    output_reads_back.1 options .empty rfl rfl (.inl rfl)
  obtain ⟨items, hitems, hsegments, -⟩ :=
    output_reads_back.2 _ segments hread _ List.mem_cons_self
  rw [hcompiled] at hlines
  exact ⟨rfl, rfl, rfl, ⟨lines, hpieces, hlines⟩, hread, items, hitems, hsegments⟩

end CommandLine

end SelectorCompiler
