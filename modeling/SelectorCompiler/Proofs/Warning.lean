import Mathlib.Data.List.Induction
import SelectorCompiler.Text.Delimited
import SelectorCompiler.Warning

/-!
# Warnings are shown once

The log remembers the lines that were shown, and not the warnings. After any history it holds the
lines of the warnings that were given since the last clearing, by `mem_lines_run_iff`; so a warning
is shown exactly when its line is new. A line tells which warning it is of when the component does
not hold the bracket that ends it, whatever the message says. Then no warning hides another one.
-/

namespace SelectorCompiler

/-! ## Lines -/

/-- The line of a warning, spelled out. -/
def formattedLine (component message : String) : String :=
  "[csspath " ++ component ++ "] ⚠ " ++ message

/-- What is printed for a line that is shown: the line in yellow. -/
def shownLine (line : String) : String :=
  "\x1b[33m" ++ line ++ "\x1b[39m\n"

theorem paint_yellow (line : String) : Style.yellow.paint line ++ "\n" = shownLine line := by
  rw [← String.toList_inj]
  simp [shownLine, Style.paint, Style.on, Style.off]

theorem shownLine_ne_empty (line : String) : shownLine line ≠ "" := by
  intro h
  have hlist := congrArg String.toList h
  simp [shownLine] at hlist

/-- The line of a warning ends its component at the first bracket, and the rest is the message. -/
theorem formattedLine_inj {component other message text : String}
    (hcomponent : ']' ∉ component.toList) (hother : ']' ∉ other.toList) :
    formattedLine component message = formattedLine other text ↔
      component = other ∧ message = text := by
  constructor
  · intro h
    have hlist := congrArg String.toList h
    simp only [formattedLine, String.toList_append, List.append_assoc] at hlist
    have htail := List.append_cancel_left hlist
    rcases Text.append_inj_of_mark hcomponent hother htail with ⟨hfront, hrest⟩
    exact ⟨String.toList_inj.mp hfront, String.toList_inj.mp (List.append_cancel_left hrest)⟩
  · rintro ⟨rfl, rfl⟩
    rfl

namespace WarningLog

/-! ## One step -/

section Step

variable {log : WarningLog} {component message : String}

theorem warn_of_mem (h : formattedLine component message ∈ log.lines) :
    log.warn component message = (log, "") :=
  if_pos h

theorem warn_of_not_mem (h : formattedLine component message ∉ log.lines) :
    log.warn component message =
      (⟨formattedLine component message :: log.lines⟩,
        shownLine (formattedLine component message)) := by
  rw [← paint_yellow]
  exact if_neg h

/-- After a warning its line is in the log, with those that were there. -/
theorem mem_lines_warn_iff {line : String} :
    line ∈ (log.warn component message).1.lines ↔
      line = formattedLine component message ∨ line ∈ log.lines := by
  by_cases h : formattedLine component message ∈ log.lines
  · rw [warn_of_mem h]
    constructor
    · exact .inr
    · rintro (rfl | hmem)
      · exact h
      · exact hmem
  · rw [warn_of_not_mem h]
    exact List.mem_cons

end Step

/-! ## A history of steps -/

/-- Perform steps one after another; also what each of them prints. -/
def run (log : WarningLog) : List Command → WarningLog × List String
  | [] => (log, [])
  | command :: rest =>
    let performed := log.perform command
    let later := performed.1.run rest
    (later.1, performed.2 :: later.2)

theorem length_run (log : WarningLog) (commands : List Command) :
    (log.run commands).2.length = commands.length := by
  induction commands generalizing log with
  | nil => rfl
  | cons command rest ih => exact congrArg (· + 1) (ih _)

theorem run_append (log : WarningLog) (front rest : List Command) :
    log.run (front ++ rest) =
      (((log.run front).1.run rest).1, (log.run front).2 ++ ((log.run front).1.run rest).2) := by
  induction front generalizing log with
  | nil => rfl
  | cons command front ih =>
    rw [List.cons_append, run, run]
    simp only [ih, List.cons_append]

/-- A step prints what it prints under the log that the steps before it left. -/
theorem getElem?_run (log : WarningLog) (front : List Command) (command : Command)
    (rest : List Command) :
    (log.run (front ++ command :: rest)).2[front.length]? =
      some ((log.run front).1.perform command).2 := by
  rw [run_append, ← log.length_run front, List.getElem?_append_right (Nat.le_refl _), Nat.sub_self]
  rfl

/-- The warning was given since the last clearing. -/
def Given (history : List Command) (component message : String) : Prop :=
  ∃ before after, history = before ++ .warn component message :: after ∧ .clear ∉ after

/-- A warning with this line was given since the last clearing. -/
def GivenLine (history : List Command) (line : String) : Prop :=
  ∃ component message, Given history component message ∧ formattedLine component message = line

section Given

variable {history : List Command} {component message : String}

theorem not_given_nil : ¬Given [] component message := by
  rintro ⟨before, after, hsplit, -⟩
  exact List.append_ne_nil_of_right_ne_nil before (List.cons_ne_nil _ after) hsplit.symm

/-- The last step gave the warning, or it cleared nothing and the warning was given before. -/
theorem given_concat_iff {command : Command} :
    Given (history ++ [command]) component message ↔
      command = .warn component message ∨ command ≠ .clear ∧ Given history component message := by
  constructor
  · rintro ⟨before, after, hsplit, hclear⟩
    rcases List.eq_nil_or_concat after with rfl | ⟨middle, final, rfl⟩
    · have hfinal := List.append_inj_right' hsplit rfl
      exact .inl (List.singleton_inj.mp hfinal)
    · rw [List.concat_eq_append, ← List.cons_append, ← List.append_assoc] at hsplit
      rcases List.append_inj' hsplit rfl with ⟨hhistory, hfinal⟩
      rw [List.concat_eq_append, List.mem_append, not_or, List.mem_singleton] at hclear
      rw [List.singleton_inj.mp hfinal]
      exact .inr ⟨Ne.symm hclear.2, before, middle, hhistory, hclear.1⟩
  · rintro (rfl | ⟨hclear, before, after, rfl, hafter⟩)
    · exact ⟨history, [], rfl, by simp⟩
    · refine ⟨before, after ++ [command], by simp, ?_⟩
      simp [hafter, Ne.symm hclear]

end Given

/-- The log holds the lines of the warnings that were given since the last clearing. -/
theorem mem_lines_run_iff (commands : List Command) {line : String} :
    line ∈ (empty.run commands).1.lines ↔ GivenLine commands line := by
  induction commands using List.reverseRecOn with
  | nil =>
    constructor
    · intro h
      cases h
    · rintro ⟨component, message, hgiven, -⟩
      exact absurd hgiven not_given_nil
  | append_singleton front command ih =>
    rw [run_append]
    change line ∈ ((empty.run front).1.perform command).1.lines ↔ _
    cases command with
    | clear =>
      constructor
      · intro h
        cases h
      · rintro ⟨component, message, hgiven, -⟩
        rcases given_concat_iff.mp hgiven with hwarn | ⟨hclear, -⟩
        · cases hwarn
        · exact absurd rfl hclear
    | warn component message =>
      rw [perform, mem_lines_warn_iff, ih]
      constructor
      · rintro (rfl | ⟨earlier, text, hgiven, rfl⟩)
        · exact ⟨component, message, given_concat_iff.mpr (.inl rfl), rfl⟩
        · refine ⟨earlier, text, given_concat_iff.mpr (.inr ⟨?_, hgiven⟩), rfl⟩
          exact Command.noConfusion
      · rintro ⟨earlier, text, hgiven, rfl⟩
        rcases given_concat_iff.mp hgiven with hwarn | ⟨-, hbefore⟩
        · cases hwarn
          exact .inl rfl
        · exact .inr ⟨earlier, text, hbefore, rfl⟩

/-- The step at this place of a history that begins with an empty log prints the text. -/
def Prints (commands : List Command) (place : Nat) (text : String) : Prop :=
  (empty.run commands).2[place]? = some text

/-- A warning prints its line, or nothing when the line was given since the last clearing. -/
theorem prints_warn_iff (front rest : List Command) (component message : String) :
    (Prints (front ++ .warn component message :: rest) front.length
        (shownLine (formattedLine component message)) ↔
      ¬GivenLine front (formattedLine component message)) ∧
    (Prints (front ++ .warn component message :: rest) front.length "" ↔
      GivenLine front (formattedLine component message)) := by
  have hshown := shownLine_ne_empty (formattedLine component message)
  rw [Prints, Prints, getElem?_run, ← mem_lines_run_iff, perform]
  by_cases h : formattedLine component message ∈ (empty.run front).1.lines
  · rw [warn_of_mem h]
    simp [h, Ne.symm hshown]
  · rw [warn_of_not_mem h]
    simp [h, hshown]

theorem prints_clear (front rest : List Command) :
    Prints (front ++ .clear :: rest) front.length "" :=
  getElem?_run empty front .clear rest

/-- Among components without the bracket, a warning has the line of another one only if it is the
same. -/
theorem givenLine_iff_given {history : List Command} {component message : String}
    (hhistory : ∀ earlier text, .warn earlier text ∈ history → ']' ∉ earlier.toList)
    (hcomponent : ']' ∉ component.toList) :
    GivenLine history (formattedLine component message) ↔ Given history component message := by
  constructor
  · rintro ⟨earlier, text, hgiven, hline⟩
    have hplain : ']' ∉ earlier.toList := by
      rcases hgiven with ⟨before, after, rfl, -⟩
      apply hhistory earlier text
      simp
    rcases (formattedLine_inj hplain hcomponent).mp hline with ⟨rfl, rfl⟩
    exact hgiven
  · intro hgiven
    exact ⟨component, message, hgiven, rfl⟩

/-! ## Warnings without a clearing between them -/

/-- The line of a warning. -/
def lineOf (warning : String × String) : String :=
  formattedLine warning.1 warning.2

/-- The steps that give these warnings. -/
def warns (given : List (String × String)) : List Command :=
  given.map fun warning ↦ .warn warning.1 warning.2

theorem given_warns_iff {given : List (String × String)} {component message : String} :
    Given (warns given) component message ↔ (component, message) ∈ given := by
  constructor
  · rintro ⟨before, after, hsplit, -⟩
    have hmem : .warn component message ∈ warns given := by
      rw [hsplit]
      simp
    rcases List.mem_map.mp hmem with ⟨warning, hwarning, heq⟩
    cases heq
    exact hwarning
  · intro hmem
    rcases List.append_of_mem hmem with ⟨front, rest, rfl⟩
    refine ⟨warns front, warns rest, ?_, ?_⟩
    · rw [warns, List.map_append]
      rfl
    · simp [warns]

theorem givenLine_warns_iff {given : List (String × String)} {line : String} :
    GivenLine (warns given) line ↔ line ∈ given.map lineOf := by
  simp only [GivenLine, given_warns_iff, List.mem_map, lineOf, Prod.exists]

section FirstOccurrences

variable {α : Type} [BEq α] [LawfulBEq α] {front : List α} {item : α}

private theorem eraseDups_concat_of_mem (h : item ∈ front) :
    (front ++ [item]).eraseDups = front.eraseDups := by
  simp [List.eraseDups_append, List.cons_removeAll, h]

private theorem eraseDups_concat_of_not_mem (h : item ∉ front) :
    (front ++ [item]).eraseDups = front.eraseDups ++ [item] := by
  simp [List.eraseDups_append, List.cons_removeAll, h, List.eraseDups_cons]

end FirstOccurrences

/-- Warnings one after another show their lines, each once, in the order in which they first
occur. -/
theorem filter_run_warns (given : List (String × String)) :
    (empty.run (warns given)).2.filter (· ≠ "") =
      (given.map lineOf).eraseDups.map shownLine := by
  induction given using List.reverseRecOn with
  | nil => rfl
  | append_singleton front warning ih =>
    have hsteps : warns (front ++ [warning]) = warns front ++ [.warn warning.1 warning.2] :=
      List.map_append
    have hlog : lineOf warning ∈ (empty.run (warns front)).1.lines ↔
        lineOf warning ∈ front.map lineOf := by
      rw [mem_lines_run_iff, givenLine_warns_iff]
    rw [hsteps, run_append, List.filter_append, ih, List.map_append, List.map_singleton]
    change _ ++ [((empty.run (warns front)).1.warn warning.1 warning.2).2].filter (· ≠ "") = _
    by_cases hmem : lineOf warning ∈ front.map lineOf
    · rw [warn_of_mem (hlog.mpr hmem), eraseDups_concat_of_mem hmem]
      simp
    · rw [warn_of_not_mem (mt hlog.mp hmem), eraseDups_concat_of_not_mem hmem]
      simp [shownLine_ne_empty, lineOf]

/-- Among components without the bracket, different warnings have different lines. -/
theorem eraseDups_map_lineOf {given : List (String × String)}
    (h : ∀ warning ∈ given, ']' ∉ warning.1.toList) :
    (given.map lineOf).eraseDups = given.eraseDups.map lineOf := by
  induction given using List.reverseRecOn with
  | nil => rfl
  | append_singleton front warning ih =>
    rcases List.forall_mem_append.mp h with ⟨hfront, hwarning⟩
    have hlines : lineOf warning ∈ front.map lineOf ↔ warning ∈ front := by
      rw [List.mem_map]
      constructor
      · rintro ⟨earlier, hmem, hline⟩
        have hplain := hwarning warning (List.mem_singleton_self _)
        rcases (formattedLine_inj (hfront earlier hmem) hplain).mp hline with ⟨hfst, hsnd⟩
        rwa [← Prod.ext hfst hsnd]
      · intro hmem
        exact ⟨warning, hmem, rfl⟩
    rw [List.map_append, List.map_singleton]
    by_cases hmem : warning ∈ front
    · rw [eraseDups_concat_of_mem (hlines.mpr hmem), eraseDups_concat_of_mem hmem, ih hfront]
    · rw [eraseDups_concat_of_not_mem (mt hlines.mp hmem), eraseDups_concat_of_not_mem hmem,
        ih hfront, List.map_append, List.map_singleton]

/-- The history is at its beginning or ends with a clearing. -/
def Cleared (history : List Command) : Prop :=
  history = [] ∨ ∃ earlier, history = earlier ++ [.clear]

theorem run_of_cleared {history : List Command} (h : Cleared history) :
    (empty.run history).1 = empty := by
  rcases h with rfl | ⟨earlier, rfl⟩
  · rfl
  · rw [run_append]
    rfl

/-- What is shown between two clearings depends on nothing before or after them. -/
theorem filter_run_of_cleared {front : List Command} (h : Cleared front)
    (given : List (String × String)) (rest : List Command) :
    (((empty.run (front ++ warns given ++ rest)).2.drop front.length).take given.length).filter
      (· ≠ "") = (given.map lineOf).eraseDups.map shownLine := by
  have hlength : (empty.run (warns given)).2.length = given.length := by
    rw [length_run, warns, List.length_map]
  rw [← filter_run_warns, run_append, run_append, run_of_cleared h, List.append_assoc,
    ← empty.length_run front, List.drop_left, ← hlength, List.take_left]

end WarningLog

end SelectorCompiler
