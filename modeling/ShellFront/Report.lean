import ShellFront.Diagnostic

/-!
# Reports

A `Report` holds diagnostics in the order in which they were found. A phase that may have to take
back what it reported remembers the size of the report and rolls back to it.

## Contents
- `Report`, `Report.add`, `Report.size`, `Report.rollback`.
- Questions about a report: `hasErrors`, `errors`, `warnings`, `ofCategory`, `render`.
- `rollback_add`: rolling back to the size takes back what was added since.
-/

namespace ShellFront

/-- Diagnostics, oldest first. -/
structure Report where
  entries : Array Diagnostic
deriving DecidableEq

namespace Report

/-- No diagnostics. -/
def empty : Report := ⟨#[]⟩

/-- The diagnostics, oldest first. -/
def toList (report : Report) : List Diagnostic := report.entries.toList

/-- One more diagnostic. -/
def add (report : Report) (d : Diagnostic) : Report := ⟨report.entries.push d⟩

/-- How many diagnostics there are; also the mark to roll back to. -/
def size (report : Report) : Nat := report.entries.size

/-- Keeps the oldest `count` diagnostics. -/
def keep (report : Report) (count : Nat) : Report := ⟨report.entries.extract 0 count⟩

/-- Takes back everything from index `mark` on. A negative mark counts from the end and stops at
    the first diagnostic; one past the end takes back nothing. -/
def rollback (report : Report) (mark : Int) : Report :=
  report.keep (if mark < 0 then (report.size + mark).toNat else mark.toNat)

/-- Whether an error was reported. -/
def hasErrors (report : Report) : Bool := report.entries.any (fun d => d.severity == .error)

/-- The errors, oldest first. -/
def errors (report : Report) : List Diagnostic :=
  report.toList.filter (fun d => d.severity == .error)

/-- The warnings, oldest first. -/
def warnings (report : Report) : List Diagnostic :=
  report.toList.filter (fun d => d.severity == .warning)

/-- The diagnostics of one category, oldest first. -/
def ofCategory (report : Report) (category : Category) : List Diagnostic :=
  report.toList.filter (fun d => d.category == category)

/-- All diagnostics, one on a line. -/
def render (report : Report) : String := "\n".intercalate (report.toList.map Diagnostic.render)

@[simp] theorem toList_empty : empty.toList = [] := rfl

@[simp] theorem toList_add (report : Report) (d : Diagnostic) :
    (report.add d).toList = report.toList ++ [d] := by
  simp [toList, add]

@[simp] theorem toList_keep (report : Report) (count : Nat) :
    (report.keep count).toList = report.toList.take count := by
  simp [toList, keep]

@[simp] theorem size_add (report : Report) (d : Diagnostic) :
    (report.add d).size = report.size + 1 := by
  simp [size, add]

theorem length_toList (report : Report) : report.toList.length = report.size := rfl

/-- Two reports with the same diagnostics are equal. -/
theorem ext_toList {a b : Report} (h : a.toList = b.toList) : a = b := by
  obtain ⟨a⟩ := a
  obtain ⟨b⟩ := b
  exact congrArg Report.mk (Array.toList_inj.mp h)

/-- Rolling back to the size before a diagnostic takes it back. -/
theorem rollback_add (report : Report) (d : Diagnostic) :
    (report.add d).rollback report.size = report := by
  apply ext_toList
  have h : ¬ ((report.size : Int) < 0) := by omega
  rw [rollback, if_neg h, toList_keep, toList_add, Int.toNat_natCast, ← length_toList,
    List.take_left']
  rfl

end Report

end ShellFront
