import IgnoreRules.Text.Basic

/-! # Error reports

What a caller is told when an operation fails: whose fault it is, a code to dispatch on, a message
to read, and named details.
-/

namespace IgnoreRules

inductive ErrorKind where
  /-- In what the caller passed in. -/
  | expected
  /-- In the surroundings. -/
  | unexpected
  deriving DecidableEq

def ErrorKind.name : ErrorKind → String
  | .expected => "expected"
  | .unexpected => "unexpected"

/-- A stable code, unique within its area. -/
structure ErrorCode where
  area : String
  reason : String
  deriving DecidableEq

namespace ErrorCode

def display (code : ErrorCode) : String := code.area ++ ":" ++ code.reason

def invalidInput : ErrorCode := ⟨"core", "invalid_input"⟩

def invalidPath : ErrorCode := ⟨"path", "invalid_path"⟩

def io : ErrorCode := ⟨"core", "io"⟩

/-- The library broke a promise of its own. -/
def internal : ErrorCode := ⟨"core", "internal"⟩

end ErrorCode

/-- Adds an entry at its place in an ordered list; an entry of the same key is replaced. -/
def insertEntry (key value : String) : List (String × String) → List (String × String)
  | [] => [(key, value)]
  | (k, v) :: rest =>
    if key < k then (key, value) :: (k, v) :: rest
    else if key = k then (key, value) :: rest
    else (k, v) :: insertEntry key value rest

theorem mem_insertEntry {key value : String} {entries : List (String × String)}
    {entry : String × String} (h : entry ∈ insertEntry key value entries) :
    entry = (key, value) ∨ entry ∈ entries := by
  induction entries with
  | nil => exact Or.inl (by simpa [insertEntry] using h)
  | cons head rest ih =>
    obtain ⟨k, v⟩ := head
    simp only [insertEntry] at h
    split at h
    · exact List.mem_cons.1 h
    · split at h
      · rcases List.mem_cons.1 h with h | h
        · exact Or.inl h
        · exact Or.inr (List.mem_cons_of_mem _ h)
      · rcases List.mem_cons.1 h with h | h
        · exact Or.inr (h ▸ List.mem_cons_self ..)
        · exact (ih h).imp_right (List.mem_cons_of_mem _)

theorem pairwise_insertEntry (key value : String) {entries : List (String × String)}
    (h : entries.Pairwise (·.1 < ·.1)) : (insertEntry key value entries).Pairwise (·.1 < ·.1) := by
  induction entries with
  | nil => exact List.pairwise_singleton _ _
  | cons head rest ih =>
    obtain ⟨k, v⟩ := head
    obtain ⟨above, ordered⟩ := List.pairwise_cons.1 h
    simp only [insertEntry]
    split
    · next less =>
      refine List.pairwise_cons.2 ⟨fun entry mem => ?_, h⟩
      rcases List.mem_cons.1 mem with rfl | mem
      · exact less
      · exact String.lt_trans less (above entry mem)
    · next notLess =>
      split
      · next same =>
        subst same
        exact List.pairwise_cons.2 ⟨above, ordered⟩
      · next differ =>
        refine List.pairwise_cons.2 ⟨fun entry mem => ?_, ih ordered⟩
        rcases mem_insertEntry mem with rfl | mem
        · exact Std.lt_of_le_of_ne (String.not_lt.1 notLess) (Ne.symm differ)
        · exact above entry mem

structure Metadata where
  entries : List (String × String) := []
  ordered : entries.Pairwise (·.1 < ·.1) := by exact List.Pairwise.nil
  deriving DecidableEq

namespace Metadata

def empty : Metadata := {}

def insert (metadata : Metadata) (key value : String) : Metadata :=
  ⟨insertEntry key value metadata.entries, pairwise_insertEntry key value metadata.ordered⟩

def get? (metadata : Metadata) (key : String) : Option String := metadata.entries.lookup key

end Metadata

structure ErrorReport where
  kind : ErrorKind
  code : ErrorCode
  message : String
  metadata : Metadata := .empty
  deriving DecidableEq

namespace ErrorReport

def withDetail (report : ErrorReport) (key value : String) : ErrorReport :=
  { report with metadata := report.metadata.insert key value }

def display (report : ErrorReport) : String :=
  report.kind.name ++ " " ++ report.code.display ++ ": " ++ report.message

def ofIOFailure (failure message : String) : ErrorReport :=
  { kind := .unexpected, code := .io, message : ErrorReport }.withDetail "io_kind" failure

end ErrorReport

end IgnoreRules
