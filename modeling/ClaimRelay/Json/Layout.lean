import ClaimRelay.Json.Pieces

/-!
# Where JSON objects are broken into lines

An object is written on one line, or a field a line, each line after a unit of indentation for every object
around it. The format is what a layout remembers from one mark to the next.
-/

namespace ClaimRelay.Json

inductive Layout
  | compact
  | indented (unit : List Char)
  deriving DecidableEq

/-- Two spaces for each object. -/
def Layout.pretty : Layout := .indented [' ', ' ']

structure Format where
  layout : Layout
  /-- How many objects have been begun and not ended. -/
  depth : Nat := 0
  /-- Whether a field has ended since the last object began. -/
  hasField : Bool := false

namespace Format

def objectBegun (f : Format) : Format := { f with depth := f.depth + 1, hasField := false }

/-- A layout with lines has to have an object begun for each that ends. On one line nothing hangs on the count. -/
def objectEnded? (f : Format) : Option Format :=
  match f.layout, f.depth with
  | .indented _, 0 => none
  | _, depth => some { f with depth := depth - 1 }

def fieldEnded (f : Format) : Format := { f with hasField := true }

theorem objectEnded?_cases (f : Format) :
    (f.layout ≠ .compact ∧ f.depth = 0 ∧ f.objectEnded? = none) ∨
      ((f.layout = .compact ∨ 0 < f.depth) ∧ f.objectEnded? = some { f with depth := f.depth - 1 }) := by
  obtain ⟨layout, depth, hasField⟩ := f
  cases layout with
  | compact => exact .inr ⟨.inl rfl, rfl⟩
  | indented unit =>
    cases depth with
    | zero => exact .inl ⟨nofun, rfl, rfl⟩
    | succ depth => exact .inr ⟨.inr depth.succ_pos, rfl⟩

theorem objectEnded?_succ (l : Layout) (depth : Nat) (hasField : Bool) :
    objectEnded? ⟨l, depth + 1, hasField⟩ = some ⟨l, depth, hasField⟩ := by
  cases l <;> rfl

end Format

end ClaimRelay.Json
