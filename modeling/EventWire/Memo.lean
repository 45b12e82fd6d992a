/-
EventWire.Memo — cells that remember a value once it has been asked for.

The type of a cell names the value it may hold, so a cell can be empty but never stale: whoever
changes what the value depends on needs a cell of another type. Reading gives the same value from
a full cell as from an empty one (`Memo.get_eq`).
-/
namespace EventWire

universe u

/-- A cell that is empty or holds `value`. -/
def Memo {α : Type u} (value : α) : Type u := Option { x : α // x = value }

namespace Memo

variable {α : Type u} {value : α}

def empty : Memo value := none

instance : Inhabited (Memo value) := ⟨empty⟩

def isFull (cell : Memo value) : Bool := Option.isSome cell

/-- The remembered value, or the value worked out anew. -/
def get : Memo value → α
  | some ⟨x, _⟩ => x
  | none => value

@[simp] theorem get_eq : (cell : Memo value) → cell.get = value
  | some ⟨_, h⟩ => h
  | none => rfl

/-- The cell after it has been read. -/
def fill (cell : Memo value) : Memo value := some ⟨cell.get, cell.get_eq⟩

/-- The same cell, where the value is written in another way. -/
def cast {other : α} (h : value = other) (cell : Memo value) : Memo other := h ▸ cell

@[simp] theorem isFull_fill (cell : Memo value) : cell.fill.isFull := rfl

@[simp] theorem isFull_empty : (empty : Memo value).isFull = false := rfl

end Memo

end EventWire
