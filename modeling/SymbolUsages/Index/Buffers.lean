/-!
# Editor buffers

The buffers are the files that clients hold open with contents of their own. There is
at most one per name, and they are kept in the order of their last updates. An
iteration works on the list as it stood when it began.
-/

namespace SymbolUsages

/-- An editor's contents of a file: a text of characters, so that it can be encoded. -/
structure Buffer where
  name : String
  contents : String
deriving DecidableEq, Repr

/-- How many characters a buffer has. -/
def Buffer.length (b : Buffer) : Nat := b.contents.length

/-- All buffers, the one updated last at the end. -/
structure Buffers where
  toList : List Buffer := []
deriving DecidableEq, Repr

namespace Buffers

def empty : Buffers := {}

def size (bs : Buffers) : Nat := bs.toList.length

/-- The buffer of a name. -/
def get? (bs : Buffers) (name : String) : Option Buffer :=
  bs.toList.find? fun b => b.name == name

def contains (bs : Buffers) (name : String) : Bool :=
  bs.toList.any fun b => b.name == name

/-- All buffers but the one of a name. -/
def erase (bs : Buffers) (name : String) : Buffers :=
  { toList := bs.toList.filter fun b => b.name != name }

/-- Drop the buffer of a name; the answer is whether there was one. -/
def remove (bs : Buffers) (name : String) : Bool × Buffers :=
  (bs.contains name, bs.erase name)

/-- Set the contents of a name, whose buffer becomes the last one. -/
def update (bs : Buffers) (name contents : String) : Buffers :=
  { toList := (bs.erase name).toList ++ [{ name, contents }] }

@[simp] theorem toList_empty : empty.toList = [] := rfl

@[simp] theorem toList_erase (bs : Buffers) (name : String) :
    (bs.erase name).toList = bs.toList.filter fun b => b.name != name := rfl

@[simp] theorem toList_update (bs : Buffers) (name contents : String) :
    (bs.update name contents).toList = (bs.erase name).toList ++ [⟨name, contents⟩] := rfl

end Buffers

/-- An iteration over buffers: those still to come. -/
structure BufferIterator where
  rest : List Buffer

namespace BufferIterator

/-- Begin an iteration. -/
def ofBuffers (bs : Buffers) : BufferIterator := { rest := bs.toList }

/-- The next buffer, and the iteration after it. -/
def next? (it : BufferIterator) : Option Buffer × BufferIterator :=
  match it.rest with
  | [] => (none, it)
  | b :: rest => (some b, { rest })

end BufferIterator

end SymbolUsages
