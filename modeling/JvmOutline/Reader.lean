import JvmOutline.Bytes
import JvmOutline.FormatError

/-!
# Readers — values from the front of a byte string

A reader takes a value off the front of the input and leaves the rest, or fails.  `u1`, `u2`, `u4`
and `u8` read a number of that many bytes, `take` a block of bytes, and `times` a counted list.
A read that needs more bytes than are left fails and takes nothing.

**Counted lists** (`times_succ`): the reader of a list of `n + 1` items reads an item, then a list
of `n` items.
-/

namespace JvmOutline

/-- A step that takes a value off the front of the input. -/
abbrev Reader := StateT Bytes (Except FormatError)

namespace Reader

variable {α β : Type}

/-- Fails without looking at the input. -/
def fail (e : FormatError) : Reader α := fun _ => .error e

/-- Brings the outcome of a look-up into a reader, which takes no input for it. -/
def check (x : Except FormatError α) : Reader α := fun input =>
  match x with
  | .ok a => .ok (a, input)
  | .error e => .error e

/-- The next `n` bytes; fails with `short` if fewer are left. -/
def takeOr (short : FormatError) (n : Nat) : Reader Bytes := fun input =>
  let block := input.take n
  if block.length = n then .ok (block, input.drop n) else .error short

/-- The next `n` bytes. -/
def take (n : Nat) : Reader Bytes := takeOr .endOfInput n

/-- Steps over the next `n` bytes. -/
def skip (n : Nat) : Reader Unit := do
  let _ ← take n

/-- A byte. -/
def u1 : Reader UInt8 := fun
  | [] => .error .endOfInput
  | b :: rest => .ok (b, rest)

/-- A number of two bytes. -/
def u2 : Reader UInt16 := do
  return .ofNat (Bytes.toNat (← take 2))

/-- A number of four bytes. -/
def u4 : Reader UInt32 := do
  return .ofNat (Bytes.toNat (← take 4))

/-- A number of eight bytes. -/
def u8 : Reader UInt64 := do
  return .ofNat (Bytes.toNat (← take 8))

/-- Reads `n` more items after those read before, which are held newest first. -/
def timesFrom (item : Reader α) (before : List α) : Nat → Reader (List α)
  | 0 => pure before.reverse
  | n + 1 => do
    let a ← item
    timesFrom item (a :: before) n

/-- A list of `n` items. -/
def times (n : Nat) (item : Reader α) : Reader (List α) := timesFrom item [] n

/-- A list preceded by the number of its items, in two bytes. -/
def counted2 (item : Reader α) : Reader (List α) := do
  let n ← u2
  times n.toNat item

/-- A list preceded by the number of its items, in one byte. -/
def counted1 (item : Reader α) : Reader (List α) := do
  let n ← u1
  times n.toNat item

/-! ### The items read so far stand in front -/

theorem timesFrom_eq (item : Reader α) (before : List α) (n : Nat) :
    timesFrom item before n = (do return before.reverse ++ (← times n item)) := by
  unfold times
  suffices h : ∀ (n : Nat) (pre before : List α),
      timesFrom item (before ++ pre) n = (do return pre.reverse ++ (← timesFrom item before n)) by
    simpa using h n before []
  intro n
  induction n with
  | zero => intro pre before; simp [timesFrom]
  | succ n ih =>
    intro pre before
    simp only [timesFrom, bind_assoc]
    exact bind_congr fun a => ih pre (a :: before)

@[simp] theorem times_zero (item : Reader α) : times 0 item = pure [] := rfl

theorem times_succ (item : Reader α) (n : Nat) :
    times (n + 1) item = (do
      let a ← item
      let as ← times n item
      return a :: as) := by
  show (do let a ← item; timesFrom item [a] n) = _
  exact bind_congr fun a => by rw [timesFrom_eq]; rfl

end Reader

end JvmOutline
