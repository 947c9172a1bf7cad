import JvmOutline.Proofs.Assembly.Interning
import JvmOutline.Proofs.ClassFile.RoundTrip

/-!
# Requests — the pools that come up

A pool is filled by asking for constants, one after the other.  `Pool.Request` lists the constants
that can be asked for, and `Pool.after` is the pool after some of them were.

An index that is handed out leads to what was asked for, in every later pool
(`Pool.Request.yields_index`), and so do all indexes of a sequence of requests
(`Pool.Request.yields_indexes`).  A pool that fits its count is read back from its bytes
(`Pool.Sound.run_reader_layout`).
-/

namespace JvmOutline

open Interning

namespace Pool

/-- A constant that is asked for; classes and strings are asked for by their texts. -/
inductive Request where
  | utf8 (text : String)
  | classRef (name : String)
  | string (text : String)
  | integer (value : Int32)
  | long (value : Int64)
  | float (bits : UInt32)
  | double (bits : UInt64)
deriving DecidableEq

namespace Request

/-- The index that is handed out. -/
def index : Request → Interning UInt16
  | utf8 text => internText text
  | classRef name => internClass name
  | string text => internString text
  | integer value => intern (.integer value)
  | long value => intern (.long value)
  | float bits => intern (.float bits)
  | double bits => intern (.double bits)

/-- Whether the text is short, if there is one. -/
def isShort : Request → Bool
  | utf8 text => Utf8.isShort text
  | classRef name => Utf8.isShort name
  | string text => Utf8.isShort text
  | _ => true

/-- The index leads to what was asked for. -/
def Found (pool : Pool) : Request → UInt16 → Prop
  | utf8 text, index => pool.HasText index text
  | classRef name, index => pool.HasClass index name
  | string text, index => ∃ textIndex,
      pool.entry? index = some (.string textIndex) ∧ pool.HasText textIndex text
  | integer value, index => pool.entry? index = some (.integer value)
  | long value, index => pool.entry? index = some (.long value)
  | float bits, index => pool.entry? index = some (.float bits)
  | double bits, index => pool.entry? index = some (.double bits)

theorem yields_index {r : Request} (h : r.isShort = true) :
    Yields r.index fun later index => r.Found later index := by
  cases r with
  | utf8 text => exact yields_internText h
  | classRef name => exact yields_internClass h
  | string text => exact yields_internString h
  | integer | long | float | double => exact yields_intern trivial

theorem yields_indexes {rs : List Request} (h : ∀ r ∈ rs, r.isShort = true) :
    Yields (rs.mapM index) fun later indexes =>
      List.Forall₂ (fun r index => r.Found later index) rs indexes :=
  .mapM fun r hr => yields_index (h r hr)

end Request

/-! ### The pool after requests -/

variable {pool : Pool} {rs : List Request}

/-- The pool after some constants were asked for. -/
def after (pool : Pool) (rs : List Request) : Pool := ((rs.mapM Request.index).run pool).2

theorem Sound.after (hp : pool.Sound) (h : ∀ r ∈ rs, r.isShort = true) : (pool.after rs).Sound :=
  (Request.yields_indexes h pool hp).1

theorem Sound.extends_after (hp : pool.Sound) (h : ∀ r ∈ rs, r.isShort = true) :
    pool.Extends (pool.after rs) :=
  (Request.yields_indexes h pool hp).2.1

/-- A pool that was filled by requests is read back. -/
theorem Sound.run_reader_layout (hp : pool.Sound) (hsize : pool.size ≤ 65534) (rest : Bytes) :
    reader.run (pool.layout (fun text => Utf8.encode text.toList) ++ rest) = .ok (pool, rest) := by
  have hlayout : Layout (pool.layout fun text => Utf8.encode text.toList) pool :=
    layout_of_spelled hp.shaped hsize ModifiedUtf8.decode_encodeUtf8
      fun _ ht => of_decide_eq_true (hp.isShort ht)
  exact (reads_reader _).run hlayout (Nat.lt_succ_self _)

end Pool

end JvmOutline
