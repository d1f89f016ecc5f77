import Ncdc.Db.Queue

/-!
The array `db_queue_create` packs a statement into, and the loop of `db_queue_process` that
walks it back: the decoder binds exactly the packed arguments and stops at the `DBQ_END` the
encoder appended.
-/

namespace Ncdc

/-- A word of the `va_list` of `db_queue_create` or of the array it builds: an `int` (a tag,
an `int` value or a blob length; `GINT_TO_POINTER` and `GPOINTER_TO_INT` keep every
`gint`), or a pointer to a `gint64`, a text or a blob. -/
inductive DbWord
  | int (v : Int)
  | int64 (v : Int)
  | text (s : List Char)
  | blob (b : List UInt8)
  deriving DecidableEq, Repr

/-- An argument of `db_queue_create` as its caller writes it, which is also the binding
`db_queue_process` makes of it: `sqlite3_bind_null`, `_int`, `_int64`, `_text`, and
`_blob` with its length. -/
inductive DbParam
  | null
  | int (v : Int)
  | int64 (v : Int)
  | text (s : List Char)
  | blob (len : Int) (b : List UInt8)
  deriving DecidableEq, Repr

/-- The `va_arg`s of one argument: `DBQ_NULL`, `DBQ_INT v`, `DBQ_INT64 v`, `DBQ_TEXT s`,
`DBQ_BLOB len ptr`. -/
def DbParam.vaArgs : DbParam → List DbWord
  | .null => [.int 1]
  | .int v => [.int 2, .int v]
  | .int64 v => [.int 3, .int64 v]
  | .text s => [.int 4, .text s]
  | .blob len b => [.int 5, .int len, .blob b]

/-! ### `db_queue_create` -/

/-- The loop of `db_queue_create` over the `va_list`: the words it adds to the array, up to
and with the `DBQ_END` it appends. `none` for `g_return_val_if_reached(NULL)` on an
unknown tag, and for a `va_arg` of the wrong type, whose behaviour is undefined. -/
def dbQueueCreateArgs : List DbWord → Option (List DbWord)
  | .int 0 :: _ => some [.int 0]
  | .int 1 :: va => (dbQueueCreateArgs va).map (.int 1 :: ·)
  | .int 2 :: .int v :: va => (dbQueueCreateArgs va).map (.int 2 :: .int v :: ·)
  | .int 3 :: .int64 v :: va => (dbQueueCreateArgs va).map (.int 3 :: .int64 v :: ·)
  | .int 4 :: .text s :: va => (dbQueueCreateArgs va).map (.int 4 :: .text s :: ·)
  | .int 5 :: .int n :: .blob b :: va =>
      (dbQueueCreateArgs va).map (.int 5 :: .int n :: .blob b :: ·)
  | _ => none

/-- `db_queue_create(q, ...)`: the query's pointer, then the loop's words. -/
def dbQueueCreate (q : List Char) (va : List DbWord) : Option (List DbWord) :=
  (dbQueueCreateArgs va).map (.text q :: ·)

/-- The encoder copies the words of well-tagged arguments and stops at their `DBQ_END`,
whatever follows it. -/
theorem dbQueueCreateArgs_vaArgs (extra : List DbWord) :
    ∀ ps : List DbParam,
      dbQueueCreateArgs (ps.flatMap DbParam.vaArgs ++ .int 0 :: extra) =
        some (ps.flatMap DbParam.vaArgs ++ [.int 0])
  | [] => rfl
  | p :: ps => by
      have ih := congrArg (Option.map (p.vaArgs ++ ·)) (dbQueueCreateArgs_vaArgs extra ps)
      simp only [List.flatMap_cons, List.append_assoc]
      cases p <;> exact ih

/-! ### The loop of `db_queue_process` -/

/-- The decoding loop of `db_queue_process` from parameter `i` on: the bindings it makes, an unknown
tag binding nothing but counting a parameter, and the words after its `DBQ_END`. `none` where it
reads a pointer as an `int` or runs past the array. -/
def dbQueueDecode (i : Nat) : List DbWord → Option (List (Nat × DbParam) × List DbWord)
  | .int 0 :: a => some ([], a)
  | .int 1 :: a => (dbQueueDecode (i + 1) a).map fun r => ((i, .null) :: r.1, r.2)
  | .int 2 :: .int v :: a => (dbQueueDecode (i + 1) a).map fun r => ((i, .int v) :: r.1, r.2)
  | .int 3 :: .int64 v :: a =>
      (dbQueueDecode (i + 1) a).map fun r => ((i, .int64 v) :: r.1, r.2)
  | .int 4 :: .text s :: a => (dbQueueDecode (i + 1) a).map fun r => ((i, .text s) :: r.1, r.2)
  | .int 5 :: .int n :: .blob b :: a =>
      (dbQueueDecode (i + 1) a).map fun r => ((i, .blob n b) :: r.1, r.2)
  | .int t :: a => if t < 0 ∨ 5 < t then dbQueueDecode (i + 1) a else none
  | _ => none

/-- `db_queue_process` on one popped array: the SQL text it prepares, the bindings and
what follows the `DBQ_END`. -/
def dbQueueRead : List DbWord → Option (List Char × List (Nat × DbParam) × List DbWord)
  | .text q :: a => (dbQueueDecode 1 a).map fun r => (q, r.1, r.2)
  | _ => none

/-- The decoder binds the packed arguments to consecutive parameters from `i` and stops at
their `DBQ_END`, whatever follows it. -/
theorem dbQueueDecode_vaArgs (extra : List DbWord) :
    ∀ (ps : List DbParam) (i : Nat),
      dbQueueDecode i (ps.flatMap DbParam.vaArgs ++ .int 0 :: extra) = some (ps.enumFrom i, extra)
  | [], _ => rfl
  | p :: ps, i => by
      have ih := congrArg (Option.map fun r => ((i, p) :: r.1, r.2))
        (dbQueueDecode_vaArgs extra ps (i + 1))
      simp only [List.flatMap_cons, List.append_assoc]
      cases p <;> exact ih

/-- For every query and well-tagged argument list ending in `DBQ_END`, `db_queue_process` reads back
from the array `db_queue_create` builds the query, and binds exactly those arguments to the
parameters `1..n`, stopping at the array's last word. -/
theorem db_queue_pack_round_trip (q : List Char) (ps : List DbParam) (extra : List DbWord) :
    dbQueueCreate q (ps.flatMap DbParam.vaArgs ++ .int 0 :: extra) =
        some (.text q :: ps.flatMap DbParam.vaArgs ++ [.int 0]) ∧
      dbQueueRead (.text q :: ps.flatMap DbParam.vaArgs ++ [.int 0]) =
        some (q, ps.enumFrom 1, []) := by
  refine ⟨by rw [dbQueueCreate, dbQueueCreateArgs_vaArgs]; rfl, ?_⟩
  rw [List.cons_append, dbQueueRead, dbQueueDecode_vaArgs]
  rfl

end Ncdc
