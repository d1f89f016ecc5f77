import Ncdc.Base32

/-!
The hash store of `db.c`: `db_fl_addhash` and its readers `db_fl_getfile` and
`db_fl_gettthl`, run on a small model of SQLite that covers the statements `db.c` uses.
`db_fl_gettthl` names columns of the wrong table, so it never prepares.
-/

namespace Ncdc

/-! ### A model of SQLite -/

/-- A value SQLite stores. -/
inductive SqlVal
  | null
  | int (v : Int)
  | text (s : List Char)
  | blob (b : List UInt8)
  deriving DecidableEq, Repr

/-- A table: its columns in order, the `INTEGER PRIMARY KEY` column that names the rowid,
the other columns with a uniqueness constraint, and its rows with their rowids. -/
structure SqlTable where
  columns : List String
  key : Option String
  unique : List String
  rows : List (Nat × List SqlVal)

/-- A database: its tables by name, and `sqlite3_last_insert_rowid`. -/
structure SqlDb where
  tables : List (String × SqlTable)
  lastRowid : Nat

/-- A column reference, qualified by a table's alias or not. -/
structure ColRef where
  source : Option String
  name : String

/-- The conflict clause of an `INSERT`. -/
inductive OnConflict
  | ignore
  | replace

/-- The statements of `db.c`'s hash store. -/
inductive SqlStmt
  /-- `INSERT OR <conflict> INTO <table> (<cols>) VALUES(?, ...)` -/
  | insert (conflict : OnConflict) (table : String) (cols : List String)
  /-- `SELECT <result> FROM <table> <alias> [JOIN <table> <alias> ON <l> = <r>] WHERE
  <cond> = ?` -/
  | select (result : List ColRef) (src : List (String × String)) (join : Option (ColRef × ColRef))
      (cond : ColRef)

/-- A prepared `SELECT`: its tables, and every column reference as the index of its table
and of the column in it. -/
structure SelectPlan where
  tables : List String
  result : List (Nat × Nat)
  join : Option ((Nat × Nat) × (Nat × Nat))
  cond : Nat × Nat

/-- A prepared statement. -/
inductive Prepared
  | insert (conflict : OnConflict) (table : String) (cols : List String)
  | select (plan : SelectPlan)

def SqlDb.table (db : SqlDb) (t : String) : Option SqlTable := db.tables.lookup t

def SqlDb.setTable (db : SqlDb) (t : String) (tb : SqlTable) : SqlDb :=
  { db with tables := db.tables.map fun e => if e.1 = t then (t, tb) else e }

/-- The table and column a reference names: exactly one column of the tables in `FROM`
(of the table it is qualified by) must carry its name. -/
def resolveCol (db : SqlDb) (src : List (String × String)) (r : ColRef) : Option (Nat × Nat) :=
  let found := src.enum.filterMap fun (i, t, a) =>
    if r.source.all (· = a) then
      (db.table t).bind fun tb => (tb.columns.indexOf? r.name).map ((i, ·))
    else none
  match found with
  | [x] => some x
  | _ => none

/-- `sqlite3_prepare_v2`: `none` where SQLite reports an error. -/
def sqlPrepare (db : SqlDb) : SqlStmt → Option Prepared
  | .insert c t cols => do
      let tb ← db.table t
      if cols.all (· ∈ tb.columns) then some (.insert c t cols) else none
  | .select result src join cond => do
      let _ ← src.mapM fun e => db.table e.1
      let result ← result.mapM (resolveCol db src)
      let join ← match join with
        | none => some none
        | some (l, r) => do some (some (← resolveCol db src l, ← resolveCol db src r))
      let cond ← resolveCol db src cond
      some (.select ⟨src.map Prod.fst, result, join, cond⟩)

/-- Every combination of one row from each table, in nested-loop order. -/
def rowProduct : List (List (List SqlVal)) → List (List (List SqlVal))
  | [] => [[]]
  | rs :: rest => rs.flatMap fun r => (rowProduct rest).map (r :: ·)

/-- The value of a resolved column in a combination of rows. -/
def cell (tu : List (List SqlVal)) (ij : Nat × Nat) : SqlVal := (tu.getD ij.1 []).getD ij.2 .null

/-- SQL `=`: `NULL` equals nothing. -/
def sqlEq : SqlVal → SqlVal → Bool
  | .null, _ => false
  | _, .null => false
  | a, b => a == b

/-- The rows a prepared `SELECT` returns for its parameter. -/
def SelectPlan.run (pl : SelectPlan) (db : SqlDb) (arg : SqlVal) : List (List SqlVal) :=
  let srcRows := pl.tables.map fun t => ((db.table t).map fun tb => tb.rows.map Prod.snd).getD []
  ((rowProduct srcRows).filter fun tu =>
      (pl.join.all fun (l, r) => sqlEq (cell tu l) (cell tu r)) && sqlEq (cell tu pl.cond) arg).map
    fun tu => pl.result.map (cell tu)

/-- The next rowid: one past the largest. -/
def SqlTable.nextRowid (tb : SqlTable) : Nat := (tb.rows.map Prod.fst).foldl max 0 + 1

/-- Whether a new row clashes with an old one on the rowid column or a unique column. -/
def SqlTable.clashes (tb : SqlTable) (row old : List SqlVal) : Bool :=
  (tb.key.toList ++ tb.unique).any fun c =>
    match tb.columns.indexOf? c with
    | some j => sqlEq (row.getD j .null) (old.getD j .null)
    | none => false

/-- The row an `INSERT` builds: a named column takes its argument, the rowid column the new
rowid, any other `NULL`. -/
def SqlTable.newRow (tb : SqlTable) (cols : List String) (args : List SqlVal) (rid : Nat) :
    List SqlVal :=
  tb.columns.map fun c =>
    match cols.indexOf? c with
    | some k => args.getD k .null
    | none => if tb.key = some c then .int rid else .null

/-- An `INSERT` with its arguments: `OR IGNORE` leaves a clashing row alone, `OR REPLACE`
deletes the rows it clashes with. -/
def sqlInsert (db : SqlDb) (conflict : OnConflict) (t : String) (cols : List String)
    (args : List SqlVal) : Option SqlDb := do
  let tb ← db.table t
  let rid := tb.nextRowid
  let row := tb.newRow cols args rid
  match conflict with
  | .ignore =>
      if tb.rows.any (tb.clashes row ·.2) then some db
      else some { db.setTable t { tb with rows := tb.rows ++ [(rid, row)] } with lastRowid := rid }
  | .replace =>
      some { db.setTable t { tb with rows := tb.rows.filter (!tb.clashes row ·.2) ++ [(rid, row)] }
        with lastRowid := rid }

/-- `sqlite3_step` with the bound arguments: the database after it and the first row, if
any; `none` when the step fails. -/
def sqlStep (db : SqlDb) : Prepared → List SqlVal → Option (SqlDb × Option (List SqlVal))
  | .insert c t cols, args => (sqlInsert db c t cols args).map (·, none)
  | .select pl, args => some (db, (pl.run db (args.getD 0 .null)).head?)

/-- `sqlite3_column_int64`: `0` for `NULL`. -/
def SqlVal.int64 : SqlVal → Int
  | .int v => v
  | _ => 0

/-- `sqlite3_column_text` -/
def SqlVal.chars : SqlVal → List Char
  | .text s => s
  | _ => []

/-! ### The functions of `db.c` -/

/-- `sqlite3_bind_int64` of a `guint64`: the `gint64` with the same bits. -/
def int64OfUInt64 (n : Nat) : Int := if n < 2 ^ 63 then n else n - 2 ^ 64

/-- A `gint64` assigned to a `guint64`. -/
def uint64OfInt64 (v : Int) : Nat := (v % 2 ^ 64).toNat

theorem uint64OfInt64_int64OfUInt64 {n : Nat} (h : n < 2 ^ 64) :
    uint64OfInt64 (int64OfUInt64 n) = n := by
  unfold uint64OfInt64 int64OfUInt64; split_ifs <;> omega

/-- `INSERT OR IGNORE INTO hashdata (root, size, tthl) VALUES(?, ?, ?)` -/
def insertHashdata : SqlStmt := .insert .ignore "hashdata" ["root", "size", "tthl"]

/-- `INSERT OR REPLACE INTO hashfiles (tth, lastmod, filename) VALUES(?, ?, ?)` -/
def insertHashfiles : SqlStmt := .insert .replace "hashfiles" ["tth", "lastmod", "filename"]

/-- `SELECT tthl FROM hashfiles WHERE root = ?` -/
def selectTthl : SqlStmt :=
  .select [⟨none, "tthl"⟩] [("hashfiles", "hashfiles")] none ⟨none, "root"⟩

/-- `SELECT f.id, f.lastmod, f.tth, d.size FROM hashfiles f JOIN hashdata d ON d.root = f.tth
WHERE f.filename = ?` -/
def selectFile : SqlStmt :=
  .select [⟨some "f", "id"⟩, ⟨some "f", "lastmod"⟩, ⟨some "f", "tth"⟩, ⟨some "d", "size"⟩]
    [("hashfiles", "f"), ("hashdata", "d")] (some (⟨some "d", "root"⟩, ⟨some "f", "tth"⟩))
    ⟨some "f", "filename"⟩

/-- `db_fl_addhash(path, size, lastmod, root, tthl, tthl_len)`: the database after the
transaction and the new `hashfiles.id`; on an error the transaction is rolled back and the
result is `0`. -/
def dbFlAddhash (db : SqlDb) (path : List Char) (size : Nat) (lastmod : Int) (root : Tth)
    (tthl : List UInt8) : SqlDb × Int :=
  let hash := base32Encode root.bytes
  let r : Option (SqlDb × Int) := do
    let s ← sqlPrepare db insertHashdata
    let (db, _) ← sqlStep db s [.text hash, .int (int64OfUInt64 size), .blob tthl]
    let s ← sqlPrepare db insertHashfiles
    let (db, _) ← sqlStep db s [.text hash, .int lastmod, .text path]
    some (db, db.lastRowid)
  r.getD (db, 0)

/-- `db_fl_gettthl(root, &len)`: the blob, or `NULL` on an error, when no row matches, or
when `sqlite3_column_blob` gives `NULL` (for `NULL` and for an empty blob). -/
def dbFlGettthl (db : SqlDb) (root : Tth) : Option (List UInt8) := do
  let s ← sqlPrepare db selectTthl
  let (_, row) ← sqlStep db s [.text (base32Encode root.bytes)]
  match row with
  | some (.blob b :: _) => if b = [] then none else some b
  | _ => none

/-- `db_fl_getfile(path, &lastmod, &size, tth)`: the id and the three values it writes, or
`none` where it returns `0` and writes nothing. -/
def dbFlGetfile (db : SqlDb) (path : List Char) : Option (Int × Int × Nat × List UInt8) := do
  let s ← sqlPrepare db selectFile
  let (_, row) ← sqlStep db s [.text path]
  match row with
  | some [id, lastmod, tth, size] =>
      some (id.int64, lastmod.int64, uint64OfInt64 size.int64, base32Decode tth.chars)
  | _ => none

/-! ### The tables -/

/-- `hashdata(root, size, tthl)`, keyed by `root`, with the given rows. -/
def hashdataTable (rows : List (Nat × List SqlVal)) : SqlTable :=
  ⟨["root", "size", "tthl"], none, ["root"], rows⟩

/-- `hashfiles(id, tth, lastmod, filename)`, `id` the rowid and `filename` unique, with the
given rows. -/
def hashfilesTable (rows : List (Nat × List SqlVal)) : SqlTable :=
  ⟨["id", "tth", "lastmod", "filename"], some "id", ["filename"], rows⟩

/-- The database holds the two tables of the hash store, before any other. -/
def SqlDb.HashTables (db : SqlDb) (drows frows : List (Nat × List SqlVal)) : Prop :=
  ∃ rest, db.tables =
    ("hashdata", hashdataTable drows) :: ("hashfiles", hashfilesTable frows) :: rest

theorem sqlEq_comm (a b : SqlVal) : sqlEq a b = sqlEq b a := by
  cases a <;> cases b <;> simp [sqlEq, eq_comm]

@[simp] theorem sqlEq_self_text (s : List Char) : sqlEq (.text s) (.text s) = true := by
  simp [sqlEq]

/-- The plan `sqlite3_prepare_v2` makes of `selectFile`: the reference `f.id` is column 0
of table 0, and so on. -/
def selectFilePlan : SelectPlan :=
  ⟨["hashfiles", "hashdata"], [(0, 0), (0, 2), (0, 1), (1, 1)], some ((1, 0), (0, 1)), (0, 3)⟩

section Tables

variable {db : SqlDb} {drows frows : List (Nat × List SqlVal)}

theorem SqlDb.HashTables.table_hashdata (h : db.HashTables drows frows) :
    db.table "hashdata" = some (hashdataTable drows) := by
  obtain ⟨rest, h⟩ := h; cases db; simp only at h; subst h; rfl

theorem SqlDb.HashTables.table_hashfiles (h : db.HashTables drows frows) :
    db.table "hashfiles" = some (hashfilesTable frows) := by
  obtain ⟨rest, h⟩ := h; cases db; simp only at h; subst h; rfl

theorem SqlDb.HashTables.setTable_hashdata (h : db.HashTables drows frows)
    (drows' : List (Nat × List SqlVal)) (n : Nat) :
    ({ db.setTable "hashdata" (hashdataTable drows') with lastRowid := n } : SqlDb).HashTables
      drows' frows := by
  obtain ⟨rest, h⟩ := h; exact ⟨_, by simp only [SqlDb.setTable, h, List.map_cons]; rfl⟩

theorem SqlDb.HashTables.setTable_hashfiles (h : db.HashTables drows frows)
    (frows' : List (Nat × List SqlVal)) (n : Nat) :
    ({ db.setTable "hashfiles" (hashfilesTable frows') with lastRowid := n } : SqlDb).HashTables
      drows frows' := by
  obtain ⟨rest, h⟩ := h; exact ⟨_, by simp only [SqlDb.setTable, h, List.map_cons]; rfl⟩

theorem SqlDb.HashTables.prepare_insertHashdata (h : db.HashTables drows frows) :
    sqlPrepare db insertHashdata = some (.insert .ignore "hashdata" ["root", "size", "tthl"]) := by
  obtain ⟨rest, h⟩ := h; cases db; simp only at h; subst h; rfl

theorem SqlDb.HashTables.prepare_insertHashfiles (h : db.HashTables drows frows) :
    sqlPrepare db insertHashfiles =
      some (.insert .replace "hashfiles" ["tth", "lastmod", "filename"]) := by
  obtain ⟨rest, h⟩ := h; cases db; simp only at h; subst h; rfl

theorem SqlDb.HashTables.prepare_selectFile (h : db.HashTables drows frows) :
    sqlPrepare db selectFile = some (.select selectFilePlan) := by
  obtain ⟨rest, h⟩ := h; cases db; simp only at h; subst h; rfl

theorem SqlDb.HashTables.prepare_selectTthl (h : db.HashTables drows frows) :
    sqlPrepare db selectTthl = none := by
  obtain ⟨rest, h⟩ := h; cases db; simp only at h; subst h; rfl

theorem hashdataTable_newRow (d : List (Nat × List SqlVal)) (a b c : SqlVal) (rid : Nat) :
    (hashdataTable d).newRow ["root", "size", "tthl"] [a, b, c] rid = [a, b, c] := rfl

theorem hashfilesTable_newRow (f : List (Nat × List SqlVal)) (a b c : SqlVal) (rid : Nat) :
    (hashfilesTable f).newRow ["tth", "lastmod", "filename"] [a, b, c] rid = [.int rid, a, b, c] :=
  rfl

theorem SqlDb.HashTables.insert_hashdata (h : db.HashTables drows frows) (hash : List Char)
    (size : Int) (tthl : List UInt8)
    (hnew : ∀ r ∈ drows, sqlEq (r.2.getD 0 .null) (.text hash) = false) :
    ∃ db', sqlInsert db .ignore "hashdata" ["root", "size", "tthl"]
        [.text hash, .int size, .blob tthl] = some db' ∧
      db'.HashTables (drows ++ [((hashdataTable drows).nextRowid,
        [.text hash, .int size, .blob tthl])]) frows := by
  have hc : ((hashdataTable drows).rows.any fun r => (hashdataTable drows).clashes
      [.text hash, .int size, .blob tthl] r.2) = false := by
    simp only [List.any_eq_false]
    intro r hr
    simpa [SqlTable.clashes, hashdataTable, List.indexOf?, sqlEq_comm] using hnew r hr
  refine ⟨_, ?_, h.setTable_hashdata _ (hashdataTable drows).nextRowid⟩
  simp only [sqlInsert, h.table_hashdata, Option.bind_eq_bind, Option.some_bind,
    hashdataTable_newRow, hc, Bool.false_eq_true, if_false]
  rfl

theorem SqlDb.HashTables.insert_hashfiles (h : db.HashTables drows frows) (hash : List Char)
    (lastmod : Int) (path : List Char) :
    ∃ db', sqlInsert db .replace "hashfiles" ["tth", "lastmod", "filename"]
        [.text hash, .int lastmod, .text path] = some db' ∧
      db'.lastRowid = (hashfilesTable frows).nextRowid ∧
      db'.HashTables drows (frows.filter (fun r => !(hashfilesTable frows).clashes
          [.int (hashfilesTable frows).nextRowid, .text hash, .int lastmod, .text path] r.2) ++
        [((hashfilesTable frows).nextRowid,
          [.int (hashfilesTable frows).nextRowid, .text hash, .int lastmod, .text path])]) := by
  refine ⟨_, ?_, rfl, h.setTable_hashfiles _ (hashfilesTable frows).nextRowid⟩
  simp only [sqlInsert, h.table_hashfiles, Option.bind_eq_bind, Option.some_bind,
    hashfilesTable_newRow]
  rfl

@[simp] theorem cell_pair_zero (a b : List SqlVal) (j : Nat) :
    cell [a, b] (0, j) = a.getD j .null := rfl

@[simp] theorem cell_pair_one (a b : List SqlVal) (j : Nat) :
    cell [a, b] (1, j) = b.getD j .null := rfl

theorem SqlDb.HashTables.run_selectFile (h : db.HashTables drows frows) (arg : SqlVal) :
    selectFilePlan.run db arg = frows.flatMap fun fr =>
      (drows.filter fun dr => sqlEq (dr.2.getD 0 .null) (fr.2.getD 1 .null) &&
          sqlEq (fr.2.getD 3 .null) arg).map fun dr =>
        [fr.2.getD 0 .null, fr.2.getD 2 .null, fr.2.getD 1 .null, dr.2.getD 1 .null] := by
  simp only [SelectPlan.run, selectFilePlan, h.table_hashfiles, h.table_hashdata, List.map,
    Option.map_some', Option.getD_some, hashdataTable, hashfilesTable, rowProduct,
    List.filter_flatMap,
    List.map_flatMap, List.flatMap_map, Option.all_some, List.filter_cons, List.filter_nil,
    cell_pair_zero, cell_pair_one]
  congr 1; funext fr; clear h
  induction drows with
  | nil => rfl
  | cons dr ds ih =>
      rw [List.flatMap_cons, ih, List.filter_cons]
      split <;> rename_i hc <;> simp only [hc, if_true, if_false, List.map_cons, List.map_nil,
        List.singleton_append, List.nil_append, cell_pair_zero, cell_pair_one]

theorem SqlDb.HashTables.getfile_last {fs ds : List (Nat × List SqlVal)} {rid rid' : Nat}
    {id lastmod sz : Int} {hash path : List Char} {tthl : SqlVal}
    (h : db.HashTables (ds ++ [(rid', [.text hash, .int sz, tthl])])
      (fs ++ [(rid, [.int id, .text hash, .int lastmod, .text path])]))
    (hf : ∀ fr ∈ fs, sqlEq (fr.2.getD 3 .null) (.text path) = false)
    (hd : ∀ dr ∈ ds, sqlEq (dr.2.getD 0 .null) (.text hash) = false) :
    dbFlGetfile db path = some (id, lastmod, uint64OfInt64 sz, base32Decode hash) := by
  have hrun :
      selectFilePlan.run db (.text path) = [[.int id, .int lastmod, .text hash, .int sz]] := by
    simp only [List.getD_eq_getElem?_getD] at hf hd
    rw [h.run_selectFile, List.flatMap_append, List.flatMap_eq_nil_iff.2 ?_, List.flatMap_singleton,
      List.filter_append, List.filter_eq_nil_iff.2 ?_]
    · simp
    · intro dr hdr; simp [hd dr hdr]
    · intro fr hfr; simp [hf fr hfr]
  simp [dbFlGetfile, h.prepare_selectFile, sqlStep, hrun, SqlVal.int64, SqlVal.chars]

end Tables

/-! ### The readers against the writer -/

theorem dbFlGettthl_none {db : SqlDb} {drows frows : List (Nat × List SqlVal)}
    (h : db.HashTables drows frows) (root : Tth) : dbFlGettthl db root = none := by
  simp [dbFlGettthl, h.prepare_selectTthl]

theorem hashfilesTable_clashes (f : List (Nat × List SqlVal)) (row old : List SqlVal) :
    (hashfilesTable f).clashes row old =
      (sqlEq (row.getD 0 .null) (old.getD 0 .null) ||
        sqlEq (row.getD 3 .null) (old.getD 3 .null)) := by
  simp [SqlTable.clashes, hashfilesTable, List.indexOf?]

/-- After `db_fl_addhash` of a root not recorded before, `db_fl_getfile` returns the id it
returned, with the lastmod, size and root written; `db_fl_gettthl` returns `NULL`. -/
theorem hash_store_readers (db : SqlDb) (drows frows : List (Nat × List SqlVal))
    (h : db.HashTables drows frows) (path : List Char) (size : Nat) (hsize : size < 2 ^ 64)
    (lastmod : Int) (root : Tth) (tthl : List UInt8)
    (hnew : ∀ r ∈ drows, sqlEq (r.2.getD 0 .null) (.text (base32Encode root.bytes)) = false) :
    dbFlGetfile (dbFlAddhash db path size lastmod root tthl).1 path =
        some ((dbFlAddhash db path size lastmod root tthl).2, lastmod, size, root.bytes) ∧
      dbFlGettthl (dbFlAddhash db path size lastmod root tthl).1 root = none := by
  obtain ⟨db1, hi1, h1⟩ := h.insert_hashdata _ (int64OfUInt64 size) tthl hnew
  obtain ⟨db2, hi2, hrid, h2⟩ := h1.insert_hashfiles (base32Encode root.bytes) lastmod path
  have hadd : dbFlAddhash db path size lastmod root tthl = (db2, (db2.lastRowid : Int)) := by
    simp only [dbFlAddhash, h.prepare_insertHashdata, h1.prepare_insertHashfiles, sqlStep, hi1, hi2,
      Option.bind_eq_bind, Option.some_bind, Option.map_some', Option.getD_some]
  rw [hadd]
  refine ⟨?_, dbFlGettthl_none h2 root⟩
  rw [h2.getfile_last (fun fr hfr => ?_) hnew, hrid, base32Decode_encode,
    uint64OfInt64_int64OfUInt64 hsize]
  have := (List.mem_filter.1 hfr).2
  simp only [hashfilesTable_clashes, Bool.not_or, Bool.and_eq_true, Bool.not_eq_true'] at this
  rw [sqlEq_comm]; exact this.2

/-- The two tables, empty. -/
def emptyHashStore : SqlDb :=
  ⟨[("hashdata", hashdataTable []), ("hashfiles", hashfilesTable [])], 0⟩

/-- A one-byte tree of leaves for `/a`: `db_fl_getfile` finds the file, `db_fl_gettthl` finds
nothing. -/
theorem addhash_tthl_unreadable :
    dbFlGetfile (dbFlAddhash emptyHashStore "/a".toList 5 0 Tth.zero [1]).1 "/a".toList =
        some ((dbFlAddhash emptyHashStore "/a".toList 5 0 Tth.zero [1]).2, 0, 5, Tth.zero.bytes) ∧
      dbFlGettthl (dbFlAddhash emptyHashStore "/a".toList 5 0 Tth.zero [1]).1 Tth.zero = none :=
  hash_store_readers emptyHashStore [] [] ⟨[], rfl⟩ "/a".toList 5 (by decide) 0 Tth.zero [1]
    (fun _ h => absurd h (List.not_mem_nil _))

end Ncdc
