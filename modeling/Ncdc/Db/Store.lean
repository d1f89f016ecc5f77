import Ncdc.Db.Hash

/-!
The rest of the hash store of `db.c`: `db_fl_rmfiles`, `db_fl_getids` and `db_fl_purgedata`.
Above the SQL sits a typed view of the two tables (`HashStore`) whose invariant every reachable
state keeps; there the readers answer as a map from each path to its last `db_fl_addhash`.
-/

namespace Ncdc

/-! ### Two more statement shapes -/

/-- `DELETE FROM <table> WHERE <col> = ?`, and `DELETE FROM <table> WHERE NOT EXISTS(SELECT
1 FROM <sub> WHERE <a> = <b>)` with `a` and `b` unqualified. -/
inductive SqlDelete
  | byParam (table col : String)
  | notExists (table sub a b : String)

/-- A prepared `DELETE`: the column the parameter is compared with, or where each side of
the subquery's equality was found (`true` for the subquery's table). -/
inductive PreparedDelete
  | byParam (table : String) (j : Nat)
  | notExists (table sub : String) (a b : Bool × Nat)

/-- An unqualified name in the subquery: a column of the subquery's table if it has one,
else of the outer table. -/
def resolveSub (inner outer : SqlTable) (c : String) : Option (Bool × Nat) :=
  match inner.columns.indexOf? c with
  | some j => some (true, j)
  | none => (outer.columns.indexOf? c).map ((false, ·))

/-- `sqlite3_prepare_v2` of a `DELETE`. -/
def sqlPrepareDelete (db : SqlDb) : SqlDelete → Option PreparedDelete
  | .byParam t c => do
      let tb ← db.table t
      let j ← tb.columns.indexOf? c
      some (.byParam t j)
  | .notExists t sub a b => do
      let tb ← db.table t
      let sb ← db.table sub
      let a ← resolveSub sb tb a
      let b ← resolveSub sb tb b
      some (.notExists t sub a b)

/-- The value of a resolved name for a row of the outer table and one of the subquery's. -/
def subCell (outer inner : List SqlVal) : Bool × Nat → SqlVal
  | (true, j) => inner.getD j .null
  | (false, j) => outer.getD j .null

/-- `sqlite3_step` of a prepared `DELETE` with its argument: the rows that satisfy the
`WHERE` clause are gone. -/
def sqlStepDelete (db : SqlDb) : PreparedDelete → SqlVal → Option SqlDb
  | .byParam t j, arg => do
      let tb ← db.table t
      some (db.setTable t
        { tb with rows := tb.rows.filter fun (r : Nat × List SqlVal) =>
            !sqlEq (r.2.getD j .null) arg })
  | .notExists t sub a b, _ => do
      let tb ← db.table t
      let sb ← db.table sub
      some (db.setTable t { tb with rows := tb.rows.filter (fun r =>
        sb.rows.any fun s => sqlEq (subCell r.2 s.2 a) (subCell r.2 s.2 b)) })

/-- `memcmp` order on two strings of bytes or characters, a proper prefix first. -/
def memcmpLe : List Nat → List Nat → Bool
  | [], _ => true
  | _ :: _, [] => false
  | a :: as, b :: bs => a < b || (a == b && memcmpLe as bs)

/-- SQLite's order for `ORDER BY ... ASC`: `NULL` first, then integers by value, then text
and blobs, each compared as `memcmp` does. -/
def SqlVal.le : SqlVal → SqlVal → Bool
  | .null, _ => true
  | _, .null => false
  | .int a, .int b => decide (a ≤ b)
  | .int _, _ => true
  | _, .int _ => false
  | .text s, .text t => memcmpLe (s.map Char.toNat) (t.map Char.toNat)
  | .text _, .blob _ => true
  | .blob _, .text _ => false
  | .blob a, .blob b => memcmpLe (a.map UInt8.toNat) (b.map UInt8.toNat)

/-- `SELECT <col> FROM <table> ORDER BY <col> ASC` -/
structure SqlOrdered where
  table : String
  col : String

/-- `sqlite3_prepare_v2` of an ordered `SELECT`: its table and the column's index. -/
def sqlPrepareOrdered (db : SqlDb) (q : SqlOrdered) : Option (String × Nat) := do
  let tb ← db.table q.table
  let j ← tb.columns.indexOf? q.col
  some (q.table, j)

/-- The values an ordered `SELECT` returns, stepping through all its rows. -/
def sqlRunOrdered (db : SqlDb) (p : String × Nat) : List SqlVal :=
  (((db.table p.1).map fun tb => tb.rows.map fun r => r.2.getD p.2 .null).getD []).mergeSort
    SqlVal.le

/-! ### The functions of `db.c` -/

/-- `DELETE FROM hashfiles WHERE id = ?` -/
def deleteHashfile : SqlDelete := .byParam "hashfiles" "id"

/-- `DELETE FROM hashdata WHERE NOT EXISTS(SELECT 1 FROM hashfiles WHERE tth = root)` -/
def purgeHashdata : SqlDelete := .notExists "hashdata" "hashfiles" "tth" "root"

/-- `SELECT id FROM hashfiles ORDER BY id ASC` -/
def selectIds : SqlOrdered := ⟨"hashfiles", "id"⟩

/-- `db_fl_rmfiles(ids, num)`: one transaction that binds each id in turn and deletes its
rows; on an error it is rolled back. -/
def dbFlRmfiles (db : SqlDb) (ids : List Int) : SqlDb :=
  let r : Option SqlDb := do
    let s ← sqlPrepareDelete db deleteHashfile
    ids.foldlM (fun db id => sqlStepDelete db s (.int id)) db
  r.getD db

/-- `db_fl_getids(callback)`: the ids `callback` is called with, in order; none when the
statement does not prepare. -/
def dbFlGetids (db : SqlDb) : List Int :=
  ((sqlPrepareOrdered db selectIds).map fun p => (sqlRunOrdered db p).map SqlVal.int64).getD []

/-- `db_fl_purgedata()`: `sqlite3_exec` of one `DELETE`, which SQLite runs atomically. -/
def dbFlPurgedata (db : SqlDb) : SqlDb :=
  ((sqlPrepareDelete db purgeHashdata).bind fun s => sqlStepDelete db s .null).getD db

/-! ### The tables as records -/

/-- A `hashdata` row as `db_fl_addhash` writes it: its rowid, the root in base32, the size as
a `gint64` and the tree of leaves. -/
structure DataRec where
  rid : Nat
  hash : List Char
  size : Int
  tthl : List UInt8
  deriving DecidableEq, Repr

/-- A `hashfiles` row as `db_fl_addhash` writes it: the id (its rowid), the root in base32,
the lastmod and the path. -/
structure FileRec where
  id : Nat
  hash : List Char
  lastmod : Int
  path : List Char
  deriving DecidableEq, Repr

/-- The row of a `hashdata` record. -/
def DataRec.row (d : DataRec) : Nat × List SqlVal :=
  (d.rid, [.text d.hash, .int d.size, .blob d.tthl])

/-- The row of a `hashfiles` record. -/
def FileRec.row (f : FileRec) : Nat × List SqlVal :=
  (f.id, [.int f.id, .text f.hash, .int f.lastmod, .text f.path])

/-- The two tables of the hash store, record by record. -/
structure HashStore where
  data : List DataRec
  files : List FileRec
  deriving DecidableEq, Repr

/-- The database holds the rows of the store. -/
def SqlDb.Holds (db : SqlDb) (S : HashStore) : Prop :=
  db.HashTables (S.data.map DataRec.row) (S.files.map FileRec.row)

namespace HashStore

/-- The rowid an `INSERT` gives a new `hashfiles` row: one past the largest. -/
def nextId (S : HashStore) : Nat := (S.files.map FileRec.id).foldl max 0 + 1

/-- The rowid an `INSERT` gives a new `hashdata` row. -/
def nextRid (S : HashStore) : Nat := (S.data.map DataRec.rid).foldl max 0 + 1

/-- The `hashdata` records after `INSERT OR IGNORE` of a root in base32: a new record unless
one holds the root. -/
def addData (S : HashStore) (hash : List Char) (size : Int) (tthl : List UInt8) :
    List DataRec :=
  if S.data.any (·.hash = hash) then S.data else S.data ++ [⟨S.nextRid, hash, size, tthl⟩]

/-- The `hashfiles` records after `INSERT OR REPLACE`: the new record replaces the one of the
same path. -/
def addFile (S : HashStore) (hash : List Char) (lastmod : Int) (path : List Char) :
    List FileRec :=
  S.files.filter (·.path ≠ path) ++ [⟨S.nextId, hash, lastmod, path⟩]

/-- The records after `db_fl_addhash(path, size, lastmod, root, tthl, tthl_len)`, `hash` being
the root in base32. -/
def addhash (S : HashStore) (path : List Char) (size : Nat) (lastmod : Int) (hash : List Char)
    (tthl : List UInt8) : HashStore :=
  ⟨S.addData hash (int64OfUInt64 size) tthl, S.addFile hash lastmod path⟩

/-- The records after `db_fl_rmfiles(ids)`. -/
def rmfiles (S : HashStore) (ids : List Int) : HashStore :=
  { S with files := S.files.filter fun f => (f.id : Int) ∉ ids }

/-- The records after `db_fl_purgedata()`: the `hashdata` records some file refers to. -/
def purgedata (S : HashStore) : HashStore :=
  { S with data := S.data.filter fun d => S.files.any (·.hash = d.hash) }

/-- The size `hashdata` holds for a root. -/
def sizeOf (S : HashStore) (hash : List Char) : Option Int :=
  (S.data.find? (·.hash = hash)).map (·.size)

/-- What `db_fl_getfile(path)` finds: the file of that path, with the size of its root. -/
def lookup (S : HashStore) (path : List Char) : Option (Int × Int × Nat × List UInt8) := do
  let f ← S.files.find? (·.path = path)
  let s ← S.sizeOf f.hash
  some (f.id, f.lastmod, uint64OfInt64 s, base32Decode f.hash)

/-- What the writers keep of the tables: `INSERT OR IGNORE` keeps roots unique and `INSERT OR
REPLACE` file names, new ids are larger than all others, and no file refers to a missing
root. -/
structure Ok (S : HashStore) : Prop where
  roots : (S.data.map DataRec.hash).Nodup
  paths : (S.files.map FileRec.path).Nodup
  ascending : (S.files.map FileRec.id).Pairwise (· < ·)
  linked : ∀ f ∈ S.files, ∃ d ∈ S.data, d.hash = f.hash

end HashStore

/-! ### The statements on the two tables -/

section Tables

variable {db : SqlDb} {drows frows : List (Nat × List SqlVal)}

theorem SqlDb.HashTables.prepare_deleteHashfile (h : db.HashTables drows frows) :
    sqlPrepareDelete db deleteHashfile = some (.byParam "hashfiles" 0) := by
  obtain ⟨rest, h⟩ := h; cases db; simp only at h; subst h; rfl

theorem SqlDb.HashTables.prepare_purgeHashdata (h : db.HashTables drows frows) :
    sqlPrepareDelete db purgeHashdata =
      some (.notExists "hashdata" "hashfiles" (true, 1) (false, 0)) := by
  obtain ⟨rest, h⟩ := h; cases db; simp only at h; subst h; rfl

theorem SqlDb.HashTables.prepare_selectIds (h : db.HashTables drows frows) :
    sqlPrepareOrdered db selectIds = some ("hashfiles", 0) := by
  obtain ⟨rest, h⟩ := h; cases db; simp only at h; subst h; rfl

theorem SqlDb.HashTables.delete_hashfiles (h : db.HashTables drows frows) (v : SqlVal) :
    ∃ db', sqlStepDelete db (.byParam "hashfiles" 0) v = some db' ∧
      db'.HashTables drows (frows.filter fun r => !sqlEq (r.2.getD 0 .null) v) :=
  ⟨_, by simp only [sqlStepDelete, h.table_hashfiles, Option.bind_eq_bind, Option.some_bind]; rfl,
    h.setTable_hashfiles _ db.lastRowid⟩

theorem SqlDb.HashTables.foldlM_delete (h : db.HashTables drows frows) (ids : List Int) :
    ∃ db', ids.foldlM (fun db id => sqlStepDelete db (.byParam "hashfiles" 0) (.int id)) db =
        some db' ∧
      db'.HashTables drows
        (frows.filter fun r => ids.all fun id => !sqlEq (r.2.getD 0 .null) (.int id)) := by
  induction ids generalizing db frows with
  | nil => exact ⟨db, rfl, by simpa using h⟩
  | cons id ids ih =>
    obtain ⟨db1, hs, h1⟩ := h.delete_hashfiles (.int id)
    obtain ⟨db2, hf, h2⟩ := ih h1
    refine ⟨db2, by
      simp only [List.foldlM_cons, hs, Option.bind_eq_bind, Option.some_bind, hf], ?_⟩
    simpa only [List.filter_filter, List.all_cons, Bool.and_comm] using h2

theorem SqlDb.HashTables.rmfiles_rows (h : db.HashTables drows frows) (ids : List Int) :
    (dbFlRmfiles db ids).HashTables drows
      (frows.filter fun r => ids.all fun id => !sqlEq (r.2.getD 0 .null) (.int id)) := by
  obtain ⟨db', hf, h'⟩ := h.foldlM_delete ids
  simpa only [dbFlRmfiles, h.prepare_deleteHashfile, Option.bind_eq_bind, Option.some_bind, hf,
    Option.getD_some] using h'

theorem SqlDb.HashTables.purgedata_rows (h : db.HashTables drows frows) :
    (dbFlPurgedata db).HashTables
      (drows.filter fun r => frows.any fun s => sqlEq (s.2.getD 1 .null) (r.2.getD 0 .null))
      frows := by
  simp only [dbFlPurgedata, h.prepare_purgeHashdata, Option.some_bind, sqlStepDelete,
    h.table_hashdata, h.table_hashfiles, Option.bind_eq_bind, Option.getD_some]
  exact h.setTable_hashdata _ db.lastRowid

theorem SqlDb.HashTables.getids_rows (h : db.HashTables drows frows) :
    dbFlGetids db =
      ((frows.map fun r => r.2.getD 0 .null).mergeSort SqlVal.le).map SqlVal.int64 := by
  simp [dbFlGetids, h.prepare_selectIds, sqlRunOrdered, h.table_hashfiles, hashfilesTable]

theorem SqlDb.HashTables.insert_hashdata_old (h : db.HashTables drows frows) (hash : List Char)
    (size : Int) (tthl : List UInt8)
    (hold : ∃ r ∈ drows, sqlEq (r.2.getD 0 .null) (.text hash) = true) :
    sqlInsert db .ignore "hashdata" ["root", "size", "tthl"] [.text hash, .int size, .blob tthl] =
      some db := by
  have hc : ((hashdataTable drows).rows.any fun r => (hashdataTable drows).clashes
      [.text hash, .int size, .blob tthl] r.2) = true := by
    obtain ⟨r, hr, he⟩ := hold
    exact List.any_eq_true.2
      ⟨r, hr, by simpa [SqlTable.clashes, hashdataTable, List.indexOf?, sqlEq_comm] using he⟩
  simp only [sqlInsert, h.table_hashdata, Option.bind_eq_bind, Option.some_bind,
    hashdataTable_newRow, hc, if_true]

end Tables

@[simp] theorem sqlEq_int (a b : Int) : sqlEq (.int a) (.int b) = decide (a = b) := by
  rw [Bool.eq_iff_iff]; simp [sqlEq]

@[simp] theorem sqlEq_text (s t : List Char) : sqlEq (.text s) (.text t) = decide (s = t) := by
  rw [Bool.eq_iff_iff]; simp [sqlEq]

namespace HashStore

theorem init_le_foldl_max (l : List Nat) (init : Nat) : init ≤ l.foldl max init := by
  induction l generalizing init with
  | nil => exact le_rfl
  | cons b l ih => exact (le_max_left init b).trans (ih _)

theorem le_foldl_max {l : List Nat} {a : Nat} (ha : a ∈ l) (init : Nat) :
    a ≤ l.foldl max init := by
  induction l generalizing init with
  | nil => exact absurd ha (List.not_mem_nil a)
  | cons b l ih =>
    rcases List.mem_cons.1 ha with rfl | ha
    · exact (le_max_right init a).trans (init_le_foldl_max l _)
    · exact ih ha _

theorem id_lt_nextId {S : HashStore} {f : FileRec} (hf : f ∈ S.files) : f.id < S.nextId :=
  Nat.lt_succ_of_le (le_foldl_max (List.mem_map_of_mem _ hf) 0)

end HashStore

/-! ### The invariant -/

namespace HashStore

variable {S : HashStore}

theorem mem_addData {d : DataRec} (hd : d ∈ S.data) (hash : List Char) (size : Int)
    (tthl : List UInt8) : d ∈ S.addData hash size tthl := by
  unfold addData; split_ifs
  · exact hd
  · exact List.mem_append_left _ hd

theorem exists_addData (hash : List Char) (size : Int) (tthl : List UInt8) :
    ∃ d ∈ S.addData hash size tthl, d.hash = hash := by
  unfold addData; split_ifs with hold
  · simpa using List.any_eq_true.1 hold
  · exact ⟨_, List.mem_append_right _ (List.mem_singleton_self _), rfl⟩

theorem mem_addFile {f : FileRec} {hash : List Char} {lastmod : Int} {path : List Char} :
    f ∈ S.addFile hash lastmod path ↔
      (f ∈ S.files ∧ f.path ≠ path) ∨ f = ⟨S.nextId, hash, lastmod, path⟩ := by
  simp [addFile]

theorem Ok.addhash (hok : S.Ok) (path : List Char) (size : Nat) (lastmod : Int)
    (hash : List Char) (tthl : List UInt8) : (S.addhash path size lastmod hash tthl).Ok where
  roots := by
    show ((S.addData hash _ tthl).map DataRec.hash).Nodup
    unfold addData; split_ifs with hold
    · exact hok.roots
    · rw [← List.concat_eq_append, List.map_concat]
      exact hok.roots.concat (by simpa using hold)
  paths := by
    show ((S.addFile hash lastmod path).map FileRec.path).Nodup
    rw [addFile, List.map_append, List.map_singleton, ← List.concat_eq_append]
    exact List.Nodup.concat (by simp) (hok.paths.sublist ((List.filter_sublist _).map _))
  ascending := by
    show ((S.addFile hash lastmod path).map FileRec.id).Pairwise (· < ·)
    simp only [addFile, List.map_append, List.map_singleton, List.pairwise_append,
      List.pairwise_singleton, true_and, List.mem_singleton]
    refine ⟨hok.ascending.sublist ((List.filter_sublist _).map _), ?_⟩
    rintro _ ha _ rfl
    obtain ⟨f, hf, rfl⟩ := List.mem_map.1 ha
    exact id_lt_nextId (List.mem_filter.1 hf).1
  linked f hf := by
    rcases mem_addFile.1 hf with ⟨hf, -⟩ | rfl
    · obtain ⟨d, hd, he⟩ := hok.linked f hf
      exact ⟨d, mem_addData hd _ _ _, he⟩
    · exact exists_addData _ _ _

theorem ok_empty : (⟨[], []⟩ : HashStore).Ok :=
  ⟨.nil, .nil, .nil, fun _ h => absurd h (List.not_mem_nil _)⟩

theorem Ok.rmfiles (hok : S.Ok) (ids : List Int) : (S.rmfiles ids).Ok :=
  { hok with
    paths := hok.paths.sublist ((List.filter_sublist _).map _)
    ascending := hok.ascending.sublist ((List.filter_sublist _).map _)
    linked := fun f hf => hok.linked f (List.mem_filter.1 hf).1 }

theorem Ok.purgedata (hok : S.Ok) : S.purgedata.Ok :=
  { hok with
    roots := hok.roots.sublist ((List.filter_sublist _).map _)
    linked := fun f hf => by
      obtain ⟨d, hd, he⟩ := hok.linked f hf
      exact ⟨d, List.mem_filter.2 ⟨hd, List.any_eq_true.2 ⟨f, hf, by simp [he]⟩⟩, he⟩ }

/-! ### What the readers find -/

theorem sizeOf_isSome {f : FileRec} (hok : S.Ok) (hf : f ∈ S.files) :
    (S.sizeOf f.hash).isSome := by
  obtain ⟨d, hd, he⟩ := hok.linked f hf
  have : (S.data.find? (·.hash = f.hash)).isSome :=
    List.find?_isSome.2 ⟨d, hd, by simpa using he⟩
  simpa [sizeOf] using this

theorem sizeOf_addhash_of_isSome {h : List Char} (hs : (S.sizeOf h).isSome) (path : List Char)
    (size : Nat) (lastmod : Int) (hash : List Char) (tthl : List UInt8) :
    (S.addhash path size lastmod hash tthl).sizeOf h = S.sizeOf h := by
  rw [sizeOf, Option.isSome_map'] at hs
  obtain ⟨d, hd⟩ := Option.isSome_iff_exists.1 hs
  simp only [sizeOf, addhash, addData]
  split_ifs
  · rfl
  · rw [List.find?_append, hd, Option.or_some]

theorem sizeOf_addhash_self (path : List Char) (size : Nat) (lastmod : Int) (hash : List Char)
    (tthl : List UInt8) :
    (S.addhash path size lastmod hash tthl).sizeOf hash =
      some ((S.sizeOf hash).getD (int64OfUInt64 size)) := by
  by_cases hs : (S.sizeOf hash).isSome
  · rw [sizeOf_addhash_of_isSome hs, Option.getD_of_ne_none (Option.isSome_iff_ne_none.1 hs)]
  · have hnone : S.data.find? (·.hash = hash) = none := by simpa [sizeOf] using hs
    have hold : S.data.any (·.hash = hash) = false := by
      simpa using List.find?_eq_none.1 hnone
    simp [sizeOf, addhash, addData, hold, hnone, List.find?_append]

theorem find?_path_eq_some {fs : List FileRec} (hnd : (fs.map FileRec.path).Nodup)
    {p : List Char} {f : FileRec} :
    fs.find? (·.path = p) = some f ↔ f ∈ fs ∧ f.path = p := by
  refine ⟨fun h => ⟨List.mem_of_find?_eq_some h, by simpa using List.find?_some h⟩,
    fun ⟨hf, hp⟩ => ?_⟩
  have : (fs.find? (·.path = p)).isSome := List.find?_isSome.2 ⟨f, hf, by simpa using hp⟩
  obtain ⟨g, hg⟩ := Option.isSome_iff_exists.1 this
  rw [hg, List.inj_on_of_nodup_map hnd (List.mem_of_find?_eq_some hg) hf
    (by simpa [hp] using List.find?_some hg)]

theorem lookup_of_mem (hok : S.Ok) {f : FileRec} (hf : f ∈ S.files) :
    ∃ sz, S.lookup f.path =
      some ((f.id : Int), f.lastmod, uint64OfInt64 sz, base32Decode f.hash) := by
  obtain ⟨sz, hsz⟩ := Option.isSome_iff_exists.1 (sizeOf_isSome hok hf)
  refine ⟨sz, ?_⟩
  simp [lookup, (find?_path_eq_some hok.paths).2 ⟨hf, rfl⟩, hsz]

theorem lookup_addhash (hok : S.Ok) (path : List Char) (size : Nat) (lastmod : Int)
    (hash : List Char) (tthl : List UInt8) (p : List Char) :
    (S.addhash path size lastmod hash tthl).lookup p =
      if p = path then
        some ((S.nextId : Int), lastmod, uint64OfInt64 ((S.sizeOf hash).getD (int64OfUInt64 size)),
          base32Decode hash)
      else S.lookup p := by
  have hfind : (S.addhash path size lastmod hash tthl).files.find? (·.path = p) =
      if p = path then some ⟨S.nextId, hash, lastmod, path⟩
      else S.files.find? (·.path = p) := by
    show (S.addFile hash lastmod path).find? _ = _
    rw [addFile, List.find?_append, List.find?_filter, List.find?_singleton]
    by_cases hp : p = path
    · subst hp
      rw [List.find?_eq_none.2 fun f _ => by simp only [decide_eq_true_eq]; exact fun h => h.1 h.2]
      simp
    · rw [if_neg hp, if_neg (by simpa using Ne.symm hp), Option.or_none]
      congr 1; funext f; by_cases hf : f.path = p <;> simp [hf, hp]
  unfold lookup; rw [hfind]
  split_ifs with hp
  · simp [sizeOf_addhash_self]
  · cases hf : S.files.find? (·.path = p) with
    | none => rfl
    | some f =>
      simp only [Option.bind_eq_bind, Option.some_bind]
      rw [sizeOf_addhash_of_isSome (sizeOf_isSome hok (List.mem_of_find?_eq_some hf))]

theorem lookup_rmfiles (hok : S.Ok) (ids : List Int) (p : List Char) :
    (S.rmfiles ids).lookup p = (S.lookup p).filter fun r => r.1 ∉ ids := by
  have hfind : (S.rmfiles ids).files.find? (·.path = p) =
      (S.files.find? (·.path = p)).filter fun f => (f.id : Int) ∉ ids := by
    apply Option.ext; intro f
    simp only [Option.mem_def, Option.filter_eq_some,
      find?_path_eq_some (hok.rmfiles ids).paths, find?_path_eq_some hok.paths]
    simp [rmfiles, and_right_comm]
  unfold lookup; rw [hfind]
  cases hf : S.files.find? (·.path = p) with
  | none => rfl
  | some f =>
    simp only [Option.filter, Option.some_bind, show (S.rmfiles ids).sizeOf = S.sizeOf from rfl]
    rcases hs : S.sizeOf f.hash with _ | s <;> by_cases hi : (f.id : Int) ∈ ids <;> simp [hs, hi]

theorem lookup_purgedata (p : List Char) : S.purgedata.lookup p = S.lookup p := by
  unfold lookup
  rw [show S.purgedata.files = S.files from rfl]
  cases hf : S.files.find? (·.path = p) with
  | none => rfl
  | some f =>
    have hkeep : S.purgedata.sizeOf f.hash = S.sizeOf f.hash := by
      unfold sizeOf purgedata
      rw [List.find?_filter]; congr 2; funext d
      by_cases he : d.hash = f.hash
      · simpa [he] using ⟨f, List.mem_of_find?_eq_some hf, rfl⟩
      · simp [he]
    simp only [Option.bind_eq_bind, Option.some_bind, hkeep]

theorem sizeOf_purgedata {hash : List Char} (hno : ∀ f ∈ S.files, f.hash ≠ hash) :
    S.purgedata.sizeOf hash = none := by
  simp only [sizeOf, purgedata, Option.map_eq_none', List.find?_eq_none, List.mem_filter,
    List.any_eq_true, decide_eq_true_eq]
  rintro d ⟨-, f, hf, he⟩ rfl
  exact hno f hf he

end HashStore

section Holds

variable {db : SqlDb} {S : HashStore}

theorem SqlDb.Holds.insert_data (h : db.Holds S) (hash : List Char) (size : Int)
    (tthl : List UInt8) :
    ∃ db', sqlInsert db .ignore "hashdata" ["root", "size", "tthl"]
        [.text hash, .int size, .blob tthl] = some db' ∧
      db'.Holds ⟨S.addData hash size tthl, S.files⟩ := by
  unfold HashStore.addData
  split_ifs with hold
  · refine ⟨db, SqlDb.HashTables.insert_hashdata_old h hash size tthl ?_, h⟩
    obtain ⟨d, hd, he⟩ := List.any_eq_true.1 hold
    exact ⟨d.row, List.mem_map_of_mem _ hd, by simpa [DataRec.row] using he⟩
  · have hnew :
        ∀ r ∈ S.data.map DataRec.row, sqlEq (r.2.getD 0 .null) (.text hash) = false := by
      simp only [List.any_eq_true, not_exists, not_and, decide_eq_true_eq] at hold
      simpa [DataRec.row] using hold
    obtain ⟨db', hi, h'⟩ := SqlDb.HashTables.insert_hashdata h hash size tthl hnew
    have hnext : (hashdataTable (S.data.map DataRec.row)).nextRowid = S.nextRid := by
      simp [SqlTable.nextRowid, hashdataTable, HashStore.nextRid, DataRec.row, Function.comp_def]
    refine ⟨db', hi, ?_⟩
    rw [SqlDb.Holds, List.map_append, List.map_singleton]
    rw [hnext] at h'; exact h'

theorem SqlDb.Holds.insert_file (h : db.Holds S) (hash : List Char) (lastmod : Int)
    (path : List Char) :
    ∃ db', sqlInsert db .replace "hashfiles" ["tth", "lastmod", "filename"]
        [.text hash, .int lastmod, .text path] = some db' ∧
      db'.lastRowid = S.nextId ∧ db'.Holds ⟨S.data, S.addFile hash lastmod path⟩ := by
  obtain ⟨db', hi, hrid, h'⟩ := SqlDb.HashTables.insert_hashfiles h hash lastmod path
  have hnext : (hashfilesTable (S.files.map FileRec.row)).nextRowid = S.nextId := by
    simp [SqlTable.nextRowid, hashfilesTable, HashStore.nextId, FileRec.row, Function.comp_def]
  have hrows : (S.addFile hash lastmod path).map FileRec.row =
      (S.files.map FileRec.row).filter (fun r => !(hashfilesTable (S.files.map FileRec.row)).clashes
        [.int S.nextId, .text hash, .int lastmod, .text path] r.2) ++
      [(S.nextId, [.int S.nextId, .text hash, .int lastmod, .text path])] := by
    rw [HashStore.addFile, List.map_append, List.filter_map]; congr 2
    apply List.filter_congr; intro f hf
    have hne : (S.nextId : Int) ≠ f.id := by exact_mod_cast (HashStore.id_lt_nextId hf).ne'
    rw [Bool.eq_iff_iff]; simp [hashfilesTable_clashes, FileRec.row, hne]; exact ne_comm
  refine ⟨db', hi, hrid.trans hnext, ?_⟩
  rw [SqlDb.Holds, hrows, ← hnext]; exact h'

theorem SqlDb.Holds.addhash (h : db.Holds S) (path : List Char) (size : Nat) (lastmod : Int)
    (root : Tth) (tthl : List UInt8) :
    (dbFlAddhash db path size lastmod root tthl).1.Holds
        (S.addhash path size lastmod (base32Encode root.bytes) tthl) ∧
      (dbFlAddhash db path size lastmod root tthl).2 = S.nextId := by
  obtain ⟨db1, hi1, h1⟩ := h.insert_data (base32Encode root.bytes) (int64OfUInt64 size) tthl
  obtain ⟨db2, hi2, hrid, h2⟩ := h1.insert_file (base32Encode root.bytes) lastmod path
  have hadd : dbFlAddhash db path size lastmod root tthl = (db2, (db2.lastRowid : Int)) := by
    simp only [dbFlAddhash, SqlDb.HashTables.prepare_insertHashdata h,
      SqlDb.HashTables.prepare_insertHashfiles h1, sqlStep, hi1, hi2, Option.bind_eq_bind,
      Option.some_bind, Option.map_some', Option.getD_some]
  rw [hadd]; exact ⟨h2, by rw [hrid]; rfl⟩

theorem SqlDb.Holds.rmfiles (h : db.Holds S) (ids : List Int) :
    (dbFlRmfiles db ids).Holds (S.rmfiles ids) := by
  have hrows : (S.rmfiles ids).files.map FileRec.row = (S.files.map FileRec.row).filter
      fun r => ids.all fun id => !sqlEq (r.2.getD 0 .null) (.int id) := by
    rw [List.filter_map]; congr 1; apply List.filter_congr; intro f _
    rw [Bool.eq_iff_iff]; simp [FileRec.row, List.forall_mem_ne]
  rw [SqlDb.Holds, hrows]; exact SqlDb.HashTables.rmfiles_rows h ids

theorem SqlDb.Holds.purgedata (h : db.Holds S) : (dbFlPurgedata db).Holds S.purgedata := by
  have hrows : S.purgedata.data.map DataRec.row = (S.data.map DataRec.row).filter
      fun r => (S.files.map FileRec.row).any fun s =>
        sqlEq (s.2.getD 1 .null) (r.2.getD 0 .null) := by
    rw [List.filter_map]; congr 1; apply List.filter_congr; intro d _
    rw [Bool.eq_iff_iff]; simp [FileRec.row, DataRec.row]
  rw [SqlDb.Holds, hrows]; exact SqlDb.HashTables.purgedata_rows h

theorem findSome?_join {β : Type} {ds : List DataRec} {fs : List FileRec}
    (g : FileRec → DataRec → β) (hl : ∀ f ∈ fs, ∃ d ∈ ds, d.hash = f.hash)
    (path : List Char) :
    fs.findSome? (fun f =>
        if f.path = path then (ds.find? (·.hash = f.hash)).map (g f) else none) =
      (fs.find? (·.path = path)).bind fun f => (ds.find? (·.hash = f.hash)).map (g f) := by
  induction fs with
  | nil => rfl
  | cons f fs ih =>
    have ih := ih fun f' hf' => hl f' (List.mem_cons_of_mem _ hf')
    by_cases hp : f.path = path
    · obtain ⟨d, hd, he⟩ := hl f (List.mem_cons_self _ _)
      have hs : (ds.find? (·.hash = f.hash)).isSome :=
        List.find?_isSome.2 ⟨d, hd, by simpa using he⟩
      obtain ⟨d', hd'⟩ := Option.isSome_iff_exists.1 hs
      simp [List.findSome?_cons, List.find?_cons, hp, hd']
    · simp [List.findSome?_cons, List.find?_cons, hp, ih]

theorem SqlDb.Holds.getfile (h : db.Holds S) (hok : S.Ok) (path : List Char) :
    dbFlGetfile db path = S.lookup path := by
  have hrun : (selectFilePlan.run db (.text path)).head? =
      (S.files.find? (·.path = path)).bind fun f => (S.data.find? (·.hash = f.hash)).map
        fun d => [.int f.id, .int f.lastmod, .text f.hash, .int d.size] := by
    rw [SqlDb.HashTables.run_selectFile h, List.head?_flatMap, ← findSome?_join _ hok.linked,
      List.findSome?_map]
    congr 1; funext f
    by_cases hp : f.path = path <;>
      simp [hp, FileRec.row, DataRec.row, List.filter_map, Function.comp_def]
  simp only [dbFlGetfile, SqlDb.HashTables.prepare_selectFile h, sqlStep, Option.bind_eq_bind,
    Option.some_bind, List.getD_cons_zero, hrun, HashStore.lookup, HashStore.sizeOf]
  cases S.files.find? (·.path = path) with
  | none => rfl
  | some f =>
    simp only [Option.some_bind]
    cases S.data.find? (·.hash = f.hash) <;> rfl

theorem SqlDb.Holds.getids (h : db.Holds S) (hok : S.Ok) :
    dbFlGetids db = S.files.map fun f => (f.id : Int) := by
  have hsorted : ((S.files.map FileRec.row).map fun r => r.2.getD 0 .null).Pairwise
      fun a b => SqlVal.le a b = true := by
    simp only [List.map_map, List.pairwise_map]
    exact (List.pairwise_map.1 hok.ascending).imp fun hab => by
      simp [FileRec.row, SqlVal.le]; omega
  rw [SqlDb.HashTables.getids_rows h, List.mergeSort_of_sorted hsorted]
  simp [FileRec.row, SqlVal.int64]

theorem SqlDb.Holds.getfile_addhash (h : db.Holds S) (hok : S.Ok) (path : List Char)
    (size : Nat) (lastmod : Int) (root : Tth) (tthl : List UInt8) (p : List Char) :
    dbFlGetfile (dbFlAddhash db path size lastmod root tthl).1 p =
      if p = path then
        some ((dbFlAddhash db path size lastmod root tthl).2, lastmod,
          uint64OfInt64 ((S.sizeOf (base32Encode root.bytes)).getD (int64OfUInt64 size)),
          root.bytes)
      else dbFlGetfile db p := by
  obtain ⟨h', hid⟩ := h.addhash path size lastmod root tthl
  rw [h'.getfile (hok.addhash _ _ _ _ _), HashStore.lookup_addhash hok, hid, base32Decode_encode,
    h.getfile hok]

end Holds

/-! ### Runs -/

/-- The databases the writers of the hash store reach from its two tables, empty. -/
inductive HashStoreReach : SqlDb → Prop
  | empty (rest : List (String × SqlTable)) (n : Nat) :
      HashStoreReach
        ⟨("hashdata", hashdataTable []) :: ("hashfiles", hashfilesTable []) :: rest, n⟩
  | addhash {db : SqlDb} (path : List Char) (size : Nat) (lastmod : Int) (root : Tth)
      (tthl : List UInt8) : HashStoreReach db →
        HashStoreReach (dbFlAddhash db path size lastmod root tthl).1
  | rmfiles {db : SqlDb} (ids : List Int) :
      HashStoreReach db → HashStoreReach (dbFlRmfiles db ids)
  | purgedata {db : SqlDb} : HashStoreReach db → HashStoreReach (dbFlPurgedata db)

theorem HashStoreReach.exists_ok {db : SqlDb} (hr : HashStoreReach db) :
    ∃ S : HashStore, db.Holds S ∧ S.Ok := by
  induction hr with
  | empty rest n =>
    exact ⟨⟨[], []⟩, ⟨rest, rfl⟩, HashStore.ok_empty⟩
  | addhash path size lastmod root tthl _ ih =>
    obtain ⟨S, hS, hok⟩ := ih
    exact ⟨_, (hS.addhash path size lastmod root tthl).1, hok.addhash _ _ _ _ _⟩
  | rmfiles ids _ ih =>
    obtain ⟨S, hS, hok⟩ := ih
    exact ⟨_, hS.rmfiles ids, hok.rmfiles ids⟩
  | purgedata _ ih =>
    obtain ⟨S, hS, hok⟩ := ih
    exact ⟨_, hS.purgedata, hok.purgedata⟩

/-- Every database the writers reach holds records with the invariant, and both readers
answer from them. -/
theorem hash_store_invariant {db : SqlDb} (hr : HashStoreReach db) :
    ∃ S : HashStore, db.Holds S ∧ S.Ok ∧ (∀ p, dbFlGetfile db p = S.lookup p) ∧
      dbFlGetids db = S.files.map fun f => (f.id : Int) := by
  obtain ⟨S, hS, hok⟩ := hr.exists_ok
  exact ⟨S, hS, hok, hS.getfile hok, hS.getids hok⟩

theorem hash_store_invariant_one_file :
    ∃ S : HashStore, (dbFlAddhash emptyHashStore "/a".toList 5 0 Tth.zero []).1.Holds S ∧
      S.Ok ∧ (∀ p, dbFlGetfile (dbFlAddhash emptyHashStore "/a".toList 5 0 Tth.zero []).1 p =
        S.lookup p) ∧
      dbFlGetids (dbFlAddhash emptyHashStore "/a".toList 5 0 Tth.zero []).1 =
        S.files.map fun f => (f.id : Int) :=
  hash_store_invariant (.addhash _ _ _ _ _ (.empty [] 0))

theorem emptyHashStore_holds : emptyHashStore.Holds ⟨[], []⟩ := ⟨[], rfl⟩

/-- `db_fl_addhash` on records with the invariant: `db_fl_getfile` of its path answers with the new
id, lastmod and root and the size of the root's `hashdata` row, and every other path as before. The
new id is larger than every id `db_fl_getids` listed. -/
theorem addhash_then_getfile {db : SqlDb} {S : HashStore} (hS : db.Holds S) (hok : S.Ok)
    (path : List Char) (size : Nat) (lastmod : Int) (root : Tth) (tthl : List UInt8) :
    dbFlGetfile (dbFlAddhash db path size lastmod root tthl).1 path =
        some ((dbFlAddhash db path size lastmod root tthl).2, lastmod,
          uint64OfInt64 ((S.sizeOf (base32Encode root.bytes)).getD (int64OfUInt64 size)),
          root.bytes) ∧
      (∀ p, p ≠ path →
        dbFlGetfile (dbFlAddhash db path size lastmod root tthl).1 p = dbFlGetfile db p) ∧
      ∀ id ∈ dbFlGetids db, id < (dbFlAddhash db path size lastmod root tthl).2 := by
  refine ⟨by rw [hS.getfile_addhash hok, if_pos rfl],
    fun p hp => by rw [hS.getfile_addhash hok, if_neg hp], fun id hi => ?_⟩
  rw [hS.getids hok] at hi
  obtain ⟨f, hf, rfl⟩ := List.mem_map.1 hi
  rw [(hS.addhash path size lastmod root tthl).2]; exact_mod_cast HashStore.id_lt_nextId hf

theorem addhash_then_getfile_empty :
    dbFlGetfile (dbFlAddhash emptyHashStore "/a".toList 5 0 Tth.zero []).1 "/a".toList =
        some ((dbFlAddhash emptyHashStore "/a".toList 5 0 Tth.zero []).2, 0,
          uint64OfInt64 (((⟨[], []⟩ : HashStore).sizeOf (base32Encode Tth.zero.bytes)).getD
            (int64OfUInt64 5)), Tth.zero.bytes) ∧
      (∀ p, p ≠ "/a".toList →
        dbFlGetfile (dbFlAddhash emptyHashStore "/a".toList 5 0 Tth.zero []).1 p =
          dbFlGetfile emptyHashStore p) ∧
      ∀ id ∈ dbFlGetids emptyHashStore,
        id < (dbFlAddhash emptyHashStore "/a".toList 5 0 Tth.zero []).2 :=
  addhash_then_getfile emptyHashStore_holds HashStore.ok_empty _ _ _ _ _

/-- `db_fl_rmfiles(ids)` on a reached database: exactly the files whose id is listed are
gone, for `db_fl_getfile` and for `db_fl_getids`, and the others read as before. -/
theorem rmfiles_forgets_ids {db : SqlDb} (hr : HashStoreReach db) (ids : List Int) :
    (∀ p, dbFlGetfile (dbFlRmfiles db ids) p = (dbFlGetfile db p).filter fun r => r.1 ∉ ids) ∧
      dbFlGetids (dbFlRmfiles db ids) = (dbFlGetids db).filter fun id => id ∉ ids := by
  obtain ⟨S, hS, hok⟩ := hr.exists_ok
  have hS' := hS.rmfiles ids
  have hok' := hok.rmfiles ids
  refine ⟨fun p => ?_, ?_⟩
  · rw [hS'.getfile hok', hS.getfile hok, HashStore.lookup_rmfiles hok]
  · rw [hS'.getids hok', hS.getids hok, List.filter_map]; rfl

theorem rmfiles_forgets_ids_one_file :
    (∀ p, dbFlGetfile
        (dbFlRmfiles (dbFlAddhash emptyHashStore "/a".toList 5 0 Tth.zero []).1 [1]) p =
        (dbFlGetfile (dbFlAddhash emptyHashStore "/a".toList 5 0 Tth.zero []).1 p).filter
          fun r => r.1 ∉ [1]) ∧
      dbFlGetids (dbFlRmfiles (dbFlAddhash emptyHashStore "/a".toList 5 0 Tth.zero []).1 [1]) =
        (dbFlGetids (dbFlAddhash emptyHashStore "/a".toList 5 0 Tth.zero []).1).filter
          fun id => id ∉ [1] :=
  rmfiles_forgets_ids (.addhash _ _ _ _ _ (.empty [] 0)) [1]

/-- `db_fl_purgedata` on a reached database: no reader sees a change. -/
theorem purgedata_unseen {db : SqlDb} (hr : HashStoreReach db) :
    (∀ p, dbFlGetfile (dbFlPurgedata db) p = dbFlGetfile db p) ∧
      dbFlGetids (dbFlPurgedata db) = dbFlGetids db := by
  obtain ⟨S, hS, hok⟩ := hr.exists_ok
  exact ⟨fun p => by rw [hS.purgedata.getfile hok.purgedata, hS.getfile hok,
    HashStore.lookup_purgedata], by rw [hS.purgedata.getids hok.purgedata, hS.getids hok]; rfl⟩

/-- `/a` added and removed again: its root keeps a `hashdata` row that no file names. -/
def orphanRootDb : SqlDb :=
  dbFlRmfiles (dbFlAddhash emptyHashStore "/a".toList 5 0 Tth.zero []).1 [1]

theorem orphanRootDb_reach : HashStoreReach orphanRootDb :=
  .rmfiles [1] (.addhash _ _ _ _ _ (.empty [] 0))

theorem orphanRootDb_getfile (p : List Char) : dbFlGetfile orphanRootDb p = none := by
  have hS := (emptyHashStore_holds.addhash "/a".toList 5 0 Tth.zero []).1.rmfiles [1]
  have hok := (HashStore.ok_empty.addhash "/a".toList 5 0 (base32Encode Tth.zero.bytes)
    []).rmfiles [1]
  rw [orphanRootDb, hS.getfile hok p]; rfl

/-- The purge drops the orphaned row, and the readers see no change. -/
theorem purgedata_drops_orphan :
    (orphanRootDb.table "hashdata").map (·.rows.length) = some 1 ∧
      ((dbFlPurgedata orphanRootDb).table "hashdata").map (·.rows.length) = some 0 ∧
      (∀ p, dbFlGetfile (dbFlPurgedata orphanRootDb) p = dbFlGetfile orphanRootDb p) ∧
      dbFlGetids (dbFlPurgedata orphanRootDb) = dbFlGetids orphanRootDb :=
  ⟨rfl, rfl, purgedata_unseen orphanRootDb_reach⟩

/-- `db_fl_getids` on a reached database: the ids ascend, and they are the ids
`db_fl_getfile` answers with, one per path. -/
theorem getids_lists_files {db : SqlDb} (hr : HashStoreReach db) :
    (dbFlGetids db).Pairwise (· < ·) ∧
      ∀ id, id ∈ dbFlGetids db ↔ ∃ p x, dbFlGetfile db p = some (id, x) := by
  obtain ⟨S, hS, hok⟩ := hr.exists_ok
  rw [hS.getids hok]
  refine ⟨List.pairwise_map.2 ((List.pairwise_map.1 hok.ascending).imp Int.ofNat_lt.2),
    fun id => ⟨?_, ?_⟩⟩
  · intro hi
    obtain ⟨f, hf, rfl⟩ := List.mem_map.1 hi
    obtain ⟨sz, hl⟩ := HashStore.lookup_of_mem hok hf
    exact ⟨f.path, _, (hS.getfile hok f.path).trans hl⟩
  · rintro ⟨p, x, hp⟩
    simp only [hS.getfile hok, HashStore.lookup, Option.bind_eq_bind, Option.bind_eq_some,
      Option.some.injEq, Prod.mk.injEq] at hp
    obtain ⟨f, hf, s, -, hid, -⟩ := hp
    exact List.mem_map.2 ⟨f, List.mem_of_find?_eq_some hf, hid⟩

theorem getids_lists_files_one_file :
    (dbFlGetids (dbFlAddhash emptyHashStore "/a".toList 5 0 Tth.zero []).1).Pairwise (· < ·) ∧
      ∀ id, id ∈ dbFlGetids (dbFlAddhash emptyHashStore "/a".toList 5 0 Tth.zero []).1 ↔
        ∃ p x, dbFlGetfile (dbFlAddhash emptyHashStore "/a".toList 5 0 Tth.zero []).1 p =
          some (id, x) :=
  getids_lists_files (.addhash _ _ _ _ _ (.empty [] 0))

/-- `db_fl_addhash` of a root no file has, right after `db_fl_purgedata`: `db_fl_getfile`
answers with the size given, not one left by files deleted before. -/
theorem purgedata_then_addhash {db : SqlDb} (hr : HashStoreReach db) (path : List Char)
    (size : Nat) (hsize : size < 2 ^ 64) (lastmod : Int) (root : Tth) (tthl : List UInt8)
    (hroot : ∀ p id lm sz, dbFlGetfile db p ≠ some (id, lm, sz, root.bytes)) :
    dbFlGetfile (dbFlAddhash (dbFlPurgedata db) path size lastmod root tthl).1 path =
      some ((dbFlAddhash (dbFlPurgedata db) path size lastmod root tthl).2, lastmod, size,
        root.bytes) := by
  obtain ⟨S, hS, hok⟩ := hr.exists_ok
  have hno : ∀ f ∈ S.files, f.hash ≠ base32Encode root.bytes := by
    intro f hf he
    obtain ⟨sz, hl⟩ := HashStore.lookup_of_mem hok hf
    rw [he, base32Decode_encode] at hl
    exact hroot f.path _ _ _ ((hS.getfile hok f.path).trans hl)
  rw [hS.purgedata.getfile_addhash hok.purgedata, if_pos rfl, HashStore.sizeOf_purgedata hno,
    Option.getD_none, uint64OfInt64_int64OfUInt64 hsize]

/-- Adding `/b` under the orphaned root: after the purge it reads back the size 7 it was
given; without the purge, the stale size 5. -/
theorem purge_then_readd_new_size :
    7 < 2 ^ 64 ∧
      (∀ p id lm sz, dbFlGetfile orphanRootDb p ≠ some (id, lm, sz, Tth.zero.bytes)) ∧
      dbFlGetfile (dbFlAddhash (dbFlPurgedata orphanRootDb) "/b".toList 7 0 Tth.zero []).1
          "/b".toList =
        some ((dbFlAddhash (dbFlPurgedata orphanRootDb) "/b".toList 7 0 Tth.zero []).2, 0, 7,
          Tth.zero.bytes) ∧
      dbFlGetfile (dbFlAddhash orphanRootDb "/b".toList 7 0 Tth.zero []).1 "/b".toList =
        some (1, 0, 5, Tth.zero.bytes) :=
  have hroot : ∀ p id lm sz, dbFlGetfile orphanRootDb p ≠ some (id, lm, sz, Tth.zero.bytes) :=
    fun p _ _ _ => by simp [orphanRootDb_getfile]
  ⟨by decide, hroot,
    purgedata_then_addhash orphanRootDb_reach _ 7 (by decide) 0 Tth.zero [] hroot, rfl⟩

end Ncdc
