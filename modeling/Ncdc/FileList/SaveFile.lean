import Ncdc.FileList.RoundTrip

/-!
`fl_save` with a file: the temporary file, the output layer and the final `rename`. The
output layer is not in src/; `SaveIo` gives the outcome of each of its calls, and a failure
that only the closing calls see still replaces the destination.
-/

namespace Ncdc

/-! ### Files -/

/-- What a file holds: the whole document `fl_save` wrote, or the bytes of an unfinished
one (a file `fopen` has just created is one). -/
inductive FileBody
  | complete (doc : List XmlElem)
  | unfinished

/-- The files by path; `none` where there is none. -/
abbrev Fs := List Char → Option FileBody

/-- Write a file. -/
def Fs.put (fs : Fs) (path : List Char) (b : FileBody) : Fs := Function.update fs path (some b)

@[simp] theorem Fs.put_put (fs : Fs) (path : List Char) (a b : FileBody) :
    (fs.put path a).put path b = fs.put path b :=
  Function.update_idem _ _ _

/-- `unlink(path)` -/
def Fs.remove (fs : Fs) (path : List Char) : Fs := Function.update fs path none

/-- `rename(src, dst)`: `dst` takes what `src` held, and `src` is gone. -/
def Fs.rename (fs : Fs) (src dst : List Char) : Fs :=
  Function.update (Function.update fs src none) dst (fs src)

/-- `strlen(file) > 4 && strcmp(file+(strlen(file)-4), ".bz2") == 0` -/
def isBz2Name (file : List Char) : Bool :=
  decide (4 < file.length) && file.drop (file.length - 4) == ".bz2".toList

/-- `g_strdup_printf("%s.tmp-%d", file, rand())`, `rand()` being non-negative. -/
def tmpName (file : List Char) (rnd : Nat) : List Char := file ++ ".tmp-".toList ++ decimal rnd

/-! ### The output layer -/

/-- The outcome of each call of the output layer, from `fopen` to `rename`, and whether a write
error reaches a writer call that `CHECKFAIL` tests. -/
structure SaveIo where
  fopen : Bool
  bzOpen : Bool
  newWriter : Bool
  reported : Bool
  flush : Bool
  bzClose : Bool
  fclose : Bool
  rename : Bool

/-- `fl_save(fl, file, NULL, level, err)` in the files `fs`, `rand()` giving `rnd`: what it returns
and the files after it. `success` is the writing's result unless a writer call saw an error, and the
temporary file holds the whole document only if nothing failed. -/
def flSaveFile (H : FlHeap) (generator : List Char) (cid : Option (List Char)) (fl level : Nat)
    (io : SaveIo) (file : List Char) (rnd : Nat) (fs : Fs) : Option (Bool × Fs) :=
  let isbz2 := isBz2Name file
  let tmp := tmpName file rnd
  if !io.fopen then some (false, fs)
  else
    let fs := fs.put tmp .unfinished
    -- `fl_save_open` fails after `fopen`: `fclose(f)` or `fl_save_close(xc)`, and no `unlink`
    if isbz2 && !io.bzOpen || !io.newWriter then some (false, fs)
    else do
      let (ok, w) ← flSave H generator cid fl level XmlWriter.empty
      let success := ok && !io.reported
      let whole := success && io.flush && (!isbz2 || io.bzClose) && io.fclose
      let fs := fs.put tmp (if whole then .complete w.doc else .unfinished)
      if success && io.rename then some (true, fs.rename tmp file)
      else some (false, fs.remove tmp)

/-! ### What `fl_save` leaves -/

section Outcomes

variable {H : FlHeap} {generator : List Char} {cid : Option (List Char)} {fl level : Nat}
  {w : XmlWriter} (file : List Char) (rnd : Nat) (fs : Fs)

theorem flSaveFile_opened {io : SaveIo} (hw : flSave H generator cid fl level XmlWriter.empty =
    some (true, w)) (hf : io.fopen = true) (hb : isBz2Name file = true → io.bzOpen = true)
    (hn : io.newWriter = true) :
    flSaveFile H generator cid fl level io file rnd fs =
      let whole := !io.reported && io.flush && (!isBz2Name file || io.bzClose) && io.fclose
      let fs := fs.put (tmpName file rnd) (if whole then .complete w.doc else .unfinished)
      if !io.reported && io.rename then some (true, fs.rename (tmpName file rnd) file)
      else some (false, fs.remove (tmpName file rnd)) := by
  have hopen : (isBz2Name file && !io.bzOpen || !io.newWriter) = false := by
    cases h : isBz2Name file <;> simp_all
  simp only [flSaveFile, hf, hopen, Bool.not_true, Bool.false_eq_true, if_false, hw,
    Option.bind_eq_bind, Option.some_bind, Bool.true_and, Fs.put_put]

/-- With every call succeeding, `fl_save` returns `TRUE` and the destination holds the whole
document. -/
theorem flSaveFile_all_ok {io : SaveIo} (hw : flSave H generator cid fl level XmlWriter.empty =
    some (true, w)) (hf : io.fopen = true) (hb : io.bzOpen = true) (hn : io.newWriter = true)
    (hr : io.reported = false) (hfl : io.flush = true) (hbc : io.bzClose = true)
    (hfc : io.fclose = true) (hrn : io.rename = true) :
    ∃ fs', flSaveFile H generator cid fl level io file rnd fs = some (true, fs') ∧
      fs' file = some (.complete w.doc) := by
  rw [flSaveFile_opened file rnd fs hw hf (fun _ => hb) hn]
  simp only [hr, hrn, hfl, hbc, hfc, Bool.not_false, Bool.and_self, Bool.or_true, if_true]
  exact ⟨_, rfl, by simp [Fs.rename, Fs.put]⟩

/-- A write error returned to a writer call makes `fl_save` return `FALSE`, unlink the
temporary file and leave the destination as it was. -/
theorem flSaveFile_reported {io : SaveIo} (hw : flSave H generator cid fl level XmlWriter.empty =
    some (true, w)) (hf : io.fopen = true) (hb : isBz2Name file = true → io.bzOpen = true)
    (hn : io.newWriter = true) (hr : io.reported = true) (hne : tmpName file rnd ≠ file) :
    ∃ fs', flSaveFile H generator cid fl level io file rnd fs = some (false, fs') ∧
      fs' file = fs file ∧ fs' (tmpName file rnd) = none := by
  rw [flSaveFile_opened file rnd fs hw hf hb hn]
  simp only [hr, Bool.not_true, Bool.false_and, Bool.false_eq_true, if_false]
  exact ⟨_, rfl, by simp [Fs.remove, Fs.put, Function.update_noteq hne.symm], by simp [Fs.remove]⟩

end Outcomes

/-- For every tree whose writing succeeds, a failure of the final flush, `BZ2_bzWriteClose` or
`fclose` still ends in `rename` and `TRUE` over an unfinished document. An `fl_save_open` failing
after `fopen` returns `FALSE` and leaves the temporary file behind. -/
theorem fl_save_trusts_final_close (H : FlHeap) (generator : List Char)
    (cid : Option (List Char)) (fl level : Nat) (w : XmlWriter)
    (hw : flSave H generator cid fl level XmlWriter.empty = some (true, w)) (file : List Char)
    (rnd : Nat) (fs : Fs) :
    (∀ io : SaveIo, io.fopen = true → (isBz2Name file = true → io.bzOpen = true) →
        io.newWriter = true → io.reported = false → io.rename = true →
        io.flush = false ∨ (isBz2Name file = true ∧ io.bzClose = false) ∨ io.fclose = false →
        ∃ fs', flSaveFile H generator cid fl level io file rnd fs = some (true, fs') ∧
          fs' file = some .unfinished) ∧
      ∀ io : SaveIo, io.fopen = true →
        (isBz2Name file = true ∧ io.bzOpen = false) ∨ io.newWriter = false →
        flSaveFile H generator cid fl level io file rnd fs =
          some (false, fs.put (tmpName file rnd) .unfinished) := by
  refine ⟨fun io hf hb hn hr hrn hlost => ?_, fun io hf hopen => ?_⟩
  · have hwhole : (!io.reported && io.flush && (!isBz2Name file || io.bzClose) && io.fclose) =
        false := by
      rcases hlost with h | ⟨h₁, h₂⟩ | h <;> simp [*]
    rw [flSaveFile_opened file rnd fs hw hf hb hn, hwhole]
    simp only [hr, hrn, Bool.not_false, Bool.and_self, if_true]
    exact ⟨_, rfl, by simp [Fs.rename, Fs.put]⟩
  · have h : (isBz2Name file && !io.bzOpen || !io.newWriter) = true := by
      rcases hopen with ⟨h₁, h₂⟩ | h <;> simp [*]
    simp only [flSaveFile, hf, Bool.not_true, Bool.false_eq_true, if_false, h, if_true]

/-- Saving `oneFileShare` to `files.xml.bz2` when the final flush fails: `fl_save` returns
`TRUE` and the listing is replaced by an unfinished file. -/
theorem lost_flush_replaces_listing :
    ∃ w, flSave oneFileShare "ncdc".toList (some "CID".toList) 0 1 XmlWriter.empty =
        some (true, w) ∧
      ∃ fs', flSaveFile oneFileShare "ncdc".toList (some "CID".toList) 0 1
          ⟨true, true, true, false, false, true, true, true⟩ "files.xml.bz2".toList 7
          (fun _ => some (.complete [])) = some (true, fs') ∧
        fs' "files.xml.bz2".toList = some .unfinished :=
  ⟨_, rfl, (fl_save_trusts_final_close oneFileShare "ncdc".toList (some "CID".toList) 0 1 _ rfl
    "files.xml.bz2".toList 7 _).1 _ rfl (fun _ => rfl)
    rfl rfl rfl (Or.inl rfl)⟩

end Ncdc
