import Ncdc.FileList.Search
import Ncdc.FileList.Save
import Ncdc.Hub.Nmdc

/-!
`nmdc_search`, the answer to a `$Search`. On a share with I1-I3, a search other than TTH is
answered with the `$SR` messages of the first five (relayed) or ten (direct) nodes the plain
search finds.
-/

namespace Ncdc

/-- What `nmdc_search` reads besides the hub record: the share's records and its root
`fl_local_list`, `fl_local_from_tth`, the uploads that `cc_slots_in_use(NULL)` counts, and
`net_remoteaddr(hub->net)`. -/
structure ShareEnv where
  heap : FlHeap
  root : Option Nat
  fromTth : List Nat → List Nat
  slotsInUse : Nat
  hubaddr : List Char

/-- A reply of `nmdc_search`. -/
inductive SrReply
  /-- `net_sendf(hub->net, "%s\05%s", msg, from+4)` -/
  | hub (frame : List Char)
  /-- `net_udp_sendf(from, "%s|", msg)` -/
  | udp (addr frame : List Char)
  deriving DecidableEq, Repr

namespace HubSearch

/-- The static `exts` table of `nmdc_search`, one row per search type. -/
def exts : List (List (List Char)) :=
  [[], ["mp3", "mp2", "wav", "au", "rm", "mid", "sm"].map String.toList,
    ["zip", "arj", "rar", "lzh", "gz", "z", "arc", "pak"].map String.toList,
    ["doc", "txt", "wri", "pdf", "ps", "tex"].map String.toList,
    ["pm", "exe", "bat", "com"].map String.toList,
    ["gif", "jpg", "jpeg", "bmp", "pcx", "png", "wmf", "psd"].map String.toList,
    ["mpg", "mpeg", "avi", "asf", "mov"].map String.toList, [], [], []]

/-- `exts[type-1]`; `none` outside the table. -/
def extOf (type : Nat) : Option (List (List Char)) :=
  if type = 0 then none else exts.get? (type - 1)

/-- `max`: five results for a search the hub relayed, ten for one from an address. -/
def maxResults (src : List Char) : Int := if src.head? = some 'H' then 5 else 10

/-- `filedir`: files and directories for type 1, directories for type 8, files otherwise. -/
def filedirOf (type : Nat) : Int := if type = 1 then 3 else if type = 8 then 2 else 1

/-- The include list: each `$` of the query turned into a space, `nmdc_unescape_and_decode`,
and `g_strsplit(tmp, " ", 0)`, which gives no words at all for the empty string. -/
def searchTerms (H : Helpers) (query : List Char) : List (List Char) :=
  let tmp := H.unescapeAndDecode (query.map fun c => if c = '$' then ' ' else c)
  if tmp = [] then [] else tmp.splitOn ' '

/-- The loop of the TTH search over the records `fl_local_from_tth` lists, while fewer than
`max` matched: `res[i++] = c` for each one that matches. -/
def tthLoop (FH : FlHeap) (q : SearchQuery) (max : Int) : List Nat → SearchRun → Option SearchRun
  | [], acc => some acc
  | c :: l, acc =>
      if acc.count < max then do
        let n ← FH.nodes c
        let m ← flListSearchMatches n q []
        tthLoop FH q max l (if m then acc.push c else acc)
      else some acc

/-- The `$SR` message for the result `p`: the own nick, the path with `\` for `/`, a file's size,
the slots, a file's `TTH:` root or the hub's name, and the hub's address. `none` where `%s` gets a
`NULL` string. -/
def srMessage (H : Helpers) (conf : Conf) (h : Hub) (env : ShareEnv) (p : Nat) :
    Option (List Char) := do
  let n ← env.heap.nodes p
  let fl ← flListPath env.heap p
  let tmp := H.encodeAndEscape (fl.map fun c => if c = '/' then '\\' else c)
  let size := if n.isfile then '\x05' :: decimal n.size else []
  let nick ← h.nickHub
  let last ← if n.isfile then some ("TTH:".toList ++ base32Encode n.tth.bytes) else h.hubnameHub
  some ("$SR ".toList ++ nick ++ ' ' :: tmp ++ size ++ ' ' :: decimal (conf.slots - env.slotsInUse) ++
    '/' :: decimal conf.slots ++ '\x05' :: last ++ " (".toList ++ env.hubaddr ++ [')'])

/-- The reply that carries `msg`: on the hub connection, addressed to the searching nick,
for a relayed search; a datagram to the searcher's address otherwise. -/
def srReply (src msg : List Char) : SrReply :=
  if src.head? = some 'H' then .hub (msg ++ '\x05' :: src.drop 4) else .udp src (msg ++ ['|'])

/-- `nmdc_search(hub, from, size_m, size, type, query)`: the replies in the order they are
sent, from `res[i-1]` down to `res[0]`, and whether `fl_list_search` stored past the end of
`ninc`. A TTH query of the wrong form is answered with nothing. -/
def nmdcSearch (H : Helpers) (conf : Conf) (h : Hub) (env : ShareEnv) (fuel : Nat)
    (src : List Char) (sizeM : Int) (size : Nat) (type : Nat) (query : List Char) :
    Option (List SrReply × Bool) := do
  let max := maxResults src
  let ext ← extOf type
  let q : SearchQuery := ⟨sizeM, size, filedirOf type, ext⟩
  let r ← if type = 9 then
      if "TTH:".toList.isPrefixOf query ∧ query.length = 4 + 39 then
        tthLoop env.heap q max (env.fromTth (H.base32Decode (query.drop 4))) ⟨0, [], false⟩
      else some ⟨0, [], false⟩
    else flListSearch env.heap q fuel env.root (searchTerms H query) max
  let replies ← (List.range r.count.toNat).reverse.mapM fun (j : Nat) => do
    let p ← r.writes.lookup (j : Int)
    (srMessage H conf h env p).map (srReply src)
  some (replies, r.overflow)

/-! ### The replies -/

theorem mapM_congr_mem {α β : Type} {f g : α → Option β} :
    ∀ {l : List α}, (∀ a ∈ l, f a = g a) → l.mapM f = l.mapM g
  | [], _ => rfl
  | a :: l, h => by
      rw [List.mapM_cons, List.mapM_cons, h a (.head _), mapM_congr_mem fun b hb => h b (.tail _ hb)]

theorem range_reverse_mapM_getElem? {β : Type} (f : Nat → Option β) (P : List Nat) :
    ((List.range P.length).reverse.mapM fun j => P[j]?.bind f) = P.reverse.mapM f := by
  induction P using List.reverseRecOn with
  | nil => rfl
  | append_singleton Q x ih =>
      have hQ : ∀ j ∈ (List.range Q.length).reverse,
          (Q ++ [x])[j]?.bind f = Q[j]?.bind f := fun j hj => by
        rw [List.mem_reverse, List.mem_range] at hj
        rw [List.getElem?_append_left hj]
      rw [List.length_append, List.length_singleton, List.range_succ, List.reverse_append,
        List.reverse_singleton, List.singleton_append, List.mapM_cons, mapM_congr_mem hQ, ih,
        List.reverse_append, List.reverse_singleton, List.singleton_append, List.mapM_cons,
        List.getElem?_append_right (le_refl _), Nat.sub_self]
      rfl

theorem replies_ofList {β : Type} (f : Nat → Option β) (P : List Nat) (ov : Bool) :
    ((List.range (SearchRun.ofList P ov).count.toNat).reverse.mapM fun (j : Nat) =>
      ((SearchRun.ofList P ov).writes.lookup (j : Int)).bind f) = P.reverse.mapM f := by
  rw [SearchRun.ofList_count, Int.toNat_ofNat, ← range_reverse_mapM_getElem? f P]
  refine mapM_congr_mem fun j _ => ?_
  rw [SearchRun.ofList, ← lookup_indexed 0 P j, zero_add]

/-! ### A search other than TTH -/

/-- On a share that is a tree with I1-I3, with fuel for every record, a search of any type
but TTH is answered with the `$SR` messages of the first `max` nodes that the path-based
search finds, the last of them first. -/
theorem nmdc_search_answers_hits {H : Helpers} {conf : Conf} {h : Hub} {env : ShareEnv}
    {v : FlView} {fuel : Nat} (hv : v.Unfolds env.heap) (hg : v.Good)
    (hroot : env.root = some v.ptr) (hfuel : v.ptrs.length ≤ fuel) (src : List Char)
    (sizeM : Int) (size : Nat) {type : Nat} {ext : List (List Char)}
    (hext : extOf type = some ext) (htth : type ≠ 9) (query : List Char) :
    ∃ ov, nmdcSearch H conf h env fuel src sizeM size type query =
      (((searchHits ⟨sizeM, size, filedirOf type, ext⟩ (searchTerms H query)
        (v.descents [])).take (maxResults src).toNat).reverse.mapM fun p =>
          (srMessage H conf h env p).map (srReply src)).map (·, ov) := by
  obtain ⟨ov, hs⟩ := flListSearch_ofList ⟨sizeM, size, filedirOf type, ext⟩
    (searchTerms H query) v [] (maxResults src) hv hg hfuel
  rw [pruneAll_nil] at hs
  refine ⟨ov, ?_⟩
  simp only [nmdcSearch, hext, if_neg htth, hroot, hs, Option.bind_eq_bind, Option.some_bind,
    replies_ofList, Option.map_eq_bind]
  rfl

/-- The song share of `fl_list_search`, with one slot in use, at a hub at `1.2.3.4:411`. -/
def songShare : ShareEnv := ⟨songHeap, some 0, fun _ => [], 1, "1.2.3.4:411".toList⟩

/-- A hub on which the own nick is `me` and the hub is named `H`. -/
def songHub : Hub := { hubCreate with nickHub := some "me".toList, hubnameHub := some "H".toList }

/-- A search for `D` of any type that the hub relayed from `bob`: the answer is the `$SR`
messages of the nodes found, sent on the hub connection. -/
theorem song_search_answered :
    extOf 1 = some [] ∧ ∃ ov, nmdcSearch Helpers.plain Conf.plain songHub songShare 3
      "Hub:bob".toList 0 0 1 "D".toList =
      (((searchHits ⟨0, 0, filedirOf 1, []⟩ (searchTerms Helpers.plain "D".toList)
        (songView.descents [])).take (maxResults "Hub:bob".toList).toNat).reverse.mapM fun p =>
          (srMessage Helpers.plain Conf.plain songHub songShare p).map
            (srReply "Hub:bob".toList)).map (·, ov) :=
  ⟨rfl, nmdc_search_answers_hits songView_unfolds songView_good rfl (by decide) _ 0 0 (rfl : extOf 1 = some [])
    (by decide) _⟩

/-- The directory `d` holds the term and is found as well: both are answered, the song
first, and the store past `ninc` at the unnamed root is reported. -/
example : nmdcSearch Helpers.plain Conf.plain songHub songShare 3 "Hub:bob".toList 0 0 1
    "D".toList = some ([.hub ("$SR me \\d\\a.mp3\x055 2/3\x05TTH:" ++
      "AAAAAAAAAAAAAAAAAAAAAAAAAAAAAAAAAAAAAAA (1.2.3.4:411)\x05bob").toList,
      .hub "$SR me \\d 2/3\x05H (1.2.3.4:411)\x05bob".toList], true) := by
  decide

/-! ### A TTH search -/

/-- The records of `l` that pass the kind and size tests of `q`, in order: what a TTH search
keeps of the records `fl_local_from_tth` lists. -/
def tthHits (FH : FlHeap) (q : SearchQuery) (l : List Nat) : List Nat :=
  l.filter fun c => (FH.nodes c).any (·.searchKindSize q)

theorem tthLoop_ofList {FH : FlHeap} {q : SearchQuery} {max : Int} (hext : q.ext = []) :
    ∀ (l P : List Nat), (∀ c ∈ l, (FH.nodes c).isSome) → P.length ≤ max.toNat →
      tthLoop FH q max l (.ofList P false) =
        some (.ofList (P ++ (tthHits FH q l).take (max.toNat - P.length)) false)
  | [], P, _, _ => by simp [tthLoop, tthHits]
  | c :: l, P, hl, hP => by
      obtain ⟨n, hn⟩ := Option.isSome_iff_exists.1 (hl c (.head _))
      have ih := @tthLoop_ofList FH q max hext l
      have hl' := fun d hd => hl d (.tail _ hd)
      by_cases hmax : (P.length : Int) < max
      · have hm : flListSearchMatches n q [] = some (n.searchKindSize q) := by
          unfold flListSearchMatches; cases n.searchKindSize q <;> simp [hext]
        obtain ⟨k, hk⟩ := Nat.exists_eq_succ_of_ne_zero (n := max.toNat - P.length) (by omega)
        simp only [tthLoop, SearchRun.ofList_count, if_pos hmax, hn, hm, Option.bind_eq_bind,
          Option.some_bind, tthHits, List.filter_cons, Option.any_some]
        cases n.searchKindSize q
        · simpa using ih P hl' hP
        · rw [if_pos rfl, SearchRun.ofList_push, ih _ hl' (by simp; omega), hk]
          simp only [if_pos rfl, List.take_succ_cons, List.append_assoc, List.singleton_append,
            List.length_append, List.length_singleton]
          rw [show max.toNat - (P.length + 1) = k by omega]
          rfl
      · have h0 : max.toNat - P.length = 0 := by omega
        simp [tthLoop, hmax, h0]

/-- A TTH search for a well-formed root is answered with the `$SR` messages of the first `max`
records `fl_local_from_tth` lists that pass the kind and size tests, the last first, with no store
past `ninc`. A TTH query of any other form gets no answer. -/
theorem nmdc_search_tth_answers (H : Helpers) (conf : Conf) (h : Hub) (env : ShareEnv)
    (fuel : Nat) (src : List Char) (sizeM : Int) (size : Nat) (query : List Char)
    (hl : ∀ c ∈ env.fromTth (H.base32Decode (query.drop 4)), (env.heap.nodes c).isSome) :
    nmdcSearch H conf h env fuel src sizeM size 9 query =
      if "TTH:".toList.isPrefixOf query ∧ query.length = 4 + 39 then
        (((tthHits env.heap ⟨sizeM, size, filedirOf 9, []⟩
          (env.fromTth (H.base32Decode (query.drop 4)))).take (maxResults src).toNat).reverse.mapM
            fun p => (srMessage H conf h env p).map (srReply src)).map (·, false)
      else some ([], false) := by
  have hr := @tthLoop_ofList env.heap ⟨sizeM, size, filedirOf 9, []⟩ (maxResults src) rfl _ [] hl
    (Nat.zero_le _)
  simp only [nmdcSearch, show extOf 9 = some [] from rfl, ↓reduceIte, Option.bind_eq_bind,
    Option.some_bind]
  split_ifs
  · rw [show (⟨0, [], false⟩ : SearchRun) = .ofList [] false from rfl, hr]
    simp only [List.nil_append, List.length_nil, Nat.sub_zero, Option.some_bind, replies_ofList,
      Option.map_eq_bind]
    rfl
  · rfl

/-- The song share on which `fl_local_from_tth` lists the song and its directory. -/
def songTthShare : ShareEnv := { songShare with fromTth := fun _ => [2, 1] }

/-- A TTH query of the right form. -/
def tthQuery : List Char := "TTH:".toList ++ List.replicate 39 'A'

/-- A TTH search from an address on that share: the directory fails the file test, the
song is answered. -/
theorem song_tth_answered :
    (∀ c ∈ songTthShare.fromTth (Helpers.plain.base32Decode (tthQuery.drop 4)),
      (songTthShare.heap.nodes c).isSome) ∧
    nmdcSearch Helpers.plain Conf.plain songHub songTthShare 3 "1.2.3.4:9".toList 0 0 9 tthQuery =
      if "TTH:".toList.isPrefixOf tthQuery ∧ tthQuery.length = 4 + 39 then
        (((tthHits songTthShare.heap ⟨0, 0, filedirOf 9, []⟩
          (songTthShare.fromTth (Helpers.plain.base32Decode (tthQuery.drop 4)))).take
            (maxResults "1.2.3.4:9".toList).toNat).reverse.mapM fun p =>
              (srMessage Helpers.plain Conf.plain songHub songTthShare p).map
                (srReply "1.2.3.4:9".toList)).map (·, false)
      else some ([], false) :=
  ⟨by decide, nmdc_search_tth_answers _ _ _ _ _ _ _ _ _ (by decide)⟩

example : nmdcSearch Helpers.plain Conf.plain songHub songTthShare 3 "1.2.3.4:9".toList 0 0 9
    tthQuery = some ([.udp "1.2.3.4:9".toList ("$SR me \\d\\a.mp3\x055 2/3\x05TTH:" ++
      "AAAAAAAAAAAAAAAAAAAAAAAAAAAAAAAAAAAAAAA (1.2.3.4:411)|").toList], false) := by
  decide

end HubSearch

end Ncdc
