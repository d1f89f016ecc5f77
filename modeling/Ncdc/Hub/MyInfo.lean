import Ncdc.Hub.Nmdc

/-!
The NMDC `$MyINFO` that `hub_send_nfo` writes, read back by `nmdc_handle`'s `$MyINFO` regex
and `user_nmdc_nfo`. The escaping of the spec writes `$` and `|` as entities, so every field
comes back when its value has no surrounding spaces.
-/

namespace Ncdc

/-! ### Reading the pieces back -/

theorem matchMyinfo_frame {nick : List Char} (info : List Char) (hn : nick ≠ [])
    (hsp : ' ' ∉ nick) (hd : '$' ∉ nick) (hi : info ≠ []) :
    matchMyinfo ("$MyINFO $ALL ".toList ++ nick ++ ' ' :: info) = some (nick, info) := by
  have hw : ∀ x ∈ nick, wordChar x = true := fun x hx => by
    simp [wordChar, ne_of_mem_of_not_mem hx hsp, ne_of_mem_of_not_mem hx hd]
  unfold matchMyinfo
  rw [List.append_assoc, literal_append]
  simp only [Option.bind_eq_bind, Option.some_bind, word, run_append ' ' info hn hw rfl]
  simp [literal, rest, hi]

theorem parseNmdcInfo_frame {desc tag conn mail : List Char} (share : Nat)
    (hdesc : '$' ∉ desc) (htag : '$' ∉ tag) (htag' : '<' ∉ tag) (hconn : '$' ∉ conn)
    (hmail : '$' ∉ mail) :
    parseNmdcInfo (desc ++ '<' :: tag ++ '>' :: '$' :: ' ' :: '$' :: conn ++ '\x01' :: '$' ::
        mail ++ '$' :: decimal share ++ ['$']) =
      some ⟨cleanspace desc, cleanspace conn, cleanspace mail, readTag (tag.splitOn ','),
        gAsciiStrtoull (decimal share)⟩ := by
  have h1 := index_append_cons (c := '$') (a := desc ++ '<' :: tag ++ ['>'])
    (' ' :: '$' :: conn ++ '\x01' :: '$' :: mail ++ '$' :: decimal share ++ ['$'])
    (by simp [hdesc, htag])
  have h2 := index_append_cons (c := '$') (a := conn ++ ['\x01'])
    (mail ++ '$' :: decimal share ++ ['$']) (by simp [hconn])
  have h3 := index_append_cons (c := '$') (decimal share ++ ['$']) hmail
  have h4 := index_append_cons (c := '$') [] (not_mem_decimal (c := '$') rfl share)
  have h5 : splitTag (desc ++ '<' :: tag ++ ['>']) = (desc, tag.splitOn ',') := by
    rw [splitTag, if_pos (List.getLast?_concat ..), List.append_assoc, List.cons_append,
      rindex_append_cons desc (by simp [htag'])]
    simp
  simp only [List.append_assoc, List.cons_append, List.singleton_append, List.nil_append]
    at h1 h2 h3 h5 ⊢
  unfold parseNmdcInfo
  simp only [h1, Option.bind_eq_bind, Option.some_bind, h5, h2, h3, h4]
  simp

/-! ### The tag -/

section TagField

variable {t : Tag} {e : List Char}

theorem tagField_first (h : t.client = none) : tagField t e = { t with client := some e } := by
  simp [tagField, h]

theorem tagField_active (h : t.client ≠ none) :
    tagField t "M:A".toList = { t with active := true } := by
  simp [tagField, h]

theorem tagField_hubs {a b c : Nat} (h : t.client ≠ none) (he : e ≠ "M:A".toList)
    (hs : sscanf hubsFormat e [] = (3, [a, b, c])) :
    tagField t e = { t with hNorm := a, hReg := b, hOp := c } := by
  rw [tagField, if_neg h, if_neg he]; simp [hs]

theorem tagField_slots {s : Nat} (h : t.client ≠ none) (he : e ≠ "M:A".toList)
    (hh : sscanf hubsFormat e [] = (0, [])) (hs : sscanf slotsFormat e [] = (1, [s])) :
    tagField t e = { t with slots := s } := by
  rw [tagField, if_neg h, if_neg he]; simp [hh, hs]

theorem tagField_unread (h : t.client ≠ none) (he : e ≠ "M:A".toList)
    (hh : sscanf hubsFormat e [] = (0, [])) (hs : sscanf slotsFormat e [] = (0, []))
    (ho : sscanf autoFormat e [] = (0, [])) : tagField t e = t := by
  rw [tagField, if_neg h, if_neg he]; simp [hh, hs, ho]

end TagField

theorem sscanf_hubsFormat {a b c : Nat} (ha : a < 256) (hb : b < 256) (hc : c < 256) :
    sscanf hubsFormat ("H:".toList ++ decimal a ++ '/' :: decimal b ++ '/' :: decimal c) [] =
      (3, [a, b, c]) := by
  have hw : ∀ n, n < 256 → n < 2 ^ 64 := fun n h => by omega
  simp [hubsFormat, sscanf_unsigned_decimal _ _ (hw a ha), sscanf_unsigned_decimal _ _ (hw b hb),
    sscanf_unsigned_decimal_end _ _ (hw c hc), Nat.mod_eq_of_lt, ha, hb, hc]

theorem sscanf_slotsFormat {s : Nat} (hs : s < 256) :
    sscanf slotsFormat ("S:".toList ++ decimal s) [] = (1, [s]) := by
  simp [slotsFormat, sscanf_unsigned_decimal_end _ _ (show s < 2 ^ 64 by omega),
    Nat.mod_eq_of_lt hs]

theorem readTag_elems (client : List Char) (active : Bool) {hNorm hReg hOp slots : Nat}
    (hn : hNorm < 256) (hr : hReg < 256) (ho : hOp < 256) (hs : slots < 256) :
    readTag [client, ['M', ':', if active then 'A' else 'P'],
        "H:".toList ++ decimal hNorm ++ '/' :: decimal hReg ++ '/' :: decimal hOp,
        "S:".toList ++ decimal slots] =
      ⟨some client, active, hNorm, hReg, hOp, slots, 0⟩ := by
  simp only [readTag, List.foldl]
  rw [tagField_first (t := Tag.init) rfl]
  have hM :
      tagField ⟨some client, false, 0, 0, 0, 0, 0⟩ ['M', ':', if active then 'A' else 'P'] =
      ⟨some client, active, 0, 0, 0, 0, 0⟩ := by
    cases active
    · exact tagField_unread (by simp) (by decide) (sscanf_lit_ne (by decide) _ _ _)
        (sscanf_lit_ne (by decide) _ _ _) (sscanf_lit_ne (by decide) _ _ _)
    · exact tagField_active (by simp)
  rw [Tag.init, hM, tagField_hubs (by simp) (by simp) (sscanf_hubsFormat hn hr ho),
    tagField_slots (e := "S:".toList ++ decimal slots) (by simp) (by simp)
      (sscanf_lit_ne (by decide) _ _ _) (sscanf_slotsFormat hs)]

theorem readTag_ncdc (ver : List Char) (active : Bool) {hNorm hReg hOp slots : Nat}
    (hn : hNorm < 256) (hr : hReg < 256) (ho : hOp < 256) (hs : slots < 256) :
    readTag ["ncdc V:".toList ++ ver, ['M', ':', if active then 'A' else 'P'],
        "H:".toList ++ decimal hNorm ++ '/' :: decimal hReg ++ '/' :: decimal hOp,
        "S:".toList ++ decimal slots] =
      ⟨some ("ncdc V:".toList ++ ver), active, hNorm, hReg, hOp, slots, 0⟩ :=
  readTag_elems _ active hn hr ho hs

/-! ### The round trip -/

/-- What the round trip needs of `nmdc_encode_and_escape` on one advertised value `s`: the
escaped text holds no `$`, neither starts nor ends with a space, is empty exactly when `s`
is, and `nmdc_unescape_and_decode` turns it back into `s`. -/
structure EscapesWell (H : Helpers) (s : List Char) : Prop where
  no_dollar : '$' ∉ H.encodeAndEscape s
  trimmed : Trimmed (H.encodeAndEscape s)
  empty_iff : H.encodeAndEscape s = [] ↔ s = []
  decode : H.unescapeAndDecode (H.encodeAndEscape s) = s

theorem EscapesWell.orNull {H : Helpers} {s : List Char} (h : EscapesWell H s) :
    orNull H.unescapeAndDecode (cleanspace (H.encodeAndEscape s)) = orNull id s := by
  simp [Ncdc.orNull, cleanspace_of_trimmed h.trimmed, h.empty_iff, h.decode]

theorem myinfo_round_trip_of_escapes (H : Helpers) (u : HubUser)
    (nick desc conn mail : List Char) (active : Bool) (hNorm hReg hOp slots share : Nat)
    (hver : '$' ∉ H.version ∧ ',' ∉ H.version ∧ '<' ∉ H.version)
    (hnick : nick ≠ [] ∧ ' ' ∉ nick ∧ '$' ∉ nick)
    (hcounts : hNorm < 256 ∧ hReg < 256 ∧ hOp < 256 ∧ slots < 256) (hshare : share < 2 ^ 64)
    (hdesc : EscapesWell H desc) (hconn : EscapesWell H conn) (hmail : EscapesWell H mail) :
    ∃ str, matchMyinfo (nmdcMyinfoFrame H (some nick) desc conn mail active hNorm hReg hOp
        slots share) = some (nick, str) ∧
      userNmdcNfo H u str =
        { u with desc := orNull id desc, conn := orNull id conn, mail := orNull id mail,
                 sharesize := share, hNorm := hNorm, hReg := hReg, hOp := hOp, slots := slots,
                 active := active, client := some ("ncdc V:".toList ++ H.version),
                 hasinfo := true, as := 0 } := by
  obtain ⟨hv1, hv2, hv3⟩ := hver
  obtain ⟨hn1, hn2, hn3, hn4⟩ := hcounts
  let e1 := "ncdc V:".toList ++ H.version
  let e2 := ['M', ':', if active then 'A' else 'P']
  let e3 := "H:".toList ++ decimal hNorm ++ '/' :: decimal hReg ++ '/' :: decimal hOp
  let e4 := "S:".toList ++ decimal slots
  let tag := e1 ++ ',' :: (e2 ++ ',' :: (e3 ++ ',' :: e4))
  have hframe : nmdcMyinfoFrame H (some nick) desc conn mail active hNorm hReg hOp slots share =
      "$MyINFO $ALL ".toList ++ nick ++ ' ' :: (H.encodeAndEscape desc ++ '<' :: tag ++ '>' ::
        '$' :: ' ' :: '$' :: H.encodeAndEscape conn ++ '\x01' :: '$' :: H.encodeAndEscape mail ++
        '$' :: decimal share ++ ['$']) := by
    simp [nmdcMyinfoFrame, tag, e1, e2, e3, e4]
  have hd : ∀ n, '$' ∉ decimal n := not_mem_decimal rfl
  have hl : ∀ n, '<' ∉ decimal n := not_mem_decimal rfl
  have hc : ∀ n, ',' ∉ decimal n := not_mem_decimal rfl
  have htag : '$' ∉ tag := by simp [tag, e1, e2, e3, e4, hd, hv1]; split <;> simp
  have htag' : '<' ∉ tag := by simp [tag, e1, e2, e3, e4, hl, hv3]; split <;> simp
  have hsplit : tag.splitOn ',' = [e1, e2, e3, e4] := by
    rw [splitOn_append_cons _ (by simp [e1, hv2]),
      splitOn_append_cons _ (by simp [e2]; split <;> simp),
      splitOn_append_cons _ (by simp [e3, hc]), splitOn_of_not_mem (by simp [e4, hc])]
  refine ⟨_, by rw [hframe]; exact matchMyinfo_frame _ hnick.1 hnick.2.1 hnick.2.2 (by simp), ?_⟩
  rw [userNmdcNfo, parseNmdcInfo_frame share hdesc.no_dollar htag htag' hconn.no_dollar
    hmail.no_dollar, hsplit, readTag_ncdc _ _ hn1 hn2 hn3 hn4]
  have hsh : gAsciiStrtoull (decimal share) = share := by
    simpa using @gAsciiStrtoull_decimal share hshare [] (by simp)
  simp only [HubUser.setNmdcInfo, hdesc.orNull, hconn.orNull, hmail.orNull, hsh]
  simp [orNull]

/-! ### The escaping of the spec

`nmdc_encode_and_escape` is not in src/. It converts to the hub's charset and then escapes
`$` as `&#36;` and `|` as `&#124;`, as the spec's legacy wire format says. -/

/-- Modelled from the spec: the escape of one character. -/
def nmdcEscapeChar (c : Char) : List Char :=
  if c = '$' then "&#36;".toList else if c = '|' then "&#124;".toList else [c]

/-- Modelled from the spec: the escape `nmdc_encode_and_escape` applies after the charset
conversion. -/
def nmdcEscape (s : List Char) : List Char := s.flatMap nmdcEscapeChar

/-- Modelled from the spec: the unescape `nmdc_unescape_and_decode` applies before the
charset conversion. -/
def nmdcUnescape : List Char → List Char
  | '&' :: '#' :: '3' :: '6' :: ';' :: s => '$' :: nmdcUnescape s
  | '&' :: '#' :: '1' :: '2' :: '4' :: ';' :: s => '|' :: nmdcUnescape s
  | c :: s => c :: nmdcUnescape s
  | [] => []

theorem nmdcEscapeChar_spec (c : Char) :
    '$' ∉ nmdcEscapeChar c ∧ (nmdcEscapeChar c).head? = some (if c = '$' ∨ c = '|' then '&' else c) ∧
      (nmdcEscapeChar c).getLast? = some (if c = '$' ∨ c = '|' then ';' else c) := by
  by_cases h1 : c = '$'
  · subst h1; decide
  by_cases h2 : c = '|'
  · subst h2; decide
  simp [nmdcEscapeChar, h1, h2, Ne.symm h1]

theorem not_mem_nmdcEscape (s : List Char) : '$' ∉ nmdcEscape s := by
  simp only [nmdcEscape, List.mem_flatMap, not_exists, not_and]
  exact fun c _ => (nmdcEscapeChar_spec c).1

theorem nmdcEscape_eq_nil {s : List Char} : nmdcEscape s = [] ↔ s = [] := by
  cases s with
  | nil => rfl
  | cons c s => simp [nmdcEscape, nmdcEscapeChar]; split_ifs <;> simp

theorem trimmed_nmdcEscape {s : List Char} (h : Trimmed s) : Trimmed (nmdcEscape s) := by
  obtain ⟨hh, hl⟩ := h
  refine ⟨?_, ?_⟩
  · cases s with
    | nil => simp [nmdcEscape]
    | cons c s =>
      simp only [List.head?_cons] at hh
      simp only [nmdcEscape, List.flatMap_cons, List.head?_append, (nmdcEscapeChar_spec c).2.1]
      split_ifs <;> simp_all
  · rcases List.eq_nil_or_concat s with rfl | ⟨l, c, rfl⟩
    · simp [nmdcEscape]
    · simp only [List.concat_eq_append, List.getLast?_append, List.getLast?_singleton] at hl
      simp only [nmdcEscape, List.concat_eq_append, List.flatMap_append, List.flatMap_singleton,
        List.getLast?_append, (nmdcEscapeChar_spec c).2.2]
      split_ifs <;> simp_all

/-- The helpers of a UTF-8 hub with the spec's escaping. -/
def Helpers.escaping : Helpers :=
  { Helpers.plain with encodeAndEscape := nmdcEscape, unescapeAndDecode := nmdcUnescape }

theorem escapesWell_nmdcEscape {H : Helpers}
    (hesc : ∀ s, H.encodeAndEscape s = nmdcEscape (H.fromUtf8 s))
    (hconv : ∀ s, (H.fromUtf8 s = [] ↔ s = []) ∧ (Trimmed s → Trimmed (H.fromUtf8 s)))
    {x : List Char} (ht : Trimmed x) (hdec : H.unescapeAndDecode (H.encodeAndEscape x) = x) :
    EscapesWell H x where
  no_dollar := hesc x ▸ not_mem_nmdcEscape _
  trimmed := hesc x ▸ trimmed_nmdcEscape ((hconv x).2 ht)
  empty_iff := by rw [hesc, nmdcEscape_eq_nil, (hconv x).1]
  decode := hdec

/-- With `nmdc_encode_and_escape` escaping as the spec says after a charset conversion that
keeps the empty string and a string's ends, the `$MyINFO` of `hub_send_nfo` read back by
`user_nmdc_nfo` gives every advertised value, an empty field as `NULL`. -/
theorem myinfo_round_trip (H : Helpers) (u : HubUser) (nick desc conn mail : List Char)
    (active : Bool) (hNorm hReg hOp slots share : Nat)
    (hesc : ∀ s, H.encodeAndEscape s = nmdcEscape (H.fromUtf8 s))
    (hconv : ∀ s, (H.fromUtf8 s = [] ↔ s = []) ∧ (Trimmed s → Trimmed (H.fromUtf8 s)))
    (hdec : ∀ x ∈ [desc, conn, mail], H.unescapeAndDecode (H.encodeAndEscape x) = x)
    (hver : '$' ∉ H.version ∧ ',' ∉ H.version ∧ '<' ∉ H.version)
    (hnick : nick ≠ [] ∧ ' ' ∉ nick ∧ '$' ∉ nick)
    (hcounts : hNorm < 256 ∧ hReg < 256 ∧ hOp < 256 ∧ slots < 256) (hshare : share < 2 ^ 64)
    (htrim : Trimmed desc ∧ Trimmed conn ∧ Trimmed mail) :
    ∃ str, matchMyinfo (nmdcMyinfoFrame H (some nick) desc conn mail active hNorm hReg hOp
        slots share) = some (nick, str) ∧
      userNmdcNfo H u str =
        { u with desc := orNull id desc, conn := orNull id conn, mail := orNull id mail,
                 sharesize := share, hNorm := hNorm, hReg := hReg, hOp := hOp, slots := slots,
                 active := active, client := some ("ncdc V:".toList ++ H.version),
                 hasinfo := true, as := 0 } :=
  myinfo_round_trip_of_escapes H u nick desc conn mail active hNorm hReg hOp slots share hver
    hnick hcounts hshare
    (escapesWell_nmdcEscape hesc hconv htrim.1 (hdec _ (by simp)))
    (escapesWell_nmdcEscape hesc hconv htrim.2.1 (hdec _ (by simp)))
    (escapesWell_nmdcEscape hesc hconv htrim.2.2 (hdec _ (by simp)))

/-- A description holding `$`, no connection and an e-mail, on a UTF-8 hub. -/
theorem myinfo_dollar_desc_round_trip :
    (∀ s, Helpers.escaping.encodeAndEscape s = nmdcEscape (Helpers.escaping.fromUtf8 s)) ∧
      (∀ s, (Helpers.escaping.fromUtf8 s = [] ↔ s = []) ∧
        (Trimmed s → Trimmed (Helpers.escaping.fromUtf8 s))) ∧
      (∀ x ∈ ["5$ a disc".toList, [], "a@b".toList],
        Helpers.escaping.unescapeAndDecode (Helpers.escaping.encodeAndEscape x) = x) ∧
      ∃ str, matchMyinfo (nmdcMyinfoFrame Helpers.escaping (some "me".toList) "5$ a disc".toList
          [] "a@b".toList true 1 0 2 3 1024) = some ("me".toList, str) ∧
        userNmdcNfo Helpers.escaping HubUser.empty str =
          { HubUser.empty with
            desc := orNull id "5$ a disc".toList, conn := orNull id [],
            mail := orNull id "a@b".toList, sharesize := 1024, hNorm := 1, hReg := 0, hOp := 2,
            slots := 3, active := true,
            client := some ("ncdc V:".toList ++ Helpers.escaping.version), hasinfo := true,
            as := 0 } :=
  have hesc : ∀ s, Helpers.escaping.encodeAndEscape s =
      nmdcEscape (Helpers.escaping.fromUtf8 s) := fun _ => rfl
  have hconv : ∀ s, (Helpers.escaping.fromUtf8 s = [] ↔ s = []) ∧
      (Trimmed s → Trimmed (Helpers.escaping.fromUtf8 s)) := fun _ => ⟨Iff.rfl, id⟩
  have hdec : ∀ x ∈ ["5$ a disc".toList, [], "a@b".toList],
      Helpers.escaping.unescapeAndDecode (Helpers.escaping.encodeAndEscape x) = x := by decide
  ⟨hesc, hconv, hdec, myinfo_round_trip Helpers.escaping HubUser.empty "me".toList
    "5$ a disc".toList [] "a@b".toList true 1 0 2 3 1024 hesc hconv hdec (by decide) (by decide)
    (by decide) (by decide) (by decide)⟩

/-! ### The tag shown for a user

`hub_user_tag` prints the tag of a user's record in the form `hub_send_nfo` uses, with an
`O:` element for the automatic-slot speed in KiB/s. Read back by `user_nmdc_nfo`, every field
comes back, the speed rounded down to a multiple of 1024 (`hub_user_tag_read_back`). -/

/-- `hub_user_tag(u)`: `<client,M:A|P,H:n/r/o,S:slots>`, with `,O:` and `as/1024` before the
`>` when `as` is not zero; `NULL` without a client or with no slots. The counters are `%d` of
`unsigned char`s and of `as/1024`, so they print as their decimal values. -/
def hubUserTag (u : HubUser) : Option (List Char) := do
  let client ← u.client
  if u.slots = 0 then none
  else
    let auto := if u.as = 0 then [] else ",O:".toList ++ decimal (u.as / 1024)
    some ('<' :: client ++ ",M:".toList ++ [if u.active then 'A' else 'P'] ++ ",H:".toList ++
      decimal u.hNorm ++ '/' :: decimal u.hReg ++ '/' :: decimal u.hOp ++ ",S:".toList ++
      decimal u.slots ++ auto ++ ['>'])

theorem sscanf_autoFormat {o : Nat} (ho : o < 2 ^ 32) :
    sscanf autoFormat ("O:".toList ++ decimal o) [] = (1, [o]) := by
  have ho' : o < 4294967296 := ho
  simp [autoFormat, sscanf_unsigned_decimal_end _ _ (show o < 2 ^ 64 by omega),
    Nat.mod_eq_of_lt ho', ho']

theorem tagField_auto {t : Tag} {o : Nat} (h : t.client ≠ none) (ho : o < 2 ^ 32) :
    tagField t ("O:".toList ++ decimal o) = { t with as := o } := by
  rw [tagField, if_neg h, if_neg (by simp), sscanf_autoFormat ho]
  simp [sscanf_lit_ne (show 'O' ≠ 'H' by decide), sscanf_lit_ne (show 'O' ≠ 'S' by decide),
    hubsFormat, slotsFormat]

/-- For a record with a non-empty client free of `,`, `<` and `$`, 1 to 255 slots, hub counts below
256 and a 32-bit speed, `hub_user_tag` returns a tag that `user_nmdc_nfo` reads back as the client,
mode, counts, slots and speed rounded down to 1024. -/
theorem hub_user_tag_read_back (u : HubUser) {c : List Char} (hc : u.client = some c)
    (hcl : c ≠ [] ∧ ',' ∉ c ∧ '<' ∉ c ∧ '$' ∉ c)
    (hslots : 0 < u.slots ∧ u.slots < 256)
    (hcounts : u.hNorm < 256 ∧ u.hReg < 256 ∧ u.hOp < 256) (has : u.as < 2 ^ 32) :
    ∃ tag, hubUserTag u = some ('<' :: tag ++ ['>']) ∧
      ∀ (H : Helpers) (v : HubUser) (desc conn mail : List Char) (share : Nat),
        '$' ∉ desc → '$' ∉ conn → '$' ∉ mail →
        let v' := userNmdcNfo H v (desc ++ '<' :: tag ++ '>' :: '$' :: ' ' :: '$' :: conn ++
          '\x01' :: '$' :: mail ++ '$' :: decimal share ++ ['$'])
        v'.client = u.client ∧ v'.active = u.active ∧ v'.hNorm = u.hNorm ∧
          v'.hReg = u.hReg ∧ v'.hOp = u.hOp ∧ v'.slots = u.slots ∧
          v'.as = u.as / 1024 * 1024 := by
  obtain ⟨hne, hcomma, hlt, hdol⟩ := hcl
  obtain ⟨hn, hr, ho⟩ := hcounts
  let e2 := ['M', ':', if u.active then 'A' else 'P']
  let e3 := "H:".toList ++ decimal u.hNorm ++ '/' :: decimal u.hReg ++ '/' :: decimal u.hOp
  let e4 := "S:".toList ++ decimal u.slots
  let e5 := "O:".toList ++ decimal (u.as / 1024)
  let auto := if u.as = 0 then [] else ',' :: e5
  let tag := c ++ ',' :: (e2 ++ ',' :: (e3 ++ ',' :: (e4 ++ auto)))
  have hd : ∀ n, '$' ∉ decimal n := not_mem_decimal rfl
  have hl : ∀ n, '<' ∉ decimal n := not_mem_decimal rfl
  have hcd : ∀ n, ',' ∉ decimal n := not_mem_decimal rfl
  refine ⟨tag, ?_, fun H v desc conn mail share hdesc hconn hmail => ?_⟩
  · simp [hubUserTag, hc, hslots.1.ne', tag, e2, e3, e4, e5, auto]
  · have htag : '$' ∉ tag := by
      simp [tag, e2, e3, e4, e5, auto, hd, hdol]; split <;> simp
    have htag' : '<' ∉ tag := by
      simp [tag, e2, e3, e4, e5, auto, hl, hlt]; split_ifs <;> simp [hl]
    have hsplit : tag.splitOn ',' = [c, e2, e3, e4] ++ if u.as = 0 then [] else [e5] := by
      rw [splitOn_append_cons _ hcomma, splitOn_append_cons _ (by simp [e2]; split <;> simp),
        splitOn_append_cons _ (by simp [e3, hcd])]
      by_cases has0 : u.as = 0
      · simp only [auto, has0, if_true, List.append_nil, splitOn_of_not_mem (show ',' ∉ e4 by
          simp [e4, hcd])]
      · simp only [auto, has0, if_false, splitOn_append_cons _ (show ',' ∉ e4 by simp [e4, hcd]),
          splitOn_of_not_mem (show ',' ∉ e5 by simp [e5, hcd])]
        rfl
    have hread : readTag (tag.splitOn ',') =
        ⟨some c, u.active, u.hNorm, u.hReg, u.hOp, u.slots, u.as / 1024⟩ := by
      rw [hsplit, readTag, List.foldl_append, ← readTag, readTag_elems c u.active hn hr ho
        hslots.2]
      by_cases has0 : u.as = 0
      · simp [has0]
      · simp only [has0, if_false, List.foldl_cons, List.foldl_nil]
        exact tagField_auto (by simp) (lt_of_le_of_lt (Nat.div_le_self _ _) has)
    intro v'
    have hv' : v' = v.setNmdcInfo H ⟨cleanspace desc, cleanspace conn, cleanspace mail,
        ⟨some c, u.active, u.hNorm, u.hReg, u.hOp, u.slots, u.as / 1024⟩,
        gAsciiStrtoull (decimal share)⟩ := by
      simp only [v', userNmdcNfo, parseNmdcInfo_frame share hdesc htag htag' hconn hmail, hread]
    have has' : u.as / 1024 * 1024 < 4294967296 :=
      lt_of_le_of_lt (Nat.div_mul_le_self u.as 1024) has
    rw [hv']
    simp [HubUser.setNmdcInfo, orNull, hne, hc, Nat.mod_eq_of_lt has', has']

/-- A user of client `x` with one slot and 2 KiB/s. -/
theorem one_slot_user_tag :
    let u : HubUser := { HubUser.empty with client := some "x".toList, slots := 1, as := 2048 }
    ∃ tag, hubUserTag u = some ('<' :: tag ++ ['>']) ∧
      ∀ (H : Helpers) (v : HubUser) (desc conn mail : List Char) (share : Nat),
        '$' ∉ desc → '$' ∉ conn → '$' ∉ mail →
        let v' := userNmdcNfo H v (desc ++ '<' :: tag ++ '>' :: '$' :: ' ' :: '$' :: conn ++
          '\x01' :: '$' :: mail ++ '$' :: decimal share ++ ['$'])
        v'.client = u.client ∧ v'.active = u.active ∧ v'.hNorm = u.hNorm ∧
          v'.hReg = u.hReg ∧ v'.hOp = u.hOp ∧ v'.slots = u.slots ∧
          v'.as = u.as / 1024 * 1024 :=
  hub_user_tag_read_back _ rfl (by decide) (by decide) (by decide) (by decide)

end Ncdc
